import Mathlib
import WebLinked.Base.Machine
import WebLinked.Core.FrameClock

/-!
# The ticks of a run

`src/core/frame_clock.cpp:49–93`. A call reads the clock three times: to decide whether
to catch up, to know how long to sleep, and to report its lateness. A call that is more than
a period late jumps by whole rounded periods, which is never past the exact deadlines.
-/

namespace WebLinked.Core

open WebLinked.Base

/-- `FrameClock`, with times in nanoseconds after `start_`; `src/core/frame_clock.h:26`. -/
structure FrameClock where
  rate : FrameRate
  nextTick : Int := 0
  droppedTicks : Int := 0
  lastLateness : Int := 0
  deriving DecidableEq, Repr

namespace FrameClock

/-- What `elapsedNanos` gave a call, in order. -/
structure Readings where
  decided : Int
  slept : Int
  woken : Int
  deriving DecidableEq, Repr

/-- `start`; `src/core/frame_clock.cpp:49–54`. -/
def start (c : FrameClock) : FrameClock := { rate := c.rate }

/-- The tick a call settles on, its deadline, and the dropped ticks so far. -/
structure Choice where
  tick : Int
  deadline : Int
  droppedTicks : Int
  deriving DecidableEq, Repr

/-- `waitForNextTick` up to its second reading; `src/core/frame_clock.cpp:70–83`. -/
def catchUp (c : FrameClock) (decided : Int) : Option Choice := do
  let period ← deadlineNanosForTick c.rate 1
  let deadline ← deadlineNanosForTick c.rate c.nextTick
  if period > 0 then
    let limit ← add64 deadline period
    if decided > limit then
      let late ← sub64 decided deadline
      let behind ← div64 late period
      let droppedTicks ← add64 c.droppedTicks behind
      let tick ← add64 c.nextTick behind
      let deadline ← deadlineNanosForTick c.rate tick
      return { tick, deadline, droppedTicks }
    else
      return { tick := c.nextTick, deadline, droppedTicks := c.droppedTicks }
  else
    return { tick := c.nextTick, deadline, droppedTicks := c.droppedTicks }

/-- What a call passes to `sleepPrecise`, zero if it does not sleep. -/
def Choice.sleep (ch : Choice) (slept : Int) : Int :=
  if ch.deadline > slept then ch.deadline - slept else 0

/-- `waitForNextTick`, none where an `int64_t` overflows; `src/core/frame_clock.cpp:69–93`. -/
def waitForNextTick (c : FrameClock) (r : Readings) : Option (Int × FrameClock) := do
  let ch ← c.catchUp r.decided
  let _ ← checked64 (ch.sleep r.slept)
  let lastLateness ← sub64 r.woken ch.deadline
  let nextTick ← add64 ch.tick 1
  return (ch.tick, { c with nextTick, droppedTicks := ch.droppedTicks, lastLateness })

/-- A call that has returned, with `droppedTicks()` after it. -/
structure Call where
  readings : Readings
  tick : Int
  droppedTicks : Int
  deriving DecidableEq, Repr

/-- The clock and the calls since `start`, oldest first. -/
structure Pacing where
  clock : FrameClock
  calls : List Call := []
  deriving DecidableEq, Repr

namespace Pacing

/-- One more call. -/
def step (s : Pacing) (r : Readings) : Option Pacing := do
  let (tick, clock) ← s.clock.waitForNextTick r
  return { clock, calls := s.calls ++ [⟨r, tick, clock.droppedTicks⟩] }

/-- A clock at a rate, just started. -/
def machine (rate : FrameRate) : Machine Pacing Readings where
  init s := ∃ c : FrameClock, c.rate = rate ∧ s = { clock := c.start }
  step := step

/-- Time never goes back, within a call or from call to call, and the sleep lasts as long
as it was asked to. -/
@[mk_iff]
structure OnTime (s : Pacing) (r : Readings) : Prop where
  since : ∀ c ∈ s.calls, c.readings.woken ≤ r.decided
  slept : r.decided ≤ r.slept
  woken : r.slept ≤ r.woken
  enough : ∀ ch ∈ s.clock.catchUp r.decided, r.slept + ch.sleep r.slept ≤ r.woken

instance : DecidableRel OnTime := fun s r ↦ decidable_of_iff' _ (onTime_iff s r)

/-- A call returned a tick that was due, and that was at most a period late when it was
chosen. -/
def Due (rate : FrameRate) (period : Int) (c : Call) : Prop :=
  ∃ deadline, deadlineNanosForTick rate c.tick = some deadline ∧
    deadline ≤ c.readings.woken ∧ c.readings.decided ≤ deadline + period

/-- The law of a run: the ticks grow, each is its number plus the ticks dropped by then, and
is due; and over any stretch there are no more ticks than periods, the first and one call's
lateness apart. -/
structure Lawful (rate : FrameRate) (period : Int) (s : Pacing) : Prop where
  increasing : s.calls.Pairwise fun a b ↦ a.tick < b.tick
  counted : ∀ (i : Nat) c, s.calls[i]? = some c → c.tick = i + c.droppedTicks
  due : ∀ c ∈ s.calls, Due rate period c
  noBurst : ∀ (i j : Nat) a b, s.calls[i]? = some a → s.calls[j]? = some b → i ≤ j →
    (j - i) * period ≤ b.readings.woken - a.readings.decided + period

end Pacing

section Deadlines

variable {rate : FrameRate} {period : Int}

/-- A rate with a period has no zero and no negative term. -/
theorem pos_of_period (h : deadlineNanosForTick rate 1 = some period) (hp : 1 ≤ period) :
    0 < rate.numerator ∧ 0 < rate.denominator := by
  have hnum : 0 < rate.numerator := by
    by_contra hneg
    rw [deadlineNanosForTick, if_pos (by omega)] at h
    cases h
    omega
  refine ⟨hnum, ?_⟩
  by_contra hneg
  rw [deadlineNanosForTick, if_neg (by omega)] at h
  simp only [kNanosPerSecond, bind, Option.bind_eq_some_iff, mul64_eq_some_iff,
    div64_eq_some_iff] at h
  obtain ⟨_, ⟨-, rfl⟩, _, ⟨-, rfl⟩, -, rfl⟩ := h
  have hle : (1 * 1000000000 * rate.denominator).tdiv rate.numerator ≤ 0 :=
    tdiv_nonpos_of_nonpos_of_nonneg (by omega) hnum.le
  omega

/-- From tick zero on, a deadline that does not overflow is the exact one. -/
theorem deadline_eq_exact (hnum : 0 < rate.numerator) (hden : 0 < rate.denominator)
    {tick d : Int} (ht : 0 ≤ tick) (h : deadlineNanosForTick rate tick = some d) :
    d = exactDeadline rate tick := by
  have hfits := ((deadlineNanosForTick_eq_some_iff hnum hden).mp h).1
  rw [(deadline_exact_iff_productFits hnum hden tick).mpr ⟨hfits, .inl ht⟩] at h
  exact (Option.some.inj h).symm

/-- As many ticks on, the exact deadline is at least as many rounded periods later. -/
theorem exactDeadline_add_le (hnum : 0 < rate.numerator) (tick : Int) {k : Int} (hk : 0 ≤ k) :
    exactDeadline rate tick + k * exactDeadline rate 1 ≤ exactDeadline rate (tick + k) := by
  rw [exactDeadline_eq hnum, exactDeadline_eq hnum, exactDeadline_eq hnum,
    Int.le_ediv_iff_mul_le hnum]
  have htick := Int.ediv_mul_le (tick * 1000000000 * rate.denominator) hnum.ne'
  have hone := Int.mul_le_mul_of_nonneg_left
    (Int.ediv_mul_le (1 * 1000000000 * rate.denominator) hnum.ne') hk
  calc (tick * 1000000000 * rate.denominator / rate.numerator +
          k * (1 * 1000000000 * rate.denominator / rate.numerator)) * rate.numerator
      = tick * 1000000000 * rate.denominator / rate.numerator * rate.numerator +
          k * (1 * 1000000000 * rate.denominator / rate.numerator * rate.numerator) := by ring
    _ ≤ tick * 1000000000 * rate.denominator + k * (1 * 1000000000 * rate.denominator) :=
        Int.add_le_add htick hone
    _ = (tick + k) * 1000000000 * rate.denominator := by ring

/-- The tick a call settles on is a number of skipped ticks after the next one, and at most
a period late. -/
theorem catchUp_spec {c : FrameClock} {decided : Int} {ch : Choice}
    (hperiod : deadlineNanosForTick c.rate 1 = some period) (hp : 1 ≤ period)
    (hnext : 0 ≤ c.nextTick) (h : c.catchUp decided = some ch) :
    ∃ behind, 0 ≤ behind ∧ ch.tick = c.nextTick + behind ∧
      ch.droppedTicks = c.droppedTicks + behind ∧
      deadlineNanosForTick c.rate ch.tick = some ch.deadline ∧ decided ≤ ch.deadline + period := by
  obtain ⟨hnum, hden⟩ := pos_of_period hperiod hp
  simp only [catchUp, bind, hperiod, Option.bind_some, Option.bind_eq_some_iff] at h
  obtain ⟨deadline, hd, h⟩ := h
  rw [if_pos (by omega)] at h
  simp only [Option.bind_eq_some_iff, add64_eq_some_iff] at h
  obtain ⟨_, ⟨-, rfl⟩, h⟩ := h
  split at h
  · next hlate =>
    simp only [Option.bind_eq_some_iff, sub64_eq_some_iff, add64_eq_some_iff,
      div64_eq_some_iff] at h
    obtain ⟨_, ⟨-, rfl⟩, _, ⟨-, rfl⟩, _, ⟨-, rfl⟩, _, ⟨-, rfl⟩, later, hlater, h⟩ := h
    cases h
    rw [Int.tdiv_eq_ediv_of_nonneg (by omega)] at hlater ⊢
    have hbehind : 0 ≤ (decided - deadline) / period := Int.ediv_nonneg (by omega) (by omega)
    refine ⟨_, hbehind, rfl, rfl, hlater, ?_⟩
    -- The skipped periods are rounded down, and so end before the exact deadline.
    have hjump := exactDeadline_add_le hnum c.nextTick hbehind
    rw [← deadline_eq_exact hnum hden hnext hd,
      ← deadline_eq_exact hnum hden (by decide) hperiod,
      ← deadline_eq_exact hnum hden (by omega) hlater] at hjump
    have hlt := Int.lt_ediv_add_one_mul_self (decided - deadline) (by omega : 0 < period)
    rw [Int.add_mul] at hlt
    dsimp only
    omega
  · next hsoon =>
    cases h
    refine ⟨0, le_rfl, (Int.add_zero _).symm, (Int.add_zero _).symm, hd, ?_⟩
    dsimp only
    omega

/-- A call returns what it settled on, and goes on from the tick after. -/
theorem waitForNextTick_spec {c c' : FrameClock} {r : Readings} {tick : Int}
    (h : c.waitForNextTick r = some (tick, c')) :
    ∃ ch, c.catchUp r.decided = some ch ∧ tick = ch.tick ∧ c'.rate = c.rate ∧
      c'.nextTick = tick + 1 ∧ c'.droppedTicks = ch.droppedTicks := by
  simp only [waitForNextTick, bind, Option.bind_eq_some_iff, add64_eq_some_iff] at h
  obtain ⟨ch, hch, _, -, _, -, _, ⟨-, rfl⟩, h⟩ := h
  cases h
  exact ⟨ch, hch, rfl, rfl, rfl, rfl⟩

end Deadlines

namespace Pacing

variable {rate : FrameRate} {period : Int} {s t : Pacing} {r : Readings}

/-- What every call keeps: the next tick is the number of calls plus the dropped ticks, which
only grow. -/
structure Inv (rate : FrameRate) (period : Int) (s : Pacing) : Prop where
  sameRate : s.clock.rate = rate
  dropped : 0 ≤ s.clock.droppedTicks
  next : s.clock.nextTick = s.calls.length + s.clock.droppedTicks
  counted : ∀ (i : Nat) c, s.calls[i]? = some c → c.tick = i + c.droppedTicks
  nonneg : ∀ c ∈ s.calls, 0 ≤ c.droppedTicks
  latest : ∀ c ∈ s.calls, c.droppedTicks ≤ s.clock.droppedTicks
  grows : s.calls.Pairwise fun a b ↦ a.droppedTicks ≤ b.droppedTicks
  due : ∀ c ∈ s.calls, Due rate period c

/-- A sleep that is not early wakes at the deadline or after it. -/
theorem OnTime.deadline_le (h : s.OnTime r) {ch : Choice}
    (hch : s.clock.catchUp r.decided = some ch) : ch.deadline ≤ r.woken := by
  have henough := h.enough ch hch
  have hwoken := h.woken
  unfold Choice.sleep at henough
  split at henough
  · omega
  · omega

theorem Inv.step (hperiod : deadlineNanosForTick rate 1 = some period) (hp : 1 ≤ period)
    (inv : Inv rate period s) (hg : s.OnTime r) (h : s.step r = some t) :
    Inv rate period t := by
  obtain ⟨⟨tick, clock⟩, hcall, ht⟩ := Option.bind_eq_some_iff.mp h
  cases ht
  obtain ⟨ch, hch, rfl, hrate, hnext, hdropped⟩ := waitForNextTick_spec hcall
  have hpos := inv.dropped
  have hcount := inv.next
  obtain ⟨behind, hbehind, htick, htotal, hdeadline, hlate⟩ :=
    catchUp_spec (inv.sameRate.symm ▸ hperiod) hp (by omega) hch
  rw [inv.sameRate] at hdeadline
  have hmore : s.clock.droppedTicks ≤ clock.droppedTicks := by omega
  have hlast (c : Call) (hc : c ∈ s.calls ++ [⟨r, ch.tick, clock.droppedTicks⟩]) :
      c ∈ s.calls ∨ c = ⟨r, ch.tick, clock.droppedTicks⟩ := by
    simpa only [List.mem_append, List.mem_singleton] using hc
  constructor
  · exact hrate.trans inv.sameRate
  · dsimp only
    omega
  · simp only [List.length_append, List.length_singleton]
    push_cast
    omega
  · intro i c hc
    dsimp only at hc
    by_cases hi : i < s.calls.length
    · rw [List.getElem?_append_left hi] at hc
      exact inv.counted i c hc
    · rw [List.getElem?_append_right (by omega), List.getElem?_singleton] at hc
      split at hc
      · cases hc
        dsimp only
        omega
      · cases hc
  · intro c hc
    rcases hlast c hc with hold | rfl
    · exact inv.nonneg c hold
    · dsimp only
      omega
  · intro c hc
    rcases hlast c hc with hold | rfl
    · exact (inv.latest c hold).trans hmore
    · exact le_rfl
  · apply List.pairwise_append.mpr
    refine ⟨inv.grows, List.pairwise_singleton _ _, fun a ha b hb ↦ ?_⟩
    rw [List.mem_singleton.mp hb]
    exact (inv.latest a ha).trans hmore
  · intro c hc
    rcases hlast c hc with hold | rfl
    · exact inv.due c hold
    · exact ⟨ch.deadline, hdeadline, hg.deadline_le hch, hlate⟩

/-- Later calls have dropped at least as much. -/
theorem Inv.dropped_le (inv : Inv rate period s) {i j : Nat} {a b : Call}
    (ha : s.calls[i]? = some a) (hb : s.calls[j]? = some b) (hij : i ≤ j) :
    a.droppedTicks ≤ b.droppedTicks := by
  obtain ⟨hi, rfl⟩ := List.getElem?_eq_some_iff.mp ha
  obtain ⟨hj, rfl⟩ := List.getElem?_eq_some_iff.mp hb
  by_cases heq : i = j
  · subst heq
    exact le_rfl
  · exact List.pairwise_iff_getElem.mp inv.grows i j hi hj (by omega)

/-- Ticks that are due and differ are as far apart as the readings allow. -/
theorem Inv.noBurst (hperiod : deadlineNanosForTick rate 1 = some period) (hp : 1 ≤ period)
    (inv : Inv rate period s) {i j : Nat} {a b : Call} (ha : s.calls[i]? = some a)
    (hb : s.calls[j]? = some b) (hij : i ≤ j) :
    (j - i) * period ≤ b.readings.woken - a.readings.decided + period := by
  obtain ⟨hnum, hden⟩ := pos_of_period hperiod hp
  have hamem := List.mem_of_getElem? ha
  have hbmem := List.mem_of_getElem? hb
  obtain ⟨da, hda, -, halate⟩ := inv.due a hamem
  obtain ⟨db, hdb, hbdue, -⟩ := inv.due b hbmem
  have hatick := inv.counted i a ha
  have hbtick := inv.counted j b hb
  have hanonneg := inv.nonneg a hamem
  have hgrows := inv.dropped_le ha hb hij
  have hsplit : b.tick = a.tick + (b.tick - a.tick) := by omega
  have hapart := exactDeadline_add_le hnum a.tick (show 0 ≤ b.tick - a.tick by omega)
  rw [← hsplit, ← deadline_eq_exact hnum hden (by omega) hda,
    ← deadline_eq_exact hnum hden (by omega) hdb,
    ← deadline_eq_exact hnum hden (by decide) hperiod] at hapart
  have hticks : ((j : Int) - i) * period ≤ (b.tick - a.tick) * period :=
    Int.mul_le_mul_of_nonneg_right (by omega) (by omega)
  omega

/-- At every rate with a period of a nanosecond or more, however long the stalls, every run of
calls on time that does not overflow keeps the law. -/
theorem run_lawful (hperiod : deadlineNanosForTick rate 1 = some period) (hp : 1 ≤ period)
    (h : (machine rate).ReachableUnder OnTime s) : s.Lawful rate period := by
  have inv : Inv rate period s := by
    apply h.invariant
    · rintro _ ⟨c, hc, rfl⟩
      constructor
      · exact hc
      · exact le_rfl
      · rfl
      · intro i c hi
        cases hi
      · exact List.forall_mem_nil _
      · exact List.forall_mem_nil _
      · exact List.Pairwise.nil
      · exact List.forall_mem_nil _
    · intro s r t hg inv ht
      exact inv.step hperiod hp hg ht
  refine ⟨?_, inv.counted, inv.due, fun i j a b ha hb hij ↦ inv.noBurst hperiod hp ha hb hij⟩
  apply List.pairwise_iff_getElem.mpr
  intro i j hi hj hij
  have hatick := inv.counted i _ (List.getElem?_eq_getElem hi)
  have hbtick := inv.counted j _ (List.getElem?_eq_getElem hj)
  have hgrows := inv.dropped_le (List.getElem?_eq_getElem hi) (List.getElem?_eq_getElem hj) hij.le
  omega

/-- Two ticks in time at 59.94, a stall of over three periods, and the tick after it. -/
def stall : List Readings :=
  [⟨40, 90, 120⟩, ⟨200, 250, 16683400⟩, ⟨100000000, 100000050, 100000060⟩,
    ⟨100000070, 100000080, 100100009⟩]

/-- The stall drops three ticks, and the run is in step again. -/
theorem run_lawful_stall :
    ∃ s, (machine ⟨60000, 1001⟩).runUnder OnTime { clock := { rate := ⟨60000, 1001⟩ } } stall =
        some s ∧
      s.calls.map Call.tick = [0, 1, 5, 6] ∧ s.Lawful ⟨60000, 1001⟩ 16683333 := by
  have hinit : (machine ⟨60000, 1001⟩).ReachableUnder OnTime
      { clock := { rate := ⟨60000, 1001⟩ } } :=
    .init ⟨{ rate := ⟨60000, 1001⟩ }, rfl, rfl⟩
  have hrun : ((machine ⟨60000, 1001⟩).runUnder OnTime { clock := { rate := ⟨60000, 1001⟩ } }
      stall).map (fun s ↦ s.calls.map Call.tick) = some [0, 1, 5, 6] := by
    decide +kernel
  obtain ⟨s, hs, hticks⟩ := Option.map_eq_some_iff.mp hrun
  exact ⟨s, hs, hticks,
    run_lawful (by decide) (by decide) (hinit.runUnder _ hs)⟩

end Pacing
end FrameClock
end WebLinked.Core
