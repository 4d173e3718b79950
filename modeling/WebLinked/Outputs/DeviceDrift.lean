import Mathlib
import WebLinked.Base.Int64
import WebLinked.Core.AudioRingReads
import WebLinked.Outputs.AudioDevice

/-!
# A producer that outruns the card

`src/outputs/audio_device.cpp:133–150`, `src/core/audio_ring.cpp:40–137`. `claim` gives a ring
twice its target as capacity, and re-centring asks for more than twice the target. What a
faster producer writes past that is counted as overruns, for as long as it runs.
-/

namespace WebLinked.Outputs.DeviceDrift

open WebLinked.Base WebLinked.Core WebLinked.Core.AudioRing
open WebLinked.Outputs.AudioDevice (configureRing kDeviceSampleRate)

universe u

variable {α : Type u} [Zero α]

/-- A ring that `claim` has configured, for one channel or more; a run of its two sides. -/
def feed (bufferMs : Int) : Machine (State α) (Action α) where
  init s := ∃ (a : AudioRing α) (channels : Int), 0 < channels ∧
    s = { ring := configureRing a channels bufferMs
          writtenBefore := a.framesWritten
          readBefore := a.framesRead }
  step := State.step

end WebLinked.Outputs.DeviceDrift

namespace WebLinked.Core.AudioRing

universe u

variable {α : Type u}

/-- The frames a call brings. -/
def Action.offered : Action α → Nat
  | .write packet => packet.length
  | _ => 0

/-- The frames a call asks for. -/
def Action.asked : Action α → Nat
  | .read frames => frames.toNat
  | _ => 0

/-- Of the frames that were offered, those a write under way still has. -/
def Producer.carries : Producer α → Nat
  | .indexed packet _ => packet.length
  | .copying _ _ _ taken _ => taken
  | _ => 0

/-- Of the frames that were asked for, those a read under way may still take. -/
def Consumer.wants : Consumer α → Nat
  | .playing frames | .indexed frames _ => frames
  | .copying _ _ _ taken _ => taken
  | .starved _ _ dst => dst.length
  | .idle => 0

/-- The frames the read under way skips. -/
def Consumer.skips : Consumer α → Nat
  | .copying _ skipped _ _ _ | .starved skipped _ _ => skipped
  | _ => 0

end WebLinked.Core.AudioRing

namespace WebLinked.Outputs.DeviceDrift

open WebLinked.Base WebLinked.Core WebLinked.Core.AudioRing
open WebLinked.Outputs.AudioDevice (configureRing kDeviceSampleRate)

universe u

variable {α : Type u} [Zero α]

/-- A schedule: which side takes a step when, for ever, after a claim. -/
structure Schedule (α : Type u) [Zero α] (bufferMs : Int) where
  acts : Nat → Action α
  states : Nat → State α
  claimed : (feed bufferMs).init (states 0)
  steps : ∀ n, (feed bufferMs).step (states n) (acts n) = some (states (n + 1))

namespace Schedule

variable {bufferMs : Int} (r : Schedule α bufferMs)

/-- The frames that writes have brought before step `n`. -/
def offered (n : Nat) : Nat := ∑ k ∈ Finset.range n, (r.acts k).offered

/-- The frames that reads have asked for before step `n`. -/
def asked (n : Nat) : Nat := ∑ k ∈ Finset.range n, (r.acts k).asked

/-- No call is about more frames than the target. -/
def Small : Prop := ∀ k, (r.acts k).offered ≤ (r.states 0).ring.target ∧
  (r.acts k).asked ≤ (r.states 0).ring.target

/-- The producer gets ahead of the consumer by any number of frames. -/
def Faster : Prop := ∀ ahead, ∃ n, r.asked n + ahead ≤ r.offered n

/-- The drift correction is made. -/
def Recentres : Prop := ∃ n, (r.states 0).ring.resyncs < (r.states n).ring.resyncs

/-- Writes are short for ever. -/
def Overruns : Prop := ∀ k, ∃ n, (r.states 0).ring.overruns + k ≤ (r.states n).ring.overruns

end Schedule

/-- A claim leaves no room past twice the target. -/
theorem capacity_of_target (a : AudioRing α) (channels bufferMs : Int)
    (h : 0 < (configureRing a channels bufferMs).target) :
    (configureRing a channels bufferMs).capacity =
      2 * (configureRing a channels bufferMs).target := by
  have hcapacity : (max kDeviceSampleRate 0 * (bufferMs * 2)).tdiv 1000 = 96 * bufferMs := by
    have hexact : max kDeviceSampleRate 0 * (bufferMs * 2) = 1000 * (96 * bufferMs) := by
      rw [kDeviceSampleRate, show max (48000 : Int) 0 = 48000 from rfl]
      omega
    rw [hexact, Int.mul_tdiv_cancel_left _ (by decide)]
  have htarget : (max kDeviceSampleRate 0 * bufferMs).tdiv 1000 = 48 * bufferMs := by
    have hexact : max kDeviceSampleRate 0 * bufferMs = 1000 * (48 * bufferMs) := by
      rw [kDeviceSampleRate, show max (48000 : Int) 0 = 48000 from rfl]
      omega
    rw [hexact, Int.mul_tdiv_cancel_left _ (by decide)]
  simp only [configureRing, configure, target, capacity, hcapacity, htarget] at h ⊢
  -- The narrowing to int wraps both alike, or leaves no target.
  have hwrap : (48 * bufferMs).bmod (2 ^ 32) ≤ 0 ∨ (96 * bufferMs).bmod (2 ^ 32) < 0 ∨
      (96 * bufferMs).bmod (2 ^ 32) = 2 * (48 * bufferMs).bmod (2 ^ 32) := by
    simp only [Int.bmod_def]
    omega
  generalize (48 * bufferMs).bmod (2 ^ 32) = targetFrames at h hwrap ⊢
  generalize (96 * bufferMs).bmod (2 ^ 32) = capacityFrames at h hwrap ⊢
  have hhalf : 0 ≤ capacityFrames → capacityFrames.tdiv 2 = capacityFrames / 2 :=
    fun hc ↦ Int.tdiv_eq_ediv_of_nonneg hc
  have hneg : capacityFrames < 0 → capacityFrames.tdiv 2 ≤ 0 :=
    fun hc ↦ tdiv_nonpos_of_nonpos_of_nonneg hc.le (by decide)
  unfold clamp at h ⊢
  split at h
  · omega
  split at h
  · omega
  · omega

/-- The books of a run from `first` on, over `offered` frames and `asked` ones: no frame is
skipped, and each write that was short lost a block at most. -/
structure Account (first : State α) (offered asked : Nat) (s : State α) :
    Prop where
  inv : s.Inv
  usable : s.ring.usable = true
  target : s.ring.target = first.ring.target
  capacity : s.ring.capacity = 2 * first.ring.target
  resyncs : s.ring.resyncs = first.ring.resyncs
  skips : s.consumer.skips = 0
  carries : s.producer.carries ≤ first.ring.target
  offered : offered + first.ring.overruns * first.ring.target ≤
    s.ring.write + s.producer.carries + s.ring.overruns * first.ring.target
  asked : s.ring.read + s.consumer.wants ≤ asked

section Steps

variable {first s t : State α} {offered asked : Nat}

/-- Each step of a `write` keeps the books. -/
theorem Account.produce (h : Account first offered asked s) (ht : s.produce = some t) :
    Account first offered asked t := by
  have hinv := h.inv.produce ht
  have huse : t.ring.usable = true := (State.usable_step (a := .produce) ht).trans h.usable
  have hcarries := h.carries
  have hoffered := h.offered
  unfold State.produce at ht
  cases hp : s.producer with
  | idle =>
    rw [hp] at ht
    cases ht
  | indexed packet write =>
    rw [hp] at ht hcarries hoffered
    cases ht
    have htaken := Nat.min_le_left packet.length (s.ring.capacity - (write - s.ring.read))
    generalize min packet.length (s.ring.capacity - (write - s.ring.read)) = taken at htaken hinv ⊢
    simp only [Producer.carries] at hcarries hoffered
    refine { h with inv := hinv, usable := huse, carries := ?_, offered := ?_ }
    · dsimp only
      split
      · exact Nat.zero_le _
      · exact htaken.trans hcarries
    · have hcarried : (if taken = 0 then (.idle : Producer α) else
          .copying packet write (write - s.ring.read) taken 0).carries = taken := by
        split
        · next hnone => exact hnone.symm
        · rfl
      dsimp only
      rw [hcarried]
      split
      · rw [Nat.add_mul]
        omega
      · omega
  | copying packet write buffered taken copied =>
    have hok := h.inv.producer
    rw [hp] at ht hcarries hoffered hok
    obtain ⟨rfl, -⟩ := hok
    dsimp only at ht
    split at ht
    · cases ht
      exact { h with inv := hinv, usable := huse, carries := hcarries, offered := hoffered }
    · cases ht
      refine { h with inv := hinv, usable := huse, carries := Nat.zero_le _, offered := ?_ }
      simp only [Producer.carries] at hoffered ⊢
      omega
  | stored buffered taken =>
    rw [hp] at ht hcarries hoffered
    cases ht
    refine { h with inv := hinv, usable := huse, carries := ?_, offered := ?_ }
    · dsimp only
      split <;> exact Nat.zero_le _
    · dsimp only
      split <;> exact hoffered
  | clearing =>
    rw [hp] at ht hcarries hoffered
    cases ht
    exact { h with inv := hinv, usable := huse, carries := hcarries, offered := hoffered }

/-- Each step of a `read` keeps the books. -/
theorem Account.consume (h : Account first offered asked s) (ht : s.consume = some t) :
    Account first offered asked t := by
  have hinv := h.inv.consume ht
  have huse : t.ring.usable = true := (State.usable_step (a := .consume) ht).trans h.usable
  have hskips := h.skips
  have hasked := h.asked
  have hok := h.inv.consumer
  unfold State.consume at ht
  cases hc : s.consumer with
  | idle =>
    rw [hc] at ht
    cases ht
  | playing frames =>
    rw [hc] at ht hasked
    cases ht
    exact { h with inv := hinv, usable := huse, skips := rfl, asked := hasked }
  | indexed frames read =>
    rw [hc] at ht hasked hok
    obtain ⟨-, rfl⟩ := hok
    -- The level is at most the capacity, which is not more than twice the target.
    have hlevel : ¬ (0 < s.ring.target ∧ s.ring.target * 2 < s.ring.write - s.ring.read) := by
      have := h.inv.write_le
      have := h.capacity
      have := h.target
      omega
    simp only [hlevel, decide_false, Bool.false_eq_true, if_false] at ht
    cases ht
    refine { h with inv := hinv, usable := huse, skips := rfl, asked := ?_ }
    simp only [Consumer.wants] at hasked ⊢
    omega
  | copying frames skipped read taken dst =>
    rw [hc] at ht hasked hok hskips
    obtain ⟨-, -, -, rfl, -, hdst, -⟩ := hok
    simp only [Consumer.skips] at hskips
    simp only [Consumer.wants] at hasked
    subst hskips
    dsimp only at ht
    split at ht
    · cases ht
      exact { h with inv := hinv, usable := huse, skips := rfl, asked := hasked }
    split at ht
    · cases ht
      refine { h with inv := hinv, usable := huse, skips := rfl, asked := ?_ }
      simp only [Consumer.wants]
      omega
    · cases ht
      refine { h with inv := hinv, usable := huse, skips := rfl, asked := ?_ }
      simp only [Consumer.wants]
      omega
  | starved skipped read dst =>
    rw [hc] at ht hasked hok hskips
    obtain ⟨-, rfl, -⟩ := hok
    simp only [Consumer.skips] at hskips
    simp only [Consumer.wants] at hasked
    subst hskips
    cases ht
    refine { h with inv := hinv, usable := huse, skips := rfl, asked := ?_ }
    simp only [Consumer.wants]
    omega

/-- Each step keeps the books, where no call is about more frames than the target. -/
theorem Account.step (h : Account first offered asked s) {a : Action α}
    (hsmall : a.offered ≤ first.ring.target) (ht : s.step a = some t) :
    Account first (offered + a.offered) (asked + a.asked) t := by
  cases a with
  | write packet =>
    have hinv := h.inv.step ht
    have huse : t.ring.usable = true := (State.usable_step ht).trans h.usable
    have hoffered := h.offered
    rw [State.step] at ht
    split at ht
    · next hidle =>
      rw [hidle] at hoffered
      simp only [Producer.carries] at hoffered
      split at ht
      · next hno =>
        obtain rfl | hno := hno
        · cases ht
          exact h
        · rw [h.usable] at hno
          cases hno
      · cases ht
        refine { h with inv := hinv, usable := huse, carries := hsmall, offered := ?_ }
        simp only [Producer.carries, Action.offered]
        omega
    · cases ht
  | produce => exact h.produce ht
  | read frames =>
    have hinv := h.inv.step ht
    have hasked := h.asked
    rw [State.step] at ht
    split at ht
    · next hidle =>
      rw [hidle] at hasked
      split at ht
      · cases ht
        exact { h with asked := h.asked.trans (Nat.le_add_right _ _) }
      split at ht
      · cases ht
        exact { h with asked := h.asked.trans (Nat.le_add_right _ _) }
      · cases ht
        refine { h with inv := hinv, skips := rfl, asked := ?_ }
        simp only [Consumer.wants, Action.asked] at hasked ⊢
        omega
    · cases ht
  | consume => exact h.consume ht

end Steps

namespace Schedule

variable {bufferMs : Int} {r : Schedule α bufferMs}

/-- The books of the first `n` steps. -/
theorem account (hsmall : r.Small) (hpos : 0 < (r.states 0).ring.target) (n : Nat) :
    Account (r.states 0) (r.offered n) (r.asked n) (r.states n) := by
  induction n with
  | zero =>
    obtain ⟨a, channels, hchannels, hstart⟩ := r.claimed
    have hinv : (r.states 0).Inv := by
      refine State.inv_init ⟨a, channels, kDeviceSampleRate, bufferMs * 2, bufferMs, hstart⟩
    have hcapacity := capacity_of_target a channels bufferMs (by rw [hstart] at hpos; exact hpos)
    have hroom : 0 < (configureRing a channels bufferMs).capacity := by
      rw [hstart] at hpos
      dsimp only at hpos
      omega
    rw [hstart] at hinv ⊢
    refine ⟨hinv, ?_, rfl, hcapacity, rfl, rfl, Nat.zero_le _, ?_, Nat.zero_le _⟩
    · simp only [AudioRing.usable, Bool.and_eq_true, decide_eq_true_eq]
      refine ⟨?_, Int.lt_toNat.mp hroom⟩
      simp only [configureRing, configure]
      omega
    · simp [offered]
  | succ n ih =>
    have hnext := ih.step (hsmall n).1 (r.steps n)
    rw [offered, asked, Finset.sum_range_succ, Finset.sum_range_succ]
    exact hnext

/-- A faster producer is about some frames, so there is a target. -/
theorem target_pos (hsmall : r.Small) (hfaster : r.Faster) : 0 < (r.states 0).ring.target := by
  obtain ⟨n, hn⟩ := hfaster 1
  by_contra hnone
  have hzero : r.offered n = 0 := by
    refine Finset.sum_eq_zero fun k _ ↦ ?_
    have := (hsmall k).1
    omega
  omega

/-- No level is ever past twice the target. -/
theorem not_recentres (hsmall : r.Small) (hpos : 0 < (r.states 0).ring.target) :
    ¬ r.Recentres := by
  rintro ⟨n, hn⟩
  rw [(account hsmall hpos n).resyncs] at hn
  exact Nat.lt_irrefl _ hn

/-- What a faster producer is ahead by and does not fit is overruns. -/
theorem overruns_of_faster (hsmall : r.Small) (hpos : 0 < (r.states 0).ring.target)
    (hfaster : r.Faster) : r.Overruns := by
  intro k
  obtain ⟨n, hn⟩ := hfaster ((k + 3) * (r.states 0).ring.target + 1)
  refine ⟨n, ?_⟩
  have h := account hsmall hpos n
  have hcarries := h.carries
  have hoffered := h.offered
  have hasked := h.asked
  have hroom := h.inv.write_le
  rw [h.capacity] at hroom
  apply Nat.le_of_lt_succ
  apply Nat.lt_of_mul_lt_mul_right (a := (r.states 0).ring.target)
  simp only [Nat.succ_eq_add_one, Nat.add_mul] at hn ⊢
  omega

/-- Whatever the buffer, a producer that runs faster than the card is never re-centred, and
its writes are short for ever. -/
theorem never_recentres (hsmall : r.Small) (hfaster : r.Faster) : ¬ r.Recentres ∧ r.Overruns :=
  ⟨not_recentres hsmall (target_pos hsmall hfaster),
    overruns_of_faster hsmall (target_pos hsmall hfaster) hfaster⟩

end Schedule

/-! ### Calls one after another -/

section Serial

/-- An action is a call, and not the next step of one. -/
def isCall : Action α → Bool
  | .write _ | .read _ => true
  | _ => false

/-- The next step of the call under way, or call `k` if there is none. -/
def turn (calls : Nat → Action α) (k : Nat) (s : State α) : Action α :=
  match s.producer, s.consumer with
  | .idle, .idle => calls k
  | .idle, _ => .consume
  | _, _ => .produce

/-- The calls begun after the next step. -/
def begun (k : Nat) (s : State α) : Nat :=
  match s.producer, s.consumer with
  | .idle, .idle => k + 1
  | _, _ => k

/-- The state after `n` steps of the calls in their order, and how many calls have begun. -/
def serial (calls : Nat → Action α) (s : State α) : Nat → State α × Nat
  | 0 => (s, 0)
  | n + 1 =>
    let (t, k) := serial calls s n
    ((t.step (turn calls k t)).getD t, begun k t)

variable {calls : Nat → Action α} {s : State α}

/-- There is always a step to take: it begins a call, or brings one nearer its end. -/
theorem turn_step (hcalls : ∀ k, isCall (calls k)) (k : Nat) (t : State α) :
    ∃ v, t.step (turn calls k t) = some v ∧
      ((t.producer = .idle ∧ t.consumer = .idle ∧ turn calls k t = calls k ∧ begun k t = k + 1) ∨
        (turn calls k t).offered = 0 ∧ (turn calls k t).asked = 0 ∧ begun k t = k ∧
          v.producer.left + v.consumer.left < t.producer.left + t.consumer.left) := by
  by_cases hp : t.producer = .idle
  · by_cases hc : t.consumer = .idle
    · have hturn : turn calls k t = calls k := by rw [turn, hp, hc]
      have hbegun : begun k t = k + 1 := by rw [begun, hp, hc]
      have hcall := hcalls k
      suffices hstep : ∃ v, t.step (calls k) = some v by
        obtain ⟨v, hv⟩ := hstep
        exact ⟨v, hturn ▸ hv, .inl ⟨hp, hc, hturn, hbegun⟩⟩
      cases hk : calls k with
      | write packet =>
        rw [State.step, hp]
        dsimp only
        split
        · exact ⟨_, rfl⟩
        · exact ⟨_, rfl⟩
      | read frames =>
        rw [State.step, hc]
        dsimp only
        split
        · exact ⟨_, rfl⟩
        split
        · exact ⟨_, rfl⟩
        · exact ⟨_, rfl⟩
      | produce =>
        rw [hk] at hcall
        cases hcall
      | consume =>
        rw [hk] at hcall
        cases hcall
    · have hturn : turn calls k t = .consume := by
        cases hcons : t.consumer with
        | idle => exact absurd hcons hc
        | _ => simp only [turn, hp, hcons]
      have hbegun : begun k t = k := by
        cases hcons : t.consumer with
        | idle => exact absurd hcons hc
        | _ => simp only [begun, hp, hcons]
      obtain ⟨v, hv, hlt, hsame⟩ := State.consume_progress hc
      rw [hturn]
      refine ⟨v, hv, .inr ⟨rfl, rfl, hbegun, ?_⟩⟩
      rw [hsame]
      omega
  · have hturn : turn calls k t = .produce := by
      cases hprod : t.producer with
      | idle => exact absurd hprod hp
      | _ => simp only [turn, hprod]
    have hbegun : begun k t = k := by
      cases hprod : t.producer with
      | idle => exact absurd hprod hp
      | _ => simp only [begun, hprod]
    obtain ⟨v, hv, hlt, hsame⟩ := State.produce_progress hp
    rw [hturn]
    refine ⟨v, hv, .inr ⟨rfl, rfl, hbegun, ?_⟩⟩
    rw [hsame]
    omega

/-- The calls in their order are a schedule. -/
def Schedule.serial {bufferMs : Int} (hcalls : ∀ k, isCall (calls k))
    (h : (feed bufferMs).init s) : Schedule α bufferMs where
  acts n := turn calls (DeviceDrift.serial calls s n).2 (DeviceDrift.serial calls s n).1
  states n := (DeviceDrift.serial calls s n).1
  claimed := h
  steps n := by
    obtain ⟨v, hv, -⟩ := turn_step hcalls (DeviceDrift.serial calls s n).2
      (DeviceDrift.serial calls s n).1
    change State.step _ _ = _
    rw [hv, DeviceDrift.serial]
    dsimp only
    rw [hv]
    rfl

/-- The frames offered and asked for are those of the calls that have begun. -/
theorem sums_serial {bufferMs : Int} (hcalls : ∀ k, isCall (calls k))
    (h : (feed bufferMs).init s) (n : Nat) :
    (Schedule.serial hcalls h).offered n =
        ∑ k ∈ Finset.range (serial calls s n).2, (calls k).offered ∧
      (Schedule.serial hcalls h).asked n =
        ∑ k ∈ Finset.range (serial calls s n).2, (calls k).asked := by
  induction n with
  | zero => exact ⟨rfl, rfl⟩
  | succ n ih =>
    obtain ⟨ihoffered, ihasked⟩ := ih
    rw [Schedule.offered, Schedule.asked, Finset.sum_range_succ, Finset.sum_range_succ]
    rw [Schedule.offered] at ihoffered
    rw [Schedule.asked] at ihasked
    rw [ihoffered, ihasked]
    have hact : (Schedule.serial hcalls h).acts n =
        turn calls (serial calls s n).2 (serial calls s n).1 := rfl
    have hbegun : (serial calls s (n + 1)).2 = begun (serial calls s n).2 (serial calls s n).1 :=
      rfl
    obtain ⟨v, -, ⟨-, -, hturn, hnext⟩ | ⟨hoffered, hasked, hsame, -⟩⟩ :=
      turn_step hcalls (serial calls s n).2 (serial calls s n).1
    · rw [hact, hbegun, hturn, hnext, Finset.sum_range_succ, Finset.sum_range_succ]
      exact ⟨rfl, rfl⟩
    · rw [hact, hbegun, hoffered, hasked, hsame]
      exact ⟨rfl, rfl⟩

/-- Every call has its turn. -/
theorem exists_begun (hcalls : ∀ k, isCall (calls k)) (m : Nat) :
    ∃ n, (serial calls s n).2 = m := by
  induction m with
  | zero => exact ⟨0, rfl⟩
  | succ m ih =>
    obtain ⟨n, hn⟩ := ih
    -- From step `n` on the call under way ends, and the next one begins.
    induction hleft : (serial calls s n).1.producer.left + (serial calls s n).1.consumer.left using
      Nat.strong_induction_on generalizing n with
    | _ left ih =>
      obtain ⟨v, hv, ⟨-, -, -, hnext⟩ | ⟨-, -, hsame, hlt⟩⟩ :=
        turn_step hcalls (serial calls s n).2 (serial calls s n).1
      · refine ⟨n + 1, ?_⟩
        rw [← hn]
        exact hnext
      · have hstate : (serial calls s (n + 1)).1 = v := by
          rw [serial]
          dsimp only
          rw [hv]
          rfl
        have hcount : (serial calls s (n + 1)).2 = m := by
          rw [← hn]
          exact hsame
        exact ih _ (by rw [hstate]; omega) (n + 1) hcount rfl

end Serial

/-- Two frames are written for each that is read. -/
def twoForOne (k : Nat) : Action Int := if k % 2 = 0 then .write [0, 0] else .read 1

theorem isCall_twoForOne (k : Nat) : isCall (twoForOne k) := by
  unfold twoForOne
  split <;> rfl

/-- After two calls each, the writes are a frame further ahead. -/
theorem sums_twoForOne (j : Nat) :
    ∑ k ∈ Finset.range (2 * j), (twoForOne k).offered = 2 * j ∧
      ∑ k ∈ Finset.range (2 * j), (twoForOne k).asked = j := by
  induction j with
  | zero => exact ⟨rfl, rfl⟩
  | succ j ih =>
    have heven : twoForOne (2 * j) = .write [0, 0] := if_pos (by omega)
    have hodd : twoForOne (2 * j + 1) = .read 1 := if_neg (by omega)
    rw [show 2 * (j + 1) = 2 * j + 1 + 1 by omega]
    rw [Finset.sum_range_succ, Finset.sum_range_succ, Finset.sum_range_succ, Finset.sum_range_succ,
      ih.1, ih.2, heven, hodd]
    exact ⟨rfl, rfl⟩

/-- A mono client with a buffer of a millisecond. -/
def client : State Int := { ring := configureRing fresh 1 1 }

theorem claimed_client : (feed 1).init client := ⟨fresh, 1, by decide, rfl⟩

/-- The calls, one after another, at that client. -/
def outrun : Schedule Int 1 := .serial isCall_twoForOne claimed_client

theorem small_outrun : outrun.Small := by
  intro k
  have htarget : (outrun.states 0).ring.target = 48 := by decide +kernel
  rw [htarget]
  change (turn twoForOne _ _).offered ≤ 48 ∧ (turn twoForOne _ _).asked ≤ 48
  unfold turn
  split
  · unfold twoForOne
    split <;> decide
  · decide
  · decide

theorem faster_outrun : outrun.Faster := by
  intro ahead
  obtain ⟨n, hn⟩ := exists_begun (s := client) isCall_twoForOne (2 * ahead)
  obtain ⟨hoffered, hasked⟩ := sums_serial isCall_twoForOne claimed_client n
  obtain ⟨hsum, hsum'⟩ := sums_twoForOne ahead
  refine ⟨n, ?_⟩
  rw [outrun, hoffered, hasked, hn, hsum, hsum']
  omega

/-- That client is never re-centred. -/
theorem never_recentres_outrun : ¬ outrun.Recentres ∧ outrun.Overruns :=
  Schedule.never_recentres small_outrun faster_outrun

/-- So it is not so that every client with a faster producer is re-centred. -/
theorem not_recentred : ¬ ∀ bufferMs, 1 ≤ bufferMs → ∀ r : Schedule Int bufferMs,
    r.Small → r.Faster → r.Recentres := by
  intro h
  exact Schedule.not_recentres small_outrun (Schedule.target_pos small_outrun faster_outrun)
    (h 1 le_rfl outrun small_outrun faster_outrun)

end WebLinked.Outputs.DeviceDrift
