import Mathlib.Algebra.Order.Ring.Int
import Mathlib.Order.Bounds.Basic
import WebLinked.Base.Int64
import WebLinked.Base.Machine

/-!
# Where scheduled frames go on the card's timeline

`src/core/playout_schedule.h`, `src/core/playout_schedule.cpp`. Frame `n` is displayed at
`n * frameDuration` in the card's units. Before each frame the output says where the card's
playhead is, and a next slot that is not ahead of it moves the index on, to the first whole
frame from there plus the preroll. An `int64_t` that overflows gives `none`.
-/

namespace WebLinked.Core

open WebLinked.Base

/-- `PlayoutSchedule`; `src/core/playout_schedule.h:79–85`. -/
structure PlayoutSchedule where
  frameDuration : Int
  timeScale : Int
  preroll : Int
  next : Int := 0
  reanchors : Int := 0
  skipped : Int := 0
  frameDuration_pos : 0 < frameDuration
  timeScale_pos : 0 < timeScale
  preroll_pos : 0 < preroll
  deriving DecidableEq, Repr

namespace PlayoutSchedule

/-- The constructor, which clamps its arguments; `src/core/playout_schedule.cpp:7–11`. -/
def make (frameDuration timeScale preroll : Int) : PlayoutSchedule where
  frameDuration := max 1 frameDuration
  timeScale := max 1 timeScale
  preroll := max 1 preroll
  frameDuration_pos := by omega
  timeScale_pos := by omega
  preroll_pos := by omega

variable (s : PlayoutSchedule)

/-- `nextDisplayTime`; `src/core/playout_schedule.h:46`. -/
def nextDisplayTime : Option Int := mul64 s.next s.frameDuration

/-- `advance`; `src/core/playout_schedule.h:50`. -/
def advance : Option PlayoutSchedule := do
  let next ← add64 s.next 1
  return { s with next }

/-- How far ahead of the playhead the next slot has to be;
`src/core/playout_schedule.cpp:18`. -/
def margin (lateReported : Bool) : Int := if lateReported then s.frameDuration else 1

/-- `reanchor`, with the slots it skipped; `src/core/playout_schedule.cpp:13–36`. -/
def reanchor (playhead : Int) (lateReported : Bool) : Option (PlayoutSchedule × Int) := do
  let playhead := max 0 playhead
  let display ← s.nextDisplayTime
  let bound ← add64 playhead (s.margin lateReported)
  if display ≥ bound then
    return (s, 0)
  let sum ← add64 playhead s.frameDuration
  let last ← sub64 sum 1
  let onAir ← div64 last s.frameDuration
  let slot ← add64 onAir s.preroll
  let target := max s.next slot
  let skipped ← sub64 target s.next
  if skipped ≤ 0 then
    return (s, 0)
  let reanchors ← add64 s.reanchors 1
  let total ← add64 s.skipped skipped
  return ({ s with next := target, reanchors, skipped := total }, skipped)

/-- `reset`, which keeps the counters; `src/core/playout_schedule.h:68`. -/
def reset : PlayoutSchedule := { s with next := 0 }

/-- `samplePosition`; `src/core/playout_schedule.cpp:38–47`. -/
def samplePosition (index sampleRate : Int) : Option Int := do
  let time ← mul64 index s.frameDuration
  let whole ← div64 time s.timeScale
  let part := time.tmod s.timeScale
  let samples ← mul64 whole sampleRate
  let scaled ← mul64 part sampleRate
  let rest ← div64 scaled s.timeScale
  add64 samples rest

/-- The first whole frame at or after a time. -/
def firstFrameFrom (time : Int) : Int := (time + s.frameDuration - 1) / s.frameDuration

variable {s}

/-- Nothing earlier is at or after the time. -/
theorem isLeast_firstFrameFrom (time : Int) :
    IsLeast {n : Int | time ≤ n * s.frameDuration} (s.firstFrameFrom time) := by
  have hpos := s.frameDuration_pos
  constructor
  · have hmod := Int.emod_lt_of_pos (time + s.frameDuration - 1) hpos
    have hdiv := Int.mul_ediv_add_emod (time + s.frameDuration - 1) s.frameDuration
    rw [Set.mem_ofPred_eq, firstFrameFrom, Int.mul_comm]
    omega
  · intro n hn
    rw [Set.mem_ofPred_eq] at hn
    apply Int.le_of_lt_add_one
    rw [firstFrameFrom, Int.ediv_lt_iff_lt_mul hpos, Int.add_mul]
    omega

/-- The code's rounding up, of a playhead that is not negative. -/
theorem firstFrameFrom_of_tdiv {time : Int} (h : 0 ≤ time) :
    (time + s.frameDuration - 1).tdiv s.frameDuration = s.firstFrameFrom time := by
  have hpos := s.frameDuration_pos
  exact Int.tdiv_eq_ediv_of_nonneg (by omega)

/-- A slot short of the margin lies before the preroll's end. -/
theorem lt_target {playhead : Int} {lateReported : Bool}
    (h : s.next * s.frameDuration < playhead + s.margin lateReported) :
    s.next < s.firstFrameFrom playhead + s.preroll := by
  have hpos := s.frameDuration_pos
  have hpre := s.preroll_pos
  have hleast : playhead ≤ s.firstFrameFrom playhead * s.frameDuration :=
    (isLeast_firstFrameFrom playhead).1
  have hmargin : s.margin lateReported ≤ s.frameDuration := by
    unfold margin
    split <;> omega
  have hlt : s.next * s.frameDuration < (s.firstFrameFrom playhead + 1) * s.frameDuration := by
    rw [Int.add_mul]
    omega
  have := Int.lt_of_mul_lt_mul_right hlt hpos.le
  omega

/-- What `reanchor` did: nothing, as the next slot is far enough ahead, or one jump onto the
first whole frame plus the preroll. -/
theorem reanchor_cases {playhead : Int} {lateReported : Bool} {t : PlayoutSchedule} {k : Int}
    (h : s.reanchor playhead lateReported = some (t, k)) :
    (max 0 playhead + s.margin lateReported ≤ s.next * s.frameDuration ∧ t = s ∧ k = 0) ∨
    (s.next * s.frameDuration < max 0 playhead + s.margin lateReported ∧
      k = s.firstFrameFrom (max 0 playhead) + s.preroll - s.next ∧ 0 < k ∧
      t = { s with
        next := s.firstFrameFrom (max 0 playhead) + s.preroll
        reanchors := s.reanchors + 1
        skipped := s.skipped + k }) := by
  have hhead : (0 : Int) ≤ max 0 playhead := by omega
  simp only [reanchor, nextDisplayTime, bind, Option.bind_eq_some_iff, mul64_eq_some_iff,
    add64_eq_some_iff] at h
  obtain ⟨_, ⟨-, rfl⟩, _, ⟨-, rfl⟩, h⟩ := h
  split at h
  · next hahead =>
    cases h
    exact .inl ⟨hahead, rfl, rfl⟩
  · next hbehind =>
    have hlt := Int.not_le.mp hbehind
    have htarget := lt_target hlt
    simp only [Option.bind_eq_some_iff, sub64_eq_some_iff, add64_eq_some_iff,
      div64_eq_some_iff] at h
    obtain ⟨_, ⟨-, rfl⟩, _, ⟨-, rfl⟩, _, ⟨-, rfl⟩, _, ⟨-, rfl⟩, _, ⟨-, rfl⟩, h⟩ := h
    rw [firstFrameFrom_of_tdiv hhead, Int.max_eq_right htarget.le, if_neg (by omega)] at h
    simp only [Option.bind_eq_some_iff, add64_eq_some_iff] at h
    obtain ⟨_, ⟨-, rfl⟩, _, ⟨-, rfl⟩, h⟩ := h
    cases h
    exact .inr ⟨hlt, rfl, by omega, rfl⟩

/-- The whole seconds and the rest apart, but the same sample, rounded down. -/
theorem samplePosition_eq {index sampleRate v : Int} (hi : 0 ≤ index) (hr : 0 ≤ sampleRate)
    (h : s.samplePosition index sampleRate = some v) :
    v = index * (s.frameDuration * sampleRate) / s.timeScale := by
  have hscale := s.timeScale_pos
  simp only [samplePosition, bind, Option.bind_eq_some_iff, mul64_eq_some_iff, div64_eq_some_iff,
    add64_eq_some_iff] at h
  obtain ⟨time, ⟨-, htime⟩, _, ⟨-, rfl⟩, _, ⟨-, rfl⟩, _, ⟨-, rfl⟩, _, ⟨-, rfl⟩, -, rfl⟩ := h
  have hpos : 0 ≤ time := by
    rw [htime]
    exact Int.mul_nonneg hi s.frameDuration_pos.le
  have hpart : 0 ≤ time % s.timeScale := Int.emod_nonneg _ hscale.ne'
  rw [Int.tdiv_eq_ediv_of_nonneg hpos, Int.tmod_eq_emod_of_nonneg hpos,
    Int.tdiv_eq_ediv_of_nonneg (Int.mul_nonneg hpart hr), ← Int.mul_assoc, ← htime]
  exact ediv_mul_split time sampleRate hscale

/-- A schedule with what happened since it was made or last reset: the indices at which
frames were accepted, newest first, and the slots the re-anchors skipped. -/
structure History where
  schedule : PlayoutSchedule
  accepted : List Int := []
  skipped : Int := 0
  deriving DecidableEq, Repr

/-- The calls an output makes. -/
inductive Call where
  | reanchor (playhead : Int) (lateReported : Bool)
  | advance
  | reset
  deriving DecidableEq, Repr

namespace History

/-- One call, none where it overflows. A frame is accepted at the index that `advance`
leaves. -/
def step (h : History) : Call → Option History
  | .reanchor playhead lateReported => do
    let (schedule, k) ← h.schedule.reanchor playhead lateReported
    return { h with schedule, skipped := h.skipped + k }
  | .advance => do
    let schedule ← h.schedule.advance
    return { h with schedule, accepted := h.schedule.next :: h.accepted }
  | .reset => some { schedule := h.schedule.reset }

/-- Histories of a schedule made with any arguments. -/
def machine : Machine History Call where
  init h := ∃ frameDuration timeScale preroll,
    h = { schedule := PlayoutSchedule.make frameDuration timeScale preroll }
  step := step

/-- The accepted indices grow up to the next one, which counts the advances and the slots
skipped. -/
structure Kept (h : History) : Prop where
  increasing : h.accepted.Pairwise (· > ·)
  below : ∀ i ∈ h.accepted, i < h.schedule.next
  counted : h.schedule.next = h.accepted.length + h.skipped

/-- What a `reanchor` leaves behind. It moves if and only if the next slot was not ahead of
the playhead by the margin, and then onto the first whole frame at or after the playhead
plus the preroll; either way the next slot is ahead by the margin. -/
structure Reanchored (h : History) (playhead : Int) (lateReported : Bool) (t : History) :
    Prop where
  ahead : max 0 playhead + h.schedule.margin lateReported ≤
    t.schedule.next * t.schedule.frameDuration
  moved_iff : t.schedule.next ≠ h.schedule.next ↔
    h.schedule.next * h.schedule.frameDuration <
      max 0 playhead + h.schedule.margin lateReported
  still : t.schedule.next = h.schedule.next → t = h
  lands : t.schedule.next ≠ h.schedule.next → ∃ n,
    IsLeast {n : Int | max 0 playhead ≤ n * h.schedule.frameDuration} n ∧
      t.schedule.next = n + h.schedule.preroll

variable {h t : History}

/-- Every call keeps the count. -/
theorem Kept.step (hk : h.Kept) {c : Call} (ht : h.step c = some t) : t.Kept := by
  cases c with
  | reanchor playhead lateReported =>
    simp only [History.step, bind, Option.bind_eq_some_iff] at ht
    obtain ⟨⟨schedule, k⟩, hr, ht⟩ := ht
    cases ht
    have hle : h.schedule.next ≤ schedule.next ∧ schedule.next = h.schedule.next + k := by
      obtain ⟨-, rfl, rfl⟩ | ⟨-, hskip, hpos, rfl⟩ := reanchor_cases hr
      · omega
      · dsimp only
        omega
    refine ⟨hk.increasing, fun i hi ↦ ?_, ?_⟩
    · have := hk.below i hi
      dsimp only
      omega
    · have := hk.counted
      dsimp only
      omega
  | advance =>
    simp only [History.step, PlayoutSchedule.advance, bind, Option.bind_eq_some_iff,
      add64_eq_some_iff] at ht
    obtain ⟨_, ⟨_, ⟨-, rfl⟩, hs⟩, ht⟩ := ht
    cases hs
    cases ht
    refine ⟨List.pairwise_cons.mpr ⟨hk.below, hk.increasing⟩, fun i hi ↦ ?_, ?_⟩
    · obtain rfl | hi := List.mem_cons.mp hi
      · dsimp only
        omega
      · have := hk.below i hi
        dsimp only
        omega
    · have := hk.counted
      simp only [List.length_cons]
      push_cast
      omega
  | reset =>
    cases ht
    exact ⟨List.Pairwise.nil, nofun, rfl⟩

/-- What a `reanchor` that does not overflow leaves. -/
theorem reanchored_of_step {playhead : Int} {lateReported : Bool}
    (ht : h.step (.reanchor playhead lateReported) = some t) :
    h.Reanchored playhead lateReported t := by
  simp only [History.step, bind, Option.bind_eq_some_iff] at ht
  obtain ⟨⟨schedule, k⟩, hr, ht⟩ := ht
  cases ht
  obtain ⟨hahead, rfl, rfl⟩ | ⟨hlt, hskip, hpos, rfl⟩ := reanchor_cases hr
  · refine ⟨hahead, ⟨fun hne ↦ absurd rfl hne, fun hlt ↦ ?_⟩, fun _ ↦ ?_,
      fun hne ↦ absurd rfl hne⟩
    · omega
    · rw [Int.add_zero]
  · have hne : h.schedule.firstFrameFrom (max 0 playhead) + h.schedule.preroll ≠
        h.schedule.next := by
      omega
    refine ⟨?_, ⟨fun _ ↦ hlt, fun _ ↦ hne⟩, fun heq ↦ absurd heq hne,
      fun _ ↦ ⟨_, isLeast_firstFrameFrom _, rfl⟩⟩
    have hpre := h.schedule.preroll_pos
    have hfd := h.schedule.frameDuration_pos
    have hleast : max 0 playhead ≤
        h.schedule.firstFrameFrom (max 0 playhead) * h.schedule.frameDuration :=
      (isLeast_firstFrameFrom _).1
    have hmargin : h.schedule.margin lateReported ≤ h.schedule.frameDuration := by
      unfold margin
      split <;> omega
    have hroom : 1 * h.schedule.frameDuration ≤
        h.schedule.preroll * h.schedule.frameDuration :=
      Int.mul_le_mul_of_nonneg_right (by omega) hfd.le
    dsimp only
    rw [Int.add_mul]
    omega

/-- The law of every run in which nothing overflows. -/
theorem run_law (hreach : machine.Reachable h) :
    h.Kept ∧ ∀ playhead lateReported t,
      h.step (.reanchor playhead lateReported) = some t → h.Reanchored playhead lateReported t := by
  refine ⟨hreach.invariant ?_ ?_, fun _ _ _ ht ↦ reanchored_of_step ht⟩
  · rintro _ ⟨_, _, _, rfl⟩
    exact ⟨List.Pairwise.nil, nofun, rfl⟩
  · exact fun h c t _ hk ht ↦ hk.step ht

/-- At 59.94 with a preroll of three, a stall of seven frames after the first tick. -/
theorem run_law_stall :
    ∃ h, machine.run { schedule := PlayoutSchedule.make 1001 60000 3 }
        [.advance, .advance, .advance, .reanchor 0 false, .advance, .reanchor 10010 true,
          .advance] = some h ∧
      h.accepted = [13, 3, 2, 1, 0] ∧ h.Kept ∧ ∀ playhead lateReported t,
        h.step (.reanchor playhead lateReported) = some t →
          h.Reanchored playhead lateReported t := by
  have hinit : machine.Reachable { schedule := PlayoutSchedule.make 1001 60000 3 } :=
    .init ⟨1001, 60000, 3, rfl⟩
  obtain ⟨h, hrun, hacc⟩ : ∃ h, machine.run { schedule := PlayoutSchedule.make 1001 60000 3 }
      [.advance, .advance, .advance, .reanchor 0 false, .advance, .reanchor 10010 true,
        .advance] = some h ∧ h.accepted = [13, 3, 2, 1, 0] :=
    ⟨_, rfl, rfl⟩
  exact ⟨h, hrun, hacc, run_law (hinit.run _ hrun)⟩

/-- One unit after the last playhead there is no time to be ahead by. -/
theorem not_reanchored_at_last_playhead :
    ¬ ∀ frameDuration timeScale preroll playhead lateReported, InInt64 playhead →
      ∃ t, History.step { schedule := PlayoutSchedule.make frameDuration timeScale preroll }
          (.reanchor playhead lateReported) = some t ∧
        History.Reanchored { schedule := PlayoutSchedule.make frameDuration timeScale preroll }
          playhead lateReported t := by
  intro h
  obtain ⟨t, ht, -⟩ := h 1 1 1 9223372036854775807 false (by decide)
  have hnone : History.step { schedule := PlayoutSchedule.make 1 1 1 }
      (.reanchor 9223372036854775807 false) = none := by
    decide
  rw [hnone] at ht
  cases ht

end History
end PlayoutSchedule
end WebLinked.Core
