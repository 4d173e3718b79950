import Mathlib.Algebra.Order.Group.Unbundled.Abs
import Mathlib.Algebra.Order.Ring.Int
import WebLinked.Engine.AudioTick
import WebLinked.Outputs.DeckLinkOutput

/-!
# Sound and picture on a DeckLink's timeline

A started output, fed by the ticks of an engine at the card mode's rate. Each tick's block has the
tick's share of audio, and sound is passed on with the frames that the card accepts. A tick whose
frame is not scheduled takes neither a slot nor its sound; a re-anchor skips slots and their sound.
-/

namespace WebLinked.Outputs

open WebLinked.Base WebLinked.Core WebLinked.Engine

/-- A frame that the card accepted: its tick, its index, the stream time its sound was passed with,
if it was, and the re-anchors so far. -/
structure Sent where
  tick : Int
  index : Int
  streamTime : Option Int := none
  reanchors : Int
  deriving DecidableEq, Repr

/-- An output in the hands of an engine. No tick before `nextTick` is to come; what was sent is
newest first. -/
structure Feed (α β : Type) where
  output : DeckLink α β
  nextTick : Int := 0
  sent : List Sent := []

/-- A tick, the calls that `submit` makes for it, and what the card does by itself. -/
inductive FeedAction (α β : Type) where
  | tick (number : Int) (video : β) (sameRaster : Bool)
  | acquire
  | write (accessible : Bool)
  | schedule (streamTime : Option Int) (accepted : Bool)
  | giveBack
  | sound
  | complete (receiver : Receiver) (frame : α) (result : CompletionResult)
  | stray (receiver : Receiver) (frame : Option α) (result : CompletionResult)

namespace Feed

variable {α β : Type} [DecidableEq α]

/-- A call that sends nothing. -/
def call (black : β) (s : Feed α β) (a : DeckLinkAction α β) : Option (Feed α β) :=
  (s.output.step black a).map fun output ↦ { s with output }

/-- One step. The card takes every sample of a block, which has the frames of its tick. -/
def step (black : β) (rate : FrameRate) (s : Feed α β) : FeedAction α β → Option (Feed α β)
  | .tick number video sameRaster =>
    if s.nextTick ≤ number then do
      let frames ← audioFramesForTick rate kAudioTimeScale number
      let audio := if frames > 0 then some kAudioTimeScale else none
      { s with nextTick := number + 1 }.call black (.callSubmit video audio sameRaster)
    else none
  | .acquire => s.call black .acquire
  | .write accessible => s.call black (.write accessible)
  | .schedule streamTime accepted => do
    let playout ← s.output.playout.beforeSchedule streamTime
    let s ← s.call black (.schedule streamTime accepted)
    if accepted then
      let tick := s.nextTick - 1
      let sent := { tick, index := playout.schedule.next, reanchors := playout.reanchors }
      return { s with sent := sent :: s.sent }
    else return s
  | .giveBack => s.call black .giveBack
  | .sound => do
    let frames ← audioFramesForTick rate kAudioTimeScale (s.nextTick - 1)
    let (streamTime, _) ← s.output.playout.scheduleAudio kAudioTimeScale (some frames)
    let s ← s.call black (.sound (some frames))
    match s.sent with
    | last :: earlier => return { s with sent := { last with streamTime } :: earlier }
    | [] => none
  | .complete receiver frame result => s.call black (.complete receiver frame result)
  | .stray receiver frame result => s.call black (.stray receiver frame result)

/-- A rate that `validate` accepts and that `findDisplayMode` found a mode for;
`src/core/source_config.cpp:264`, `src/outputs/decklink_output.cpp:771–774`. -/
structure Matches (rate : FrameRate) (schedule : PlayoutSchedule) : Prop where
  numerator : 0 < rate.numerator
  denominator : 0 < rate.denominator
  period : schedule.timeScale * rate.denominator = schedule.frameDuration * rate.numerator

/-- Runs of an output from when `start` returns. -/
def machine (black : β) (rate : FrameRate) : Machine (Feed α β) (FeedAction α β) where
  init s := ∃ output, (DeckLink.machine black).Reachable output ∧
    output.step black (.started true) = some s.output ∧
    Matches rate s.output.playout.schedule ∧ s.nextTick = 0 ∧ s.sent = []
  step := step black rate

/-- The ticks between two whose frame was not scheduled. -/
def unscheduled (s : Feed α β) (first last : Int) : List Int :=
  ((List.range (last - first - 1).toNat).map fun (i : Nat) ↦ first + 1 + i).filter
    (· ∉ s.sent.map Sent.tick)

/-- Between any two submits that passed sound on, the distance from sound to picture changed by
less than two samples, and by less than two more for each re-anchor and each tick that was not
scheduled. -/
def Locked (s : Feed α β) : Prop :=
  ∀ e ∈ s.sent, ∀ e' ∈ s.sent, e.tick < e'.tick →
    ∀ sound sound' picture picture', e.streamTime = some sound → e'.streamTime = some sound' →
      s.output.playout.schedule.samplePosition e.index kAudioTimeScale = some picture →
      s.output.playout.schedule.samplePosition e'.index kAudioTimeScale = some picture' →
      |(sound' - picture') - (sound - picture)| <
        2 * (1 + (e'.reanchors - e.reanchors) + (s.unscheduled e.tick e'.tick).length)

end Feed

namespace DeckLink

variable {α β : Type} [DecidableEq α] {black : β} {s t : DeckLink α β}

/-- A completion reports that a frame was late, if it was, and moves nothing. -/
theorem playout_of_completed {receiver : Receiver} {frame : Option α} {result : CompletionResult}
    (ht : s.scheduledFrameCompleted receiver frame result = some t) :
    t.phase = s.phase ∧ t.audioEnabled = s.audioEnabled ∧
      ∃ lateSinceCheck, t.playout = { s.playout with lateSinceCheck } := by
  obtain ⟨ring, -, ht⟩ := Option.bind_eq_some_iff.mp ht
  cases frame with
  | none =>
    cases ht
    exact ⟨rfl, rfl, _, rfl⟩
  | some f =>
    simp only at ht
    split at ht <;> cases ht <;> cases receiver <;> exact ⟨rfl, rfl, _, rfl⟩

/-- No step takes the schedule to a negative index. -/
theorem next_nonneg_step (hs : 0 ≤ s.playout.schedule.next) {a : DeckLinkAction α β}
    (ht : s.step black a = some t) : 0 ≤ t.playout.schedule.next := by
  cases a with
  | schedule streamTime accepted =>
    simp only [step] at ht
    split at ht
    · obtain ⟨p, hp, ht⟩ := Option.bind_eq_some_iff.mp ht
      have hle := (Playout.follows_of_beforeSchedule hp).le
      split at ht
      · obtain ⟨q, hq, ht⟩ := Option.bind_eq_some_iff.mp ht
        rw [Playout.eq_of_frameAccepted hq] at ht
        cases ht
        dsimp only
        omega
      · obtain ⟨q, hq, ht⟩ := Option.bind_eq_some_iff.mp ht
        rw [Playout.eq_of_frameRefused hq] at ht
        cases ht
        exact hs.trans hle
    · cases ht
  | sound written =>
    simp only [step] at ht
    split at ht
    · obtain ⟨⟨streamTime, q⟩, hq, ht⟩ := Option.bind_eq_some_iff.mp ht
      cases ht
      obtain ⟨_, -, hq⟩ := Option.bind_eq_some_iff.mp hq
      obtain ⟨_, -, hq⟩ := Option.bind_eq_some_iff.mp hq
      cases written with
      | none =>
        cases hq
        exact hs
      | some written =>
        obtain ⟨_, -, hq⟩ := Option.bind_eq_some_iff.mp hq
        cases hq
        exact hs
    · cases ht
  | releaseRing =>
    simp only [step] at ht
    split at ht
    · cases ht
      exact le_rfl
    · cases ht
  | installed ok audio frameDuration timeScale =>
    simp only [step] at ht
    split at ht
    · split at ht <;> cases ht <;> exact le_rfl
    · cases ht
  | complete receiver f result =>
    simp only [step] at ht
    split at ht
    · obtain ⟨-, -, late, hplayout⟩ := playout_of_completed ht
      rw [hplayout]
      exact hs
    · cases ht
  | stray receiver frame result =>
    simp only [step] at ht
    split at ht
    · obtain ⟨-, -, late, hplayout⟩ := playout_of_completed ht
      rw [hplayout]
      exact hs
    · cases ht
  | create frame =>
    simp only [step] at ht
    split at ht
    · cases frame with
      | none =>
        cases ht
        exact hs
      | some f =>
        simp only [createFrame] at ht
        split at ht
        · cases ht
        · split at ht <;> cases ht <;> exact hs
    · cases ht
  | callStart | callStop | callSubmit | stopCard | opened | acquire | write | giveBack | started =>
    simp only [step] at ht
    repeat' split at ht
    all_goals cases ht
    all_goals exact hs

/-- No index is negative, whatever was started and stopped. -/
theorem next_nonneg (h : (machine black).Reachable s) : 0 ≤ s.playout.schedule.next := by
  have hinit : ∀ u : DeckLink α β, (machine black).init u → 0 ≤ u.playout.schedule.next := by
    rintro _ ⟨preroll, ring, pixels, rfl⟩
    exact le_rfl
  exact h.invariant hinit fun _ _ _ _ hs ht ↦ next_nonneg_step hs ht

end DeckLink

end WebLinked.Outputs
