import WebLinked.Core.PlayoutSchedule

/-!
# What a DeckLink output hands to the card's timeline

`src/outputs/decklink_output.cpp:1157–1236`. A frame goes to the next slot of the schedule, which
is moved past the card's playhead first; sound goes to the sample position reached so far, which a
re-anchor moves by the same span of time. An `int64_t` that overflows gives `none`.
-/

namespace WebLinked.Outputs

open WebLinked.Base WebLinked.Core

/-- `kAudioTimeScale`; `src/outputs/decklink_output.cpp:1237`. -/
def kAudioTimeScale : Int := 48000

/-- The members of `DeckLinkOutput` that say where picture and sound are on the timeline, and the
flag that late completions set; `src/outputs/decklink_output.cpp:310,1245,1262–1277`. -/
structure Playout where
  schedule : PlayoutSchedule
  playing : Bool := false
  lateSinceCheck : Bool := false
  framesScheduled : Int := 0
  scheduleFailures : Int := 0
  scheduledAudioFrames : Int := 0
  reanchors : Int := 0
  reanchoredFrames : Int := 0
  deriving DecidableEq, Repr

namespace Playout

variable (p : Playout)

/-- The sound that a re-anchor skips; `src/outputs/decklink_output.cpp:1204–1205`. -/
def moveAudio (start skipped : Int) : Option Playout := do
  let target ← add64 start skipped
  let ahead ← p.schedule.samplePosition target kAudioTimeScale
  let behind ← p.schedule.samplePosition start kAudioTimeScale
  let moved ← sub64 ahead behind
  let scheduledAudioFrames ← add64 p.scheduledAudioFrames moved
  return { p with scheduledAudioFrames }

/-- `reanchorIfBehind`, none as the stream time where the card does not give it; a late report is
then kept for the next frame. `src/outputs/decklink_output.cpp:1183–1210`. -/
def reanchorIfBehind (streamTime : Option Int) : Option Playout :=
  match streamTime with
  | none => some p
  | some playhead => do
    let start := p.schedule.next
    let (schedule, skipped) ← p.schedule.reanchor playhead p.lateSinceCheck
    let p := { p with schedule, lateSinceCheck := false }
    if skipped = 0 then return p
    let reanchors ← add64 p.reanchors 1
    let reanchoredFrames ← add64 p.reanchoredFrames skipped
    { p with reanchors, reanchoredFrames }.moveAudio start skipped

/-- `scheduleFrame` up to the call on the card; `src/outputs/decklink_output.cpp:1161–1166`. -/
def beforeSchedule (streamTime : Option Int) : Option Playout := do
  let p ← if p.playing then p.reanchorIfBehind streamTime else some p
  let _ ← p.schedule.nextDisplayTime
  return p

/-- The card took the frame; `src/outputs/decklink_output.cpp:1172–1173`. -/
def frameAccepted : Option Playout := do
  let schedule ← p.schedule.advance
  let framesScheduled ← add64 p.framesScheduled 1
  return { p with schedule, framesScheduled }

/-- The card did not; `src/outputs/decklink_output.cpp:1168`. -/
def frameRefused : Option Playout := do
  let scheduleFailures ← add64 p.scheduleFailures 1
  return { p with scheduleFailures }

/-- `scheduleAudio` with the stream time it passes on, where the card takes `written` samples of
the block or returns an error; `src/outputs/decklink_output.cpp:1226–1235`. -/
def scheduleAudio (sampleRate : Int) (written : Option Int) : Option (Int × Playout) := do
  let scaled ← mul64 p.scheduledAudioFrames kAudioTimeScale
  let streamTime ← div64 scaled sampleRate
  match written with
  | none => return (streamTime, p)
  | some written =>
    let scheduledAudioFrames ← add64 p.scheduledAudioFrames written
    return (streamTime, { p with scheduledAudioFrames })

/-- What `scheduleFrame` does to the timeline before it offers a frame: nothing, or one jump of
the picture, with the sound of the slots skipped. -/
structure Follows (p q : Playout) : Prop where
  frameDuration : q.schedule.frameDuration = p.schedule.frameDuration
  timeScale : q.schedule.timeScale = p.schedule.timeScale
  le : p.schedule.next ≤ q.schedule.next
  moved :
    (q.schedule.next = p.schedule.next ∧ q.scheduledAudioFrames = p.scheduledAudioFrames ∧
      q.reanchors = p.reanchors) ∨
    ∃ ahead behind,
      q.schedule.samplePosition q.schedule.next kAudioTimeScale = some ahead ∧
      q.schedule.samplePosition p.schedule.next kAudioTimeScale = some behind ∧
      q.scheduledAudioFrames = p.scheduledAudioFrames + (ahead - behind) ∧
      q.reanchors = p.reanchors + 1

variable {p} {q : Playout}

theorem Follows.refl (p : Playout) : Follows p p :=
  ⟨rfl, rfl, le_rfl, .inl ⟨rfl, rfl, rfl⟩⟩

/-- Either the schedule was ahead of the playhead, or both went on together. -/
theorem follows_of_reanchorIfBehind {streamTime : Option Int}
    (h : p.reanchorIfBehind streamTime = some q) : Follows p q := by
  cases streamTime with
  | none =>
    cases h
    exact .refl _
  | some playhead =>
    obtain ⟨⟨schedule, skipped⟩, hr, h⟩ := Option.bind_eq_some_iff.mp h
    obtain ⟨-, rfl, rfl⟩ | ⟨-, hskip, hpos, hs⟩ := PlayoutSchedule.reanchor_cases hr
    · cases h
      exact ⟨rfl, rfl, le_rfl, .inl ⟨rfl, rfl, rfl⟩⟩
    · have htarget : p.schedule.next + skipped = schedule.next := by
        rw [hs]
        dsimp only
        omega
      have hbase : schedule.frameDuration = p.schedule.frameDuration ∧
          schedule.timeScale = p.schedule.timeScale := by
        rw [hs]
        exact ⟨rfl, rfl⟩
      dsimp only at h
      rw [if_neg (by omega)] at h
      simp only [moveAudio, bind, Option.bind_eq_some_iff, add64_eq_some_iff,
        sub64_eq_some_iff] at h
      obtain ⟨_, ⟨-, rfl⟩, _, ⟨-, rfl⟩, _, ⟨-, rfl⟩, ahead, hahead, behind, hbehind, _, ⟨-, rfl⟩,
        _, ⟨-, rfl⟩, h⟩ := h
      cases h
      rw [htarget] at hahead
      exact ⟨hbase.1, hbase.2, by dsimp only; omega,
        .inr ⟨ahead, behind, hahead, hbehind, rfl, rfl⟩⟩

theorem follows_of_beforeSchedule {streamTime : Option Int}
    (h : p.beforeSchedule streamTime = some q) : Follows p q := by
  rw [beforeSchedule] at h
  split at h <;> simp only [bind, Option.bind_eq_some_iff] at h
  · obtain ⟨p', hp', _, -, h⟩ := h
    cases h
    exact follows_of_reanchorIfBehind hp'
  · obtain ⟨_, hp', _, -, h⟩ := h
    cases hp'
    cases h
    exact .refl _

/-- An accepted frame takes the next slot. -/
theorem eq_of_frameAccepted (h : p.frameAccepted = some q) :
    q = { p with
      schedule := { p.schedule with next := p.schedule.next + 1 }
      framesScheduled := p.framesScheduled + 1 } := by
  simp only [frameAccepted, PlayoutSchedule.advance, bind, Option.bind_eq_some_iff,
    add64_eq_some_iff] at h
  obtain ⟨_, ⟨_, ⟨-, rfl⟩, hs⟩, _, ⟨-, rfl⟩, h⟩ := h
  cases hs
  cases h
  rfl

/-- A refused one leaves it to the next frame. -/
theorem eq_of_frameRefused (h : p.frameRefused = some q) :
    q = { p with scheduleFailures := p.scheduleFailures + 1 } := by
  simp only [frameRefused, bind, Option.bind_eq_some_iff, add64_eq_some_iff] at h
  obtain ⟨_, ⟨-, rfl⟩, h⟩ := h
  cases h
  rfl

/-- At 48 kHz sound is passed at the position reached, which moves on by what the card took. -/
theorem eq_of_scheduleAudio {streamTime written : Int}
    (h : p.scheduleAudio kAudioTimeScale (some written) = some (streamTime, q)) :
    streamTime = p.scheduledAudioFrames ∧
      q = { p with scheduledAudioFrames := p.scheduledAudioFrames + written } := by
  simp only [scheduleAudio, bind, Option.bind_eq_some_iff, mul64_eq_some_iff, div64_eq_some_iff,
    add64_eq_some_iff] at h
  obtain ⟨_, ⟨-, rfl⟩, _, ⟨-, rfl⟩, _, ⟨-, rfl⟩, h⟩ := h
  cases h
  exact ⟨Int.mul_tdiv_cancel _ (by decide), rfl⟩

end Playout
end WebLinked.Outputs
