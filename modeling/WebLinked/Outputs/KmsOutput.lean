import Mathlib
import WebLinked.Core.RotatedBlit
import WebLinked.Core.VideoFormat

/-!
# A KMS output

`src/outputs/kms_output.cpp:251–363`. Two buffers, of which the display shows one; a flip that
the driver has accepted is taken later, and told to the output as an event that it collects on
its next `submit`. The display's side is part of the state.
-/

namespace WebLinked.Outputs

open WebLinked.Core

/-- `VideoFrame`, its data as a picture; `src/core/frame.h:17`. -/
structure VideoFrame where
  format : VideoFormat := {}
  sequence : Int
  data : Picture

/-- `KmsOutput`, its buffers by the index `front` is one of, and what the display is doing:
the buffer it shows, the one an accepted flip will show, and whether an event waits. Not in
the code is `reached`, whether what was last drawn got a flip or a modeset. -/
structure KmsOutput where
  sourceWidth : Int
  sourceHeight : Int
  blit : RotatedBlit
  buffers : Bool → Picture := fun _ _ _ ↦ {}
  front : Bool := false
  flipPending : Bool := false
  flipsSupported : Bool := true
  lastSequence : Int := -2 ^ 63
  submitted : Nat := 0
  presented : Nat := 0
  dropped : Nat := 0
  repeats : Nat := 0
  shown : Bool := false
  queued : Option Bool := none
  event : Bool := false
  reached : Bool := true

namespace KmsOutput

/-- `start` once the device is open; `src/outputs/kms_output.cpp:263–289`. -/
def start (format : VideoFormat) (displayWidth displayHeight : Int) (rotation : BlitRotation)
    (fit : BlitFit) : KmsOutput where
  sourceWidth := format.width
  sourceHeight := format.height
  blit := .configure format.width format.height displayWidth displayHeight rotation fit

/-- The display takes the flip it was given. -/
def takeFlip (k : KmsOutput) : Option KmsOutput :=
  k.queued.map fun b ↦ { k with shown := b, queued := none, event := true }

/-- `onPageFlip`; `src/outputs/kms_output.cpp:297`. -/
def onPageFlip (k : KmsOutput) : KmsOutput :=
  { k with flipPending := false, front := !k.front, presented := k.presented + 1 }

/-- `collectFlips` without waiting; `src/outputs/kms_output.cpp:304`. -/
def collectFlips (k : KmsOutput) : KmsOutput :=
  if k.flipPending && k.event then { k with event := false }.onPageFlip else k

/-- The back buffer is drawn and, one way or the other, shown; the flags say whether the driver
accepts the flip and the modeset. `src/outputs/kms_output.cpp:339–363`. -/
def draw (k : KmsOutput) (video : VideoFrame) (flip crtc : Bool) : KmsOutput :=
  let back := !k.front
  let k := { k with
    buffers := fun b ↦ if b = back then k.blit.blit video.data (k.buffers b) else k.buffers b
    lastSequence := video.sequence }
  if k.flipsSupported && flip then
    { k with flipPending := true, queued := some back, reached := true }
  else
    let k := { k with flipsSupported := false }
    if crtc then
      { k with front := !k.front, presented := k.presented + 1, shown := back, reached := true }
    else { k with reached := false }

/-- `submit`; `src/outputs/kms_output.cpp:317`. -/
def submit (k : KmsOutput) (video : VideoFrame) (flip crtc : Bool) : KmsOutput :=
  let k := { k with submitted := k.submitted + 1 }.collectFlips
  if video.sequence = k.lastSequence then { k with repeats := k.repeats + 1 }
  else if video.format.width ≠ k.sourceWidth || video.format.height ≠ k.sourceHeight then k
  else if k.flipPending then { k with dropped := k.dropped + 1 }
  else k.draw video flip crtc

/-- Drawing the picture into the buffer would change nothing. -/
def Holds (k : KmsOutput) (b : Bool) (picture : Picture) : Prop :=
  k.blit.blit picture (k.buffers b) = k.buffers b

/-- The display shows the picture, or will when it takes the flip it was given. -/
def Shows (k : KmsOutput) (picture : Picture) : Prop :=
  k.Holds k.shown picture ∨ ∃ b, k.queued = some b ∧ k.Holds b picture

/-- What the display shows once it has taken the flip it was given, if any. -/
def Presents (k : KmsOutput) (picture : Picture) : Prop := k.Holds (k.queued.getD k.shown) picture

/-- The output knows what its display is doing. -/
structure Tracks (k : KmsOutput) : Prop where
  idle : k.flipPending = false → k.queued = none ∧ k.event = false ∧ k.shown = k.front
  pending : k.flipPending → (k.queued = some (!k.front) ∧ k.event = false ∧ k.shown = k.front) ∨
    (k.queued = none ∧ k.event ∧ k.shown = !k.front)

section Steps

variable {k k' : KmsOutput} {video : VideoFrame} {flip crtc : Bool} {picture : Picture}

/-- What will be shown is on display or in the flip. -/
theorem Presents.shows (h : k.Presents picture) : k.Shows picture := by
  unfold Presents at h
  cases hq : k.queued with
  | none =>
    rw [hq] at h
    exact Or.inl h
  | some b =>
    rw [hq] at h
    exact Or.inr ⟨b, hq, h⟩

/-- A fresh output tracks its display. -/
theorem tracks_start (format : VideoFormat) (displayWidth displayHeight : Int)
    (rotation : BlitRotation) (fit : BlitFit) :
    (start format displayWidth displayHeight rotation fit).Tracks :=
  ⟨fun _ ↦ ⟨rfl, rfl, rfl⟩, nofun⟩

/-- The display takes only a flip that is pending. -/
theorem Tracks.takeFlip (h : k.Tracks) (ht : k.takeFlip = some k') : k'.Tracks := by
  obtain ⟨b, hb, rfl⟩ := Option.map_eq_some_iff.mp ht
  constructor
  · intro hf
    rw [(h.idle hf).1] at hb
    cases hb
  · intro hf
    obtain ⟨hq, -, -⟩ | ⟨hq, -, -⟩ := h.pending hf
    · rw [hq] at hb
      cases hb
      exact Or.inr ⟨rfl, rfl, rfl⟩
    · rw [hq] at hb
      cases hb

/-- Taking a flip changes nothing about what will be shown. -/
theorem Presents.takeFlip (h : k.Presents picture) (ht : k.takeFlip = some k') :
    k'.Presents picture := by
  obtain ⟨b, hb, rfl⟩ := Option.map_eq_some_iff.mp ht
  rwa [Presents, hb] at h

/-- Collecting a flip keeps the output's record of its display. -/
theorem Tracks.collectFlips (h : k.Tracks) : k.collectFlips.Tracks := by
  unfold KmsOutput.collectFlips
  split
  · next hc =>
    obtain ⟨hf, he⟩ := Bool.and_eq_true_iff.mp hc
    obtain ⟨-, he', -⟩ | ⟨hq, -, hs⟩ := h.pending hf
    · rw [he'] at he
      cases he
    · exact ⟨fun _ ↦ ⟨hq, rfl, hs⟩, nofun⟩
  · exact h

/-- The back buffer is neither on display nor in a flip when no flip is pending. -/
theorem Tracks.back_free (h : k.Tracks) (hf : k.flipPending = false) :
    k.shown ≠ !k.front ∧ k.queued ≠ some (!k.front) := by
  obtain ⟨hq, -, hs⟩ := h.idle hf
  rw [hq, hs]
  exact ⟨by simp, nofun⟩

/-- What a draw that reaches the display leaves there. -/
private theorem holds_blit (b : Bool) (hb : k'.buffers b = k'.blit.blit picture (k.buffers b)) :
    k'.Holds b picture := by
  rw [Holds, hb, RotatedBlit.blit_blit]

/-- A draw leaves the output tracking its display, which will show the picture if the flip or
the modeset was accepted. -/
theorem Tracks.draw (h : k.Tracks) (hf : k.flipPending = false) (video : VideoFrame)
    (flip crtc : Bool) :
    (k.draw video flip crtc).Tracks ∧ (k.draw video flip crtc).lastSequence = video.sequence ∧
      ((k.draw video flip crtc).reached → (k.draw video flip crtc).Presents video.data) := by
  obtain ⟨hq, he, hs⟩ := h.idle hf
  unfold KmsOutput.draw
  dsimp only
  split
  · refine ⟨⟨nofun, fun _ ↦ Or.inl ⟨rfl, he, hs⟩⟩, rfl, fun _ ↦ ?_⟩
    exact holds_blit (k := k) (!k.front) (if_pos rfl)
  · split
    · refine ⟨⟨fun _ ↦ ⟨hq, he, rfl⟩, fun hp ↦ ?_⟩, rfl, fun _ ↦ ?_⟩
      · rw [hf] at hp
        cases hp
      · rw [Presents, hq]
        exact holds_blit (k := k) (!k.front) (if_pos rfl)
    · exact ⟨⟨fun _ ↦ ⟨hq, he, hs⟩, fun hp ↦ by simp [hf] at hp⟩, rfl, nofun⟩

private theorem collectFlips_same (k : KmsOutput) :
    k.collectFlips.lastSequence = k.lastSequence ∧ k.collectFlips.reached = k.reached ∧
      ∀ picture, k.Presents picture → k.collectFlips.Presents picture := by
  unfold KmsOutput.collectFlips
  split <;> exact ⟨rfl, rfl, fun _ h ↦ h⟩

/-- A `submit` draws its frame or leaves what was drawn last in place. -/
theorem Tracks.submit (h : k.Tracks) (video : VideoFrame) (flip crtc : Bool) :
    (k.submit video flip crtc).Tracks ∧
      (((k.submit video flip crtc).lastSequence = k.lastSequence ∧
        (k.submit video flip crtc).reached = k.reached ∧
        ∀ picture, k.Presents picture → (k.submit video flip crtc).Presents picture) ∨
      (video.sequence ≠ k.lastSequence ∧
        (k.submit video flip crtc).lastSequence = video.sequence ∧
        ((k.submit video flip crtc).reached → (k.submit video flip crtc).Presents video.data))) := by
  have hsub : { k with submitted := k.submitted + 1 }.Tracks := ⟨h.idle, h.pending⟩
  have hc := hsub.collectFlips
  obtain ⟨hl, hr, hp⟩ := collectFlips_same { k with submitted := k.submitted + 1 }
  unfold KmsOutput.submit
  dsimp only
  split
  · exact ⟨⟨hc.idle, hc.pending⟩, Or.inl ⟨hl, hr, hp⟩⟩
  · next hne =>
    split
    · exact ⟨hc, Or.inl ⟨hl, hr, hp⟩⟩
    · split
      · exact ⟨⟨hc.idle, hc.pending⟩, Or.inl ⟨hl, hr, hp⟩⟩
      · next hf =>
        obtain ⟨ht, hd, hs⟩ := hc.draw (by simpa using hf) video flip crtc
        exact ⟨ht, Or.inr ⟨fun heq ↦ hne (heq.trans hl.symm), hd, hs⟩⟩

end Steps

end KmsOutput
end WebLinked.Outputs
