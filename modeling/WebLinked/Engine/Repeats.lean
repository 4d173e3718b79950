import WebLinked.Base.Machine
import WebLinked.Core.SourceConfig
import WebLinked.Outputs.KmsOutput

/-!
# Ticks that repeat a paint, on a KMS output

`src/engine/engine.cpp:326–363,406–610,978–993`. The clock numbers its payloads by the paint
they are made from. Other outputs only add composites of the same tick to the list of
backgrounds, and a format change restarts the output, so neither is here.
-/

namespace WebLinked.Engine.Repeats

open WebLinked.Base WebLinked.Core WebLinked.Outputs

/-- `Engine::BackgroundVariant`, as far as a BGRA output uses it; `src/engine/engine.h:245`. -/
structure BackgroundVariant where
  colour : UInt32
  bgra : Option VideoFrame := none
  bgraTick : Int := -1

/-- `Engine::Target`, with the payload made for it; `src/engine/engine.h:385`. -/
structure Target where
  background : OutputBackground
  payload : VideoFrame

/-- The engine as far as it feeds the output: its raster, the output's background, the latest
paint and the number of the next one, the last tick, the composites it keeps, the payload on
its way, and the output. Not in the code is `drawnOver`, the background of what the output
last drew. -/
structure State where
  format : VideoFormat := {}
  background : OutputBackground := {}
  slot : Option VideoFrame := none
  sequence : Nat := 0
  tick : Int := -1
  backgrounds : List BackgroundVariant := []
  target : Option Target := none
  drawnOver : OutputBackground := {}
  kms : KmsOutput

/-- A paint arrives, the background is set, the clock makes the payload of a later tick, the
payload reaches the output or finds its gate held, or the display takes a flip. -/
inductive Action where
  | paint (format : VideoFormat) (data : Picture)
  | setBackground (background : OutputBackground)
  | tick (skipped : Nat)
  | submit (flip crtc : Bool)
  | skip
  | takeFlip

/-- What of a background decides a payload: nothing if it is transparent, or else the colour
composites are kept under. -/
def key (b : OutputBackground) : Option UInt32 := if b.isOpaque then some b.packed else none

/-- The picture over one colour; `src/engine/engine.cpp:354–359`. -/
def composite (colour : UInt32) (source : Picture) : Picture :=
  compositeOverBgra source (colour &&& 0xff).toUInt8 (colour >>> 8 &&& 0xff).toUInt8
    (colour >>> 16 &&& 0xff).toUInt8

namespace State

/-- What `peek` gives, or black before the first paint; `src/engine/engine.cpp:110–117,452–460`. -/
def source (s : State) : VideoFrame :=
  s.slot.getD { format := s.format, sequence := -1, data := fillBlackBgra }

/-- `backgroundVariant`; `src/engine/engine.cpp:326`. -/
def backgroundVariant (s : State) (colour : UInt32) : BackgroundVariant :=
  (s.backgrounds.find? (·.colour = colour)).getD { colour }

/-- `compositedBgra`; `src/engine/engine.cpp:339`. -/
def compositedBgra (s : State) (source : VideoFrame) (colour : UInt32) (tick : Int) :
    State × Option VideoFrame :=
  if !s.format.equal source.format then (s, none)
  else
    let variant := s.backgroundVariant colour
    match if variant.bgraTick = tick then variant.bgra else none with
    | some bgra => (s, some bgra)
    | none =>
      let bgra := { source with data := composite colour source.data }
      let kept := s.backgrounds.filter (·.colour ≠ colour)
      ({ s with backgrounds := { colour, bgra := some bgra, bgraTick := tick } :: kept }, some bgra)

/-- `clockLoop` up to its call of the output; `src/engine/engine.cpp:452–593`. -/
def clockTick (s : State) (skipped : Nat) : State :=
  let s := { s with tick := s.tick + 1 + skipped }
  let frame := s.source
  if !frame.format.equal s.format then s
  else
    let s := { s with
      backgrounds := s.backgrounds.filter fun variant ↦ key s.background = some variant.colour }
    let (s, payload) :=
      match key s.background with
      | some colour => s.compositedBgra frame colour s.tick
      | none => (s, some frame)
    { s with target := payload.map fun payload ↦ { background := s.background, payload } }

/-- One step; none where it cannot happen. -/
def step (s : State) : Action → Option State
  | .paint format data =>
    some { s with
      slot := some { format, sequence := s.sequence, data }
      sequence := s.sequence + 1 }
  | .setBackground background => some { s with background }
  | .tick skipped => if s.target.isSome then none else some (s.clockTick skipped)
  | .submit flip crtc =>
    s.target.map fun target ↦
      let kms := s.kms.submit target.payload flip crtc
      { s with
        target := none
        drawnOver :=
          if kms.lastSequence = s.kms.lastSequence then s.drawnOver else target.background
        kms }
  | .skip => s.target.map fun _ ↦ { s with target := none }
  | .takeFlip => s.kms.takeFlip.map fun kms ↦ { s with kms }

end State

/-- An engine that has just started the output, whatever it painted and composited before. -/
def machine : Machine State Action where
  init s := s.target = none ∧ -1 ≤ s.tick ∧
    (∃ displayWidth displayHeight rotation fit,
      s.kms = .start s.format displayWidth displayHeight rotation fit) ∧
    (∀ f, s.slot = some f → 0 ≤ f.sequence ∧ f.sequence < s.sequence) ∧
    ∀ variant ∈ s.backgrounds, variant.bgraTick ≤ s.tick
  step := State.step

/-- A payload the output would skip is on its display or in its flip, and the buffer it would
draw into is neither. -/
structure RepeatsSound (s : State) : Prop where
  skips : ∀ target, s.target = some target → target.payload.sequence = s.kms.lastSequence →
    s.kms.Shows target.payload.data
  draws : s.kms.collectFlips.flipPending = false →
    s.kms.collectFlips.shown ≠ !s.kms.collectFlips.front ∧
      s.kms.collectFlips.queued ≠ some (!s.kms.collectFlips.front)

/-- The step is no tick that repeats the paint the output last drew under another background,
or after a draw that got neither a flip nor a modeset. -/
def repeatsDrawn (s : State) : Action → Bool
  | .tick _ => s.source.sequence ≠ s.kms.lastSequence ||
      key s.background = key s.drawnOver && s.kms.reached
  | _ => true

variable {s t : State} {a : Action}

/-- What a background makes of a paint. -/
def render (background : OutputBackground) (source : Picture) : Picture :=
  match key background with
  | some colour => composite colour source
  | none => source

section Step

/-- The number names this picture, now and for good. -/
private structure Names (s : State) (sequence : Int) (picture : Picture) : Prop where
  old : sequence < s.sequence
  same : s.source.sequence = sequence → s.source.data = picture

/-- What the output shows of the paint it drew last. -/
private def Drawn (s : State) : Prop :=
  ∃ picture, Names s s.kms.lastSequence picture ∧
    (s.kms.reached → -1 ≤ s.kms.lastSequence → s.kms.Presents (render s.drawnOver picture))

/-- What is on its way to the output. -/
private structure Planned (s : State) (target : Target) : Prop where
  numbered : -1 ≤ target.payload.sequence
  made : ∃ picture, Names s target.payload.sequence picture ∧
    target.payload.data = render target.background picture
  drawn : target.payload.sequence = s.kms.lastSequence → s.kms.Presents target.payload.data

private structure Inv (s : State) : Prop where
  tracks : s.kms.Tracks
  tick : -1 ≤ s.tick
  slot : ∀ f, s.slot = some f → 0 ≤ f.sequence ∧ f.sequence < s.sequence
  variants : ∀ variant ∈ s.backgrounds, variant.bgraTick ≤ s.tick
  drawn : Drawn s
  planned : ∀ target, s.target = some target → Planned s target

private theorem Inv.source (inv : Inv s) :
    -1 ≤ s.source.sequence ∧ s.source.sequence < s.sequence := by
  unfold State.source
  cases hs : s.slot with
  | none =>
    simp only [Option.getD_none]
    omega
  | some f =>
    obtain ⟨h₀, h₁⟩ := inv.slot f hs
    exact ⟨by simp only [Option.getD_some]; omega, h₁⟩

private theorem Inv.sound (inv : Inv s) : RepeatsSound s :=
  ⟨fun target ht hn ↦ ((inv.planned target ht).drawn hn).shows,
    fun hf ↦ inv.tracks.collectFlips.back_free hf⟩

private theorem Names.paint {n : Int} {picture : Picture} (h : Names s n picture)
    (format : VideoFormat) (data : Picture) :
    Names { s with
      slot := some { format, sequence := s.sequence, data }
      sequence := s.sequence + 1 } n picture := by
  have hold := h.old
  refine ⟨by dsimp only; omega, fun hn ↦ ?_⟩
  simp only [State.source, Option.getD_some] at hn
  omega

private theorem Inv.paint (inv : Inv s) (format : VideoFormat) (data : Picture) :
    Inv { s with
      slot := some { format, sequence := s.sequence, data }
      sequence := s.sequence + 1 } := by
  obtain ⟨picture, hn, hp⟩ := inv.drawn
  refine ⟨inv.tracks, inv.tick, fun f hf ↦ ?_, inv.variants, ⟨picture, hn.paint format data, hp⟩,
    fun target ht ↦ ?_⟩
  · cases hf
    dsimp only
    omega
  · obtain ⟨hnum, ⟨q, hq, hmade⟩, hd⟩ := inv.planned target ht
    exact ⟨hnum, ⟨q, hq.paint format data, hmade⟩, hd⟩

private theorem Inv.takeFlip (inv : Inv s) {kms : KmsOutput} (h : s.kms.takeFlip = some kms) :
    Inv { s with kms } := by
  have htracks := inv.tracks.takeFlip h
  have hpresents : ∀ picture, s.kms.Presents picture → kms.Presents picture :=
    fun _ hp ↦ hp.takeFlip h
  have hsame : kms.lastSequence = s.kms.lastSequence ∧ kms.reached = s.kms.reached := by
    obtain ⟨b, hb, rfl⟩ := Option.map_eq_some_iff.mp h
    exact ⟨rfl, rfl⟩
  obtain ⟨picture, hn, hp⟩ := inv.drawn
  refine ⟨htracks, inv.tick, inv.slot, inv.variants, ⟨picture, ?_, ?_⟩, fun target ht ↦ ?_⟩
  · rw [hsame.1]
    exact ⟨hn.old, hn.same⟩
  · simp only [hsame]
    exact fun hr hl ↦ hpresents _ (hp hr hl)
  · obtain ⟨hnum, ⟨q, hq, hmade⟩, hd⟩ := inv.planned target ht
    refine ⟨hnum, ⟨q, ⟨hq.old, hq.same⟩, hmade⟩, fun heq ↦ hpresents _ (hd ?_)⟩
    exact heq.trans hsame.1

private theorem Inv.submit (inv : Inv s) {target : Target} (ht : s.target = some target)
    (flip crtc : Bool) :
    Inv { s with
      target := none
      drawnOver :=
        if (s.kms.submit target.payload flip crtc).lastSequence = s.kms.lastSequence then
          s.drawnOver
        else target.background
      kms := s.kms.submit target.payload flip crtc } := by
  obtain ⟨htracks, hcases⟩ := inv.tracks.submit target.payload flip crtc
  refine ⟨htracks, inv.tick, inv.slot, inv.variants, ?_, nofun⟩
  obtain ⟨hl, hr, hp⟩ | ⟨hne, hl, hp⟩ := hcases
  · obtain ⟨picture, hn, hd⟩ := inv.drawn
    refine ⟨picture, ?_, ?_⟩
    · rw [hl]
      exact ⟨hn.old, hn.same⟩
    · simp only [hl, hr, if_true]
      exact fun hreached hl ↦ hp _ (hd hreached hl)
  · obtain ⟨-, ⟨q, hq, hmade⟩, -⟩ := inv.planned target ht
    refine ⟨q, ?_, ?_⟩
    · rw [hl]
      exact ⟨hq.old, hq.same⟩
    · simp only [hl, hne, if_false]
      exact fun hreached _ ↦ hmade ▸ hp hreached

/-- A composite kept from an earlier tick is not used again. -/
private theorem compositedBgra_spec (hv : ∀ variant ∈ s.backgrounds, variant.bgraTick < s.tick)
    (ht : 0 ≤ s.tick) {source payload : VideoFrame} {colour : UInt32} {t : State}
    (h : s.compositedBgra source colour s.tick = (t, some payload)) :
    payload = { source with data := composite colour source.data } ∧
      ∃ backgrounds, t = { s with backgrounds } ∧
        ∀ variant ∈ backgrounds, variant.bgraTick ≤ s.tick := by
  have hold : (s.backgroundVariant colour).bgraTick ≠ s.tick := by
    unfold State.backgroundVariant
    cases hf : s.backgrounds.find? (·.colour = colour) with
    | none =>
      simp only [Option.getD_none]
      omega
    | some variant =>
      have hlt := hv variant (List.mem_of_find?_eq_some hf)
      simp only [Option.getD_some]
      omega
  unfold State.compositedBgra at h
  split at h
  · cases h
  · simp only [hold, if_false] at h
    cases h
    refine ⟨rfl, _, rfl, fun variant hm ↦ ?_⟩
    rcases List.mem_cons.mp hm with rfl | hm
    · exact Int.le_refl _
    · exact Int.le_of_lt (hv variant (List.mem_filter.mp hm).1)

private theorem compositedBgra_none {source : VideoFrame} {colour : UInt32} {tick : Int}
    (h : s.compositedBgra source colour tick = (t, none)) : t = s := by
  unfold State.compositedBgra at h
  split at h
  · cases h
    rfl
  · dsimp only at h
    split at h <;> cases h

private theorem render_congr {b b' : OutputBackground} (h : key b = key b') (source : Picture) :
    render b source = render b' source := by
  unfold render
  rw [h]

/-- The payload of a tick, whichever way it was made. -/
private theorem Inv.planned_source (inv : Inv s) {skipped : Nat}
    (hg : repeatsDrawn s (.tick skipped)) :
    Planned s {
      background := s.background
      payload := { s.source with data := render s.background s.source.data } } := by
  obtain ⟨hnum, hold⟩ := inv.source
  refine ⟨hnum, ⟨s.source.data, ⟨hold, fun _ ↦ rfl⟩, rfl⟩, fun hlast ↦ ?_⟩
  obtain ⟨picture, hn, hd⟩ := inv.drawn
  replace hlast : s.source.sequence = s.kms.lastSequence := hlast
  simp only [repeatsDrawn, hlast, ne_eq, not_true_eq_false, decide_false, Bool.false_or,
    Bool.and_eq_true, decide_eq_true_eq] at hg
  have hdata : s.source.data = picture := hn.same hlast
  show s.kms.Presents (render s.background s.source.data)
  rw [hdata, render_congr (of_decide_eq_true (by simpa using hg.1))]
  exact hd hg.2 (hlast ▸ hnum)

private theorem Inv.tick_of_planned (inv : Inv s) {skipped : Nat}
    {backgrounds : List BackgroundVariant} {target : Option Target}
    (hv : ∀ variant ∈ backgrounds, variant.bgraTick ≤ s.tick + 1 + skipped)
    (hp : ∀ p, target = some p → Planned s p) :
    Inv { s with tick := s.tick + 1 + skipped, backgrounds, target } := by
  have htick := inv.tick
  obtain ⟨picture, hn, hd⟩ := inv.drawn
  refine ⟨inv.tracks, by dsimp only; omega, inv.slot, hv, ⟨picture, ⟨hn.old, hn.same⟩, hd⟩,
    fun p hpt ↦ ?_⟩
  obtain ⟨hnum, ⟨q, hq, hmade⟩, hlast⟩ := hp p hpt
  exact ⟨hnum, ⟨q, ⟨hq.old, hq.same⟩, hmade⟩, hlast⟩

private theorem Inv.clockTick (inv : Inv s) {skipped : Nat} (ht : s.target = none)
    (hg : repeatsDrawn s (.tick skipped)) : Inv (s.clockTick skipped) := by
  have hplanned := inv.planned_source hg
  have htick := inv.tick
  have hlt : ∀ variant ∈ s.backgrounds, variant.bgraTick < s.tick + 1 + skipped := by
    intro variant hm
    have hle := inv.variants variant hm
    omega
  unfold State.clockTick
  dsimp only
  split
  · refine inv.tick_of_planned (fun variant hm ↦ Int.le_of_lt (hlt variant hm)) fun p hp ↦ ?_
    rw [ht] at hp
    cases hp
  · have hkept : ∀ variant ∈ s.backgrounds.filter (fun variant ↦
        key s.background = some variant.colour), variant.bgraTick < s.tick + 1 + skipped :=
      fun variant hm ↦ hlt variant (List.mem_filter.mp hm).1
    split
    · next colour hk =>
      generalize hc : State.compositedBgra _ _ _ _ = made
      obtain ⟨t, payload⟩ := made
      cases payload with
      | none =>
        obtain rfl := compositedBgra_none hc
        exact inv.tick_of_planned (fun variant hm ↦ Int.le_of_lt (hkept variant hm)) nofun
      | some payload =>
        obtain ⟨rfl, backgrounds, rfl, hv⟩ := compositedBgra_spec hkept (by dsimp only; omega) hc
        refine inv.tick_of_planned hv fun p hp ↦ ?_
        cases hp
        simp only [render, hk] at hplanned
        exact hplanned
    · next hk =>
      refine inv.tick_of_planned (fun variant hm ↦ Int.le_of_lt (hkept variant hm)) fun p hp ↦ ?_
      cases hp
      simp only [render, hk] at hplanned
      exact hplanned

private theorem Inv.step (inv : Inv s) (hg : repeatsDrawn s a) (h : s.step a = some t) :
    Inv t := by
  cases a with
  | paint format data =>
    cases h
    exact inv.paint format data
  | setBackground background =>
    cases h
    obtain ⟨picture, hn, hd⟩ := inv.drawn
    refine ⟨inv.tracks, inv.tick, inv.slot, inv.variants, ⟨picture, ⟨hn.old, hn.same⟩, hd⟩,
      fun target ht ↦ ?_⟩
    obtain ⟨hnum, ⟨q, hq, hmade⟩, hlast⟩ := inv.planned target ht
    exact ⟨hnum, ⟨q, ⟨hq.old, hq.same⟩, hmade⟩, hlast⟩
  | tick skipped =>
    simp only [State.step] at h
    split at h
    · cases h
    · next ht =>
      cases h
      exact inv.clockTick (by simpa using ht) hg
  | submit flip crtc =>
    obtain ⟨target, ht, rfl⟩ := Option.map_eq_some_iff.mp h
    exact inv.submit ht flip crtc
  | skip =>
    obtain ⟨target, ht, rfl⟩ := Option.map_eq_some_iff.mp h
    obtain ⟨picture, hn, hd⟩ := inv.drawn
    exact ⟨inv.tracks, inv.tick, inv.slot, inv.variants, ⟨picture, ⟨hn.old, hn.same⟩, hd⟩, nofun⟩
  | takeFlip =>
    obtain ⟨kms, hk, rfl⟩ := Option.map_eq_some_iff.mp h
    exact inv.takeFlip hk

private theorem Inv.init (h : machine.init s) : Inv s := by
  obtain ⟨htarget, htick, ⟨displayWidth, displayHeight, rotation, fit, hkms⟩, hslot, hv⟩ := h
  have hsource : -1 ≤ s.source.sequence ∧ s.source.sequence < s.sequence := by
    unfold State.source
    cases hs : s.slot with
    | none =>
      simp only [Option.getD_none]
      omega
    | some f =>
      obtain ⟨h₀, h₁⟩ := hslot f hs
      exact ⟨by simp only [Option.getD_some]; omega, h₁⟩
  have hlast : s.kms.lastSequence = -2 ^ 63 := by
    rw [hkms]
    rfl
  refine ⟨hkms ▸ KmsOutput.tracks_start _ _ _ _ _, htick, hslot, hv, ⟨s.source.data, ⟨?_, ?_⟩, ?_⟩,
    fun target ht ↦ ?_⟩
  · rw [hlast]
    omega
  · exact fun _ ↦ rfl
  · intro _ hl
    rw [hlast] at hl
    omega
  · rw [htarget] at ht
    cases ht

end Step

/-- Where every tick that repeats the paint last drawn finds it drawn over the same background
and accepted by the display, what the output skips is what it shows. -/
theorem repeatsSound_of_repeatsDrawn
    (h : machine.ReachableUnder (fun s a ↦ repeatsDrawn s a) s) : RepeatsSound s :=
  (h.invariant (fun _ ↦ Inv.init) fun _ _ _ hg inv ht ↦ inv.step hg ht).sound

/-- A full-HD engine and a display of the same size. -/
private def started : State := { kms := .start {} 1920 1080 .k0 .kFit }

private theorem init_started : machine.init started :=
  ⟨rfl, by decide, ⟨1920, 1080, .k0, .kFit, rfl⟩, nofun, nofun⟩

/-- A transparent page is drawn once and repeated. -/
private def drawThenRepeat : List Action :=
  [.paint {} fun _ _ ↦ {}, .tick 0, .submit true true, .takeFlip, .tick 0]

/-- The background is set to the default green between the two. -/
private def drawThenColour : List Action :=
  [.paint {} fun _ _ ↦ {}, .tick 0, .submit true true, .takeFlip,
    .setBackground { isOpaque := true }, .tick 0]

/-- A page drawn once and repeated is on display when the output skips it. -/
theorem repeatsSound_drawThenRepeat : ∃ s,
    machine.runUnder (fun s a ↦ repeatsDrawn s a) started drawThenRepeat = some s ∧
      s.target.isSome ∧ RepeatsSound s := by
  have hrun : ((machine.runUnder (fun s a ↦ repeatsDrawn s a) started drawThenRepeat).map
      fun s ↦ s.target.isSome) = some true := by decide
  obtain ⟨s, hs, ht⟩ := Option.map_eq_some_iff.mp hrun
  exact ⟨s, hs, ht, repeatsSound_of_repeatsDrawn
    (Machine.ReachableUnder.runUnder (.init init_started) drawThenRepeat hs)⟩

/-- A new background over a paint already drawn is skipped. -/
theorem not_repeatsSound : ¬ ∀ s, machine.Reachable s → RepeatsSound s := by
  intro h
  have hrun : ((machine.run started drawThenColour).map fun s ↦
      (s.kms.queued, s.target.map fun target ↦
        (decide (target.payload.sequence = s.kms.lastSequence),
          decide (s.kms.blit.blit target.payload.data (s.kms.buffers s.kms.shown) 0 0 =
            s.kms.buffers s.kms.shown 0 0)))) = some (none, some (true, false)) := by decide
  obtain ⟨s, hs, he⟩ := Option.map_eq_some_iff.mp hrun
  obtain ⟨hq, ht⟩ := Prod.mk.inj he
  obtain ⟨target, ht, hp⟩ := Option.map_eq_some_iff.mp ht
  obtain ⟨hlast, hne⟩ := Prod.mk.inj hp
  have hsound := h s (Machine.Reachable.run (.init init_started) drawThenColour hs)
  rcases hsound.skips target ht (of_decide_eq_true hlast) with hshown | ⟨b, hb, -⟩
  · exact of_decide_eq_false hne (congrFun (congrFun hshown 0) 0)
  · rw [hq] at hb
    cases hb

end WebLinked.Engine.Repeats
