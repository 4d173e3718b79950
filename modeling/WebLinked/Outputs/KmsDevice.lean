import Mathlib
import WebLinked.Base.Machine

/-!
# The device of a KMS output

`src/outputs/kms_output.cpp:86–402`. What `start` gets from the system, `teardown` gives back, from
wherever `start` gave up. Any call that asks the system for something may fail, and a controller
takes a flip that it was given at any time: what a call meets is a moment, and there is one for
every call. The calls that give something back do not fail. Which connector is chosen, and which
controller where none drives it, is the system's choice here, and while the output does not run
others set the controllers as they like.
-/

namespace WebLinked.Outputs.KmsDevice

open WebLinked.Base

/-! ## The system -/

/-- What is got from the system and has to be given back. -/
inductive Resource where
  | file (fd : ℕ)
  | dumb (handle : ℕ)
  | framebuffer (fb : ℕ)
  | mapping (address : ℕ)
  | resources
  | connector
  | mode
  | crtc
  deriving DecidableEq

/-- What a controller shows: somebody else's picture, nothing, or a buffer of the output. -/
inductive Shown where
  | other (picture : ℕ)
  | off
  | ours (fb : ℕ)
  deriving DecidableEq

/-- What the controllers of a card show, and the controller that a connector gets its picture
from. -/
structure Display where
  shown : ℕ → Shown
  source : ℕ → Option ℕ

/-- A controller that is set drives the one connector it is set for, or none. -/
def reroute (source : ℕ → Option ℕ) (controller : ℕ) (connector : Option ℕ) : ℕ → Option ℕ :=
  fun c ↦
    if connector = some c then some controller
    else if source c = some controller then none
    else source c

namespace Display

/-- A controller is set. -/
def set (controller : ℕ) (connector : Option ℕ) (shown : Shown) (d : Display) : Display :=
  { shown := Function.update d.shown controller shown
    source := reroute d.source controller connector }

/-- A controller takes a flip. -/
def flip (controller fb : ℕ) (d : Display) : Display :=
  { d with shown := Function.update d.shown controller (.ours fb) }

/-- Without a buffer the controllers that show it are off. -/
def without (fb : ℕ) (d : Display) : Display :=
  { shown := fun c ↦ if d.shown c = .ours fb then .off else d.shown c
    source := fun c ↦
      if (d.source c).any (d.shown · = .ours fb) then none else d.source c }

/-- A controller and a connector have nothing to do with any others: the one drives the other alone,
or neither is in use. -/
def Alone (controller connector : ℕ) (d : Display) : Prop :=
  if d.shown controller = .off then
    d.source connector = none ∧ ∀ c, d.source c ≠ some controller
  else ∀ c, d.source c = some controller ↔ c = connector

end Display

/-- What a call meets: whether it fails, the number it gives, whether the controller takes the flip
before it, and whether a wait ends without an event. -/
structure Moment where
  fails : Bool := false
  number : ℕ := 0
  takes : Bool := false
  late : Bool := false

/-- The system's side: what the output holds, the display, with the flip that a controller was given
and the event of the last one taken. Not in the code are `stray`, what was given back or written to
without being held or was overwritten while it was; `torn`, the buffers that were taken away with a
flip to them in flight though nobody had waited for it in vain; and of the last `start`, `before`,
the display as it found it or others have set it since, `chosen`, its controller and connector,
`gaveUp`, whether `stop` then went on without the event of a flip, and `refused`, whether what the
controller showed before could not be asked for or put back. -/
structure Card where
  clock : ℕ := 0
  held : List Resource := []
  stray : List Resource := []
  display : Display
  flip : Option (ℕ × ℕ) := none
  event : Bool := false
  torn : List ℕ := []
  before : Display
  chosen : Option (ℕ × ℕ) := none
  gaveUp : Bool := false
  refused : Bool := false

namespace Card

/-- The system as a call finds it. -/
def pass (w : Card) (moment : Moment) : Card :=
  match moment.takes, w.flip with
  | true, some (controller, fb) =>
    { w with
      clock := w.clock + 1, display := w.display.flip controller fb, flip := none, event := true }
  | _, _ => { w with clock := w.clock + 1 }

/-- An object is there. -/
def new (r : Resource) (w : Card) : Card :=
  { w with held := r :: w.held, stray := if r ∈ w.held then r :: w.stray else w.stray }

/-- Bytes are written to a mapping. -/
def write (address : Option ℕ) (w : Card) : Card :=
  match address with
  | none => { w with stray := .mapping 0 :: w.stray }
  | some address =>
    if .mapping address ∈ w.held then w else { w with stray := .mapping address :: w.stray }

section

variable (turns : ℕ → Moment)

/-- The system as the next call finds it. -/
def next (w : Card) : Card := w.pass (turns w.clock)

/-- A call that says yes or no. -/
def ask (w : Card) : Bool × Card := (!(turns w.clock).fails, w.next turns)

/-- A call that gives a number. One that is in use is not given. -/
def get (r : ℕ → Resource) (w : Card) : Option ℕ × Card :=
  let moment := turns w.clock
  let w := w.next turns
  if moment.fails ∨ moment.number = 0 ∨ r moment.number ∈ w.held then (none, w)
  else (some moment.number, { w with held := r moment.number :: w.held })

/-- A call that makes an object. -/
def take (r : Resource) (w : Card) : Bool × Card :=
  let (made, w) := w.ask turns
  (made, if made then w.new r else w)

/-- Something is given back. -/
def give (r : Resource) (w : Card) : Card :=
  let w := w.next turns
  if r ∈ w.held then { w with held := w.held.erase r } else { w with stray := r :: w.stray }

/-- The controller that drives a connector, or else one that its encoders can reach, and 0 where
there is none; `src/outputs/kms_output.cpp:166–184`. -/
def controllerFor (connector : ℕ) (w : Card) : ℕ × Card :=
  let driving := (w.display.source connector).getD 0
  let (encoder, w) := w.ask turns
  if encoder ∧ driving ≠ 0 then (driving, w) else ((turns w.clock).number, w.next turns)

/-- `drmModeSetCrtc`, which comes after the flip that is in flight. -/
def setCrtc (controller : ℕ) (connector : Option ℕ) (shown : Shown) (w : Card) : Bool × Card :=
  let (done, w) := w.ask turns
  (done, if done then
      { w with
        display := w.display.set controller connector shown
        flip := none
        event := w.event || w.flip.isSome }
    else w)

/-- `drmModePageFlip`. -/
def pageFlip (controller fb : ℕ) (w : Card) : Bool × Card :=
  let (done, w) := w.ask turns
  if done && w.flip.isNone then (true, { w with flip := some (controller, fb) }) else (false, w)

/-- `drmModeRmFB`, which ends what there is of the buffer on the display. -/
def removeFramebuffer (fb : ℕ) (w : Card) : Card :=
  let w := w.give turns (.framebuffer fb)
  let w := if w.flip.any (·.2 = fb) then
      { w with flip := none, torn := if w.gaveUp then w.torn else fb :: w.torn }
    else w
  { w with display := w.display.without fb }

/-- `close`, with which the events are gone. -/
def close (fd : ℕ) (w : Card) : Card := { w.give turns (.file fd) with event := false }

/-- `poll` and `drmHandleEvent`. -/
def poll (w : Card) : Bool × Card :=
  let late := (turns w.clock).late
  let w := w.next turns
  if w.event && !late then (true, { w with event := false }) else (false, w)

end
end Card

/-! ## The output -/

/-- `Buffer`; `src/outputs/kms_output.h`. -/
structure Buffer where
  handle : ℕ := 0
  fb : ℕ := 0
  map : Option ℕ := none

/-- `KmsOutput`, what it has of the device; `connectorId_`, `crtcId_`, and of `savedCrtc_` what it
shows. -/
structure Device where
  fd : Option ℕ := none
  connector : ℕ := 0
  crtc : ℕ := 0
  mode : Bool := false
  savedCrtc : Option Shown := none
  buffers : Bool → Buffer := fun _ ↦ {}
  front : Bool := false
  flipPending : Bool := false
  flipsSupported : Bool := true
  running : Bool := false

namespace Device

/-- A buffer is replaced. -/
def setBuffer (k : Device) (i : Bool) (buffer : Buffer) : Device :=
  { k with buffers := Function.update k.buffers i buffer }

section

variable (turns : ℕ → Moment)

/-- `openDevice`; `src/outputs/kms_output.cpp:93`. -/
def openDevice (k : Device) (w : Card) : Bool × Device × Card :=
  match w.get turns .file with
  | (none, w) => (false, k, w)
  | (some fd, w) =>
    let k := { k with fd := some fd }
    let (dumb, w) := w.ask turns
    if !dumb then (false, k, w)
    else
      let (master, w) := w.ask turns
      if !master then (false, k, w)
      else
        let (listed, w) := w.take turns .resources
        if !listed then (false, k, w)
        else
          -- a connector that is not chosen is freed at once, and so is an encoder below
          let connector := (turns w.clock).number
          let (chosen, w) := w.take turns .connector
          if !chosen then (false, k, w.give turns .resources)
          else
            let (crtc, w) := (w.new .mode).controllerFor turns connector
            let w := (w.give turns .connector).give turns .resources
            (crtc ≠ 0, { k with connector, crtc, mode := true },
              { w with chosen := some (crtc, connector) })

/-- `createBuffer`; `src/outputs/kms_output.cpp:202`. -/
def createBuffer (i : Bool) (k : Device) (w : Card) : Bool × Device × Card :=
  match w.get turns .dumb with
  | (none, w) => (false, k, w)
  | (some handle, w) =>
    match w.get turns .framebuffer with
    | (none, w) => (false, k.setBuffer i { handle }, w)
    | (some fb, w) =>
      let k := k.setBuffer i { handle, fb }
      let (offset, w) := w.ask turns
      if !offset then (false, k, w)
      else
        match w.get turns .mapping with
        | (none, w) => (false, k, w)
        | (some address, w) => (true, k.setBuffer i { handle, fb, map := some address }, w)

/-- `destroyBuffer`; `src/outputs/kms_output.cpp:236`. -/
def destroyBuffer (buffer : Buffer) (w : Card) : Card :=
  let w := match buffer.map with
    | none => w
    | some address => w.give turns (.mapping address)
  let w := if buffer.fb = 0 then w else w.removeFramebuffer turns buffer.fb
  if buffer.handle = 0 then w else w.give turns (.dumb buffer.handle)

/-- What the controller showed before is put back; `src/outputs/kms_output.cpp:381–388`. -/
def restore (k : Device) (w : Card) : Card :=
  match k.savedCrtc with
  | none => w
  | some shown =>
    let connector := if shown = .off then none else some k.connector
    let (done, w) := w.setCrtc turns k.crtc connector shown
    if done then w else { w with refused := true }

/-- `teardown`; `src/outputs/kms_output.cpp:377`. -/
def teardown (k : Device) (w : Card) : Device × Card :=
  let (buffers, w) := match k.fd with
    | none => (k.buffers, w)
    | some fd =>
      (fun _ ↦ {}, (destroyBuffer turns (k.buffers true)
        (destroyBuffer turns (k.buffers false) (k.restore turns w))).close turns fd)
  let w := if k.savedCrtc.isSome then w.give turns .crtc else w
  let w := if k.mode then w.give turns .mode else w
  ({ k with fd := none, savedCrtc := none, buffers, mode := false }, w)

/-- `start`; `src/outputs/kms_output.cpp:251`. -/
def start (k : Device) (w : Card) : Bool × Device × Card :=
  if k.running then (true, k, w)
  else
    let w := { w with before := w.display, chosen := none, gaveUp := false, refused := false }
    let (opened, k, w) := k.openDevice turns w
    if !opened then (false, k.teardown turns w)
    else
      let (first, k, w) := k.createBuffer turns false w
      if !first then (false, k.teardown turns w)
      else
        let (second, k, w) := k.createBuffer turns true w
        if !second then (false, k.teardown turns w)
        else
          let w := (w.write (k.buffers false).map).write (k.buffers true).map
          let (saved, w) := w.take turns .crtc
          let (k, w) := if saved then ({ k with savedCrtc := some (w.display.shown k.crtc) }, w)
            else (k, { w with refused := true })
          let k := { k with front := false }
          let (set, w) := w.setCrtc turns k.crtc (some k.connector) (.ours (k.buffers k.front).fb)
          if !set then (false, k.teardown turns w)
          else (true, { k with flipPending := false, flipsSupported := true, running := true }, w)

/-- `collectFlips`; `src/outputs/kms_output.cpp:304`. The one event there can be ends the loop. -/
def collectFlips (k : Device) (w : Card) : Device × Card :=
  if k.flipPending then
    let (came, w) := w.poll turns
    (if came then { k with flipPending := false, front := !k.front } else k, w)
  else (k, w)

/-- The back buffer is drawn and, one way or the other, shown;
`src/outputs/kms_output.cpp:339–362`. -/
def draw (k : Device) (w : Card) : Device × Card :=
  let back := k.buffers (!k.front)
  let w := w.write back.map
  let (flipped, w) := if k.flipsSupported then w.pageFlip turns k.crtc back.fb else (false, w)
  if flipped then ({ k with flipPending := true }, w)
  else
    let k := { k with flipsSupported := false }
    let (set, w) := w.setCrtc turns k.crtc (some k.connector) (.ours back.fb)
    (if set then { k with front := !k.front } else k, w)

/-- `submit`, of a frame that is the last one again, or has another raster;
`src/outputs/kms_output.cpp:317`. -/
def submit (same resized : Bool) (k : Device) (w : Card) : Device × Card :=
  if k.running then
    let (k, w) := k.collectFlips turns w
    if same || resized || k.flipPending then (k, w) else k.draw turns w
  else (k, w)

/-- `stop`; `src/outputs/kms_output.cpp:365`. -/
def stop (k : Device) (w : Card) : Device × Card :=
  if k.running then
    let (k, w) := { k with running := false }.collectFlips turns w
    k.teardown turns { w with gaveUp := k.flipPending }
  else (k, w)

/-- `~KmsOutput`; `src/outputs/kms_output.cpp:86`. -/
def destroy (k : Device) (w : Card) : Card :=
  let (k, w) := k.stop turns w
  (k.teardown turns w).2

end
end Device

/-- The output and the system. -/
structure State where
  device : Device := {}
  card : Card

/-- Calls on the output; one that is destroyed is followed by another. And others set a
controller. -/
inductive Action where
  | start
  | submit (same resized : Bool)
  | stop
  | destroy
  | others (controller : ℕ) (connector : Option ℕ) (picture : Option ℕ)

/-- Any calls in any order, from when nothing is held and nothing of the output is shown. -/
def machine (turns : ℕ → Moment) : Machine State Action where
  init s := ∃ display : Display, (∀ c fb, display.shown c ≠ .ours fb) ∧
    s = { card := { display, before := display } }
  step s
    | .start =>
      let (_, device, card) := s.device.start turns s.card
      some { device, card }
    | .submit same resized =>
      let (device, card) := s.device.submit turns same resized s.card
      some { device, card }
    | .stop =>
      let (device, card) := s.device.stop turns s.card
      some { device, card }
    | .destroy => some { card := s.device.destroy turns s.card }
    | .others controller connector picture =>
      if s.device.running then none
      else
        let display := s.card.display.set controller connector (picture.elim .off .other)
        some { s with card := { s.card with display, before := display } }

/-! ## What is shown -/

section

variable {source : ℕ → Option ℕ} {controller connector : ℕ}

theorem reroute_self (source : ℕ → Option ℕ) (controller connector : ℕ) :
    reroute source controller (some connector) connector = some controller :=
  if_pos rfl

theorem reroute_of_ne (source : ℕ → Option ℕ) (controller : ℕ) {c : ℕ} (hc : c ≠ connector) :
    reroute source controller (some connector) c =
      if source c = some controller then none else source c :=
  if_neg fun heq ↦ hc (Option.some.inj heq).symm

/-- To be set again changes no more. -/
theorem reroute_reroute (source : ℕ → Option ℕ) (controller connector : ℕ) :
    reroute (reroute source controller (some connector)) controller (some connector) =
      reroute source controller (some connector) := by
  funext c
  by_cases hc : c = connector
  · rw [hc, reroute_self, reroute_self]
  · have hnot : reroute source controller (some connector) c ≠ some controller := by
      rw [reroute_of_ne source controller hc]
      split
      · nofun
      · assumption
    rw [reroute_of_ne _ controller hc, if_neg hnot]

/-- A controller that drives just this connector is set for it. -/
theorem reroute_of_driving (h : ∀ c, source c = some controller ↔ c = connector) :
    reroute source controller (some connector) = source := by
  funext c
  by_cases hc : c = connector
  · rw [hc, reroute_self, (h connector).mpr rfl]
  · rw [reroute_of_ne source controller hc, if_neg fun heq ↦ hc ((h c).mp heq)]

/-- A controller that drove nothing is off again. -/
theorem reroute_of_idle (hconnector : source connector = none)
    (h : ∀ c, source c ≠ some controller) :
    reroute source controller none = source ∧
      reroute (reroute source controller (some connector)) controller none = source := by
  have hnone : reroute source controller none = source := by
    funext c
    rw [reroute, if_neg nofun, if_neg (h c)]
  refine ⟨hnone, funext fun c ↦ ?_⟩
  by_cases hc : c = connector
  · rw [hc, reroute, if_neg nofun, if_pos (reroute_self source controller connector), hconnector]
  · have hset : reroute source controller (some connector) c = source c := by
      rw [reroute_of_ne source controller hc, if_neg (h c)]
    rw [reroute, if_neg nofun, hset, if_neg (h c)]

end

/-- Only what the output's controller shows may be other than it was, and what that takes from the
connectors. -/
structure Touched (controller connector : ℕ) (w : Card) : Prop where
  shown : ∀ c, c ≠ controller → w.display.shown c = w.before.shown c
  source : w.display.source = w.before.source ∨
    w.display.source = reroute w.before.source controller (some connector)
  flip : ∀ f, w.flip = some f → f.1 = controller

/-- Every controller shows what it did, and drives what it did unless the one that was taken had to
do with others. -/
structure Back (w : Card) : Prop where
  shown : w.display.shown = w.before.shown
  source : (∀ f, w.chosen = some f → w.before.Alone f.1 f.2) →
    w.display.source = w.before.source

/-- How the display has to stand. -/
inductive Aim where
  | untouched
  | back
  | any

def Aim.Met (w : Card) : Aim → Prop
  | .untouched => w.flip = none ∧ w.display = w.before
  | .back => w.refused = false → w.flip = none ∧ Back w
  | .any => True

/-- A call touches no more than was touched. -/
theorem Touched.next {controller connector : ℕ} {w : Card} (h : Touched controller connector w)
    (turns : ℕ → Moment) : Touched controller connector (w.next turns) := by
  rw [Card.next, Card.pass]
  split
  · next k fb _ hflip =>
    have hk : k = controller := h.flip _ hflip
    refine ⟨fun c hc ↦ ?_, h.source, fun _ hnone ↦ absurd hnone.symm (Option.some_ne_none _)⟩
    show Function.update w.display.shown k (.ours fb) c = w.before.shown c
    rw [Function.update_of_ne (hk ▸ hc)]
    exact h.shown c hc
  · exact ⟨h.shown, h.source, h.flip⟩

/-- To set the output's controller for its connector touches no more. -/
theorem Touched.set {controller connector : ℕ} {w : Card} (h : Touched controller connector w)
    (shown : Shown) (clock : ℕ) (event : Bool) :
    Touched controller connector { w with
      clock, display := w.display.set controller (some connector) shown, flip := none, event } where
  shown := by
    intro c hc
    show Function.update w.display.shown controller shown c = w.before.shown c
    rw [Function.update_of_ne hc]
    exact h.shown c hc
  source := by
    right
    show reroute w.display.source controller (some connector) = _
    rcases h.source with hsame | hset
    · rw [hsame]
    · rw [hset, reroute_reroute]
  flip := fun _ hnone ↦ absurd hnone.symm (Option.some_ne_none _)

/-- The controller shows again what it did. -/
theorem Touched.back {controller connector : ℕ} {w : Card} (h : Touched controller connector w)
    (hchosen : w.chosen = some (controller, connector)) (event : Bool) :
    Back { w with
      display := w.display.set controller
        (if w.before.shown controller = .off then none else some connector)
        (w.before.shown controller)
      flip := none
      event } where
  shown := by
    show Function.update w.display.shown controller _ = w.before.shown
    funext c
    by_cases hc : c = controller
    · rw [hc, Function.update_self]
    · rw [Function.update_of_ne hc]
      exact h.shown c hc
  source := by
    intro halone
    have halone := halone _ hchosen
    show reroute w.display.source controller _ = w.before.source
    rw [Display.Alone] at halone
    by_cases hoff : w.before.shown controller = .off
    · rw [if_pos hoff] at halone ⊢
      obtain ⟨hsame, hset⟩ := reroute_of_idle halone.1 halone.2
      rcases h.source with heq | heq
      · rw [heq, hsame]
      · rw [heq, hset]
    · rw [if_neg hoff] at halone ⊢
      have hdriving := reroute_of_driving halone
      rcases h.source with heq | heq
      · rw [heq, hdriving]
      · rw [heq, reroute_reroute, hdriving]

/-- A display that shows no buffer is the same without it. -/
theorem Display.without_eq {d : Display} {fb : ℕ} (h : ∀ c, d.shown c ≠ .ours fb) :
    d.without fb = d := by
  have hsource (c : ℕ) : ¬ (d.source c).any (d.shown · = .ours fb) := by
    cases d.source c with
    | none => exact Bool.false_ne_true
    | some k => simpa using h k
  simp only [Display.without, if_neg (h _), if_neg (hsource _)]

/-! ## What the output holds -/

/-- A controller is set, or the display stays as it is. -/
theorem Card.setCrtc_eq (turns : ℕ → Moment) (controller : ℕ) (connector : Option ℕ) (shown : Shown)
    (w : Card) :
    w.setCrtc turns controller connector shown = (false, w.next turns) ∨
      w.setCrtc turns controller connector shown = (true, { w.next turns with
        display := (w.next turns).display.set controller connector shown
        flip := none
        event := (w.next turns).event || (w.next turns).flip.isSome }) := by
  by_cases hfails : (turns w.clock).fails = true
  · apply Or.inl
    simp [Card.setCrtc, Card.ask, hfails]
  · apply Or.inr
    simp [Card.setCrtc, Card.ask, hfails]

/-- What a buffer is made of, in the order it is given back. -/
def Buffer.owned (buffer : Buffer) : List Resource :=
  buffer.map.toList.map .mapping ++
    ((if buffer.fb = 0 then [] else [.framebuffer buffer.fb]) ++
      if buffer.handle = 0 then [] else [.dumb buffer.handle])

/-- What the display may have of a buffer. -/
def Buffer.frames (buffer : Buffer) : List ℕ := if buffer.fb = 0 then [] else [buffer.fb]

/-- What an output has, in the order it is given back. -/
def Device.owned (k : Device) : List Resource :=
  (k.buffers false).owned ++ ((k.buffers true).owned ++ (k.fd.toList.map .file ++
    ((if k.savedCrtc.isSome then [.crtc] else []) ++ if k.mode then [.mode] else [])))

/-- The output holds just this and nothing has gone wrong; a flip in flight is to one of these
buffers, which are all that is shown of the output, and there only is one, or an event, if `live`;
and the display stands as it is to. -/
structure Stands (aim : Aim) (l : List Resource) (fbs : List ℕ) (live : Bool) (w : Card) :
    Prop where
  held : w.held.Perm l
  clean : w.stray = []
  torn : w.torn = []
  among : ∀ f, w.flip = some f → f.2 ∈ fbs ∧ w.gaveUp = true
  ours : ∀ c fb, w.display.shown c = .ours fb → fb ∈ fbs
  fresh : ∀ c fb, w.before.shown c ≠ .ours fb
  quiet : live = false → w.flip = none ∧ w.event = false
  shown : aim.Met w

namespace Stands

variable (turns : ℕ → Moment) {aim : Aim} {l : List Resource} {fbs : List ℕ} {live : Bool}
  {w : Card} {r : Resource}

theorem perm {l' : List Resource} (h : Stands aim l fbs live w) (hl : l.Perm l') :
    Stands aim l' fbs live w :=
  { h with held := h.held.trans hl }

/-- A call changes nothing but that a controller may take its flip. -/
theorem next (h : Stands aim l fbs live w) : Stands aim l fbs live (w.next turns) := by
  rw [Card.next, Card.pass]
  split
  · next controller fb _ hflip =>
    have hnot : w.flip ≠ none := by
      rw [hflip]
      exact Option.some_ne_none _
    refine ⟨h.held, h.clean, h.torn, ?_, ?_, h.fresh, ?_, ?_⟩
    · exact fun _ hnone ↦ absurd hnone.symm (Option.some_ne_none _)
    · intro c fb' hfb'
      change Function.update w.display.shown controller (.ours fb) c = .ours fb' at hfb'
      by_cases hc : c = controller
      · rw [hc, Function.update_self] at hfb'
        cases hfb'
        exact (h.among _ hflip).1
      · rw [Function.update_of_ne hc] at hfb'
        exact h.ours c fb' hfb'
    · exact fun hlive ↦ absurd (h.quiet hlive).1 hnot
    · have hmet := h.shown
      cases aim with
      | untouched => exact absurd hmet.1 hnot
      | back => exact fun hrefused ↦ absurd (hmet hrefused).1 hnot
      | any => trivial
  · refine { h with shown := ?_ }
    have hmet := h.shown
    cases aim with
    | untouched => exact hmet
    | back =>
      exact fun hrefused ↦ ⟨(hmet hrefused).1, (hmet hrefused).2.shown, (hmet hrefused).2.source⟩
    | any => trivial

/-- What else is known of the system does not matter to what it shows. -/
theorem met_held {held stray : List Resource} (h : aim.Met w) :
    aim.Met { w with held, stray } := by
  cases aim with
  | untouched => exact h
  | back => exact fun hrefused ↦ ⟨(h hrefused).1, (h hrefused).2.shown, (h hrefused).2.source⟩
  | any => trivial

/-- What is held can be given back. -/
theorem give (h : Stands aim (r :: l) fbs live w) : Stands aim l fbs live (w.give turns r) := by
  have hnext := h.next turns
  rw [Card.give]
  have hmem : r ∈ (w.next turns).held := hnext.held.mem_iff.mpr List.mem_cons_self
  rw [if_pos hmem]
  refine { hnext with held := ?_, shown := met_held hnext.shown }
  have herase := hnext.held.erase r
  rw [List.erase_cons_head] at herase
  exact herase

/-- What is given back may not have been got. -/
theorem giveIf {c : Prop} [Decidable c] (h : Stands aim ((if c then [r] else []) ++ l) fbs live w) :
    Stands aim l fbs live (if c then w.give turns r else w) := by
  by_cases hc : c
  · rw [if_pos hc] at h ⊢
    exact h.give turns
  · rw [if_neg hc] at h ⊢
    exact h

/-- With a framebuffer its flip is gone, and what there is of it on the display. -/
theorem removeFramebuffer {fb : ℕ} (h : Stands .back (.framebuffer fb :: l) (fb :: fbs) live w) :
    Stands .back l fbs live (w.removeFramebuffer turns fb) := by
  have hgive := h.give turns
  rw [Card.removeFramebuffer]
  generalize w.give turns (.framebuffer fb) = w at hgive ⊢
  have hflip : Stands .back l (fb :: fbs) live
      (if w.flip.any (·.2 = fb) then
        { w with flip := none, torn := if w.gaveUp then w.torn else fb :: w.torn }
      else w) ∧ ∀ f, (if w.flip.any (·.2 = fb) then
        { w with flip := none, torn := if w.gaveUp then w.torn else fb :: w.torn }
      else w).flip = some f → f.2 ∈ fbs := by
    by_cases hfb : w.flip.any (·.2 = fb) = true
    · obtain ⟨f, hf, -⟩ := (Option.any_eq_true _ _).mp hfb
      have hgave := (hgive.among f hf).2
      rw [if_pos hfb, if_pos hgave]
      have hnone (f : ℕ × ℕ) (hf : (none : Option (ℕ × ℕ)) = some f) : False :=
        Option.some_ne_none _ hf.symm
      refine ⟨⟨hgive.held, hgive.clean, hgive.torn, fun f hf ↦ (hnone f hf).elim, hgive.ours,
        hgive.fresh, fun hlive ↦ ⟨rfl, (hgive.quiet hlive).2⟩, fun hrefused ↦ ⟨rfl, ?_⟩⟩,
        fun f hf ↦ (hnone f hf).elim⟩
      have hback := (hgive.shown hrefused).2
      exact ⟨hback.shown, hback.source⟩
    · rw [if_neg hfb]
      refine ⟨hgive, fun f hf ↦ ?_⟩
      rcases List.mem_cons.mp (hgive.among f hf).1 with heq | hmem
      · rw [hf, Option.any_some] at hfb
        exact absurd (decide_eq_true heq) hfb
      · exact hmem
  generalize (if w.flip.any (·.2 = fb) then _ else w) = w at hflip ⊢
  obtain ⟨hstands, hamong⟩ := hflip
  refine ⟨hstands.held, hstands.clean, hstands.torn,
    fun f hf ↦ ⟨hamong f hf, (hstands.among f hf).2⟩, ?_, hstands.fresh, hstands.quiet,
    fun hrefused ↦ ?_⟩
  · intro c fb' hfb'
    change (if w.display.shown c = .ours fb then Shown.off else w.display.shown c) = .ours fb' at hfb'
    split at hfb'
    · cases hfb'
    · next hne =>
      rcases List.mem_cons.mp (hstands.ours c fb' hfb') with rfl | hmem
      · exact absurd hfb' hne
      · exact hmem
  · obtain ⟨hnone, hback⟩ := hstands.shown hrefused
    have hsame : w.display.without fb = w.display := by
      apply Display.without_eq
      intro c hc
      rw [hback.shown] at hc
      exact hstands.fresh c fb hc
    refine ⟨hnone, ⟨?_, fun halone ↦ ?_⟩⟩
    · show (w.display.without fb).shown = _
      rw [hsame]
      exact hback.shown
    · show (w.display.without fb).source = _
      rw [hsame]
      exact hback.source halone

/-- A buffer is given back as far as it was got. -/
theorem destroyBuffer {buffer : Buffer}
    (h : Stands .back (buffer.owned ++ l) (buffer.frames ++ fbs) live w) :
    Stands .back l fbs live (Device.destroyBuffer turns buffer w) := by
  rw [Buffer.owned, List.append_assoc, List.append_assoc] at h
  rw [Device.destroyBuffer]
  have hmap : Stands .back ((if buffer.fb = 0 then [] else [.framebuffer buffer.fb]) ++
      ((if buffer.handle = 0 then [] else [.dumb buffer.handle]) ++ l)) (buffer.frames ++ fbs) live
      (match buffer.map with
        | none => w
        | some address => w.give turns (.mapping address)) := by
    cases hm : buffer.map with
    | none =>
      rw [hm] at h
      exact h
    | some address =>
      rw [hm] at h
      exact h.give turns
  generalize (match buffer.map with
    | none => w
    | some address => w.give turns (.mapping address)) = w at hmap ⊢
  have hframe : Stands .back ((if buffer.handle = 0 then [] else [.dumb buffer.handle]) ++ l) fbs
      live (if buffer.fb = 0 then w else w.removeFramebuffer turns buffer.fb) := by
    rw [Buffer.frames] at hmap
    by_cases hfb : buffer.fb = 0
    · rw [if_pos hfb, if_pos hfb] at hmap
      rw [if_pos hfb]
      exact hmap
    · rw [if_neg hfb, if_neg hfb] at hmap
      rw [if_neg hfb]
      exact hmap.removeFramebuffer turns
  generalize (if buffer.fb = 0 then w else _) = w at hframe ⊢
  rw [← ite_not] at hframe ⊢
  exact hframe.giveIf turns

/-- Closing the device takes its events along. -/
theorem close {fd : ℕ} (h : Stands .back (.file fd :: l) fbs live w) :
    Stands .back l fbs live (w.close turns fd) := by
  have hgive := h.give turns
  refine ⟨hgive.held, hgive.clean, hgive.torn, hgive.among, hgive.ours, hgive.fresh,
    fun hlive ↦ ⟨(hgive.quiet hlive).1, rfl⟩, fun hrefused ↦ ?_⟩
  obtain ⟨hflip, hback⟩ := hgive.shown hrefused
  exact ⟨hflip, hback.shown, hback.source⟩

/-- What the controller showed before it shows again, if it could be asked for. -/
theorem restore {k : Device} (h : Stands .any l fbs live w)
    (hsaved : ∀ shown, k.savedCrtc = some shown → shown = w.before.shown k.crtc ∧
      Touched k.crtc k.connector w ∧ w.chosen = some (k.crtc, k.connector))
    (hnone : k.savedCrtc = none → w.refused = false → w.flip = none ∧ Back w) :
    Stands .back l fbs live (k.restore turns w) := by
  rw [Device.restore]
  cases hk : k.savedCrtc with
  | none => exact { h with shown := hnone hk }
  | some shown =>
    have hnext := h.next turns
    obtain ⟨heq, htouched, hchosen⟩ := hsaved shown hk
    have hsame : (w.next turns).before = w.before ∧ (w.next turns).chosen = w.chosen := by
      rw [Card.next, Card.pass]
      split <;> exact ⟨rfl, rfl⟩
    rw [← hsame.1] at heq
    dsimp only
    rcases Card.setCrtc_eq turns k.crtc (if shown = .off then none else some k.connector) shown w with
      hset | hset
    · rw [hset]
      exact { hnext with shown := fun hno ↦ absurd hno.symm Bool.false_ne_true }
    · rw [hset]
      refine ⟨hnext.held, hnext.clean, hnext.torn, ?_, ?_, hnext.fresh, ?_, ?_⟩
      · exact fun _ hno ↦ absurd hno.symm (Option.some_ne_none _)
      · intro c fb hfb
        change Function.update (w.next turns).display.shown k.crtc shown c = .ours fb at hfb
        by_cases hc : c = k.crtc
        · rw [hc, Function.update_self, heq] at hfb
          exact absurd hfb (hnext.fresh _ fb)
        · rw [Function.update_of_ne hc] at hfb
          exact hnext.ours c fb hfb
      · intro hlive
        obtain ⟨hflip, hevent⟩ := hnext.quiet hlive
        refine ⟨rfl, ?_⟩
        show ((w.next turns).event || (w.next turns).flip.isSome) = false
        rw [hflip, hevent]
        rfl
      · intro _
        have hback := (htouched.next turns).back (hsame.2.trans hchosen)
          ((w.next turns).event || (w.next turns).flip.isSome)
        rw [← heq] at hback
        exact ⟨rfl, hback⟩

/-! What is got comes to what is held; until a controller is set, nothing is on its way. -/

theorem new (hr : r ∉ l) (h : Stands aim l fbs live w) : Stands aim (r :: l) fbs live (w.new r) := by
  rw [Card.new, if_neg fun hmem ↦ hr (h.held.mem_iff.mp hmem)]
  exact { h with held := h.held.cons _, shown := met_held h.shown }

variable {turns}

theorem ask {asked : Bool} {w' : Card} (h : Stands aim l fbs live w)
    (hask : w.ask turns = (asked, w')) : Stands aim l fbs live w' := by
  rw [← (Prod.mk.inj hask).2]
  exact h.next turns

theorem take {taken : Bool} {w' : Card} (hr : r ∉ l) (h : Stands aim l fbs live w)
    (htake : w.take turns r = (taken, w')) :
    Stands aim (if taken then r :: l else l) fbs live w' := by
  rw [Card.take] at htake
  cases hask : w.ask turns with
  | mk asked w₁ =>
  rw [hask] at htake
  obtain ⟨htaken, hw⟩ := Prod.mk.inj htake
  subst htaken hw
  have hasked := h.ask hask
  cases asked with
  | false => exact hasked
  | true => exact hasked.new hr

theorem get_none {r : ℕ → Resource} {w' : Card} (h : Stands aim l fbs live w)
    (hget : w.get turns r = (none, w')) : Stands aim l fbs live w' := by
  rw [Card.get] at hget
  split at hget
  · rw [← (Prod.mk.inj hget).2]
    exact h.next turns
  · exact absurd (Prod.mk.inj hget).1 (Option.some_ne_none _)

theorem get_some {r : ℕ → Resource} {n : ℕ} {w' : Card} (h : Stands aim l fbs live w)
    (hget : w.get turns r = (some n, w')) : n ≠ 0 ∧ Stands aim (r n :: l) fbs live w' := by
  rw [Card.get] at hget
  split at hget
  · exact absurd (Prod.mk.inj hget).1.symm (Option.some_ne_none _)
  · next hgot =>
    have hnext := h.next turns
    obtain ⟨hn, hw⟩ := Prod.mk.inj hget
    rw [Option.some.injEq] at hn
    subst hn
    rw [← hw]
    exact ⟨fun hzero ↦ hgot (.inr (.inl hzero)),
      { hnext with held := hnext.held.cons _, shown := met_held hnext.shown }⟩

/-- What is mapped can be written to. -/
theorem write {address : ℕ} (hmem : .mapping address ∈ l) (h : Stands aim l fbs live w) :
    w.write (some address) = w := by
  rw [Card.write, if_pos (h.held.mem_iff.mpr hmem)]

end Stands

/-! ## What `teardown` gives back -/

/-- What `teardown` may meet: either the device was opened, or there is nothing of it. -/
structure Tears (live : Bool) (k : Device) (w : Card) : Prop where
  stands : Stands .any k.owned ((k.buffers false).frames ++ (k.buffers true).frames) live w
  closed : k.fd = none → k.savedCrtc = none ∧ k.buffers = (fun _ ↦ {}) ∧ live = false
  saved : ∀ shown, k.savedCrtc = some shown → shown = w.before.shown k.crtc ∧
    Touched k.crtc k.connector w ∧ w.chosen = some (k.crtc, k.connector)
  unsaved : k.savedCrtc = none → w.refused = false → w.flip = none ∧ Back w

/-- An output that has nothing. -/
structure Stopped (k : Device) (w : Card) : Prop where
  stands : Stands .back [] [] false w
  fd : k.fd = none
  mode : k.mode = false
  unsaved : k.savedCrtc = none
  buffers : k.buffers = fun _ ↦ {}

section

variable (turns : ℕ → Moment)

/-- After `teardown` nothing is held, and the display is as it was before. -/
theorem teardown_spec {live : Bool} {k : Device} {w : Card} (h : Tears live k w) :
    Stopped (k.teardown turns w).1 (k.teardown turns w).2 := by
  have hstands := h.stands
  rw [Device.owned] at hstands
  rw [Device.teardown]
  cases hfd : k.fd with
  | none =>
    obtain ⟨hsaved, hbuffers, hlive⟩ := h.closed hfd
    rw [hfd, hbuffers, hlive] at hstands
    have hopen : Stands .back ((if k.savedCrtc.isSome then [.crtc] else []) ++
        ((if k.mode then [.mode] else []) ++ [])) [] false w := by
      rw [List.append_nil]
      exact { hstands with shown := h.unsaved hsaved }
    exact ⟨(hopen.giveIf turns).giveIf turns, rfl, rfl, rfl, hbuffers⟩
  | some fd =>
    rw [hfd] at hstands
    have hback := hstands.restore turns h.saved h.unsaved
    have hfirst := hback.destroyBuffer turns
    rw [← List.append_nil (k.buffers true).frames] at hfirst
    have hsecond := hfirst.destroyBuffer turns
    have hclose := Stands.close turns hsecond
    have hopen : Stands .back ((if k.savedCrtc.isSome then [.crtc] else []) ++
        ((if k.mode then [.mode] else []) ++ [])) [] false
        ((Device.destroyBuffer turns (k.buffers true)
          (Device.destroyBuffer turns (k.buffers false) (k.restore turns w))).close turns fd) := by
      rw [List.append_nil]
      refine { hclose with quiet := fun _ ↦ ⟨?_, rfl⟩ }
      apply Option.eq_none_iff_forall_not_mem.mpr
      exact fun f hf ↦ List.not_mem_nil (hclose.among f hf).1
    exact ⟨(hopen.giveIf turns).giveIf turns, rfl, rfl, rfl, rfl⟩

end

/-! ## What `start` gets -/

/-- Before a controller is set there is no flip and nothing of the output is shown. -/
theorem Stands.quieted {l : List Resource} {w : Card} (fbs : List ℕ)
    (h : Stands .untouched l [] false w) : Stands .any l fbs false w where
  held := h.held
  clean := h.clean
  torn := h.torn
  among := fun _ hf ↦ absurd (h.shown.1.symm.trans hf).symm (Option.some_ne_none _)
  ours := fun c fb hfb ↦ absurd (h.ours c fb hfb) List.not_mem_nil
  fresh := h.fresh
  quiet := h.quiet
  shown := trivial

/-- A display that nothing was done to. -/
theorem Stands.touched {l : List Resource} {fbs : List ℕ} {live : Bool} {w : Card}
    (h : Stands .untouched l fbs live w) (controller connector : ℕ) :
    Touched controller connector w where
  shown := fun c _ ↦ by rw [h.shown.2]
  source := .inl (by rw [h.shown.2])
  flip := fun _ hf ↦ absurd (h.shown.1.symm.trans hf).symm (Option.some_ne_none _)

theorem Stands.back {l : List Resource} {fbs : List ℕ} {live : Bool} {w : Card}
    (h : Stands .untouched l fbs live w) : w.flip = none ∧ Back w :=
  ⟨h.shown.1, by rw [h.shown.2], fun _ ↦ by rw [h.shown.2]⟩

/-- An output on its way to running. -/
structure Gets (k : Device) (w : Card) : Prop where
  stands : Stands .untouched k.owned [] false w
  unsaved : k.savedCrtc = none
  closed : k.fd = none → k.buffers = fun _ ↦ {}

theorem Gets.tears {k : Device} {w : Card} (h : Gets k w) : Tears false k w := by
  refine ⟨h.stands.quieted _, fun hfd ↦ ⟨h.unsaved, h.closed hfd, rfl⟩, ?_, fun _ _ ↦ h.stands.back⟩
  intro shown hshown
  exact absurd (h.unsaved.symm.trans hshown).symm (Option.some_ne_none _)

/-- What `start` takes for granted. -/
theorem Stopped.gets {k : Device} {w : Card} (h : Stopped k w) :
    Gets k { w with before := w.display, chosen := none, gaveUp := false, refused := false } := by
  refine ⟨?_, h.unsaved, fun _ ↦ h.buffers⟩
  rw [Device.owned, h.buffers, h.fd, h.mode, h.unsaved]
  obtain ⟨hflip, hevent⟩ := h.stands.quiet rfl
  refine ⟨h.stands.held, h.stands.clean, h.stands.torn, ?_, h.stands.ours, ?_, h.stands.quiet,
    ⟨hflip, rfl⟩⟩
  · exact fun _ hf ↦ absurd (hflip.symm.trans hf).symm (Option.some_ne_none _)
  · exact fun c fb hfb ↦ List.not_mem_nil (h.stands.ours c fb hfb)

/-- There is nothing to tear down. -/
theorem Stopped.tears {k : Device} {w : Card} (h : Stopped k w) : Tears false k w := by
  have howned : k.owned = [] := by
    rw [Device.owned, h.buffers, h.fd, h.mode, h.unsaved]
    rfl
  refine ⟨?_, fun _ ↦ ⟨h.unsaved, h.buffers, rfl⟩, ?_, fun _ ↦ h.stands.shown⟩
  · rw [howned, h.buffers]
    exact { h.stands with shown := trivial }
  · intro shown hshown
    exact absurd (h.unsaved.symm.trans hshown).symm (Option.some_ne_none _)

/-- What an output has but for one of its buffers. -/
def Device.others (i : Bool) (k : Device) : List Resource :=
  (k.buffers !i).owned ++ (k.fd.toList.map .file ++
    ((if k.savedCrtc.isSome then [.crtc] else []) ++ if k.mode then [.mode] else []))

theorem Device.owned_perm (i : Bool) (k : Device) :
    k.owned.Perm ((k.buffers i).owned ++ k.others i) := by
  cases i
  · exact List.Perm.refl _
  · exact List.perm_append_comm_assoc _ _ _

theorem Device.setBuffer_self (i : Bool) (buffer : Buffer) (k : Device) :
    (k.setBuffer i buffer).buffers i = buffer :=
  Function.update_self _ _ _

theorem Device.setBuffer_other (i : Bool) (buffer : Buffer) (k : Device) :
    (k.setBuffer i buffer).buffers (!i) = k.buffers (!i) :=
  Function.update_of_ne (Bool.not_ne_self i) _ _

theorem Device.setBuffer_setBuffer (i : Bool) (b b' : Buffer) (k : Device) :
    (k.setBuffer i b).setBuffer i b' = k.setBuffer i b' := by
  rw [Device.setBuffer, Device.setBuffer, Device.setBuffer, Function.update_idem]

theorem Device.others_setBuffer (i : Bool) (buffer : Buffer) (k : Device) :
    (k.setBuffer i buffer).others i = k.others i := by
  rw [Device.others, Device.setBuffer_other]
  rfl

/-- A buffer that can be drawn to and shown. -/
def Buffer.Ready (buffer : Buffer) : Prop := buffer.fb ≠ 0 ∧ ∃ address, buffer.map = some address

/-- The mapping of a buffer is held. -/
theorem Device.mapping_mem {k : Device} {i : Bool} {address : ℕ}
    (h : (k.buffers i).map = some address) : .mapping address ∈ k.owned := by
  apply (k.owned_perm i).mem_iff.mpr
  rw [Buffer.owned, h]
  exact List.mem_cons_self

theorem Device.crtc_notMem {k : Device} (h : k.savedCrtc = none) : .crtc ∉ k.owned := by
  have hbuffer (buffer : Buffer) : .crtc ∉ buffer.owned := by
    rw [Buffer.owned]
    split <;> split <;> simp
  rw [Device.owned, h]
  simp [hbuffer]

/-- With what is on the display comes what has to be freed. -/
theorem Device.owned_saved {k : Device} (shown : Shown) (h : k.savedCrtc = none) :
    (Resource.crtc :: k.owned).Perm { k with savedCrtc := some shown }.owned := by
  rw [Device.owned, Device.owned, h]
  simp only [Option.isSome_none, Option.isSome_some, if_true, Bool.false_eq_true, if_false,
    List.nil_append, ← List.append_assoc]
  rw [List.append_assoc _ [Resource.crtc]]
  exact List.perm_middle.symm

/-- What `openDevice` leaves. -/
structure Opens (running : Bool) (r : Bool × Device × Card) : Prop where
  gets : Gets r.2.1 r.2.2
  buffers : r.2.1.buffers = fun _ ↦ {}
  running : r.2.1.running = running
  fd : r.1 = true → r.2.1.fd ≠ none
  chosen : r.1 = true → r.2.2.chosen = some (r.2.1.crtc, r.2.1.connector)

/-- What `createBuffer` leaves. -/
structure Creates (i : Bool) (k : Device) (w : Card) (r : Bool × Device × Card) : Prop where
  gets : Gets r.2.1 r.2.2
  fd : r.2.1.fd ≠ none
  other : r.2.1.buffers (!i) = k.buffers (!i)
  running : r.2.1.running = k.running
  ready : r.1 = true → (r.2.1.buffers i).Ready
  chosen : r.2.2.chosen = w.chosen ∧ r.2.1.crtc = k.crtc ∧ r.2.1.connector = k.connector

section

variable (turns : ℕ → Moment)

theorem Card.chosen_next (w : Card) : (w.next turns).chosen = w.chosen := by
  rw [Card.next, Card.pass]
  split <;> rfl

theorem Card.chosen_take (r : Resource) (w : Card) : (w.take turns r).2.chosen = w.chosen := by
  have hnext := w.chosen_next turns
  rw [Card.take]
  dsimp only [Card.ask]
  split
  · rw [Card.new]
    exact hnext
  · exact hnext

/-- A controller is looked for by two calls at most. -/
theorem Stands.controllerFor {aim : Aim} {l : List Resource} {fbs : List ℕ} {live : Bool} {w : Card}
    (h : Stands aim l fbs live w) (connector : ℕ) :
    Stands aim l fbs live (w.controllerFor turns connector).2 := by
  rw [Card.controllerFor]
  dsimp only
  split
  · exact h.next turns
  · exact (h.next turns).next turns

/-- To note what was chosen changes nothing of the display. -/
theorem Stands.choose {l : List Resource} {fbs : List ℕ} {live : Bool} {w : Card}
    (h : Stands .untouched l fbs live w) (chosen : Option (ℕ × ℕ)) :
    Stands .untouched l fbs live { w with chosen } :=
  { h with shown := h.shown }

/-- `openDevice` gets the device and a mode, in this order, and keeps nothing else. -/
theorem openDevice_spec {k : Device} {w : Card} (hfd : k.fd = none) (hmode : k.mode = false)
    (hbuffers : k.buffers = fun _ ↦ {}) (h : Gets k w) :
    Opens k.running (k.openDevice turns w) := by
  have hnothing : Stands .untouched [] [] false w := by
    have hstands := h.stands
    rw [Device.owned, hbuffers, hfd, hmode, h.unsaved] at hstands
    exact hstands
  rw [Device.openDevice]
  cases hget : w.get turns .file with
  | mk got w₁ =>
  cases got with
  | none =>
    exact ⟨⟨h.stands.get_none hget, h.unsaved, h.closed⟩, hbuffers, rfl,
      fun hno ↦ absurd hno Bool.false_ne_true, fun hno ↦ absurd hno Bool.false_ne_true⟩
  | some fd =>
    have hfile := (hnothing.get_some hget).2
    -- whatever comes after the file is freed where it is given up
    have hleft {w' : Card} (hw : Stands .untouched [.file fd] [] false w') :
        Opens k.running (false, { k with fd := some fd }, w') := by
      refine ⟨⟨?_, h.unsaved, fun hno ↦ absurd hno (Option.some_ne_none _)⟩, hbuffers, rfl,
        fun hno ↦ absurd hno Bool.false_ne_true, fun hno ↦ absurd hno Bool.false_ne_true⟩
      rw [Device.owned, hbuffers, hmode, h.unsaved]
      exact hw
    dsimp only
    cases hasked : w₁.ask turns with
    | mk dumb w₂ =>
    have hdumb := hfile.ask hasked
    cases dumb with
    | false => exact hleft hdumb
    | true =>
    clear hasked
    cases hasked : w₂.ask turns with
    | mk master w₃ =>
    have hmaster := hdumb.ask hasked
    cases master with
    | false => exact hleft hmaster
    | true =>
    cases htaken : w₃.take turns .resources with
    | mk listed w₄ =>
    have hlisted := hmaster.take (by simp) htaken
    cases listed with
    | false => exact hleft hlisted
    | true =>
    clear htaken
    cases htaken : w₄.take turns .connector with
    | mk chosen w₅ =>
    have hchosen := Stands.take (by simp) hlisted htaken
    cases chosen with
    | false => exact hleft (Stands.give turns hchosen)
    | true =>
    dsimp only
    have hmade := Stands.new (r := .mode) (by simp) hchosen
    have hfound := hmade.controllerFor turns (turns w₄.clock).number
    generalize (w₅.new .mode).controllerFor turns (turns w₄.clock).number = found at hfound ⊢
    obtain ⟨crtc, w₆⟩ := found
    have hfreed := ((hfound.perm (.swap _ _ _)).give turns).perm (.swap _ _ _)
    have hheld := ((hfreed.give turns).perm (.swap _ _ _)).choose
      (some (crtc, (turns w₄.clock).number))
    refine ⟨⟨?_, h.unsaved, fun hno ↦ absurd hno (Option.some_ne_none _)⟩, hbuffers, rfl,
      fun _ ↦ Option.some_ne_none _, fun _ ↦ rfl⟩
    rw [Device.owned, hbuffers, h.unsaved]
    exact hheld

/-- What a buffer gets comes to what the output has. -/
theorem Gets.setBuffer {i : Bool} {k : Device} {buffer : Buffer} {w w' : Card} (hfd : k.fd ≠ none)
    (h : Gets k w) (hw : Stands .untouched (buffer.owned ++ k.others i) [] false w') :
    Gets (k.setBuffer i buffer) w' := by
  refine ⟨hw.perm ?_, h.unsaved, fun hno ↦ absurd hno hfd⟩
  have hperm := ((k.setBuffer i buffer).owned_perm i).symm
  rw [Device.setBuffer_self, Device.others_setBuffer] at hperm
  exact hperm

/-- What was chosen stays. -/
theorem Card.chosen_get (r : ℕ → Resource) (w : Card) : (w.get turns r).2.chosen = w.chosen := by
  rw [Card.get]
  split <;> exact Card.chosen_next turns w

/-- `createBuffer` gets the parts of a buffer, each in its place before the next is asked for. -/
theorem createBuffer_spec {i : Bool} {k : Device} {w : Card} (hfd : k.fd ≠ none)
    (hempty : k.buffers i = {}) (h : Gets k w) :
    Creates i k w (k.createBuffer turns i w) := by
  have hothers : Stands .untouched (k.others i) [] false w := by
    have hperm := k.owned_perm i
    rw [hempty] at hperm
    exact h.stands.perm hperm
  have hleft {buffer : Buffer} {w' : Card} (hchosen : w'.chosen = w.chosen)
      (hw : Stands .untouched (buffer.owned ++ k.others i) [] false w') :
      Creates i k w (false, k.setBuffer i buffer, w') :=
    ⟨h.setBuffer hfd hw, hfd, Device.setBuffer_other _ _ _, rfl,
      fun hno ↦ absurd hno Bool.false_ne_true, hchosen, rfl, rfl⟩
  rw [Device.createBuffer]
  have hstays := w.chosen_get turns .dumb
  cases hdumb : w.get turns .dumb with
  | mk got w₁ =>
  rw [hdumb] at hstays
  cases got with
  | none =>
    have hw := h.stands.get_none hdumb
    exact ⟨⟨hw, h.unsaved, h.closed⟩, hfd, rfl, rfl, fun hno ↦ absurd hno Bool.false_ne_true,
      hstays, rfl, rfl⟩
  | some handle =>
  obtain ⟨hhandle, hdumbs⟩ := hothers.get_some hdumb
  dsimp only
  have howned (fb : ℕ) (map : Option ℕ) :
      Buffer.owned { handle, fb, map } = map.toList.map .mapping ++
        ((if fb = 0 then [] else [.framebuffer fb]) ++ [.dumb handle]) := by
    rw [Buffer.owned, if_neg hhandle]
  have hstays₁ := (w₁.chosen_get turns .framebuffer).trans hstays
  cases hframe : w₁.get turns .framebuffer with
  | mk got w₂ =>
  rw [hframe] at hstays₁
  cases got with
  | none =>
    apply hleft hstays₁
    rw [howned]
    exact hdumbs.get_none hframe
  | some fb =>
  obtain ⟨hfb, hframes⟩ := hdumbs.get_some hframe
  have hmade (map : Option ℕ) : Buffer.owned { handle, fb, map } ++ k.others i =
      map.toList.map .mapping ++ (.framebuffer fb :: .dumb handle :: k.others i) := by
    rw [howned, if_neg hfb, List.append_assoc]
    rfl
  dsimp only
  have hstays₂ := (Card.chosen_next turns w₂).trans hstays₁
  cases hasked : w₂.ask turns with
  | mk offset w₃ =>
  have hw₃ : w₂.next turns = w₃ := (Prod.mk.inj hasked).2
  rw [hw₃] at hstays₂
  have hoffset := hframes.ask hasked
  have hplaced : Creates i k w (false, k.setBuffer i { handle, fb }, w₃) := by
    apply hleft hstays₂
    rw [hmade]
    exact hoffset
  cases offset with
  | false => exact hplaced
  | true =>
  have hstays₃ := (w₃.chosen_get turns .mapping).trans hstays₂
  cases hmap : w₃.get turns .mapping with
  | mk got w₄ =>
  rw [hmap] at hstays₃
  cases got with
  | none =>
    apply hleft hstays₃
    rw [hmade]
    exact hoffset.get_none hmap
  | some address =>
    have hmaps := (hoffset.get_some hmap).2
    dsimp only
    rw [Device.setBuffer_setBuffer]
    refine ⟨h.setBuffer hfd ?_, hfd, Device.setBuffer_other _ _ _, rfl, fun _ ↦ ?_, hstays₃, rfl,
      rfl⟩
    · rw [hmade]
      exact hmaps
    · show ((k.setBuffer i _).buffers i).Ready
      rw [Device.setBuffer_self]
      exact ⟨hfb, address, rfl⟩

end

/-! ## What holds while it runs -/

/-- An output that runs: it holds what `start` got, a flip is in flight to the back buffer, or its
event waits, just while `flipPending` is set, and nothing of the display is touched but for its
controller and its connector. -/
structure Runs (k : Device) (w : Card) : Prop where
  held : w.held.Perm k.owned
  clean : w.stray = []
  torn : w.torn = []
  fd : k.fd ≠ none
  ready : ∀ i, (k.buffers i).Ready
  waits : k.flipPending = true →
    w.flip = some (k.crtc, (k.buffers !k.front).fb) ∧ w.event = false ∨
      w.flip = none ∧ w.event = true
  rests : k.flipPending = false → w.flip = none ∧ w.event = false
  ours : ∀ c fb, w.display.shown c = .ours fb → ∃ i, fb = (k.buffers i).fb
  fresh : ∀ c fb, w.before.shown c ≠ .ours fb
  touched : Touched k.crtc k.connector w
  chosen : w.chosen = some (k.crtc, k.connector)
  saved : ∀ shown, k.savedCrtc = some shown → shown = w.before.shown k.crtc
  asked : k.savedCrtc = none → w.refused = true

/-- What is always so of an output. -/
structure Inv (k : Device) (w : Card) : Prop where
  runs : k.running = true → Runs k w
  stopped : k.running = false → Stopped k w

section

variable (turns : ℕ → Moment) {k : Device} {w : Card}

/-- With no flip in flight a call leaves the system as it is. -/
theorem Card.next_of_quiet (h : w.flip = none) :
    w.next turns = { w with clock := w.clock + 1 } := by
  rw [Card.next, Card.pass, h]
  split <;> simp_all

/-- With no flip and no event a controller that is set changes only the display. -/
theorem Card.setCrtc_of_quiet (controller : ℕ) (connector : Option ℕ) (shown : Shown)
    (hflip : w.flip = none) (hevent : w.event = false) :
    w.setCrtc turns controller connector shown = (false, { w with clock := w.clock + 1 }) ∨
      w.setCrtc turns controller connector shown = (true, { w with
        clock := w.clock + 1
        display := w.display.set controller connector shown
        flip := none
        event := false }) := by
  rcases Card.setCrtc_eq turns controller connector shown w with heq | heq
  · apply Or.inl
    rw [heq, Card.next_of_quiet turns hflip]
  · apply Or.inr
    rw [heq, Card.next_of_quiet turns hflip]
    simp [hflip, hevent]

/-- A buffer that is ready can be written to. -/
theorem Runs.write (h : Runs k w) (i : Bool) : w.write (k.buffers i).map = w := by
  obtain ⟨address, hmap⟩ := (h.ready i).2
  rw [hmap, Card.write, if_pos (h.held.mem_iff.mpr (Device.mapping_mem hmap))]

/-- A flip that is in flight is waited for, and is to the back buffer. -/
theorem Runs.pending {f : ℕ × ℕ} (h : Runs k w) (hflip : w.flip = some f) :
    k.flipPending = true ∧ f = (k.crtc, (k.buffers !k.front).fb) := by
  by_cases hpending : k.flipPending = true
  · refine ⟨hpending, ?_⟩
    rcases h.waits hpending with ⟨hback, -⟩ | ⟨hnone, -⟩
    · exact Option.some.inj (hflip.symm.trans hback)
    · exact absurd (hnone.symm.trans hflip).symm (Option.some_ne_none _)
  · rw [Bool.not_eq_true] at hpending
    exact absurd ((h.rests hpending).1.symm.trans hflip).symm (Option.some_ne_none _)

/-- The controller may take the flip, of which there then is an event. -/
theorem Runs.next (h : Runs k w) : Runs k (w.next turns) := by
  have htouched := h.touched.next turns
  rw [Card.next, Card.pass] at htouched ⊢
  split at htouched
  · next controller fb _ hflip =>
    obtain ⟨hpending, heq⟩ := h.pending hflip
    refine { h with waits := fun _ ↦ .inr ⟨rfl, rfl⟩, rests := ?_, ours := ?_, touched := htouched }
    · exact fun hno ↦ absurd (hpending.symm.trans hno) Bool.true_eq_false.mp
    · intro c fb' hfb'
      change Function.update w.display.shown controller (.ours fb) c = .ours fb' at hfb'
      by_cases hc : c = controller
      · rw [hc, Function.update_self] at hfb'
        cases hfb'
        exact ⟨!k.front, (Prod.mk.inj heq).2⟩
      · rw [Function.update_of_ne hc] at hfb'
        exact h.ours c fb' hfb'
  · exact { h with touched := htouched }

/-- An output that does not get through `start` gives back what it has. -/
theorem Tears.inv {live : Bool} (hrunning : k.running = false) (h : Tears live k w) :
    Inv (k.teardown turns w).1 (k.teardown turns w).2 :=
  ⟨fun hno ↦ absurd (hrunning.symm.trans hno) Bool.false_ne_true, fun _ ↦ teardown_spec turns h⟩

/-- What a buffer that is set shows of the output. -/
theorem ours_set {d : Display} {connector : Option ℕ} {i : Bool}
    (h : ∀ c fb, d.shown c = .ours fb → ∃ i, fb = (k.buffers i).fb) (c fb : ℕ)
    (hfb : (d.set k.crtc connector (.ours (k.buffers i).fb)).shown c = .ours fb) :
    ∃ i, fb = (k.buffers i).fb := by
  change Function.update d.shown k.crtc (.ours (k.buffers i).fb) c = .ours fb at hfb
  by_cases hc : c = k.crtc
  · rw [hc, Function.update_self] at hfb
    cases hfb
    exact ⟨i, rfl⟩
  · rw [Function.update_of_ne hc] at hfb
    exact h c fb hfb

/-- The controller is set, or `start` fails with the display as it was. -/
theorem set_spec (hrunning : k.running = false) (hfd : k.fd ≠ none)
    (hready : ∀ i, (k.buffers i).Ready) (h : Stands .untouched k.owned [] false w)
    (hchosen : w.chosen = some (k.crtc, k.connector))
    (hsaved : ∀ shown, k.savedCrtc = some shown → shown = w.before.shown k.crtc)
    (hasked : k.savedCrtc = none → w.refused = true) (i : Bool) :
    let r : Bool × Device × Card :=
      match w.setCrtc turns k.crtc (some k.connector) (.ours (k.buffers i).fb) with
      | (set, w) => if !set then (false, k.teardown turns w)
        else (true, { k with flipPending := false, flipsSupported := true, running := true }, w)
    Inv r.2.1 r.2.2 := by
  obtain ⟨hflip, hevent⟩ := h.quiet rfl
  rcases Card.setCrtc_of_quiet turns k.crtc (some k.connector) (.ours (k.buffers i).fb) hflip
    hevent with heq | heq
  · rw [heq]
    have hcalled : Stands .untouched k.owned [] false { w with clock := w.clock + 1 } :=
      { h with shown := h.shown }
    refine Tears.inv turns hrunning ⟨hcalled.quieted _, fun hno ↦ absurd hno hfd, ?_, ?_⟩
    · exact fun shown hshown ↦ ⟨hsaved shown hshown, hcalled.touched _ _, hchosen⟩
    · exact fun _ _ ↦ hcalled.back
  · rw [heq]
    refine ⟨fun _ ↦ ?_, fun hno ↦ absurd hno Bool.true_eq_false.mp⟩
    have htouched := (h.touched k.crtc k.connector).set (.ours (k.buffers i).fb) (w.clock + 1) false
    refine ⟨h.held, h.clean, h.torn, hfd, hready, fun hno ↦ absurd hno Bool.false_ne_true,
      fun _ ↦ ⟨rfl, rfl⟩, ?_, h.fresh, htouched, hchosen, hsaved, hasked⟩
    exact ours_set (i := i) fun c fb hfb ↦ absurd (h.ours c fb hfb) List.not_mem_nil

/-- `start` either has all an output needs, or gives back what it got. -/
theorem start_spec (h : Inv k w) : Inv (k.start turns w).2.1 (k.start turns w).2.2 := by
  rw [Device.start]
  by_cases hrunning : k.running = true
  · rw [if_pos hrunning]
    exact h
  rw [if_neg hrunning]
  rw [Bool.not_eq_true] at hrunning
  have hstopped := h.stopped hrunning
  have hopens := openDevice_spec turns hstopped.fd hstopped.mode hstopped.buffers hstopped.gets
  dsimp only
  generalize ({ w with before := w.display, chosen := none, gaveUp := false, refused := false } :
    Card) = w₀ at hopens ⊢
  rcases hr : k.openDevice turns w₀ with ⟨_ | _, k₁, w₁⟩ <;> rw [hr] at hopens
  · exact hopens.gets.tears.inv turns (hopens.running.trans hrunning)
  have hfirst := createBuffer_spec turns (hopens.fd rfl) (congrFun hopens.buffers false) hopens.gets
  dsimp only at hfirst ⊢
  rcases hr₁ : k₁.createBuffer turns false w₁ with ⟨_ | _, k₂, w₂⟩ <;> rw [hr₁] at hfirst
  · exact hfirst.gets.tears.inv turns (hfirst.running.trans (hopens.running.trans hrunning))
  have hsecond := createBuffer_spec turns (i := true) hfirst.fd
    (hfirst.other.trans (congrFun hopens.buffers true)) hfirst.gets
  dsimp only at hsecond ⊢
  rcases hr₂ : k₂.createBuffer turns true w₂ with ⟨_ | _, k₃, w₃⟩ <;> rw [hr₂] at hsecond
  · exact hsecond.gets.tears.inv turns
      (hsecond.running.trans (hfirst.running.trans (hopens.running.trans hrunning)))
  have hstill : k₃.running = false :=
    hsecond.running.trans (hfirst.running.trans (hopens.running.trans hrunning))
  have hready (i : Bool) : (k₃.buffers i).Ready := by
    cases i
    · have hother : k₃.buffers false = k₂.buffers false := hsecond.other
      rw [hother]
      exact hfirst.ready rfl
    · exact hsecond.ready rfl
  have hchosen : w₃.chosen = some (k₃.crtc, k₃.connector) := by
    obtain ⟨hsame, hcrtc, hconnector⟩ := hfirst.chosen
    obtain ⟨hsame', hcrtc', hconnector'⟩ := hsecond.chosen
    dsimp only at hsame hcrtc hconnector hsame' hcrtc' hconnector'
    rw [hsame', hsame, hopens.chosen rfl, hcrtc', hcrtc, hconnector', hconnector]
  have hgets : Gets k₃ w₃ := hsecond.gets
  have hwrite (i : Bool) : w₃.write (k₃.buffers i).map = w₃ := by
    obtain ⟨address, hmap⟩ := (hready i).2
    rw [hmap]
    exact hgets.stands.write (Device.mapping_mem hmap)
  dsimp only
  rw [hwrite, hwrite]
  have hstays := w₃.chosen_take turns .crtc
  rcases htaken : w₃.take turns .crtc with ⟨saved, w₄⟩
  rw [htaken] at hstays
  have hchosen := hstays.trans hchosen
  have htook := hgets.stands.take (Device.crtc_notMem hgets.unsaved) htaken
  cases saved with
  | false =>
    -- nobody knows what the controller showed
    have hlost : Stands .untouched k₃.owned [] false { w₄ with refused := true } :=
      { htook with shown := htook.shown }
    apply set_spec turns (k := { k₃ with front := false }) hstill hsecond.fd hready hlost hchosen
    · intro shown hshown
      exact absurd (hgets.unsaved.symm.trans hshown).symm (Option.some_ne_none _)
    · exact fun _ ↦ rfl
  | true =>
    let k₄ : Device := { k₃ with savedCrtc := some (w₄.display.shown k₃.crtc) }
    have hsaved : Stands .untouched k₄.owned [] false w₄ :=
      htook.perm (Device.owned_saved _ hgets.unsaved)
    apply set_spec turns (k := { k₄ with front := false }) hstill hsecond.fd hready hsaved hchosen
    · intro shown hshown
      rw [← Option.some.inj hshown, htook.shown.2]
    · exact fun hno ↦ absurd hno (Option.some_ne_none _)

/-- The event of a flip makes its buffer the front one. -/
theorem collectFlips_spec (h : Runs k w) :
    Runs (k.collectFlips turns w).1 (k.collectFlips turns w).2 ∧
      (k.collectFlips turns w).1.running = k.running := by
  rw [Device.collectFlips]
  by_cases hpending : k.flipPending = true
  · rw [if_pos hpending, Card.poll]
    have hnext := h.next turns
    by_cases hevent : ((w.next turns).event && !(turns w.clock).late) = true
    · simp only [hevent, if_true]
      have hcame : (w.next turns).event = true := (Bool.and_eq_true_iff.mp hevent).1
      have hflip : (w.next turns).flip = none := by
        rcases hnext.waits hpending with ⟨-, hno⟩ | ⟨hflip, -⟩
        · exact absurd (hcame.symm.trans hno) Bool.true_eq_false.mp
        · exact hflip
      refine ⟨?_, trivial⟩
      have htouched := hnext.touched
      exact { hnext with
        waits := fun hno ↦ absurd hno Bool.false_ne_true
        rests := fun _ ↦ ⟨hflip, rfl⟩
        touched := ⟨htouched.shown, htouched.source, htouched.flip⟩ }
    · simp only [if_neg hevent]
      exact ⟨hnext, rfl⟩
  · rw [if_neg hpending]
    exact ⟨h, rfl⟩

/-- A buffer that is ready can be put on the display at once. -/
theorem setCrtc_spec (i : Bool) (h : Runs k w) (hpending : k.flipPending = false)
    {set : Bool} {w' : Card}
    (hset : w.setCrtc turns k.crtc (some k.connector) (.ours (k.buffers i).fb) = (set, w'))
    (front supported : Bool) : Runs { k with flipsSupported := supported, front } w' := by
  obtain ⟨hflip, hevent⟩ := h.rests hpending
  have hwaits : k.flipPending = true → w'.flip = some (k.crtc, (k.buffers !front).fb) ∧
      w'.event = false ∨ w'.flip = none ∧ w'.event = true :=
    fun hno ↦ absurd (hpending.symm.trans hno) Bool.false_ne_true
  rcases Card.setCrtc_of_quiet turns k.crtc (some k.connector) (.ours (k.buffers i).fb) hflip
    hevent with heq | heq
  · obtain ⟨-, hw⟩ := Prod.mk.inj (heq.symm.trans hset)
    subst hw
    have htouched := h.touched
    exact { h with waits := hwaits, touched := ⟨htouched.shown, htouched.source, htouched.flip⟩ }
  · obtain ⟨-, hw⟩ := Prod.mk.inj (heq.symm.trans hset)
    subst hw
    exact { h with
      waits := hwaits
      rests := fun _ ↦ ⟨rfl, rfl⟩
      ours := ours_set h.ours
      touched := h.touched.set _ _ _ }

/-- With no flip in flight one is taken, or is not. -/
theorem Card.pageFlip_eq (controller fb : ℕ) (h : w.flip = none) :
    w.pageFlip turns controller fb =
        (true, { w with clock := w.clock + 1, flip := some (controller, fb) }) ∨
      w.pageFlip turns controller fb = (false, { w with clock := w.clock + 1 }) := by
  rw [Card.pageFlip, Card.ask, Card.next_of_quiet turns h]
  by_cases hfails : (turns w.clock).fails = true
  · apply Or.inr
    simp [hfails]
  · apply Or.inl
    simp [hfails, h]

/-- A frame is drawn only with no flip in flight, and shown by a flip or by setting the
controller. -/
theorem draw_spec (h : Runs k w) (hpending : k.flipPending = false) :
    Runs (k.draw turns w).1 (k.draw turns w).2 ∧
      (k.draw turns w).1.running = k.running := by
  obtain ⟨hflip, hevent⟩ := h.rests hpending
  have htouched := h.touched
  have hmodeset {w : Card} (h : Runs k w) :
      let r := w.setCrtc turns k.crtc (some k.connector) (.ours (k.buffers !k.front).fb)
      let k' := { k with flipsSupported := false }
      Runs (if r.1 then { k' with front := !k.front } else k') r.2 ∧
        (if r.1 then { k' with front := !k.front } else k').running = k.running := by
    dsimp only
    split
    · exact ⟨setCrtc_spec turns (!k.front) h hpending rfl (!k.front) false, rfl⟩
    · exact ⟨setCrtc_spec turns (!k.front) h hpending rfl k.front false, rfl⟩
  rw [Device.draw]
  dsimp only
  rw [h.write]
  by_cases hsupported : k.flipsSupported = true
  · rw [if_pos hsupported]
    rcases Card.pageFlip_eq turns k.crtc (k.buffers !k.front).fb hflip with heq | heq
    · rw [heq]
      have hgiven : Touched k.crtc k.connector
          { w with clock := w.clock + 1, flip := some (k.crtc, (k.buffers !k.front).fb) } :=
        ⟨htouched.shown, htouched.source, fun f hf ↦ by rw [← Option.some.inj hf]⟩
      refine ⟨?_, rfl⟩
      exact { h with
        waits := fun _ ↦ .inl ⟨rfl, hevent⟩
        rests := fun hno ↦ absurd hno.symm Bool.false_ne_true
        touched := ⟨hgiven.shown, hgiven.source, hgiven.flip⟩ }
    · rw [heq]
      apply hmodeset
      exact { h with touched := ⟨htouched.shown, htouched.source, htouched.flip⟩ }
  · rw [if_neg hsupported]
    exact hmodeset h

/-- No frame changes what an output holds. -/
theorem submit_spec (same resized : Bool) (h : Inv k w) :
    Inv (k.submit turns same resized w).1 (k.submit turns same resized w).2 := by
  rw [Device.submit]
  by_cases hrunning : k.running = true
  · rw [if_pos hrunning]
    obtain ⟨hcollect, hsame⟩ := collectFlips_spec turns (h.runs hrunning)
    cases hr : k.collectFlips turns w with
    | mk k' w' =>
    rw [hr] at hcollect hsame
    dsimp only at hcollect hsame ⊢
    have hstill {k'' : Device} {w'' : Card} (hk : Runs k'' w'' ∧ k''.running = k'.running) :
        Inv k'' w'' := by
      refine ⟨fun _ ↦ hk.1, fun hno ↦ ?_⟩
      exact absurd ((hk.2.trans (hsame.trans hrunning)).symm.trans hno) Bool.true_eq_false.mp
    split
    · exact hstill ⟨hcollect, rfl⟩
    · next hgo =>
      apply hstill
      apply draw_spec turns hcollect
      simp only [Bool.or_eq_true, not_or, Bool.not_eq_true] at hgo
      exact hgo.2
  · rw [if_neg hrunning]
    exact h

/-- However `stop` finds the flip, `teardown` can follow. -/
theorem Runs.tears (h : Runs k w) : Tears true k { w with gaveUp := k.flipPending } := by
  have hframes (i : Bool) :
      (k.buffers i).fb ∈ (k.buffers false).frames ++ (k.buffers true).frames := by
    cases i
    · rw [Buffer.frames, if_neg (h.ready false).1]
      exact List.mem_append_left _ List.mem_cons_self
    · rw [Buffer.frames, Buffer.frames, if_neg (h.ready true).1]
      exact List.mem_append_right _ List.mem_cons_self
  refine ⟨⟨h.held, h.clean, h.torn, ?_, ?_, h.fresh, fun hno ↦ ?_, trivial⟩,
    fun hfd ↦ absurd hfd h.fd, ?_, ?_⟩
  · intro f hf
    obtain ⟨hpending, rfl⟩ := h.pending hf
    exact ⟨hframes _, hpending⟩
  · intro c fb hfb
    obtain ⟨i, rfl⟩ := h.ours c fb hfb
    exact hframes i
  · exact absurd hno.symm Bool.false_ne_true
  · intro shown hshown
    have htouched := h.touched
    exact ⟨h.saved shown hshown, ⟨htouched.shown, htouched.source, htouched.flip⟩, h.chosen⟩
  · exact fun hnone hrefused ↦ absurd ((h.asked hnone).symm.trans hrefused) Bool.true_eq_false.mp

/-- `stop` gives back what `start` got. -/
theorem stop_spec (h : Inv k w) :
    Stopped (k.stop turns w).1 (k.stop turns w).2 ∧ (k.stop turns w).1.running = false := by
  rw [Device.stop]
  by_cases hrunning : k.running = true
  · rw [if_pos hrunning]
    have hruns := h.runs hrunning
    have hstopping : Runs { k with running := false } w := { hruns with }
    obtain ⟨hcollect, hsame⟩ := collectFlips_spec turns hstopping
    cases hr : Device.collectFlips turns { k with running := false } w with
    | mk k' w' =>
    rw [hr] at hcollect hsame
    exact ⟨teardown_spec turns hcollect.tears, hsame⟩
  · rw [if_neg hrunning]
    rw [Bool.not_eq_true] at hrunning
    exact ⟨h.stopped hrunning, hrunning⟩

/-- So does the end of the output. -/
theorem destroy_spec (h : Inv k w) : Inv {} (k.destroy turns w) := by
  have hstop := (stop_spec turns h).1
  have hdown := teardown_spec turns hstop.tears
  refine ⟨fun hno ↦ absurd hno Bool.false_ne_true, fun _ ↦ ?_⟩
  exact ⟨hdown.stands, rfl, rfl, rfl, rfl⟩

end

/-! ## The output and the system -/

section

variable {turns : ℕ → Moment} {s : State}

/-- What others show while the output does not run is no buffer of it. -/
theorem Stopped.others {k : Device} {w : Card} (h : Stopped k w) (controller : ℕ)
    (connector picture : Option ℕ) :
    let display := w.display.set controller connector (picture.elim .off .other)
    Stopped k { w with display, before := display } := by
  have hours : ∀ c fb,
      (w.display.set controller connector (picture.elim .off .other)).shown c ≠ .ours fb := by
    intro c fb hfb
    change Function.update w.display.shown controller (picture.elim .off .other) c = .ours fb at hfb
    by_cases hc : c = controller
    · rw [hc, Function.update_self] at hfb
      cases picture <;> cases hfb
    · rw [Function.update_of_ne hc] at hfb
      exact List.not_mem_nil (h.stands.ours c fb hfb)
  refine ⟨?_, h.fd, h.mode, h.unsaved, h.buffers⟩
  exact { h.stands with
    ours := fun c fb hfb ↦ absurd hfb (hours c fb)
    fresh := hours
    shown := fun _ ↦ ⟨(h.stands.quiet rfl).1, rfl, fun _ ↦ rfl⟩ }

theorem inv_step {t : State} {a : Action} (h : Inv s.device s.card)
    (ht : (machine turns).step s a = some t) : Inv t.device t.card := by
  cases a with
  | start =>
    cases ht
    exact start_spec turns h
  | submit same resized =>
    cases ht
    exact submit_spec turns same resized h
  | stop =>
    cases ht
    obtain ⟨hstopped, hrunning⟩ := stop_spec turns h
    exact ⟨fun hno ↦ absurd (hrunning.symm.trans hno) Bool.false_ne_true, fun _ ↦ hstopped⟩
  | destroy =>
    cases ht
    exact destroy_spec turns h
  | others controller connector picture =>
    obtain ⟨hrunning, heq⟩ := Option.ite_none_left_eq_some.mp ht
    cases heq
    rw [Bool.not_eq_true] at hrunning
    exact ⟨fun hno ↦ absurd (hrunning.symm.trans hno) Bool.false_ne_true,
      fun _ ↦ (h.stopped hrunning).others controller connector picture⟩

theorem inv_reachable (h : (machine turns).Reachable s) : Inv s.device s.card := by
  apply h.invariant (I := fun s ↦ Inv s.device s.card)
  · rintro t ⟨display, hours, rfl⟩
    refine ⟨fun hno ↦ absurd hno Bool.false_ne_true, fun _ ↦ ⟨?_, rfl, rfl, rfl, rfl⟩⟩
    exact ⟨.refl _, rfl, rfl, fun _ hno ↦ absurd hno.symm (Option.some_ne_none _),
      fun c fb hfb ↦ absurd hfb (hours c fb), hours, fun _ ↦ ⟨rfl, rfl⟩,
      fun _ ↦ ⟨rfl, rfl, fun _ ↦ rfl⟩⟩
  · intro t a u _ ht hu
    exact inv_step ht hu

end

end WebLinked.Outputs.KmsDevice
