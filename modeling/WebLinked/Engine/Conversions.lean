import WebLinked.Base.Machine
import WebLinked.Engine.Repeats
import WebLinked.Engine.SlotCalls

/-!
# What the clock makes of a frame

`src/engine/engine.cpp:97–121,279–386,406–610,1293–1325`, `src/core/frame_clock.cpp`. The clock
converts a frame once for all the outputs that want it the same way, and keeps its composites
under the number of the tick. Requests change the list of outputs as they like; a format change
swaps what is here while the clock stands with a tick it has a number for.
-/

namespace WebLinked.Engine.Conversions

open WebLinked.Base WebLinked.Core
open WebLinked.Engine.Repeats (composite)
open WebLinked.Engine.SlotCalls (Entry Target targets)

variable {α β : Type}

/-- `VideoFrame`, of pixels of one form; `src/core/frame.h:17`. -/
structure Frame (α : Type) where
  format : VideoFormat := {}
  sequence : Int
  captureNanos : Int := 0
  data : α

/-- A frame of either form, as an output gets it. -/
inductive Payload where
  | bgra (frame : Frame Picture)
  | uyvy (frame : Frame PairPicture)

/-- A buffer filled from a frame. -/
def Frame.fill (source : Frame α) (format : VideoFormat) (data : β) : Frame β where
  format
  sequence := source.sequence
  captureNanos := source.captureNanos
  data

/-- `Engine::BackgroundVariant`; `src/engine/engine.h:245`. -/
structure BackgroundVariant where
  colour : UInt32
  bgra : Option (Frame Picture) := none
  uyvy : Option (Frame PairPicture) := none
  bgraTick : Int := -1
  uyvyTick : Int := -1

/-- What was handed to a target, of which frame and at which raster. -/
structure Submission where
  raster : VideoFormat
  source : Frame Picture
  target : Target
  payload : Payload

/-- The engine as far as it converts: its raster, its pools by the format each was made with, its
scratch frames and composites, the outputs, the latest paint and the number of the next, the
clock's next tick and the one it has woken for. Not in the code is `submitted`. -/
structure State where
  format : VideoFormat := {}
  matrix : ColourMatrix := .kAuto
  uyvyPool : VideoFormat := {}
  straightPool : VideoFormat := {}
  backgroundPool : VideoFormat := {}
  uyvyScratch : Option (Frame PairPicture) := none
  straightScratch : Option (Frame Picture) := none
  backgrounds : List BackgroundVariant := []
  entries : List Entry := []
  slot : Option (Frame Picture) := none
  sequence : ℕ := 0
  nextTick : ℕ := 0
  woken : Option ℕ := none
  submitted : List Submission := []

/-- A paint arrives, requests change the list, the clock wakes for a tick, and takes it, or a format
change swaps what the clock owns while the clock stands still. -/
inductive Action where
  | paint (format : VideoFormat) (data : Picture)
  | change (entries : List Entry)
  | wake (skipped : ℕ)
  | tick (nanos : Int)
  | swap (format : VideoFormat)

/-- A buffer to fill: the one there is, if it has the shape, or one of the pool. -/
def buffer (old : Option (Frame α)) (pool format : VideoFormat) : VideoFormat :=
  match old with
  | some frame => if frame.format.equal format then frame.format else pool
  | none => pool

/-- A variant in place of the one of its colour, or after the others. -/
def put (variant : BackgroundVariant) : List BackgroundVariant → List BackgroundVariant
  | [] => [variant]
  | v :: rest => if v.colour = variant.colour then variant :: rest else v :: put variant rest

namespace State

/-- What `peek` gives, or black before the first paint; `src/engine/engine.cpp:110–117,442–465`. -/
def source (s : State) (captureNanos : Int) : Frame Picture :=
  { s.slot.getD { format := s.format, sequence := -1, data := fillBlackBgra } with captureNanos }

/-- `frameInFormat` of a BGRA frame; `src/engine/engine.cpp:279`. -/
def frameInFormat (s : State) (source : Frame Picture) : State × Option (Frame PairPicture) :=
  if !s.uyvyPool.equal source.format then (s, none)
  else
    let format := buffer s.uyvyScratch s.uyvyPool source.format
    let uyvy := source.fill format (bgraToUyvy source.data source.format.height s.matrix)
    ({ s with uyvyScratch := some uyvy }, some uyvy)

/-- `unpremultiplied`; `src/engine/engine.cpp:306`. -/
def unpremultiplied (s : State) (source : Frame Picture) : State × Option (Frame Picture) :=
  if !s.straightPool.equal source.format then (s, none)
  else
    let format := buffer s.straightScratch s.straightPool source.format
    let straight := source.fill format (unpremultiplyBgra source.data)
    ({ s with straightScratch := some straight }, some straight)

/-- `backgroundVariant`; `src/engine/engine.cpp:326`. -/
def backgroundVariant (s : State) (colour : UInt32) : BackgroundVariant :=
  (s.backgrounds.find? (·.colour = colour)).getD { colour }

/-- `compositedBgra`; `src/engine/engine.cpp:339`. -/
def compositedBgra (s : State) (source : Frame Picture) (colour : UInt32) (tick : ℕ) :
    State × Option (Frame Picture) :=
  if !s.backgroundPool.equal source.format then (s, none)
  else
    let variant := s.backgroundVariant colour
    match if variant.bgraTick = tick then variant.bgra else none with
    | some bgra => (s, some bgra)
    | none =>
      let format := buffer variant.bgra s.backgroundPool source.format
      let bgra := source.fill format (composite colour source.data)
      ({ s with backgrounds := put { variant with bgra, bgraTick := tick } s.backgrounds }, some bgra)

/-- `compositedUyvy`; `src/engine/engine.cpp:366`. -/
def compositedUyvy (s : State) (source : Frame Picture) (colour : UInt32) (tick : ℕ) :
    State × Option (Frame PairPicture) :=
  match s.compositedBgra source colour tick with
  | (s, none) => (s, none)
  | (s, some bgra) =>
    let variant := s.backgroundVariant colour
    match if variant.uyvyTick = tick then variant.uyvy else none with
    | some uyvy => (s, some uyvy)
    | none =>
      let format := buffer variant.uyvy s.uyvyPool bgra.format
      let uyvy := bgra.fill format (bgraToUyvy bgra.data bgra.format.height s.matrix)
      ({ s with backgrounds := put { variant with uyvy, uyvyTick := tick } s.backgrounds }, some uyvy)

/-- The payload of one target; `src/engine/engine.cpp:577–593`. -/
def payload (s : State) (source : Frame Picture) (tick : ℕ) (uyvy : Option (Frame PairPicture))
    (straight : Option (Frame Picture)) (target : Target) : State × Option Payload :=
  if target.background.isOpaque then
    let colour := target.background.packed
    match target.desc.pixelFormat with
    | .kUYVY => (s.compositedUyvy source colour tick).map id (Option.map .uyvy)
    | .kBGRA => (s.compositedBgra source colour tick).map id (Option.map .bgra)
  else
    match target.desc.pixelFormat with
    | .kUYVY => (s, uyvy.map .uyvy)
    | .kBGRA => (s, if target.desc.straightAlpha then straight.map .bgra else some (.bgra source))

/-- The payloads of a tick, each handed to its target; `src/engine/engine.cpp:575–606`. -/
def submit (s : State) (source : Frame Picture) (tick : ℕ) (uyvy : Option (Frame PairPicture))
    (straight : Option (Frame Picture)) : List Target → State
  | [] => s
  | target :: rest =>
    match s.payload source tick uyvy straight target with
    | (s, none) => s.submit source tick uyvy straight rest
    | (s, some payload) =>
      { s with submitted := { raster := s.format, source, target, payload } :: s.submitted }.submit
        source tick uyvy straight rest

/-- A target fed UYVY without a background; `src/engine/engine.cpp:546`. -/
def wantsUyvy (target : Target) : Bool :=
  !target.background.isOpaque && target.desc.pixelFormat = .kUYVY

/-- A target fed straight alpha; `src/engine/engine.cpp:548`. -/
def wantsStraight (target : Target) : Bool :=
  !target.background.isOpaque && target.desc.pixelFormat ≠ .kUYVY && target.desc.straightAlpha

/-- `clockLoop` from where the clock could be stopped to the end of the tick;
`src/engine/engine.cpp:429–608`. -/
def clockTick (s : State) (tick : ℕ) (nanos : Int) : State :=
  let source := s.source nanos
  if !source.format.equal s.format then s
  else
    let targets := targets s.entries
    let keys := (targets.filter (·.background.isOpaque)).map (·.background.packed)
    let s := { s with backgrounds := s.backgrounds.filter (·.colour ∈ keys) }
    let (s, uyvy) := if targets.any wantsUyvy then s.frameInFormat source else (s, none)
    if targets.any wantsUyvy && uyvy.isNone then s
    else
      let (s, straight) := if targets.any wantsStraight then s.unpremultiplied source else (s, none)
      if targets.any wantsStraight && straight.isNone then s
      else s.submit source tick uyvy straight targets

/-- The swap of a format change; `src/engine/engine.cpp:1296–1324`. -/
def swap (s : State) (format : VideoFormat) : State :=
  { s with
    format
    uyvyPool := format
    straightPool := format
    backgroundPool := format
    uyvyScratch := none
    straightScratch := none
    backgrounds := []
    nextTick := 0 }

/-- One step; none where it cannot happen. -/
def step (s : State) : Action → Option State
  | .paint format data =>
    some { s with
      slot := some { format, sequence := s.sequence, data }
      sequence := s.sequence + 1 }
  | .change entries => some { s with entries }
  | .wake skipped =>
    match s.woken with
    | some _ => none
    | none =>
      let tick := s.nextTick + skipped
      some { s with woken := some tick, nextTick := tick + 1 }
  | .tick nanos => s.woken.map fun tick ↦ { s.clockTick tick nanos with woken := none }
  | .swap format => s.woken.map fun _ ↦ s.swap format

end State

/-- An engine that has started at a raster, with these outputs and this matrix. -/
def started (format : VideoFormat) (matrix : ColourMatrix) (entries : List Entry) : State where
  format
  matrix
  uyvyPool := format
  straightPool := format
  backgroundPool := format
  entries

/-- An engine and its clock. -/
def machine : Machine State Action where
  init s := ∃ format matrix entries, s = started format matrix entries
  step := State.step

/-- The conversion a target declares, of a frame at a raster, in a new buffer. -/
def direct (matrix : ColourMatrix) (raster : VideoFormat) (source : Frame Picture)
    (target : Target) : Payload :=
  let bgra := source.fill raster (composite target.background.packed source.data)
  match target.form with
  | .premultiplied => .bgra source
  | .straight => .bgra (source.fill raster (unpremultiplyBgra source.data))
  | .uyvy => .uyvy (source.fill raster (bgraToUyvy source.data raster.height matrix))
  | .composite => .bgra bgra
  | .compositeUyvy => .uyvy (bgra.fill raster (bgraToUyvy bgra.data raster.height matrix))

end WebLinked.Engine.Conversions
