import WebLinked.Base.Circular

/-!
# The buffer between the browser's audio and the frame clock

`src/core/audio_fifo.h`, `src/core/audio_fifo.cpp`. Each channel has a circular buffer of
its own; the cursors and the fill count are shared. The lock is held for a whole call, so a
run is a sequence of calls.
-/

namespace WebLinked.Core

open WebLinked.Base

universe u

/-- `AudioFifo::Stats`; `src/core/audio_fifo.h:50–55`. -/
structure AudioFifoStats where
  framesWritten : Nat := 0
  framesRead : Nat := 0
  underruns : Nat := 0
  overruns : Nat := 0
  deriving DecidableEq, Repr

/-- `AudioFifo`, over any type of samples; `src/core/audio_fifo.h:64–73`. -/
structure AudioFifo (α : Type u) where
  channels : Nat := 0
  sampleRate : Nat := 0
  capacity : Nat := 0
  writePos : Nat := 0
  readPos : Nat := 0
  filled : Nat := 0
  planes : List (List α) := []
  stats : AudioFifoStats := {}
  deriving DecidableEq, Repr

namespace AudioFifo

variable {α : Type u} [Zero α]

/-- `configure`, which forgets all there was; `src/core/audio_fifo.cpp:10–21`. -/
def configure (channels sampleRate capacityFrames : Int) : AudioFifo α where
  channels := channels.toNat
  sampleRate := sampleRate.toNat
  capacity := (max 1 capacityFrames).toNat
  planes := List.replicate channels.toNat (List.replicate (max 1 capacityFrames).toNat 0)

/-- `k` samples of a channel from `offset` on. -/
def samples (channel : Nat → α) (offset k : Nat) : List α :=
  (List.range k).map fun f ↦ channel (offset + f)

/-- `write`; `src/core/audio_fifo.cpp:33–86`. -/
def write (a : AudioFifo α) (planes : Nat → Nat → α) (frames : Int) : AudioFifo α :=
  if frames ≤ 0 then a
  else if a.channels = 0 ∨ a.capacity = 0 then a
  else
    -- A packet larger than the whole buffer can only contribute its tail.
    let offset := if frames > a.capacity then frames.toNat - a.capacity else 0
    let taken := if frames > a.capacity then a.capacity else frames.toNat
    let room := a.capacity - a.filled
    let overran : Bool := frames > a.capacity ∨ taken > room
    { a with
      planes := a.planes.mapIdx fun c plane ↦
        Circular.copyIn a.capacity plane a.writePos (samples (planes c) offset taken)
      writePos := (a.writePos + taken) % a.capacity
      readPos := if taken > room then (a.readPos + (taken - room)) % a.capacity else a.readPos
      filled := if taken > room then a.capacity else a.filled + taken
      stats := { a.stats with
        framesWritten := a.stats.framesWritten + taken
        overruns := if overran then a.stats.overruns + 1 else a.stats.overruns } }

/-- `availableFrames`; `src/core/audio_fifo.cpp:88–93`. -/
def availableFrames (a : AudioFifo α) : Nat := a.filled

/-- What the cursors and counters become when `taken` of `frames` sample-frames are read;
`src/core/audio_fifo.cpp:117–123,154–160`. -/
def consume (a : AudioFifo α) (taken frames : Nat) : AudioFifo α :=
  { a with
    readPos := (a.readPos + taken) % a.capacity
    filled := a.filled - taken
    stats := { a.stats with
      framesRead := a.stats.framesRead + taken
      underruns := if taken < frames then a.stats.underruns + 1 else a.stats.underruns } }

/-- `readInterleaved` into a buffer that is there: the sample-frames there were and the
samples written; `src/core/audio_fifo.cpp:95–124`. -/
def readInterleaved (a : AudioFifo α) (frames : Int) : (Nat × List α) × AudioFifo α :=
  if frames ≤ 0 then ((0, []), a)
  else if a.channels = 0 then ((0, []), a)
  else
    let frames := frames.toNat
    let taken := min frames a.filled
    let dst := (List.range frames).flatMap fun f ↦ (List.range a.channels).map fun c ↦
      if f < taken then (a.planes.getD c []).getD ((a.readPos + f) % a.capacity) 0 else 0
    ((taken, dst), a.consume taken frames)

/-- `readPlanar` into planes that are there: the sample-frames there were and what was
written to each plane; `src/core/audio_fifo.cpp:126–161`. -/
def readPlanar (a : AudioFifo α) (frames : Int) : (Nat × List (List α)) × AudioFifo α :=
  if frames ≤ 0 then ((0, []), a)
  else if a.channels = 0 then ((0, []), a)
  else
    let frames := frames.toNat
    let taken := min frames a.filled
    let dst := a.planes.map fun plane ↦
      Circular.copyOut a.capacity plane a.readPos taken ++ List.replicate (frames - taken) 0
    ((taken, dst), a.consume taken frames)

/-- `reset`, which keeps the counters; `src/core/audio_fifo.cpp:168–176`. -/
def reset (a : AudioFifo α) : AudioFifo α :=
  { a with
    writePos := 0
    readPos := 0
    filled := 0
    planes := a.planes.map fun plane ↦ plane.map fun _ ↦ 0 }

/-- The calls of the two sides. `write` is given each channel's samples. -/
inductive Call (α : Type u) where
  | configure (channels sampleRate capacityFrames : Int)
  | write (planes : Nat → Nat → α) (frames : Int)
  | readInterleaved (frames : Int)
  | readPlanar (frames : Int)
  | reset

/-- What a call gives back: for a read the sample-frames there were and what it wrote. -/
inductive Reply (α : Type u) where
  | done
  | interleaved (taken : Nat) (dst : List α)
  | planar (taken : Nat) (dst : List (List α))
  deriving DecidableEq, Repr

/-- One call. -/
def call (a : AudioFifo α) : Call α → Reply α × AudioFifo α
  | .configure channels sampleRate capacityFrames =>
    (.done, configure channels sampleRate capacityFrames)
  | .write planes frames => (.done, a.write planes frames)
  | .readInterleaved frames =>
    match a.readInterleaved frames with
    | ((taken, dst), a) => (.interleaved taken dst, a)
  | .readPlanar frames =>
    match a.readPlanar frames with
    | ((taken, dst), a) => (.planar taken dst, a)
  | .reset => (.done, a.reset)

/-- A sequence of calls, with the replies in order. -/
def run (a : AudioFifo α) : List (Call α) → List (Reply α) × AudioFifo α
  | [] => ([], a)
  | c :: rest => ((a.call c).1 :: ((a.call c).2.run rest).1, ((a.call c).2.run rest).2)

end AudioFifo
end WebLinked.Core
