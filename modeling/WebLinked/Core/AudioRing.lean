import Mathlib
import WebLinked.Base.Machine

/-!
# The lock-free ring in front of a sound card

`src/core/audio_ring.h`, `src/core/audio_ring.cpp`. One producer writes and one consumer
reads; each loads the other's counter once and works from that copy. A step is one atomic
access or the copy of one frame, in an order the two share; counting what neither side reads
goes with the step before. The counters are natural numbers, of which 64 bits hold twelve
million years at 48 kHz.
-/

namespace WebLinked.Core

open WebLinked.Base

universe u

/-- `AudioRing`, with a frame of any type in each slot; `src/core/audio_ring.h:80–101`. -/
structure AudioRing (α : Type u) where
  channels : Int
  sampleRate : Int
  capacityFrames : Int
  targetFrames : Int
  buffer : Nat → α
  write : Nat := 0
  read : Nat := 0
  priming : Bool := true
  framesWritten : Nat := 0
  framesRead : Nat := 0
  underruns : Nat := 0
  overruns : Nat := 0
  resyncs : Nat := 0

namespace AudioRing

variable {α : Type u}

/-- `std::clamp`. -/
def clamp (value low high : Int) : Int :=
  if value < low then low else if high < value then high else value

section

variable [Zero α]

/-- `configure`, which ends with `reset` and keeps the statistics;
`src/core/audio_ring.cpp:8–33`. -/
def configure (a : AudioRing α) (channels sampleRate capacityMs targetMs : Int) : AudioRing α :=
  let capacityFrames := ((max sampleRate 0 * capacityMs).tdiv 1000).bmod (2 ^ 32)
  let targetFrames := ((max sampleRate 0 * targetMs).tdiv 1000).bmod (2 ^ 32)
  { a with
    channels := max channels 0
    sampleRate := max sampleRate 0
    capacityFrames
    targetFrames := clamp targetFrames 0 (max (capacityFrames.tdiv 2) 0)
    buffer := fun _ ↦ 0
    write := 0
    read := 0
    priming := true }

end

/-- The frames the buffer has room for; `src/core/audio_ring.cpp:22`. -/
def capacity (a : AudioRing α) : Nat := a.capacityFrames.toNat

/-- The frames the ring aims to hold. -/
def target (a : AudioRing α) : Nat := a.targetFrames.toNat

/-- `bufferedFrames`; `src/core/audio_ring.cpp:35–39`. -/
def bufferedFrames (a : AudioRing α) : Nat := a.write - a.read

/-- The ring takes part in calls at all; `src/core/audio_ring.cpp:41–44,84–87`. -/
def usable (a : AudioRing α) : Bool := 0 < a.channels && 0 < a.capacityFrames

/-- Where the frame at `i` of a copy of `taken` from the counter `index` on goes or comes from:
up to the end of the buffer, then from its start; `src/core/audio_ring.cpp:58–68,114–124`. -/
def slot (capacity index taken i : Nat) : Nat :=
  let offset := index % capacity
  let first := min taken (capacity - offset)
  if i < first then offset + i else i - first

/-- Where a `write` is between two steps. -/
inductive Producer (α : Type u) where
  | idle
  | indexed (packet : List α) (write : Nat)
  | copying (packet : List α) (write buffered taken copied : Nat)
  | stored (buffered taken : Nat)
  | clearing

/-- Where a `read` is between two steps. `skipped` frames come before those it takes. -/
inductive Consumer (α : Type u) where
  | idle
  | playing (frames : Nat)
  | indexed (frames read : Nat)
  | copying (frames skipped read taken : Nat) (dst : List α)
  | starved (skipped read : Nat) (dst : List α)

/-- The ring, its two sides and what they did since it was configured: the frames put in, and
for each read that took any or found none the frames skipped and those delivered. The
statistics may have counted before. -/
structure State (α : Type u) where
  ring : AudioRing α
  producer : Producer α := .idle
  consumer : Consumer α := .idle
  put : List α := []
  log : List (List α × List α) := []
  writtenBefore : Nat := 0
  readBefore : Nat := 0

/-- A call of either side, or its next step. -/
inductive Action (α : Type u) where
  | write (packet : List α)
  | produce
  | read (frames : Int)
  | consume

namespace State

variable [Zero α]

/-- The next step of a `write`; `src/core/audio_ring.cpp:46–78`. -/
def produce (s : State α) : Option (State α) :=
  match s.producer with
  | .idle => none
  | .indexed packet write =>
    let buffered := write - s.ring.read
    let taken := min packet.length (s.ring.capacity - buffered)
    let overruns := if taken < packet.length then s.ring.overruns + 1 else s.ring.overruns
    some { s with
      ring := { s.ring with overruns }
      producer := if taken = 0 then .idle else .copying packet write buffered taken 0 }
  | .copying packet write buffered taken copied =>
    if copied < taken then
      some { s with
        ring := { s.ring with
          buffer := Function.update s.ring.buffer (slot s.ring.capacity write taken copied)
            (packet.getD copied 0) }
        producer := .copying packet write buffered taken (copied + 1) }
    else
      some { s with
        ring := { s.ring with
          write := write + taken, framesWritten := s.ring.framesWritten + taken }
        producer := .stored buffered taken
        put := s.put ++ packet.take taken }
  | .stored buffered taken =>
    some { s with
      producer :=
        if s.ring.priming ∧ s.ring.target ≤ buffered + taken then .clearing else .idle }
  | .clearing => some { s with ring := { s.ring with priming := false }, producer := .idle }

/-- The frames a read threw away, before those it delivered. -/
def skippedFrom (s : State α) (skipped : Nat) : List α := (s.put.drop s.ring.read).take skipped

/-- The next step of a `read`; `src/core/audio_ring.cpp:94–137`. -/
def consume (s : State α) : Option (State α) :=
  match s.consumer with
  | .idle => none
  | .playing frames => some { s with consumer := .indexed frames s.ring.read }
  | .indexed frames read =>
    let buffered := s.ring.write - read
    let drifted : Bool := 0 < s.ring.target ∧ s.ring.target * 2 < buffered
    let excess := if drifted then buffered - s.ring.target else 0
    let resyncs := if drifted then s.ring.resyncs + 1 else s.ring.resyncs
    some { s with
      ring := { s.ring with resyncs }
      consumer := .copying frames excess (read + excess) (min frames (buffered - excess)) [] }
  | .copying frames skipped read taken dst =>
    if dst.length < taken then
      some { s with
        consumer := .copying frames skipped read taken
          (dst ++ [s.ring.buffer (slot s.ring.capacity read taken dst.length)]) }
    else if taken < frames then
      some { s with
        ring := { s.ring with
          priming := true
          framesRead := s.ring.framesRead + taken
          underruns := s.ring.underruns + 1 }
        consumer := .starved skipped read dst }
    else
      some { s with
        ring := { s.ring with
          read := read + taken, framesRead := s.ring.framesRead + taken }
        consumer := .idle
        log := s.log ++ [(s.skippedFrom skipped, dst)] }
  | .starved skipped read dst =>
    some { s with
      ring := { s.ring with read := read + dst.length }
      consumer := .idle
      log := s.log ++ [(s.skippedFrom skipped, dst)] }

/-- One step of either side. A call goes up to and with its first access. -/
def step (s : State α) : Action α → Option (State α)
  | .write packet =>
    match s.producer with
    | .idle =>
      if packet = [] ∨ !s.ring.usable then some s
      else some { s with producer := .indexed packet s.ring.write }
    | _ => none
  | .produce => s.produce
  | .read frames =>
    match s.consumer with
    | .idle =>
      if frames ≤ 0 ∨ !s.ring.usable then some s
      else if s.ring.priming then some s
      else some { s with consumer := .playing frames.toNat }
    | _ => none
  | .consume => s.consume

/-- A run starts from any ring that was just configured. -/
def machine : Machine (State α) (Action α) where
  init s := ∃ (a : AudioRing α) (channels sampleRate capacityMs targetMs : Int),
    s = { ring := a.configure channels sampleRate capacityMs targetMs
          writtenBefore := a.framesWritten
          readBefore := a.framesRead }
  step := step

end State
end AudioRing
end WebLinked.Core
