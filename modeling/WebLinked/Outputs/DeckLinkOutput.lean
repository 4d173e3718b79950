import WebLinked.Base.Machine
import WebLinked.Core.RecycleRing
import WebLinked.Outputs.DeckLinkPlayout

/-!
# A DeckLink output and the card

`src/outputs/decklink_output.cpp`. One thread at a time is in `start`, `submit` or `stop`; the
driver completes frames on threads of its own at any time. A step is one call on the ring or on
the card, or the write of a frame's pixels. A frame stands for its address, so a new frame may have
any that no frame in the ring or with the card has, and `close` is what frees them.
-/

namespace WebLinked.Outputs

open WebLinked.Base WebLinked.Core

/-- What a frame is acquired for: the rest of the preroll, or a tick's picture and the sample rate
of its audio, if that is valid. -/
inductive Job (β : Type) where
  | preroll (left : Nat)
  | submit (video : β) (audio : Option Int)

/-- Where the thread in `start`, `submit` or `stop` is. `starts` says that `start` called `stop`
first. -/
inductive Phase (α : Type) (β : Type) where
  | idle
  | stopping (starts : Bool)
  | releasing (starts : Bool)
  | opening
  | building (ring : RecycleRing α)
  | installing
  | acquiring (job : Job β)
  | writing (job : Job β) (frame : α)
  | unwritten (frame : α)
  | scheduling (job : Job β) (frame : α)
  | refused (job : Job β) (frame : α)
  | sounding (sampleRate : Int)
  | starting

/-- `BMDOutputFrameCompletionResult`. -/
inductive CompletionResult where
  | completed
  | displayedLate
  | dropped
  | flushed
  deriving DecidableEq, Repr

/-- `PlayoutCounters`, whose flag is the schedule's; `src/outputs/decklink_output.cpp:301`. -/
structure PlayoutCounters where
  completed : Nat := 0
  late : Nat := 0
  dropped : Nat := 0
  flushed : Nat := 0
  strays : Nat := 0
  deriving DecidableEq, Repr

/-- `DeckLinkOutput`; `src/outputs/decklink_output.cpp:408,1239–1289`. `frameBuffers` has the
frames that were made for the ring. -/
structure DeckLinkOutput (α : Type) where
  prerollFrames : Nat
  ringFrames : Nat
  playout : Playout
  ring : Option (RecycleRing α) := none
  frameBuffers : List α := []
  output : Bool := false
  running : Bool := false
  audioEnabled : Bool := false
  counters : PlayoutCounters := {}
  ringMisses : Nat := 0
  createFailures : Nat := 0
  refusedFrames : Nat := 0
  accessFailures : Nat := 0

/-- The output, the thread in it, the rings that the callbacks of earlier starts still have, the
frames the card accepted and has not completed, each with what it showed then, and the pixels. -/
structure DeckLink (α : Type) (β : Type) extends DeckLinkOutput α where
  phase : Phase α β := .idle
  retired : List (RecycleRing α) := []
  card : List (α × β) := []
  pixels : α → β

/-- The callback that a completion arrives at: that of the current ring, or of an earlier one. -/
inductive Receiver where
  | current
  | retired (i : Nat)
  deriving DecidableEq, Repr

/-- Calls on the output, the choices of the card in them, and completions. -/
inductive DeckLinkAction (α : Type) (β : Type) where
  | callStart
  | callStop
  | callSubmit (video : β) (audio : Option Int) (sameRaster : Bool)
  | stopCard
  | releaseRing
  | opened (ok : Bool)
  | create (frame : Option α)
  | installed (ok audio : Bool) (frameDuration timeScale : Int)
  | acquire
  | write (accessible : Bool)
  | schedule (streamTime : Option Int) (accepted : Bool)
  | giveBack
  | sound (written : Option Int)
  | started (ok : Bool)
  | complete (receiver : Receiver) (frame : α) (result : CompletionResult)
  | stray (receiver : Receiver) (frame : Option α) (result : CompletionResult)

/-- The counting in `ScheduledFrameCompleted`; `src/outputs/decklink_output.cpp:332–348`. -/
def PlayoutCounters.count (c : PlayoutCounters) : CompletionResult → PlayoutCounters
  | .completed => { c with completed := c.completed + 1 }
  | .displayedLate => { c with completed := c.completed + 1, late := c.late + 1 }
  | .dropped => { c with completed := c.completed + 1, dropped := c.dropped + 1 }
  | .flushed => { c with completed := c.completed + 1, flushed := c.flushed + 1 }

namespace DeckLink

variable {α β : Type}

/-- The frame that the thread in the output has. -/
def held (s : DeckLink α β) : Option α :=
  match s.phase with
  | .writing _ f | .unwritten f | .scheduling _ f | .refused _ f => some f
  | _ => none

/-- The card has the frame. -/
def WithCard (s : DeckLink α β) (f : α) : Prop := ∃ shown, (f, shown) ∈ s.card

/-- The ring that a callback has. -/
def receiverRing (s : DeckLink α β) : Receiver → Option (RecycleRing α)
  | .current => s.ring
  | .retired i => s.retired[i]?

/-- What a completion leaves of the callback's ring. -/
def setReceiverRing (s : DeckLink α β) (ring : RecycleRing α) : Receiver → DeckLink α β
  | .current => { s with ring := some ring }
  | .retired i => { s with retired := s.retired.set i ring }

variable [DecidableEq α]

/-- `ScheduledFrameCompleted`, which gives the frame back to the callback's ring;
`src/outputs/decklink_output.cpp:330–357`. -/
def scheduledFrameCompleted (s : DeckLink α β) (receiver : Receiver) (frame : Option α)
    (result : CompletionResult) : Option (DeckLink α β) := do
  let ring ← s.receiverRing receiver
  let counters := s.counters.count result
  let late := result = .displayedLate || result = .dropped
  let s := { s with
    counters
    playout := { s.playout with lateSinceCheck := s.playout.lateSinceCheck || late } }
  match frame with
  | none => return s
  | some f =>
    let (known, ring) := ring.release f
    let s := s.setReceiverRing ring receiver
    if known then return s
    else return { s with counters := { counters with strays := counters.strays + 1 } }

/-- The end of a job whose frame was not scheduled: `submit` returns, `start` gives up. -/
def abandoned : Job β → Phase α β
  | .preroll _ => .stopping false
  | .submit _ _ => .idle

/-- What follows a frame that was scheduled. -/
def scheduled (audioEnabled : Bool) : Job β → Phase α β
  | .preroll left => if left ≤ 1 then .starting else .acquiring (.preroll (left - 1))
  | .submit _ audio =>
    match audio with
    | some sampleRate => if audioEnabled then .sounding sampleRate else .idle
    | none => .idle

/-- What a job writes: black, or the tick's picture. -/
def picture (black : β) : Job β → β
  | .preroll _ => black
  | .submit video _ => video

/-- `releaseRing`; `src/outputs/decklink_output.cpp:1068–1109`. -/
def releaseRing (s : DeckLink α β) : DeckLink α β :=
  match s.ring with
  | none => s
  | some ring =>
    { s with
      ringMisses := s.ringMisses + ring.misses
      retired := ring.close.2 :: s.retired
      ring := none
      frameBuffers := [] }

/-- One call in `buildRing`, and the end of it; `src/outputs/decklink_output.cpp:958–992`. -/
def createFrame (s : DeckLink α β) (ring : RecycleRing α) : Option α → Option (DeckLink α β)
  | none => some { s with
      createFailures := s.createFailures + 1, frameBuffers := [], phase := .stopping false }
  | some f =>
    -- A new frame's address is that of no frame there is.
    if f ∈ ring.items ∨ f ∈ s.card.map Prod.fst then none
    else
      let s := { s with frameBuffers := s.frameBuffers ++ [f] }
      if (ring.add f).items.length = s.ringFrames then
        some { s with ring := some (ring.add f), phase := .installing }
      else some { s with phase := .building (ring.add f) }

/-- One step; `black` is what a preroll frame shows. -/
def step (black : β) (s : DeckLink α β) : DeckLinkAction α β → Option (DeckLink α β)
  | .callStart =>
    match s.phase with
    | .idle => some { s with phase := .stopping true }
    | _ => none
  | .callStop =>
    match s.phase with
    | .idle => some { s with phase := .stopping false }
    | _ => none
  | .callSubmit video audio sameRaster =>
    match s.phase with
    | .idle =>
      if !s.running || !s.output || s.ring.isNone then some s
      else if !sameRaster then some { s with refusedFrames := s.refusedFrames + 1 }
      else some { s with phase := .acquiring (.submit video audio) }
    | _ => none
  | .stopCard =>
    match s.phase with
    | .stopping starts =>
      some { s with
        playout := { s.playout with playing := false }
        audioEnabled := false
        phase := .releasing starts }
    | _ => none
  | .releaseRing =>
    match s.phase with
    | .releasing starts =>
      let s := s.releaseRing
      some { s with
        output := false
        running := false
        playout := { s.playout with
          schedule := s.playout.schedule.reset, framesScheduled := 0, scheduledAudioFrames := 0 }
        phase := if starts then .opening else .idle }
    | _ => none
  | .opened ok =>
    match s.phase with
    | .opening =>
      if ok then some { s with output := true, phase := .building {} }
      else some { s with phase := .stopping false }
    | _ => none
  | .create frame =>
    match s.phase with
    | .building ring => s.createFrame ring frame
    | _ => none
  | .installed ok audio frameDuration timeScale =>
    match s.phase with
    | .installing =>
      let s := { s with
        playout := { s.playout with
          schedule := .make frameDuration timeScale s.prerollFrames } }
      if ok then
        some { s with audioEnabled := audio, phase := .acquiring (.preroll s.prerollFrames) }
      else some { s with phase := .stopping false }
    | _ => none
  | .acquire =>
    match s.phase, s.ring with
    | .acquiring job, some ring =>
      match ring.acquire with
      | (some f, ring) => some { s with ring := some ring, phase := .writing job f }
      | (none, ring) => some { s with ring := some ring, phase := abandoned job }
    | _, _ => none
  | .write accessible =>
    match s.phase with
    | .writing job f =>
      if accessible then
        some { s with
          pixels := fun g ↦ if g = f then picture black job else s.pixels g
          phase := .scheduling job f }
      else
        -- The preroll does not look whether the card let it write.
        match job with
        | .preroll _ => some { s with phase := .scheduling job f }
        | .submit _ _ =>
          some { s with accessFailures := s.accessFailures + 1, phase := .unwritten f }
    | _ => none
  | .schedule streamTime accepted =>
    match s.phase with
    | .scheduling job f => do
      let playout ← s.playout.beforeSchedule streamTime
      if accepted then
        let playout ← playout.frameAccepted
        return { s with
          playout
          card := (f, s.pixels f) :: s.card
          phase := scheduled s.audioEnabled job }
      else
        let playout ← playout.frameRefused
        return { s with playout, phase := .refused job f }
    | _ => none
  | .giveBack =>
    match s.phase, s.ring with
    | .unwritten f, some ring => some { s with ring := some (ring.release f).2, phase := .idle }
    | .refused job f, some ring =>
      some { s with ring := some (ring.release f).2, phase := abandoned job }
    | _, _ => none
  | .sound written =>
    match s.phase with
    | .sounding sampleRate => do
      let (_, playout) ← s.playout.scheduleAudio sampleRate written
      return { s with playout, phase := .idle }
    | _ => none
  | .started ok =>
    match s.phase with
    | .starting =>
      if ok then
        some { s with
          running := true, playout := { s.playout with playing := true }, phase := .idle }
      else some { s with phase := .stopping false }
    | _ => none
  | .complete receiver f result =>
    -- A frame of the ring is completed at the ring's own callback.
    if f ∈ s.card.map Prod.fst ∧ (f ∈ (s.ring.elim [] RecycleRing.items) → receiver = .current) then
      { s with card := Keyed.remove Prod.fst f s.card }.scheduledFrameCompleted receiver (some f)
        result
    else none
  | .stray receiver frame result =>
    if ∀ f ∈ frame, f ∉ s.card.map Prod.fst ∧
        f ∉ ((s.receiverRing receiver).elim [] RecycleRing.items) then
      s.scheduledFrameCompleted receiver frame result
    else none

/-- The constructor, given the options `preroll` and `ring`;
`src/outputs/decklink_output.cpp:409–422,1245–1277`. -/
def make (preroll ring : Nat) (pixels : α → β) : DeckLink α β :=
  let prerollFrames := max 2 preroll
  { prerollFrames
    ringFrames := min (max ring (prerollFrames + 2)) (max 64 (prerollFrames + 2))
    playout := { schedule := .make 1 1 1 }
    pixels }

/-- Runs of an output from when it is constructed. -/
def machine (black : β) : Machine (DeckLink α β) (DeckLinkAction α β) where
  init s := ∃ preroll ring pixels, s = make preroll ring pixels
  step := step black

end DeckLink
end WebLinked.Outputs
