import WebLinked.Base.Machine
import WebLinked.Core.VideoFormat

/-!
# A stream output

`src/outputs/stream_output.cpp`. `start`, `stop` and `submit` come one at a time, under the
output's gate; a video and an audio writer feed ffmpeg through two loopback sockets, and
ffmpeg may connect, stop reading or exit at any moment. A section that holds `queueMutex_`
is one step. Every change to what a wait tests is followed by `notify_all`, so a wait may
end whenever its condition holds. A thread blocked in `accept` is released by a connection,
not by `close` of the listener (`src/control/http_server.cpp:365`). How ffmpeg is waited
for and signalled is in `FfmpegProcess`.
-/

namespace WebLinked.Outputs.StreamOutput

open WebLinked.Base WebLinked.Core

/-- `AudioBlock`, its samples as bytes; `src/core/audio_block.h:15`. -/
structure AudioBlock where
  interleaved : Option (List UInt8) := none
  frames : Int := 0
  channels : Int := 0
  sampleRate : Int := 0
  deriving DecidableEq, Repr

/-- `AudioBlock::valid`; `src/core/audio_block.h:22`. -/
def AudioBlock.valid (a : AudioBlock) : Bool := 0 < a.frames && 0 < a.channels && 0 < a.sampleRate

/-- The settings this object reads; the others only reach ffmpeg's command line.
`src/core/stream_args.h:16`. -/
structure StreamSettings where
  url : String := ""
  audioChannels : Int := 2
  audioSampleRate : Int := 48000
  deriving DecidableEq, Repr

/-- `Tick`, with the `submit` and the session that built it, which the code does not
record; `src/outputs/stream_output.cpp:446`. -/
structure Tick where
  video : List UInt8
  audio : List UInt8
  number : Nat
  session : Nat
  deriving DecidableEq, Repr

/-- `OneShotListener`: its two sockets, how many listeners it has opened, which of them it
has closed, and whether it ever let go of an open socket by assigning another.
`src/outputs/stream_output.cpp:120`. -/
structure Pipe where
  listener : Option Nat := none
  peer : Bool := false
  opened : Nat := 0
  closed : List Nat := []
  overwrote : Bool := false
  deriving DecidableEq, Repr

/-- Where a writer thread is; `none` is one that is not joinable. The audio writer never
hands over or drains. -/
inductive Writer where
  | none
  | entering | accepting | parked (listener : Nat)
  | waiting | writing (t : Tick) | handing (t : Tick)
  | failing (reason : String) | stopping | draining
  | finished
  deriving DecidableEq, Repr

/-- Where `start`, `stop` or `submit` has got to; `idle` holds the error of the last call,
and `aborted` is `std::terminate`. -/
inductive Control where
  | idle (error : Option String)
  | listening | spawning | resetting | launchingVideo | launchingAudio | announcing
  | submitting (t : Tick)
  | signalling | closingVideo | closingAudio | joiningVideo | joiningAudio | closing | terminating
  | aborted
  deriving DecidableEq, Repr

/-- The object, its threads and its child. The last three groups are not in the code: which
session this is and what it has carried, and whether a `start` or a `spawn` ever found
something of an earlier session. -/
structure State where
  format : VideoFormat := {}
  frameBytes : Nat := 0
  running : Bool := false
  stopping : Bool := false
  videoDrained : Bool := false
  queue : List Tick := []
  pendingAudio : List Tick := []
  videoPipe : Pipe := {}
  audioPipe : Pipe := {}
  videoWriter : Writer := .none
  audioWriter : Writer := .none
  ffmpeg : Option Bool := none
  logReaderJoinable : Bool := false
  error : String := ""
  control : Control := .idle none
  session : Nat := 0
  sessionBytes : Nat := 0
  submits : Nat := 0
  failed : Bool := false
  videoWritten : List Tick := []
  audioWritten : List Tick := []
  dropped : List Tick := []
  unreleased : Bool := false
  deriving DecidableEq, Repr

/-- A call, the next step of the current call or of a writer, or ffmpeg's exit. The flags
say what the calls into the system answer. -/
inductive Action where
  | start (format : VideoFormat)
  | stop
  | submit (video : List UInt8) (audio : AudioBlock)
  | control (first second : Bool)
  | video (ok : Bool)
  | audio (ok : Bool)
  | exit
  deriving DecidableEq, Repr

/-- `kMaxQueuedTicks`; `src/outputs/stream_output.cpp:621`. -/
def kMaxQueuedTicks : Nat := 30

/-- `kMaxPendingAudio`; `src/outputs/stream_output.cpp:625`. -/
def kMaxPendingAudio : Nat := 250

namespace Pipe

/-- `OneShotListener::closeListener`; `src/outputs/stream_output.cpp:216`. -/
def closeListener (p : Pipe) : Pipe :=
  match p.listener with
  | some l => { p with listener := none, closed := l :: p.closed }
  | none => p

/-- `OneShotListener::listenOnEphemeralPort`; `src/outputs/stream_output.cpp:125`. -/
def listenOnEphemeralPort (p : Pipe) (ok : Bool) : Pipe :=
  let p := { p with
    listener := some p.opened
    opened := p.opened + 1
    overwrote := p.overwrote || p.listener.isSome }
  if ok then p else p.closeListener

/-- `OneShotListener::close`; `src/outputs/stream_output.cpp:207`. -/
def close (p : Pipe) : Pipe := { p.closeListener with peer := false }

/-- The next step inside `OneShotListener::accept`; none if the thread stays blocked. A
blocked thread is released only by a connection to its listener, which `ok` says it could
take. `src/outputs/stream_output.cpp:158`. -/
def accept (p : Pipe) (alive ok : Bool) (never : String) : Writer → Option (Writer × Pipe)
  | .entering => some (if p.listener.isNone then .failing never else .accepting, p)
  | .accepting => some (p.listener.elim (.failing never) .parked, p)
  | .parked l =>
    if alive && !p.closed.contains l then
      some (if ok then .waiting else .failing never,
        { p.closeListener with peer := ok, overwrote := p.overwrote || p.peer })
    else none
  | _ => none

end Pipe

namespace State

/-- ffmpeg is there to connect. -/
def ffmpegAlive (s : State) : Bool := s.ffmpeg = some true

/-- `videoLoop` with `videoLoopBody` and `fail`; `src/outputs/stream_output.cpp:651–707,744`. -/
def videoLoop (s : State) (ok : Bool) : Option State :=
  match s.videoWriter with
  | .entering | .accepting | .parked _ => do
    let (videoWriter, videoPipe) ← s.videoPipe.accept s.ffmpegAlive ok
      "ffmpeg never connected to the video socket" s.videoWriter
    some { s with videoWriter, videoPipe }
  | .waiting =>
    match s.queue with
    | [] => if s.stopping then some { s with videoWriter := .draining } else none
    | t :: queue => some { s with queue, videoWriter := .writing t }
  | .writing t =>
    if ok && s.videoPipe.peer then
      some { s with videoWritten := s.videoWritten ++ [t], videoWriter := .handing t }
    else some { s with videoWriter := .failing "ffmpeg closed the video connection" }
  | .handing t =>
    if kMaxPendingAudio ≤ s.pendingAudio.length then
      some { s with videoWriter := .failing "ffmpeg never read any audio" }
    else some { s with pendingAudio := s.pendingAudio ++ [t], videoWriter := .waiting }
  | .failing reason =>
    some { s with
      error := if s.error = "" then reason else s.error
      running := false
      failed := true
      videoWriter := .stopping }
  | .stopping => some { s with stopping := true, videoWriter := .draining }
  | .draining => some { s with videoDrained := true, videoWriter := .finished }
  | .finished | .none => none

/-- `audioLoop` with `fail`; `src/outputs/stream_output.cpp:709–756`. An empty block needs no
write. -/
def audioLoop (s : State) (ok : Bool) : Option State :=
  match s.audioWriter with
  | .entering | .accepting | .parked _ => do
    let (audioWriter, audioPipe) ← s.audioPipe.accept s.ffmpegAlive ok
      "ffmpeg never connected to the audio socket" s.audioWriter
    some { s with audioWriter, audioPipe }
  | .waiting =>
    match s.pendingAudio with
    | [] => if s.stopping && s.videoDrained then some { s with audioWriter := .finished } else none
    | t :: pendingAudio => some { s with pendingAudio, audioWriter := .writing t }
  | .writing t =>
    if t.audio.isEmpty || ok && s.audioPipe.peer then
      some { s with audioWritten := s.audioWritten ++ [t], audioWriter := .waiting }
    else some { s with audioWriter := .failing "ffmpeg closed the audio connection" }
  | .failing reason =>
    some { s with
      error := if s.error = "" then reason else s.error
      running := false
      failed := true
      audioWriter := .stopping }
  | .stopping => some { s with stopping := true, audioWriter := .finished }
  | .finished | .none | .handing _ | .draining => none

/-- Nothing of an earlier session is left: no thread, child or socket. -/
def released (s : State) : Bool :=
  s.videoWriter = .none && s.audioWriter = .none && !s.logReaderJoinable && s.ffmpeg.isNone &&
  s.videoPipe.listener.isNone && !s.videoPipe.peer && s.audioPipe.listener.isNone &&
  !s.audioPipe.peer

/-- `start` up to its sockets; `src/outputs/stream_output.cpp:470–480`. -/
def start (s : State) (settings : StreamSettings) (format : VideoFormat) : State :=
  let s := { s with unreleased := s.unreleased || !s.released }
  if settings.url = "" then
    { s with
      control := .idle "a stream output needs a url option, e.g. rtmp://host:1935/live/key" }
  else
    { s with
      format
      frameBytes := format.width.toNat * format.height.toNat * 2
      control := .listening }

/-- `stop` up to its signal; `src/outputs/stream_output.cpp:513–517`. -/
def stop (s : State) : State :=
  if !s.running && s.videoWriter = .none && s.audioWriter = .none then
    { s with control := .idle none }
  else { s with running := false, control := .signalling }

/-- `expectedAudioFrames`; `src/outputs/stream_output.cpp:637`. -/
def expectedAudioFrames (s : State) (settings : StreamSettings) : Int :=
  if s.format.rate.numerator ≤ 0 then 0
  else (settings.audioSampleRate * s.format.rate.denominator).tdiv s.format.rate.numerator

/-- The audio `submit` puts into a tick; `src/outputs/stream_output.cpp:554–576`. -/
def tickAudio (s : State) (settings : StreamSettings) (audio : AudioBlock) : List UInt8 :=
  let silence (frames : Int) : List UInt8 :=
    List.replicate (frames.toNat * settings.audioChannels.toNat * 4) 0
  if !audio.valid then silence (s.expectedAudioFrames settings)
  else match audio.interleaved with
    | some bytes =>
      if audio.channels = settings.audioChannels then
        bytes.take (audio.frames.toNat * audio.channels.toNat * 4)
      else silence audio.frames
    | none => silence audio.frames

/-- `submit` up to its queue; `src/outputs/stream_output.cpp:547–576`. -/
def submit (s : State) (settings : StreamSettings) (video : List UInt8) (audio : AudioBlock) :
    State :=
  if s.running && video.length = s.frameBytes then
    { s with
      submits := s.submits + 1
      control := .submitting
        { video, audio := s.tickAudio settings audio, number := s.submits, session := s.session } }
  else { s with control := .idle none }

/-- `submit` at its queue; `src/outputs/stream_output.cpp:578–586`. -/
def push (s : State) (t : Tick) : State :=
  match s.queue with
  | oldest :: queue =>
    if kMaxQueuedTicks ≤ s.queue.length then
      { s with queue := queue ++ [t], dropped := s.dropped ++ [oldest], control := .idle none }
    else { s with queue := s.queue ++ [t], control := .idle none }
  | [] => { s with queue := [t], control := .idle none }

/-- The next step of the current call; none if there is none or it must wait on.
`src/outputs/stream_output.cpp:480–545,578–586`. -/
def proceed (s : State) (first second : Bool) : Option State :=
  match s.control with
  | .listening =>
    let s := { s with
      videoPipe := s.videoPipe.listenOnEphemeralPort first
      audioPipe := s.audioPipe.listenOnEphemeralPort second }
    if first && second then some { s with control := .spawning }
    else
      some { s with
        videoPipe := s.videoPipe.close
        audioPipe := s.audioPipe.close
        control := .idle "could not open a loopback socket for ffmpeg" }
  | .spawning =>
    if first then
      some { s with
        ffmpeg := some true
        logReaderJoinable := true
        unreleased := s.unreleased || s.ffmpeg.isSome
        control := if s.logReaderJoinable then .aborted else .resetting }
    else
      some { s with
        videoPipe := s.videoPipe.close
        audioPipe := s.audioPipe.close
        control := .idle
          (if second then "could not start ffmpeg (is it on PATH?)"
            else "could not create a pipe for ffmpeg's output") }
  | .resetting =>
    some { s with
      stopping := false
      videoDrained := false
      session := s.session + 1
      sessionBytes := s.frameBytes
      failed := false
      videoWritten := []
      audioWritten := []
      dropped := []
      control := .launchingVideo }
  | .launchingVideo =>
    if s.videoWriter = .none then
      some { s with videoWriter := .entering, control := .launchingAudio }
    else some { s with control := .aborted }
  | .launchingAudio =>
    if s.audioWriter = .none then
      some { s with audioWriter := .entering, control := .announcing }
    else some { s with control := .aborted }
  | .announcing => some { s with running := true, control := .idle none }
  | .submitting t => some (s.push t)
  | .signalling => some { s with stopping := true, control := .closingVideo }
  | .closingVideo => some { s with videoPipe := s.videoPipe.closeListener, control := .closingAudio }
  | .closingAudio => some { s with audioPipe := s.audioPipe.closeListener, control := .joiningVideo }
  | .joiningVideo =>
    match s.videoWriter with
    | .none | .finished => some { s with videoWriter := .none, control := .joiningAudio }
    | _ => none
  | .joiningAudio =>
    match s.audioWriter with
    | .none | .finished => some { s with audioWriter := .none, control := .closing }
    | _ => none
  | .closing =>
    some { s with
      videoPipe := s.videoPipe.close, audioPipe := s.audioPipe.close, control := .terminating }
  | .terminating =>
    some { s with ffmpeg := none, logReaderJoinable := false, control := .idle none }
  | .idle _ | .aborted => none

/-- One step of the object under its callers, its threads and ffmpeg. -/
def step (settings : StreamSettings) (s : State) : Action → Option State
  | .video ok => if s.control = .aborted then none else s.videoLoop ok
  | .audio ok => if s.control = .aborted then none else s.audioLoop ok
  | .control first second => s.proceed first second
  | .exit => if s.ffmpegAlive then some { s with ffmpeg := some false } else none
  | .start format =>
    match s.control with
    | .idle _ => some (s.start settings format)
    | _ => none
  | .stop =>
    match s.control with
    | .idle _ => some s.stop
    | _ => none
  | .submit video audio =>
    match s.control with
    | .idle _ => some (s.submit settings video audio)
    | _ => none

end State

/-- A stream output from its construction on. -/
def machine (settings : StreamSettings) : Machine State Action where
  init s := s = {}
  step := State.step settings

end WebLinked.Outputs.StreamOutput
