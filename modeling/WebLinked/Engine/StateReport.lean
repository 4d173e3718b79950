import WebLinked.Base.Machine
import WebLinked.Core.FormatText
import WebLinked.Core.StreamArgs
import WebLinked.Engine.OutputList

/-!
# What an engine reports

`src/engine/engine.cpp:1460–1642`, `src/outputs/output_slot.h:130–158`,
`src/outputs/stream_output.cpp:587–618`. A report lists the outputs as configured, each with what
its output says of itself, or said last. Two histories of an engine that differ in the keys of
stream urls are run side by side.
-/

namespace WebLinked.Engine.StateReport

open WebLinked.Base WebLinked.Core Json OutputList

/-- The figures of a stream, of which the url is none until a start has taken its settings. -/
structure StreamFigures where
  running : Bool := false
  settled : Bool := false
  connected : Bool := false
  frames : Double := .ofInt 0
  dropped : Double := .ofInt 0
  audioSamples : Double := .ofInt 0
  audioDeficit : Option Double := none
  queued : Double := .ofInt 0
  pid : Double := .ofInt 0
  lastLine : String := ""
  error : String := ""

/-- What an output answers: a stream its figures, another kind what it likes. -/
structure Figures where
  stream : StreamFigures := {}
  other : Value := .object []

/-- What `status` of a slot comes to: an answer under the gate, or the gate is not to be had,
because of a call that counts as stuck after so many milliseconds or of none such. -/
inductive Asked where
  | answered (figures : Figures)
  | busy (stuck : Option Int)

/-- The members of a report that are not about outputs. -/
structure Rest where
  id : String := ""
  version : String := ""
  running : Bool := true
  compiledBackends : Value := .array []
  displays : Option Value := none
  source : Option Value := none
  settings : Value := .object []
  pacing : Value := .object []
  audio : Value := .object []

/-- How a report is asked for: the engine's mutex is to be had, with what each output in list order
comes to, or it is not. -/
inductive Reading where
  | report (asked : ℕ → Asked) (rest : Rest)
  | locked (id : String)

/-- The engine between requests, what each output of its list said last, its last report, and the
reports it has given, which are not in the code. -/
structure State where
  engine : OutputList.State
  lastStatus : List (Option Value)
  lastState : Option Value := none
  reports : List Value := []

/-- `setUnless`: a member that is there only if it has a value. -/
def setSome (v : Value) (key : String) : Option Value → Value
  | some x => v.set key x
  | none => v

/-- `StreamOutput::status`; `src/outputs/stream_output.cpp:587`. -/
def streamStatus (spec : OutputSpec) (f : StreamFigures) : Value :=
  let url := if f.settled then (spec.options.get "url").asString else ""
  let out := Value.object []
  let out := out.set "kind" (.string "stream")
  let out := out.set "name" (.string (if spec.name = "" then "stream" else spec.name))
  let out := out.set "running" (.bool f.running)
  let out := out.set "url" (.string (redactStreamUrl url))
  let out := out.set "connected" (.bool f.connected)
  let out := out.set "frames" (.number f.frames)
  let out := out.set "dropped" (.number f.dropped)
  let out := out.set "audio_samples" (.number f.audioSamples)
  let out := setSome out "audio_deficit_ms" (f.audioDeficit.map .number)
  let out := out.set "queued" (.number f.queued)
  let out := out.set "ffmpeg_pid" (.number f.pid)
  let out := if f.lastLine = "" then out else out.set "last_logline" (.string f.lastLine)
  if f.error = "" then out else out.set "error" (.string f.error)

/-- `status` of the object in a slot. -/
def outputStatus (output : Output) (f : Figures) : Value :=
  if output.spec.kind = "stream" then streamStatus output.spec f.stream else f.other

/-- `OutputSlot::status`, with what was said last after it; `src/outputs/output_slot.h:138`. -/
def slotStatus (slot : Slot) (last : Option Value) : Asked → Value × Option Value
  | .answered f =>
    match slot.output with
    | none => (.object [], last)
    | some output =>
      let fresh := (outputStatus output f).set "stale" (.bool false)
      (fresh, some fresh)
  | .busy stuck =>
    let value := (last.getD (.object [])).set "stale" (.bool stuck.isSome)
    (setSome value "driver_busy_ms" (stuck.map .int), last)

/-- One output of a report; `src/engine/engine.cpp:1513–1534`. -/
def row (entry : Entry) (value : Value) : Value :=
  let value := value.set "name" (.string entry.spec.name)
  let value := value.set "kind" (.string entry.spec.kind)
  let value := value.set "enabled" (.bool entry.enabled)
  let value := value.set "device_index" (.int entry.spec.deviceIndex)
  let value := value.set "options" entry.spec.options
  let background := entry.spec.background
  let value := value.set "background"
    (.string (if background.isOpaque then "colour" else "transparent"))
  let value := value.set "background_colour" (.string background.toHex)
  if entry.lastError = "" then value else value.set "error" (.string entry.lastError)

/-- Each output of the list with what it said, and what it has said last now. -/
def rows (asked : ℕ → Asked) : List Entry → List (Option Value) → ℕ → List (Value × Option Value)
  | [], _, _ => []
  | entry :: entries, lasts, i =>
    let last := lasts.head?.join
    let (value, last) :=
      if entry.desc.present then slotStatus entry.slot last (asked i) else (.object [], last)
    (row entry value, last) :: rows asked entries lasts.tail (i + 1)

/-- `Engine::state` from what it copied; `src/engine/engine.cpp:1491–1636`. -/
def report (format : VideoFormat) (outputs : List Value) (rest : Rest) : Value :=
  let detail := Value.object []
  let detail := detail.set "width" (.int format.width)
  let detail := detail.set "height" (.int format.height)
  let detail := detail.set "rate_numerator" (.int format.rate.numerator)
  let detail := detail.set "rate_denominator" (.int format.rate.denominator)
  let detail := detail.set "interlaced" (.bool format.interlaced)
  let root := Value.object []
  let root := root.set "id" (.string rest.id)
  let root := root.set "version" (.string rest.version)
  let root := root.set "running" (.bool rest.running)
  let root := root.set "stale" (.bool false)
  let root := root.set "format" (.string format.toString)
  let root := root.set "format_detail" detail
  let root := root.set "outputs" (.array outputs)
  let root := root.set "compiled_backends" rest.compiledBackends
  let root := setSome root "displays" rest.displays
  let root := setSome root "source" rest.source
  let root := root.set "settings" rest.settings
  let root := root.set "pacing" rest.pacing
  root.set "audio" rest.audio

/-- What each output said last after a request: one that is new has said nothing, and one that is
gone says no more. -/
def saidLast (a : Action) (s t : OutputList.State) (lastStatus : List (Option Value)) :
    List (Option Value) :=
  match a with
  | .addOutput _ _ =>
    if s.outputs.length < t.outputs.length then lastStatus ++ [none] else lastStatus
  | .removeOutput name _ =>
    if t.outputs.length < s.outputs.length then
      lastStatus.eraseIdx (s.outputs.findIdx (·.spec.name = name))
    else lastStatus
  | _ => lastStatus

namespace State

/-- `Engine::state`; `src/engine/engine.cpp:1460`. -/
def state (s : State) : Reading → State
  | .report asked rest =>
    let listed := rows asked s.engine.outputs s.lastStatus 0
    let root := report s.engine.format (listed.map Prod.fst) rest
    { s with
      lastStatus := listed.map Prod.snd
      lastState := some root
      reports := root :: s.reports }
  | .locked id =>
    let stale := s.lastState.getD (.object [])
    let stale := stale.set "id" (.string id)
    { s with reports := stale.set "stale" (.bool true) :: s.reports }

/-- A request. -/
def request (s : State) (a : Action) : Option State := do
  let engine ← s.engine.step a
  some { s with engine, lastStatus := saidLast a s.engine engine s.lastStatus }

end State

/-- `Engine::start`. -/
def started (format : VideoFormat) (outputs : List (OutputSpec × OpenAnswers)) : State where
  engine := start format outputs
  lastStatus := outputs.map fun _ ↦ none

/-- A spec in two histories: the same, or that of a stream whose url ends in another key. -/
inductive Keyed where
  | same (spec : OutputSpec)
  | stream (spec : OutputSpec) (base key other : String)

/-- A key is what follows the last slash. -/
def isKey (key : String) : Bool := key ≠ "" && key.toList.all (· ≠ '/')

namespace Keyed

/-- Two specs of a stream with keys. -/
def Valid : Keyed → Bool
  | same _ => true
  | stream spec _ key other => spec.kind = "stream" && isKey key && isKey other

/-- The spec with this key in its url. -/
def fill (spec : OutputSpec) (base key : String) : OutputSpec :=
  { spec with options := spec.options.set "url" (.string (base ++ "/" ++ key)) }

/-- In the one history. -/
def left : Keyed → OutputSpec
  | same spec => spec
  | stream spec base key _ => fill spec base key

/-- In the other. -/
def right : Keyed → OutputSpec
  | same spec => spec
  | stream spec base _ other => fill spec base other

end Keyed

/-- What happens in both histories: a request in the same words, or with such a spec, or a report. -/
inductive Event where
  | request (a : Action)
  | addOutput (spec : Keyed) (answers : OpenAnswers)
  | updateOutput (name : String) (spec : Keyed) (answers : UpdateAnswers)
  | state (reading : Reading)

/-- The request of an event in each history. -/
def Event.actions : Event → Option (Action × Action)
  | request a => some (a, a)
  | addOutput spec answers => some (.addOutput spec.left answers, .addOutput spec.right answers)
  | updateOutput name spec answers =>
    some (.updateOutput name spec.left answers, .updateOutput name spec.right answers)
  | state _ => none

/-- Two engines. -/
structure Twins where
  left : State
  right : State

/-- Whether an update leaves the options of its output as they are. -/
def keepsOptions (s : OutputList.State) : Action → Bool
  | .updateOutput name spec _ =>
    (findEntry s.outputs name).all fun entry ↦
      spec.options.serialize = entry.spec.options.serialize
  | _ => true

/-- Whether the specs of an event are of streams with keys. -/
def Event.Valid : Event → Bool
  | addOutput spec _ | updateOutput _ spec _ => spec.Valid
  | _ => true

/-- The same thing happens to both; an update that changes nothing in one changes nothing in the
other. -/
def Twins.step (s : Twins) (event : Event) : Option Twins :=
  match event, event.actions with
  | .state reading, _ => some { left := s.left.state reading, right := s.right.state reading }
  | _, some (a, a') =>
    if event.Valid && keepsOptions s.left.engine a = keepsOptions s.right.engine a' then do
      some { left := ← s.left.request a, right := ← s.right.request a' }
    else none
  | _, none => none

/-- Two engines started with the same outputs but for keys. -/
def machine : Machine Twins Event where
  init s := ∃ format, ∃ outputs : List (Keyed × OpenAnswers), (∀ o ∈ outputs, o.1.Valid) ∧
    s = { left := started format (outputs.map fun o ↦ (o.1.left, o.2))
          right := started format (outputs.map fun o ↦ (o.1.right, o.2)) }
  step := Twins.step

/-- The engines have given the same reports. -/
def SameReports (s : Twins) : Prop := s.left.reports = s.right.reports

/-- The urls in the options of the outputs. -/
def urls (s : State) : List String :=
  s.engine.outputs.map fun entry ↦ (entry.spec.options.get "url").asString

/-- No report is put together while an output is listed whose key differs. -/
def unkeyed (s : Twins) : Event → Bool
  | .state (.report _ _) => urls s.left = urls s.right
  | _ => true

end WebLinked.Engine.StateReport
