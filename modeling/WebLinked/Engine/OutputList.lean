import Mathlib.Data.List.Nodup
import WebLinked.Base.Machine
import WebLinked.Core.SourceConfig
import WebLinked.Core.VideoFormat

/-!
# The outputs of an engine

`src/engine/engine.cpp:127–163,834–1397`. Requests take turns on the control queue and each is
one step here, since nothing else but a background writes what they read; only `setFormat`
reads before it queues. Outputs are foreign code: whether a gate is free, what an output
answers and whether the clock parks are given with the step. A request answers with none, or
with the error it was refused for.
-/

namespace WebLinked.Engine.OutputList

open WebLinked.Base WebLinked.Core Json

/-- `OutputSpec`; `src/outputs/output.h:19`. -/
structure OutputSpec where
  kind : String
  name : String
  deviceIndex : Int := 0
  options : Value := .object []
  background : OutputBackground := {}

/-- `outputSpecFromConfig`; `src/outputs/output.cpp:20`. -/
def outputSpecFromConfig (c : OutputConfig) : OutputSpec where
  kind := c.kind
  name := c.name
  deviceIndex := c.deviceIndex
  options := c.options
  background := c.background

/-- `outputConfigFromSpec`; `src/outputs/output.cpp:30`. -/
def outputConfigFromSpec (spec : OutputSpec) : OutputConfig where
  kind := spec.kind
  name := spec.name
  deviceIndex := spec.deviceIndex
  options := spec.options
  background := spec.background

/-- What `applyConfiguration` compares of two outputs of one name;
`src/engine/engine.cpp:752–755`. -/
def OutputSpec.same (spec other : OutputSpec) : Bool :=
  spec.kind = other.kind && spec.deviceIndex = other.deviceIndex &&
    spec.background = other.background && spec.options.serialize = other.options.serialize

/-- The object in a slot: what it was created from, and the raster its last successful `start`
was called with. -/
structure Output where
  spec : OutputSpec
  started : Option VideoFormat := none

/-- `OutputSlot`; `src/outputs/output_slot.h:174`. -/
structure Slot where
  output : Option Output := none
  generation : Nat := 1

/-- `OutputSlot::Description`, as far as the requests read it; `src/outputs/output_slot.h:43`. -/
structure Description where
  generation : Nat
  present : Bool
  deriving DecidableEq, Repr

/-- `Engine::Entry`; `src/engine/engine.h:262`. -/
structure Entry where
  spec : OutputSpec
  slot : Slot
  desc : Description
  enabled : Bool := true
  lastError : String := ""

/-- Whether a gate could be had, and if not how long the call in the way has been running. -/
inductive Gate where
  | ran
  | busy (millis : Int)
  deriving DecidableEq, Repr

/-- What `createOutput` and `start` answer, and again when the old output is put back; none is
success. -/
structure OpenAnswers where
  create : Option String := none
  start : Option String := none
  deriving DecidableEq, Repr

/-- What an output answers to `setOutputEnabled`. -/
structure EnableAnswers where
  gate : Gate := .ran
  isRunning : Bool
  start : Option String := none
  deriving DecidableEq, Repr

/-- What the outputs answer to `updateOutput`; `probe` is none when the gate was not free in
time. -/
structure UpdateAnswers where
  probe : Option Bool
  gate : Gate := .ran
  replacement : OpenAnswers := {}
  previous : OpenAnswers := {}
  deriving DecidableEq, Repr

/-- What one output answers to a format change. -/
structure ItemAnswers where
  stop : Gate := .ran
  reopen : Gate := .ran
  start : Option String := none
  deriving DecidableEq, Repr

/-- What the clock and the outputs, in list order, answer to a format change; `stuck` is how
long the clock has not ticked when that is too long. -/
structure FormatAnswers where
  stuck : Option Int := none
  parked : Bool
  item : Nat → ItemAnswers := fun _ ↦ {}

/-- What a request was told; `notChanged` names the raster in the message of a format change
whose clock did not park. -/
inductive Reply where
  | ok
  | error (message : String)
  | notChanged (reopenedAt : VideoFormat)
  deriving DecidableEq, Repr

/-- What the request was told; empty when it returned true. -/
def Reply.message : Reply → String
  | .ok => ""
  | .error message => message
  | .notChanged reopenedAt =>
    "the format was not changed: the clock did not stop for it, which usually means " ++
      "an output's driver is not answering; the outputs were reopened at " ++ reopenedAt.toString

/-- A `setFormat` on its way to the queue, with what it read. -/
structure Waiting where
  format : VideoFormat
  previous : VideoFormat
  deriving DecidableEq, Repr

/-- The engine between requests, the format changes that wait, and the last reply. -/
structure State where
  format : VideoFormat := {}
  outputs : List Entry := []
  waiting : List Waiting := []
  reply : Reply := .ok

/-- `busyMessage`; `src/engine/engine.cpp:787`. -/
def busyMessage (name : String) (millis : Int) : String :=
  "output '" ++ name ++ "' is not answering" ++
    (if 0 < millis then
      ": a call into its driver has been running for " ++ toString (millis.tdiv 1000) ++ "." ++
        toString ((millis.tmod 1000).tdiv 100) ++ " s"
    else "") ++ "; nothing was changed"

namespace Slot

/-- `OutputSlot::refreshDescription`; `src/outputs/output_slot.h:178`. -/
def description (slot : Slot) : Description :=
  { generation := slot.generation, present := slot.output.isSome }

/-- `start` on the object in the slot. -/
def start (slot : Slot) (format : VideoFormat) : Slot :=
  { slot with output := slot.output.map fun output ↦ { output with started := some format } }

/-- `OutputSlot::replace`; `src/outputs/output_slot.h:116`. -/
def replace (slot : Slot) (output : Option Output) : Slot :=
  { output, generation := slot.generation + 1 }

end Slot

namespace Entry

/-- A new entry as `start` and `addOutput` open it; `src/engine/engine.cpp:134–160,953–965`. -/
def opened (spec : OutputSpec) (format : VideoFormat) (a : OpenAnswers) : Entry :=
  match a.create, a.start with
  | some error, _ => { spec, slot := {}, desc := Slot.description {}, enabled := false, lastError := error }
  | none, some error =>
    let slot : Slot := { output := some { spec } }
    { spec, slot, desc := slot.description, enabled := false, lastError := error }
  | none, none =>
    let slot : Slot := { output := some { spec, started := some format } }
    { spec, slot, desc := slot.description }

/-- `setOutputEnabled` on the entry it found; `src/engine/engine.cpp:844–919`. -/
def setEnabled (entry : Entry) (format : VideoFormat) (enabled : Bool) (a : EnableAnswers) :
    Entry × Option String :=
  if !entry.desc.present then
    (entry, some ("output '" ++ entry.spec.name ++ "' was never created: " ++ entry.lastError))
  else
    let wasEnabled := entry.enabled
    let entry := if enabled then entry else { entry with enabled := false }
    match a.gate, entry.slot.output with
    | .busy millis, _ =>
      ({ entry with enabled := wasEnabled }, some (busyMessage entry.spec.name millis))
    | .ran, none =>
      ({ entry with enabled := wasEnabled },
        some ("output '" ++ entry.spec.name ++ "' has no device"))
    | .ran, some _ =>
      let acted := !(enabled = wasEnabled && a.isRunning = enabled)
      if !enabled then ({ entry with enabled := false }, none)
      else if !acted then ({ entry with lastError := "", enabled := true }, none)
      else
        match a.start with
        | none => ({ entry with slot := entry.slot.start format, lastError := "", enabled := true }, none)
        | some error => ({ entry with lastError := error, enabled := false }, some error)

/-- Whether the output runs: its own answer if the slot still holds the object described and
the gate was free, or else the engine's record; `src/engine/engine.cpp:1045,1061–1069`. -/
def running (entry : Entry) (probe : Option Bool) : Bool :=
  let healthy := entry.enabled && entry.lastError = ""
  let answered :=
    if entry.desc.present && entry.slot.output.isSome &&
      entry.slot.generation = entry.desc.generation then probe else none
  answered.getD (entry.desc.present && healthy)

/-- `updateOutput` on the entry it found; `src/engine/engine.cpp:1043–1159`. -/
def update (entry : Entry) (spec : OutputSpec) (format : VideoFormat) (a : UpdateAnswers) :
    Entry × Option String :=
  let wasEnabled := entry.enabled
  if entry.running a.probe && spec.name = entry.spec.name && spec.kind = entry.spec.kind &&
      spec.deviceIndex = entry.spec.deviceIndex &&
      spec.options.serialize = entry.spec.options.serialize then
    ({ entry with spec := { entry.spec with background := spec.background } }, none)
  else
    let entry := { entry with enabled := false }
    match a.gate with
    | .busy millis =>
      ({ entry with enabled := wasEnabled }, some (busyMessage entry.spec.name millis))
    | .ran =>
      match a.replacement.create.or a.replacement.start with
      | none =>
        let slot := entry.slot.replace (some { spec, started := some format })
        ({ entry with spec, slot, desc := slot.description, enabled := true, lastError := "" }, none)
      | some error =>
        let output : Option Output :=
          if a.previous.create.isSome then none else some { spec := entry.spec }
        let restored := output.isSome && wasEnabled && a.previous.start.isNone
        let slot := entry.slot.replace output
        let slot := if restored then slot.start format else slot
        ({ entry with slot, desc := slot.description, enabled := restored, lastError := error },
          some error)

end Entry

/-- What a format change keeps of one output; `src/engine/engine.cpp:1262`. -/
structure Item where
  name : String
  wasEnabled : Bool := false
  stop : Gate := .ran
  started : Bool := false
  startError : String := ""
  deriving DecidableEq, Repr

/-- The output could be stopped. -/
def Item.stopped (item : Item) : Bool := item.stop = .ran

/-- What a format change notes of an output before it is reopened;
`src/engine/engine.cpp:1276–1287`. -/
def Entry.item (entry : Entry) (stop : Gate) : Item :=
  { name := entry.spec.name, wasEnabled := entry.enabled, stop }

/-- One output is reopened; `src/engine/engine.cpp:1332–1349`. -/
def Entry.reopen (entry : Entry) (item : Item) (openAt : VideoFormat) (a : ItemAnswers) :
    Entry × Item :=
  if !item.wasEnabled || !item.stopped then (entry, item)
  else
    match a.reopen, entry.slot.output, a.start with
    | .busy millis, _, _ => (entry, { item with startError := busyMessage item.name millis })
    | .ran, none, _ =>
      (entry, { item with startError := "output '" ++ item.name ++ "' has no device" })
    | .ran, some _, none =>
      ({ entry with slot := entry.slot.start openAt }, { item with started := true })
    | .ran, some _, some error => (entry, { item with startError := error })

/-- The first entry called `name` becomes another one. -/
def setEntry (name : String) (entry : Entry) : List Entry → List Entry
  | [] => []
  | e :: outputs =>
    if e.spec.name = name then entry :: outputs else e :: setEntry name entry outputs

/-- `findEntry`; `src/engine/engine.cpp:779`. -/
def findEntry (outputs : List Entry) (name : String) : Option Entry :=
  outputs.find? (·.spec.name = name)

/-- One output is fed again, or keeps its error, the first of which the request reports;
`src/engine/engine.cpp:1351–1386`. -/
def feed (acc : List Entry × Option String) (item : Item) : List Entry × Option String :=
  match findEntry acc.1 item.name with
  | none => acc
  | some entry =>
    match item.stop with
    | .busy millis =>
      let message := "did not stop for the format change: " ++ busyMessage item.name millis
      (setEntry item.name { entry with lastError := message } acc.1,
        acc.2.or (some ("'" ++ item.name ++ "' " ++ message)))
    | .ran =>
      if !item.wasEnabled then acc
      else if item.started then
        (setEntry item.name { entry with enabled := true, lastError := "" } acc.1, acc.2)
      else
        (setEntry item.name { entry with lastError := item.startError } acc.1,
          acc.2.or (some ("'" ++ item.name ++ "': " ++ item.startError)))

/-- The reply to a request that says yes or an error. -/
def reply (error : Option String) : Reply := error.elim .ok .error

namespace State

/-- `setFormat` before it queues; `src/engine/engine.cpp:1234–1241`. -/
def requestFormat (s : State) (format : VideoFormat) : State :=
  if s.format.equal format then { s with reply := .ok }
  else { s with waiting := s.waiting ++ [{ format, previous := s.format }] }

/-- `setFormat` once it has the queue; `src/engine/engine.cpp:1252–1396`. -/
def setFormat (s : State) (format previous : VideoFormat) (a : FormatAnswers) : State :=
  match a.stuck with
  | some millis =>
    { s with
      reply := .error
        ("the format was not changed: the clock has not ticked for " ++ toString millis ++
          " ms, which usually means an output's driver is not answering") }
  | none =>
    let items := s.outputs.mapIdx fun i entry ↦ entry.item (a.item i).stop
    let outputs := s.outputs.map fun entry ↦ { entry with enabled := false }
    let openAt := if a.parked then format else previous
    let reopened := (outputs.zip items).mapIdx fun i (entry, item) ↦
      entry.reopen item openAt (a.item i)
    let fed := (reopened.map Prod.snd).foldl feed (reopened.map Prod.fst, none)
    { s with
      format := if a.parked then format else s.format
      outputs := fed.1
      reply := if a.parked then OutputList.reply fed.2 else .notChanged previous }

/-- `setOutputEnabled`; `src/engine/engine.cpp:834`. -/
def setOutputEnabled (s : State) (name : String) (enabled : Bool) (a : EnableAnswers) : State :=
  match findEntry s.outputs name with
  | none => { s with reply := .error ("no output named '" ++ name ++ "'") }
  | some entry =>
    let (entry, error) := entry.setEnabled s.format enabled a
    { s with outputs := setEntry name entry s.outputs, reply := OutputList.reply error }

/-- `addOutput`; `src/engine/engine.cpp:921`. -/
def addOutput (s : State) (spec : OutputSpec) (a : OpenAnswers) : State :=
  if s.outputs.any (·.spec.name = spec.name) then
    { s with reply := .error ("an output named '" ++ spec.name ++ "' already exists") }
  else if outputKindIsPermanent spec.kind &&
      s.outputs.any (outputKindIsPermanent ·.spec.kind) then
    { s with reply := .error "there is already a preview output" }
  else
    match a.create with
    | some error => { s with reply := .error error }
    | none =>
      { s with
        outputs := s.outputs ++ [Entry.opened spec s.format a]
        reply := OutputList.reply a.start }

/-- `setOutputBackground`; `src/engine/engine.cpp:978`. -/
def setOutputBackground (s : State) (name : String) (background : OutputBackground) : State :=
  match findEntry s.outputs name with
  | none => { s with reply := .error ("no output named '" ++ name ++ "'") }
  | some entry =>
    { s with
      outputs := setEntry name { entry with spec := { entry.spec with background } } s.outputs
      reply := .ok }

/-- `updateOutput`; `src/engine/engine.cpp:995`. -/
def updateOutput (s : State) (name : String) (spec : OutputSpec) (a : UpdateAnswers) : State :=
  match findEntry s.outputs name with
  | none => { s with reply := .error ("no output named '" ++ name ++ "'") }
  | some entry =>
    if outputKindIsPermanent entry.spec.kind && spec.kind ≠ entry.spec.kind then
      { s with
        reply := .error ("the preview cannot become a '" ++ spec.kind ++
          "' output — add a second output instead") }
    else if !outputKindIsPermanent entry.spec.kind && outputKindIsPermanent spec.kind then
      { s with reply := .error "there is already a preview output" }
    else if spec.name ≠ name && s.outputs.any (·.spec.name = spec.name) then
      { s with reply := .error ("an output named '" ++ spec.name ++ "' already exists") }
    else
      let (entry, error) := entry.update spec s.format a
      { s with outputs := setEntry name entry s.outputs, reply := OutputList.reply error }

/-- `removeOutput`; `src/engine/engine.cpp:1161`. -/
def removeOutput (s : State) (name : String) (gate : Gate) : State :=
  match findEntry s.outputs name with
  | none => { s with reply := .error ("no output named '" ++ name ++ "'") }
  | some entry =>
    if outputKindIsPermanent entry.spec.kind then
      { s with
        reply := .error "the preview cannot be removed — it is what the control page shows" }
    else
      match gate with
      | .busy millis => { s with reply := .error (busyMessage name millis) }
      | .ran => { s with outputs := s.outputs.eraseP (·.spec.name = name), reply := .ok }

end State

/-- A request. `setFormat` reads and then waits; `formatChange` is one that waited and has got
the queue, and `giveUp` one that `enterControl` refused. -/
inductive Action where
  | setFormat (format : VideoFormat)
  | formatChange (call : Nat) (answers : FormatAnswers)
  | giveUp (call : Nat) (message : String)
  | setOutputEnabled (name : String) (enabled : Bool) (answers : EnableAnswers)
  | addOutput (spec : OutputSpec) (answers : OpenAnswers)
  | setOutputBackground (name : String) (background : OutputBackground)
  | updateOutput (name : String) (spec : OutputSpec) (answers : UpdateAnswers)
  | removeOutput (name : String) (gate : Gate)

/-- One request. -/
def State.step (s : State) : Action → Option State
  | .setFormat format => some (s.requestFormat format)
  | .formatChange call answers =>
    s.waiting[call]?.map fun w ↦
      { s with waiting := s.waiting.eraseIdx call }.setFormat w.format w.previous answers
  | .giveUp call message =>
    s.waiting[call]?.map fun _ ↦
      { s with waiting := s.waiting.eraseIdx call, reply := .error message }
  | .setOutputEnabled name enabled answers => some (s.setOutputEnabled name enabled answers)
  | .addOutput spec answers => some (s.addOutput spec answers)
  | .setOutputBackground name background => some (s.setOutputBackground name background)
  | .updateOutput name spec answers => some (s.updateOutput name spec answers)
  | .removeOutput name gate => some (s.removeOutput name gate)

/-- `Engine::start`; `src/engine/engine.cpp:127–163`. -/
def start (format : VideoFormat) (outputs : List (OutputSpec × OpenAnswers)) : State :=
  { format, outputs := outputs.map fun (spec, a) ↦ Entry.opened spec format a }

/-- An engine started from a configuration whose output names are distinct, as `validate`
demands; `src/core/source_config.cpp:273`. -/
def machine : Machine State Action where
  init s := ∃ format outputs, s = start format outputs ∧
    (outputs.map fun (spec, _) ↦ spec.name).Nodup
  step := State.step

/-- The names in an output list. -/
def names (outputs : List Entry) : List String := outputs.map (·.spec.name)

section List

variable {outputs : List Entry} {name : String} {entry e : Entry}

/-- What `findEntry` finds is there, under that name. -/
theorem findEntry_spec (h : findEntry outputs name = some entry) :
    entry ∈ outputs ∧ entry.spec.name = name :=
  ⟨List.mem_of_find?_eq_some h, by simpa using List.find?_some h⟩

/-- An entry of the list after `setEntry` was there before, or is the new one. -/
theorem mem_setEntry (h : e ∈ setEntry name entry outputs) : e = entry ∨ e ∈ outputs := by
  induction outputs with
  | nil => cases h
  | cons x outputs ih =>
    rw [setEntry] at h
    split at h
    · rcases List.mem_cons.mp h with h | h
      · exact Or.inl h
      · exact Or.inr (List.mem_cons_of_mem _ h)
    · rcases List.mem_cons.mp h with h | h
      · exact Or.inr (h ▸ List.mem_cons_self)
      · exact (ih h).imp_right (List.mem_cons_of_mem _)

/-- An entry that keeps its name leaves the names alone. -/
theorem names_setEntry (h : entry.spec.name = name) :
    names (setEntry name entry outputs) = names outputs := by
  induction outputs with
  | nil => rfl
  | cons x outputs ih =>
    rw [setEntry]
    split
    · next hx => simp [names, h, hx]
    · simpa [names] using ih

/-- A new name that no other entry has leaves the names distinct. -/
theorem nodup_setEntry (h : (names outputs).Nodup)
    (hn : entry.spec.name = name ∨ entry.spec.name ∉ names outputs) :
    (names (setEntry name entry outputs)).Nodup := by
  rcases hn with hn | hn
  · rwa [names_setEntry hn]
  · induction outputs with
    | nil => exact h
    | cons x outputs ih =>
      obtain ⟨hx, hrest⟩ := List.nodup_cons.mp h
      simp only [names, List.map_cons, List.mem_cons, not_or] at hn
      rw [setEntry]
      split
      · exact List.nodup_cons.mpr ⟨hn.2, hrest⟩
      · refine List.nodup_cons.mpr ⟨fun hm ↦ ?_, ih hrest hn.2⟩
        obtain ⟨y, hy, hyx⟩ := List.mem_map.mp hm
        rcases mem_setEntry hy with rfl | hy
        · exact hn.1 hyx
        · exact hx (hyx ▸ List.mem_map_of_mem hy)

/-- Entries under one name in a list of distinct names are one entry. -/
theorem eq_of_name_eq (h : (names outputs).Nodup) (hx : entry ∈ outputs) (hy : e ∈ outputs)
    (hn : entry.spec.name = e.spec.name) : entry = e :=
  List.inj_on_of_nodup_map h hx hy hn

end List

/-- A new entry is what was asked for. -/
@[simp] theorem spec_opened (spec : OutputSpec) (format : VideoFormat) (a : OpenAnswers) :
    (Entry.opened spec format a).spec = spec := by
  unfold Entry.opened
  split <;> rfl

/-- An output that may be updated is as permanent as before. -/
theorem permanent_eq {old new : String} (hstays : ¬(outputKindIsPermanent old && new ≠ old) = true)
    (hbecomes : ¬(!outputKindIsPermanent old && outputKindIsPermanent new) = true) :
    outputKindIsPermanent old = outputKindIsPermanent new := by
  cases hp : outputKindIsPermanent old with
  | true =>
    have hsame : new = old := by simpa [hp] using hstays
    rw [hsame, hp]
  | false =>
    have hother : outputKindIsPermanent new = false := by simpa [hp] using hbecomes
    rw [hother]

/-- What stopping and reopening makes of one entry and its item. -/
def cycle (a : FormatAnswers) (openAt : VideoFormat) (i : Nat) (entry : Entry) :
    Entry × Item :=
  { entry with enabled := false }.reopen (entry.item (a.item i).stop) openAt (a.item i)

private theorem zip_mapIdx (a : FormatAnswers) (openAt : VideoFormat) (outputs : List Entry) :
    ((outputs.map fun entry ↦ ({ entry with enabled := false } : Entry)).zip
      (outputs.mapIdx fun i entry ↦ entry.item (a.item i).stop)).mapIdx
        (fun i (entry, item) ↦ entry.reopen item openAt (a.item i)) =
      outputs.mapIdx (cycle a openAt) := by
  refine List.ext_getElem (by simp) fun i h₁ h₂ ↦ ?_
  simp [cycle]

/-- A format change whose clock ticks stops, reopens and feeds one entry after another. -/
theorem setFormat_eq {s : State} {format previous : VideoFormat} {a : FormatAnswers}
    (hs : a.stuck = none) :
    s.setFormat format previous a =
      let reopened := s.outputs.mapIdx (cycle a (if a.parked then format else previous))
      let fed := (reopened.map Prod.snd).foldl feed (reopened.map Prod.fst, none)
      { s with
        format := if a.parked then format else s.format
        outputs := fed.1
        reply := if a.parked then reply fed.2 else .notChanged previous } := by
  simp only [State.setFormat, hs, zip_mapIdx]

end WebLinked.Engine.OutputList
