import WebLinked.Engine.OutputList

/-!
# Requests between their locks

`src/engine/engine.cpp:127–163,834–1397`. A request that has the control queue takes the
engine's mutex, lets go of it for its calls into a driver and takes it again, finding its output
by name each time. Backgrounds change under the mutex alone, so also in between, and the clock
only reads. Slots are shared, so a request keeps hold of the one it found.
-/

namespace WebLinked.Engine.OutputRequests

open WebLinked.Base WebLinked.Core Json OutputList

/-- `Engine::Entry`, with its slot by number; `src/engine/engine.h:262`. -/
structure Record where
  spec : OutputSpec
  slot : ℕ
  desc : Description
  enabled : Bool := true
  lastError : String := ""

/-- `setOutputEnabled`, `addOutput`, `updateOutput`, `removeOutput`, or a `setFormat` that has
read the raster before it queued. -/
inductive Request where
  | setOutputEnabled (name : String) (enabled : Bool)
  | addOutput (spec : OutputSpec)
  | updateOutput (name : String) (spec : OutputSpec)
  | removeOutput (name : String)
  | setFormat (waiting : Waiting)

/-- How a request ended: with true, with false before it had tried to open anything, or with
false because something did not open. -/
inductive Outcome where
  | accepted
  | refused (message : String)
  | failed (message : String)

/-- What it was told; empty when it ended with true. -/
def Outcome.message : Outcome → String
  | .accepted => ""
  | .refused message => message
  | .failed message => message

/-- What came of the call that starts or stops an output, and what `start` answered. -/
inductive Enabling where
  | busy (millis : Int)
  | empty
  | ran (start : Option String)

/-- What came of the call that replaces an output. -/
inductive Replacing where
  | busy (millis : Int)
  | replaced
  | failed (message : String) (restored : Bool)

/-- What `updateOutput` keeps between its locks; `src/engine/engine.cpp:1003–1009`. -/
structure Update where
  name : String
  spec : OutputSpec
  slot : ℕ
  desc : Description
  previous : OutputSpec
  wasEnabled : Bool
  healthy : Bool
  format : VideoFormat

/-- An output in a format change, with its slot; `src/engine/engine.cpp:1262`. -/
structure HeldItem where
  item : Item
  slot : ℕ

/-- What the request that has the queue does next, with what it keeps. -/
inductive Phase where
  | entered (request : Request)
  | enabling (name : String) (enabled wasEnabled : Bool) (slot : ℕ) (format : VideoFormat)
  | enabled (name : String) (enabled wasEnabled : Bool) (result : Enabling)
  | creating (spec : OutputSpec) (format : VideoFormat)
  | adding (record : Record) (start : Option String)
  | probing (update : Update)
  | assigning (update : Update)
  | disabling (update : Update)
  | replacing (update : Update)
  | replaced (update : Update) (result : Replacing)
  | removing (name : String) (wasEnabled : Bool) (slot : ℕ)
  | removed (name : String) (wasEnabled : Bool) (gate : Gate)
  | stopping (waiting : Waiting) (items : List HeldItem)
  | parking (waiting : Waiting) (items : List HeldItem)
  | reopening (waiting : Waiting) (parked : Bool) (items : List HeldItem)
  | feeding (waiting : Waiting) (parked : Bool) (items : List HeldItem)

/-- What drivers and the clock answer to the request, whichever it is. -/
structure Answers where
  enable : EnableAnswers := { isRunning := true }
  add : OpenAnswers := {}
  update : UpdateAnswers := { probe := none }
  remove : Gate := .ran
  format : FormatAnswers := { parked := true }

/-- The engine, the request that has its control queue, and how the last one ended. -/
structure State where
  format : VideoFormat := {}
  records : List Record := []
  slots : ℕ → Slot := fun _ ↦ {}
  fresh : ℕ := 0
  current : Option Phase := none
  ended : Option Outcome := none

/-- `findEntry`; `src/engine/engine.cpp:779`. -/
def find (records : List Record) (name : String) : Option Record :=
  records.find? (·.spec.name = name)

/-- What is written into the entry that `findEntry` finds, if it finds one. -/
def modify (name : String) (f : Record → Record) : List Record → List Record
  | [] => []
  | r :: records => if r.spec.name = name then f r :: records else r :: modify name f records

section Modify

variable {f : Record → Record}

/-- What a change leaves alone it leaves alone all over the list. -/
theorem map_modify {β : Type} (p : Record → β) (h : ∀ r, p (f r) = p r) (name : String)
    (records : List Record) : (modify name f records).map p = records.map p := by
  induction records with
  | nil => rfl
  | cons r records ih =>
    rw [modify]
    split
    · rw [List.map_cons, List.map_cons, h]
    · rw [List.map_cons, List.map_cons, ih]

/-- What is found after a change of the same output. -/
theorem find_modify_self (h : ∀ r, (f r).spec.name = r.spec.name) (name : String)
    (records : List Record) : find (modify name f records) name = (find records name).map f := by
  induction records with
  | nil => rfl
  | cons r records ih =>
    by_cases hr : r.spec.name = name
    · simp [modify, find, hr, h]
    · rw [find] at ih
      simp [modify, find, hr, ih]

end Modify

/-- Whether the output is fed. -/
def Record.feed (enabled : Bool) (r : Record) : Record := { r with enabled }

/-- What stands in the list of a new entry. -/
def Record.ofEntry (entry : Entry) (slot : ℕ) : Record where
  spec := entry.spec
  slot
  desc := entry.desc
  enabled := entry.enabled
  lastError := entry.lastError

namespace State

/-- A step under the mutex, or none, before what the request does next. -/
def go (s : State) (records : List Record) (next : Phase) : State :=
  { s with records, current := some next }

/-- A call into a driver, which may change the slot. -/
def drive (s : State) (slot : ℕ) (content : Slot) (next : Phase) : State :=
  { s with slots := Function.update s.slots slot content, current := some next }

/-- The request returns. -/
def finish (s : State) (records : List Record) (outcome : Outcome) : State :=
  { s with records, current := none, ended := some outcome }

/-- `setOutputEnabled` finds its output; `src/engine/engine.cpp:841–864`. -/
def enterEnable (s : State) (name : String) (enabled : Bool) : State :=
  match find s.records name with
  | none => s.finish s.records (.refused ("no output named '" ++ name ++ "'"))
  | some r =>
    if !r.desc.present then
      s.finish s.records
        (.refused ("output '" ++ name ++ "' was never created: " ++ r.lastError))
    else
      s.go (if enabled then s.records else modify name (Record.feed false) s.records)
        (.enabling name enabled r.enabled r.slot s.format)

/-- `setOutputEnabled` starts or stops it; `src/engine/engine.cpp:869–883`. -/
def driveEnable (s : State) (name : String) (enabled wasEnabled : Bool) (slot : ℕ)
    (format : VideoFormat) (a : EnableAnswers) : State :=
  let content := s.slots slot
  let next := Phase.enabled name enabled wasEnabled
  match a.gate, content.output with
  | .busy millis, _ => s.go s.records (next (.busy millis))
  | .ran, none => s.go s.records (next .empty)
  | .ran, some _ =>
    if enabled && !(enabled = wasEnabled && a.isRunning = enabled) then
      match a.start with
      | none => s.drive slot (content.start format) (next (.ran none))
      | some error => s.go s.records (next (.ran (some error)))
    else s.go s.records (next (.ran none))

/-- `setOutputEnabled` writes down what came of it; `src/engine/engine.cpp:885–918`. -/
def commitEnable (s : State) (name : String) (enabled wasEnabled : Bool) (result : Enabling) :
    State :=
  match result with
  | .busy millis =>
    s.finish (modify name (Record.feed wasEnabled) s.records) (.refused (busyMessage name millis))
  | .empty =>
    s.finish (modify name (Record.feed wasEnabled) s.records)
      (.refused ("output '" ++ name ++ "' has no device"))
  | .ran start =>
    match find s.records name with
    | none =>
      s.finish s.records
        (.refused ("output '" ++ name ++ "' was removed while it was being changed"))
    | some _ =>
      if !enabled then s.finish (modify name (Record.feed false) s.records) .accepted
      else
        match start with
        | some error =>
          s.finish (modify name (fun r ↦ { r with lastError := error, enabled := false }) s.records)
            (.failed error)
        | none =>
          s.finish (modify name (fun r ↦ { r with lastError := "", enabled := true }) s.records)
            .accepted

/-- `addOutput` checks the name and the kind; `src/engine/engine.cpp:927–950`. -/
def enterAdd (s : State) (spec : OutputSpec) : State :=
  if s.records.any (·.spec.name = spec.name) then
    s.finish s.records (.refused ("an output named '" ++ spec.name ++ "' already exists"))
  else if outputKindIsPermanent spec.kind &&
      s.records.any (outputKindIsPermanent ·.spec.kind) then
    s.finish s.records (.refused "there is already a preview output")
  else s.go s.records (.creating spec s.format)

/-- `addOutput` opens the output; `src/engine/engine.cpp:955–967`. -/
def driveAdd (s : State) (spec : OutputSpec) (format : VideoFormat) (a : OpenAnswers) : State :=
  match a.create with
  | some error => s.finish s.records (.failed error)
  | none =>
    let entry := Entry.opened spec format a
    { s with
      slots := Function.update s.slots s.fresh entry.slot
      fresh := s.fresh + 1
      current := some (.adding (Record.ofEntry entry s.fresh) a.start) }

/-- `addOutput` lists it; `src/engine/engine.cpp:968–975`. -/
def commitAdd (s : State) (record : Record) (start : Option String) : State :=
  s.finish (s.records ++ [record]) (start.elim .accepted .failed)

/-- `updateOutput` finds its output and checks the change; `src/engine/engine.cpp:1010–1048`. -/
def enterUpdate (s : State) (name : String) (spec : OutputSpec) : State :=
  match find s.records name with
  | none => s.finish s.records (.refused ("no output named '" ++ name ++ "'"))
  | some r =>
    if outputKindIsPermanent r.spec.kind && spec.kind ≠ r.spec.kind then
      s.finish s.records
        (.refused ("the preview cannot become a '" ++ spec.kind ++
          "' output — add a second output instead"))
    else if !outputKindIsPermanent r.spec.kind && outputKindIsPermanent spec.kind then
      s.finish s.records (.refused "there is already a preview output")
    else if spec.name ≠ name && s.records.any (·.spec.name = spec.name) then
      s.finish s.records (.refused ("an output named '" ++ spec.name ++ "' already exists"))
    else
      s.go s.records (.probing {
        name
        spec
        slot := r.slot
        desc := r.desc
        previous := r.spec
        wasEnabled := r.enabled
        healthy := r.enabled && r.lastError = ""
        format := s.format })

/-- `updateOutput` asks whether the output runs; `src/engine/engine.cpp:1061–1073`. -/
def driveProbe (s : State) (u : Update) (a : UpdateAnswers) : State :=
  let content := s.slots u.slot
  let answered :=
    if u.desc.present && content.output.isSome && content.generation = u.desc.generation then
      a.probe
    else none
  if answered.getD (u.desc.present && u.healthy) && u.spec.name = u.name &&
      u.spec.kind = u.previous.kind && u.spec.deviceIndex = u.previous.deviceIndex &&
      u.spec.options.serialize = u.previous.options.serialize then
    s.go s.records (.assigning u)
  else s.go s.records (.disabling u)

/-- `updateOutput` changes the background alone; `src/engine/engine.cpp:1072–1085`. -/
def commitAssign (s : State) (u : Update) : State :=
  match find s.records u.name with
  | none => s.finish s.records (.refused ("no output named '" ++ u.name ++ "'"))
  | some _ =>
    s.finish
      (modify u.name (fun r ↦ { r with spec := { r.spec with background := u.spec.background } })
        s.records) .accepted

/-- `updateOutput` replaces the output, or puts the old one back;
`src/engine/engine.cpp:1100–1126`. -/
def driveUpdate (s : State) (u : Update) (a : UpdateAnswers) : State :=
  let content := s.slots u.slot
  match a.gate with
  | .busy millis => s.go s.records (.replaced u (.busy millis))
  | .ran =>
    match a.replacement.create.or a.replacement.start with
    | none =>
      s.drive u.slot (content.replace (some { spec := u.spec, started := some u.format }))
        (.replaced u .replaced)
    | some error =>
      let output : Option Output :=
        if a.previous.create.isSome then none else some { spec := u.previous }
      let restored := output.isSome && u.wasEnabled && a.previous.start.isNone
      let content := content.replace output
      s.drive u.slot (if restored then content.start u.format else content)
        (.replaced u (.failed error restored))

/-- `updateOutput` writes down what came of it; `src/engine/engine.cpp:1128–1158`. -/
def commitUpdate (s : State) (u : Update) (result : Replacing) : State :=
  let desc := (s.slots u.slot).description
  match result with
  | .busy millis =>
    s.finish (modify u.name (Record.feed u.wasEnabled) s.records)
      (.refused (busyMessage u.name millis))
  | .replaced =>
    match find s.records u.name with
    | none =>
      s.finish s.records
        (.refused ("output '" ++ u.name ++ "' was removed while it was being changed"))
    | some _ =>
      s.finish
        (modify u.name
          (fun r ↦ { r with desc, spec := u.spec, enabled := true, lastError := "" }) s.records)
        .accepted
  | .failed error restored =>
    match find s.records u.name with
    | none =>
      s.finish s.records
        (.refused ("output '" ++ u.name ++ "' was removed while it was being changed"))
    | some _ =>
      s.finish
        (modify u.name (fun r ↦ { r with desc, enabled := restored, lastError := error }) s.records)
        (.failed error)

/-- `removeOutput` finds its output; `src/engine/engine.cpp:1175–1196`. -/
def enterRemove (s : State) (name : String) : State :=
  match find s.records name with
  | none => s.finish s.records (.refused ("no output named '" ++ name ++ "'"))
  | some r =>
    if outputKindIsPermanent r.spec.kind then
      s.finish s.records
        (.refused "the preview cannot be removed — it is what the control page shows")
    else
      s.go (modify name (Record.feed false) s.records) (.removing name r.enabled r.slot)

/-- `removeOutput` destroys it; `src/engine/engine.cpp:1202–1208`. -/
def driveRemove (s : State) (name : String) (wasEnabled : Bool) (slot : ℕ) (gate : Gate) : State :=
  match gate with
  | .busy millis => s.go s.records (.removed name wasEnabled (.busy millis))
  | .ran => s.drive slot ((s.slots slot).replace none) (.removed name wasEnabled .ran)

/-- `removeOutput` takes it off the list; `src/engine/engine.cpp:1210–1230`. -/
def commitRemove (s : State) (name : String) (wasEnabled : Bool) (gate : Gate) : State :=
  match gate with
  | .busy millis =>
    s.finish (modify name (Record.feed wasEnabled) s.records) (.refused (busyMessage name millis))
  | .ran => s.finish (s.records.eraseP (·.spec.name = name)) .accepted

/-- `setFormat` looks at the clock and stops feeding every output;
`src/engine/engine.cpp:1252–1282`. -/
def enterFormat (s : State) (w : Waiting) (a : FormatAnswers) : State :=
  match a.stuck with
  | some millis =>
    s.finish s.records
      (.refused
        ("the format was not changed: the clock has not ticked for " ++ toString millis ++
          " ms, which usually means an output's driver is not answering"))
  | none =>
    s.go (s.records.map (Record.feed false))
      (.stopping w (s.records.map fun r ↦
        { item := { name := r.spec.name, wasEnabled := r.enabled }, slot := r.slot }))

/-- `setFormat` stops every output; `src/engine/engine.cpp:1283–1288`. -/
def driveStop (s : State) (w : Waiting) (items : List HeldItem) (a : FormatAnswers) : State :=
  s.go s.records
    (.parking w (items.mapIdx fun i held ↦
      { held with item := { held.item with stop := (a.item i).stop } }))

/-- `setFormat` swaps the raster if the clock parks; `src/engine/engine.cpp:1293–1327`. -/
def drivePark (s : State) (w : Waiting) (items : List HeldItem) (a : FormatAnswers) : State :=
  { s with
    format := if a.parked then w.format else s.format
    current := some (.reopening w a.parked items) }

/-- One output is opened again; `src/engine/engine.cpp:1335–1349`. -/
def reopen (openAt : VideoFormat) (slots : ℕ → Slot) (held : HeldItem) (a : ItemAnswers) :
    (ℕ → Slot) × HeldItem :=
  let item := held.item
  if !item.wasEnabled || !item.stopped then (slots, held)
  else
    match a.reopen, (slots held.slot).output, a.start with
    | .busy millis, _, _ =>
      (slots, { held with item := { item with startError := busyMessage item.name millis } })
    | .ran, none, _ =>
      (slots, { held with
        item := { item with startError := "output '" ++ item.name ++ "' has no device" } })
    | .ran, some _, none =>
      (Function.update slots held.slot ((slots held.slot).start openAt),
        { held with item := { item with started := true } })
    | .ran, some _, some error => (slots, { held with item := { item with startError := error } })

/-- The outputs are opened again one after another. -/
def reopenAll (openAt : VideoFormat) (a : FormatAnswers) :
    ℕ → (ℕ → Slot) → List HeldItem → (ℕ → Slot) × List HeldItem
  | _, slots, [] => (slots, [])
  | i, slots, held :: items =>
    let (slots, held) := reopen openAt slots held (a.item i)
    let (slots, items) := reopenAll openAt a (i + 1) slots items
    (slots, held :: items)

/-- `setFormat` opens every output again; `src/engine/engine.cpp:1331–1350`. -/
def driveReopen (s : State) (w : Waiting) (parked : Bool) (items : List HeldItem)
    (a : FormatAnswers) : State :=
  let reopened := reopenAll (if parked then w.format else w.previous) a 0 s.slots items
  { s with slots := reopened.1, current := some (.feeding w parked reopened.2) }

/-- One output is fed again, or keeps its error; `src/engine/engine.cpp:1356–1386`. -/
def feedOne (acc : List Record × Option String) (item : Item) : List Record × Option String :=
  match find acc.1 item.name with
  | none => acc
  | some _ =>
    match item.stop with
    | .busy millis =>
      let message := "did not stop for the format change: " ++ busyMessage item.name millis
      (modify item.name (fun r ↦ { r with lastError := message }) acc.1,
        acc.2.or (some ("'" ++ item.name ++ "' " ++ message)))
    | .ran =>
      if !item.wasEnabled then acc
      else if item.started then
        (modify item.name (fun r ↦ { r with enabled := true, lastError := "" }) acc.1, acc.2)
      else
        (modify item.name (fun r ↦ { r with lastError := item.startError }) acc.1,
          acc.2.or (some ("'" ++ item.name ++ "': " ++ item.startError)))

/-- `setFormat` feeds what came back; `src/engine/engine.cpp:1352–1396`. -/
def commitFormat (s : State) (w : Waiting) (parked : Bool) (items : List HeldItem) : State :=
  let fed := (items.map HeldItem.item).foldl feedOne (s.records, none)
  s.finish fed.1
    (if parked then fed.2.elim .accepted .failed
    else
      .failed ("the format was not changed: the clock did not stop for it, which usually means " ++
        "an output's driver is not answering; the outputs were reopened at " ++
        w.previous.toString))

/-- The request that has the queue takes its next step. -/
def advance (s : State) (a : Answers) : Phase → State
  | .entered (.setOutputEnabled name enabled) => s.enterEnable name enabled
  | .entered (.addOutput spec) => s.enterAdd spec
  | .entered (.updateOutput name spec) => s.enterUpdate name spec
  | .entered (.removeOutput name) => s.enterRemove name
  | .entered (.setFormat waiting) => s.enterFormat waiting a.format
  | .enabling name enabled wasEnabled slot format =>
    s.driveEnable name enabled wasEnabled slot format a.enable
  | .enabled name enabled wasEnabled result => s.commitEnable name enabled wasEnabled result
  | .creating spec format => s.driveAdd spec format a.add
  | .adding record start => s.commitAdd record start
  | .probing u => s.driveProbe u a.update
  | .assigning u => s.commitAssign u
  | .disabling u => s.go (modify u.name (Record.feed false) s.records) (.replacing u)
  | .replacing u => s.driveUpdate u a.update
  | .replaced u result => s.commitUpdate u result
  | .removing name wasEnabled slot => s.driveRemove name wasEnabled slot a.remove
  | .removed name wasEnabled gate => s.commitRemove name wasEnabled gate
  | .stopping w items => s.driveStop w items a.format
  | .parking w items => s.drivePark w items a.format
  | .reopening w parked items => s.driveReopen w parked items a.format
  | .feeding w parked items => s.commitFormat w parked items

/-- `setOutputBackground`; `src/engine/engine.cpp:978`. -/
def setOutputBackground (s : State) (name : String) (background : OutputBackground) : State :=
  { s with
    records :=
      modify name (fun r ↦ { r with spec := { r.spec with background } }) s.records }

end State

/-- A request gets the queue or is refused by it, the one that has it takes a step, a background
changes, or the clock ticks. -/
inductive Action where
  | request (request : Request) (refusal : Option String)
  | advance (answers : Answers)
  | setOutputBackground (name : String) (background : OutputBackground)
  | tick

/-- One step. A tick copies what it feeds from the list and leaves it alone. -/
def State.step (s : State) : Action → Option State
  | .request _ (some message) => some { s with ended := some (.refused message) }
  | .request request none =>
    if s.current.isNone then some { s with current := some (.entered request), ended := none }
    else none
  | .advance answers => s.current.map fun phase ↦ s.advance answers phase
  | .setOutputBackground name background => some (s.setOutputBackground name background)
  | .tick => some s

/-- `Engine::start`; `src/engine/engine.cpp:127–163`. -/
def start (c : SourceConfig) (answers : ℕ → OpenAnswers) : State :=
  let entries := c.outputs.mapIdx fun i o ↦
    Entry.opened (outputSpecFromConfig o) c.format (answers i)
  { format := c.format
    records := entries.mapIdx fun i entry ↦ Record.ofEntry entry i
    slots := fun i ↦ (entries[i]?.map Entry.slot).getD {}
    fresh := entries.length }

/-- An engine that `SourceManager::add` has started; `src/engine/source_manager.cpp:97`. -/
def machine : Machine State Action where
  init s := ∃ (c : SourceConfig) (answers : ℕ → OpenAnswers),
    c.ensurePreview.validate = .ok () ∧ s = start c.ensurePreview answers
  step := State.step

end WebLinked.Engine.OutputRequests
