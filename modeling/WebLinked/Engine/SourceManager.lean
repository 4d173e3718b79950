import WebLinked.Base.Machine
import WebLinked.Core.ShowFile
import WebLinked.Core.SourceNames

/-!
# Requests that open and close sources

`src/engine/source_manager.cpp:100–246`, `src/control/control_api.cpp:770–912`. Each request is
on a thread of its own; its calls into the table are the table's, a step each, and what it does
between two of them is private to it. Engines and files are foreign: what they answer is given
with the step. This is the manager from its start up to its shutdown.
-/

namespace WebLinked.Engine.SourceManager

open WebLinked.Base WebLinked.Core WebLinked.Core.SourceTable Json

/-- Why an engine could not start, or not do all it was asked; never nothing. -/
abbrev Reason := { message : String // message ≠ "" }

/-- A request of the control API that opens or closes sources. -/
inductive Command where
  /-- `/api/sources/add`. -/
  | add (config : SourceConfig)
  /-- `/api/sources/remove`. -/
  | remove (id : String)
  /-- `/api/sources/apply`. -/
  | apply (sources : List SourceConfig)
  /-- `/api/settings/reload`, with the file or why it could not be read. -/
  | reload (file : Except String AppConfig)
  /-- `/api/show/load`. -/
  | load (document : Value) (parts : Show.Parts)

/-- `SourceManager::applyConfiguration` past its `ids`: what it wants, the unlisted ids it has
not come to, the sources it has not come to and the first error;
`src/engine/source_manager.cpp:197`. -/
structure Apply where
  removals : List String
  sources : List SourceConfig
  firstError : String := ""

/-- `note`; `src/engine/source_manager.cpp:200`. -/
def Apply.note (a : Apply) (message : String) : Apply :=
  if a.firstError = "" then { a with firstError := message } else a

/-- What is left to do stays when an error is noted. -/
@[simp] theorem removals_note (a : Apply) (message : String) :
    (a.note message).removals = a.removals := by
  unfold Apply.note
  split <;> rfl

/-- Where a request has got to. `rest` is the `applyConfiguration` that an `add` or a `remove` is
part of, if it is part of one; `call` is the request's call into the table. -/
inductive Phase where
  | checking (id : String)
  | removing (id : String) (rest : Option Apply)
  | awaiting (call : ℕ) (id : String) (rest : Option Apply)
  | adding (config : SourceConfig) (rest : Option Apply)
  | starting (config : SourceConfig) (rest : Option Apply)
  | inserting (config : SourceConfig) (rest : Option Apply)
  | loading (document : Value) (parts : Show.Parts)
  | reading (call : ℕ) (read : List SourceConfig) (document : Value) (parts : Show.Parts)
  | applying (wanted : List SourceConfig)
  | reconciling (a : Apply)
  | found (source : SourceConfig) (a : Apply)
  | reaching (call : ℕ) (source : SourceConfig) (a : Apply)
  | done (error : String)

/-- A request, where it has got to, and the ids its `configuration` has read. -/
structure Request where
  command : Command
  phase : Phase
  snapshot : List String := []

/-- The table, every request ever made, and the ids each has taken out. -/
structure State where
  table : SourceTable.State Unit := {}
  requests : List Request := []
  removed : List (ℕ × String) := []

/-- What is up to the clock and the engines in a step: whether the deadline of a removal has
passed, what an engine could not do, and what it runs. -/
structure Answer where
  expired : Bool := false
  reason : Option Reason := none
  running : SourceConfig := {}

/-- A new request, the next step of one, or a request of another kind that reaches into
sources. -/
inductive Action where
  | request (command : Command)
  | proceed (i : ℕ) (answer : Answer)
  | other (action : SourceTable.Action Unit)

/-- What `add` and `remove` return to: the reconcile they are part of, or the handler. -/
def finish (rest : Option Apply) (error : String) : Phase :=
  match rest with
  | some a => .reconciling (a.note error)
  | none => .done error

/-- What `SourceManager::remove` says of what the table answered;
`src/engine/source_manager.cpp:138–153`. -/
def removalError (id : String) : Removal → String
  | .kRemoved => ""
  | .kMissing => "no source called '" ++ id ++ "'"
  | .kBusy =>
    "source '" ++ id ++ "' was not removed: a request inside it has not finished (an output's " ++
      "driver may not be answering — see \"stale\" in /api/state)"
  | .kRemoving => "source '" ++ id ++ "' is already being removed"

/-- `error` of an id that is taken; `src/engine/source_manager.cpp:107`. -/
def existsError (id : String) : String := "a source called '" ++ id ++ "' already exists"

/-- `SourceManager::add` up to the start of the engine; `src/engine/source_manager.cpp:100`. -/
def add (table : SourceTable.State Unit) (config : SourceConfig) (rest : Option Apply) : Phase :=
  let prepared := config.ensurePreview
  match prepared.validate with
  | .error message => finish rest message
  | .ok _ =>
    if table.has prepared.id then finish rest (existsError prepared.id)
    else .starting prepared rest

/-- What `SourceManager::configuration` reads of the source a call is inside. The id of an
engine is the one it was added under; `src/engine/source_manager.cpp:189`. -/
def read (table : SourceTable.State Unit) (call : ℕ) (running : SourceConfig) :
    Option SourceConfig :=
  match table.calls[call]? with
  | some (.forEachInside a _) => table.names[a]?.map fun id ↦ { running with id }
  | _ => none

/-- The next step of a request; none if it is done or must wait. -/
def advance (table : SourceTable.State Unit) (answer : Answer) :
    Phase → Option (SourceTable.State Unit × Phase)
  | .checking id =>
    if table.size ≤ 1 then
      some (table, .done ("'" ++ id ++ "' is the only source — stop WebLinked instead"))
    else some (table, .removing id none)
  | .removing id rest => some (table.remove id, .awaiting table.calls.length id rest)
  | .awaiting call id rest =>
    match table.calls[call]? with
    | some (.removeDone removal _) => some (table, finish rest (removalError id removal))
    | _ => (table.proceed call answer.expired).map fun t ↦ (t, .awaiting call id rest)
  | .adding config rest => some (table, add table config rest)
  | .starting config rest =>
    match answer.reason with
    | some reason => some (table, finish rest reason.val)
    | none => some (table, .inserting config rest)
  | .inserting config rest =>
    some (table.insert config.id (some ()),
      finish rest (if table.has config.id then existsError config.id else ""))
  | .loading document parts =>
    some (table.forEach, .reading table.calls.length [] document parts)
  | .reading call sources document parts =>
    match table.calls[call]? with
    | some (.forEachAt []) =>
      match Show.recallShow { sources } document parts with
      | .error message => some (table, .done message)
      | .ok (wanted, _) => some (table, .applying wanted.sources)
    | _ =>
      (table.proceed call answer.expired).map fun t ↦
        (t, .reading call (sources ++ (read table call answer.running).toList) document parts)
  | .applying wanted =>
    some (table, .reconciling
      { removals := table.ids.filter fun id ↦ ¬wanted.any (·.id = id), sources := wanted })
  | .reconciling a =>
    match a.removals, a.sources with
    | id :: removals, _ => some (table, .removing id (some { a with removals }))
    | [], source :: sources =>
      if table.has source.id then some (table, .found source { a with sources })
      else some (table, .adding source (some { a with sources }))
    | [], [] => some (table, .done a.firstError)
  | .found source a => some (table.with source.id, .reaching table.calls.length source a)
  | .reaching call source a =>
    match table.calls[call]? with
    | some (.withDone access) =>
      some (table, .reconciling
        (if access = .kClosing then a.note ("source '" ++ source.id ++ "' is being removed")
        else a))
    | some (.withInside _) =>
      let a := match answer.reason with
        | some reason => a.note reason.val
        | none => a
      (table.proceed call answer.expired).map fun t ↦ (t, .reaching call source a)
    | _ => (table.proceed call answer.expired).map fun t ↦ (t, .reaching call source a)
  | .done _ => none

/-- Where a request starts; a reload without a file or without sources in it is refused. -/
def Command.phase : Command → Phase
  | .add config => .adding config none
  | .remove id => .checking id
  | .apply sources => .applying sources
  | .reload (.error message) => .done message
  | .reload (.ok file) =>
    if file.sources.isEmpty then .done "the settings file has no sources" else .applying file.sources
  | .load document parts => .loading document parts

/-- The error a finished request reports, empty if it has none. -/
def Phase.error : Phase → Option String
  | .done error => some error
  | _ => none

/-- The call into the table a request has under way. -/
def Phase.call : Phase → Option ℕ
  | .awaiting call _ _ | .reading call _ _ _ | .reaching call _ _ => some call
  | _ => none

/-- The id that a step of a request takes out of the table. -/
def Phase.erased (table : SourceTable.State Unit) : Phase → Option String
  | .awaiting call id _ =>
    match table.calls[call]? with
    | some (.removeErasing _) => some id
    | _ => none
  | _ => none

/-- The id that a step of a request reads for its snapshot. -/
def Phase.snapshot (table : SourceTable.State Unit) : Phase → List String
  | .reading call _ _ _ => ((read table call {}).map SourceConfig.id).toList
  | _ => []

/-- Requests of other kinds only reach into sources, and leave the calls of these alone. -/
def State.foreign (s : State) : SourceTable.Action Unit → Bool
  | .with _ | .forEach => true
  | .proceed call _ => s.requests.all fun r ↦ r.phase.call ≠ some call
  | _ => false

/-- One step of the manager. -/
def step (s : State) : Action → Option State
  | .request command =>
    some { s with requests := s.requests ++ [{ command, phase := command.phase }] }
  | .proceed i answer => do
    let r ← s.requests[i]?
    let (table, phase) ← advance s.table answer r.phase
    some {
      table
      requests := s.requests.set i
        { r with phase, snapshot := r.snapshot ++ r.phase.snapshot s.table }
      removed := s.removed ++ (r.phase.erased s.table).toList.map (i, ·) }
  | .other action =>
    if s.foreign action then (s.table.step action).map fun table ↦ { s with table } else none

/-- The manager once it has started sources of these ids. -/
def started (ids : List String) : State :=
  { table := ids.foldl (fun t id ↦ t.insert id (some ())) {} }

/-- The manager once it has started, with one source at least. -/
def machine : Machine State Action where
  init s := ∃ ids, ids ≠ [] ∧ ids.Nodup ∧ s = started ids
  step := step

end WebLinked.Engine.SourceManager
