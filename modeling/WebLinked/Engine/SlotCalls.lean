import WebLinked.Base.Machine
import WebLinked.Base.Pool
import WebLinked.Engine.OutputList

/-!
# Calls into outputs

`src/outputs/output_slot.h`, `src/engine/engine.cpp:211–246,498–608,834–1397,1424–1535`. Every
thread that calls into an output holds the gate of its slot from before the call until after it.
A thread is where it stands in the code; the clock is the first one. What happens under the
engine's mutex is one step, and so is each call into a driver, from its beginning to its return.
-/

namespace WebLinked.Engine.SlotCalls

open WebLinked.Base WebLinked.Core
open WebLinked.Engine.OutputList (OutputSpec)

/-- `PixelFormat`; `src/core/video_format.h:14`. -/
inductive PixelFormat where
  | kBGRA
  | kUYVY
  deriving DecidableEq, Repr

/-- What an output says of itself, the same for its whole life; `src/outputs/output.h`. -/
structure Backend where
  pixelFormat : PixelFormat
  wantsStraightAlpha : Bool
  wantsAudio : Bool
  deriving DecidableEq, Repr

/-- An object that `createOutput` made, and the slot it was made for, which is not in the code. -/
structure Object where
  backend : Backend
  home : ℕ

/-- `OutputSlot::Description`; `src/outputs/output_slot.h:43`. Not in the code is `object`, the
one that was described. -/
structure Description where
  generation : ℕ := 0
  present : Bool := false
  pixelFormat : PixelFormat := .kBGRA
  straightAlpha : Bool := false
  wantsAudio : Bool := false
  object : Option ℕ := none

/-- `OutputSlot`, whose gate is free unless a thread holds it; none is built in generation 0. -/
structure Slot where
  output : Option ℕ := none
  generation : ℕ := 0
  description : Description := {}

/-- `Engine::Entry`; `src/engine/engine.h:262`. -/
structure Entry where
  spec : OutputSpec
  slot : ℕ
  desc : Description
  enabled : Bool := true
  lastError : String := ""

/-- `Engine::Target`; `src/engine/engine.h:385`. -/
structure Target where
  slot : ℕ
  desc : Description
  background : OutputBackground

/-- What `updateOutput` keeps between its locks; `src/engine/engine.cpp:1003–1009`. -/
structure Update where
  name : String
  spec : OutputSpec
  slot : ℕ
  desc : Description
  previous : OutputSpec
  wasEnabled : Bool
  healthy : Bool

/-- An output in a format change; `src/engine/engine.cpp:1262`. -/
structure Item where
  name : String
  slot : ℕ
  wasEnabled : Bool
  stopped : Bool := false
  started : Bool := false
  startError : String := ""

/-- What asks for the engine's outputs. -/
inductive Request where
  | setOutputEnabled (name : String) (enabled : Bool)
  | addOutput (spec : OutputSpec)
  | updateOutput (name : String) (spec : OutputSpec)
  | removeOutput (name : String)
  | setFormat
  | closeOutputs
  | withPreview
  | state

/-- What a thread wants a gate for, with what it goes on with. -/
inductive Path where
  | submit (target : Target) (rest : List Target)
  | enable (name : String) (enabled wasEnabled : Bool) (slot : ℕ)
  | probe (update : Update)
  | replace (update : Update)
  | remove (name : String) (wasEnabled : Bool) (slot : ℕ)
  | close (slot : ℕ) (rest : List ℕ)
  | stop (before : List Item) (item : Item) (rest : List Item)
  | reopen (before : List Item) (item : Item) (rest : List Item)
  | preview (slot : ℕ) (desc : Description)
  | status (slot : ℕ) (rest : List ℕ)

/-- What a thread that holds a gate is doing: a call on the object in the slot, or one step of the
function that replaces it; `src/engine/engine.cpp:225–231,1100–1126,1204–1208`. -/
inductive Stage where
  | calling (object : ℕ)
  | stopping (object : ℕ)
  | stopped (object : ℕ)
  | emptied
  | starting (replacement : ℕ)
  | failed (replacement : Option ℕ) (error : String)
  | restoring (replacement : Option ℕ) (error : String) (previous : ℕ)
  | discarding (replacement : Option ℕ) (error : String) (restored : Bool)

/-- What came of it: the gate was not had, the object was not there, the call returned, or the
object was replaced, removed or put back. -/
inductive Result where
  | busy
  | empty
  | ran (running : Bool) (start : Option String)
  | replaced
  | failed (error : String) (restored : Bool)

/-- Where a thread stands. -/
inductive Phase where
  | ended
  | entered (request : Request)
  | ticking (targets : List Target)
  | waiting (path : Path)
  | holding (path : Path) (stage : Stage)
  | returned (path : Path) (result : Result)
  | assigning (update : Update)
  | disabling (update : Update)
  | creating (spec : OutputSpec)
  | opening (spec : OutputSpec) (slot object : ℕ)
  | adding (spec : OutputSpec) (slot object : ℕ) (start : Option String)
  | stops (before rest : List Item)
  | reopens (before rest : List Item)
  | closes (rest : List ℕ)
  | reports (rest : List ℕ)

/-- What the foreign code answers to a step, and the slot an added output is built in. -/
structure Answer where
  create : Except String Backend := .error ""
  start : Option String := none
  running : Bool := false
  stuck : Bool := false
  slot : ℕ := 0

/-- The engine: every object ever made and those destroyed, the slots, the list, the thread that
has the control queue, and the threads, first of all the clock. -/
structure State where
  objects : List Object := []
  destroyed : List ℕ := []
  slots : ℕ → Slot := fun _ ↦ {}
  entries : List Entry := []
  queue : Option ℕ := none
  threads : List Phase := [.ticking []]

/-- The clock plans a tick, a request gets into the queue or past it, a thread takes a step, gets
the gate it waits for or gives up on it, a background changes, or the last copy of a slot goes. -/
inductive Action where
  | plan (stale : Bool)
  | request (request : Request)
  | advance (thread : ℕ) (answer : Answer)
  | acquire (thread : ℕ)
  | giveUp (thread : ℕ)
  | setOutputBackground (name : String) (background : OutputBackground)
  | reclaim (slot : ℕ)

/-- The slot whose gate it wants. -/
def Path.slot : Path → ℕ
  | .submit target _ => target.slot
  | .enable _ _ _ slot => slot
  | .probe u => u.slot
  | .replace u => u.slot
  | .remove _ _ slot => slot
  | .close slot _ => slot
  | .stop _ item _ => item.slot
  | .reopen _ item _ => item.slot
  | .preview slot _ => slot
  | .status slot _ => slot

/-- The slot whose gate a thread holds; one that opens an output nobody has yet is alone with the
slot it will be in. -/
def Phase.holds : Phase → Option ℕ
  | .holding path _ => some path.slot
  | .opening _ slot _ => some slot
  | .adding _ slot _ _ => some slot
  | _ => none

/-- The object a thread is in a call on. -/
def Phase.calls : Phase → Option ℕ
  | .holding _ (.calling object) => some object
  | .holding _ (.stopping object) => some object
  | .holding _ (.starting replacement) => some replacement
  | .holding _ (.restoring _ _ previous) => some previous
  | .opening _ _ object => some object
  | _ => none

/-- The copies of slots and of their descriptions that a path keeps. -/
def Path.copies : Path → List (ℕ × Description)
  | .submit target rest => (target :: rest).map fun t ↦ (t.slot, t.desc)
  | .probe u => [(u.slot, u.desc)]
  | .replace u => [(u.slot, u.desc)]
  | .preview slot desc => [(slot, desc)]
  | _ => []

/-- Those that a thread keeps. -/
def Phase.copies : Phase → List (ℕ × Description)
  | .ticking targets => targets.map fun t ↦ (t.slot, t.desc)
  | .waiting path => path.copies
  | .holding path _ => path.copies
  | .returned path _ => path.copies
  | .assigning u => [(u.slot, u.desc)]
  | .disabling u => [(u.slot, u.desc)]
  | _ => []

/-- The slots a path keeps. -/
def Path.slots : Path → List ℕ
  | .submit target rest => (target :: rest).map Target.slot
  | .close slot rest => slot :: rest
  | .stop before item rest => (before ++ item :: rest).map Item.slot
  | .reopen before item rest => (before ++ item :: rest).map Item.slot
  | .status slot rest => slot :: rest
  | path => [path.slot]

/-- Those that a thread keeps. -/
def Phase.slots : Phase → List ℕ
  | .ticking targets => targets.map Target.slot
  | .waiting path => path.slots
  | .holding path _ => path.slots
  | .returned path _ => path.slots
  | .assigning u => [u.slot]
  | .disabling u => [u.slot]
  | .opening _ slot _ => [slot]
  | .adding _ slot _ _ => [slot]
  | .stops before rest => (before ++ rest).map Item.slot
  | .reopens before rest => (before ++ rest).map Item.slot
  | .closes rest => rest
  | .reports rest => rest
  | _ => []

/-- `findEntry`; `src/engine/engine.cpp:779`. -/
def find (entries : List Entry) (name : String) : Option Entry :=
  entries.find? (·.spec.name = name)

/-- What is written into the entry that `findEntry` finds, if it finds one. -/
def modify (name : String) (f : Entry → Entry) : List Entry → List Entry
  | [] => []
  | e :: entries => if e.spec.name = name then f e :: entries else e :: modify name f entries

/-- What a tick goes to; `src/engine/engine.cpp:505–527`. -/
def targets (entries : List Entry) : List Target :=
  (entries.filter fun e : Entry ↦ e.enabled && e.desc.present).map fun e : Entry ↦
    ({ slot := e.slot, desc := e.desc, background := e.spec.background } : Target)

/-- Whether the output is fed. -/
def Entry.feed (enabled : Bool) (e : Entry) : Entry := { e with enabled }

namespace State

/-- Nobody holds the gate. -/
def free (s : State) (slot : ℕ) : Bool := s.threads.all (·.holds ≠ some slot)

/-- A thread goes on. -/
def goto (s : State) (i : ℕ) (phase : Phase) : State :=
  { s with threads := s.threads.set i phase }

/-- A request returns, and leaves the queue. -/
def leave (s : State) (i : ℕ) (entries : List Entry) : State :=
  { s with
    entries
    queue := if s.queue = some i then none else s.queue
    threads := s.threads.set i .ended }

/-- `OutputSlot::refreshDescription`; `src/outputs/output_slot.h:178`. -/
def describe (s : State) (generation : ℕ) (output : Option ℕ) : Description :=
  match output.bind fun o ↦ s.objects[o]? with
  | some object =>
    { generation
      present := true
      pixelFormat := object.backend.pixelFormat
      straightAlpha := object.backend.wantsStraightAlpha
      wantsAudio := object.backend.wantsAudio
      object := output }
  | none => { generation }

/-- `OutputSlot::replace` after its function; `src/outputs/output_slot.h:119–121`. -/
def refresh (s : State) (slot : ℕ) : State :=
  let old := s.slots slot
  let generation := old.generation + 1
  { s with
    slots := Function.update s.slots slot
      { old with generation, description := s.describe generation old.output } }

/-- `createOutput`, for a slot. -/
def create (s : State) (backend : Backend) (home : ℕ) : State :=
  { s with objects := s.objects ++ [{ backend, home }] }

/-- Another object, or none, in a slot. -/
def put (s : State) (slot : ℕ) (output : Option ℕ) : State :=
  { s with slots := Function.update s.slots slot { s.slots slot with output } }

/-- An object is destroyed. -/
def destroy (s : State) (object : ℕ) : State := { s with destroyed := object :: s.destroyed }

/-- A request begins under the mutex. -/
def enter (s : State) (i : ℕ) (a : Answer) : Request → State
  | .setOutputEnabled name enabled =>
    match find s.entries name with
    | none => s.leave i s.entries
    | some e =>
      if !e.desc.present then s.leave i s.entries
      else
        ({ s with
          entries := if enabled then s.entries else modify name (Entry.feed false) s.entries }).goto i
          (.waiting (.enable name enabled e.enabled e.slot))
  | .addOutput spec =>
    if s.entries.any (·.spec.name = spec.name) then s.leave i s.entries
    else if outputKindIsPermanent spec.kind && s.entries.any (outputKindIsPermanent ·.spec.kind) then
      s.leave i s.entries
    else s.goto i (.creating spec)
  | .updateOutput name spec =>
    match find s.entries name with
    | none => s.leave i s.entries
    | some e =>
      if outputKindIsPermanent e.spec.kind && spec.kind ≠ e.spec.kind then s.leave i s.entries
      else if !outputKindIsPermanent e.spec.kind && outputKindIsPermanent spec.kind then
        s.leave i s.entries
      else if spec.name ≠ name && s.entries.any (·.spec.name = spec.name) then s.leave i s.entries
      else
        let u : Update := {
          name
          spec
          slot := e.slot
          desc := e.desc
          previous := e.spec
          wasEnabled := e.enabled
          healthy := e.enabled && e.lastError = "" }
        s.goto i (if e.desc.present then .waiting (.probe u) else .returned (.probe u) .empty)
  | .removeOutput name =>
    match find s.entries name with
    | none => s.leave i s.entries
    | some e =>
      if outputKindIsPermanent e.spec.kind then s.leave i s.entries
      else
        ({ s with entries := modify name (Entry.feed false) s.entries }).goto i
          (.waiting (.remove name e.enabled e.slot))
  | .setFormat =>
    if a.stuck then s.leave i s.entries
    else
      ({ s with entries := s.entries.map (Entry.feed false) }).goto i
        (.stops [] (s.entries.map fun e : Entry ↦
          ({ name := e.spec.name, slot := e.slot, wasEnabled := e.enabled } : Item)))
  | .closeOutputs => ({ s with entries := [] }).goto i (.closes (s.entries.map Entry.slot))
  | .withPreview =>
    match s.entries.find? fun e ↦ outputKindIsPermanent e.spec.kind && e.desc.present with
    | none => s.leave i s.entries
    | some e => s.goto i (.waiting (.preview e.slot e.desc))
  | .state => s.goto i (.reports ((s.entries.filter (·.desc.present)).map Entry.slot))

/-- What a thread does first with the gate of its slot; `src/outputs/output_slot.h:77,97,116,134`. -/
def gated (c : Slot) (path : Path) : Phase :=
  let called : Phase :=
    match c.output with
    | some o => .holding path (.calling o)
    | none => .returned path .empty
  match path with
  | .submit { desc, .. } _ | .probe { desc, .. } | .preview _ desc =>
    if c.generation = desc.generation then called else .returned path .empty
  | .replace _ | .remove _ _ _ | .close _ _ =>
    .holding path (c.output.elim .emptied .stopping)
  | _ => called

/-- A step of a thread that holds a gate. -/
def hold (s : State) (i : ℕ) (a : Answer) (path : Path) : Stage → State
  | .calling _ => s.goto i (.returned path (.ran a.running a.start))
  | .stopping o => s.goto i (.holding path (.stopped o))
  | .stopped o => ((s.destroy o).put path.slot none).goto i (.holding path .emptied)
  | .emptied =>
    match path with
    | .replace _ =>
      match a.create with
      | .error error => s.goto i (.holding path (.failed none error))
      | .ok backend =>
        (s.create backend path.slot).goto i (.holding path (.starting s.objects.length))
    | _ => (s.refresh path.slot).goto i (.returned path .replaced)
  | .starting replacement =>
    match a.start with
    | none =>
      ((s.put path.slot (some replacement)).refresh path.slot).goto i (.returned path .replaced)
    | some error => s.goto i (.holding path (.failed (some replacement) error))
  | .failed replacement error =>
    match a.create, path with
    | .ok backend, .replace u =>
      ((s.create backend path.slot).put path.slot (some s.objects.length)).goto i
        (.holding path
          (if u.wasEnabled then .restoring replacement error s.objects.length
          else .discarding replacement error false))
    | _, _ => s.goto i (.holding path (.discarding replacement error false))
  | .restoring replacement error _ =>
    s.goto i (.holding path (.discarding replacement error a.start.isNone))
  | .discarding replacement error restored =>
    ((replacement.elim s s.destroy).refresh path.slot).goto i
      (.returned path (.failed error restored))

/-- What a request writes down under the mutex once its call is over, or what it goes on with. -/
def commit (s : State) (i : ℕ) (path : Path) (result : Result) : State :=
  match path with
  | .submit _ rest => s.goto i (.ticking rest)
  | .status _ rest => s.goto i (.reports rest)
  | .close _ rest => s.goto i (.closes rest)
  | .preview _ _ => s.leave i s.entries
  | .stop before item rest =>
    let stopped := match result with
      | .busy => false
      | _ => true
    s.goto i (.stops (before ++ [{ item with stopped }]) rest)
  | .reopen before item rest =>
    let item := match result with
      | .busy => { item with startError := "is not answering" }
      | .ran _ none => { item with started := true }
      | .ran _ (some error) => { item with startError := error }
      | _ => { item with startError := "has no device" }
    s.goto i (.reopens (before ++ [item]) rest)
  | .enable name enabled wasEnabled _ =>
    match result with
    | .ran running start =>
      if !enabled then s.leave i (modify name (Entry.feed false) s.entries)
      else
        match if wasEnabled && running then none else start with
        | some error =>
          s.leave i (modify name (fun e ↦ { e with lastError := error, enabled := false }) s.entries)
        | none =>
          s.leave i (modify name (fun e ↦ { e with lastError := "", enabled := true }) s.entries)
    | _ => s.leave i (modify name (Entry.feed wasEnabled) s.entries)
  | .probe u =>
    let running := match result with
      | .ran running _ => running
      | _ => u.desc.present && u.healthy
    if running && u.spec.name = u.name && u.spec.kind = u.previous.kind &&
        u.spec.deviceIndex = u.previous.deviceIndex &&
        u.spec.options.serialize = u.previous.options.serialize then
      s.goto i (.assigning u)
    else s.goto i (.disabling u)
  | .replace u =>
    let desc := (s.slots u.slot).description
    match result with
    | .replaced =>
      s.leave i (modify u.name
        (fun e ↦ { e with desc, spec := u.spec, enabled := true, lastError := "" }) s.entries)
    | .failed error restored =>
      s.leave i (modify u.name
        (fun e ↦ { e with desc, enabled := restored, lastError := error }) s.entries)
    | _ => s.leave i (modify u.name (Entry.feed u.wasEnabled) s.entries)
  | .remove name wasEnabled _ =>
    match result with
    | .busy => s.leave i (modify name (Entry.feed wasEnabled) s.entries)
    | _ => s.leave i (s.entries.eraseP (·.spec.name = name))

/-- One output of a format change is fed again; `src/engine/engine.cpp:1356–1386`. -/
def feedOne (entries : List Entry) (item : Item) : List Entry :=
  if !item.stopped then
    modify item.name
      (fun e ↦ { e with lastError := "did not stop for the format change" }) entries
  else if !item.wasEnabled then entries
  else if item.started then
    modify item.name (fun e ↦ { e with enabled := true, lastError := "" }) entries
  else modify item.name (fun e ↦ { e with lastError := item.startError }) entries

/-- A thread takes its next step; none where it waits for something else. -/
def advance (s : State) (i : ℕ) (a : Answer) : Phase → Option State
  | .entered request => some (s.enter i a request)
  | .ticking (target :: rest) => some (s.goto i (.waiting (.submit target rest)))
  | .holding path stage => some (s.hold i a path stage)
  | .returned path result => some (s.commit i path result)
  | .assigning u =>
    some (s.leave i (modify u.name
      (fun e ↦ { e with spec := { e.spec with background := u.spec.background } }) s.entries))
  | .disabling u =>
    some (({ s with entries := modify u.name (Entry.feed false) s.entries }).goto i
      (.waiting (.replace u)))
  | .creating spec =>
    match a.create with
    | .error _ => some (s.leave i s.entries)
    | .ok backend =>
      if s.free a.slot && (s.slots a.slot).generation = 0 then
        some ((s.create backend a.slot).goto i (.opening spec a.slot s.objects.length))
      else none
  | .opening spec slot object => some (s.goto i (.adding spec slot object a.start))
  | .adding spec slot object start =>
    let s := (s.put slot (some object)).refresh slot
    some (s.leave i (s.entries ++ [{
      spec
      slot
      desc := (s.slots slot).description
      enabled := start.isNone
      lastError := start.getD "" }]))
  | .stops before (item :: rest) => some (s.goto i (.waiting (.stop before item rest)))
  | .stops before [] => some (s.goto i (.reopens [] before))
  | .reopens before (item :: rest) =>
    some (s.goto i
      (if !item.wasEnabled || !item.stopped then .reopens (before ++ [item]) rest
      else .waiting (.reopen before item rest)))
  | .reopens before [] => some (s.leave i (before.foldl feedOne s.entries))
  | .closes (slot :: rest) => some (s.goto i (.waiting (.close slot rest)))
  | .closes [] => some (s.leave i s.entries)
  | .reports (slot :: rest) => some (s.goto i (.waiting (.status slot rest)))
  | .reports [] => some (s.leave i s.entries)
  | _ => none

/-- Whether anyone still has the slot. -/
def kept (s : State) (slot : ℕ) : Bool :=
  s.entries.any (·.slot = slot) || s.threads.any (slot ∈ ·.slots)

/-- A request that changes outputs has the queue to itself. The shutdown waits for it, but goes on
without it in the end, and what only reads never asks; `src/engine/engine.cpp:214–219`. -/
def queued : Request → Bool
  | .closeOutputs | .withPreview | .state => false
  | _ => true

/-- A request comes, and takes the queue if it is free. -/
def request (s : State) (request : Request) : State :=
  { s with
    threads := s.threads ++ [.entered request]
    queue :=
      match s.queue, request with
      | none, .withPreview | none, .state => none
      | none, _ => some s.threads.length
      | queue, _ => queue }

/-- `setOutputBackground`; `src/engine/engine.cpp:978`. -/
def setOutputBackground (s : State) (name : String) (background : OutputBackground) : State :=
  { s with
    entries := modify name (fun e ↦ { e with spec := { e.spec with background } }) s.entries }

/-- `~OutputSlot`, which destroys what is left in the slot. -/
def reclaim (s : State) (slot : ℕ) : State :=
  { s with
    destroyed := (s.slots slot).output.toList ++ s.destroyed
    slots := Function.update s.slots slot {} }

/-- One step; none where it cannot happen. -/
def step (s : State) : Action → Option State
  | .plan stale =>
    match s.threads[0]? with
    | some (Phase.ticking []) => some (s.goto 0 (Phase.ticking (if stale then [] else targets s.entries)))
    | _ => none
  | .request request =>
    if queued request && s.queue.isSome then none else some (s.request request)
  | .advance i answer => s.threads[i]?.bind (s.advance i answer)
  | .acquire i =>
    match s.threads[i]? with
    | some (.waiting path) =>
      if s.free path.slot then some (s.goto i (gated (s.slots path.slot) path)) else none
    | _ => none
  | .giveUp i =>
    match s.threads[i]? with
    | some (.waiting path) => some (s.goto i (.returned path .busy))
    | _ => none
  | .setOutputBackground name background => some (s.setOutputBackground name background)
  | .reclaim slot => if s.kept slot then none else some (s.reclaim slot)

/-- An output that `Engine::start` opens; `src/engine/engine.cpp:134–156`. -/
def openOutput (s : State) (opened : OutputSpec × Except String Backend × Option String) : State :=
  let n := s.entries.length
  match opened with
  | (spec, .ok backend, start) =>
    let s := ((s.create backend n).put n (some s.objects.length)).refresh n
    { s with
      entries := s.entries ++ [{
        spec
        slot := n
        desc := (s.slots n).description
        enabled := start.isNone
        lastError := start.getD "" }] }
  | (spec, .error message, _) =>
    let s := s.refresh n
    { s with
      entries := s.entries ++ [{
        spec, slot := n, desc := (s.slots n).description, enabled := false, lastError := message }] }

end State

/-- `Engine::start`; `src/engine/engine.cpp:127–163`. -/
def start (outputs : List (OutputSpec × Except String Backend × Option String)) : State :=
  outputs.foldl State.openOutput {}

/-- An engine that has started, its clock and its requests. -/
def machine : Machine State Action where
  init s := ∃ outputs, s = start outputs
  step := State.step

/-- The form of the pixels of a payload. -/
inductive Form where
  | premultiplied
  | straight
  | uyvy
  | composite
  | compositeUyvy
  deriving DecidableEq, Repr

/-- The form an output of this kind is fed over this background;
`src/engine/engine.cpp:539–590`. -/
def form (pixelFormat : PixelFormat) (straightAlpha : Bool) (background : OutputBackground) : Form :=
  if background.isOpaque then
    match pixelFormat with
    | .kUYVY => .compositeUyvy
    | .kBGRA => .composite
  else
    match pixelFormat with
    | .kUYVY => .uyvy
    | .kBGRA => if straightAlpha then .straight else .premultiplied

/-- The form of what a target is fed. -/
def Target.form (target : Target) : Form :=
  SlotCalls.form target.desc.pixelFormat target.desc.straightAlpha target.background

/-- The form an output declares over a background. -/
def Backend.form (b : Backend) (background : OutputBackground) : Form :=
  SlotCalls.form b.pixelFormat b.wantsStraightAlpha background

end WebLinked.Engine.SlotCalls
