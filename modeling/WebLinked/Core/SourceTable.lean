import WebLinked.Base.Machine
import WebLinked.Base.Pool

/-!
# The table of sources

`src/core/source_table.h`. Named values that requests reach into while others remove
them. Every section that holds a mutex is one step of one call, the table and each entry
having a mutex of its own; what a call does between two such sections is private to it.
A timed wait may give up whenever its condition does not hold.
-/

namespace WebLinked.Core.SourceTable

open WebLinked.Base

variable {T : Type}

/-- Identity of a shared `Entry`, as its address is in the source. -/
abbrev Addr := Nat

/-- `SourceTable::Access`; `src/core/source_table.h:46`. -/
inductive Access where
  | kDone | kMissing | kClosing
  deriving DecidableEq, Repr

/-- `SourceTable::Removal`; `src/core/source_table.h:48`. -/
inductive Removal where
  | kRemoved | kMissing | kBusy | kRemoving
  deriving DecidableEq, Repr

/-- `SourceTable::Closed`; `src/core/source_table.h:187`. -/
inductive Closed where
  | kEmpty | kTimedOut | kAlready
  deriving DecidableEq, Repr

/-- `SourceTable::Entry`; `src/core/source_table.h:189`. A null `value` is `none`. -/
structure Entry (T : Type) where
  id : String
  value : Option T
  users : Int := 0
  closing : Bool := false
  retired : Bool := false
  deriving DecidableEq, Repr

namespace Entry

/-- `Entry::enter`, refused while closing; `src/core/source_table.h:199`. -/
def enter (e : Entry T) : Option (Entry T) :=
  if e.closing then none else some { e with users := e.users + 1 }

/-- `Entry::leave`; `src/core/source_table.h:207`. -/
def leave (e : Entry T) : Entry T := { e with users := e.users - 1 }

/-- `Entry::close` up to its wait, which `none` says it has entered;
`src/core/source_table.h:217`. -/
def beginClose (e : Entry T) : Option Closed × Entry T :=
  if e.closing && !e.retired then (some .kAlready, e)
  else (if e.users = 0 then some .kEmpty else none, { e with closing := true })

/-- `Entry::close` woken inside its wait, with the deadline `expired` or not;
`none` waits on. `src/core/source_table.h:223`. -/
def wakeClose (e : Entry T) (expired : Bool) : Option Closed :=
  if e.users = 0 then some .kEmpty else if expired then some .kTimedOut else none

/-- `Entry::reopen`; `src/core/source_table.h:227`. -/
def reopen (e : Entry T) : Entry T := if e.retired then e else { e with closing := false }

/-- `Entry::retire`; `src/core/source_table.h:239`. -/
def retire (e : Entry T) : Entry T := { e with retired := true }

end Entry

/-- `SourceTable::Taken`, by entry; `src/core/source_table.h:140`. -/
structure Taken where
  idle : List Addr := []
  busy : List Addr := []
  deriving DecidableEq, Repr

/-- Where a call has got to. A finished call keeps what it returned. -/
inductive Call where
  | inserted (done : Bool)
  | withFound (a : Addr)
  | withInside (a : Addr)
  | withDone (access : Access)
  | forEachAt (todo : List Addr)
  | forEachInside (a : Addr) (todo : List Addr)
  | removeFound (a : Addr)
  | removeWaiting (a : Addr)
  | removeTimedOut (a : Addr)
  | removeEmpty (a : Addr)
  | removeErasing (a : Addr)
  | removeDone (removal : Removal) (removed : Option Addr)
  | takeAllAt (todo : List Addr) (taken : Taken)
  | takeAllRetired (a : Addr) (todo : List Addr) (taken : Taken)
  | takeAllWaiting (a : Addr) (todo : List Addr) (taken : Taken)
  deriving DecidableEq, Repr

/-- Every entry ever made, the table's list of them, and every call ever made. -/
structure State (T : Type) where
  heap : List (Entry T) := []
  entries : List Addr := []
  calls : List Call := []
  deriving DecidableEq, Repr

/-- A new call, or the next step of the call at an index. -/
inductive Action (T : Type) where
  | insert (id : String) (value : Option T)
  | with (id : String)
  | forEach
  | remove (id : String)
  | takeAll
  | proceed (call : Nat) (expired : Bool)
  deriving DecidableEq, Repr

namespace State

/-- `SourceTable::findLocked`; `src/core/source_table.h:256`. -/
def findLocked (s : State T) (id : String) : Option Addr :=
  s.entries.find? fun a ↦ s.heap[a]?.any fun e ↦ e.id == id

/-- `SourceTable::insert`; `src/core/source_table.h:51`. -/
def insert (s : State T) (id : String) (value : Option T) : State T :=
  let heap := s.heap ++ [{ id, value }]
  match s.findLocked id with
  | some _ => { s with heap, calls := s.calls ++ [.inserted false] }
  | none =>
    { heap, entries := s.entries ++ [s.heap.length], calls := s.calls ++ [.inserted true] }

/-- `SourceTable::with` up to its entry; `src/core/source_table.h:66`. -/
def «with» (s : State T) (id : String) : State T :=
  let call := match s.findLocked id with
    | none => .withDone .kMissing
    | some a =>
      if s.heap[a]?.any fun e ↦ e.value.isSome then .withFound a else .withDone .kMissing
  { s with calls := s.calls ++ [call] }

/-- `SourceTable::forEach` up to its first entry; `src/core/source_table.h:85`. -/
def forEach (s : State T) : State T := { s with calls := s.calls ++ [.forEachAt s.entries] }

/-- `SourceTable::remove` up to its `close`; `src/core/source_table.h:97`. -/
def remove (s : State T) (id : String) : State T :=
  let call := match s.findLocked id with
    | none => .removeDone .kMissing none
    | some a => .removeFound a
  { s with calls := s.calls ++ [call] }

/-- `SourceTable::takeAll` up to its first entry; `src/core/source_table.h:148`. -/
def takeAll (s : State T) : State T :=
  { s with entries := [], calls := s.calls ++ [.takeAllAt s.entries {}] }

/-- Replace the entry at `a` and the call at `i`. -/
def put (s : State T) (a : Addr) (e : Entry T) (i : Nat) (c : Call) : State T :=
  { s with heap := s.heap.set a e, calls := s.calls.set i c }

/-- Where `remove` goes once `close` has answered; `src/core/source_table.h:107`. -/
def removeClosed (a : Addr) : Closed → Call
  | .kAlready => .removeDone .kRemoving none
  | .kTimedOut => .removeTimedOut a
  | .kEmpty => .removeEmpty a

/-- Where `takeAll` goes once `close` has answered; `src/core/source_table.h:157`. -/
def takeAllClosed (a : Addr) (todo : List Addr) (taken : Taken) : Closed → Call
  | .kEmpty => .takeAllAt todo { taken with idle := taken.idle ++ [a] }
  | _ => .takeAllAt todo { taken with busy := taken.busy ++ [a] }

/-- The next step of the call at `i`; none if it has returned or must wait on. -/
def proceed (s : State T) (i : Nat) (expired : Bool) : Option (State T) := do
  match ← s.calls[i]? with
  | .withFound a =>
    let e ← s.heap[a]?
    match e.enter with
    | none => some (s.put a e i (.withDone .kClosing))
    | some entered => some (s.put a entered i (.withInside a))
  | .withInside a =>
    let e ← s.heap[a]?
    some (s.put a e.leave i (.withDone .kDone))
  | .forEachAt (a :: todo) =>
    let e ← s.heap[a]?
    if e.value.isNone then some (s.put a e i (.forEachAt todo)) else
    match e.enter with
    | none => some (s.put a e i (.forEachAt todo))
    | some entered => some (s.put a entered i (.forEachInside a todo))
  | .forEachInside a todo =>
    let e ← s.heap[a]?
    some (s.put a e.leave i (.forEachAt todo))
  | .removeFound a =>
    let e ← s.heap[a]?
    match e.beginClose with
    | (none, closed) => some (s.put a closed i (.removeWaiting a))
    | (some answer, closed) => some (s.put a closed i (removeClosed a answer))
  | .removeWaiting a =>
    let e ← s.heap[a]?
    let answer ← e.wakeClose expired
    some (s.put a e i (removeClosed a answer))
  | .removeTimedOut a =>
    let e ← s.heap[a]?
    some (s.put a e.reopen i (.removeDone .kBusy none))
  | .removeEmpty a =>
    let e ← s.heap[a]?
    some (s.put a e i (if e.retired then .removeDone .kRemoving none else .removeErasing a))
  | .removeErasing a =>
    some { s with
      entries := s.entries.filter (· ≠ a), calls := s.calls.set i (.removeDone .kRemoved a) }
  | .takeAllAt (a :: todo) taken =>
    let e ← s.heap[a]?
    some (s.put a e.retire i (.takeAllRetired a todo taken))
  | .takeAllRetired a todo taken =>
    let e ← s.heap[a]?
    match e.beginClose with
    | (none, closed) => some (s.put a closed i (.takeAllWaiting a todo taken))
    | (some answer, closed) => some (s.put a closed i (takeAllClosed a todo taken answer))
  | .takeAllWaiting a todo taken =>
    let e ← s.heap[a]?
    let answer ← e.wakeClose expired
    some (s.put a e i (takeAllClosed a todo taken answer))
  | _ => none

/-- One step of the table under any of its callers. -/
def step (s : State T) : Action T → Option (State T)
  | .insert id value => some (s.insert id value)
  | .with id => some (s.with id)
  | .forEach => some s.forEach
  | .remove id => some (s.remove id)
  | .takeAll => some s.takeAll
  | .proceed call expired => s.proceed call expired

end State

/-- The table from empty, under any number of callers. -/
def machine (T : Type) : Machine (State T) (Action T) where
  init s := s = {}
  step := State.step

end WebLinked.Core.SourceTable
