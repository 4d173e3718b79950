import Mathlib.Data.List.Nodup
import Mathlib.Data.List.Pairwise
import WebLinked.Core.SourceTable

/-!
# The ids in the table

`src/core/source_table.h:160–178`. A step of a call keeps every entry its id, and only a
removal past its close takes an entry out of the list.
-/

namespace WebLinked.Core.SourceTable

open WebLinked.Base

variable {T : Type}

namespace State

/-- The ids of all entries ever made, by address. -/
def names (s : State T) : List String := s.heap.map Entry.id

/-- `SourceTable::ids`; `src/core/source_table.h:160`. -/
def ids (s : State T) : List String := s.entries.filterMap fun a ↦ s.names[a]?

/-- `SourceTable::has`; `src/core/source_table.h:170`. -/
def has (s : State T) (id : String) : Bool := (s.findLocked id).isSome

/-- `SourceTable::size`; `src/core/source_table.h:175`. -/
def size (s : State T) : ℕ := s.entries.length

end State

/-- The entry a removal under way may yet take out. -/
def Call.target : Call → Option Addr
  | .removeFound a | .removeWaiting a | .removeTimedOut a | .removeEmpty a | .removeErasing a =>
    some a
  | _ => none

/-- What a step of the call at `i` does to the ids. -/
structure Proceeds (s t : State T) (i : ℕ) (c c' : Call) : Prop where
  call : s.calls[i]? = some c
  calls : t.calls = s.calls.set i c'
  names : t.names = s.names
  entries :
    (∃ a, c = .removeErasing a ∧ c' = .removeDone .kRemoved (some a) ∧
      t.entries = s.entries.filter (· ≠ a)) ∨
    ((∀ a, c ≠ .removeErasing a) ∧ (∀ removed, c' ≠ .removeDone .kRemoved removed) ∧
      t.entries = s.entries)
  target : ∀ a, c'.target = some a → c.target = some a

/-- An entry put in the place of one with its id leaves the ids alone. -/
private theorem proceeds_put {s : State T} {i : ℕ} {c c' : Call} {a : Addr} {e e' : Entry T}
    (hc : s.calls[i]? = some c) (he : s.heap[a]? = some e) (hid : e'.id = e.id)
    (hne : ∀ b, c ≠ .removeErasing b) (hne' : ∀ removed, c' ≠ .removeDone .kRemoved removed)
    (ht : ∀ b, c'.target = some b → c.target = some b) : Proceeds s (s.put a e' i c') i c c' where
  call := hc
  calls := rfl
  names := by
    obtain ⟨ha, rfl⟩ := List.getElem?_eq_some_iff.mp he
    apply List.ext_getElem?
    intro b
    simp only [State.names, State.put, List.getElem?_map, List.getElem?_set]
    split
    · next hb =>
      subst hb
      simp [ha, hid]
    · rfl
  entries := Or.inr ⟨hne, hne', rfl⟩
  target := ht

/-- A gate keeps its entry's id. -/
private theorem id_beginClose (e : Entry T) : e.beginClose.2.id = e.id := by
  unfold Entry.beginClose
  split <;> rfl

private theorem id_enter {e entered : Entry T} (h : e.enter = some entered) : entered.id = e.id := by
  unfold Entry.enter at h
  split at h <;> cases h
  rfl

private theorem id_reopen (e : Entry T) : e.reopen.id = e.id := by
  unfold Entry.reopen
  split <;> rfl

/-- What `close` answers a removal takes nothing out by itself. -/
private theorem removeClosed_target (a : Addr) (answer : Closed) :
    (∀ removed, State.removeClosed a answer ≠ .removeDone .kRemoved removed) ∧
      ∀ b, (State.removeClosed a answer).target = some b → a = b := by
  cases answer <;> simp [State.removeClosed, Call.target]

private theorem takeAllClosed_target (a : Addr) (todo : List Addr) (taken : Taken)
    (answer : Closed) :
    (∀ removed, State.takeAllClosed a todo taken answer ≠ .removeDone .kRemoved removed) ∧
      (State.takeAllClosed a todo taken answer).target = none := by
  cases answer <;> simp [State.takeAllClosed, Call.target]

/-- A step of a call keeps the ids, but for the one it erases. -/
theorem proceeds_of_proceed {s t : State T} {i : ℕ} {expired : Bool}
    (h : s.proceed i expired = some t) : ∃ c c', Proceeds s t i c c' := by
  obtain ⟨c, hc, h⟩ := Option.bind_eq_some_iff.mp h
  refine ⟨c, ?_⟩
  cases c with
  | inserted _ => cases h
  | withDone _ => cases h
  | removeDone _ _ => cases h
  | withFound a =>
    obtain ⟨e, he, h⟩ := Option.bind_eq_some_iff.mp h
    cases hen : e.enter with
    | none =>
      simp only [hen, Option.some.injEq] at h
      subst h
      exact ⟨_, proceeds_put hc he rfl nofun nofun nofun⟩
    | some entered =>
      simp only [hen, Option.some.injEq] at h
      subst h
      exact ⟨_, proceeds_put hc he (id_enter hen) nofun nofun nofun⟩
  | withInside a =>
    obtain ⟨e, he, h⟩ := Option.bind_eq_some_iff.mp h
    cases h
    exact ⟨_, proceeds_put hc he rfl nofun nofun nofun⟩
  | forEachAt todo =>
    cases todo with
    | nil => cases h
    | cons a todo =>
      obtain ⟨e, he, h⟩ := Option.bind_eq_some_iff.mp h
      have skip : Proceeds s (s.put a e i (.forEachAt todo)) i (.forEachAt (a :: todo))
          (.forEachAt todo) := proceeds_put hc he rfl nofun nofun nofun
      split at h
      · cases h
        exact ⟨_, skip⟩
      · cases hen : e.enter with
        | none =>
          simp only [hen, Option.some.injEq] at h
          subst h
          exact ⟨_, skip⟩
        | some entered =>
          simp only [hen, Option.some.injEq] at h
          subst h
          exact ⟨_, proceeds_put hc he (id_enter hen) nofun nofun nofun⟩
  | forEachInside a todo =>
    obtain ⟨e, he, h⟩ := Option.bind_eq_some_iff.mp h
    cases h
    exact ⟨_, proceeds_put hc he rfl nofun nofun nofun⟩
  | removeErasing a =>
    cases h
    exact ⟨_, hc, rfl, rfl, Or.inl ⟨a, rfl, rfl, rfl⟩, nofun⟩
  | removeTimedOut a =>
    obtain ⟨e, he, h⟩ := Option.bind_eq_some_iff.mp h
    cases h
    exact ⟨_, proceeds_put hc he (id_reopen e) nofun nofun nofun⟩
  | removeEmpty a =>
    obtain ⟨e, he, h⟩ := Option.bind_eq_some_iff.mp h
    cases h
    refine ⟨_, proceeds_put hc he rfl nofun ?_ ?_⟩ <;> split <;> simp [Call.target]
  | removeFound a =>
    obtain ⟨e, he, h⟩ := Option.bind_eq_some_iff.mp h
    have hid := id_beginClose e
    rcases hb : e.beginClose with ⟨_ | answer, closed⟩ <;> simp only [hb, Option.some.injEq] at h hid <;>
      subst h
    · exact ⟨_, proceeds_put hc he hid nofun nofun fun _ hb ↦ hb⟩
    · obtain ⟨hne, ht⟩ := removeClosed_target a answer
      exact ⟨_, proceeds_put hc he hid nofun hne fun b hb ↦ by simp [Call.target, ht b hb]⟩
  | removeWaiting a =>
    obtain ⟨e, he, h⟩ := Option.bind_eq_some_iff.mp h
    obtain ⟨answer, -, h⟩ := Option.bind_eq_some_iff.mp h
    cases h
    obtain ⟨hne, ht⟩ := removeClosed_target a answer
    exact ⟨_, proceeds_put hc he rfl nofun hne fun b hb ↦ by simp [Call.target, ht b hb]⟩
  | takeAllAt todo taken =>
    cases todo with
    | nil => cases h
    | cons a todo =>
      obtain ⟨e, he, h⟩ := Option.bind_eq_some_iff.mp h
      cases h
      exact ⟨_, proceeds_put hc he rfl nofun nofun nofun⟩
  | takeAllRetired a todo taken =>
    obtain ⟨e, he, h⟩ := Option.bind_eq_some_iff.mp h
    have hid := id_beginClose e
    rcases hb : e.beginClose with ⟨_ | answer, closed⟩ <;> simp only [hb, Option.some.injEq] at h hid <;>
      subst h
    · exact ⟨_, proceeds_put hc he hid nofun nofun nofun⟩
    · obtain ⟨hne, ht⟩ := takeAllClosed_target a todo taken answer
      exact ⟨_, proceeds_put hc he hid nofun hne fun b hb ↦ by simp [ht] at hb⟩
  | takeAllWaiting a todo taken =>
    obtain ⟨e, he, h⟩ := Option.bind_eq_some_iff.mp h
    obtain ⟨answer, -, h⟩ := Option.bind_eq_some_iff.mp h
    cases h
    obtain ⟨hne, ht⟩ := takeAllClosed_target a todo taken answer
    exact ⟨_, proceeds_put hc he rfl nofun hne fun b hb ↦ by simp [ht] at hb⟩

namespace State

section Names

variable {s : State T} {id : String} {a : Addr}

/-- What is found is listed under its id. -/
theorem findLocked_eq_some (h : s.findLocked id = some a) :
    a ∈ s.entries ∧ s.names[a]? = some id := by
  refine ⟨List.mem_of_find?_eq_some h, ?_⟩
  have hid := List.find?_some h
  simp only [Option.any_eq_true, beq_iff_eq] at hid
  obtain ⟨e, he, hid⟩ := hid
  simp [names, he, hid]

/-- An id is listed when an entry of that id is. -/
theorem mem_ids : id ∈ s.ids ↔ ∃ a ∈ s.entries, s.names[a]? = some id := List.mem_filterMap

/-- `has` looks among the ids. -/
theorem has_iff : s.has id ↔ id ∈ s.ids := by
  rw [has, findLocked, List.find?_isSome, mem_ids]
  simp [names, Option.any_eq_true]

/-- Every listed entry was made. -/
def Listed (s : State T) : Prop := ∀ a ∈ s.entries, a < s.heap.length

/-- An insertion makes an entry, and lists it unless its id is there. -/
theorem insert_spec (s : State T) (id : String) (value : Option T) :
    (s.insert id value).names = s.names ++ [id] ∧
      (s.insert id value).entries = (if s.has id then s.entries else s.entries ++ [s.heap.length]) ∧
      (s.insert id value).calls = s.calls ++ [.inserted (!s.has id)] := by
  unfold insert has
  cases s.findLocked id <;> simp [names]

/-- Ids are added at the end. -/
theorem ids_insert (h : s.Listed) (id : String) (value : Option T) :
    (s.insert id value).ids = if s.has id then s.ids else s.ids ++ [id] := by
  obtain ⟨hn, he, -⟩ := s.insert_spec id value
  have hlen : s.names.length = s.heap.length := List.length_map ..
  have hsame : (s.entries.filterMap fun a ↦ (s.names ++ [id])[a]?) = s.ids := by
    refine List.filterMap_congr fun a ha ↦ ?_
    rw [List.getElem?_append_left (by rw [hlen]; exact h a ha)]
  rw [ids, hn, he]
  split
  · exact hsame
  · rw [List.filterMap_append, hsame, ← hlen]
    simp

/-- What is inserted is listed when it was made. -/
theorem Listed.insert (h : s.Listed) (id : String) (value : Option T) :
    (s.insert id value).Listed := by
  have hheap : (s.insert id value).heap.length = s.heap.length + 1 := by
    unfold State.insert
    cases s.findLocked id <;> simp
  intro a ha
  rw [hheap]
  rw [(s.insert_spec id value).2.1] at ha
  split at ha
  · exact Nat.lt_succ_of_lt (h a ha)
  · rcases List.mem_append.mp ha with ha | ha
    · exact Nat.lt_succ_of_lt (h a ha)
    · rw [List.mem_singleton.mp ha]
      exact Nat.lt_succ_self _

/-- Where ids are unique, an entry that leaves the list takes its id along. -/
theorem ids_erase (hd : s.ids.Nodup) (ha : a ∈ s.entries) (hid : s.names[a]? = some id) :
    ((s.entries.filter (· ≠ a)).filterMap fun a ↦ s.names[a]?) = s.ids.filter (· ≠ id) := by
  have hunique : ∀ b ∈ s.entries, b ≠ a → s.names[b]? ≠ some id := by
    intro b hb hne hbid
    have : Std.Symm fun x y : Addr ↦ ∀ m, s.names[x]? = some m → ∀ n, s.names[y]? = some n → m ≠ n :=
      ⟨fun _ _ h m hm n hn heq ↦ h n hn m hm heq.symm⟩
    exact List.Pairwise.forall (List.pairwise_filterMap.mp hd) hb ha hne id hbid id hid rfl
  rw [ids, List.filterMap_filter, List.filter_filterMap]
  refine List.filterMap_congr fun b hb ↦ ?_
  by_cases hba : b = a
  · simp [hba, hid, Option.filter]
  · cases hn : s.names[b]? with
    | none => simp [hba]
    | some n =>
      have hne : n ≠ id := fun h ↦ hunique b hb hba (h ▸ hn)
      simp [hba, hne, Option.filter]

end Names

end State

end WebLinked.Core.SourceTable
