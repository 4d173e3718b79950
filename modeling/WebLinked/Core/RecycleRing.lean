import WebLinked.Base.Keyed

/-!
# A fixed set of objects, handed out and given back

`src/core/recycle_ring.h`. The object itself stands for its address. Every call holds the
ring's lock throughout, so a call is one step.
-/

namespace WebLinked.Core

open WebLinked.Base

universe u

/-- `RecycleRing::Slot`; `src/core/recycle_ring.h:137`. -/
structure Slot (α : Type u) where
  item : α
  free : Bool
  deriving DecidableEq, Repr

/-- `RecycleRing`; `src/core/recycle_ring.h:32,136–147`. -/
structure RecycleRing (α : Type u) where
  slots : List (Slot α) := []
  closed : Bool := false
  misses : Nat := 0
  doubleReleases : Nat := 0
  strangers : Nat := 0
  deriving DecidableEq, Repr

namespace RecycleRing

variable {α : Type u} (r : RecycleRing α)

/-- Set the flag of the slot at an index. -/
def setFree (i : Nat) (free : Bool) : RecycleRing α :=
  { r with slots := r.slots.modify i fun slot ↦ { slot with free } }

/-- `add`; `src/core/recycle_ring.h:35`. -/
def add (item : α) : RecycleRing α := { r with slots := r.slots ++ [⟨item, true⟩] }

/-- `acquire`, which hands out the first free object; `src/core/recycle_ring.h:42`. -/
def acquire : Option α × RecycleRing α :=
  if r.closed then (none, r)
  else
    match r.slots.findIdx? (·.free) with
    | some i => (r.slots[i]?.map (·.item), r.setFree i false)
    | none => (none, { r with misses := r.misses + 1 })

/-- `release`, by address; `src/core/recycle_ring.h:64`. -/
def release [DecidableEq α] (item : α) : Bool × RecycleRing α :=
  if r.closed then (false, r)
  else
    match r.slots.findIdx? (·.item = item) with
    | some i =>
      if (r.slots[i]?.map (·.free)).getD false then
        (false, { r with doubleReleases := r.doubleReleases + 1 })
      else (true, r.setFree i true)
    | none => (false, { r with strangers := r.strangers + 1 })

/-- The objects, in the order they were added. -/
def items : List α := r.slots.map (·.item)

/-- What `close` returns. -/
structure Closing (α : Type u) where
  items : List α
  outstanding : Nat
  deriving DecidableEq, Repr

/-- `close`; `src/core/recycle_ring.h:85`. -/
def close : Closing α × RecycleRing α :=
  ({ items := r.items, outstanding := r.slots.countP (!·.free) },
    { r with slots := [], closed := true })

/-- The objects are different ones. -/
def Distinct : Prop := Keyed.Distinct Slot.item r.slots

/-- The object is in the ring, and in use or not. -/
def Has (item : α) (free : Bool) : Prop := (⟨item, free⟩ : Slot α) ∈ r.slots

variable {r} {r' : RecycleRing α} {f g : α} {b : Bool}

theorem mem_items : f ∈ r.items ↔ ∃ b, r.Has f b := by
  simp only [items, List.mem_map, Has]
  constructor
  · rintro ⟨slot, hslot, rfl⟩
    exact ⟨slot.free, hslot⟩
  · rintro ⟨b, hb⟩
    exact ⟨_, hb, rfl⟩

theorem Has.mem_items (h : r.Has f b) : f ∈ r.items := RecycleRing.mem_items.mpr ⟨b, h⟩

/-- An object is free or in use, not both. -/
theorem Distinct.free_eq (h : r.Distinct) {b' : Bool} (hb : r.Has f b) (hb' : r.Has f b') :
    b = b' :=
  congrArg Slot.free (h.eq hb hb' rfl)

theorem distinct_iff : r.Distinct ↔ r.items.Nodup := Iff.rfl

section SetFree

variable {i : Nat} {slot : Slot α}

theorem getElem?_setFree (j : Nat) : (r.setFree i b).slots[j]? =
    if i = j then r.slots[j]?.map fun slot ↦ { slot with free := b } else r.slots[j]? := by
  rw [setFree, List.getElem?_modify]
  split
  · rfl
  · simp

theorem items_setFree (r : RecycleRing α) (i : Nat) (b : Bool) :
    (r.setFree i b).items = r.items := by
  apply List.ext_getElem?
  intro j
  rw [items, items, List.getElem?_map, List.getElem?_map, getElem?_setFree]
  split
  · rw [Option.map_map]
    rfl
  · rfl

/-- The object at the index has the flag. -/
theorem Distinct.has_setFree_self {c : Bool} (h : r.Distinct)
    (hslot : r.slots[i]? = some slot) : (r.setFree i b).Has slot.item c ↔ c = b := by
  have hhas : (r.setFree i b).Has slot.item b := by
    apply List.mem_of_getElem? (i := i)
    rw [getElem?_setFree, if_pos rfl, hslot]
    rfl
  have hdistinct : (r.setFree i b).Distinct := by
    rwa [distinct_iff, items_setFree]
  constructor
  · exact fun hg ↦ hdistinct.free_eq hg hhas
  · rintro rfl
    exact hhas

/-- Every other object keeps its own. -/
theorem has_setFree_of_ne (hslot : r.slots[i]? = some slot) (hne : g ≠ slot.item) {c : Bool} :
    (r.setFree i b).Has g c ↔ r.Has g c := by
  simp only [Has, List.mem_iff_getElem?, getElem?_setFree]
  apply exists_congr
  intro j
  split
  · next hij =>
    subst hij
    rw [hslot]
    constructor
    · intro heq
      exact absurd (congrArg Slot.item (Option.some.inj heq)).symm hne
    · intro heq
      exact absurd (congrArg Slot.item (Option.some.inj heq)).symm hne
  · rfl

end SetFree

/-- What a call does to an open ring: the object's flag, and nothing else that a later call sees. -/
structure Flagged (r : RecycleRing α) (f : α) (b : Bool) (r' : RecycleRing α) : Prop where
  items : r'.items = r.items
  closed : r'.closed = r.closed
  was : r.Has f (!b)
  now : ∀ c, r'.Has f c ↔ c = b
  others : ∀ g c, g ≠ f → (r'.Has g c ↔ r.Has g c)

/-- The slots and the state are the same; only a counter is not. -/
structure SameSlots (r r' : RecycleRing α) : Prop where
  slots : r'.slots = r.slots
  closed : r'.closed = r.closed

theorem Distinct.flagged_setFree {i : Nat} {slot : Slot α} (h : r.Distinct)
    (hslot : r.slots[i]? = some slot) (hwas : slot.free = !b) :
    r.Flagged slot.item b (r.setFree i b) where
  items := items_setFree r i b
  closed := rfl
  was := by
    rw [← hwas]
    exact List.mem_of_getElem? hslot
  now := fun _ ↦ h.has_setFree_self hslot
  others := fun _ _ hne ↦ has_setFree_of_ne hslot hne

/-- `acquire` hands out a free object, now in use, or nothing. -/
theorem Distinct.acquire_cases (h : r.Distinct) :
    (∃ f, r.acquire.1 = some f ∧ r.closed = false ∧ r.Flagged f false r.acquire.2) ∨
    (r.acquire.1 = none ∧ r.SameSlots r.acquire.2) := by
  unfold acquire
  split
  · exact .inr ⟨rfl, rfl, rfl⟩
  · next hopen =>
    split
    · next i hi =>
      obtain ⟨hlt, hfree, -⟩ := List.findIdx?_eq_some_iff_getElem.mp hi
      have hslot := List.getElem?_eq_getElem hlt
      refine .inl ⟨r.slots[i].item, ?_, by simpa using hopen, h.flagged_setFree hslot hfree⟩
      rw [hslot]
      rfl
    · exact .inr ⟨rfl, rfl, rfl⟩

/-- `release` frees an object that is in use, or refuses and changes nothing. -/
theorem Distinct.release_cases [DecidableEq α] (h : r.Distinct) (f : α) :
    ((r.release f).1 = true ∧ r.closed = false ∧ r.Flagged f true (r.release f).2) ∨
    ((r.release f).1 = false ∧ (r.closed = true ∨ ¬ r.Has f false) ∧
      r.SameSlots (r.release f).2) := by
  unfold release
  split
  · next hclosed => exact .inr ⟨rfl, .inl hclosed, rfl, rfl⟩
  · next hopen =>
    split
    · next i hi =>
      obtain ⟨hlt, hitem, -⟩ := List.findIdx?_eq_some_iff_getElem.mp hi
      have hslot := List.getElem?_eq_getElem hlt
      have hf : r.slots[i].item = f := by simpa using hitem
      rw [hslot, Option.map_some, Option.getD_some]
      split
      · next hfree =>
        refine .inr ⟨rfl, .inr fun hhas ↦ ?_, rfl, rfl⟩
        have hi' : r.Has f true := by
          rw [← hf, ← hfree]
          exact List.mem_of_getElem? hslot
        exact Bool.noConfusion (h.free_eq hhas hi')
      · next hfree =>
        have hflag := h.flagged_setFree (b := true) hslot (by simpa using hfree)
        rw [hf] at hflag
        exact .inl ⟨rfl, by simpa using hopen, hflag⟩
    · next hi =>
      refine .inr ⟨rfl, .inr fun hhas ↦ ?_, rfl, rfl⟩
      have hne := List.findIdx?_eq_none_iff.mp hi _ hhas
      simp at hne

theorem SameSlots.items (h : r.SameSlots r') : r'.items = r.items := by
  rw [RecycleRing.items, h.slots]
  rfl

theorem Distinct.items_release [DecidableEq α] (h : r.Distinct) (f : α) :
    (r.release f).2.items = r.items := by
  obtain ⟨-, -, hflag⟩ | ⟨-, -, hsame⟩ := h.release_cases f
  · exact hflag.items
  · exact hsame.items

/-- Nothing but `close` closes a ring. -/
theorem closed_release [DecidableEq α] (f : α) : (r.release f).2.closed = r.closed := by
  unfold release
  split
  · rfl
  · split
    · split <;> rfl
    · rfl

/-- An object is added free. -/
theorem has_add : (r.add f).Has g b ↔ r.Has g b ∨ g = f ∧ b = true := by
  simp [Has, add]

theorem items_add : (r.add f).items = r.items ++ [f] := by
  simp [items, add]

/-- `close` counts the objects in use, whoever has them. -/
theorem Distinct.outstanding_eq (h : r.Distinct) {inUse : List α} (hinUse : inUse.Nodup)
    (hmem : ∀ f, f ∈ inUse ↔ r.Has f false) : r.close.1.outstanding = inUse.length := by
  have hsub : ((r.slots.filter (!·.free)).map (·.item)).Nodup :=
    List.Nodup.sublist (List.filter_sublist.map _) h
  have hperm : ((r.slots.filter (!·.free)).map (·.item)).Perm inUse := by
    rw [List.perm_ext_iff_of_nodup hsub hinUse]
    intro f
    rw [hmem, List.mem_map]
    constructor
    · rintro ⟨⟨item, free⟩, hslot, rfl⟩
      obtain ⟨hslot, hfree⟩ := List.mem_filter.mp hslot
      have hfree : free = false := by simpa using hfree
      rwa [hfree] at hslot
    · intro hhas
      exact ⟨⟨f, false⟩, List.mem_filter.mpr ⟨hhas, rfl⟩, rfl⟩
  rw [← hperm.length_eq, List.length_map, ← List.countP_eq_length_filter]
  rfl

end RecycleRing
end WebLinked.Core
