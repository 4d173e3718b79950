import Mathlib.Data.List.Nodup

/-!
# Lists with distinct keys

What one is appended, replaced or removed by its key keeps keys distinct, and what it does to
the number of elements that satisfy a property. Where keys are distinct, what acts on the first
element of a key acts on all of that key.
-/

namespace WebLinked.Base.Keyed

universe u v

variable {α : Type u} {κ : Type v} {key : α → κ} {l : List α} {k : κ} {x y : α}

/-- No two elements have one key. -/
def Distinct (key : α → κ) (l : List α) : Prop := (l.map key).Nodup

/-- Elements of one key are one element. -/
theorem Distinct.eq (h : Distinct key l) (hx : x ∈ l) (hy : y ∈ l) (hk : key x = key y) : x = y :=
  List.inj_on_of_nodup_map h hx hy hk

/-- What follows an element has another key. -/
theorem Distinct.ne_of_mem_tail (h : Distinct key (x :: l)) (hy : y ∈ l) : key y ≠ key x := by
  intro hk
  have hmem : key y ∈ l.map key := List.mem_map_of_mem hy
  rw [hk] at hmem
  exact (List.nodup_cons.mp h).1 hmem

/-- The rest of a list. -/
theorem Distinct.tail (h : Distinct key (x :: l)) : Distinct key l := (List.nodup_cons.mp h).2

/-- A new key appended. -/
theorem Distinct.append (h : Distinct key l) (hk : key x ∉ l.map key) : Distinct key (l ++ [x]) := by
  rw [Distinct, List.map_append]
  exact List.Nodup.append h (List.nodup_singleton (key x)) (List.disjoint_singleton.mpr hk)

variable [DecidableEq κ]

/-- `x` where an element of key `k` was. -/
def replace (key : α → κ) (k : κ) (x : α) (l : List α) : List α :=
  l.map fun y ↦ if key y = k then x else y

/-- The list without what has the key `k`. -/
def remove (key : α → κ) (k : κ) (l : List α) : List α := l.filter (key · ≠ k)

theorem mem_replace : y ∈ replace key k x l ↔ (y ∈ l ∧ key y ≠ k) ∨ (y = x ∧ ∃ z ∈ l, key z = k) := by
  rw [replace, List.mem_map]
  constructor
  · rintro ⟨z, hz, rfl⟩
    split
    · next hk => exact Or.inr ⟨rfl, z, hz, hk⟩
    · next hk => exact Or.inl ⟨hz, hk⟩
  · rintro (⟨hy, hk⟩ | ⟨rfl, z, hz, hk⟩)
    · exact ⟨y, hy, if_neg hk⟩
    · exact ⟨z, hz, if_pos hk⟩

@[simp] theorem mem_remove : y ∈ remove key k l ↔ y ∈ l ∧ key y ≠ k := by
  simp [remove]

/-- Replacing what is not there. -/
theorem replace_of_forall_ne (h : ∀ y ∈ l, key y ≠ k) : replace key k x l = l :=
  (List.map_congr_left fun y hy ↦ if_neg (h y hy)).trans (List.map_id' l)

/-- Removing what is not there. -/
theorem remove_of_forall_ne (h : ∀ y ∈ l, key y ≠ k) : remove key k l = l :=
  List.filter_eq_self.mpr fun y hy ↦ by simpa using h y hy

/-- An element replaced by one of its own key or of a new one. -/
theorem Distinct.replace (h : Distinct key l) (hk : key x = k ∨ key x ∉ l.map key) :
    Distinct key (replace key k x l) := by
  rw [Distinct, Keyed.replace, List.map_map]
  refine (List.nodup_map_iff_inj_on (List.Nodup.of_map _ h)).mpr fun y hy z hz hyz ↦ ?_
  have hnew (y : α) (hy : y ∈ l) (hyk : key y ≠ k) : key y ≠ key x := by
    intro heq
    rcases hk with hk | hk
    · exact hyk (heq.trans hk)
    · exact hk (heq ▸ List.mem_map_of_mem hy)
  by_cases hyk : key y = k <;> by_cases hzk : key z = k
  · exact h.eq hy hz (hyk.trans hzk.symm)
  · simp only [Function.comp, hyk, hzk, if_true, if_false] at hyz
    exact absurd hyz.symm (hnew z hz hzk)
  · simp only [Function.comp, hyk, hzk, if_true, if_false] at hyz
    exact absurd hyz (hnew y hy hyk)
  · simp only [Function.comp, hyk, hzk, if_false] at hyz
    exact h.eq hy hz hyz

/-- Fewer elements. -/
theorem Distinct.remove (h : Distinct key l) (k : κ) : Distinct key (remove key k l) :=
  List.Nodup.sublist (List.filter_sublist.map _) h

/-- Replacing leaves a number alone if it leaves the property alone. -/
theorem countP_replace {p : α → Bool} (h : ∀ y ∈ l, key y = k → p y = p x) :
    (Keyed.replace key k x l).countP p = l.countP p := by
  rw [Keyed.replace, List.countP_map]
  refine List.countP_congr fun y hy ↦ ?_
  simp only [Function.comp]
  split
  · next hk => rw [h y hy hk]
  · rfl

/-- Removing leaves a number alone if what goes was not counted. -/
theorem countP_remove {p : α → Bool} (h : ∀ y ∈ l, key y = k → p y = false) :
    (Keyed.remove key k l).countP p = l.countP p := by
  rw [Keyed.remove, List.countP_filter]
  refine List.countP_congr fun y hy ↦ ?_
  by_cases hk : key y = k
  · simp [h y hy hk]
  · simp [hk]

/-- The first of a key is all of it. -/
theorem Distinct.eraseP_eq (h : Distinct key l) (k : κ) :
    l.eraseP (key · = k) = Keyed.remove key k l := by
  induction l with
  | nil => rfl
  | cons x l ih =>
    by_cases hk : key x = k
    · have hrest : Keyed.remove key k l = l :=
        remove_of_forall_ne fun y hy hyk ↦ h.ne_of_mem_tail hy (hyk.trans hk.symm)
      rw [List.eraseP_cons_of_pos (by simpa using hk), Keyed.remove,
        List.filter_cons_of_neg (by simpa using hk), ← Keyed.remove, hrest]
    · rw [List.eraseP_cons_of_neg (by simpa using hk), ih h.tail, Keyed.remove, Keyed.remove,
        List.filter_cons_of_pos (by simpa using hk)]

end WebLinked.Base.Keyed
