/-!
# Lists in which one element is the exception

Every element satisfies a property, but for the one at a given place, which is known. The
laws say what an update in place, a change of one element or a new element does to that.
-/

namespace WebLinked.Base

universe u

variable {α : Type u} {p : α → Prop} {l : List α} {c i : Nat} {a x : α}

/-- The element at `c` is `a`, and every other one satisfies `p`. -/
structure AllBut (p : α → Prop) (l : List α) (c : Nat) (a : α) : Prop where
  here : l[c]? = some a
  others : ∀ i x, l[i]? = some x → i ≠ c → p x

namespace AllBut

/-- The exception is in the list. -/
theorem lt_length (h : AllBut p l c a) : c < l.length :=
  (List.getElem?_eq_some_iff.mp h.here).1

/-- A list of one element. -/
theorem singleton (a : α) : AllBut p [a] 0 a := by
  constructor
  · rfl
  · intro j x hx hj
    cases j with
    | zero => exact absurd rfl hj
    | succ j => simp at hx

/-- Updating one element by a function that keeps the property. -/
theorem modify (h : AllBut p l c a) (i : Nat) {f : α → α} (hf : ∀ x, p x → p (f x)) :
    AllBut p (l.modify i f) c (if i = c then f a else a) := by
  constructor
  · rw [List.getElem?_modify, h.here]
    rfl
  · intro j x hx hj
    rw [List.getElem?_modify] at hx
    obtain ⟨y, hy, rfl⟩ := Option.map_eq_some_iff.mp hx
    split
    · exact hf y (h.others j y hy hj)
    · exact h.others j y hy hj

/-- Changing the exception. -/
theorem set_self (h : AllBut p l c a) (b : α) : AllBut p (l.set c b) c b := by
  have hlt := h.lt_length
  constructor
  · simp [hlt]
  · intro j x hx hj
    rw [List.getElem?_set_ne (Ne.symm hj)] at hx
    exact h.others j x hx hj

/-- Changing another element to one with the property. -/
theorem set_other (h : AllBut p l c a) (hi : i ≠ c) (hx : p x) :
    AllBut p (l.set i x) c a := by
  constructor
  · rw [List.getElem?_set_ne hi]
    exact h.here
  · intro j y hy hj
    by_cases hij : i = j
    · subst hij
      rw [List.getElem?_set_self'] at hy
      obtain ⟨_, _, rfl⟩ := Option.map_eq_some_iff.mp hy
      exact hx
    · rw [List.getElem?_set_ne hij] at hy
      exact h.others j y hy hj

/-- A new element becomes the exception once the old one has the property. -/
theorem append (h : AllBut p l c a) (ha : p a) (b : α) : AllBut p (l ++ [b]) l.length b := by
  constructor
  · simp
  · intro j x hx hj
    by_cases hlt : j < l.length
    · rw [List.getElem?_append_left hlt] at hx
      by_cases hjc : j = c
      · subst hjc
        rw [h.here] at hx
        cases hx
        exact ha
      · exact h.others j x hx hjc
    · have hlen := (List.getElem?_eq_some_iff.mp hx).1
      simp only [List.length_append, List.length_singleton] at hlen
      omega

/-- An element without the property is the exception. -/
theorem eq_of_not (h : AllBut p l c a) (hx : l[i]? = some x) (hp : ¬ p x) : i = c ∧ x = a := by
  by_cases hi : i = c
  · subst hi
    rw [h.here] at hx
    cases hx
    exact ⟨rfl, rfl⟩
  · exact absurd (h.others i x hx hi) hp

/-- An element that is not the exception stands elsewhere. -/
theorem ne_of_ne (h : AllBut p l c a) (hx : l[i]? = some x) (hne : x ≠ a) : i ≠ c := by
  rintro rfl
  rw [h.here] at hx
  cases hx
  exact hne rfl

/-- A filter that only the exception passes leaves only the exception. -/
theorem filter_eq (h : AllBut p l c a) {q : α → Bool} (ha : q a) (hq : ∀ x, p x → q x = false) :
    l.filter q = [a] := by
  induction l generalizing c with
  | nil => exact absurd h.here (by simp)
  | cons x l ih =>
    cases c with
    | zero =>
      have hx : x = a := by simpa using h.here
      have hrest : l.filter q = [] := by
        rw [List.filter_eq_nil_iff]
        intro y hy
        obtain ⟨i, hi⟩ := List.getElem?_of_mem hy
        rw [hq y (h.others (i + 1) y (by simpa using hi) (by omega))]
        exact Bool.false_ne_true
      rw [hx, List.filter_cons_of_pos ha, hrest]
    | succ c =>
      have hx := hq x (h.others 0 x rfl (by omega))
      rw [List.filter_cons_of_neg (by simp [hx])]
      refine ih ⟨by simpa using h.here, fun i y hy hi ↦ ?_⟩
      exact h.others (i + 1) y (by simpa using hy) (by omega)

end AllBut
end WebLinked.Base
