import Mathlib.Algebra.Order.BigOperators.Group.List
import Mathlib.Algebra.Order.Ring.Canonical
import Mathlib.Algebra.Order.Group.Nat

/-!
# Pools of concurrent calls

A pool is the list of program counters of every call ever made; a step of one call
replaces one element and a new call is added at the end. Facts about "how many calls
are at such a point" are totals of a weight over the pool, and each step moves a total
by the difference of two weights.
-/

namespace WebLinked.Base.Pool

variable {α : Type*}

/-- Total of `weight` over the pool. -/
def total (weight : α → Nat) (pool : List α) : Nat := (pool.map weight).sum

/-- An empty pool weighs nothing. -/
@[simp] theorem total_nil (weight : α → Nat) : total weight [] = 0 := rfl

/-- The total of a pool splits off its first call. -/
@[simp] theorem total_cons (weight : α → Nat) (a : α) (pool : List α) :
    total weight (a :: pool) = weight a + total weight pool := by
  simp [total]

/-- A new call adds its weight. -/
@[simp] theorem total_append_singleton (weight : α → Nat) (pool : List α) (a : α) :
    total weight (pool ++ [a]) = total weight pool + weight a := by
  simp [total]

/-- A step of one call moves the total by the difference of its two weights. -/
theorem total_set (weight : α → Nat) {pool : List α} {i : Nat} {a : α} (b : α)
    (h : pool[i]? = some a) :
    total weight (pool.set i b) + weight a = total weight pool + weight b := by
  induction pool generalizing i with
  | nil => simp at h
  | cons c rest ih =>
    cases i with
    | zero =>
      simp only [List.getElem?_cons_zero, Option.some.injEq] at h
      subst h
      simp only [List.set_cons_zero, total_cons]
      omega
    | succ i =>
      have hi := ih (i := i) (by simpa using h)
      simp only [List.set_cons_succ, total_cons]
      omega

/-- Two different calls together weigh at most the total. -/
theorem pair_le_total (weight : α → Nat) {pool : List α} {i j : Nat} {a b : α}
    (hi : pool[i]? = some a) (hj : pool[j]? = some b) (hij : i ≠ j) :
    weight a + weight b ≤ total weight pool := by
  induction pool generalizing i j with
  | nil => simp at hi
  | cons c rest ih =>
    rw [total_cons]
    cases i with
    | zero =>
      cases j with
      | zero => exact absurd rfl hij
      | succ j =>
        have hb : b ∈ rest := List.mem_of_getElem? (by simpa using hj)
        have hle := List.le_sum_of_mem (List.mem_map_of_mem (f := weight) hb)
        simp only [List.getElem?_cons_zero, Option.some.injEq] at hi
        subst hi
        exact Nat.add_le_add_left hle _
    | succ i =>
      cases j with
      | zero =>
        have ha : a ∈ rest := List.mem_of_getElem? (by simpa using hi)
        have hle := List.le_sum_of_mem (List.mem_map_of_mem (f := weight) ha)
        simp only [List.getElem?_cons_zero, Option.some.injEq] at hj
        subst hj
        rw [Nat.add_comm]
        exact Nat.add_le_add_left hle _
      | succ j =>
        have hrest := ih (by simpa using hi) (by simpa using hj) (by omega)
        omega

/-- A call weighs at most the total. -/
theorem le_total (weight : α → Nat) {pool : List α} {a : α} (h : a ∈ pool) :
    weight a ≤ total weight pool :=
  List.le_sum_of_mem (List.mem_map_of_mem h)

/-- Calls that weigh nothing add up to nothing. -/
theorem total_eq_zero (weight : α → Nat) {pool : List α} (h : ∀ a ∈ pool, weight a = 0) :
    total weight pool = 0 := by
  induction pool with
  | nil => rfl
  | cons a rest ih =>
    rw [total_cons, h a (by simp), ih fun b hb ↦ h b (by simp [hb])]

/-- A weight that is smaller everywhere has the smaller total. -/
theorem total_mono {weight weight' : α → Nat} (pool : List α)
    (h : ∀ a, weight a ≤ weight' a) : total weight pool ≤ total weight' pool := by
  induction pool with
  | nil => exact Nat.le_refl _
  | cons a rest ih =>
    rw [total_cons, total_cons]
    exact Nat.add_le_add (h a) ih

/-- After a step of the call at `i`, a call is the new one or one at another index. -/
theorem mem_set {pool : List α} {i : Nat} {a b : α} (h : b ∈ pool.set i a) :
    b = a ∨ ∃ j, j ≠ i ∧ pool[j]? = some b := by
  obtain ⟨j, hj⟩ := List.mem_iff_getElem?.mp h
  rw [List.getElem?_set] at hj
  split at hj
  · split at hj
    · exact Or.inl (Option.some.inj hj).symm
    · cases hj
  · next hij => exact Or.inr ⟨j, Ne.symm hij, hj⟩

end WebLinked.Base.Pool
