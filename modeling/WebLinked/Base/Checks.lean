/-!
# Checks in turn

What it means that a chain of checks and reads in `Except` passes.
-/

namespace WebLinked.Base.Checks

variable {ε α β γ δ : Type} {a : α} {b : β} {e : ε} {x y : Except ε α}

/-- A check passes when what it refuses does not hold. -/
theorem ite_error_eq_ok {p : Prop} [Decidable p] :
    (if p then .error e else x) = .ok a ↔ ¬p ∧ x = .ok a := by
  by_cases h : p <;> simp [h]

/-- A step passes when it gives something the next one passes on. -/
theorem bind_eq_ok {f : α → Except ε β} : (x >>= f) = .ok b ↔ ∃ a, x = .ok a ∧ f a = .ok b := by
  cases x <;> simp [bind, Except.bind]

/-- Steps that agree up to `g` after results that agree up to `f` agree up to `g`. -/
theorem map_bind_congr {f : α → γ} {g : β → δ} {k l : α → Except ε β} (h : x.map f = y.map f)
    (hkl : ∀ a b, f a = f b → (k a).map g = (l b).map g) : (x >>= k).map g = (y >>= l).map g := by
  cases x with
  | error e =>
    cases y with
    | error e' => cases h; rfl
    | ok b => cases h
  | ok a =>
    cases y with
    | error e' => cases h
    | ok b => exact hkl a b (Except.ok.inj h)

end WebLinked.Base.Checks
