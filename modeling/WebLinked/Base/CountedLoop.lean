import WebLinked.Base.Int32

/-!
# Counted loops

`for (int i = lo; i < hi; i += step) body`, over a state, where the body may have no defined
meaning. The rules are those of a loop invariant: it holds of the counter and the state before
each iteration.
-/

namespace WebLinked.Base

universe u

variable {σ : Type u} {step hi lo : Int} {body : Int → σ → Option σ}

/-- At most `n` iterations from `i` on. -/
def forUp.loop (step hi : Int) (body : Int → σ → Option σ) : Nat → Int → σ → Option σ
  | 0, _, s => some s
  | n + 1, i, s =>
    if i < hi then
      (body i s).bind fun s ↦ (add32 i step).bind fun i ↦ forUp.loop step hi body n i s
    else some s

/-- `for (int i = lo; i < hi; i += step) body`, for a positive step. -/
def forUp (step hi : Int) (body : Int → σ → Option σ) (lo : Int) (s : σ) : Option σ :=
  forUp.loop step hi body (hi - lo).toNat lo s

/-- The counter when a loop ends that goes up by `step`. -/
def loopEnd (step lo hi : Int) : Int := lo + step * ((hi - lo + step - 1) / step)

/-- One step nearer the end is the same end. -/
theorem loopEnd_add (h : 0 < step) (lo hi : Int) :
    loopEnd step (lo + step) hi = loopEnd step lo hi := by
  have hq : (hi - lo + step - 1) / step = (hi - (lo + step) + step - 1) / step + 1 := by
    rw [show hi - lo + step - 1 = hi - (lo + step) + step - 1 + step by omega,
      Int.add_ediv_of_dvd_right (Int.dvd_refl step), Int.ediv_self (Int.ne_of_gt h)]
  rw [loopEnd, loopEnd, hq, Int.mul_add, Int.mul_one]
  omega

/-- A counter that has not ended is a step from the end or more. -/
theorem add_le_loopEnd (h : 0 < step) (hlt : lo < hi) : lo + step ≤ loopEnd step lo hi := by
  have hq : 1 ≤ (hi - lo + step - 1) / step := by
    rw [Int.le_ediv_iff_mul_le h]
    omega
  have hmul := Int.mul_le_mul_of_nonneg_left hq (Int.le_of_lt h)
  rw [loopEnd]
  omega

/-- A counter that goes up by one ends at the limit. -/
theorem loopEnd_one (lo hi : Int) : loopEnd 1 lo hi = hi := by
  rw [loopEnd, Int.ediv_one]
  omega

/-- The loop rule. The invariant is about the counter cut at the limit, which the last
iteration may pass. -/
theorem forUp_invariant (I : Int → σ → Prop) (hstep : 0 < step) (hlo : InInt32 lo)
    (hend : InInt32 (loopEnd step lo hi)) {s : σ} (h : I (min lo hi) s)
    (hbody : ∀ i s, lo ≤ i → i < hi → InInt32 (i + step) → I i s →
      ∃ t, body i s = some t ∧ I (min (i + step) hi) t) :
    ∃ t, forUp step hi body lo s = some t ∧ I hi t := by
  suffices hloop : ∀ (n : Nat) (i : Int) (s : σ), (hi - i).toNat ≤ n → lo ≤ i → InInt32 i →
      loopEnd step i hi = loopEnd step lo hi → I (min i hi) s →
      ∃ t, forUp.loop step hi body n i s = some t ∧ I hi t from
    hloop _ lo s (Nat.le_refl _) (Int.le_refl _) hlo rfl h
  intro n
  induction n with
  | zero =>
    intro i s hn _ _ _ hi'
    rw [Int.min_eq_right (by omega)] at hi'
    exact ⟨s, rfl, hi'⟩
  | succ n ih =>
    intro i s hn hle hmem hsame hi'
    rw [forUp.loop]
    split
    · next hlt =>
      rw [Int.min_eq_left (Int.le_of_lt hlt)] at hi'
      have hadd := add_le_loopEnd hstep hlt
      have hnext : InInt32 (i + step) := by
        unfold InInt32 at *
        omega
      obtain ⟨t, ht, hit⟩ := hbody i s hle hlt hnext hi'
      rw [ht, Option.bind_some, add32_of_mem hnext, Option.bind_some]
      apply ih (i + step) t (by omega) (by omega) hnext ?_ hit
      rw [loopEnd_add hstep, hsame]
    · next hge =>
      rw [Int.min_eq_right (by omega)] at hi'
      exact ⟨s, rfl, hi'⟩

/-- The loop rule where the counter goes up by one. -/
theorem forUp_one_invariant (I : Int → σ → Prop) (hlo : InInt32 lo) (hhi : InInt32 hi)
    (hle : lo ≤ hi) {s : σ} (h : I lo s)
    (hbody : ∀ i s, lo ≤ i → i < hi → I i s → ∃ t, body i s = some t ∧ I (i + 1) t) :
    ∃ t, forUp 1 hi body lo s = some t ∧ I hi t := by
  apply forUp_invariant I Int.one_pos hlo
  · rw [loopEnd_one]
    exact hhi
  · rwa [Int.min_eq_left hle]
  · intro i s hi hlt _ hI
    rw [Int.min_eq_left (by omega)]
    exact hbody i s hi hlt hI

/-- A loop that ends has reached its limit with an `int`. -/
theorem exists_end_of_forUp {s t : σ} (hstep : 0 < step) (hlo : InInt32 lo)
    (h : forUp step hi body lo s = some t) :
    ∃ k : Nat, hi ≤ lo + k * step ∧ InInt32 (lo + k * step) := by
  suffices hloop : ∀ (n : Nat) (i : Int) (s : σ), (hi - i).toNat ≤ n → InInt32 i →
      forUp.loop step hi body n i s = some t → ∃ k : Nat, hi ≤ i + k * step ∧ InInt32 (i + k * step) from
    hloop _ lo s (Nat.le_refl _) hlo h
  intro n
  induction n with
  | zero =>
    intro i s hn hmem _
    exact ⟨0, by omega, by simpa using hmem⟩
  | succ n ih =>
    intro i s hn hmem hrun
    rw [forUp.loop] at hrun
    split at hrun
    · obtain ⟨u, _, hrun⟩ := Option.bind_eq_some_iff.mp hrun
      obtain ⟨j, hj, hrun⟩ := Option.bind_eq_some_iff.mp hrun
      rw [add32, checked32] at hj
      split at hj
      · next hnext =>
        cases hj
        obtain ⟨k, hk, hkmem⟩ := ih (i + step) u (by omega) hnext hrun
        have hmul : i + ((k + 1 : Nat) : Int) * step = i + step + k * step := by
          rw [Int.natCast_add, Int.add_mul]
          omega
        exact ⟨k + 1, by rw [hmul]; exact hk, by rw [hmul]; exact hkmem⟩
      · cases hj
    · exact ⟨0, by omega, by simpa using hmem⟩

end WebLinked.Base
