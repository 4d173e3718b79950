/-!
# Signed 64-bit arithmetic

Values are integers; an operation whose exact result leaves the range of `int64_t`, or
divides by zero, gives `none`, since a program that does so has no defined meaning.
-/

namespace WebLinked.Base

/-- In the range of `int64_t`. -/
def InInt64 (x : Int) : Prop := -9223372036854775808 ≤ x ∧ x ≤ 9223372036854775807

instance : DecidablePred InInt64 := fun x ↦ by unfold InInt64; infer_instance

/-- An exact result, if it is one. -/
def checked64 (x : Int) : Option Int := if InInt64 x then some x else none

/-- Addition of `int64_t` values. -/
def add64 (a b : Int) : Option Int := checked64 (a + b)

/-- Subtraction of `int64_t` values. -/
def sub64 (a b : Int) : Option Int := checked64 (a - b)

/-- Multiplication of `int64_t` values. -/
def mul64 (a b : Int) : Option Int := if InInt64 (a * b) then some (a * b) else none

/-- Division of `int64_t` values, truncated towards zero. -/
def div64 (a b : Int) : Option Int :=
  if b ≠ 0 ∧ InInt64 (a.tdiv b) then some (a.tdiv b) else none

/-- A checked result is the exact one. -/
theorem checked64_eq_some_iff {a b : Int} : checked64 a = some b ↔ InInt64 a ∧ b = a := by
  unfold checked64
  split
  · next h => exact ⟨fun hb ↦ ⟨h, (Option.some.inj hb).symm⟩, fun hb ↦ by rw [hb.2]⟩
  · next h => exact ⟨nofun, fun hb ↦ absurd hb.1 h⟩

/-- A sum is defined where it fits, and then exact. -/
theorem add64_eq_some_iff {a b c : Int} : add64 a b = some c ↔ InInt64 (a + b) ∧ c = a + b :=
  checked64_eq_some_iff

/-- A difference is defined where it fits, and then exact. -/
theorem sub64_eq_some_iff {a b c : Int} : sub64 a b = some c ↔ InInt64 (a - b) ∧ c = a - b :=
  checked64_eq_some_iff

/-- A product is defined where it fits, and then exact. -/
theorem mul64_eq_some_iff {a b c : Int} : mul64 a b = some c ↔ InInt64 (a * b) ∧ c = a * b := by
  unfold mul64
  split
  · next h => exact ⟨fun hc ↦ ⟨h, (Option.some.inj hc).symm⟩, fun hc ↦ by rw [hc.2]⟩
  · next h => exact ⟨nofun, fun hc ↦ absurd hc.1 h⟩

/-- What fits after scaling up fits before. -/
theorem InInt64.of_mul {a b : Int} (hb : 0 < b) (h : InInt64 (a * b)) : InInt64 a := by
  obtain ⟨hlo, hhi⟩ := h
  constructor
  · rcases Int.le_total 0 a with ha | ha
    · omega
    · have hle : a * b ≤ a * 1 := Int.mul_le_mul_of_nonpos_left ha (by omega)
      omega
  · rcases Int.le_total 0 a with ha | ha
    · have hle : a * 1 ≤ a * b := Int.mul_le_mul_of_nonneg_left (by omega) ha
      omega
    · omega

/-- A quotient is defined where it fits, and then truncated. -/
theorem div64_eq_some_iff {a b c : Int} :
    div64 a b = some c ↔ (b ≠ 0 ∧ InInt64 (a.tdiv b)) ∧ c = a.tdiv b := by
  unfold div64
  split
  · next h => exact ⟨fun hc ↦ ⟨h, (Option.some.inj hc).symm⟩, fun hc ↦ by rw [hc.2]⟩
  · next h => exact ⟨nofun, fun hc ↦ absurd hc.1 h⟩

/-- Truncation towards zero keeps a quotient's sign. -/
theorem tdiv_nonpos_of_nonpos_of_nonneg {a b : Int} (ha : a ≤ 0) (hb : 0 ≤ b) :
    a.tdiv b ≤ 0 := by
  have hneg := Int.tdiv_nonneg (Int.neg_nonneg_of_nonpos ha) hb
  rw [Int.neg_tdiv] at hneg
  exact Int.nonpos_of_neg_nonneg hneg

/-- A scaled quotient, taken from the whole multiples and the rest apart. -/
theorem ediv_mul_split (a r : Int) {b : Int} (hb : 0 < b) :
    a / b * r + a % b * r / b = a * r / b := by
  calc a / b * r + a % b * r / b
      = (a % b * r + b * (a / b * r)) / b := by
        rw [Int.add_mul_ediv_left _ _ (Int.ne_of_gt hb), Int.add_comm]
    _ = (a % b + b * (a / b)) * r / b := by rw [Int.add_mul, Int.mul_assoc]
    _ = a * r / b := by rw [Int.emod_add_mul_ediv]

/-- The same rounded towards zero, for a factor of either sign. -/
theorem tdiv_mul_split {a b : Int} (ha : 0 ≤ a) (r : Int) (hb : 0 < b) :
    a / b * r + (a % b * r).tdiv b = (a * r).tdiv b := by
  have hrest : 0 ≤ a % b := Int.emod_nonneg _ (Int.ne_of_gt hb)
  rcases Int.le_total 0 r with hr | hr
  · rw [Int.tdiv_eq_ediv_of_nonneg (Int.mul_nonneg hrest hr),
      Int.tdiv_eq_ediv_of_nonneg (Int.mul_nonneg ha hr), ediv_mul_split a r hb]
  · have hneg : 0 ≤ -r := Int.neg_nonneg_of_nonpos hr
    have hsplit := ediv_mul_split a (-r) hb
    rw [← Int.tdiv_eq_ediv_of_nonneg (Int.mul_nonneg hrest hneg),
      ← Int.tdiv_eq_ediv_of_nonneg (Int.mul_nonneg ha hneg), Int.mul_neg, Int.mul_neg,
      Int.mul_neg, Int.neg_tdiv, Int.neg_tdiv] at hsplit
    omega

/-- Dividing by a positive value never leaves the range. -/
theorem div64_of_pos {a b : Int} (ha : InInt64 a) (hb : 0 < b) :
    div64 a b = some (a.tdiv b) := by
  have hq : InInt64 (a.tdiv b) := by
    obtain ⟨hlo, hhi⟩ := ha
    have hle := Int.natAbs_tdiv_le_natAbs a b
    rcases Int.le_total 0 a with h | h
    · have hn := Int.tdiv_nonneg h (Int.le_of_lt hb)
      exact ⟨by omega, by omega⟩
    · have hn := tdiv_nonpos_of_nonpos_of_nonneg h (Int.le_of_lt hb)
      exact ⟨by omega, by omega⟩
  rw [div64, if_pos ⟨by omega, hq⟩]

end WebLinked.Base
