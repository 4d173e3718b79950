import Mathlib.Algebra.Order.Field.Power
import Mathlib.Algebra.Order.Field.Rat
import Mathlib.Data.Int.Log
import Mathlib.Data.Rat.Cast.Order
import Mathlib.Data.Rat.Floor
import Mathlib.Tactic.FieldSimp
import Mathlib.Tactic.Linarith
import Mathlib.Tactic.NormNum
import Mathlib.Tactic.Positivity
import Mathlib.Tactic.Ring

/-!
# Binary64 numbers

A finite number is a sign and a rational that is its own rounding, so that order and
arithmetic are those of the rationals, rounded once. Rounding is to nearest, ties to even.
-/

namespace WebLinked.Base

/-- The nearest integer, and of two the even one. -/
def roundEven (q : ℚ) : ℤ :=
  let f := ⌊q⌋
  if q - f < 1 / 2 then f else if 1 / 2 < q - f then f + 1 else if f % 2 = 0 then f else f + 1

/-- The nearest integer is one of the two around. -/
theorem roundEven_floor (q : ℚ) :
    (roundEven q = ⌊q⌋ ∧ q - ⌊q⌋ ≤ 1 / 2) ∨ (roundEven q = ⌊q⌋ + 1 ∧ 1 / 2 ≤ q - ⌊q⌋) := by
  unfold roundEven
  dsimp only
  split
  · next h => exact Or.inl ⟨rfl, h.le⟩
  · next h =>
    split
    · next h' => exact Or.inr ⟨rfl, h'.le⟩
    · next h' =>
      split
      · exact Or.inl ⟨rfl, not_lt.mp h'⟩
      · exact Or.inr ⟨rfl, not_lt.mp h⟩

/-- No integer is nearer than a half away. -/
theorem abs_sub_roundEven (q : ℚ) : |q - roundEven q| ≤ 1 / 2 := by
  have hle := Int.floor_le q
  have hlt := Int.lt_floor_add_one q
  rw [abs_le]
  rcases roundEven_floor q with ⟨h, hq⟩ | ⟨h, hq⟩ <;> rw [h] <;> push_cast <;>
    constructor <;> linarith

/-- An integer is its own nearest one. -/
@[simp] theorem roundEven_intCast (n : ℤ) : roundEven n = n := by
  simp [roundEven]

/-- Rounding does not go below an integer. -/
theorem le_roundEven {n : ℤ} {q : ℚ} (h : n ≤ q) : n ≤ roundEven q := by
  have hf := Int.le_floor.mpr h
  rcases roundEven_floor q with ⟨hr, -⟩ | ⟨hr, -⟩ <;> omega

/-- Rounding does not go above an integer. -/
theorem roundEven_le {n : ℤ} {q : ℚ} (h : q ≤ n) : roundEven q ≤ n := by
  rcases roundEven_floor q with ⟨hr, -⟩ | ⟨hr, hq⟩
  · rw [hr]
    exact Int.floor_le_iff.mpr (by linarith)
  · rw [hr]
    have hlt : (⌊q⌋ : ℚ) < n := by linarith
    exact_mod_cast hlt

/-- Exponent of the last place of a number near `q`. -/
def place (q : ℚ) : ℤ := max (-1074) (Int.log 2 |q| - 52)

/-- The nearest number of 53 binary digits, none below the place of `2 ^ -1074`. -/
def nearest (q : ℚ) : ℚ := roundEven (q / 2 ^ place q) * 2 ^ place q

section Nearest

variable {q : ℚ}

/-- A multiple of the last place is its own nearest number. -/
theorem nearest_of_dvd {k : ℤ} (h : q = k * 2 ^ place q) : nearest q = q := by
  have hk : q / 2 ^ place q = k := by
    rw [div_eq_iff (by positivity)]
    exact h
  rw [nearest, hk, roundEven_intCast]
  exact h.symm

/-- Up to its last place a number has at most 53 digits. -/
theorem div_place_lt (hq : 0 < q) : q / 2 ^ place q < 2 ^ 53 := by
  rw [div_lt_iff₀ (by positivity)]
  have hlt := Int.lt_zpow_succ_log_self (b := 2) Nat.one_lt_two q
  have hle : Int.log 2 q + 1 ≤ 53 + place q := by
    rw [place, abs_of_pos hq]
    omega
  calc q < ((2 : ℕ) : ℚ) ^ (Int.log 2 q + 1) := hlt
    _ ≤ (2 : ℚ) ^ (53 + place q) := by
      push_cast
      exact zpow_le_zpow_right₀ (by norm_num) hle
    _ = 2 ^ 53 * 2 ^ place q := by
      rw [zpow_add₀ (by norm_num)]
      norm_num

/-- Rounding keeps a number from zero up. -/
theorem nearest_nonneg (hq : 0 ≤ q) : 0 ≤ nearest q := by
  have h : (0 : ℤ) ≤ roundEven (q / 2 ^ place q) := by
    apply le_roundEven
    push_cast
    positivity
  have h' : (0 : ℚ) ≤ roundEven (q / 2 ^ place q) := by exact_mod_cast h
  unfold nearest
  positivity

/-- A number of 53 digits, none below the last place, is its own nearest one. -/
theorem nearest_of_digits {k e : ℤ} (hk : 0 ≤ k) (hlt : k < 2 ^ 53) (he : -1074 ≤ e) :
    nearest (k * 2 ^ e) = k * 2 ^ e := by
  rcases hk.eq_or_lt with rfl | hk
  · simp [nearest, roundEven]
  have hkq : (0 : ℚ) < k := by exact_mod_cast hk
  have hq : (0 : ℚ) < k * 2 ^ e := by positivity
  have hlog : Int.log 2 (k * 2 ^ e : ℚ) < 53 + e := by
    rw [← Int.lt_zpow_iff_log_lt Nat.one_lt_two hq]
    push_cast
    rw [zpow_add₀ (by norm_num)]
    have hlt' : (k : ℚ) < 2 ^ 53 := by exact_mod_cast hlt
    have hp : (0 : ℚ) < 2 ^ e := by positivity
    simpa using mul_lt_mul_of_pos_right hlt' hp
  have hle : place (k * 2 ^ e) ≤ e := by
    rw [place, abs_of_pos hq]
    omega
  obtain ⟨d, hd⟩ := Int.le.dest hle
  apply nearest_of_dvd (k := k * 2 ^ d)
  generalize place (k * 2 ^ e) = p at hd ⊢
  subst hd
  push_cast
  rw [zpow_add₀ (by norm_num), zpow_natCast]
  ring

/-- What is rounded needs no rounding. -/
theorem nearest_nearest (hq : 0 ≤ q) : nearest (nearest q) = nearest q := by
  rcases hq.eq_or_lt with rfl | hq
  · simp [nearest, roundEven]
  have hnonneg : 0 ≤ roundEven (q / 2 ^ place q) := le_roundEven (by push_cast; positivity)
  have hupper : roundEven (q / 2 ^ place q) ≤ 2 ^ 53 :=
    roundEven_le (by push_cast; exact (div_place_lt hq).le)
  have hplace : -1074 ≤ place q := le_max_left ..
  unfold nearest
  generalize roundEven (q / 2 ^ place q) = k at *
  generalize place q = e at *
  rcases hupper.eq_or_lt with rfl | hlt
  · -- Rounding has carried into a 54th digit, so the last place is one further up.
    have hcarry : ((2 ^ 53 : ℤ) : ℚ) * 2 ^ e = ((2 ^ 52 : ℤ) : ℚ) * 2 ^ (e + 1) := by
      rw [zpow_add₀ (by norm_num)]
      push_cast
      ring
    rw [hcarry]
    exact nearest_of_digits (by norm_num) (by norm_num) (by omega)
  · exact nearest_of_digits hnonneg hlt hplace

/-- Integers up to 53 digits are exact. -/
theorem nearest_natCast {n : ℕ} (h : n < 2 ^ 53) : nearest n = n := by
  have := nearest_of_digits (k := n) (e := 0) (by omega) (by omega) (by norm_num)
  simpa using this

/-- Rounding is off by half of the last place. -/
theorem abs_sub_nearest_le_place (q : ℚ) : |q - nearest q| ≤ 1 / 2 * 2 ^ place q := by
  have hp : (0 : ℚ) < 2 ^ place q := by positivity
  have hround := abs_sub_roundEven (q / 2 ^ place q)
  have hmul : q - nearest q = (q / 2 ^ place q - roundEven (q / 2 ^ place q)) * 2 ^ place q := by
    rw [nearest]
    field_simp
  rw [hmul, abs_mul, abs_of_pos hp]
  exact mul_le_mul_of_nonneg_right hround hp.le

/-- Above the subnormal numbers, rounding is off by less than half of the last of 53 digits. -/
theorem abs_sub_nearest_le (hq : 2 ^ (-1022 : ℤ) ≤ q) : |q - nearest q| ≤ q / 2 ^ 53 := by
  have hpos : 0 < q := lt_of_lt_of_le (by positivity) hq
  have hlog : -1022 ≤ Int.log 2 q := by
    rw [← Int.zpow_le_iff_le_log Nat.one_lt_two hpos]
    exact_mod_cast hq
  have hplace : place q = Int.log 2 q - 52 := by
    rw [place, abs_of_pos hpos]
    omega
  have hle : (2 : ℚ) ^ place q ≤ q / 2 ^ 52 := by
    have := Int.zpow_log_le_self (b := 2) Nat.one_lt_two hpos
    push_cast at this
    rw [hplace, zpow_sub₀ (by norm_num)]
    exact div_le_div_of_nonneg_right this (by positivity)
  calc |q - nearest q| ≤ 1 / 2 * 2 ^ place q := abs_sub_nearest_le_place q
    _ ≤ 1 / 2 * (q / 2 ^ 52) := mul_le_mul_of_nonneg_left hle (by norm_num)
    _ = q / 2 ^ 53 := by ring

/-- Numbers up to one are off by next to nothing. -/
theorem abs_sub_nearest_le_of_le_one (h0 : 0 ≤ q) (h1 : q ≤ 1) : |q - nearest q| ≤ 1 / 2 ^ 53 := by
  rcases h0.eq_or_lt with rfl | hpos
  · simp [nearest, roundEven]
  have hlog : Int.log 2 q < 1 := by
    rw [← Int.lt_zpow_iff_log_lt Nat.one_lt_two hpos]
    push_cast
    linarith
  have hplace : place q ≤ -52 := by
    rw [place, abs_of_pos hpos]
    omega
  calc |q - nearest q| ≤ 1 / 2 * 2 ^ place q := abs_sub_nearest_le_place q
    _ ≤ 1 / 2 * 2 ^ (-52 : ℤ) :=
      mul_le_mul_of_nonneg_left (zpow_le_zpow_right₀ (by norm_num) hplace) (by norm_num)
    _ = 1 / 2 ^ 53 := by norm_num

/-- Numbers without a digit below the point are integers. -/
theorem exists_int_of_nearest (hn : nearest q = q) (hq : 2 ^ 53 ≤ q) : ∃ n : ℤ, q = n := by
  have hpos : 0 < q := lt_of_lt_of_le (by positivity) hq
  have hlog : 53 ≤ Int.log 2 q := by
    rw [← Int.zpow_le_iff_le_log Nat.one_lt_two hpos]
    exact_mod_cast hq
  have hplace : 0 ≤ place q := by
    rw [place, abs_of_pos hpos]
    omega
  obtain ⟨e, he⟩ := Int.eq_ofNat_of_zero_le hplace
  rw [nearest, he] at hn
  refine ⟨roundEven (q / 2 ^ (e : ℤ)) * 2 ^ e, ?_⟩
  push_cast
  exact hn.symm.trans (by rw [zpow_natCast])

/-- The nearest integer, with halves up, is small, or the number was an integer before. -/
theorem floor_half_cases (hn : nearest q = q) :
    ⌊q + 1 / 2⌋ ≤ 2 ^ 53 ∨ (⌊q + 1 / 2⌋ : ℚ) = q := by
  by_cases hlt : q < 2 ^ 53
  · left
    apply Int.le_of_lt_add_one
    rw [Int.floor_lt]
    push_cast
    linarith
  · right
    obtain ⟨n, rfl⟩ := exists_int_of_nearest hn (not_lt.mp hlt)
    have hwhole : ⌊(n : ℚ) + 1 / 2⌋ = n := by
      rw [Int.floor_intCast_add]
      norm_num
    rw [hwhole]

/-- So it needs no rounding. -/
theorem nearest_floor_half (hq : 0 ≤ q) (hn : nearest q = q) :
    nearest ⌊q + 1 / 2⌋ = ⌊q + 1 / 2⌋ := by
  have hnonneg : 0 ≤ ⌊q + 1 / 2⌋ := Int.floor_nonneg.mpr (by positivity)
  rcases floor_half_cases hn with hle | heq
  · rcases hle.eq_or_lt with heq | hsmall
    · have hcarry : ((2 ^ 53 : ℤ) : ℚ) = ((2 ^ 52 : ℤ) : ℚ) * 2 ^ (1 : ℤ) := by norm_num
      rw [heq, hcarry]
      exact nearest_of_digits (by norm_num) (by norm_num) (by norm_num)
    · have hdigits := nearest_of_digits (e := 0) hnonneg hsmall (by norm_num)
      rwa [zpow_zero, mul_one] at hdigits
  · rw [heq]
    exact hn

end Nearest

/-- Sizes from here on round to infinity. -/
def overflow : ℚ := 2 ^ 1024

/-- Numbers of 53 digits are far below the overflow. -/
theorem lt_overflow {q : ℚ} (h : q < 2 ^ 53) : q < overflow := by
  have hpow : (2 : ℚ) ^ 53 ≤ overflow := pow_le_pow_right₀ (by norm_num) (by norm_num)
  exact h.trans_le hpow

/-- The size of a finite number. -/
abbrev Magnitude := { q : ℚ // 0 ≤ q ∧ q < overflow ∧ nearest q = q }

/-- `double`. -/
inductive Double where
  | nan
  | inf (neg : Bool)
  | finite (neg : Bool) (size : Magnitude)
  deriving DecidableEq

namespace Double

/-- The double nearest to a number of this sign and size. -/
def ofRat (neg : Bool) (size : ℚ) : Double :=
  let q := nearest |size|
  if h : q < overflow then
    .finite neg ⟨q, nearest_nonneg (abs_nonneg size), h, nearest_nearest (abs_nonneg size)⟩
  else .inf neg

/-- The double nearest to an integer. -/
def ofInt (n : Int) : Double := ofRat (n < 0) n

/-- `isfinite`. -/
def isFinite : Double → Bool
  | finite _ _ => true
  | _ => false

/-- The rational a finite double stands for. -/
def toRat : Double → ℚ
  | finite neg size => if neg then -size.val else size.val
  | _ => 0

/-- `fabs`. -/
def abs : Double → Double
  | nan => nan
  | inf _ => inf false
  | finite _ size => finite false size

/-- `x < y`. -/
def lt : Double → Double → Bool
  | nan, _ | _, nan => false
  | inf a, inf b => a && !b
  | inf a, finite _ _ => a
  | finite _ _, inf b => !b
  | x@(finite _ _), y@(finite _ _) => x.toRat < y.toRat

/-- `x <= y`. -/
def le : Double → Double → Bool
  | nan, _ | _, nan => false
  | x, y => !y.lt x

/-- `x - y`. -/
def sub : Double → Double → Double
  | nan, _ | _, nan => nan
  | inf a, inf b => if a = b then nan else inf a
  | inf a, finite _ _ => inf a
  | finite _ _, inf b => inf !b
  | x@(finite a _), y@(finite b _) =>
    let q := x.toRat - y.toRat
    ofRat (if q = 0 then a && !b else q < 0) q

/-- `x / y`. -/
def div : Double → Double → Double
  | nan, _ | _, nan => nan
  | inf _, inf _ => nan
  | inf a, finite b _ => inf (a ^^ b)
  | finite a _, inf b => ofRat (a ^^ b) 0
  | finite a x, finite b y =>
    if y.val = 0 then if x.val = 0 then nan else inf (a ^^ b)
    else ofRat (a ^^ b) (x.val / y.val)

/-- `std::round`, with halves away from zero. -/
def round : Double → Double
  | finite neg size => ofRat neg ⌊size.val + 1 / 2⌋
  | x => x

/-- `value == std::floor(value)` of a finite value. -/
def isWhole : Double → Bool
  | finite _ size => size.val.den = 1
  | _ => false

/-- The integer a finite double is cut to. -/
def trunc : Double → Int
  | finite neg size => if neg then -⌊size.val⌋ else ⌊size.val⌋
  | _ => 0

/-- `llround`; where no `int64_t` holds the result it is the one x86-64 gives. -/
def llround : Double → Int
  | finite neg size =>
    let n := if neg then -⌊size.val + 1 / 2⌋ else ⌊size.val + 1 / 2⌋
    if -2 ^ 63 ≤ n ∧ n < 2 ^ 63 then n else -2 ^ 63
  | _ => -2 ^ 63

/-- The nearest integer, with halves away from zero, if there is one. -/
def rounded : Double → Option Int
  | finite neg size => some (if neg then -⌊size.val + 1 / 2⌋ else ⌊size.val + 1 / 2⌋)
  | _ => none

/-- `x == 0`. -/
def isZero : Double → Bool
  | finite _ size => size.val = 0
  | _ => false

/-- A size below the overflow threshold gives a finite double. -/
theorem ofRat_eq {neg : Bool} {q : ℚ} (hq : 0 ≤ q) (hlt : q < overflow) (hn : nearest q = q) :
    ofRat neg q = finite neg ⟨q, hq, hlt, hn⟩ := by
  simp [ofRat, abs_of_nonneg hq, hn, hlt]

/-- A natural number of 53 binary digits is a size. -/
def sizeOf (n : ℕ) (h : n < 2 ^ 53) : Magnitude :=
  ⟨n, n.cast_nonneg, lt_overflow (by exact_mod_cast h), nearest_natCast h⟩

/-- Natural numbers of 53 binary digits are doubles. -/
theorem ofRat_natCast (neg : Bool) {n : ℕ} (h : n < 2 ^ 53) :
    ofRat neg n = finite neg (sizeOf n h) :=
  ofRat_eq n.cast_nonneg (lt_overflow (by exact_mod_cast h)) (nearest_natCast h)

/-- So are they as integers. -/
theorem ofInt_natCast {n : ℕ} (h : n < 2 ^ 53) : ofInt n = finite false (sizeOf n h) := by
  rw [← ofRat_natCast, ofInt, Int.cast_natCast, decide_eq_false (by omega)]

/-- An integer of 53 binary digits is a double. -/
theorem ofInt_eq {n : ℤ} (h : n.natAbs < 2 ^ 53) :
    ofInt n = finite (n < 0) (sizeOf n.natAbs h) := by
  rw [← ofRat_natCast]
  simp [ofInt, ofRat]

/-- Its value is the integer. -/
theorem toRat_ofInt {n : ℤ} (h : n.natAbs < 2 ^ 53) : (ofInt n).toRat = n := by
  have habs : (n.natAbs : ℚ) = |(n : ℚ)| := by simp
  rw [ofInt_eq h]
  simp only [toRat, sizeOf, decide_eq_true_eq, habs]
  split
  · next hn => rw [abs_of_neg (by exact_mod_cast hn), neg_neg]
  · next hn => rw [abs_of_nonneg (by exact_mod_cast not_lt.mp hn)]

/-- It is its own nearest integer. -/
theorem rounded_ofInt {n : ℤ} (h : n.natAbs < 2 ^ 53) : (ofInt n).rounded = some n := by
  have hfloor : ⌊((n.natAbs : ℕ) : ℚ) + 1 / 2⌋ = (n.natAbs : ℤ) := by
    rw [Int.floor_natCast_add]
    norm_num
  rw [ofInt_eq h]
  simp only [rounded, sizeOf, hfloor, decide_eq_true_eq, Option.some.injEq]
  split
  · omega
  · omega

/-- `round` gives the nearest integer. -/
theorem trunc_round {x : Double} {n : ℤ} (h : x.rounded = some n) :
    x.round.isFinite ∧ x.round.trunc = n := by
  cases x with
  | nan => cases h
  | inf neg => cases h
  | finite neg size =>
    obtain ⟨q, hq, hlt, hn⟩ := size
    have hnonneg : (0 : ℚ) ≤ ⌊q + 1 / 2⌋ :=
      Int.cast_nonneg (Int.floor_nonneg.mpr (by positivity))
    have hfinite : (⌊q + 1 / 2⌋ : ℚ) < overflow := by
      rcases floor_half_cases hn with hle | heq
      · have hsmall : (⌊q + 1 / 2⌋ : ℚ) ≤ ((2 ^ 53 : ℤ) : ℚ) := Int.cast_le.mpr hle
        have hpow : ((2 ^ 53 : ℤ) : ℚ) < overflow := by
          have hlt : (2 : ℚ) ^ 53 < 2 ^ 1024 := pow_lt_pow_right₀ (by norm_num) (by norm_num)
          rw [Int.cast_pow, Int.cast_ofNat]
          exact hlt
        exact hsmall.trans_lt hpow
      · rw [heq]
        exact hlt
    rw [round, ofRat_eq hnonneg hfinite (nearest_floor_half hq hn)]
    refine ⟨rfl, ?_⟩
    cases h
    rw [trunc, Int.floor_intCast]

/-- What `llround` gives: the nearest integer where an `int64_t` holds it. -/
theorem llround_eq (x : Double) :
    x.llround =
      match x.rounded with
      | some n => if -2 ^ 63 ≤ n ∧ n < 2 ^ 63 then n else -2 ^ 63
      | none => -2 ^ 63 := by
  cases x <;> rfl

/-- As doubles, integers are in their order. -/
theorem ofInt_le {m n : ℤ} (hm : m.natAbs < 2 ^ 53) (hn : n.natAbs < 2 ^ 53) :
    (ofInt m).le (ofInt n) = decide (m ≤ n) := by
  have hmr := toRat_ofInt hm
  have hnr := toRat_ofInt hn
  rw [ofInt_eq hm] at *
  rw [ofInt_eq hn] at *
  simp only [le, lt, hmr, hnr, Int.cast_lt]
  simp only [← not_le, decide_not, Bool.not_not]

/-- A size without its sign. -/
@[simp] theorem abs_ofRat (neg : Bool) (q : ℚ) : (ofRat neg q).abs = ofRat false q := by
  simp only [ofRat]
  split <;> rfl

/-- Doubles from zero up are in the order of what they are rounded to. -/
theorem ofRat_lt (q r : ℚ) :
    (ofRat false q).lt (ofRat false r) ↔ nearest |q| < nearest |r| ∧ nearest |q| < overflow := by
  simp only [ofRat]
  by_cases hq : nearest |q| < overflow
  · by_cases hr : nearest |r| < overflow
    · simp [hq, hr, lt, toRat]
    · have hlt := hq.trans_le (not_lt.mp hr)
      simp [hq, hr, hlt, lt]
  · by_cases hr : nearest |r| < overflow <;> simp [hq, hr, lt]

/-- The difference of two numbers is rounded once. -/
theorem abs_sub_finite (a b : Bool) (x y : Magnitude) :
    ((finite a x).sub (finite b y)).abs = ofRat false ((finite a x).toRat - (finite b y).toRat) :=
  abs_ofRat _ _

end Double
end WebLinked.Base
