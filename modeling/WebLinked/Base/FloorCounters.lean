import Mathlib.Algebra.Order.Group.Unbundled.Abs
import Mathlib.Algebra.Order.Ring.Int
import Mathlib.Data.Rat.Floor
import Mathlib.Tactic.Linarith
import Mathlib.Tactic.Ring

/-!
# Counters that advance by whole shares of one ratio

Of a ratio `c / d`, position `x` has the whole share `⌊x * c / d⌋`, and a counter that follows the
positions goes up by the difference of two shares. Two counters that follow different positions
drift apart by the remainders only; `balance` is their difference with the remainders added back,
which a common step leaves alone and a step of one position changes by less than one unit. `Near`
adds this up over any number of steps.
-/

namespace WebLinked.Base.FloorCounters

variable (c d : Int)

/-- The whole share of a position. -/
def share (x : Int) : Int := x * c / d

/-- What the whole share leaves over. -/
def rest (x : Int) : Int := x * c % d

/-- A counter `a` for the positions `t` against the share of `n`, in units of `1 / d`. -/
def balance (t n a : Int) : Int := d * (a - share c d n) + rest c d t - rest c d n

variable {c d} {t n a t' n' : Int}

theorem mul_share (x : Int) : d * share c d x = x * c - rest c d x := by
  have h := Int.mul_ediv_add_emod (x * c) d
  rw [share, rest]
  omega

theorem rest_mem (h : 0 < d) (x : Int) : 0 ≤ rest c d x ∧ rest c d x < d :=
  ⟨Int.emod_nonneg _ h.ne', Int.emod_lt_of_pos _ h⟩

/-- A share of the same ratio, written otherwise. -/
theorem share_congr {c' d' : Int} (h : 0 < d) (h' : 0 < d') (hcross : c * d' = c' * d) (x : Int) :
    share c d x = share c' d' x := by
  rw [share, share, ← Int.mul_ediv_mul_of_pos_left (x * c) d h',
    ← Int.mul_ediv_mul_of_pos_left (x * c') d' h, Int.mul_assoc, hcross, Int.mul_comm d d',
    Int.mul_assoc]

/-- Integer division rounds the exact quotient down. -/
theorem ediv_eq_floor {a b : Int} (hb : 0 < b) : a / b = ⌊(a / b : ℚ)⌋ := by
  have hcast : (b : ℚ) = (b.toNat : ℚ) := by
    rw [← Int.cast_natCast, Int.toNat_of_nonneg hb.le]
  rw [hcast, Rat.floor_intCast_div_natCast, Int.toNat_of_nonneg hb.le]

/-- The whole share as a rounded multiple of the ratio. -/
theorem share_eq_floor (h : 0 < d) (x : Int) : share c d x = ⌊(x * (c / d) : ℚ)⌋ := by
  rw [share, ediv_eq_floor h]
  push_cast
  rw [mul_div_assoc]

/-- One step of a rounded multiple is the ratio rounded down or up. -/
theorem floor_step (x : ℚ) (k : Int) :
    ⌊(k + 1) * x⌋ - ⌊k * x⌋ = ⌊x⌋ ∨ ⌊(k + 1) * x⌋ - ⌊k * x⌋ = ⌈x⌉ := by
  have hlow : ⌊(k : ℚ) * x⌋ + ⌊x⌋ ≤ ⌊(k + 1) * x⌋ := by
    rw [add_mul, one_mul]
    exact Int.le_floor_add _ _
  have hhigh : ⌊(k + 1) * x⌋ ≤ ⌊(k : ℚ) * x⌋ + ⌈x⌉ := by
    rw [← Int.floor_add_intCast]
    apply Int.floor_le_floor
    rw [add_mul, one_mul]
    exact add_le_add le_rfl (Int.le_ceil x)
  have hnear := Int.ceil_le_floor_add_one x
  omega

/-- Over any stretch a rounded multiple is less than one from the exact one. -/
theorem abs_floor_sub_lt (x y : ℚ) : |((⌊y⌋ - ⌊x⌋ : Int) : ℚ) - (y - x)| < 1 := by
  have hx := Int.floor_le x
  have hx' := Int.lt_floor_add_one x
  have hy := Int.floor_le y
  have hy' := Int.lt_floor_add_one y
  push_cast
  rw [abs_lt]
  constructor
  · linarith
  · linarith

/-- One step's share, where the ratio is at most `k`. -/
theorem share_step (h : 0 < d) (hc : 0 ≤ c) {k : Int} (hk : c ≤ k * d) (x : Int) :
    0 ≤ share c d (x + 1) - share c d x ∧ share c d (x + 1) - share c d x ≤ k := by
  have hlow : x * c / d ≤ (x * c + c) / d := Int.ediv_le_ediv h (by omega)
  have hhigh : (x * c + c) / d ≤ (x * c + k * d) / d := Int.ediv_le_ediv h (by omega)
  rw [Int.add_mul_ediv_right _ _ h.ne'] at hhigh
  rw [share, share, Int.add_mul, Int.one_mul]
  omega

/-- If `n` steps from zero amount to `k` each at most, then so does each of them. -/
theorem share_step_of_total (h : 0 < d) (hc : 0 ≤ c) {k n x : Int} (hx : 0 ≤ x) (hn : x < n)
    (htotal : share c d n ≤ k * n) : share c d (x + 1) - share c d x ≤ k := by
  by_cases hk : c ≤ k * d
  · exact (share_step h hc hk x).2
  -- Every step is at least `k`, and so none is more.
  · have hpast : k * x ≤ share c d x := by
      rw [share, Int.le_ediv_iff_mul_le h, Int.mul_right_comm, Int.mul_comm x]
      exact Int.mul_le_mul_of_nonneg_right (by omega) hx
    have hrest : share c d (x + 1) + (n - (x + 1)) * k ≤ share c d n := by
      rw [share, share, ← Int.add_mul_ediv_right _ _ h.ne']
      apply Int.ediv_le_ediv h
      have hle : (n - (x + 1)) * (k * d) ≤ (n - (x + 1)) * c :=
        Int.mul_le_mul_of_nonneg_left (by omega) (by omega)
      rw [Int.sub_mul _ _ c] at hle
      rw [Int.mul_assoc]
      omega
    have hsplit : (n - (x + 1)) * k = k * n - (k * x + k) := by ring
    omega

/-- A step of both positions, with the share of the first. -/
theorem balance_advance (t n a : Int) :
    balance c d (t + 1) (n + 1) (a + (share c d (t + 1) - share c d t)) = balance c d t n a := by
  have ht := mul_share (c := c) (d := d) t
  have ht' := mul_share (c := c) (d := d) (t + 1)
  have hn := mul_share (c := c) (d := d) n
  have hn' := mul_share (c := c) (d := d) (n + 1)
  simp only [balance, Int.mul_sub, Int.mul_add]
  rw [Int.add_mul, Int.one_mul] at ht' hn'
  omega

/-- A jump of the first position alone. -/
theorem abs_balance_gap (h : 0 < d) (t t' n a : Int) :
    |balance c d t' n a - balance c d t n a| < d := by
  have ht := rest_mem (c := c) h t
  have ht' := rest_mem (c := c) h t'
  rw [abs_lt, balance, balance]
  omega

/-- A jump of the second position, with its share. -/
theorem abs_balance_jump (h : 0 < d) (t n n' a : Int) :
    |balance c d t n' (a + (share c d n' - share c d n)) - balance c d t n a| < d := by
  have hn := rest_mem (c := c) h n
  have hn' := rest_mem (c := c) h n'
  simp only [balance, Int.mul_sub, Int.mul_add]
  rw [abs_lt]
  omega

/-- The difference of the counters is their balance, to less than one unit. -/
theorem abs_offset_sub_balance (h : 0 < d) (t n a : Int) :
    |d * (a - share c d n) - balance c d t n a| < d := by
  have ht := rest_mem (c := c) h t
  have hn := rest_mem (c := c) h n
  rw [abs_lt, balance]
  omega

/-- Counters whose balance moved by `k` units at most moved by less than `k + 2`. -/
theorem abs_offset_lt (h : 0 < d) {k a' : Int}
    (hk : |balance c d t' n' a' - balance c d t n a| ≤ d * k) :
    |(a' - share c d n') - (a - share c d n)| < k + 2 := by
  have h1 := abs_lt.mp (abs_offset_sub_balance (c := c) h t n a)
  have h2 := abs_lt.mp (abs_offset_sub_balance (c := c) h t' n' a')
  have h3 := abs_le.mp hk
  have hsplit : d * ((a' - share c d n') - (a - share c d n)) =
      d * (a' - share c d n') - d * (a - share c d n) := Int.mul_sub _ _ _
  have hbound : d * (k + 2) = d * k + d + d := by ring
  rw [abs_lt]
  constructor
  · apply Int.lt_of_mul_lt_mul_left _ h.le
    rw [Int.mul_neg, hsplit, hbound]
    omega
  · apply Int.lt_of_mul_lt_mul_left _ h.le
    rw [hsplit, hbound]
    omega

/-- Two positions, the counter that follows the first, and how many steps only one of the
positions has taken. -/
structure Mark where
  first : Int
  second : Int
  counter : Int
  slips : Int
  deriving DecidableEq, Repr

/-- The balance moved by no more than the slips allow. -/
def Near (c d : Int) (m' m : Mark) : Prop :=
  |balance c d m'.first m'.second m'.counter - balance c d m.first m.second m.counter| ≤
    d * (m'.slips - m.slips)

variable {m m' m'' : Mark}

theorem Near.refl (m : Mark) : Near c d m m := by
  rw [Near, Int.sub_self, Int.sub_self, Int.mul_zero, abs_zero]

theorem Near.trans (h' : Near c d m'' m') (h : Near c d m' m) : Near c d m'' m := by
  refine (abs_sub_le _ (balance c d m'.first m'.second m'.counter) _).trans ?_
  refine (add_le_add h' h).trans (le_of_eq ?_)
  ring

/-- Both positions take a step. -/
theorem near_advance (m : Mark) :
    Near c d
      { m with
        first := m.first + 1
        second := m.second + 1
        counter := m.counter + (share c d (m.first + 1) - share c d m.first) } m := by
  rw [Near]
  dsimp only
  rw [balance_advance, Int.sub_self, Int.sub_self, Int.mul_zero, abs_zero]

/-- The first position takes some steps alone. -/
theorem near_gap (h : 0 < d) (m : Mark) {k : Int} (hk : 0 ≤ k) :
    Near c d { m with first := m.first + k, slips := m.slips + k } m := by
  rcases hk.eq_or_lt with rfl | hpos
  · rw [Int.add_zero, Int.add_zero]
    exact .refl m
  · refine (abs_balance_gap h m.first _ m.second m.counter).le.trans ?_
    dsimp only
    rw [show m.slips + k - m.slips = k by omega]
    exact le_mul_of_one_le_right h.le hpos

/-- The second position jumps, and the counter goes up by what it skipped. -/
theorem near_jump (h : 0 < d) (m : Mark) (second : Int) :
    Near c d
      { m with
        second
        counter := m.counter + (share c d second - share c d m.second)
        slips := m.slips + 1 } m := by
  refine (abs_balance_jump h m.first m.second second m.counter).le.trans ?_
  dsimp only
  rw [show m.slips + 1 - m.slips = 1 by omega, Int.mul_one]

/-- Slips are only counted up. -/
theorem Near.slips_le (hn : Near c d m' m) (h : 0 < d) : m.slips ≤ m'.slips := by
  have hnonneg : 0 ≤ d * (m'.slips - m.slips) := (abs_nonneg _).trans hn
  exact Int.sub_nonneg.mp (nonneg_of_mul_nonneg_right hnonneg h)

/-- So the counter and the share of the second position stay together, but for the slips. -/
theorem Near.abs_offset_lt (hn : Near c d m' m) (h : 0 < d) :
    |(m'.counter - share c d m'.second) - (m.counter - share c d m.second)| <
      m'.slips - m.slips + 2 :=
  FloorCounters.abs_offset_lt h hn

end WebLinked.Base.FloorCounters
