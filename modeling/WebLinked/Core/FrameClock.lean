import WebLinked.Base.FloorCounters
import WebLinked.Base.Int64
import WebLinked.Core.VideoFormat

/-!
# Tick deadlines

`src/core/frame_clock.cpp`. Each deadline is computed from tick zero as a rational
multiple of the frame period, rounded down once, so that nothing accumulates. The product
is formed before the division, and its range bounds the ticks this is exact for.
-/

namespace WebLinked.Core.FrameClock

open WebLinked.Base

/-- `kNanosPerSecond`; `src/core/frame_clock.cpp:12`. -/
def kNanosPerSecond : Int := 1000000000

/-- `FrameClock::deadlineNanosForTick`, none where an `int64_t` overflows;
`src/core/frame_clock.cpp:56–62`. -/
def deadlineNanosForTick (rate : FrameRate) (tick : Int) : Option Int :=
  if rate.numerator ≤ 0 then some 0 else do
    let nanos ← mul64 tick kNanosPerSecond
    let scaled ← mul64 nanos rate.denominator
    div64 scaled rate.numerator

/-- The deadline in exact arithmetic: `tick` periods, rounded down to a nanosecond. -/
def exactDeadline (rate : FrameRate) (tick : Int) : Int :=
  ⌊(tick * 1000000000 * rate.denominator / rate.numerator : ℚ)⌋

/-- The scaled tick fits, and below zero, where division truncates the other way, the
deadline is a whole number. -/
def ProductFits (rate : FrameRate) (tick : Int) : Prop :=
  InInt64 (tick * 1000000000 * rate.denominator) ∧
    (0 ≤ tick ∨ rate.numerator ∣ tick * 1000000000 * rate.denominator)

section

variable {rate : FrameRate}

/-- The exact deadline as an integer division. -/
theorem exactDeadline_eq (hnum : 0 < rate.numerator) (tick : Int) :
    exactDeadline rate tick = tick * 1000000000 * rate.denominator / rate.numerator := by
  rw [exactDeadline, FloorCounters.ediv_eq_floor hnum]
  push_cast
  rfl

/-- The code's deadline, wherever it has one, is the product divided towards zero. -/
theorem deadlineNanosForTick_eq_some_iff (hnum : 0 < rate.numerator)
    (hden : 0 < rate.denominator) {tick d : Int} :
    deadlineNanosForTick rate tick = some d ↔
      InInt64 (tick * 1000000000 * rate.denominator) ∧
        d = (tick * 1000000000 * rate.denominator).tdiv rate.numerator := by
  rw [deadlineNanosForTick, if_neg (by omega)]
  simp only [kNanosPerSecond, bind, Option.bind_eq_some_iff, mul64_eq_some_iff]
  constructor
  · rintro ⟨_, ⟨-, rfl⟩, _, ⟨hfits, rfl⟩, hd⟩
    rw [div64_of_pos hfits hnum] at hd
    exact ⟨hfits, (Option.some.inj hd).symm⟩
  · rintro ⟨hfits, rfl⟩
    exact ⟨_, ⟨hfits.of_mul hden, rfl⟩, _, ⟨hfits, rfl⟩, div64_of_pos hfits hnum⟩

/-- Rounding towards zero is rounding down from zero on, and on whole results. -/
private theorem tdiv_eq_ediv_iff {a b : Int} (hb : 0 < b) :
    a.tdiv b = a / b ↔ 0 ≤ a ∨ b ∣ a := by
  rw [Int.tdiv_eq_ediv]
  split
  · next h => simp [h]
  · next h =>
    have hsign : b.sign = 1 := Int.sign_eq_one_of_pos hb
    rw [hsign]
    constructor
    · intro heq
      omega
    · exact fun h' ↦ absurd h' h

/-- A tick's deadline is exact where the product fits, and only there. -/
theorem deadline_exact_iff_productFits (hnum : 0 < rate.numerator)
    (hden : 0 < rate.denominator) (tick : Int) :
    deadlineNanosForTick rate tick = some (exactDeadline rate tick) ↔
      ProductFits rate tick := by
  have hsign : 0 ≤ tick ↔ 0 ≤ tick * 1000000000 * rate.denominator := by
    rw [mul_nonneg_iff_of_pos_right hden, mul_nonneg_iff_of_pos_right (by decide)]
  rw [deadlineNanosForTick_eq_some_iff hnum hden, exactDeadline_eq hnum, eq_comm,
    tdiv_eq_ediv_iff hnum, ProductFits, hsign]

/-- Exact deadlines never go back. -/
theorem exactDeadline_mono (hnum : 0 < rate.numerator) (hden : 0 < rate.denominator)
    {a b : Int} (h : a ≤ b) : exactDeadline rate a ≤ exactDeadline rate b := by
  rw [exactDeadline_eq hnum, exactDeadline_eq hnum]
  apply Int.ediv_le_ediv hnum
  exact Int.mul_le_mul_of_nonneg_right
    (Int.mul_le_mul_of_nonneg_right h (by decide)) hden.le

/-- Exact deadlines a period of at least a nanosecond apart differ. -/
theorem exactDeadline_strictMono (hnum : 0 < rate.numerator) (hden : 0 < rate.denominator)
    (hperiod : 1 ≤ exactDeadline rate 1) {a b : Int} (h : a < b) :
    exactDeadline rate a < exactDeadline rate b := by
  refine lt_of_lt_of_le ?_ (exactDeadline_mono hnum hden (show a + 1 ≤ b from h))
  rw [exactDeadline_eq hnum] at hperiod ⊢
  rw [exactDeadline_eq hnum]
  have hone : rate.numerator ≤ 1 * 1000000000 * rate.denominator := by
    have := (Int.le_ediv_iff_mul_le hnum).mp hperiod
    omega
  have hnext : a * 1000000000 * rate.denominator + 1 * rate.numerator ≤
      (a + 1) * 1000000000 * rate.denominator := by
    rw [add_mul, add_mul]
    omega
  have hle := Int.ediv_le_ediv hnum hnext
  rw [Int.add_mul_ediv_right _ _ hnum.ne'] at hle
  omega

/-- At every positive rate a tick's deadline is the exact one, with nothing overflowing on
the way, if and only if its product fits; over such ticks the deadlines never go back, and
grow strictly if the period is at least a nanosecond. -/
theorem deadline_exact_iff (hnum : 0 < rate.numerator) (hden : 0 < rate.denominator) :
    (∀ tick, deadlineNanosForTick rate tick = some (exactDeadline rate tick) ↔
      ProductFits rate tick) ∧
    ∀ a b, ProductFits rate a → ProductFits rate b → a ≤ b →
      ∃ da db, deadlineNanosForTick rate a = some da ∧ deadlineNanosForTick rate b = some db ∧
        da ≤ db ∧ (1 ≤ exactDeadline rate 1 → a < b → da < db) := by
  refine ⟨deadline_exact_iff_productFits hnum hden, fun a b ha hb hab ↦ ?_⟩
  exact ⟨_, _, (deadline_exact_iff_productFits hnum hden a).mpr ha,
    (deadline_exact_iff_productFits hnum hden b).mpr hb, exactDeadline_mono hnum hden hab,
    fun hperiod ↦ exactDeadline_strictMono hnum hden hperiod⟩

end

/-- At 60000/1001 the first 9214158 ticks are exact, which takes under 43 hours. -/
theorem deadline_exact_60000_1001 :
    deadlineNanosForTick ⟨60000, 1001⟩ 9214157 = some (exactDeadline ⟨60000, 1001⟩ 9214157) :=
  ((deadline_exact_iff (by decide) (by decide)).1 _).mpr ⟨by decide, Or.inl (by decide)⟩

/-- The next tick overflows, though its deadline would fit. -/
theorem not_deadline_exact :
    ¬ ∀ rate ∈ kFractional, ∀ tick, 0 ≤ tick → InInt64 (exactDeadline rate tick) →
        deadlineNanosForTick rate tick = some (exactDeadline rate tick) := by
  intro h
  have hfits : InInt64 (exactDeadline ⟨60000, 1001⟩ 9214158) := by
    rw [exactDeadline_eq (by decide)]
    decide
  have hsome := h ⟨60000, 1001⟩ (by decide) 9214158 (by decide) hfits
  have hnone : deadlineNanosForTick ⟨60000, 1001⟩ 9214158 = none := by decide
  rw [hnone] at hsome
  cases hsome

end WebLinked.Core.FrameClock
