import Mathlib
import WebLinked.Engine.AudioTick

/-!
# What the ticks' shares of the audio add up to

`src/engine/engine.cpp:262–277`. Each share is the difference of two exact positions, and so
the shares of any stretch of ticks add up to the difference of its ends. The difference is
narrowed to an `int` at the end, which a rate of one frame in half a day no longer fits.
-/

namespace WebLinked.Engine

open WebLinked.Base WebLinked.Core Finset

/-- The exact share of one tick. -/
def exactShare (rate : FrameRate) (sampleRate : Int) : ℚ :=
  sampleRate * rate.denominator / rate.numerator

/-- The shares of the first `n` ticks lose nothing: they add up to the whole samples of all
`n`, each is the exact share rounded down or up, and over any stretch they are less than a
sample from exact. -/
structure LosesNothing (rate : FrameRate) (sampleRate : Int) (n : Nat) (share : Nat → Int) :
    Prop where
  returned : ∀ tick < n, audioFramesForTick rate sampleRate tick = some (share tick)
  total : ∑ tick ∈ range n, share tick = ⌊n * exactShare rate sampleRate⌋
  each : ∀ tick < n, share tick = ⌊exactShare rate sampleRate⌋ ∨
    share tick = ⌈exactShare rate sampleRate⌉
  stretch : ∀ a b, a ≤ b → b ≤ n →
    |((∑ tick ∈ Ico a b, share tick : Int) : ℚ) - (b - a) * exactShare rate sampleRate| < 1

section

variable {rate : FrameRate} {sampleRate : Int} {n : Nat}

/-- The whole samples of the first `tick` ticks. -/
private theorem share_eq_exact (hnum : 0 < rate.numerator) (tick : Int) :
    FloorCounters.share (sampleRate * rate.denominator) rate.numerator tick =
      ⌊tick * exactShare rate sampleRate⌋ := by
  rw [FloorCounters.share_eq_floor hnum, exactShare]
  push_cast
  rfl

/-- Where the later position does not overflow a tick's share is defined, and is narrowed. -/
theorem audioFramesForTick_eq_bmod (hr : 0 < sampleRate) (hnum : 0 < rate.numerator)
    (hden : 0 < rate.denominator) (tick : Int) (ht : 0 ≤ tick)
    (hfits : (tick + 1) * (sampleRate * rate.denominator) < 2 ^ 63) :
    audioFramesForTick rate sampleRate tick =
      some ((FloorCounters.share (sampleRate * rate.denominator) rate.numerator (tick + 1) -
        FloorCounters.share (sampleRate * rate.denominator) rate.numerator tick).bmod
          4294967296) := by
  have hc : 0 < sampleRate * rate.denominator := Int.mul_pos hr hden
  have hfirst : 0 ≤ tick * (sampleRate * rate.denominator) := Int.mul_nonneg ht hc.le
  have hstep : (tick + 1) * (sampleRate * rate.denominator) =
      tick * (sampleRate * rate.denominator) + sampleRate * rate.denominator := by
    rw [Int.add_mul, Int.one_mul]
  have hcount : tick + 1 ≤ (tick + 1) * (sampleRate * rate.denominator) :=
    le_mul_of_one_le_right (by omega) hc
  have hstart : 0 ≤ FloorCounters.share (sampleRate * rate.denominator) rate.numerator tick :=
    Int.ediv_nonneg hfirst hnum.le
  have hend : FloorCounters.share (sampleRate * rate.denominator) rate.numerator (tick + 1) ≤
      (tick + 1) * (sampleRate * rate.denominator) := by
    apply Int.ediv_le_self
    omega
  have hgrows := (FloorCounters.share_step hnum hc.le
    (k := sampleRate * rate.denominator) (le_mul_of_one_le_right hc.le hnum) tick).1
  rw [audioFramesForTick, if_neg (by omega), if_neg (by omega)]
  simp only [bind, Option.bind_eq_some_iff, mul64_eq_some_iff, add64_eq_some_iff,
    sub64_eq_some_iff]
  have hin : InInt64 (tick * sampleRate * rate.denominator) := by
    rw [Int.mul_assoc]
    exact ⟨by omega, by omega⟩
  have hnext : InInt64 ((tick + 1) * sampleRate * rate.denominator) := by
    rw [Int.mul_assoc]
    exact ⟨by omega, by omega⟩
  refine ⟨_, ⟨hin.of_mul hden, rfl⟩, _, ⟨hin, rfl⟩, _, div64_of_pos hin hnum,
    _, ⟨⟨by omega, by omega⟩, rfl⟩, _, ⟨hnext.of_mul hden, rfl⟩, _, ⟨hnext, rfl⟩,
    _, div64_of_pos hnext hnum, ?_⟩
  rw [Int.mul_assoc, Int.mul_assoc, Int.tdiv_eq_ediv_of_nonneg hfirst,
    Int.tdiv_eq_ediv_of_nonneg (by omega)]
  exact ⟨_, ⟨⟨by unfold FloorCounters.share at hgrows hstart; omega,
    by unfold FloorCounters.share at hend hstart; omega⟩, rfl⟩, rfl⟩

/-- What is returned is never more than an `int` holds, and so neither is what it adds up to. -/
private theorem sum_le_of_returned {share : Nat → Int}
    (h : ∀ tick < n, ∃ frames : Int, share tick = frames.bmod 4294967296) :
    ∑ tick ∈ range n, share tick ≤ 2147483647 * n := by
  have hle : ∀ tick ∈ range n, share tick ≤ 2147483647 := by
    intro tick htick
    obtain ⟨frames, hframes⟩ := h tick (mem_range.mp htick)
    have hlt := Int.bmod_lt (x := frames) (m := 4294967296) (by decide)
    rw [hframes]
    omega
  have hsum := sum_le_card_nsmul (range n) share 2147483647 hle
  rw [card_range, nsmul_eq_mul, Int.mul_comm] at hsum
  exact hsum

/-- The whole samples of `n` ticks are no more than `k` each, as a condition on the rate. -/
private theorem share_le_iff (hnum : 0 < rate.numerator) (k : Int) :
    FloorCounters.share (sampleRate * rate.denominator) rate.numerator n ≤ k * n ↔
      n * sampleRate * rate.denominator < (k * n + 1) * rate.numerator := by
  rw [FloorCounters.share, ← Int.lt_add_one_iff, Int.ediv_lt_iff_lt_mul hnum, Int.mul_assoc]

/-- The shares of the first `n` ticks lose nothing if and only if the whole samples of the
`n` ticks are at most `n` times the largest `int`. -/
theorem losesNothing_iff (hr : 0 < sampleRate) (hnum : 0 < rate.numerator)
    (hden : 0 < rate.denominator) (hfits : n * sampleRate * rate.denominator < 2 ^ 63) :
    (∃ share, LosesNothing rate sampleRate n share) ↔
      n * sampleRate * rate.denominator < (2147483647 * n + 1) * rate.numerator := by
  have hc : 0 < sampleRate * rate.denominator := Int.mul_pos hr hden
  have hreturns (tick : Nat) (htick : tick < n) := by
    refine audioFramesForTick_eq_bmod hr hnum hden tick (by omega) ?_
    have hle : (tick + 1 : Int) * (sampleRate * rate.denominator) ≤
        n * (sampleRate * rate.denominator) :=
      Int.mul_le_mul_of_nonneg_right (by omega) hc.le
    rw [← Int.mul_assoc (n : Int)] at hle
    omega
  rw [← share_le_iff hnum]
  constructor
  · rintro ⟨share, hshare⟩
    rw [share_eq_exact hnum, Int.cast_natCast, ← hshare.total]
    apply sum_le_of_returned
    intro tick htick
    have hsome := hshare.returned tick htick
    rw [hreturns tick htick] at hsome
    exact ⟨_, (Option.some.inj hsome).symm⟩
  · intro htotal
    have hsum (a b : Nat) (hab : a ≤ b) :
        ∑ tick ∈ Ico a b, (⌊(tick + 1 : ℚ) * exactShare rate sampleRate⌋ -
          ⌊tick * exactShare rate sampleRate⌋) =
          ⌊b * exactShare rate sampleRate⌋ - ⌊a * exactShare rate sampleRate⌋ := by
      have htelescope := sum_Ico_sub (f := fun k : Nat ↦ ⌊k * exactShare rate sampleRate⌋) hab
      push_cast at htelescope
      exact htelescope
    refine ⟨fun tick ↦ ⌊(tick + 1 : ℚ) * exactShare rate sampleRate⌋ -
      ⌊tick * exactShare rate sampleRate⌋, ?_, ?_, ?_, ?_⟩
    · intro tick htick
      have hlow := FloorCounters.share_step hnum hc.le
        (k := sampleRate * rate.denominator) (le_mul_of_one_le_right hc.le hnum) tick
      have hhigh := FloorCounters.share_step_of_total hnum hc.le (x := tick) (by omega)
        (by omega) htotal
      rw [hreturns tick htick, Int.bmod_eq_of_le (by omega) (by omega), share_eq_exact hnum,
        share_eq_exact hnum]
      push_cast
      rfl
    · rw [range_eq_Ico, hsum 0 n n.zero_le, Nat.cast_zero, zero_mul, Int.floor_zero, Int.sub_zero]
    · intro tick _
      have hstep := FloorCounters.floor_step (exactShare rate sampleRate) tick
      rw [Int.cast_natCast] at hstep
      exact hstep
    · intro a b hab _
      rw [hsum a b hab, sub_mul]
      exact FloorCounters.abs_floor_sub_lt _ _

/-- At 59.94 a tick has 800 samples or 801. -/
theorem losesNothing_60000_1001 : ∃ share, LosesNothing ⟨60000, 1001⟩ 48000 5 share :=
  (losesNothing_iff (by decide) (by decide) (by decide) (by decide)).mpr (by decide)

/-- At a frame in 50000 seconds the first share is more than an `int` holds. -/
theorem not_losesNothing :
    ¬ ∀ (rate : FrameRate) (sampleRate : Int) (n : Nat), 0 < sampleRate → 0 < rate.numerator →
      0 < rate.denominator → n * sampleRate * rate.denominator < 2 ^ 63 →
        ∃ share, LosesNothing rate sampleRate n share := by
  intro h
  obtain ⟨share, hshare⟩ := h ⟨1, 50000⟩ 48000 1 (by decide) (by decide) (by decide) (by decide)
  have hreturned := hshare.returned 0 Nat.one_pos
  have hnegative : audioFramesForTick ⟨1, 50000⟩ 48000 (0 : Nat) = some (-1894967296) := by decide
  have htotal := hshare.total
  rw [sum_range_one, ← Option.some.inj (hnegative.symm.trans hreturned)] at htotal
  have hpositive : 0 ≤ ⌊((1 : Nat) : ℚ) * exactShare ⟨1, 50000⟩ 48000⌋ := by
    apply Int.floor_nonneg.mpr
    norm_num [exactShare]
  omega

end

end WebLinked.Engine
