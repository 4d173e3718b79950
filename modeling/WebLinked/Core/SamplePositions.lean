import Mathlib
import WebLinked.Base.FloorCounters
import WebLinked.Core.PlayoutSchedule

/-!
# Where a frame's sound starts

`src/core/playout_schedule.cpp:38–47`. The position is computed from the whole seconds and
the rest of a second apart, so that what is multiplied by the sample rate stays small. Every
division rounds towards zero.
-/

namespace WebLinked.Core.PlayoutSchedule

open WebLinked.Base Finset

variable (s : PlayoutSchedule) (sampleRate : Int)

/-- The samples before frame `index`, rounded towards zero. -/
def exactPosition (index : Int) : Int :=
  (index * s.frameDuration * sampleRate).tdiv s.timeScale

/-- The display time of frame `index` and its sample fit an `int64_t`. -/
structure Fits (index : Int) : Prop where
  time : InInt64 (index * s.frameDuration)
  position : InInt64 (s.exactPosition sampleRate index)

/-- `samplePosition` is exact with nothing overflowing on the way, and for a rate that is not
negative it rounds down; later frames never start earlier, and the samples between frames
one after another add up. -/
structure PositionsExact : Prop where
  returned : ∀ index, 0 ≤ index → s.Fits sampleRate index →
    s.samplePosition index sampleRate = some (s.exactPosition sampleRate index)
  floor : 0 ≤ sampleRate → ∀ index, 0 ≤ index →
    s.exactPosition sampleRate index = ⌊(index * s.frameDuration * sampleRate / s.timeScale : ℚ)⌋
  mono : 0 ≤ sampleRate → ∀ i j, 0 ≤ i → i ≤ j → s.Fits sampleRate j →
    ∃ a b, s.samplePosition i sampleRate = some a ∧ s.samplePosition j sampleRate = some b ∧
      a ≤ b
  spans : ∀ (frame : Nat → Int) (n : Nat), 0 ≤ frame 0 → (∀ m < n, frame m ≤ frame (m + 1)) →
    s.Fits sampleRate (frame n) → ∃ position : Nat → Int,
      (∀ m ≤ n, s.samplePosition (frame m) sampleRate = some (position m)) ∧
      (∀ m < n, InInt64 (position (m + 1) - position m)) ∧
      ∑ m ∈ range n, (position (m + 1) - position m) = position n - position 0

section

variable {s sampleRate}

/-- The position of a frame at a rate of the other sign. -/
theorem exactPosition_neg (index : Int) :
    s.exactPosition (-sampleRate) index = -s.exactPosition sampleRate index := by
  rw [exactPosition, Int.mul_neg, Int.neg_tdiv, exactPosition]

theorem exactPosition_nonneg (hr : 0 ≤ sampleRate) {index : Int} (hi : 0 ≤ index) :
    0 ≤ s.exactPosition sampleRate index :=
  Int.tdiv_nonneg (Int.mul_nonneg (Int.mul_nonneg hi s.frameDuration_pos.le) hr)
    s.timeScale_pos.le

theorem exactPosition_le (hr : 0 ≤ sampleRate) {i j : Int} (hi : 0 ≤ i) (hij : i ≤ j) :
    s.exactPosition sampleRate i ≤ s.exactPosition sampleRate j := by
  have htime : i * s.frameDuration * sampleRate ≤ j * s.frameDuration * sampleRate :=
    Int.mul_le_mul_of_nonneg_right
      (Int.mul_le_mul_of_nonneg_right hij s.frameDuration_pos.le) hr
  have hfirst : 0 ≤ i * s.frameDuration * sampleRate :=
    Int.mul_nonneg (Int.mul_nonneg hi s.frameDuration_pos.le) hr
  rw [exactPosition, exactPosition, Int.tdiv_eq_ediv_of_nonneg hfirst,
    Int.tdiv_eq_ediv_of_nonneg (hfirst.trans htime)]
  exact Int.ediv_le_ediv s.timeScale_pos htime

/-- At either sign the positions of later frames are further from zero. -/
theorem exactPosition_between (s : PlayoutSchedule) (sampleRate : Int) {i j : Int} (hi : 0 ≤ i)
    (hij : i ≤ j) :
    (0 ≤ s.exactPosition sampleRate i ∧
      s.exactPosition sampleRate i ≤ s.exactPosition sampleRate j) ∨
    (s.exactPosition sampleRate i ≤ 0 ∧
      s.exactPosition sampleRate j ≤ s.exactPosition sampleRate i) := by
  rcases Int.le_total 0 sampleRate with hr | hr
  · exact .inl ⟨exactPosition_nonneg hr hi, exactPosition_le hr hi hij⟩
  · have hneg : 0 ≤ -sampleRate := Int.neg_nonneg_of_nonpos hr
    have hnonneg := exactPosition_nonneg (s := s) hneg hi
    have hle := exactPosition_le (s := s) hneg hi hij
    rw [exactPosition_neg] at hnonneg hle
    rw [exactPosition_neg] at hle
    right
    omega

/-- What fits at a frame fits at the frames before it. -/
theorem Fits.mono {i j : Int} (h : s.Fits sampleRate j) (hi : 0 ≤ i) (hij : i ≤ j) :
    s.Fits sampleRate i := by
  have hdur := s.frameDuration_pos
  have htime : i * s.frameDuration ≤ j * s.frameDuration :=
    Int.mul_le_mul_of_nonneg_right hij hdur.le
  have hfirst : 0 ≤ i * s.frameDuration := Int.mul_nonneg hi hdur.le
  have hbetween := exactPosition_between s sampleRate hi hij
  obtain ⟨⟨htlo, hthi⟩, hplo, hphi⟩ := h
  constructor
  · exact ⟨by omega, by omega⟩
  · exact ⟨by omega, by omega⟩

/-- No step of the computation overflows. -/
theorem samplePosition_eq_exact (hscale : InInt64 (s.timeScale * sampleRate)) {index : Int}
    (hi : 0 ≤ index) (h : s.Fits sampleRate index) :
    s.samplePosition index sampleRate = some (s.exactPosition sampleRate index) := by
  have hpos := s.timeScale_pos
  have htime : 0 ≤ index * s.frameDuration := Int.mul_nonneg hi s.frameDuration_pos.le
  have hsplit := tdiv_mul_split htime sampleRate hpos
  rw [← exactPosition] at hsplit
  have hwhole : 0 ≤ index * s.frameDuration / s.timeScale := Int.ediv_nonneg htime hpos.le
  have hpart : 0 ≤ index * s.frameDuration % s.timeScale := Int.emod_nonneg _ hpos.ne'
  have hpart' : index * s.frameDuration % s.timeScale < s.timeScale := Int.emod_lt_of_pos _ hpos
  obtain ⟨hslo, hshi⟩ := hscale
  obtain ⟨hplo, hphi⟩ := h.position
  -- Both parts of the sum have the sign of the rate, and are no further from zero than it.
  have hparts : InInt64 (index * s.frameDuration / s.timeScale * sampleRate) ∧
      InInt64 (index * s.frameDuration % s.timeScale * sampleRate) := by
    rcases Int.le_total 0 sampleRate with hr | hr
    · have hsamples := Int.mul_nonneg hwhole hr
      have hscaled := Int.mul_nonneg hpart hr
      have hbound := Int.mul_le_mul_of_nonneg_right hpart'.le hr
      have hrest := Int.tdiv_nonneg hscaled hpos.le
      exact ⟨⟨by omega, by omega⟩, ⟨by omega, by omega⟩⟩
    · have hsamples := Int.mul_nonpos_of_nonneg_of_nonpos hwhole hr
      have hscaled := Int.mul_nonpos_of_nonneg_of_nonpos hpart hr
      have hbound := Int.mul_le_mul_of_nonpos_right hpart'.le hr
      have hrest := tdiv_nonpos_of_nonpos_of_nonneg hscaled hpos.le
      exact ⟨⟨by omega, by omega⟩, ⟨by omega, by omega⟩⟩
  simp only [samplePosition, bind, Option.bind_eq_some_iff, mul64_eq_some_iff, add64_eq_some_iff]
  refine ⟨_, ⟨h.time, rfl⟩, _, div64_of_pos h.time hpos, ?_⟩
  rw [Int.tdiv_eq_ediv_of_nonneg htime, Int.tmod_eq_emod_of_nonneg htime]
  refine ⟨_, ⟨hparts.1, rfl⟩, _, ⟨hparts.2, rfl⟩, _, div64_of_pos hparts.2 hpos, ?_, ?_⟩
  · rw [hsplit]
    exact h.position
  · exact hsplit.symm

/-- A nondecreasing sequence of frames has every earlier frame at or before its last. -/
private theorem le_of_steps {frame : Nat → Int} {n : Nat} (h : ∀ m < n, frame m ≤ frame (m + 1))
    {a b : Nat} (hab : a ≤ b) (hb : b ≤ n) : frame a ≤ frame b := by
  induction b, hab using Nat.le_induction with
  | base => exact le_rfl
  | succ b hab ih => exact (ih (by omega)).trans (h b (by omega))

/-- For every schedule and every sample rate whose product with the time scale fits, positions
are exact wherever the display time and the position fit. -/
theorem positionsExact (s : PlayoutSchedule) (sampleRate : Int)
    (hscale : InInt64 (s.timeScale * sampleRate)) : s.PositionsExact sampleRate := by
  constructor
  · intro index hi hfits
    exact samplePosition_eq_exact hscale hi hfits
  · intro hr index hi
    have hnonneg : 0 ≤ index * s.frameDuration * sampleRate :=
      Int.mul_nonneg (Int.mul_nonneg hi s.frameDuration_pos.le) hr
    rw [exactPosition, Int.tdiv_eq_ediv_of_nonneg hnonneg,
      FloorCounters.ediv_eq_floor s.timeScale_pos]
    push_cast
    rfl
  · intro hr i j hi hij hfits
    exact ⟨_, _, samplePosition_eq_exact hscale hi (hfits.mono hi hij),
      samplePosition_eq_exact hscale (hi.trans hij) hfits, exactPosition_le hr hi hij⟩
  · intro frame n hfirst hsteps hfits
    have hnonneg (m : Nat) (hm : m ≤ n) : 0 ≤ frame m :=
      hfirst.trans (le_of_steps hsteps m.zero_le hm)
    refine ⟨fun m ↦ s.exactPosition sampleRate (frame m), ?_, ?_, ?_⟩
    · intro m hm
      exact samplePosition_eq_exact hscale (hnonneg m hm)
        (hfits.mono (hnonneg m hm) (le_of_steps hsteps hm le_rfl))
    · intro m hm
      have hbetween := exactPosition_between s sampleRate
        (hnonneg m hm.le) (hsteps m hm)
      obtain ⟨hlo, hhi⟩ := (hfits.mono (hnonneg (m + 1) hm) (le_of_steps hsteps hm le_rfl)).position
      dsimp only
      exact ⟨by omega, by omega⟩
    · exact sum_range_sub (fun m ↦ s.exactPosition sampleRate (frame m)) n

/-- At 59.94, with the card's sound at 48 kHz. -/
theorem positionsExact_5994 :
    PositionsExact (make 1001 60000 3) 48000 :=
  positionsExact (make 1001 60000 3) 48000 (by decide)

/-- At a negative rate a position is rounded up. -/
theorem not_samplePosition_floor :
    ¬ ∀ (s : PlayoutSchedule) (sampleRate : Int), s.timeScale * sampleRate < 2 ^ 63 →
      ∀ index, 0 ≤ index → InInt64 (index * s.frameDuration) →
        InInt64 ⌊(index * s.frameDuration * sampleRate / s.timeScale : ℚ)⌋ →
          s.samplePosition index sampleRate =
            some ⌊(index * s.frameDuration * sampleRate / s.timeScale : ℚ)⌋ := by
  intro h
  have hfloor : ⌊((1 : Int) * (make 1 2 1).frameDuration * (-1 : Int) /
      (make 1 2 1).timeScale : ℚ)⌋ = -1 := by
    rw [show (make 1 2 1).frameDuration = 1 from rfl, show (make 1 2 1).timeScale = 2 from rfl,
      Int.floor_eq_iff]
    norm_num
  have hvalue := h (make 1 2 1) (-1) (by decide) 1 (by decide) (by decide)
    (by rw [hfloor]; decide)
  have hzero : (make 1 2 1).samplePosition 1 (-1) = some 0 := by decide
  rw [hfloor, hzero] at hvalue
  cases hvalue

end

end WebLinked.Core.PlayoutSchedule
