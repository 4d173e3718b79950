import WebLinked.Base.Numeral

/-!
# Doubles that few digits tell apart

Up to fifteen digits, `%g` prints a double so that it is read again exactly when the double is
the nearest one to a number of so many digits.
-/

namespace WebLinked.Base.NumberText

/-- A number of `p` decimal digits. -/
def Short (p : ℕ) (q : ℚ) : Prop := ∃ (n : ℕ) (e : ℤ), n < 10 ^ p ∧ q = n * 10 ^ e

section Nearest

variable {x y : ℚ} {k : ℤ}

/-- The nearest integer is less than a half away, or a half and even. -/
private theorem abs_sub_roundEven_cases (x : ℚ) :
    |x - roundEven x| < 1 / 2 ∨ (|x - roundEven x| = 1 / 2 ∧ roundEven x % 2 = 0) := by
  have hle := Int.floor_le x
  have hlt := Int.lt_floor_add_one x
  unfold roundEven
  dsimp only
  split
  · next h =>
    left
    rwa [abs_of_nonneg (by linarith)]
  · next h =>
    split
    · next h' =>
      left
      push_cast
      rw [abs_of_neg (by linarith)]
      linarith
    · next h' =>
      right
      split
      · next heven =>
        refine ⟨?_, heven⟩
        rw [abs_of_nonneg (by linarith)]
        linarith
      · next hodd =>
        refine ⟨?_, by omega⟩
        push_cast
        rw [abs_of_neg (by linarith)]
        linarith

/-- And it is the only one. -/
theorem roundEven_eq_iff :
    roundEven x = k ↔ |x - k| < 1 / 2 ∨ (|x - k| = 1 / 2 ∧ k % 2 = 0) := by
  constructor
  · rintro rfl
    exact abs_sub_roundEven_cases x
  · intro hk
    have hr := abs_sub_roundEven_cases x
    by_contra hne
    have hsub : |(roundEven x : ℚ) - k| ≤ |x - roundEven x| + |x - k| := by
      have h := abs_sub_le (roundEven x : ℚ) x k
      rwa [abs_sub_comm (roundEven x : ℚ) x] at h
    have hone : (1 : ℤ) ≤ |roundEven x - k| := Int.one_le_abs (sub_ne_zero.mpr hne)
    have hone' : (1 : ℚ) ≤ |(roundEven x : ℚ) - k| := by exact_mod_cast hone
    -- Two even integers are not one apart.
    rcases hr with hr | ⟨hr, hreven⟩
    · rcases hk with hk | ⟨hk, -⟩ <;> linarith
    · rcases hk with hk | ⟨hk, hkeven⟩
      · linarith
      · have hle : |(roundEven x : ℚ) - k| ≤ 1 := by linarith
        have hle' : |roundEven x - k| ≤ 1 := by exact_mod_cast hle
        rw [abs_le] at hle'
        rw [le_abs] at hone
        omega

/-- What is no further from an integer is rounded to it too. -/
theorem roundEven_of_abs_le (h : roundEven x = k) (hle : |y - k| ≤ |x - k|) : roundEven y = k := by
  rw [roundEven_eq_iff] at h ⊢
  rcases h with h | ⟨h, heven⟩
  · exact Or.inl (hle.trans_lt h)
  · rw [h] at hle
    rcases lt_or_eq_of_le hle with hlt | heq
    · exact Or.inl hlt
    · exact Or.inr ⟨heq, heven⟩

/-- No other integer is nearer. -/
theorem abs_sub_roundEven_le (x : ℚ) (k : ℤ) : |x - roundEven x| ≤ |x - k| := by
  by_cases h : roundEven x = k
  · rw [h]
  · have hnot := mt roundEven_eq_iff.mpr h
    rw [not_or, not_lt] at hnot
    exact (abs_sub_roundEven x).trans hnot.1

end Nearest

section Decimal

variable {p : ℕ} {q d : ℚ}

/-- The nearest number of `p` digits has them. -/
theorem short_shortest (hp : 0 < p) (hq : 0 < q) : Short p (shortest p q) := by
  obtain ⟨-, hlt, heq⟩ := scientific_spec hp hq
  exact ⟨_, _, hlt, heq.symm⟩

/-- A number of `p` digits is one of the last unit, or below the first digit. -/
theorem short_cases (hq : 0 < q) (hd : Short p d) :
    (∃ k : ℤ, d = k * unit p q) ∨
      (d ≤ 10 ^ Int.log 10 q - 10 ^ (Int.log 10 q - p) ∧ 10 ^ Int.log 10 q ≤ q) := by
  obtain ⟨n, e, hn, rfl⟩ := hd
  rcases le_or_gt (Int.log 10 q - (p - 1)) e with he | he
  · left
    obtain ⟨k, hk⟩ := Int.le.dest he
    refine ⟨n * 10 ^ k, ?_⟩
    rw [unit, ← hk, zpow_add₀ (by norm_num), zpow_natCast]
    push_cast
    ring
  · right
    have hlog := Int.zpow_log_le_self (b := 10) (by norm_num) hq
    push_cast at hlog
    refine ⟨?_, hlog⟩
    have hle : (10 : ℚ) ^ e ≤ 10 ^ (Int.log 10 q - p) :=
      zpow_le_zpow_right₀ (by norm_num) (by omega)
    have hn' : (n : ℚ) ≤ 10 ^ p - 1 := by
      have : n + 1 ≤ 10 ^ p := hn
      have : ((n + 1 : ℕ) : ℚ) ≤ ((10 ^ p : ℕ) : ℚ) := by exact_mod_cast this
      push_cast at this
      linarith
    have hsplit : (10 : ℚ) ^ Int.log 10 q = 10 ^ p * 10 ^ (Int.log 10 q - p) := by
      rw [← zpow_natCast, ← zpow_add₀ (by norm_num)]
      congr 1
      ring
    calc (n : ℚ) * 10 ^ e ≤ (10 ^ p - 1) * 10 ^ (Int.log 10 q - p) :=
          mul_le_mul hn' hle (by positivity) (by linarith [n.cast_nonneg (α := ℚ)])
      _ = 10 ^ Int.log 10 q - 10 ^ (Int.log 10 q - p) := by
        rw [hsplit]
        ring

private theorem abs_sub_mul_unit (p : ℕ) (q : ℚ) (k : ℤ) :
    |q - k * unit p q| = |q / unit p q - k| * unit p q := by
  have hu := unit_pos p q
  rw [← abs_of_pos hu, ← abs_mul, abs_of_pos hu]
  congr 1
  field_simp

/-- No other number of `p` digits is nearer. -/
theorem abs_sub_shortest_le (hp : 0 < p) (hq : 0 < q) (hd : Short p d) :
    |q - shortest p q| ≤ |q - d| := by
  have hmul (k : ℤ) : |q - shortest p q| ≤ |q - k * unit p q| := by
    rw [shortest, abs_sub_mul_unit, abs_sub_mul_unit]
    exact mul_le_mul_of_nonneg_right (abs_sub_roundEven_le _ k) (unit_pos p q).le
  rcases short_cases hq hd with ⟨k, rfl⟩ | ⟨hle, hlog⟩
  · exact hmul k
  · -- The first digit alone lies between.
    have hfirst : (10 : ℚ) ^ Int.log 10 q = ((10 ^ (p - 1) : ℤ) : ℚ) * unit p q := by
      have hcast : ((p - 1 : ℕ) : ℤ) = p - 1 := by omega
      push_cast
      rw [unit, ← zpow_natCast, ← zpow_add₀ (by norm_num), hcast]
      congr 1
      ring
    have hpos : (0 : ℚ) < 10 ^ (Int.log 10 q - p) := by positivity
    refine (hmul (10 ^ (p - 1))).trans ?_
    rw [← hfirst, abs_of_nonneg (by linarith), abs_of_nonneg (by linarith)]
    linarith

/-- A number of `p` digits keeps below the last place of a double what it is rounded by. -/
private theorem shortest_eq (hp : 0 < p) (h15 : p ≤ 15) (hq : 0 < q) (hd : Short p d)
    (hpos : 0 < d) (hle : |d - q| ≤ d / 2 ^ 53) : shortest p q = d := by
  have hu := unit_pos p q
  have hpow : (10 : ℚ) ^ p ≤ 10 ^ 15 := pow_le_pow_right₀ (by norm_num) h15
  rcases short_cases hq hd with ⟨k, rfl⟩ | ⟨hbelow, hlog⟩
  · have hlt := (div_unit hp hq).2
    rw [abs_sub_comm, abs_sub_mul_unit, mul_div_right_comm] at hle
    have hx := le_of_mul_le_mul_right hle hu
    have hx' := (abs_le.mp hx).1
    have hround : roundEven (q / unit p q) = k := by
      refine roundEven_eq_iff.mpr (Or.inl (hx.trans_lt ?_))
      linarith
    rw [shortest, hround]
  · obtain ⟨hlower, -⟩ := abs_le.mp hle
    have hsplit : (10 : ℚ) ^ Int.log 10 q = 10 ^ p * 10 ^ (Int.log 10 q - p) := by
      rw [← zpow_natCast, ← zpow_add₀ (by norm_num)]
      congr 1
      ring
    have hunit : (0 : ℚ) < 10 ^ (Int.log 10 q - p) := by positivity
    rw [hsplit] at hbelow hlog
    generalize (10 : ℚ) ^ (Int.log 10 q - p) = u at *
    nlinarith

/-- Below the normal numbers, what is no further from a double is rounded to it too. -/
private theorem nearest_of_abs_le {r : ℚ} (hd : 0 < d) (hlt : d < 2 ^ (-1022 : ℤ)) (hr : 0 < r)
    (hle : |r - nearest d| ≤ |d - nearest d|) : nearest r = nearest d := by
  have hplace (x : ℚ) (hx : 0 < x) (h : x < 2 ^ (-1021 : ℤ)) : place x = -1074 := by
    have hlog : Int.log 2 x < -1021 := by
      rw [← Int.lt_zpow_iff_log_lt Nat.one_lt_two hx]
      exact_mod_cast h
    rw [place, abs_of_pos hx]
    omega
  have hdouble : (2 : ℚ) ^ (-1021 : ℤ) = 2 ^ 53 * 2 ^ (-1074 : ℤ) := by
    rw [← zpow_natCast, ← zpow_add₀ (by norm_num)]
    congr 1
  have hsingle : (2 : ℚ) ^ (-1022 : ℤ) = 2 ^ 52 * 2 ^ (-1074 : ℤ) := by
    rw [← zpow_natCast, ← zpow_add₀ (by norm_num)]
    congr 1
  have ht : (0 : ℚ) < 2 ^ (-1074 : ℤ) := by positivity
  have hpd : place d = -1074 := hplace d hd (by rw [hdouble]; rw [hsingle] at hlt; linarith)
  have hscale (x : ℚ) (k : ℤ) :
      |x - k * 2 ^ (-1074 : ℤ)| = |x / 2 ^ (-1074 : ℤ) - k| * 2 ^ (-1074 : ℤ) := by
    rw [← abs_of_pos ht, ← abs_mul, abs_of_pos ht]
    congr 1
    field_simp
  have hround := abs_sub_roundEven (d / 2 ^ (-1074 : ℤ))
  have hk : roundEven (d / 2 ^ (-1074 : ℤ)) ≤ 2 ^ 52 := by
    refine roundEven_le ?_
    rw [div_le_iff₀ ht, Int.cast_pow, Int.cast_ofNat, ← hsingle]
    exact hlt.le
  have hnearest : nearest d = roundEven (d / 2 ^ (-1074 : ℤ)) * 2 ^ (-1074 : ℤ) := by
    rw [nearest, hpd]
  obtain ⟨k, hkd⟩ : ∃ k, roundEven (d / 2 ^ (-1074 : ℤ)) = k := ⟨_, rfl⟩
  rw [hkd] at hround hk hnearest
  rw [hnearest, hscale, hscale] at hle
  have hle' := le_of_mul_le_mul_right hle ht
  have hpr : place r = -1074 := by
    refine hplace r hr ?_
    have hupper := (abs_le.mp (hle'.trans hround)).2
    have hk' : (k : ℚ) ≤ 2 ^ 52 := by exact_mod_cast hk
    rw [hdouble, ← div_lt_iff₀ ht]
    linarith
  rw [hnearest, nearest, hpr, roundEven_of_abs_le hkd hle']

/-- A double is the nearest one to its nearest number of `p` digits exactly when it is the
nearest one to some number of `p` digits. -/
theorem nearest_shortest (hp : 0 < p) (h15 : p ≤ 15) (hq : 0 < q) :
    nearest (shortest p q) = q ↔ ∃ d, Short p d ∧ nearest d = q := by
  constructor
  · intro h
    exact ⟨shortest p q, short_shortest hp hq, h⟩
  · rintro ⟨d, hd, rfl⟩
    have hnonneg : 0 ≤ d := by
      obtain ⟨n, e, -, rfl⟩ := hd
      positivity
    have hpos : 0 < d := by
      refine lt_of_le_of_ne hnonneg fun h ↦ ?_
      rw [← h] at hq
      simp [nearest, roundEven] at hq
    rcases lt_or_ge d (2 ^ (-1022 : ℤ)) with hlt | hge
    · have hclose := abs_sub_shortest_le hp hq hd
      refine nearest_of_abs_le hpos hlt ?_ ?_
      · have hdigits := le_roundEven (n := 10 ^ (p - 1)) (by push_cast; exact (div_unit hp hq).1)
        have : (0 : ℤ) < roundEven (nearest d / unit p (nearest d)) :=
          lt_of_lt_of_le (by positivity) hdigits
        have : (0 : ℚ) < roundEven (nearest d / unit p (nearest d)) := by exact_mod_cast this
        exact mul_pos this (unit_pos p _)
      · rwa [abs_sub_comm _ (nearest d), abs_sub_comm _ (nearest d)]
    · rw [shortest_eq hp h15 hq hd hpos (abs_sub_nearest_le hge)]

end Decimal

end WebLinked.Base.NumberText
