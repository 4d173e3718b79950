import WebLinked.Core.FormatText

/-!
# Formats read back from their text

`VideoFormat::toString` prints two decimals of a rate and `VideoFormat::parse` takes decimals
for the rates over 1001 near them, so that a fraction is read back where it is whole or one of
those.
-/

namespace WebLinked.Core

open WebLinked.Base NumberText

namespace FrameRate

variable {r k : FrameRate} {text : List Char}

/-- The fraction a rate is. -/
def toRat (r : FrameRate) : ℚ := Rat.divInt r.numerator r.denominator

/-- `parse` reads the rate back from its text: it is a whole number of frames or one of the
rates that a decimal names. -/
def reads (r : FrameRate) : Bool :=
  0 < r.numerator && (r.numerator % r.denominator = 0 || kFractional.any r.equal)

/-- What `parse` makes of a text. -/
structure Parsed (r : FrameRate) : Prop where
  denominator : 0 < r.denominator ∧ r.denominator < 2 ^ 31
  numerator : -2 ^ 31 ≤ r.numerator ∧ r.numerator < 2 ^ 31
  whole : r.numerator ≤ 0 → r.denominator = 1

/-- Dividing by the greatest common divisor reduces a fraction. -/
private theorem reduced {a b : Int} (hb : 0 < b) :
    a.tdiv (a.gcd b) = (Rat.divInt a b).num ∧ b.tdiv (a.gcd b) = (Rat.divInt a b).den := by
  have ha := Int.tdiv_eq_ediv_of_dvd (Int.gcd_dvd_left a b)
  have hb' := Int.tdiv_eq_ediv_of_dvd (Int.gcd_dvd_right a b)
  rw [ha, hb', Rat.num_divInt, Rat.den_divInt, if_neg hb.ne', Int.sign_eq_one_of_pos hb, one_mul,
    Int.gcd_comm b a]
  refine ⟨rfl, ?_⟩
  push_cast
  rw [abs_of_pos hb]

/-- Rates are equal when they are the same fraction. -/
theorem equal_iff (hr : 0 < r.denominator) (hk : 0 < k.denominator) :
    r.equal k ↔ r.toRat = k.toRat := by
  have ha : r.numerator.gcd r.denominator ≠ 0 :=
    fun h ↦ hr.ne' (Int.gcd_eq_zero_iff.mp h).2
  have hc : k.numerator.gcd k.denominator ≠ 0 :=
    fun h ↦ hk.ne' (Int.gcd_eq_zero_iff.mp h).2
  obtain ⟨hrn, hrd⟩ := reduced (a := r.numerator) hr
  obtain ⟨hkn, hkd⟩ := reduced (a := k.numerator) hk
  simp only [equal, ha, hc, decide_false, Bool.or_self, Bool.false_eq_true, if_false,
    Bool.and_eq_true, decide_eq_true_eq, hrn, hrd, hkn, hkd, toRat, Nat.cast_inj]
  constructor
  · rintro ⟨hn, hd⟩
    exact Rat.ext hn hd
  · intro h
    rw [h]
    exact ⟨rfl, rfl⟩

/-- A whole rate is its quotient. -/
theorem toRat_of_mod_eq_zero (hd : 0 < r.denominator) (h : r.numerator % r.denominator = 0) :
    r.toRat = (r.numerator / r.denominator : Int) := by
  rw [toRat, Rat.divInt_eq_div]
  exact (Int.cast_div (Int.dvd_of_emod_eq_zero h) (by exact_mod_cast hd.ne')).symm

/-- A rate with a whole fraction has a numerator its denominator divides. -/
theorem mod_eq_zero_of_toRat {n : Int} (hd : 0 < r.denominator) (h : r.toRat = n) :
    r.numerator % r.denominator = 0 := by
  rw [toRat, Rat.divInt_eq_div, div_eq_iff (by exact_mod_cast hd.ne')] at h
  have h' : r.numerator = n * r.denominator := by exact_mod_cast h
  rw [h', Int.mul_emod_left]

/-- The double of a rate is the one nearest to its fraction. -/
theorem toDouble_eq (h : r.Parsed) (hn : 0 < r.numerator) : r.toDouble = .ofRat false r.toRat := by
  obtain ⟨num, den⟩ := r
  obtain ⟨⟨hd, hden⟩, ⟨-, hnum⟩, -⟩ := h
  obtain ⟨a, rfl⟩ := Int.eq_ofNat_of_zero_le hn.le
  obtain ⟨b, rfl⟩ := Int.eq_ofNat_of_zero_le hd.le
  dsimp only at *
  have hb : (b : ℚ) ≠ 0 := by exact_mod_cast hd.ne'
  rw [toDouble, if_neg hd.ne', Double.ofInt_natCast (by omega), Double.ofInt_natCast (by omega)]
  simp [Double.div, Double.sizeOf, hb, toRat, Rat.divInt_eq_div]

/-- A whole rate prints its quotient. -/
theorem toString_of_mod_eq_zero (h : r.Parsed) (hn : 0 < r.numerator)
    (hw : r.numerator % r.denominator = 0) :
    r.toString = NumberText.toString (r.numerator / r.denominator) := by
  unfold toString
  split
  · next h1 => rw [h1, Int.ediv_one]
  · have hq : 0 ≤ r.numerator / r.denominator := Int.ediv_nonneg hn.le h.denominator.1.le
    have hlt : r.numerator / r.denominator < 2 ^ 31 :=
      lt_of_le_of_lt (Int.ediv_le_self _ hn.le) h.numerator.2
    rw [toDouble_eq h hn, toRat_of_mod_eq_zero h.denominator.1 hw]
    generalize r.numerator / r.denominator = n at *
    obtain ⟨m, rfl⟩ := Int.eq_ofNat_of_zero_le hq
    have hm : m < 2 ^ 53 := by omega
    have hprint : fixed 2 (Double.ofRat false ((m : ℤ) : ℚ)) =
        Nat.toDigits 10 m ++ ['.', '0', '0'] := by
      rw [Int.cast_natCast, fixed_natCast false hm (by decide)]
      rfl
    have hnot : ¬(m : ℤ) < 0 := by omega
    rw [hprint]
    simp [NumberText.toString, sign, hnot]

/-- No whole rate is near the decimal of a fractional one. -/
private theorem far_of_mem {a : Double} (ha : a ∈ kApproximate) {n : ℕ} (h : n < 2 ^ 31) :
    ((Double.finite false (Double.sizeOf n (by omega))).sub a).abs.lt (.ofRat false (1 / 100)) =
      false := by
  have hall : ∀ a ∈ kApproximate, a.isFinite ∧ (⌊a.toRat⌋ : ℚ) + 19 / 1000 ≤ a.toRat ∧
      a.toRat + 19 / 1000 ≤ ⌊a.toRat⌋ + 1 := by decide +kernel
  have hhundredth : nearest |(1 / 100 : ℚ)| < 11 / 1000 := by decide +kernel
  obtain ⟨hfinite, hlow, hhigh⟩ := hall a ha
  cases a with
  | nan => cases hfinite
  | inf neg => cases hfinite
  | finite neg size =>
    have hn : (Double.finite false (Double.sizeOf n (by omega))).toRat = (n : ℤ) := rfl
    rw [Double.abs_sub_finite, hn]
    generalize (Double.finite neg size).toRat = q at *
    have hfar : 19 / 1000 ≤ |((n : ℤ) : ℚ) - q| := by
      rcases le_or_gt (n : ℤ) ⌊q⌋ with hle | hgt
      · have hle : ((n : ℤ) : ℚ) ≤ ⌊q⌋ := by exact_mod_cast hle
        exact le_abs.mpr (Or.inr (by linarith))
      · have hge : (⌊q⌋ : ℚ) + 1 ≤ (n : ℤ) := by exact_mod_cast hgt
        exact le_abs.mpr (Or.inl (by linarith))
    have hnormal : (2 : ℚ) ^ (-1022 : ℤ) ≤ |((n : ℤ) : ℚ) - q| :=
      calc (2 : ℚ) ^ (-1022 : ℤ) ≤ 2 ^ (-6 : ℤ) := zpow_le_zpow_right₀ (by norm_num) (by norm_num)
        _ ≤ 19 / 1000 := by norm_num
        _ ≤ _ := hfar
    have hround := (abs_le.mp (abs_sub_nearest_le hnormal)).2
    rw [Bool.eq_false_iff]
    intro hlt
    have hlt := ((Double.ofRat_lt _ _).mp hlt).1
    linarith

/-- A decimal that is a whole number is read as whole. -/
theorem parseDecimal_natCast {n : ℕ} (hpos : 0 < n) (h : n < 2 ^ 31)
    (hstod : stod text = some (.ofInt n, text.length)) : parseDecimal text = some ⟨n, 1⟩ := by
  have hle : (Double.finite false (Double.sizeOf n (by omega))).le (.ofInt 0) = false := by
    rw [← Double.ofInt_natCast, Double.ofInt_le (by omega) (by decide)]
    exact decide_eq_false (by omega)
  have hround : (Double.finite false (Double.sizeOf n (by omega))).round =
      .finite false (Double.sizeOf n (by omega)) := by
    have hfloor : ⌊(n : ℚ) + 1 / 2⌋ = n := by
      rw [Int.floor_eq_iff]
      constructor <;> push_cast <;> linarith
    rw [Double.round, Double.sizeOf, hfloor, Int.cast_natCast]
    exact Double.ofRat_natCast false (by omega)
  have hfind : (kApproximate.zip kFractional).find? (fun f ↦
      ((Double.finite false (Double.sizeOf n (by omega))).sub f.1).abs.lt
        (.ofRat false (1 / 100))) = none := by
    rw [List.find?_eq_none]
    intro f hf
    rw [far_of_mem (List.of_mem_zip hf).1 h]
    exact Bool.false_ne_true
  have hzero : ((Double.finite false (Double.sizeOf n (by omega))).sub
      (.finite false (Double.sizeOf n (by omega)))).abs.lt (.ofRat false (1 / 10 ^ 9)) := by
    rw [Double.abs_sub_finite, sub_self, Double.ofRat_lt]
    decide +kernel
  have hint : toInt (.finite false (Double.sizeOf n (by omega))) = n := by
    have htrunc : (Double.finite false (Double.sizeOf n (by omega))).trunc = n := by
      simp [Double.trunc, Double.sizeOf]
    rw [toInt, htrunc, if_pos (by omega)]
  rw [parseDecimal, hstod, Double.ofInt_natCast (by omega)]
  simp only [Option.bind_eq_bind, Option.bind_some, ne_eq, not_true_eq_false, if_false, hle, hfind,
    hround, hzero, hint, Bool.false_eq_true, if_true]

/-- A whole rate is read as whole. -/
theorem parse_natCast {n : ℕ} (hpos : 0 < n) (h : n < 2 ^ 31) :
    parse (NumberText.toString n) = some ⟨n, 1⟩ := by
  have hne : NumberText.toString n ≠ [] := by
    simp [NumberText.toString, Nat.toDigits_ne_nil]
  have hslash : '/' ∉ NumberText.toString n := by
    intro hc
    have := isNumeral_toString n _ hc
    revert this
    decide
  have hstod : stod (NumberText.toString n) = some (.ofInt n, (NumberText.toString n).length) :=
    stod_toString (by omega)
  rw [parse, if_neg hne, if_neg hslash, parseDecimal_natCast hpos h hstod]

/-- The listed rates are read back from their texts. -/
theorem parse_of_mem_kFractional :
    ∀ k ∈ kFractional, parse k.toString = some k ∧ k.toString.head?.any Char.isDigit := by
  decide +kernel

/-- The listed rates are ones that `parse` makes. -/
theorem parsed_of_mem_kFractional {k : FrameRate} (hk : k ∈ kFractional) : k.Parsed := by
  have hall : ∀ k ∈ kFractional, (0 < k.denominator ∧ k.denominator < 2 ^ 31) ∧
      (0 < k.numerator ∧ k.numerator < 2 ^ 31) := by decide
  obtain ⟨hd, hnum⟩ := hall k hk
  exact ⟨hd, ⟨by omega, hnum.2⟩, by omega⟩

/-- A rate made by `parse` is read back, as an equal one, where `reads` says so. -/
theorem exists_parse_of_reads (h : r.Parsed) (hr : r.reads) :
    ∃ k, parse r.toString = some k ∧ k.equal r ∧ r.toString.head?.any Char.isDigit := by
  simp only [reads, Bool.and_eq_true, Bool.or_eq_true, decide_eq_true_eq, List.any_eq_true] at hr
  obtain ⟨hpos, hr⟩ := hr
  by_cases hw : r.numerator % r.denominator = 0
  · have hle : 0 < r.numerator / r.denominator :=
      Int.ediv_pos_of_pos_of_dvd hpos h.denominator.1.le (Int.dvd_of_emod_eq_zero hw)
    have hlt : r.numerator / r.denominator < 2 ^ 31 :=
      (Int.ediv_le_self _ hpos.le).trans_lt h.numerator.2
    have hrat := toRat_of_mod_eq_zero h.denominator.1 hw
    rw [toString_of_mod_eq_zero h hpos hw]
    generalize r.numerator / r.denominator = n at *
    obtain ⟨m, rfl⟩ := Int.eq_ofNat_of_zero_le hle.le
    refine ⟨⟨m, 1⟩, parse_natCast (by omega) (by omega), ?_, ?_⟩
    · rw [equal_iff Int.one_pos h.denominator.1, hrat]
      simp [toRat, Rat.divInt_one]
    · have hnot : ¬(m : ℤ) < 0 := by omega
      simp only [NumberText.toString, sign, hnot, decide_false, Bool.false_eq_true, if_false,
        List.nil_append, Int.natAbs_natCast]
      cases hd : Nat.toDigits 10 m with
      | nil => exact absurd hd Nat.toDigits_ne_nil
      | cons c digits =>
        have hc := isDigit_toDigits m c
        rw [hd] at hc
        simpa using hc List.mem_cons_self
  · obtain ⟨k, hk, heq⟩ := hr.resolve_left hw
    have hkp := parsed_of_mem_kFractional hk
    have hkpos : ∀ k ∈ kFractional, 0 < k.numerator ∧ k.denominator ≠ 1 := by decide
    obtain ⟨hkpos, hk1⟩ := hkpos k hk
    have hr1 : r.denominator ≠ 1 := by
      intro h1
      rw [h1, Int.emod_one] at hw
      exact hw rfl
    rw [equal_iff h.denominator.1 hkp.denominator.1] at heq
    have htext : r.toString = k.toString := by
      simp only [toString, hr1, hk1, if_false, toDouble_eq h hpos, toDouble_eq hkp hkpos, heq]
    obtain ⟨hparse, hdigit⟩ := parse_of_mem_kFractional k hk
    rw [htext]
    exact ⟨k, hparse, (equal_iff hkp.denominator.1 h.denominator.1).mpr heq.symm, hdigit⟩

/-- A decimal from zero up is read as a listed rate or a whole one. -/
theorem of_parseDecimal (h : parseDecimal text = some r) :
    r ∈ kFractional ∨ (r.denominator = 1 ∧ -2 ^ 31 ≤ r.numerator ∧ r.numerator < 2 ^ 31) := by
  unfold parseDecimal at h
  cases hs : stod text with
  | none => simp [hs] at h
  | some v =>
    simp only [hs, Option.bind_eq_bind, Option.bind_some] at h
    have h := (Option.ite_none_left_eq_some.mp h).2
    have h := (Option.ite_none_left_eq_some.mp h).2
    split at h
    · next f hf =>
      cases h
      exact Or.inl (List.of_mem_zip (List.mem_of_find?_eq_some hf)).2
    · obtain ⟨-, h⟩ := Option.ite_none_right_eq_some.mp h
      cases h
      refine Or.inr ⟨rfl, ?_⟩
      dsimp only
      unfold toInt
      split <;> omega

/-- What `parse` makes of a text. -/
theorem parsed_of_parse (h : parse text = some r) : r.Parsed := by
  unfold parse at h
  have h := (Option.ite_none_left_eq_some.mp h).2
  split at h
  · simp only [parseFraction, Option.bind_eq_bind, Option.bind_eq_some_iff] at h
    obtain ⟨num, hnum, den, hden, h⟩ := h
    obtain ⟨hpos, h⟩ := Option.ite_none_left_eq_some.mp h
    cases h
    push Not at hpos
    have hden := stoi_range hden
    exact ⟨⟨hpos.2, hden.2⟩, stoi_range hnum, fun hle ↦ absurd hpos.1 hle.not_gt⟩
  · rcases of_parseDecimal h with hk | ⟨hd, hn⟩
    · exact parsed_of_mem_kFractional hk
    · exact ⟨⟨by omega, by omega⟩, hn, fun _ ↦ hd⟩

/-- The double of such a rate is finite. -/
theorem isFinite_toDouble (h : r.Parsed) (hn : 0 < r.numerator) : r.toDouble.isFinite := by
  have hnum : (1 : ℚ) ≤ r.numerator ∧ (r.numerator : ℚ) < 2 ^ 31 := by
    exact_mod_cast And.intro hn h.numerator.2
  have hden : (1 : ℚ) ≤ r.denominator ∧ (r.denominator : ℚ) < 2 ^ 31 := by
    exact_mod_cast And.intro h.denominator.1 h.denominator.2
  have hlow : 1 / 2 ^ 31 ≤ r.toRat := by
    rw [toRat, Rat.divInt_eq_div, le_div_iff₀ (by linarith)]
    linarith
  have hhigh : r.toRat < 2 ^ 31 := by
    rw [toRat, Rat.divInt_eq_div, div_lt_iff₀ (by linarith)]
    nlinarith
  have hpos : 0 ≤ r.toRat := le_trans (by positivity) hlow
  have hnormal : (2 : ℚ) ^ (-1022 : ℤ) ≤ 1 / 2 ^ 31 :=
    calc (2 : ℚ) ^ (-1022 : ℤ) ≤ 2 ^ (-31 : ℤ) := zpow_le_zpow_right₀ (by norm_num) (by norm_num)
      _ = 1 / 2 ^ 31 := by norm_num
  have hround := (abs_le.mp (abs_sub_nearest_le (hnormal.trans hlow))).1
  have hlt : nearest |r.toRat| < overflow := by
    rw [abs_of_nonneg hpos]
    exact lt_overflow (by linarith)
  rw [toDouble_eq h hn, Double.ofRat, dif_pos hlt]
  rfl

/-- What is printed of a rate that `parse` made. -/
theorem isNumeral_toString (h : r.Parsed) : ∀ c ∈ r.toString, isNumeral c := by
  unfold toString
  split
  · exact NumberText.isNumeral_toString _
  · next h1 =>
    have hpos : 0 < r.numerator := by
      by_contra hle
      exact h1 (h.whole (not_lt.mp hle))
    have hfixed := isNumeral_fixed 2 (isFinite_toDouble h hpos)
    have hmem : ∀ c ∈ (fixed 2 r.toDouble).reverse.dropWhile (· = '0'), isNumeral c :=
      fun c hc ↦ hfixed c (List.mem_reverse.mp (List.dropWhile_subset _ hc))
    intro c hc
    generalize (fixed 2 r.toDouble).reverse.dropWhile (· = '0') = text at *
    dsimp only at hc
    split at hc
    · exact hmem c (List.mem_cons_of_mem _ (List.mem_reverse.mp hc))
    · exact hmem c (List.mem_reverse.mp hc)

/-- A rate made by `parse` is read back as an equal one only where `reads` says so. -/
theorem reads_of_parse (h : r.Parsed) (hp : parse r.toString = some k) (he : k.equal r) :
    r.reads := by
  have hk := parsed_of_parse hp
  have hslash : '/' ∉ r.toString := by
    intro hc
    have := isNumeral_toString h _ hc
    revert this
    decide
  unfold parse at hp
  have hp := (Option.ite_none_left_eq_some.mp hp).2
  rw [if_neg hslash] at hp
  have hpos : 0 < r.numerator := by
    by_contra hle
    have hle := not_lt.mp hle
    have hlow := h.numerator.1
    have hstod : stod (NumberText.toString r.numerator) = some (.ofInt r.numerator, _) :=
      stod_toString (by omega)
    have hzero : (Double.ofInt r.numerator).le (.ofInt 0) = true := by
      rw [Double.ofInt_le (by omega) (by decide)]
      exact decide_eq_true hle
    rw [toString, if_pos (h.whole hle), parseDecimal, hstod] at hp
    simp [hzero] at hp
  simp only [reads, Bool.and_eq_true, Bool.or_eq_true, decide_eq_true_eq, List.any_eq_true]
  refine ⟨hpos, ?_⟩
  rw [equal_iff hk.denominator.1 h.denominator.1] at he
  rcases of_parseDecimal hp with hmem | ⟨hd, -⟩
  · exact Or.inr ⟨k, hmem, (equal_iff h.denominator.1 hk.denominator.1).mpr he.symm⟩
  · left
    apply mod_eq_zero_of_toRat h.denominator.1 (n := k.numerator)
    rw [← he, toRat, hd, Rat.divInt_one]

end FrameRate

namespace VideoFormat

/-- What `parse` makes of a text. -/
structure Parsed (f : VideoFormat) : Prop where
  width : 0 < f.width ∧ f.width < 2 ^ 31 ∧ f.width.tmod 2 = 0
  height : 0 < f.height ∧ f.height < 2 ^ 31
  rate : f.rate.Parsed

/-- A raster that is read is one of `int`s. -/
theorem range_of_parseRaster {raster : List Char} {width height : Int}
    (h : parseRaster raster = some (width, height)) : width < 2 ^ 31 ∧ height < 2 ^ 31 := by
  unfold parseRaster at h
  split at h
  · simp only [Option.bind_eq_bind, Option.bind_eq_some_iff] at h
    obtain ⟨w, hw, h', hh, h⟩ := h
    cases h
    exact ⟨(stoi_range hw).2, (stoi_range hh).2⟩
  · have hall : ∀ r ∈ standardRasters, r.2.1 < 2 ^ 31 ∧ r.2.2 < 2 ^ 31 := by decide
    obtain ⟨r, hr, heq⟩ := Option.map_eq_some_iff.mp h
    have := hall r (List.mem_of_find?_eq_some hr)
    rwa [heq] at this

/-- What `parse` makes of a text. -/
theorem parsed_of_parse {text : String} {f : VideoFormat} (h : parse text = some f) :
    f.Parsed := by
  simp only [parse, Option.bind_eq_bind, Option.bind_eq_some_iff] at h
  obtain ⟨parts, hs, rate, hr, ⟨width, height⟩, hraster, h⟩ := h
  obtain ⟨hpos, h⟩ := Option.ite_none_left_eq_some.mp h
  obtain ⟨heven, h⟩ := Option.ite_none_left_eq_some.mp h
  cases h
  push Not at hpos heven
  obtain ⟨hw, hh⟩ := range_of_parseRaster hraster
  exact ⟨⟨hpos.1, hw, heven⟩, ⟨hpos.2, hh⟩, FrameRate.parsed_of_parse hr⟩

/-- Without a `p` or an `i` there is nothing to split. -/
theorem split_eq_none {text : List Char} (h : ∀ c ∈ text, c ≠ 'p' ∧ c ≠ 'i') :
    split text = none := by
  induction text with
  | nil => rfl
  | cons c text ih =>
    obtain ⟨hc, htext⟩ := List.forall_mem_cons.mp h
    simp [split, ih htext, hc]

/-- A text with one scan letter is split there, before a digit. -/
theorem split_append {raster rate : List Char} {c : Char} (hraster : ∀ c ∈ raster, c ≠ 'p' ∧ c ≠ 'i')
    (hrate : ∀ c ∈ rate, c ≠ 'p' ∧ c ≠ 'i') (hc : c = 'p' ∨ c = 'i') :
    split (raster ++ c :: rate) =
      if rate.head?.any Char.isDigit then some (raster, decide (c = 'i'), rate) else none := by
  induction raster with
  | nil => simp [split, split_eq_none hrate, hc]
  | cons x raster ih =>
    obtain ⟨hx, hraster⟩ := List.forall_mem_cons.mp hraster
    rw [List.cons_append, split, ih hraster]
    by_cases hd : rate.head?.any Char.isDigit <;> simp [hd, hx]

/-- A printed raster is read back. -/
theorem parseRaster_toString {width height : Int} (hw : 0 < width ∧ width < 2 ^ 31)
    (hh : 0 < height ∧ height < 2 ^ 31) :
    parseRaster (NumberText.toString width ++ 'x' :: NumberText.toString height) =
      some (width, height) := by
  have hx : ∀ c ∈ NumberText.toString width, c ≠ 'x' := by
    intro c hc hx
    have := NumberText.isNumeral_toString width c hc
    rw [hx] at this
    revert this
    decide
  obtain ⟨ht, hd⟩ := takeWhile_append (p := fun c ↦ c ≠ 'x')
    (fun c hc ↦ decide_eq_true (hx c hc)) ('x' :: NumberText.toString height) (by simp)
  rw [parseRaster, if_pos (by simp), ht, hd, List.drop_succ_cons, List.drop_zero,
    stoi_toString (by omega) hw.2, stoi_toString (by omega) hh.2]
  rfl

/-- A numeral has no letters, and no capital. -/
private theorem not_letter {c : Char} (h : isNumeral c) : (c ≠ 'p' ∧ c ≠ 'i') ∧ c.toLower = c := by
  have hdigits : ∀ c ∈ ['0', '1', '2', '3', '4', '5', '6', '7', '8', '9'],
      (c ≠ 'p' ∧ c ≠ 'i') ∧ c.toLower = c := by simp
  simp only [isNumeral, Bool.or_eq_true, decide_eq_true_eq] at h
  rcases h with (h | rfl) | rfl
  · exact hdigits c (mem_of_isDigit h)
  · decide
  · decide

/-- A printed format is read back when its printed rate is. -/
theorem parse_toString {f : VideoFormat} (h : f.Parsed) :
    parse f.toString =
      if f.rate.toString.head?.any Char.isDigit then
        (FrameRate.parse f.rate.toString).map fun rate ↦ { f with rate }
      else none := by
  obtain ⟨width, height, rate, interlaced⟩ := f
  obtain ⟨⟨hw, hwl, heven⟩, ⟨hh, hhl⟩, hrate⟩ := h
  dsimp only at *
  have hwc := NumberText.isNumeral_toString width
  have hhc := NumberText.isNumeral_toString height
  have hrc := FrameRate.isNumeral_toString hrate
  have hraster : ∀ c ∈ NumberText.toString width ++ 'x' :: NumberText.toString height,
      c ≠ 'p' ∧ c ≠ 'i' := by
    intro c hc
    rcases List.mem_append.mp hc with hc | hc
    · exact (not_letter (hwc c hc)).1
    · rcases List.mem_cons.mp hc with rfl | hc
      · decide
      · exact (not_letter (hhc c hc)).1
  have hlower {text : List Char} (h : ∀ c ∈ text, isNumeral c) : text.map Char.toLower = text :=
    (List.map_congr_left fun c hc ↦ (not_letter (h c hc)).2).trans (List.map_id' text)
  have htext : (toString ⟨width, height, rate, interlaced⟩).toList.map Char.toLower =
      (NumberText.toString width ++ 'x' :: NumberText.toString height) ++
        (if interlaced then 'i' else 'p') :: rate.toString := by
    rw [toString, String.toList_ofList]
    simp only [List.map_append, List.map_cons, hlower hwc, hlower hhc, hlower hrc,
      List.append_assoc, List.cons_append]
    cases interlaced <;> rfl
  rw [parse, htext, split_append hraster
    (fun c hc ↦ (not_letter (hrc c hc)).1) (by cases interlaced <;> simp)]
  split
  · cases hp : FrameRate.parse rate.toString with
    | none => simp [hp]
    | some k =>
      have hpos : ¬(width ≤ 0 ∨ height ≤ 0) := by omega
      simp only [Option.bind_eq_bind, Option.bind_some, hp, parseRaster_toString ⟨hw, hwl⟩ ⟨hh, hhl⟩,
        hpos, heven, ne_eq, not_true_eq_false, if_false, Option.map_some]
      cases interlaced <;> rfl
  · rfl

/-- A format that was read is read back from its text as an equal one, exactly when its rate
is. -/
theorem roundTrip_iff {text : String} {f : VideoFormat} (h : parse text = some f) :
    (∃ g, parse f.toString = some g ∧ g.equal f) ↔ f.rate.reads := by
  have hf := parsed_of_parse h
  rw [parse_toString hf]
  constructor
  · rintro ⟨g, hg, he⟩
    obtain ⟨-, hg⟩ := Option.ite_none_right_eq_some.mp hg
    obtain ⟨k, hk, rfl⟩ := Option.map_eq_some_iff.mp hg
    exact FrameRate.reads_of_parse hf.rate hk (by simpa [equal] using he)
  · intro hr
    obtain ⟨k, hk, he, hd⟩ := FrameRate.exists_parse_of_reads hf.rate hr
    refine ⟨{ f with rate := k }, ?_, by simpa [equal] using he⟩
    rw [if_pos hd, hk]
    rfl

/-- A rate over 1001 is read back from its two decimals. -/
theorem roundTrip_1080p5994 :
    (∃ g, parse (toString ⟨1920, 1080, ⟨60000, 1001⟩, false⟩) = some g ∧
      g.equal ⟨1920, 1080, ⟨60000, 1001⟩, false⟩) ↔ (⟨60000, 1001⟩ : FrameRate).reads :=
  @roundTrip_iff "1080p59.94" ⟨1920, 1080, ⟨60000, 1001⟩, false⟩ (by decide +kernel)

/-- An interlaced frame rate that is not quite 30 is read back as 30. -/
theorem roundTrip_1080i : ¬∀ (text : String) (f : VideoFormat), parse text = some f →
    ∃ g, parse f.toString = some g ∧ g.equal f := by
  intro h
  have hparse : parse "1080i30001/1000" = some ⟨1920, 1080, ⟨30001, 1000⟩, true⟩ := by
    decide +kernel
  obtain ⟨g, hg, he⟩ := h _ _ hparse
  have hback : parse (toString ⟨1920, 1080, ⟨30001, 1000⟩, true⟩) =
      some ⟨1920, 1080, ⟨30, 1⟩, true⟩ := by
    decide +kernel
  rw [hback] at hg
  cases hg
  revert he
  decide

end VideoFormat
end WebLinked.Core
