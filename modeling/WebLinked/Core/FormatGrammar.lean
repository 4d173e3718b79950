import Mathlib
import WebLinked.Base.Numeral
import WebLinked.Core.UsableFormats

/-!
# What a format is written as

`src/core/video_format.cpp:46–101,162–230`. The grammar that the parser is meant to accept, and what
it accepts besides: `stoi` passes blanks and a sign and stops at what is no digit, a decimal need
only be near a rate or a whole number, and no number has room from 2^31 on.
-/

namespace WebLinked.Core

open WebLinked.Base NumberText

/-- A number in digits. -/
def IsDigits (text : List Char) : Prop := text ≠ [] ∧ ∀ c ∈ text, c.isDigit = true

/-- The value of digits. -/
def ofDigits (text : List Char) : ℕ := Nat.ofDigitChars 10 text 0

namespace FrameRate

/-- A decimal number: digits, and digits after a point if there is one. -/
def IsDecimal (text : List Char) (q : ℚ) : Prop :=
  IsDigits text ∧ q = ofDigits text ∨
    ∃ whole fraction, text = whole ++ '.' :: fraction ∧ IsDigits whole ∧ IsDigits fraction ∧
      q = ofDigits (whole ++ fraction) / 10 ^ fraction.length

/-- A decimal is one of the rates over 1001: the rate, rounded to two or more decimals. -/
def Names (q : ℚ) (r : FrameRate) : Prop :=
  r ∈ kFractional ∧ ∃ places : ℕ, 2 ≤ places ∧ q = round (r.toRat * 10 ^ places) / 10 ^ places

/-- A rate as it is to be written: two positive numbers around a slash, or a decimal that is one of
the rates over 1001 or a positive integer. -/
def Spells (text : List Char) (r : FrameRate) : Prop :=
  (∃ num den, text = num ++ '/' :: den ∧ IsDigits num ∧ IsDigits den ∧ 0 < ofDigits num ∧
    0 < ofDigits den ∧ r = ⟨ofDigits num, ofDigits den⟩) ∨
  ∃ q, IsDecimal text q ∧ (Names q r ∨ ∃ n : ℕ, 0 < n ∧ q = n ∧ r = ⟨n, 1⟩)

/-- Two numbers that `stoi` finds positive, or what `stod` reads to its end as a positive number
near a rate over 1001 or an integer. -/
def Readable (text : List Char) : Prop :=
  if '/' ∈ text then
    (∃ num, stoi (text.takeWhile (· ≠ '/')) = some num ∧ 0 < num) ∧
      ∃ den, stoi ((text.dropWhile (· ≠ '/')).drop 1) = some den ∧ 0 < den
  else
    ∃ value, stod text = some (value, text.length) ∧ value.le (.ofInt 0) = false ∧
      (nearFractional value ≠ none ∨ nearInteger value = true)

/-- Nothing but digits around a slash, or a decimal that is one of the rates over 1001 or an
integer. -/
def Exact (text : List Char) : Prop :=
  (∃ num den, text = num ++ '/' :: den ∧ IsDigits num ∧ IsDigits den) ∨
  ∃ q, IsDecimal text q ∧ ((∃ r, Names q r) ∨ ∃ n : ℕ, q = n)

end FrameRate

namespace VideoFormat

/-- A raster as it is to be written: a listed one, or two numbers around an `x`. -/
def SpellsRaster (raster : List Char) (width height : ℤ) : Prop :=
  (∃ shorthand, (shorthand, width, height) ∈ standardRasters ∧ raster = shorthand.toList) ∨
  ∃ w h, raster = w ++ 'x' :: h ∧ IsDigits w ∧ IsDigits h ∧ 0 < ofDigits w ∧ 2 ∣ ofDigits w ∧
    0 < ofDigits h ∧ width = ofDigits w ∧ height = ofDigits h

/-- A format as it is to be written, in any case. -/
def Spells (text : String) (f : VideoFormat) : Prop :=
  ∃ raster rate, text.toList.map Char.toLower =
      raster ++ (if f.interlaced then 'i' else 'p') :: rate ∧
    SpellsRaster raster f.width f.height ∧ FrameRate.Spells rate f.rate

/-- A listed raster, or two numbers that `stoi` finds positive, the first of them even. -/
def ReadableRaster (raster : List Char) : Prop :=
  if 'x' ∈ raster then
    (∃ width, stoi (raster.takeWhile (· ≠ 'x')) = some width ∧ 0 < width ∧ 2 ∣ width) ∧
      ∃ height, stoi ((raster.dropWhile (· ≠ 'x')).drop 1) = some height ∧ 0 < height
  else ∃ r ∈ standardRasters, raster = r.1.toList

/-- A listed raster, or nothing but digits around an `x`. -/
def ExactRaster (raster : List Char) : Prop :=
  (∃ r ∈ standardRasters, raster = r.1.toList) ∨
    ∃ w h, raster = w ++ 'x' :: h ∧ IsDigits w ∧ IsDigits h

/-- The raster and the rate before and after the last `p` or `i` with a digit after it can be read,
but one of them has more than its numbers or a decimal that is only near a rate; or they are
written as they are to be, but a number is too large. -/
def Misread (text : String) : Prop :=
  ∃ raster interlaced rate, split (text.toList.map Char.toLower) = some (raster, interlaced, rate) ∧
    (ReadableRaster raster ∧ FrameRate.Readable rate ∧
        ¬ (ExactRaster raster ∧ FrameRate.Exact rate) ∨
      ∃ width height r, SpellsRaster raster width height ∧ FrameRate.Spells rate r ∧
        (2 ^ 31 ≤ width ∨ 2 ^ 31 ≤ height ∨ 2 ^ 31 ≤ r.numerator ∨ 2 ^ 31 ≤ r.denominator))

end VideoFormat

/-! ### Numbers in digits -/

section Digits

variable {text : List Char}

theorem IsDigits.head? (h : IsDigits text) : ∀ c ∈ text.head?, c.isDigit = true :=
  fun c hc ↦ h.2 c (List.mem_of_mem_head? hc)

/-- `stoi` reads digits, of a number it has room for. -/
theorem stoi_of_isDigits (h : IsDigits text) :
    stoi text = if ofDigits text < 2 ^ 31 then some (ofDigits text : ℤ) else none := by
  have hsign := takeSign_sign false h.head?
  rw [sign, if_neg Bool.false_ne_true, List.nil_append] at hsign
  have htake : text.takeWhile Char.isDigit = text := List.takeWhile_eq_self_iff.mpr h.2
  rw [stoi, hsign]
  dsimp only
  rw [htake, if_neg h.1]
  change (if -2 ^ 31 ≤ (ofDigits text : ℤ) ∧ (ofDigits text : ℤ) < 2 ^ 31 then _ else _) = _
  by_cases hlt : ofDigits text < 2 ^ 31
  · rw [if_pos hlt, if_pos (by omega)]
    rfl
  · rw [if_neg hlt, if_neg (by omega)]

/-- Where digits meet a separator. -/
theorem takeWhile_separated {a b : List Char} {c : Char} (ha : c ∉ a) :
    c ∈ a ++ c :: b ∧ (a ++ c :: b).takeWhile (· ≠ c) = a ∧
      ((a ++ c :: b).dropWhile (· ≠ c)).drop 1 = b := by
  have hne : ∀ x ∈ a, (x ≠ c : Bool) = true := by
    intro x hx
    rw [decide_eq_true_eq]
    rintro rfl
    exact ha hx
  refine ⟨by simp, ?_, ?_⟩
  · rw [List.takeWhile_append_of_pos hne, List.takeWhile_cons_of_neg (by simp), List.append_nil]
  · rw [List.dropWhile_append_of_pos hne, List.dropWhile_cons_of_neg (by simp)]
    rfl

theorem IsDigits.not_mem (h : IsDigits text) {c : Char} (hc : c.isDigit = false) : c ∉ text := by
  intro hmem
  rw [h.2 c hmem] at hc
  cases hc

end Digits

/-! ### Decimals -/

namespace FrameRate

variable {text : List Char} {q : ℚ} {r : FrameRate}

/-- `strtod` reads a decimal as the double nearest to it. -/
theorem strtod_of_isDecimal (h : IsDecimal text q) : strtod text = some (.ofRat false q []) := by
  obtain ⟨hdigits, rfl⟩ | ⟨whole, fraction, rfl, hwhole, hfraction, rfl⟩ := h
  · let n : Numeral :=
      { neg := false
        whole := text
        whole_ne_nil := hdigits.1
        isDigit := by simpa using hdigits.2
        isDigit_exponent := by simp }
    have htext : n.text = text := by
      simp [n, Numeral.text, Numeral.unsigned, Numeral.tail, sign, point]
    have hsize : n.size = ofDigits text := by simp [n, Numeral.size, Numeral.order, ofDigits]
    rw [← hsize, ← htext]
    exact n.strtod_text
  · let n : Numeral :=
      { neg := false
        whole := whole
        fraction := fraction
        whole_ne_nil := hwhole.1
        isDigit := by
          intro c hc
          exact (List.mem_append.mp hc).elim (hwhole.2 c) (hfraction.2 c)
        isDigit_exponent := by simp }
    have htext : n.text = whole ++ '.' :: fraction := by
      simp [n, Numeral.text, Numeral.unsigned, Numeral.tail, sign, point, hfraction.1]
    have hsize : n.size = ofDigits (whole ++ fraction) / 10 ^ fraction.length := by
      simp [n, Numeral.size, Numeral.order, ofDigits, zpow_neg, div_eq_mul_inv]
    rw [← hsize, ← htext]
    exact n.strtod_text

theorem IsDecimal.not_mem (h : IsDecimal text q) : '/' ∉ text := by
  obtain ⟨hdigits, -⟩ | ⟨whole, fraction, rfl, hwhole, hfraction, -⟩ := h
  · exact hdigits.not_mem (by decide)
  · rw [List.mem_append, List.mem_cons, not_or, not_or]
    exact ⟨hwhole.not_mem (by decide), by decide, hfraction.not_mem (by decide)⟩

theorem IsDecimal.ne_nil (h : IsDecimal text q) : text ≠ [] := by
  obtain ⟨hdigits, -⟩ | ⟨whole, fraction, rfl, -⟩ := h
  · exact hdigits.1
  · simp

/-- A positive integer with room in an `int` is read as itself. -/
theorem parseDecimal_of_natCast {n : ℕ} (h : IsDecimal text n) (hpos : 0 < n) (hlt : n < 2 ^ 31) :
    parseDecimal text = some ⟨n, 1⟩ := by
  refine parseDecimal_natCast hpos hlt ?_
  have hof : Double.ofInt n = Double.ofRat false n := by
    rw [Double.ofInt_natCast (by omega), Double.ofRat_natCast false (by omega)]
  rw [stod, strtod_of_isDecimal h, Conversion.ofRat_eq false n.cast_nonneg
    (lt_overflow (by exact_mod_cast (by omega : n < 2 ^ 53))) (nearest_natCast (by omega)), hof]
  rfl

/-! ### Decimals near a rate -/

section Near

variable {x a : Double}

/-- What the parser takes for a hundredth is near one. -/
theorem nearest_hundredth :
    8 / 1000 < nearest |(1 / 100 : ℚ)| ∧ nearest |(1 / 100 : ℚ)| < 11 / 1000 := by
  have hround := abs_le.mp
    (abs_sub_nearest_le_of_le_one (abs_nonneg (1 / 100 : ℚ)) (by norm_num [abs_le]))
  have habs : |(1 / 100 : ℚ)| = 1 / 100 := abs_of_pos (by norm_num)
  have hsmall : (1 : ℚ) / 2 ^ 53 < 1 / 1000 := by norm_num
  rw [habs] at hround ⊢
  constructor
  · linarith [hround.2]
  · linarith [hround.1]

theorem near_of_abs_le (hx : x.isFinite = true) (ha : a.isFinite = true)
    (h : |x.toRat - a.toRat| ≤ 7 / 1000) :
    (x.sub a).abs.lt (.ofRat false (1 / 100)) = true := by
  have hhundredth := nearest_hundredth.1
  cases x with
  | nan => cases hx
  | inf neg => cases hx
  | finite neg size =>
    cases a with
    | nan => cases ha
    | inf neg => cases ha
    | finite neg' size' =>
      rw [Double.abs_sub_finite, Double.ofRat_lt]
      have hround := abs_le.mp (abs_sub_nearest_le_of_le_one (abs_nonneg _) (h.trans (by norm_num)))
      have hle : nearest |(Double.finite neg size).toRat - (Double.finite neg' size').toRat| <
          8 / 1000 := by
        have hsmall : (1 : ℚ) / 2 ^ 53 < 1 / 1000 := by norm_num
        linarith [hround.1]
      exact ⟨hle.trans hhundredth, lt_overflow (hle.trans (by norm_num))⟩

theorem far_of_le_abs (hx : x.isFinite = true) (ha : a.isFinite = true)
    (h : 1 / 2 ≤ |x.toRat - a.toRat|) :
    (x.sub a).abs.lt (.ofRat false (1 / 100)) = false := by
  have hhundredth := nearest_hundredth.2
  cases x with
  | nan => cases hx
  | inf neg => cases hx
  | finite neg size =>
    cases a with
    | nan => cases ha
    | inf neg => cases ha
    | finite neg' size' =>
      rw [Double.abs_sub_finite, Bool.eq_false_iff]
      intro hlt
      have hlt := ((Double.ofRat_lt _ _).mp hlt).1
      generalize (Double.finite neg size).toRat - (Double.finite neg' size').toRat = d at *
      have hnormal : (2 : ℚ) ^ (-1022 : ℤ) ≤ |d| :=
        calc (2 : ℚ) ^ (-1022 : ℤ) ≤ 2 ^ (-1 : ℤ) :=
              zpow_le_zpow_right₀ (by norm_num) (by norm_num)
          _ = 1 / 2 := by norm_num
          _ ≤ |d| := h
      have hround := (abs_le.mp (abs_sub_nearest_le hnormal)).2
      linarith

end Near

theorem abs_sub_le_of_names (h : Names q r) : |q - r.toRat| ≤ 1 / 200 := by
  obtain ⟨-, places, hplaces, rfl⟩ := h
  have hpos : (0 : ℚ) < 10 ^ places := by positivity
  have hle : (10 : ℚ) ^ 2 ≤ 10 ^ places := pow_le_pow_right₀ (by norm_num) hplaces
  have hround := abs_sub_round (r.toRat * 10 ^ places)
  have heq : (round (r.toRat * 10 ^ places) : ℚ) / 10 ^ places - r.toRat =
      -((r.toRat * 10 ^ places - round (r.toRat * 10 ^ places)) / 10 ^ places) := by
    field_simp
    ring
  rw [heq, abs_neg, abs_div, abs_of_pos hpos, div_le_iff₀ hpos]
  linarith

/-- How large the rates over 1001 are. -/
theorem toRat_of_mem_kFractional (h : r ∈ kFractional) : 2 ≤ r.toRat ∧ r.toRat ≤ 120 := by
  fin_cases h <;> norm_num [FrameRate.toRat, Rat.divInt_eq_div]

/-- The double of a decimal that is one of the rates over 1001. -/
theorem ofRat_of_names (h : Names q r) : 1 ≤ q ∧ (Double.ofRat false q).isFinite = true ∧
    |(Double.ofRat false q).toRat - r.toRat| ≤ 6 / 1000 := by
  obtain ⟨hlow, hhigh⟩ := toRat_of_mem_kFractional h.1
  have habs := abs_le.mp (abs_sub_le_of_names h)
  have hq : 1 ≤ q := by linarith [habs.1]
  have hnormal : (2 : ℚ) ^ (-1022 : ℤ) ≤ q :=
    (zpow_le_one_of_nonpos₀ (by norm_num) (by norm_num)).trans hq
  have hround := abs_le.mp (abs_sub_nearest_le hnormal)
  have hsmall : q / 2 ^ 53 ≤ 1 / 10000 := by
    rw [div_le_iff₀ (by positivity)]
    have hpow : (2 : ℚ) ^ 53 = 9007199254740992 := by norm_num
    rw [hpow]
    linarith [habs.2]
  have hlt : nearest |q| < overflow := by
    rw [abs_of_nonneg (by linarith)]
    apply lt_overflow
    have hpow : (1000 : ℚ) < 2 ^ 53 := by norm_num
    linarith [hround.1, habs.2]
  have hvalue : (Double.ofRat false q).isFinite = true ∧
      (Double.ofRat false q).toRat = nearest q := by
    rw [Double.ofRat, dif_pos hlt]
    refine ⟨rfl, ?_⟩
    rw [Double.toRat, if_neg Bool.false_ne_true]
    dsimp only
    rw [abs_of_nonneg (by linarith : (0 : ℚ) ≤ q)]
  refine ⟨hq, hvalue.1, ?_⟩
  rw [hvalue.2, abs_le]
  constructor
  · linarith [hround.2, habs.1]
  · linarith [hround.1, habs.2]

/-- Each of the rates over 1001 has its decimal listed, and every other one listed is far. -/
theorem kApproximate_spec : ∀ k ∈ kFractional,
    (∃ f ∈ kApproximate.zip kFractional, f.2 = k ∧ |f.1.toRat - k.toRat| ≤ 1 / 1000) ∧
      ∀ f ∈ kApproximate.zip kFractional,
        f.1.isFinite = true ∧ (f.2 = k ∨ 1 ≤ |f.1.toRat - k.toRat|) := by
  decide +kernel

/-- A decimal that is one of the rates over 1001 is near that one and no other. -/
theorem nearFractional_of_names (h : Names q r) :
    nearFractional (Double.ofRat false q) = some r := by
  obtain ⟨-, hfinite, hnear⟩ := ofRat_of_names h
  generalize Double.ofRat false q = value at *
  obtain ⟨⟨f, hf, rfl, hclose⟩, hall⟩ := kApproximate_spec r h.1
  have hnear' := abs_le.mp hnear
  have hfound : ((kApproximate.zip kFractional).find? fun f ↦
      (value.sub f.1).abs.lt (.ofRat false (1 / 100))).isSome := by
    rw [List.find?_isSome]
    refine ⟨f, hf, near_of_abs_le hfinite (hall f hf).1 ?_⟩
    have hclose := abs_le.mp hclose
    rw [abs_le]
    constructor
    · linarith [hnear'.1, hclose.2]
    · linarith [hnear'.2, hclose.1]
  obtain ⟨g, hg⟩ := Option.isSome_iff_exists.mp hfound
  have hmem := List.mem_of_find?_eq_some hg
  have hlt := List.find?_some hg
  rw [nearFractional, hg, Option.map_some, Option.some.injEq]
  obtain ⟨hgfinite, heq | hfar⟩ := hall g hmem
  · exact heq
  · -- What is far from the rate is not near the value.
    have hvalue : 1 / 2 ≤ |value.toRat - g.1.toRat| := by
      have htriangle := abs_sub_abs_le_abs_sub (g.1.toRat - f.2.toRat) (g.1.toRat - value.toRat)
      rw [sub_sub_sub_cancel_left, abs_sub_comm g.1.toRat value.toRat] at htriangle
      linarith
    rw [far_of_le_abs hfinite hgfinite hvalue] at hlt
    cases hlt

theorem parseDecimal_of_names (hdecimal : IsDecimal text q) (h : Names q r) :
    parseDecimal text = some r := by
  obtain ⟨hone, hfinite, hnear⟩ := ofRat_of_names h
  have hfraction := nearFractional_of_names h
  have hnormal : ¬ q < 2 ^ (-1022 : ℤ) :=
    not_lt.mpr ((zpow_le_one_of_nonpos₀ (by norm_num) (by norm_num)).trans hone)
  have hstod : stod text = some (Double.ofRat false q, text.length) := by
    rw [stod, strtod_of_isDecimal hdecimal]
    dsimp only
    rw [Conversion.ofRat]
    dsimp only
    rw [hfinite, decide_eq_false hnormal]
    rfl
  have hpos : (Double.ofRat false q).le (.ofInt 0) = false := by
    have hlow := (toRat_of_mem_kFractional h.1).1
    have hnear := (abs_le.mp hnear).1
    have hzero := Double.toRat_ofInt (n := 0) (by decide)
    rw [Double.ofInt_eq (by decide)] at hzero ⊢
    cases hvalue : Double.ofRat false q with
    | nan => rfl
    | inf neg => rw [hvalue] at hfinite; cases hfinite
    | finite neg size =>
      rw [hvalue] at hnear
      simp only [Double.le, Double.lt, hzero, Bool.not_eq_false', decide_eq_true_eq]
      have hcast : ((0 : ℤ) : ℚ) = 0 := Int.cast_zero
      linarith
  rw [nearFractional] at hfraction
  obtain ⟨f, hf, rfl⟩ := Option.map_eq_some_iff.mp hfraction
  rw [parseDecimal, hstod]
  simp only [Option.bind_eq_bind, Option.bind_some, ne_eq, not_true_eq_false, if_false, hpos, hf,
    Bool.false_eq_true]

/-! ### Rates -/

theorem parse_of_spells (h : Spells text r) (hnum : r.numerator < 2 ^ 31)
    (hden : r.denominator < 2 ^ 31) : parse text = some r := by
  obtain ⟨num, den, rfl, hdigits, hdigits', hpos, hpos', rfl⟩ | ⟨q, hdecimal, hvalue⟩ := h
  · obtain ⟨hmem, htake, hdrop⟩ := takeWhile_separated (b := den) (hdigits.not_mem (c := '/') rfl)
    dsimp only at hnum hden
    rw [parse, if_neg (by simp), if_pos hmem, htake, hdrop, parseFraction,
      stoi_of_isDigits hdigits, if_pos (by omega), stoi_of_isDigits hdigits', if_pos (by omega)]
    exact if_neg (by omega)
  · rw [parse, if_neg hdecimal.ne_nil, if_neg hdecimal.not_mem]
    obtain hnames | ⟨n, hpos, rfl, rfl⟩ := hvalue
    · exact parseDecimal_of_names hdecimal hnames
    · dsimp only at hnum
      exact parseDecimal_of_natCast hdecimal hpos (by omega)

theorem readable_of_parse (h : parse text = some r) : Readable text := by
  unfold parse at h
  obtain ⟨-, h⟩ := Option.ite_none_left_eq_some.mp h
  unfold Readable
  by_cases hslash : '/' ∈ text
  · rw [if_pos hslash] at h ⊢
    unfold parseFraction at h
    obtain ⟨num, hnum, h⟩ := Option.bind_eq_some_iff.mp h
    obtain ⟨den, hden, h⟩ := Option.bind_eq_some_iff.mp h
    have hpos := (Option.ite_none_left_eq_some.mp h).1
    exact ⟨⟨num, hnum, by omega⟩, den, hden, by omega⟩
  · rw [if_neg hslash] at h ⊢
    obtain ⟨value, hstod, hpos, hnear | ⟨-, hnear, -⟩⟩ := parseDecimal_cases h
    · exact ⟨value, hstod, hpos, Or.inl (by rw [hnear]; exact Option.some_ne_none _)⟩
    · exact ⟨value, hstod, hpos, Or.inr hnear⟩

theorem exists_parse_of_readable (h : Readable text) : ∃ r, parse text = some r := by
  unfold Readable at h
  by_cases hslash : '/' ∈ text
  · rw [if_pos hslash] at h
    obtain ⟨⟨num, hnum, hpos⟩, den, hden, hpos'⟩ := h
    refine ⟨⟨num, den⟩, ?_⟩
    rw [parse, if_neg (List.ne_nil_of_mem hslash), if_pos hslash, parseFraction, hnum, hden]
    exact if_neg (by omega)
  · rw [if_neg hslash] at h
    obtain ⟨value, hstod, hpos, hnear⟩ := h
    have hne : text ≠ [] := by
      rintro rfl
      cases hstod
    rw [parse, if_neg hne, if_neg hslash, parseDecimal, hstod]
    simp only [Option.bind_eq_bind, Option.bind_some, ne_eq, not_true_eq_false, if_false, hpos,
      Bool.false_eq_true]
    split
    · exact ⟨_, rfl⟩
    · next hfind =>
      have hinteger : nearInteger value = true := by
        refine hnear.resolve_left ?_
        rw [not_not, nearFractional, hfind]
        rfl
      exact ⟨_, if_pos hinteger⟩

theorem Spells.exact (h : Spells text r) : Exact text := by
  obtain ⟨num, den, rfl, hdigits, hdigits', -⟩ | ⟨q, hdecimal, hnames | ⟨n, -, hn, -⟩⟩ := h
  · exact Or.inl ⟨num, den, rfl, hdigits, hdigits'⟩
  · exact Or.inr ⟨q, hdecimal, Or.inl ⟨r, hnames⟩⟩
  · exact Or.inr ⟨q, hdecimal, Or.inr ⟨n, hn⟩⟩

theorem pos_of_stoi (h : IsDigits text) {n : ℤ} (hn : stoi text = some n) (hpos : 0 < n) :
    0 < ofDigits text := by
  rw [stoi_of_isDigits h] at hn
  obtain ⟨-, hn⟩ := Option.ite_none_right_eq_some.mp hn
  cases hn
  omega

/-- Nothing but its numbers, a rate that can be read is one. -/
theorem Exact.exists_spells (h : Exact text) (hread : Readable text) : ∃ r, Spells text r := by
  unfold Readable at hread
  obtain ⟨num, den, rfl, hdigits, hdigits'⟩ | ⟨q, hdecimal, ⟨r, hnames⟩ | ⟨n, rfl⟩⟩ := h
  · obtain ⟨hmem, htake, hdrop⟩ := takeWhile_separated (b := den) (hdigits.not_mem (c := '/') rfl)
    rw [if_pos hmem, htake, hdrop] at hread
    obtain ⟨⟨n, hn, hpos⟩, d, hd, hpos'⟩ := hread
    exact ⟨_, Or.inl ⟨num, den, rfl, hdigits, hdigits', pos_of_stoi hdigits hn hpos,
      pos_of_stoi hdigits' hd hpos', rfl⟩⟩
  · exact ⟨r, Or.inr ⟨q, hdecimal, Or.inl hnames⟩⟩
  · rw [if_neg hdecimal.not_mem] at hread
    obtain ⟨value, hstod, hpos, -⟩ := hread
    have hn : n ≠ 0 := by
      rintro rfl
      rw [stod, strtod_of_isDecimal hdecimal, Nat.cast_zero, Conversion.ofRat_eq false le_rfl
        (lt_overflow (by norm_num)) (by simp [nearest, roundEven])] at hstod
      cases hstod
      have hzero : Double.ofRat false 0 = .ofInt 0 := by simp [Double.ofInt]
      have hle := Double.ofInt_le (m := 0) (n := 0) (by decide) (by decide)
      dsimp only at hpos
      rw [hzero, hle] at hpos
      cases hpos
    exact ⟨⟨n, 1⟩, Or.inr ⟨n, hdecimal, Or.inr ⟨n, Nat.pos_of_ne_zero hn, rfl, rfl⟩⟩⟩

theorem Exact.cons_digit (h : Exact text) :
    text.head?.any Char.isDigit = true ∧ ∀ c ∈ text, c.isDigit = true ∨ c = '/' ∨ c = '.' := by
  have hhead : ∀ {digits rest : List Char}, IsDigits digits →
      (digits ++ rest).head?.any Char.isDigit = true := by
    intro digits rest hdigits
    obtain ⟨c, digits', rfl⟩ := List.exists_cons_of_ne_nil hdigits.1
    exact hdigits.2 c (List.mem_cons_self ..)
  have hall : ∀ {digits rest : List Char} {x : Char}, IsDigits digits → IsDigits rest →
      ∀ c ∈ digits ++ x :: rest, c.isDigit = true ∨ c = x := by
    intro digits rest x hdigits hrest c hc
    rw [List.mem_append, List.mem_cons] at hc
    obtain hc | rfl | hc := hc
    · exact Or.inl (hdigits.2 c hc)
    · exact Or.inr rfl
    · exact Or.inl (hrest.2 c hc)
  obtain ⟨num, den, rfl, hdigits, hdigits'⟩ | ⟨q, hdecimal, -⟩ := h
  · exact ⟨hhead hdigits, fun c hc ↦ (hall hdigits hdigits' c hc).imp_right Or.inl⟩
  · obtain ⟨hdigits, -⟩ | ⟨whole, fraction, rfl, hwhole, hfraction, -⟩ := hdecimal
    · refine ⟨?_, fun c hc ↦ Or.inl (hdigits.2 c hc)⟩
      rw [← List.append_nil text]
      exact hhead hdigits
    · exact ⟨hhead hwhole, fun c hc ↦ (hall hwhole hfraction c hc).imp_right Or.inr⟩

end FrameRate

/-! ### Rasters -/

namespace VideoFormat

variable {raster rate : List Char} {width height : ℤ} {interlaced : Bool} {text : String}

theorem standardRasters_spec : ∀ r ∈ standardRasters, 0 < r.2.1 ∧ r.2.1 < 2 ^ 31 ∧ 2 ∣ r.2.1 ∧
    0 < r.2.2 ∧ r.2.2 < 2 ^ 31 ∧ 'x' ∉ r.1.toList ∧
    (standardRasters.find? fun s ↦ s.1.toList = r.1.toList) = some r := by
  decide

theorem SpellsRaster.spec (h : SpellsRaster raster width height) :
    0 < width ∧ 2 ∣ width ∧ 0 < height := by
  obtain ⟨shorthand, hmem, -⟩ | ⟨w, h', -, -, -, hw, heven, hh, rfl, rfl⟩ := h
  · obtain ⟨hw, -, heven, hh, -⟩ := standardRasters_spec _ hmem
    exact ⟨hw, heven, hh⟩
  · omega

theorem parseRaster_of_spells (h : SpellsRaster raster width height) (hw : width < 2 ^ 31)
    (hh : height < 2 ^ 31) : parseRaster raster = some (width, height) := by
  obtain ⟨shorthand, hmem, rfl⟩ | ⟨w, h', rfl, hdigits, hdigits', -, -, -, rfl, rfl⟩ := h
  · obtain ⟨-, -, -, -, -, hx, hfind⟩ := standardRasters_spec _ hmem
    rw [parseRaster, if_neg hx, hfind]
    rfl
  · obtain ⟨hmem, htake, hdrop⟩ := takeWhile_separated (b := h') (hdigits.not_mem (c := 'x') rfl)
    rw [parseRaster, if_pos hmem, htake, hdrop, stoi_of_isDigits hdigits, if_pos (by omega),
      stoi_of_isDigits hdigits', if_pos (by omega)]
    rfl

theorem readableRaster_of_parseRaster (h : parseRaster raster = some (width, height))
    (hw : 0 < width) (heven : 2 ∣ width) (hh : 0 < height) : ReadableRaster raster := by
  unfold parseRaster at h
  unfold ReadableRaster
  by_cases hx : 'x' ∈ raster
  · rw [if_pos hx] at h ⊢
    obtain ⟨w, hw', h⟩ := Option.bind_eq_some_iff.mp h
    obtain ⟨h', hh', h⟩ := Option.bind_eq_some_iff.mp h
    cases h
    exact ⟨⟨_, hw', hw, heven⟩, _, hh', hh⟩
  · rw [if_neg hx] at h ⊢
    obtain ⟨r, hr, -⟩ := Option.map_eq_some_iff.mp h
    have heq := List.find?_some hr
    rw [decide_eq_true_eq] at heq
    exact ⟨r, List.mem_of_find?_eq_some hr, heq.symm⟩

theorem exists_parseRaster_of_readable (h : ReadableRaster raster) :
    ∃ width height, parseRaster raster = some (width, height) ∧ 0 < width ∧ 2 ∣ width ∧
      0 < height := by
  unfold ReadableRaster at h
  by_cases hx : 'x' ∈ raster
  · rw [if_pos hx] at h
    obtain ⟨⟨width, hw, hpos, heven⟩, height, hh, hpos'⟩ := h
    refine ⟨width, height, ?_, hpos, heven, hpos'⟩
    rw [parseRaster, if_pos hx, hw, hh]
    rfl
  · rw [if_neg hx] at h
    obtain ⟨⟨shorthand, width, height⟩, hmem, rfl⟩ := h
    obtain ⟨hw, hlt, heven, hh, hlt', -⟩ := standardRasters_spec _ hmem
    exact ⟨width, height, parseRaster_of_spells (Or.inl ⟨shorthand, hmem, rfl⟩) hlt hlt', hw, heven,
      hh⟩

theorem SpellsRaster.exact (h : SpellsRaster raster width height) : ExactRaster raster := by
  obtain ⟨shorthand, hmem, heq⟩ | ⟨w, h', heq, hdigits, hdigits', -⟩ := h
  · exact Or.inl ⟨_, hmem, heq⟩
  · exact Or.inr ⟨w, h', heq, hdigits, hdigits'⟩

theorem ExactRaster.exists_spells (h : ExactRaster raster) (hread : ReadableRaster raster) :
    ∃ width height, SpellsRaster raster width height := by
  obtain ⟨⟨shorthand, width, height⟩, hmem, rfl⟩ | ⟨w, h', rfl, hdigits, hdigits'⟩ := h
  · exact ⟨width, height, Or.inl ⟨shorthand, hmem, rfl⟩⟩
  · obtain ⟨hmem, htake, hdrop⟩ := takeWhile_separated (b := h') (hdigits.not_mem (c := 'x') rfl)
    rw [ReadableRaster, if_pos hmem, htake, hdrop] at hread
    obtain ⟨⟨width, hwidth, hpos, heven⟩, height, hheight, hpos'⟩ := hread
    have hw := FrameRate.pos_of_stoi hdigits hwidth hpos
    have hh := FrameRate.pos_of_stoi hdigits' hheight hpos'
    rw [stoi_of_isDigits hdigits] at hwidth
    obtain ⟨-, hwidth⟩ := Option.ite_none_right_eq_some.mp hwidth
    cases hwidth
    exact ⟨_, _, Or.inr ⟨w, h', rfl, hdigits, hdigits', hw, by omega, hh, rfl, rfl⟩⟩

/-! ### Formats -/

/-- The last `p` or `i` with a digit after it, whatever is before it. -/
theorem split_append_of_forall {c : Char} (raster : List Char)
    (hrate : ∀ c ∈ rate, c ≠ 'p' ∧ c ≠ 'i') (hhead : rate.head?.any Char.isDigit = true)
    (hc : c = 'p' ∨ c = 'i') :
    split (raster ++ c :: rate) = some (raster, decide (c = 'i'), rate) := by
  induction raster with
  | nil => simp [split, split_eq_none hrate, hhead, hc]
  | cons x raster ih => rw [List.cons_append, split, ih]

theorem eq_of_split {text : List Char} (h : split text = some (raster, interlaced, rate)) :
    text = raster ++ (if interlaced then 'i' else 'p') :: rate := by
  induction text generalizing raster with
  | nil => cases h
  | cons c text ih =>
    rw [split] at h
    cases hrest : split text with
    | some parts =>
      obtain ⟨raster', interlaced', rate'⟩ := parts
      rw [hrest] at h
      cases h
      rw [ih hrest, List.cons_append]
    | none =>
      rw [hrest] at h
      obtain ⟨⟨hc, -⟩, h⟩ := Option.ite_none_right_eq_some.mp h
      cases h
      obtain rfl | rfl := hc
      · rfl
      · rfl

/-- The parts of an accepted text. -/
theorem parse_eq_some_iff {f : VideoFormat} : parse text = some f ↔
    ∃ raster rate, split (text.toList.map Char.toLower) = some (raster, f.interlaced, rate) ∧
      parseRaster raster = some (f.width, f.height) ∧ FrameRate.parse rate = some f.rate ∧
      0 < f.width ∧ 2 ∣ f.width ∧ 0 < f.height := by
  constructor
  · intro h
    obtain ⟨⟨raster, interlaced, rate⟩, hsplit, h⟩ := Option.bind_eq_some_iff.mp h
    obtain ⟨r, hrate, h⟩ := Option.bind_eq_some_iff.mp h
    obtain ⟨⟨width, height⟩, hraster, h⟩ := Option.bind_eq_some_iff.mp h
    obtain ⟨hpos, h⟩ := Option.ite_none_left_eq_some.mp h
    obtain ⟨heven, h⟩ := Option.ite_none_left_eq_some.mp h
    cases h
    rw [not_not] at heven
    refine ⟨raster, rate, hsplit, hraster, hrate, ?_, Int.dvd_of_tmod_eq_zero heven, ?_⟩
    · dsimp only
      omega
    · dsimp only
      omega
  · rintro ⟨raster, rate, hsplit, hraster, hrate, hw, heven, hh⟩
    rw [parse, hsplit]
    simp only [Option.bind_eq_bind, Option.bind_some, hrate, hraster]
    rw [if_neg (by omega), if_neg (not_not.mpr (Int.tmod_eq_zero_of_dvd heven))]

/-- What is written as it is to be has one cut, into the parts it is written of. -/
theorem split_of_spells {text : List Char} {r : FrameRate} (hrate : FrameRate.Spells rate r)
    (heq : text = raster ++ (if interlaced then 'i' else 'p') :: rate) :
    split text = some (raster, interlaced, rate) := by
  obtain ⟨hhead, hall⟩ := hrate.exact.cons_digit
  have hletters : ∀ c ∈ rate, c ≠ 'p' ∧ c ≠ 'i' := by
    intro c hc
    constructor
    · rintro rfl
      exact absurd (hall 'p' hc) (by decide)
    · rintro rfl
      exact absurd (hall 'i' hc) (by decide)
  rw [heq, split_append_of_forall raster hletters hhead (by cases interlaced <;> simp)]
  cases interlaced <;> rfl

/-- The parser accepts what is written as it is to be and nothing else, as the format it spells,
exactly if the text is none that is misread. -/
theorem parse_iff_spells_iff (text : String) :
    (∀ f, parse text = some f ↔ Spells text f) ↔ ¬ Misread text := by
  constructor
  · rintro h ⟨raster, interlaced, rate, hsplit, hloose | hlarge⟩
    · obtain ⟨hraster, hrate, hexact⟩ := hloose
      obtain ⟨width, height, hparse, hw, heven, hh⟩ := exists_parseRaster_of_readable hraster
      obtain ⟨r, hr⟩ := FrameRate.exists_parse_of_readable hrate
      have hspells := (h ⟨width, height, r, interlaced⟩).mp
        (parse_eq_some_iff.mpr ⟨raster, rate, hsplit, hparse, hr, hw, heven, hh⟩)
      obtain ⟨raster', rate', heq, hraster', hrate'⟩ := hspells
      have hsame := split_of_spells hrate' heq
      rw [hsplit] at hsame
      cases hsame
      exact hexact ⟨hraster'.exact, hrate'.exact⟩
    · obtain ⟨width, height, r, hraster, hrate, hlarge⟩ := hlarge
      have hparse := (h ⟨width, height, r, interlaced⟩).mpr
        ⟨raster, rate, eq_of_split hsplit, hraster, hrate⟩
      obtain ⟨raster', rate', hsplit', hraster', hrate', -⟩ := parse_eq_some_iff.mp hparse
      have hrange := range_of_parseRaster hraster'
      have hparsed := FrameRate.parsed_of_parse hrate'
      have hnum := hparsed.numerator.2
      have hden := hparsed.denominator.2
      dsimp only at hrange hnum hden
      omega
  · intro h f
    constructor
    · intro hparse
      obtain ⟨raster, rate, hsplit, hraster, hrate, hw, heven, hh⟩ := parse_eq_some_iff.mp hparse
      have hread := readableRaster_of_parseRaster hraster hw heven hh
      have hread' := FrameRate.readable_of_parse hrate
      have hexact : ExactRaster raster ∧ FrameRate.Exact rate := by
        by_contra hexact
        exact h ⟨raster, f.interlaced, rate, hsplit, Or.inl ⟨hread, hread', hexact⟩⟩
      obtain ⟨width, height, hspells⟩ := hexact.1.exists_spells hread
      obtain ⟨r, hspells'⟩ := hexact.2.exists_spells hread'
      have hsmall : ¬ (2 ^ 31 ≤ width ∨ 2 ^ 31 ≤ height ∨ 2 ^ 31 ≤ r.numerator ∨
          2 ^ 31 ≤ r.denominator) := by
        intro hlarge
        exact h ⟨raster, f.interlaced, rate, hsplit,
          Or.inr ⟨width, height, r, hspells, hspells', hlarge⟩⟩
      rw [parseRaster_of_spells hspells (by omega) (by omega)] at hraster
      rw [FrameRate.parse_of_spells hspells' (by omega) (by omega)] at hrate
      cases hraster
      cases hrate
      exact ⟨raster, rate, eq_of_split hsplit, hspells, hspells'⟩
    · rintro ⟨raster, rate, heq, hraster, hrate⟩
      have hsplit := split_of_spells hrate heq
      have hsmall : ¬ (2 ^ 31 ≤ f.width ∨ 2 ^ 31 ≤ f.height ∨ 2 ^ 31 ≤ f.rate.numerator ∨
          2 ^ 31 ≤ f.rate.denominator) := by
        intro hlarge
        exact h ⟨raster, f.interlaced, rate, hsplit,
          Or.inr ⟨f.width, f.height, f.rate, hraster, hrate, hlarge⟩⟩
      rw [parse_eq_some_iff]
      exact ⟨raster, rate, hsplit, parseRaster_of_spells hraster (by omega) (by omega),
        FrameRate.parse_of_spells hrate (by omega) (by omega), hraster.spec⟩

/-- A sign before the width is passed. -/
theorem parse_sign :
    ¬ ∀ (text : String) (f : VideoFormat), parse text = some f ↔ Spells text f := by
  intro h
  have hparse : parse "+1920x1080p50" = some ⟨1920, 1080, ⟨50, 1⟩, false⟩ := by decide +kernel
  obtain ⟨raster, rate, heq, hraster, hrate⟩ := (h _ _).mp hparse
  have hhead : '+' ∈ raster.head? := by
    cases raster with
    | nil => cases heq
    | cons c raster =>
      have hc := (List.cons.inj heq).1
      rw [← hc]
      rfl
  obtain ⟨s, hmem, rfl⟩ | ⟨w, h', rfl, hdigits, -⟩ := hraster
  · have hall : ∀ r ∈ standardRasters, '+' ∉ r.1.toList := by decide
    exact hall _ hmem (List.mem_of_mem_head? hhead)
  · obtain ⟨c, w', rfl⟩ := List.exists_cons_of_ne_nil hdigits.1
    cases hhead
    exact absurd (hdigits.2 '+' (List.mem_cons_self ..)) (by decide)

end VideoFormat

end WebLinked.Core
