import WebLinked.Base.NumberText

/-!
# Decimal numerals

A number as `printf` writes it and `strtod` reads it: a sign, digits, digits after a point and
an exponent.
-/

namespace WebLinked.Base.NumberText

/-- Digits after a point, or nothing where there are none. -/
def point (fraction : List Char) : List Char := if fraction = [] then [] else '.' :: fraction

/-- The parts of a decimal number that is written out. -/
structure Numeral where
  neg : Bool
  whole : List Char
  fraction : List Char := []
  exponent : Option (Bool × List Char) := none
  whole_ne_nil : whole ≠ []
  isDigit : ∀ c ∈ whole ++ fraction, c.isDigit
  isDigit_exponent : ∀ e ∈ exponent, e.2 ≠ [] ∧ ∀ c ∈ e.2, c.isDigit

namespace Numeral

variable (n : Numeral)

/-- The exponent as it is written. -/
def tail : List Char :=
  n.exponent.elim [] fun (neg, digits) ↦ 'e' :: (if neg then '-' else '+') :: digits

/-- The number as it is written, without its sign. -/
def unsigned : List Char := n.whole ++ (point n.fraction ++ n.tail)

/-- The number as it is written. -/
def text : List Char := sign n.neg ++ n.unsigned

/-- The exponent. -/
def order : Int :=
  n.exponent.elim 0 fun (neg, digits) ↦
    let e : Int := Nat.ofDigitChars 10 digits 0
    if neg then -e else e

/-- The number without its sign. -/
def size : ℚ :=
  Nat.ofDigitChars 10 (n.whole ++ n.fraction) 0 * 10 ^ (n.order - n.fraction.length)

/-- Neither a digit nor a point comes first in the exponent. -/
theorem head_tail {rest : List Char} (hr : ∀ c ∈ rest.head?, c.isDigit = false ∧ c ≠ '.') :
    ∀ c ∈ (n.tail ++ rest).head?, c.isDigit = false ∧ c ≠ '.' := by
  unfold tail
  cases n.exponent with
  | none => exact hr
  | some e =>
    intro c hc
    cases hc
    decide

/-- The digits are taken up to the exponent. -/
theorem takeDigits_unsigned (rest : List Char)
    (hr : ∀ c ∈ rest.head?, c.isDigit = false ∧ c ≠ '.') :
    takeDigits Char.isDigit (n.unsigned ++ rest) = (n.whole, n.fraction, n.tail ++ rest) := by
  have hwhole (c : Char) (hc : c ∈ n.whole) := n.isDigit c (List.mem_append_left _ hc)
  have hfraction (c : Char) (hc : c ∈ n.fraction) := n.isDigit c (List.mem_append_right _ hc)
  have htail := n.head_tail hr
  rw [unsigned, List.append_assoc, List.append_assoc, point]
  split
  · next hf =>
    rw [hf, List.nil_append]
    exact takeDigits_whole hwhole _ htail
  · rw [List.cons_append]
    exact takeDigits_point (by decide) hwhole hfraction _ fun c hc ↦ (htail c hc).1

/-- What a number is written with. -/
theorem mem_unsigned {c : Char} (hc : c ∈ n.unsigned) :
    c.isDigit ∨ c ∈ ['.', 'e', '-', '+'] := by
  simp only [unsigned, List.mem_append] at hc
  rcases hc with hc | hc | hc
  · exact Or.inl (n.isDigit c (List.mem_append_left _ hc))
  · unfold point at hc
    split at hc
    · cases hc
    · rcases List.mem_cons.mp hc with rfl | hc
      · exact Or.inr (by decide)
      · exact Or.inl (n.isDigit c (List.mem_append_right _ hc))
  · unfold tail at hc
    cases he : n.exponent with
    | none =>
      rw [he] at hc
      cases hc
    | some e =>
      rw [he] at hc
      simp only [Option.elim, List.mem_cons] at hc
      rcases hc with rfl | rfl | hc
      · exact Or.inr (by decide)
      · split <;> exact Or.inr (by decide)
      · exact Or.inl ((n.isDigit_exponent e he).2 c hc)

/-- `strtod` takes the exponent. -/
theorem takeExponent_tail : takeExponent 'e' n.tail = (n.order, []) := by
  unfold tail order
  cases he : n.exponent with
  | none => rfl
  | some e =>
    obtain ⟨neg, digits⟩ := e
    obtain ⟨hne, hdigits⟩ := n.isDigit_exponent _ he
    have htake : digits.takeWhile Char.isDigit = digits := List.takeWhile_eq_self_iff.mpr hdigits
    have hdrop : digits.dropWhile Char.isDigit = [] := List.dropWhile_eq_nil_iff.mpr hdigits
    have hlower : 'e'.toLower = 'e' := by decide
    cases neg <;> simp [takeExponent, takeSign, htake, hdrop, hne, hlower]

/-- `strtod` reads the double nearest to what is written. -/
theorem strtod_text : strtod n.text = some (.ofRat n.neg n.size []) := by
  have htake := n.takeDigits_unsigned [] (by simp)
  rw [List.append_nil, List.append_nil] at htake
  have hdecimal : takeDecimal n.neg n.unsigned = some (.ofRat n.neg n.size []) := by
    have hne : n.whole ++ n.fraction ≠ [] := by simp [n.whole_ne_nil]
    simp only [takeDecimal, htake, hne, if_false, takeExponent_tail]
    rfl
  rw [text, ← hdecimal]
  obtain ⟨c, whole, hw⟩ := List.exists_cons_of_ne_nil n.whole_ne_nil
  have hcons : n.unsigned = c :: (whole ++ (point n.fraction ++ n.tail)) := by
    rw [unsigned, hw, List.cons_append]
  have hc : c.isDigit := n.isDigit c (by rw [hw]; exact List.mem_cons_self)
  have hall := fun x ↦ n.mem_unsigned (c := x)
  rw [hcons] at hall ⊢
  refine strtod_of_isDigit n.neg hc fun x hx ↦ ?_
  have hdigits : ∀ x ∈ ['0', '1', '2', '3', '4', '5', '6', '7', '8', '9'], x.toLower ≠ 'x' := by
    simp
  have hothers : ∀ x ∈ ['.', 'e', '-', '+'], x.toLower ≠ 'x' := by simp
  rcases hall x (List.mem_cons_of_mem _ (List.mem_of_mem_head? hx)) with hx | hx
  · exact hdigits x (mem_of_isDigit hx)
  · exact hothers x hx

end Numeral

/-- A fraction without its trailing zeros. -/
def trim (fraction : List Char) : List Char := (fraction.reverse.dropWhile (· = '0')).reverse

/-- `trimmed` puts what is left after a point. -/
theorem trimmed_eq (fraction : List Char) : trimmed fraction = point (trim fraction) := by
  unfold trimmed point trim
  split
  · next h => rw [if_pos h]
  · next h => rw [if_neg (by simpa using h)]

/-- Only zeros are taken off. -/
theorem exists_trim (fraction : List Char) :
    ∃ k, fraction = trim fraction ++ List.replicate k '0' := by
  refine ⟨(fraction.reverse.takeWhile (· = '0')).length, ?_⟩
  have hzeros : fraction.reverse.takeWhile (· = '0') =
      List.replicate (fraction.reverse.takeWhile (· = '0')).length '0' := by
    refine List.eq_replicate_iff.mpr ⟨rfl, fun c hc ↦ ?_⟩
    simpa using List.mem_takeWhile_imp hc
  have hsplit := congrArg List.reverse
    (List.takeWhile_append_dropWhile (p := (· = '0')) (l := fraction.reverse))
  rw [List.reverse_append, List.reverse_reverse] at hsplit
  rw [← List.reverse_replicate, ← hzeros]
  exact hsplit.symm

/-- What is left are digits. -/
theorem mem_of_mem_trim {fraction : List Char} {c : Char} (h : c ∈ trim fraction) :
    c ∈ fraction := by
  obtain ⟨k, hk⟩ := exists_trim fraction
  rw [hk]
  exact List.mem_append_left _ h

/-- Without its trailing zeros a fraction stands for the same number. -/
theorem value_trim (whole fraction : List Char) (e : ℤ) :
    (Nat.ofDigitChars 10 (whole ++ trim fraction) 0 : ℚ) * 10 ^ (e - (trim fraction).length) =
      Nat.ofDigitChars 10 (whole ++ fraction) 0 * 10 ^ (e - fraction.length) := by
  obtain ⟨k, hk⟩ := exists_trim fraction
  generalize trim fraction = kept at hk
  subst hk
  have hexp : e - kept.length = (k : ℤ) + (e - (kept ++ List.replicate k '0').length) := by
    simp only [List.length_append, List.length_replicate, Nat.cast_add]
    ring
  rw [← List.append_assoc, Nat.ofDigitChars_append (l := whole ++ kept),
    Nat.ofDigitChars_replicate_zero, hexp, zpow_add₀ (by norm_num), zpow_natCast]
  push_cast
  ring

section Scientific

variable {p : ℕ} {q : ℚ}

/-- The unit of the last of `p` digits of a number. -/
def unit (p : ℕ) (q : ℚ) : ℚ := 10 ^ (Int.log 10 q - (p - 1))

/-- The nearest number of `p` digits. -/
def shortest (p : ℕ) (q : ℚ) : ℚ := roundEven (q / unit p q) * unit p q

/-- A unit is positive. -/
theorem unit_pos (p : ℕ) (q : ℚ) : 0 < unit p q := by
  unfold unit
  positivity

/-- A number has `p` digits before its unit. -/
theorem div_unit (hp : 0 < p) (hq : 0 < q) :
    10 ^ (p - 1) ≤ q / unit p q ∧ q / unit p q < 10 ^ p := by
  have hu := unit_pos p q
  have hcast : ((p - 1 : ℕ) : ℤ) = p - 1 := by omega
  constructor
  · rw [le_div_iff₀ hu, unit, ← zpow_natCast, ← zpow_add₀ (by norm_num), hcast]
    have := Int.zpow_log_le_self (b := 10) (by norm_num) hq
    push_cast at this
    simpa using this
  · rw [div_lt_iff₀ hu, unit, ← zpow_natCast, ← zpow_add₀ (by norm_num)]
    have := Int.lt_zpow_succ_log_self (b := 10) (by norm_num) q
    push_cast at this
    refine this.trans_eq ?_
    congr 1
    omega

/-- The digits are the nearest number of units, one place further up where they carry. -/
theorem scientific_spec (hp : 0 < p) (hq : 0 < q) :
    10 ^ (p - 1) ≤ (scientific p q).1 ∧ (scientific p q).1 < 10 ^ p ∧
      ((scientific p q).1 : ℚ) * 10 ^ ((scientific p q).2 - (p - 1)) = shortest p q := by
  obtain ⟨hle, hlt⟩ := div_unit hp hq
  have hlow : ((10 ^ (p - 1) : ℕ) : ℤ) ≤ roundEven (q / unit p q) :=
    le_roundEven (by push_cast; exact hle)
  have hhigh : roundEven (q / unit p q) ≤ ((10 ^ p : ℕ) : ℤ) :=
    roundEven_le (by push_cast; exact hlt.le)
  have hunfold : scientific p q =
      let n := (roundEven (q / unit p q)).toNat
      if n = 10 ^ p then (10 ^ (p - 1), Int.log 10 q + 1) else (n, Int.log 10 q) := rfl
  obtain ⟨n, hn⟩ := Int.eq_ofNat_of_zero_le ((Int.natCast_nonneg _).trans hlow)
  rw [hn] at hlow hhigh
  rw [hunfold, hn]
  have hlow : 10 ^ (p - 1) ≤ n := by exact_mod_cast hlow
  have hhigh : n ≤ 10 ^ p := by exact_mod_cast hhigh
  simp only [Int.toNat_natCast]
  split
  · next hc =>
    subst hc
    refine ⟨le_rfl, Nat.pow_lt_pow_right (by norm_num) (by omega), ?_⟩
    have hsplit : Int.log 10 q + 1 - ((p : ℤ) - 1) = (Int.log 10 q - (p - 1)) + 1 := by ring
    have hpow : (10 : ℚ) ^ p = 10 ^ (p - 1) * 10 := by
      rw [← pow_succ, Nat.sub_add_cancel hp]
    rw [shortest, hn, unit, hsplit, zpow_add₀ (by norm_num)]
    push_cast
    rw [hpow]
    ring
  · next hc => exact ⟨hlow, lt_of_le_of_ne hhigh hc, by rw [shortest, hn]; rfl⟩

/-- A number of `p` digits is printed with `p` digits. -/
theorem length_toDigits {n : ℕ} (hp : 0 < p) (hl : 10 ^ (p - 1) ≤ n) (hh : n < 10 ^ p) :
    (Nat.toDigits 10 n).length = p := by
  have hle := (Nat.length_toDigits_le_iff (by norm_num) hp).mpr hh
  rcases Nat.lt_or_ge 1 p with h1 | h1
  · have hnot := (Nat.length_toDigits_le_iff (n := n) (b := 10) (k := p - 1) (by norm_num)
      (by omega)).not.mpr (by omega)
    omega
  · have := Nat.length_toDigits_pos (b := 10) (n := n)
    omega

end Scientific

/-- Digits with or without a fraction. -/
def plain (neg : Bool) (whole fraction : List Char) (hw : whole ≠ [])
    (hd : ∀ c ∈ whole ++ fraction, c.isDigit) : Numeral where
  neg
  whole
  fraction
  whole_ne_nil := hw
  isDigit := hd
  isDigit_exponent := by simp

/-- What `%g` prints of a number of digits: it is written as a numeral that stands for it. -/
theorem exists_numeral {n p : ℕ} (neg : Bool) (e : ℤ) (hn : (Nat.toDigits 10 n).length = p)
    (hp : 0 < p) :
    ∃ numeral : Numeral, numeral.neg = neg ∧ numeral.size = n * 10 ^ (e - (p - 1)) ∧
      numeral.text = sign neg ++
        if -4 ≤ e ∧ e < p then
          if 0 ≤ e then
            (Nat.toDigits 10 n).take (e.toNat + 1) ++
              trimmed ((Nat.toDigits 10 n).drop (e.toNat + 1))
          else '0' :: trimmed (List.replicate (-e - 1).toNat '0' ++ Nat.toDigits 10 n)
        else
          (Nat.toDigits 10 n).take 1 ++ trimmed ((Nat.toDigits 10 n).drop 1) ++ 'e' ::
            (if e < 0 then '-' else '+') :: (Nat.toDigits 10 e.natAbs).leftpad 2 '0' := by
  have hdigit := isDigit_toDigits n
  have hvalue : Nat.ofDigitChars 10 (Nat.toDigits 10 n) 0 = n := Nat.ofDigitChars_ten_toDigits
  generalize Nat.toDigits 10 n = digits at *
  have htake (k : ℕ) : digits.take (k + 1) ≠ [] := by
    intro h
    rw [List.take_eq_nil_iff] at h
    rcases h with h | h
    · omega
    · rw [h] at hn
      exact hp.ne hn
  have hparts (k : ℕ) : ∀ c ∈ digits.take k ++ trim (digits.drop k), c.isDigit := by
    intro c hc
    rcases List.mem_append.mp hc with hc | hc
    · exact hdigit c (List.mem_of_mem_take hc)
    · exact hdigit c (List.mem_of_mem_drop (mem_of_mem_trim hc))
  split
  · next hsmall =>
    split
    · next hpos =>
      refine ⟨plain neg _ _ (htake e.toNat) (hparts (e.toNat + 1)), rfl, ?_, ?_⟩
      · simp only [Numeral.size, plain, Numeral.order, Option.elim]
        rw [value_trim, List.take_append_drop, hvalue, List.length_drop, hn]
        congr 2
        omega
      · simp [Numeral.text, Numeral.unsigned, Numeral.tail, plain, trimmed_eq]
    · next hneg =>
      have hzeros : ∀ c ∈ ['0'] ++ trim (List.replicate (-e - 1).toNat '0' ++ digits),
          c.isDigit := by
        intro c hc
        rcases List.mem_append.mp hc with hc | hc
        · rw [List.mem_singleton.mp hc]
          decide
        · rcases List.mem_append.mp (mem_of_mem_trim hc) with hc | hc
          · rw [List.eq_of_mem_replicate hc]
            decide
          · exact hdigit c hc
      refine ⟨plain neg _ _ (List.cons_ne_nil _ _) hzeros, rfl, ?_, ?_⟩
      · simp only [Numeral.size, plain, Numeral.order, Option.elim]
        rw [value_trim, Nat.ofDigitChars_append, Nat.ofDigitChars_append]
        simp only [Nat.ofDigitChars_replicate_zero, List.length_append, List.length_replicate, hn]
        have hzero : Nat.ofDigitChars 10 ['0'] 0 = 0 := by decide
        rw [hzero, Nat.mul_zero, hvalue]
        congr 2
        push_cast
        omega
      · simp [Numeral.text, Numeral.unsigned, Numeral.tail, plain, trimmed_eq]
  · have hexponent : ∀ c ∈ (Nat.toDigits 10 e.natAbs).leftpad 2 '0', c.isDigit := by
      intro c hc
      rcases List.mem_append.mp hc with hc | hc
      · rw [List.eq_of_mem_replicate hc]
        decide
      · exact isDigit_toDigits _ c hc
    refine ⟨{
      neg
      whole := digits.take 1
      fraction := trim (digits.drop 1)
      exponent := some (decide (e < 0), (Nat.toDigits 10 e.natAbs).leftpad 2 '0')
      whole_ne_nil := htake 0
      isDigit := hparts 1
      isDigit_exponent := ?_ }, rfl, ?_, ?_⟩
    · intro x hx
      cases hx
      refine ⟨fun h ↦ ?_, hexponent⟩
      exact Nat.toDigits_ne_nil (List.append_eq_nil_iff.mp h).2
    · have horder : Nat.ofDigitChars 10 ((Nat.toDigits 10 e.natAbs).leftpad 2 '0') 0 =
          e.natAbs := by
        rw [List.leftpad, Nat.ofDigitChars_append, Nat.ofDigitChars_replicate_zero, Nat.mul_zero,
          Nat.ofDigitChars_ten_toDigits]
      have hsign : (if e < 0 then -(e.natAbs : ℤ) else e.natAbs) = e := by
        split <;> omega
      simp only [Numeral.size, Numeral.order, Option.elim, horder, decide_eq_true_eq, hsign]
      rw [value_trim, List.take_append_drop, hvalue, List.length_drop, hn]
      congr 2
      omega
    · simp [Numeral.text, Numeral.unsigned, Numeral.tail, trimmed_eq]

/-- `%g` prints the number of `p` digits that is nearest, and it is read as the double nearest to
that. -/
theorem exists_numeral_general {p : ℕ} (hp : 0 < p) (neg : Bool) (size : Magnitude)
    (hs : size.val ≠ 0) :
    ∃ numeral : Numeral, numeral.neg = neg ∧ numeral.size = shortest p size ∧
      numeral.text = general p (.finite neg size) := by
  have hq : 0 < size.val := lt_of_le_of_ne size.2.1 (Ne.symm hs)
  obtain ⟨hl, hh, hv⟩ := scientific_spec hp hq
  obtain ⟨numeral, hneg, hsize, htext⟩ :=
    exists_numeral neg (scientific p size.val).2 (length_toDigits hp hl hh) hp
  refine ⟨numeral, hneg, hsize.trans hv, htext.trans ?_⟩
  simp only [general, hs, if_false]

/-- `to_string` writes a numeral. -/
theorem exists_numeral_toString (n : Int) :
    ∃ numeral : Numeral, numeral.neg = decide (n < 0) ∧ numeral.size = n.natAbs ∧
      numeral.text = toString n := by
  refine ⟨plain (n < 0) (Nat.toDigits 10 n.natAbs) [] Nat.toDigits_ne_nil
    (by simpa using isDigit_toDigits _), rfl, ?_, ?_⟩
  · simp [Numeral.size, Numeral.order, plain]
  · simp [Numeral.text, Numeral.unsigned, Numeral.tail, plain, point, toString]

end WebLinked.Base.NumberText
