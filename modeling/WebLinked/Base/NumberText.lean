import Mathlib.Data.List.TakeWhile
import WebLinked.Base.Double

/-!
# Numbers as text

What the C and C++ libraries read and print in the "C" locale: `stoi`, `strtod`, `stod`,
`to_string` and the `f` and `g` conversions of `printf`. Text is a list of characters, each
of them a byte.
-/

namespace WebLinked.Base.NumberText

/-- `isspace`. -/
def isSpace (c : Char) : Bool := c = ' ' || ('\t' ≤ c && c ≤ '\r')

/-- An optional sign, and whether it was a minus. -/
def takeSign : List Char → Bool × List Char
  | '-' :: rest => (true, rest)
  | '+' :: rest => (false, rest)
  | text => (false, text)

/-- `std::stoi`; none where it throws. -/
def stoi (text : List Char) : Option Int :=
  let (neg, text) := takeSign (text.dropWhile isSpace)
  let digits := text.takeWhile Char.isDigit
  let n : Int := Nat.ofDigitChars 10 digits 0
  let n := if neg then -n else n
  if digits = [] then none else if -2 ^ 31 ≤ n ∧ n < 2 ^ 31 then some n else none

/-- What `strtod` makes of the front of a text. -/
structure Conversion where
  value : Double
  /-- `errno` is set to `ERANGE`. -/
  outOfRange : Bool := false
  rest : List Char

/-- The double nearest to a number, out of range if that is infinite, or inexact and below the
normal numbers. -/
def Conversion.ofRat (neg : Bool) (size : ℚ) (rest : List Char) : Conversion :=
  let value := Double.ofRat neg size
  { value
    outOfRange := !value.isFinite || (size < 2 ^ (-1022 : ℤ) && value.abs.toRat ≠ size)
    rest }

/-- An exponent after `marker`, or nothing where no digit follows it. -/
def takeExponent (marker : Char) (text : List Char) : Int × List Char :=
  match text with
  | c :: rest =>
    if c.toLower = marker then
      let (neg, digits) := takeSign rest
      if digits.takeWhile Char.isDigit = [] then (0, text)
      else
        let n : Int := Nat.ofDigitChars 10 (digits.takeWhile Char.isDigit) 0
        (if neg then -n else n, digits.dropWhile Char.isDigit)
    else (0, text)
  | [] => (0, [])

/-- Digits, and digits after a point. -/
def takeDigits (isDigit : Char → Bool) (text : List Char) : List Char × List Char × List Char :=
  match text.dropWhile isDigit with
  | '.' :: rest => (text.takeWhile isDigit, rest.takeWhile isDigit, rest.dropWhile isDigit)
  | rest => (text.takeWhile isDigit, [], rest)

/-- A hexadecimal digit. -/
def isHexDigit (c : Char) : Bool := c.isDigit || ('a' ≤ c.toLower && c.toLower ≤ 'f')

/-- The value of a hexadecimal digit. -/
def hexDigit (c : Char) : ℕ := if c.isDigit then c.toNat - 48 else c.toLower.toNat - 87

/-- A decimal number at the front of a text. -/
def takeDecimal (neg : Bool) (text : List Char) : Option Conversion :=
  let (whole, fraction, rest) := takeDigits Char.isDigit text
  if whole ++ fraction = [] then none
  else
    let (exponent, rest) := takeExponent 'e' rest
    some (.ofRat neg
      (Nat.ofDigitChars 10 (whole ++ fraction) 0 * 10 ^ (exponent - fraction.length)) rest)

/-- A hexadecimal number after its `0x`. -/
def takeHexadecimal (neg : Bool) (text : List Char) : Option Conversion :=
  let (whole, fraction, rest) := takeDigits isHexDigit text
  if whole ++ fraction = [] then none
  else
    let (exponent, rest) := takeExponent 'p' rest
    let n := (whole ++ fraction).foldl (fun n c ↦ 16 * n + hexDigit c) 0
    some (.ofRat neg (n * 2 ^ (exponent - 4 * fraction.length)) rest)

/-- `word` in any case at the front of a text. -/
def takeWord (word text : List Char) : Option (List Char) :=
  if (text.take word.length).map Char.toLower = word then some (text.drop word.length) else none

/-- What may follow `nan`: characters in parentheses. -/
def dropPayload (text : List Char) : List Char :=
  match text with
  | '(' :: payload =>
    match payload.dropWhile fun c ↦ c.isAlphanum || c = '_' with
    | ')' :: rest => rest
    | _ => text
  | _ => text

/-- `strtod`; none where nothing is converted. -/
def strtod (text : List Char) : Option Conversion :=
  let (neg, text) := takeSign (text.dropWhile isSpace)
  let infinity := (takeWord "infinity".toList text).or (takeWord "inf".toList text)
  let nan := takeWord "nan".toList text
  match infinity, nan, text with
  | some rest, _, _ => some { value := .inf neg, rest }
  | none, some rest, _ => some { value := .nan, rest := dropPayload rest }
  | none, none, '0' :: x :: digits =>
    if x.toLower = 'x' then (takeHexadecimal neg digits).or (takeDecimal neg text)
    else takeDecimal neg text
  | none, none, _ => takeDecimal neg text

/-- `std::stod` with how much it read; none where it throws. -/
def stod (text : List Char) : Option (Double × ℕ) :=
  match strtod text with
  | some c => if c.outOfRange then none else some (c.value, text.length - c.rest.length)
  | none => none

/-- A minus. -/
def sign (neg : Bool) : List Char := if neg then ['-'] else []

/-- `std::to_string`. -/
def toString (n : Int) : List Char := sign (n < 0) ++ Nat.toDigits 10 n.natAbs

/-- What is left of a fraction without its trailing zeros, after a point if anything is. -/
def trimmed (fraction : List Char) : List Char :=
  match (fraction.reverse.dropWhile (· = '0')).reverse with
  | [] => []
  | digits => '.' :: digits

/-- `%.*f`. -/
def fixed (precision : ℕ) : Double → List Char
  | .nan => "nan".toList
  | .inf neg => sign neg ++ "inf".toList
  | .finite neg size =>
    let n := (roundEven (size.val * 10 ^ precision)).toNat
    let fraction := (Nat.toDigits 10 (n % 10 ^ precision)).leftpad precision '0'
    sign neg ++ Nat.toDigits 10 (n / 10 ^ precision) ++
      if precision = 0 then [] else '.' :: fraction

/-- The nearest number of `precision` decimal digits: the digits, and the exponent of the
first of them. -/
def scientific (precision : ℕ) (size : ℚ) : ℕ × ℤ :=
  let exponent := Int.log 10 size
  let n := (roundEven (size / 10 ^ (exponent - (precision - 1)))).toNat
  if n = 10 ^ precision then (10 ^ (precision - 1), exponent + 1) else (n, exponent)

/-- `%.*g`. -/
def general (precision : ℕ) : Double → List Char
  | .nan => "nan".toList
  | .inf neg => sign neg ++ "inf".toList
  | .finite neg size =>
    if size.val = 0 then sign neg ++ ['0']
    else
      let (n, exponent) := scientific precision size.val
      let digits := Nat.toDigits 10 n
      sign neg ++
        if -4 ≤ exponent ∧ exponent < precision then
          if 0 ≤ exponent then
            digits.take (exponent.toNat + 1) ++ trimmed (digits.drop (exponent.toNat + 1))
          else '0' :: trimmed (List.replicate (-exponent - 1).toNat '0' ++ digits)
        else
          digits.take 1 ++ trimmed (digits.drop 1) ++ 'e' :: (if exponent < 0 then '-' else '+') ::
            (Nat.toDigits 10 exponent.natAbs).leftpad 2 '0'

section Characters

variable {c : Char}

theorem toNat_toLower (c : Char) :
    c.toLower.toNat = if 65 ≤ c.toNat ∧ c.toNat ≤ 90 then c.toNat + 32 else c.toNat := by
  have hrange : c.val ≥ 'A'.val ∧ c.val ≤ 'Z'.val ↔ 65 ≤ c.toNat ∧ c.toNat ≤ 90 := by
    rw [ge_iff_le, UInt32.le_iff_toNat_le, UInt32.le_iff_toNat_le]
    rfl
  unfold Char.toLower
  by_cases h : c.val ≥ 'A'.val ∧ c.val ≤ 'Z'.val
  · rw [dif_pos h, if_pos (hrange.mp h)]
    have hle := (hrange.mp h).2
    change (c.val + 32).toNat = c.val.toNat + 32
    change c.val.toNat ≤ 90 at hle
    rw [UInt32.toNat_add]
    change (c.val.toNat + 32) % 2 ^ 32 = _
    omega
  · rw [dif_neg h, if_neg (mt hrange.mpr h)]

theorem isDigit_iff : c.isDigit = true ↔ 48 ≤ c.toNat ∧ c.toNat ≤ 57 := by
  rw [Char.isDigit, Bool.and_eq_true, decide_eq_true_eq, decide_eq_true_eq, ge_iff_le,
    UInt32.le_iff_toNat_le, UInt32.le_iff_toNat_le]
  rfl

theorem isHexDigit_iff : isHexDigit c = true ↔ 48 ≤ c.toNat ∧ c.toNat ≤ 57 ∨
    65 ≤ c.toNat ∧ c.toNat ≤ 70 ∨ 97 ≤ c.toNat ∧ c.toNat ≤ 102 := by
  have hlower : 'a' ≤ c.toLower ∧ c.toLower ≤ 'f' ↔
      97 ≤ c.toLower.toNat ∧ c.toLower.toNat ≤ 102 := by
    rw [Char.le_def, Char.le_def, UInt32.le_iff_toNat_le, UInt32.le_iff_toNat_le]
    rfl
  rw [isHexDigit, Bool.or_eq_true, Bool.and_eq_true, decide_eq_true_eq, decide_eq_true_eq, hlower,
    isDigit_iff, toNat_toLower]
  split
  · omega
  · omega

theorem isSpace_iff : isSpace c = true ↔ c.toNat = 32 ∨ 9 ≤ c.toNat ∧ c.toNat ≤ 13 := by
  have hblank : c = ' ' ↔ c.toNat = 32 := by
    rw [← Char.toNat_inj]
    rfl
  rw [isSpace, Bool.or_eq_true, Bool.and_eq_true, decide_eq_true_eq, decide_eq_true_eq,
    decide_eq_true_eq, hblank, Char.le_def, Char.le_def, UInt32.le_iff_toNat_le,
    UInt32.le_iff_toNat_le]
  rfl

theorem hexDigit_lt (h : isHexDigit c = true) : hexDigit c < 16 := by
  have hrange := isHexDigit_iff.mp h
  unfold hexDigit
  by_cases hdigit : c.isDigit = true
  · rw [if_pos hdigit]
    rw [isDigit_iff] at hdigit
    omega
  · rw [if_neg hdigit, toNat_toLower]
    rw [isDigit_iff] at hdigit
    split
    · omega
    · omega

end Characters

section Scanning

variable {p : Char → Bool} {digits fraction : List Char}

/-- A run of matching characters ends where the next one does not match. -/
theorem takeWhile_append (hd : ∀ c ∈ digits, p c) (rest : List Char)
    (hr : ∀ c ∈ rest.head?, p c = false) :
    (digits ++ rest).takeWhile p = digits ∧ (digits ++ rest).dropWhile p = rest := by
  rw [List.takeWhile_append_of_pos hd, List.dropWhile_append_of_pos hd]
  cases rest with
  | nil => simp
  | cons c rest =>
    have hc := hr c rfl
    simp [hc]

/-- Digits with no point after them. -/
theorem takeDigits_whole (hd : ∀ c ∈ digits, p c) (rest : List Char)
    (hr : ∀ c ∈ rest.head?, p c = false ∧ c ≠ '.') :
    takeDigits p (digits ++ rest) = (digits, [], rest) := by
  obtain ⟨ht, hdr⟩ := takeWhile_append hd rest fun c hc ↦ (hr c hc).1
  unfold takeDigits
  rw [ht, hdr]
  split
  · next rest' => exact absurd rfl (hr '.' rfl).2
  · rfl

/-- Digits, a point and more digits. -/
theorem takeDigits_point (hp : p '.' = false) (hd : ∀ c ∈ digits, p c) (hf : ∀ c ∈ fraction, p c)
    (rest : List Char) (hr : ∀ c ∈ rest.head?, p c = false) :
    takeDigits p (digits ++ '.' :: (fraction ++ rest)) = (digits, fraction, rest) := by
  obtain ⟨ht, hdr⟩ := takeWhile_append hd ('.' :: (fraction ++ rest)) (by simpa using hp)
  obtain ⟨hft, hfr⟩ := takeWhile_append hf rest hr
  unfold takeDigits
  rw [ht, hdr]
  simp only [hft, hfr]

end Scanning

/-- Decimal digits are digits. -/
theorem isDigit_toDigits (n : ℕ) : ∀ c ∈ Nat.toDigits 10 n, c.isDigit :=
  fun _ hc ↦ Nat.isDigit_of_mem_toDigits (by decide) (by decide) hc

/-- Digits are read as what they are printed from. -/
theorem takeDecimal_toDigits (neg : Bool) (n : ℕ) :
    takeDecimal neg (Nat.toDigits 10 n) = some (.ofRat neg n []) := by
  have h := takeDigits_whole (isDigit_toDigits n) [] (by simp)
  rw [List.append_nil] at h
  simp only [takeDecimal, h, List.append_nil, Nat.toDigits_ne_nil, if_false]
  simp [takeExponent]

/-- There are ten digits. -/
theorem mem_of_isDigit {c : Char} (h : c.isDigit) :
    c ∈ ['0', '1', '2', '3', '4', '5', '6', '7', '8', '9'] := by
  obtain ⟨hle, hge⟩ := Char.isDigit_iff_toNat.mp h
  have hc : c = Char.ofNat c.toNat := (Char.ofNat_toNat c).symm
  have h48 : '0'.toNat = 48 := rfl
  have h57 : '9'.toNat = 57 := rfl
  rw [hc]
  generalize c.toNat = n at *
  have : n ∈ List.range' 48 10 := by
    rw [List.mem_range'_1]
    omega
  revert this
  clear hc
  revert n
  decide

/-- Before a digit there may be a sign. -/
theorem takeSign_sign (neg : Bool) {text : List Char} (hd : ∀ c ∈ text.head?, c.isDigit) :
    takeSign ((sign neg ++ text).dropWhile isSpace) = (neg, text) := by
  cases neg with
  | true =>
    have : isSpace '-' = false := by decide
    simp [sign, takeSign, this]
  | false =>
    cases text with
    | nil => rfl
    | cons c text =>
      have hdigits : ∀ c ∈ ['0', '1', '2', '3', '4', '5', '6', '7', '8', '9'],
          isSpace c = false ∧ c ≠ '-' ∧ c ≠ '+' := by simp [isSpace]
      obtain ⟨hspace, hminus, hplus⟩ := hdigits c (mem_of_isDigit (hd c rfl))
      simp only [sign, Bool.false_eq_true, if_false, List.nil_append, List.dropWhile_cons, hspace]
      unfold takeSign
      split <;> simp_all

/-- A text that starts with a digit is a decimal number. -/
theorem strtod_of_isDigit (neg : Bool) {c : Char} {text : List Char} (hc : c.isDigit)
    (hx : ∀ x ∈ text.head?, x.toLower ≠ 'x') :
    strtod (sign neg ++ c :: text) = takeDecimal neg (c :: text) := by
  have hdigits : ∀ c ∈ ['0', '1', '2', '3', '4', '5', '6', '7', '8', '9'],
      c.toLower ≠ 'i' ∧ c.toLower ≠ 'n' := by simp
  obtain ⟨hi, hn⟩ := hdigits c (mem_of_isDigit hc)
  have hsign : takeSign ((sign neg ++ c :: text).dropWhile isSpace) = (neg, c :: text) :=
    takeSign_sign neg (by simpa using hc)
  have hword {w : Char} {word : List Char} (hw : c.toLower ≠ w) :
      takeWord (w :: word) (c :: text) = none := by
    simp [takeWord, hw]
  have hinf : takeWord "infinity".toList (c :: text) = none := hword hi
  have hinf' : takeWord "inf".toList (c :: text) = none := hword hi
  have hnan : takeWord "nan".toList (c :: text) = none := hword hn
  unfold strtod
  simp only [hsign, hinf, hinf', hnan, Option.or_none]
  split
  · next h => cases h
  · next h => cases h
  · next x digits _ _ h =>
    cases h
    rw [if_neg (hx x rfl)]
  · rfl

/-- `strtod` reads what `to_string` prints. -/
theorem strtod_toString (n : Int) :
    strtod (toString n) = some (.ofRat (n < 0) n.natAbs []) := by
  rw [toString, ← takeDecimal_toDigits]
  cases hd : Nat.toDigits 10 n.natAbs with
  | nil => exact absurd hd Nat.toDigits_ne_nil
  | cons c digits =>
    have hall := isDigit_toDigits n.natAbs
    rw [hd] at hall
    apply strtod_of_isDigit _ (hall c List.mem_cons_self)
    intro x hx
    have hdigits : ∀ x ∈ ['0', '1', '2', '3', '4', '5', '6', '7', '8', '9'], x.toLower ≠ 'x' := by
      simp
    exact hdigits x (mem_of_isDigit (hall x (List.mem_cons_of_mem _ (List.mem_of_mem_head? hx))))

/-- A number that is a double is in range. -/
theorem Conversion.ofRat_eq (neg : Bool) {q : ℚ} (hq : 0 ≤ q) (hlt : q < overflow)
    (hn : nearest q = q) (rest : List Char) :
    Conversion.ofRat neg q rest = { value := .ofRat neg q, outOfRange := false, rest } := by
  simp [Conversion.ofRat, Double.ofRat_eq hq hlt hn, Double.isFinite, Double.abs, Double.toRat]

/-- Up to 53 binary digits, `stod` reads the integer that `to_string` prints. -/
theorem stod_toString {n : Int} (h : n.natAbs < 2 ^ 53) :
    stod (toString n) = some (.ofInt n, (toString n).length) := by
  have hof := Double.ofInt_eq h
  rw [← Double.ofRat_natCast] at hof
  have hlt : (n.natAbs : ℚ) < 2 ^ 53 := by exact_mod_cast h
  have heq := Conversion.ofRat_eq (n < 0) (by positivity) (lt_overflow hlt)
    (nearest_natCast h) []
  rw [stod, strtod_toString, heq, hof]
  simp

/-- `stoi` reads the integer that `to_string` prints. -/
theorem stoi_toString {n : Int} (hl : -2 ^ 31 ≤ n) (hu : n < 2 ^ 31) :
    stoi (toString n) = some n := by
  have hall := isDigit_toDigits n.natAbs
  have hsign : takeSign ((toString n).dropWhile isSpace) =
      (decide (n < 0), Nat.toDigits 10 n.natAbs) :=
    takeSign_sign _ fun c hc ↦ hall c (List.mem_of_mem_head? hc)
  have hdigits : (Nat.toDigits 10 n.natAbs).takeWhile Char.isDigit = Nat.toDigits 10 n.natAbs :=
    List.takeWhile_eq_self_iff.mpr hall
  unfold stoi
  simp only [hsign, hdigits, Nat.toDigits_ne_nil, if_false, Nat.ofDigitChars_ten_toDigits]
  split
  · next hneg =>
    have hneg := of_decide_eq_true hneg
    rw [if_pos (by omega)]
    congr 1
    omega
  · next hneg =>
    have hneg := of_decide_eq_false (Bool.eq_false_of_not_eq_true hneg)
    rw [if_pos (by omega)]
    congr 1
    omega

/-- What `stoi` reads is an `int`. -/
theorem stoi_range {text : List Char} {n : Int} (h : stoi text = some n) :
    -2 ^ 31 ≤ n ∧ n < 2 ^ 31 := by
  unfold stoi at h
  obtain ⟨neg, text⟩ := takeSign (text.dropWhile isSpace)
  have h := (Option.ite_none_left_eq_some.mp h).2
  obtain ⟨hm, hn⟩ := Option.ite_none_right_eq_some.mp h
  cases hn
  exact hm

/-- A character of a printed finite number. -/
def isNumeral (c : Char) : Bool := c.isDigit || c = '.' || c = '-'

/-- A sign is a minus or nothing. -/
theorem isNumeral_sign (neg : Bool) : ∀ c ∈ sign neg, isNumeral c := by
  cases neg <;> simp [sign, isNumeral]

/-- What `to_string` prints. -/
theorem isNumeral_toString (n : Int) : ∀ c ∈ toString n, isNumeral c := by
  intro c hc
  rcases List.mem_append.mp hc with hc | hc
  · exact isNumeral_sign _ c hc
  · simp [isNumeral, isDigit_toDigits _ c hc]

/-- What `%.*f` prints of a finite number. -/
theorem isNumeral_fixed (precision : ℕ) {x : Double} (hx : x.isFinite) :
    ∀ c ∈ fixed precision x, isNumeral c := by
  cases x with
  | nan => cases hx
  | inf neg => cases hx
  | finite neg size =>
    intro c hc
    simp only [fixed] at hc
    generalize (roundEven (size.val * 10 ^ precision)).toNat = n at hc
    rcases List.mem_append.mp hc with hc | hc
    · rcases List.mem_append.mp hc with hc | hc
      · exact isNumeral_sign _ c hc
      · simp [isNumeral, isDigit_toDigits _ c hc]
    · split at hc
      · cases hc
      rcases List.mem_cons.mp hc with rfl | hc
      · decide
      · rcases List.mem_append.mp hc with hc | hc
        · rw [List.eq_of_mem_replicate hc]
          decide
        · simp [isNumeral, isDigit_toDigits _ c hc]

/-- An integer has nothing but zeros after its point. -/
theorem fixed_natCast {n precision : ℕ} (neg : Bool) (h : n < 2 ^ 53) (hp : 0 < precision) :
    fixed precision (.ofRat neg n) =
      sign neg ++ Nat.toDigits 10 n ++ '.' :: List.replicate precision '0' := by
  have hround : roundEven ((n : ℚ) * 10 ^ precision) = ((n * 10 ^ precision : ℕ) : Int) := by
    rw [← roundEven_intCast ((n * 10 ^ precision : ℕ) : Int)]
    push_cast
    rfl
  have hpos : 0 < 10 ^ precision := by positivity
  have hpad : ['0'].leftpad precision '0' = List.replicate precision '0' := by
    obtain ⟨p, rfl⟩ := Nat.exists_eq_succ_of_ne_zero hp.ne'
    simp [List.leftpad, List.replicate_succ']
  rw [Double.ofRat_natCast neg h]
  simp only [fixed, Double.sizeOf, hround, Int.toNat_natCast, Nat.mul_mod_left,
    Nat.mul_div_cancel n hpos, Nat.toDigits_zero, hpad, hp.ne', if_false]

end WebLinked.Base.NumberText
