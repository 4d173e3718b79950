import Mathlib
import WebLinked.Base.ShortDecimal
import WebLinked.Core.JsonText

/-!
# Reading back what was written

`src/core/json.cpp`. What is parsed of a serialized value, in either layout: the value itself but
for its numbers, unless it is nested too deep.
-/

namespace WebLinked.Core.Json

open WebLinked.Base NumberText

namespace Parser

section Strings

/-- The four digits of a control character. -/
theorem exists_digits_control : ∀ n < 0x20, ∃ a b,
    (Nat.toDigits 16 n).leftpad 4 '0' = ['0', '0', a, b] ∧ isHexDigit a ∧ isHexDigit b ∧
      NumberText.hexDigit a * 16 + NumberText.hexDigit b = n := by
  intro n hn
  refine ⟨(n / 16).digitChar, (n % 16).digitChar, ?_⟩
  revert n
  decide

/-- What `\u` and four digits of a control character are read as. -/
private theorem parseHex4_control {n : ℕ} (hn : n < 0x20) (text : List Char) :
    parseHex4 ((Nat.toDigits 16 n).leftpad 4 '0' ++ text) = .ok (n, text) := by
  obtain ⟨a, b, heq, ha, hb, hv⟩ := exists_digits_control n hn
  have h0 : isHexDigit '0' ∧ NumberText.hexDigit '0' = 0 := by decide
  rw [heq]
  simp [parseHex4, hexDigits, h0, ha, hb, hv]

/-- After a backslash comes what is escaped. -/
private theorem parseChars_backslash {escaped chars text : List Char}
    (h : parseEscape escaped = .ok (chars, text)) (turns : ℕ) (out : List Char) :
    parseChars (turns + 1) out ('\\' :: escaped) = parseChars turns (out ++ chars) text := by
  have hquote : '\\' ≠ '"' := by decide
  rw [parseChars, if_neg hquote, if_pos rfl, h]

/-- One character is read as it was escaped. -/
private theorem parseChars_escape (turns : ℕ) (out : List Char) (c : Char) (text : List Char) :
    parseChars (turns + 1) out (escape c ++ text) = parseChars turns (out ++ [c]) text := by
  by_cases hcontrol : c.toNat < 0x20
  · have hsurrogate : surrogate c.toNat text = (c.toNat, text) := by
      unfold surrogate
      split
      · rw [if_neg (by omega)]
      · rfl
    have hutf : appendUtf8 c.toNat = [c] := by
      simp [appendUtf8, show c.toNat < 0x80 by omega]
    have hescape : parseEscape ('u' :: ((Nat.toDigits 16 c.toNat).leftpad 4 '0' ++ text)) =
        .ok ([c], text) := by
      have hchars : 'u' ≠ '"' ∧ 'u' ≠ '\\' ∧ 'u' ≠ '/' ∧ 'u' ≠ 'b' ∧ 'u' ≠ 'f' ∧ 'u' ≠ 'n' ∧
          'u' ≠ 'r' ∧ 'u' ≠ 't' := by decide
      simp only [parseEscape, hchars, or_self, if_false, if_true, parseHex4_control hcontrol,
        hsurrogate, hutf]
    unfold escape
    repeat' split
    all_goals first
      | exact parseChars_backslash hescape turns out
      | (subst c; exact parseChars_backslash rfl turns out)
  · unfold escape
    repeat' split
    all_goals try (subst c; exact parseChars_backslash rfl turns out)
    next hquote hslash _ _ _ _ _ => simp [parseChars, hquote, hslash]

/-- The characters of a string are read up to the quote. -/
private theorem parseChars_escaped (chars out text : List Char) {turns : ℕ}
    (ht : chars.length < turns) :
    parseChars turns out (chars.flatMap escape ++ '"' :: text) =
      .ok (String.ofList (out ++ chars), text) := by
  induction chars generalizing out turns with
  | nil =>
    obtain ⟨turns, rfl⟩ := Nat.exists_eq_succ_of_ne_zero (by omega : turns ≠ 0)
    simp [parseChars]
  | cons c chars ih =>
    obtain ⟨turns, rfl⟩ := Nat.exists_eq_succ_of_ne_zero (by omega : turns ≠ 0)
    rw [List.flatMap_cons, List.append_assoc, parseChars_escape, ih]
    · simp
    · simpa using ht

/-- No character is written with nothing. -/
private theorem length_le_escape (chars : List Char) :
    chars.length ≤ (chars.flatMap escape).length := by
  have hpos (c : Char) : 1 ≤ (escape c).length := by
    unfold escape
    repeat' split
    all_goals simp
  rw [List.length_flatMap]
  induction chars with
  | nil => simp
  | cons c chars ih =>
    have := hpos c
    simp only [List.map_cons, List.sum_cons, List.length_cons]
    omega

/-- A string is read as it was written. -/
theorem parseString_appendEscaped (s : String) (text : List Char) :
    parseString (appendEscaped s ++ text) = .ok (s, text) := by
  have hlen := length_le_escape s.toList
  rw [appendEscaped, List.cons_append, List.append_assoc, List.singleton_append, parseString,
    parseChars_escaped]
  · simp
  · rw [List.length_append]
    omega

end Strings

section Numbers

/-- No number goes on at the front of a text. -/
def Ends (text : List Char) : Prop :=
  ∀ c ∈ text.head?, c.isDigit = false ∧ c ≠ '.' ∧ c ≠ 'e' ∧ c ≠ 'E'

/-- What is passed over after the digits is the exponent. -/
private theorem dropExponent_tail (n : Numeral) {text : List Char} (h : Ends text) :
    dropExponent (n.tail ++ text) = text := by
  unfold Numeral.tail
  cases he : n.exponent with
  | none =>
    cases text with
    | nil => rfl
    | cons c text =>
      obtain ⟨-, -, h1, h2⟩ := h c rfl
      simp [dropExponent, h1, h2]
  | some e =>
    obtain ⟨neg, digits⟩ := e
    have hdigits := (n.isDigit_exponent _ he).2
    have hdrop := (takeWhile_append hdigits text fun c hc ↦ (h c hc).1).2
    cases neg <;> simp [dropExponent, takeSign, hdrop]

/-- A numeral is read as the double nearest to it. -/
private theorem parseNumber_text (n : Numeral) {text : List Char} (h : Ends text) :
    parseNumber (n.text ++ text) = .ok (.number (Double.ofRat n.neg n.size), text) := by
  have hsign : (takeSign (n.text ++ text)).2 = n.unsigned ++ text := by
    obtain ⟨c, whole, hw⟩ := List.exists_cons_of_ne_nil n.whole_ne_nil
    have hc : c.isDigit := n.isDigit c (by rw [hw]; exact List.mem_cons_self)
    have hdigits : ∀ c ∈ ['0', '1', '2', '3', '4', '5', '6', '7', '8', '9'],
        c ≠ '-' ∧ c ≠ '+' := by simp
    obtain ⟨hm, hp⟩ := hdigits c (mem_of_isDigit hc)
    rw [Numeral.text, Numeral.unsigned, hw]
    cases n.neg with
    | true => simp [sign, takeSign]
    | false => simp [sign, takeSign, hm, hp]
  have htake := n.takeDigits_unsigned text fun c hc ↦ ⟨(h c hc).1, (h c hc).2.1⟩
  have hne : n.whole ++ n.fraction ≠ [] := by simp [n.whole_ne_nil]
  have hread : (n.text ++ text).take ((n.text ++ text).length - text.length) = n.text := by simp
  simp only [parseNumber, hsign, htake, dropExponent_tail n h, hne, if_false, hread, n.strtod_text]
  rfl

end Numbers

end Parser

/-- What is read of a finite number that was written. -/
def rereadNumber (x : Double) : Double :=
  if x.isWhole && x.abs.lt (.ofInt (10 ^ 15)) then .ofRat (x.trunc < 0) x.trunc.natAbs
  else
    match x with
    | .finite neg size => .ofRat neg (shortest 10 size)
    | x => x

/-- Whole numbers of fifteen digits are written as integers. -/
theorem isWhole_lt_iff (neg : Bool) (size : Magnitude) :
    ((Double.finite neg size).isWhole && (Double.finite neg size).abs.lt (.ofInt (10 ^ 15))) ↔
      ∃ n : ℕ, n < 10 ^ 15 ∧ size.val = n := by
  have hofInt : Double.ofInt (10 ^ 15) = .finite false (Double.sizeOf (10 ^ 15) (by norm_num)) :=
    Double.ofInt_natCast (n := 10 ^ 15) (by norm_num)
  have hnonneg := size.2.1
  simp only [Bool.and_eq_true, Double.isWhole, Double.abs, hofInt, Double.lt, Double.toRat,
    Double.sizeOf, Bool.false_eq_true, if_false, decide_eq_true_eq]
  constructor
  · rintro ⟨hden, hlt⟩
    have hnum : (size.val.num : ℚ) = size.val := Rat.coe_int_num_of_den_eq_one hden
    have hpos : 0 ≤ size.val.num := Rat.num_nonneg.mpr hnonneg
    refine ⟨size.val.num.toNat, ?_, ?_⟩
    · have : (size.val.num : ℚ) < ((10 ^ 15 : ℕ) : ℚ) := by rwa [hnum]
      have : size.val.num < ((10 ^ 15 : ℕ) : ℤ) := by exact_mod_cast this
      omega
    · have hcast : ((size.val.num.toNat : ℕ) : ℤ) = size.val.num := Int.toNat_of_nonneg hpos
      rw [← hnum, ← hcast]
      rfl
  · rintro ⟨n, hn, hsize⟩
    rw [hsize]
    exact ⟨Rat.den_natCast n, by exact_mod_cast hn⟩

/-- A number that is printed so that it is read again: finite, no negative zero, and whole of
fifteen digits or the nearest one to a number of ten digits. -/
def Printable : Double → Prop
  | .finite neg size =>
    (neg → size.val ≠ 0) ∧
      ((∃ n : ℕ, n < 10 ^ 15 ∧ size.val = n) ∨ ∃ d, Short 10 d ∧ nearest d = size.val)
  | _ => False

private theorem ofRat_eq_iff (a b : Bool) {q : ℚ} (hq : 0 ≤ q) (size : Magnitude) :
    Double.ofRat a q = .finite b size ↔ a = b ∧ nearest q = size.val := by
  have hlt := size.2.2.1
  simp only [Double.ofRat, abs_of_nonneg hq]
  split
  · rw [Double.finite.injEq, Subtype.ext_iff]
  · next h =>
    constructor
    · intro heq
      cases heq
    · intro heq
      refine absurd ?_ h
      rw [heq.2]
      exact hlt

/-- Exactly the printable ones of the finite numbers are read again. -/
theorem rereadNumber_eq_iff (neg : Bool) (size : Magnitude) :
    rereadNumber (.finite neg size) = .finite neg size ↔ Printable (.finite neg size) := by
  have hnonneg := size.2.1
  unfold rereadNumber Printable
  by_cases hwhole : ∃ n : ℕ, n < 10 ^ 15 ∧ size.val = n
  · rw [if_pos ((isWhole_lt_iff neg size).mpr hwhole)]
    obtain ⟨n, hn, hsize⟩ := hwhole
    have htrunc : (Double.finite neg size).trunc = if neg then -(n : ℤ) else n := by
      rw [Double.trunc, hsize, Int.floor_natCast]
    have habs : (Double.finite neg size).trunc.natAbs = n := by
      rw [htrunc]
      split <;> omega
    have hnearest : nearest n = size.val := by
      rw [hsize, nearest_natCast (by omega)]
    rw [habs, ofRat_eq_iff _ _ n.cast_nonneg, htrunc]
    constructor
    · rintro ⟨hneg, -⟩
      refine ⟨fun h ↦ ?_, Or.inl ⟨n, hn, hsize⟩⟩
      rw [h, if_pos rfl, decide_eq_true_eq] at hneg
      rw [hsize]
      exact_mod_cast (by omega : n ≠ 0)
    · rintro ⟨hneg, -⟩
      refine ⟨?_, hnearest⟩
      cases neg with
      | false => simp
      | true =>
        have hn0 : n ≠ 0 := by
          intro h0
          exact hneg rfl (by rw [hsize, h0, Nat.cast_zero])
        simpa using Nat.pos_of_ne_zero hn0
  · have hs : size.val ≠ 0 := fun hs ↦ hwhole ⟨0, by norm_num, by rw [hs, Nat.cast_zero]⟩
    have hpos : 0 < size.val := lt_of_le_of_ne hnonneg (Ne.symm hs)
    have hshort : 0 ≤ shortest 10 size.val := by
      obtain ⟨n, e, -, heq⟩ := short_shortest (p := 10) (by norm_num) hpos
      rw [heq]
      positivity
    rw [if_neg (mt (isWhole_lt_iff neg size).mp hwhole), ofRat_eq_iff _ _ hshort,
      nearest_shortest (by norm_num) (by norm_num) hpos]
    exact ⟨fun h ↦ ⟨fun _ ↦ hs, Or.inr h.2⟩, fun h ↦ ⟨rfl, h.2.resolve_left hwhole⟩⟩

namespace Value

mutual

/-- How deep a value is nested. -/
def depth : Value → ℕ
  | array elements => depthElements elements + 1
  | object members => depthMembers members + 1
  | _ => 1

/-- How deep the deepest element is nested. -/
def depthElements : List Value → ℕ
  | [] => 0
  | v :: elements => max v.depth (depthElements elements)

/-- How deep the deepest member is nested. -/
def depthMembers : List (String × Value) → ℕ
  | [] => 0
  | (_, v) :: members => max v.depth (depthMembers members)

end

mutual

/-- No object has a key twice, as `set` sees to. -/
def Keyed : Value → Prop
  | array elements => KeyedElements elements
  | object members => (members.map Prod.fst).Nodup ∧ KeyedMembers members
  | _ => True

/-- No object in an element has a key twice. -/
def KeyedElements : List Value → Prop
  | [] => True
  | v :: elements => v.Keyed ∧ KeyedElements elements

/-- No object in a member has a key twice. -/
def KeyedMembers : List (String × Value) → Prop
  | [] => True
  | (_, v) :: members => v.Keyed ∧ KeyedMembers members

end

mutual

/-- What is read of a value that was written. -/
def reread : Value → Value
  | number x => if x.isFinite then number (rereadNumber x) else null
  | array elements => array (rereadElements elements)
  | object members => object (rereadMembers members)
  | v => v

/-- What is read of the elements. -/
def rereadElements : List Value → List Value
  | [] => []
  | v :: elements => v.reread :: rereadElements elements

/-- What is read of the members. -/
def rereadMembers : List (String × Value) → List (String × Value)
  | [] => []
  | (key, v) :: members => (key, v.reread) :: rereadMembers members

end

/-- A value has at least one level. -/
theorem depth_pos (v : Value) : 0 < v.depth := by
  cases v with
  | array elements => exact Nat.succ_pos _
  | object members => exact Nat.succ_pos _
  | _ => exact Nat.one_pos

end Value

namespace Parser

open Value

section Values

variable {levels : ℕ}

/-- A blank. -/
def IsBlank (c : Char) : Prop := c = ' ' ∨ c = '\t' ∨ c = '\n' ∨ c = '\r'

/-- Blanks before another character are passed over. -/
private theorem skipWhitespace_append (blanks : List Char) (hb : ∀ c ∈ blanks, IsBlank c)
    {c : Char} (hc : ¬IsBlank c) (text : List Char) :
    skipWhitespace (blanks ++ c :: text) = c :: text := by
  have hpos (c : Char) (h : c ∈ blanks) :
      (c = ' ' || c = '\t' || c = '\n' || c = '\r') = true := by
    simpa [IsBlank, or_assoc] using hb c h
  have hneg : (c = ' ' || c = '\t' || c = '\n' || c = '\r') = false := by
    simpa [IsBlank, and_assoc] using hc
  rw [skipWhitespace, List.dropWhile_append_of_pos hpos, List.dropWhile_cons, hneg]
  simp

private theorem skipWhitespace_cons {c : Char} (hc : ¬IsBlank c) (text : List Char) :
    skipWhitespace (c :: text) = c :: text :=
  skipWhitespace_append [] (by simp) hc text

/-- Line breaks and indentations are blank. -/
private theorem isBlank_indent (pretty : Bool) (depth : ℕ) :
    ∀ c ∈ newline pretty ++ indent pretty depth, IsBlank c := by
  intro c hc
  rcases List.mem_append.mp hc with hc | hc
  · unfold newline at hc
    split at hc
    · exact Or.inr (Or.inr (Or.inl (List.mem_singleton.mp hc)))
    · cases hc
  · unfold indent at hc
    split at hc
    · exact Or.inl (List.eq_of_mem_replicate hc)
    · cases hc

/-- What is written of a finite number is a numeral that is read as the number it stands for. -/
theorem exists_numeral_appendNumber {x : Double} (hx : x.isFinite) :
    ∃ n : Numeral, n.text = appendNumber x ∧ Double.ofRat n.neg n.size = rereadNumber x := by
  unfold appendNumber rereadNumber
  rw [hx, if_neg (by simp)]
  split
  · obtain ⟨n, hneg, hsize, htext⟩ := exists_numeral_toString x.trunc
    exact ⟨n, htext, by rw [hneg, hsize]⟩
  · next hwhole =>
    cases x with
    | nan => cases hx
    | inf neg => cases hx
    | finite neg size =>
      have hs : size.val ≠ 0 := fun hs ↦
        hwhole ((isWhole_lt_iff neg size).mpr ⟨0, by norm_num, by rw [hs, Nat.cast_zero]⟩)
      obtain ⟨n, hneg, hsize, htext⟩ := exists_numeral_general (p := 10) (by norm_num) neg size hs
      exact ⟨n, htext, by rw [hneg, hsize]⟩

/-- A numeral starts with a minus or a digit. -/
private theorem exists_head_text (n : Numeral) :
    ∃ c text, n.text = c :: text ∧ (c.isDigit ∨ c = '-') := by
  obtain ⟨c, whole, hw⟩ := List.exists_cons_of_ne_nil n.whole_ne_nil
  have hc : c.isDigit := n.isDigit c (by rw [hw]; exact List.mem_cons_self)
  rw [Numeral.text, Numeral.unsigned, hw]
  cases n.neg with
  | true => exact ⟨'-', _, rfl, Or.inr rfl⟩
  | false => exact ⟨c, _, rfl, Or.inl hc⟩

/-- After some blanks a value starts with a character that tells what it is. -/
private theorem parseValueInner_blanks {blanks : List Char} (hb : ∀ c ∈ blanks, IsBlank c)
    {c : Char} (hc : ¬IsBlank c) (text : List Char) (p : List Char → Parsed Value) :
    parseValueInner p (blanks ++ c :: text) = parseValueInner p (c :: text) := by
  rw [parseValueInner, parseValueInner, skipWhitespace_append _ hb hc, skipWhitespace_cons hc]

/-- What is read of the text of a value, after blanks and before something else. -/
private def Reads (levels : ℕ) (v : Value) : Prop :=
  ∀ (pretty : Bool) (depth : ℕ) (blanks text : List Char), (∀ c ∈ blanks, IsBlank c) → Ends text →
    (parseValue levels (blanks ++ (v.serializeInto pretty depth ++ text))).toOption =
      if v.depth ≤ levels then some (v.reread, text) else none

/-- The items after the first one, each after a comma. -/
private def following (pretty : Bool) (depth : ℕ) (items : List (List Char)) : List Char :=
  items.flatMap fun item ↦ ',' :: (newline pretty ++ indent pretty depth ++ item)

/-- The first item comes before the others. -/
private theorem separated_cons (pretty : Bool) (depth : ℕ) (item : List Char)
    (items : List (List Char)) :
    separated pretty depth (item :: items) =
      indent pretty depth ++ (item ++ following pretty depth items) := by
  induction items generalizing item with
  | nil => simp [separated, following]
  | cons next items ih => simp [separated, following, ih]

/-- What closes an array or an object. -/
private def closing (right : Char) (pretty : Bool) (depth : ℕ) (text : List Char) : List Char :=
  newline pretty ++ indent pretty depth ++ right :: text

/-- Neither a comma nor a bracket nor a line break goes on with a number. -/
private theorem ends_following {right : Char} (hr : Ends [right]) (pretty : Bool)
    (depth depth' : ℕ) (items : List (List Char)) (text : List Char) :
    Ends (following pretty depth items ++ closing right pretty depth' text) := by
  cases items with
  | nil =>
    cases pretty with
    | false => simpa [Ends, following, closing, newline, indent] using hr
    | true => simp [Ends, following, closing, newline]
  | cons item items => simp [Ends, following]

private theorem ends_bracket : Ends [']'] ∧ Ends ['}'] := by
  constructor <;> simp [Ends]

/-- After the last item comes the bracket. -/
private theorem skipWhitespace_closing {right : Char} (hr : ¬IsBlank right) (pretty : Bool)
    (depth : ℕ) (text : List Char) :
    skipWhitespace (closing right pretty depth text) = right :: text :=
  skipWhitespace_append _ (isBlank_indent pretty depth) hr text

private theorem not_isBlank : ¬IsBlank ',' ∧ ¬IsBlank ']' ∧ ¬IsBlank '}' := by
  simp [IsBlank]

/-- Up to a closing bracket or a comma, a value is read or is too deep. -/
private theorem Reads.cases {v : Value} (hv : Reads levels v) (pretty : Bool) (depth : ℕ)
    {blanks text : List Char} (hb : ∀ c ∈ blanks, IsBlank c) (he : Ends text) :
    (v.depth ≤ levels ∧ parseValue levels (blanks ++ (v.serializeInto pretty depth ++ text)) =
        .ok (v.reread, text)) ∨
      (¬v.depth ≤ levels ∧ ∃ e, parseValue levels
        (blanks ++ (v.serializeInto pretty depth ++ text)) = .error e) := by
  have h := hv pretty depth blanks text hb he
  generalize parseValue levels (blanks ++ (v.serializeInto pretty depth ++ text)) = parsed at *
  by_cases hd : v.depth ≤ levels
  · rw [if_pos hd] at h
    cases parsed with
    | error e => cases h
    | ok p =>
      cases h
      exact Or.inl ⟨hd, rfl⟩
  · rw [if_neg hd] at h
    cases parsed with
    | error e => exact Or.inr ⟨hd, e, rfl⟩
    | ok p => cases h

/-- After an item comes a comma and the next one. -/
private theorem following_cons (pretty : Bool) (depth : ℕ) (item : List Char)
    (items : List (List Char)) (text : List Char) :
    following pretty depth (item :: items) ++ text =
      ',' :: (newline pretty ++ indent pretty depth ++ (item ++ (following pretty depth items ++
        text))) := by
  simp [following]

/-- The elements are read up to the bracket, none of them too deep. -/
private theorem parseElements_spec (pretty : Bool) (depth depth' : ℕ) (text : List Char)
    (elements : List Value) (hall : ∀ v ∈ elements, Reads levels v) (v : Value)
    (hv : Reads levels v) (acc : List Value) (turns : ℕ) (ht : elements.length < turns)
    (blanks : List Char) (hb : ∀ c ∈ blanks, IsBlank c) :
    (parseElements (parseValue levels) turns acc (blanks ++ (v.serializeInto pretty depth ++
      (following pretty depth (serializeElements pretty depth elements) ++
        closing ']' pretty depth' text)))).toOption =
      if max v.depth (depthElements elements) ≤ levels then
        some (.array (acc ++ v.reread :: rereadElements elements), text)
      else none := by
  induction elements generalizing v acc turns blanks with
  | nil =>
    obtain ⟨turns, rfl⟩ := Nat.exists_eq_succ_of_ne_zero (by omega : turns ≠ 0)
    have hends := ends_following ends_bracket.1 pretty depth depth'
      (serializeElements pretty depth []) text
    rw [parseElements]
    rcases hv.cases pretty depth hb hends with ⟨hd, heq⟩ | ⟨hd, e, heq⟩
    · rw [heq]
      simp [serializeElements, following, skipWhitespace_closing not_isBlank.2.1, depthElements, hd,
        rereadElements, Except.toOption]
    · rw [heq, if_neg (by omega)]
      rfl
  | cons w elements ih =>
    obtain ⟨turns, rfl⟩ := Nat.exists_eq_succ_of_ne_zero (by omega : turns ≠ 0)
    have hends := ends_following ends_bracket.1 pretty depth depth'
      (serializeElements pretty depth (w :: elements)) text
    rw [parseElements]
    rcases hv.cases pretty depth hb hends with ⟨hd, heq⟩ | ⟨hd, e, heq⟩
    · have hrest := ih (fun v hm ↦ hall v (List.mem_cons_of_mem _ hm)) w
        (hall w List.mem_cons_self) (acc ++ [v.reread])
        turns (by simpa using ht) _ (isBlank_indent pretty depth)
      rw [heq]
      simp only [serializeElements, following_cons, skipWhitespace_cons not_isBlank.1, depthElements,
        rereadElements, List.append_assoc, List.singleton_append, max_le_iff, hd,
        true_and] at hrest ⊢
      exact hrest
    · rw [heq, if_neg (by simp [hd])]
      rfl

/-- A member is read after its key, unless it is too deep. -/
private theorem parseMember_spec {v : Value} (hv : Reads levels v) (key : String) (pretty : Bool)
    (depth : ℕ) {blanks text : List Char} (hb : ∀ c ∈ blanks, IsBlank c) (he : Ends text) :
    (v.depth ≤ levels ∧ parseMember (parseValue levels) (blanks ++ (appendEscaped key ++
        (colon pretty ++ (v.serializeInto pretty depth ++ text)))) = .ok ((key, v.reread), text)) ∨
      (¬v.depth ≤ levels ∧ ∃ e, parseMember (parseValue levels) (blanks ++ (appendEscaped key ++
        (colon pretty ++ (v.serializeInto pretty depth ++ text)))) = .error e) := by
  have hquote : ¬IsBlank '"' ∧ ¬IsBlank ':' := by simp [IsBlank]
  have hskip (text : List Char) : skipWhitespace (blanks ++ (appendEscaped key ++ text)) =
      appendEscaped key ++ text := skipWhitespace_append _ hb hquote.1 _
  have hcolon (text : List Char) : skipWhitespace (':' :: text) = ':' :: text :=
    skipWhitespace_cons hquote.2 text
  obtain ⟨space, hspace, heq⟩ : ∃ space, (∀ c ∈ space, IsBlank c) ∧ colon pretty = ':' :: space := by
    cases pretty with
    | false => exact ⟨[], by simp, rfl⟩
    | true => exact ⟨[' '], by simp [IsBlank], rfl⟩
  simp only [parseMember, hskip, parseString_appendEscaped, heq, List.cons_append, hcolon]
  rcases hv.cases pretty depth hspace he with ⟨hd, hread⟩ | ⟨hd, e, hread⟩
  · exact Or.inl ⟨hd, by rw [hread]⟩
  · exact Or.inr ⟨hd, e, by rw [hread]⟩

/-- A key that is not there is added at the end. -/
private theorem setMember_of_not_mem {key : String} {members : List (String × Value)}
    (h : key ∉ members.map Prod.fst) (v : Value) :
    setMember key v members = members ++ [(key, v)] := by
  induction members with
  | nil => rfl
  | cons m members ih =>
    simp only [List.map_cons, List.mem_cons, not_or] at h
    rw [setMember, if_neg (Ne.symm h.1), ih h.2, List.cons_append]

/-- Setting a key that is not there adds it at the end. -/
theorem set_object {acc : List (String × Value)} {key : String} {keys : List String}
    (hk : (acc.map Prod.fst ++ key :: keys).Nodup) (v : Value) :
    (Value.object acc).set key v = .object (acc ++ [(key, v)]) := by
  have hkey : key ∉ acc.map Prod.fst := fun h ↦
    List.disjoint_of_nodup_append hk h List.mem_cons_self
  rw [Value.set, Value.members, setMember_of_not_mem hkey]

/-- The members are read up to the bracket, none of them too deep. -/
private theorem parseMembers_spec (pretty : Bool) (depth depth' : ℕ) (text : List Char)
    (members : List (String × Value)) (hall : ∀ m ∈ members, Reads levels m.2) (key : String)
    (v : Value) (hv : Reads levels v) (acc : List (String × Value))
    (hk : (acc.map Prod.fst ++ key :: members.map Prod.fst).Nodup)
    (turns : ℕ) (ht : members.length < turns) (blanks : List Char)
    (hb : ∀ c ∈ blanks, IsBlank c) :
    (parseMembers (parseValue levels) turns (.object acc) (blanks ++ (appendEscaped key ++
      (colon pretty ++ (v.serializeInto pretty depth ++
        (following pretty depth (serializeMembers pretty depth members) ++
          closing '}' pretty depth' text)))))).toOption =
      if max v.depth (depthMembers members) ≤ levels then
        some (.object (acc ++ (key, v.reread) :: rereadMembers members), text)
      else none := by
  induction members generalizing key v acc turns blanks with
  | nil =>
    obtain ⟨turns, rfl⟩ := Nat.exists_eq_succ_of_ne_zero (by omega : turns ≠ 0)
    have hends := ends_following ends_bracket.2 pretty depth depth'
      (serializeMembers pretty depth []) text
    have hset := set_object hk v.reread
    rw [parseMembers]
    rcases parseMember_spec hv key pretty depth hb hends with ⟨hd, heq⟩ | ⟨hd, e, heq⟩
    · rw [heq]
      simp [serializeMembers, following, skipWhitespace_closing not_isBlank.2.2, depthMembers, hd,
        rereadMembers, hset, Except.toOption]
    · rw [heq, if_neg (by omega)]
      rfl
  | cons m members ih =>
    obtain ⟨turns, rfl⟩ := Nat.exists_eq_succ_of_ne_zero (by omega : turns ≠ 0)
    have hends := ends_following ends_bracket.2 pretty depth depth'
      (serializeMembers pretty depth (m :: members)) text
    have hset := set_object hk v.reread
    rw [parseMembers]
    rcases parseMember_spec hv key pretty depth hb hends with ⟨hd, heq⟩ | ⟨hd, e, heq⟩
    · have hrest := ih (fun v hm ↦ hall v (List.mem_cons_of_mem _ hm)) m.1 m.2
        (hall m List.mem_cons_self) (acc ++ [(key, v.reread)]) (by simpa using hk)
        turns (by simpa using ht) _ (isBlank_indent pretty depth)
      rw [heq]
      simp only [serializeMembers, following_cons, skipWhitespace_cons not_isBlank.1, hset, List.append_assoc,
        List.singleton_append, depthMembers, rereadMembers, max_le_iff, hd, true_and] at hrest ⊢
      exact hrest
    · rw [heq, if_neg (by simp [hd])]
      rfl

/-- No value starts with a blank or a closing bracket. -/
private theorem exists_head (v : Value) (pretty : Bool) (depth : ℕ) :
    ∃ c text, v.serializeInto pretty depth = c :: text ∧ ¬IsBlank c ∧ c ≠ ']' := by
  have hbracketed (left right : Char) (items : List (List Char)) :
      ∃ text, bracketed left right pretty depth items = left :: text := by
    unfold bracketed
    split <;> exact ⟨_, rfl⟩
  cases v with
  | null => exact ⟨'n', _, by rw [serializeInto]; rfl, by simp [IsBlank]⟩
  | bool b =>
    cases b with
    | false => exact ⟨'f', _, by rw [serializeInto]; rfl, by simp [IsBlank]⟩
    | true => exact ⟨'t', _, by rw [serializeInto]; rfl, by simp [IsBlank]⟩
  | number x =>
    rw [serializeInto]
    by_cases hx : x.isFinite
    · obtain ⟨n, htext, -⟩ := exists_numeral_appendNumber hx
      obtain ⟨c, text, heq, hc⟩ := exists_head_text n
      refine ⟨c, text, htext.symm.trans heq, ?_⟩
      rcases hc with hc | rfl
      · have hdigits : ∀ c ∈ ['0', '1', '2', '3', '4', '5', '6', '7', '8', '9'],
            ¬(c = ' ' ∨ c = '\t' ∨ c = '\n' ∨ c = '\r') ∧ c ≠ ']' := by simp
        exact hdigits c (mem_of_isDigit hc)
      · simp [IsBlank]
    · exact ⟨'n', _, by rw [appendNumber, if_pos (by simpa using hx)]; rfl, by simp [IsBlank]⟩
  | string s => exact ⟨'"', _, by rw [serializeInto]; rfl, by simp [IsBlank]⟩
  | array elements =>
    rw [serializeInto_array]
    obtain ⟨text, heq⟩ := hbracketed '[' ']' (serializeElements pretty (depth + 1) elements)
    exact ⟨'[', text, heq, by simp [IsBlank]⟩
  | object members =>
    rw [serializeInto_object]
    obtain ⟨text, heq⟩ := hbracketed '{' '}' (serializeMembers pretty (depth + 1) members)
    exact ⟨'{', text, heq, by simp [IsBlank]⟩

/-- Every item takes at least its comma. -/
private theorem length_le_following (pretty : Bool) (depth : ℕ) (items : List (List Char)) :
    items.length ≤ (following pretty depth items).length := by
  induction items with
  | nil => simp
  | cons item items ih =>
    simp only [following, List.flatMap_cons, List.length_append, List.length_cons] at ih ⊢
    omega

private theorem length_serializeElements (pretty : Bool) (depth : ℕ) (elements : List Value) :
    (serializeElements pretty depth elements).length = elements.length := by
  rw [serializeElements_eq_map, List.length_map]

private theorem length_serializeMembers (pretty : Bool) (depth : ℕ)
    (members : List (String × Value)) :
    (serializeMembers pretty depth members).length = members.length := by
  rw [serializeMembers_eq_map, List.length_map]

/-- Between the brackets stand the first item and those that follow it. -/
private theorem bracketed_cons (left right : Char) (pretty : Bool) (depth : ℕ) (item : List Char)
    (items : List (List Char)) (text : List Char) :
    bracketed left right pretty depth (item :: items) ++ text =
      left :: (newline pretty ++ indent pretty (depth + 1) ++ (item ++
        (following pretty (depth + 1) items ++ closing right pretty depth text))) := by
  simp [bracketed, separated_cons, closing]

private theorem parseValueInner_array (p : List Char → Parsed Value) (text : List Char) :
    parseValueInner p ('[' :: text) = parseArray p text := by
  rw [parseValueInner, skipWhitespace_cons (by simp [IsBlank])]
  rfl

private theorem parseValueInner_object (p : List Char → Parsed Value) (text : List Char) :
    parseValueInner p ('{' :: text) = parseObject p text := by
  rw [parseValueInner, skipWhitespace_cons (by simp [IsBlank])]
  rfl

/-- Where the bracket does not close at once there are elements. -/
private theorem parseArray_cons (p : List Char → Parsed Value) {blanks : List Char}
    (hb : ∀ c ∈ blanks, IsBlank c) {c : Char} (hc : ¬IsBlank c) (hne : c ≠ ']')
    (text : List Char) :
    parseArray p (blanks ++ c :: text) =
      parseElements p ((c :: text).length + 1) [] (c :: text) := by
  rw [parseArray, skipWhitespace_append _ hb hc]
  split
  · next h => exact absurd (List.cons.inj h).1 hne
  · rfl

private theorem parseObject_cons (p : List Char → Parsed Value) {blanks : List Char}
    (hb : ∀ c ∈ blanks, IsBlank c) {c : Char} (hc : ¬IsBlank c) (hne : c ≠ '}')
    (text : List Char) :
    parseObject p (blanks ++ c :: text) =
      parseMembers p ((c :: text).length + 1) (.object []) (c :: text) := by
  rw [parseObject, skipWhitespace_append _ hb hc]
  split
  · next h => exact absurd (List.cons.inj h).1 hne
  · rfl

/-- An array is read up to its bracket. -/
private theorem parseArray_spec (pretty : Bool) (depth : ℕ) (text : List Char)
    (elements : List Value) (hall : ∀ v ∈ elements, Reads levels v) :
    (parseValueInner (parseValue levels)
      ((Value.array elements).serializeInto pretty depth ++ text)).toOption =
      if depthElements elements ≤ levels then some (.array (rereadElements elements), text)
      else none := by
  rw [serializeInto_array]
  cases elements with
  | nil =>
    have hright := skipWhitespace_cons not_isBlank.2.1 text
    simp [serializeElements, bracketed, parseValueInner_array, parseArray, hright, depthElements,
      rereadElements, Except.toOption]
  | cons v elements =>
    obtain ⟨c, chars, heq, hblank, hne⟩ := exists_head v pretty (depth + 1)
    have hlen := length_le_following pretty (depth + 1)
      (serializeElements pretty (depth + 1) elements)
    rw [length_serializeElements] at hlen
    have hspec := parseElements_spec pretty (depth + 1) depth text elements
      (fun v hm ↦ hall v (List.mem_cons_of_mem _ hm)) v (hall v List.mem_cons_self) []
      ((v.serializeInto pretty (depth + 1) ++
        (following pretty (depth + 1) (serializeElements pretty (depth + 1) elements) ++
          closing ']' pretty depth text)).length + 1)
      (by simp only [List.length_append]; omega) [] (by simp)
    rw [List.nil_append, heq, List.cons_append] at hspec
    rw [serializeElements, bracketed_cons, heq, List.cons_append, parseValueInner_array,
      parseArray_cons _ (isBlank_indent pretty (depth + 1)) hblank hne, hspec]
    rfl

/-- An object is read up to its bracket. -/
private theorem parseObject_spec (pretty : Bool) (depth : ℕ) (text : List Char)
    (members : List (String × Value)) (hall : ∀ m ∈ members, Reads levels m.2)
    (hk : (members.map Prod.fst).Nodup) :
    (parseValueInner (parseValue levels)
      ((Value.object members).serializeInto pretty depth ++ text)).toOption =
      if depthMembers members ≤ levels then some (.object (rereadMembers members), text)
      else none := by
  rw [serializeInto_object]
  cases members with
  | nil =>
    have hright := skipWhitespace_cons not_isBlank.2.2 text
    simp [serializeMembers, bracketed, parseValueInner_object, parseObject, hright, depthMembers,
      rereadMembers, Except.toOption]
  | cons m members =>
    obtain ⟨key, v⟩ := m
    have hlen := length_le_following pretty (depth + 1)
      (serializeMembers pretty (depth + 1) members)
    rw [length_serializeMembers] at hlen
    have hspec := parseMembers_spec pretty (depth + 1) depth text members
      (fun v hm ↦ hall v (List.mem_cons_of_mem _ hm)) key v (hall (key, v) List.mem_cons_self) []
      hk ((appendEscaped key ++ (colon pretty ++ (v.serializeInto pretty (depth + 1) ++
        (following pretty (depth + 1) (serializeMembers pretty (depth + 1) members) ++
          closing '}' pretty depth text)))).length + 1)
      (by simp only [List.length_append]; omega) [] (by simp)
    have hquote (rest : List Char) : appendEscaped key ++ rest =
        '"' :: (key.toList.flatMap escape ++ '"' :: rest) := by simp [appendEscaped]
    rw [List.nil_append, hquote] at hspec
    rw [serializeMembers, bracketed_cons, List.append_assoc (appendEscaped key),
      List.append_assoc (appendEscaped key), List.append_assoc (colon pretty), hquote,
      parseValueInner_object, parseObject_cons _ (isBlank_indent pretty (depth + 1))
      (by simp [IsBlank]) (by decide), hspec]
    rfl

private theorem keyed_of_mem {v : Value} {elements : List Value} (h : KeyedElements elements)
    (hv : v ∈ elements) : v.Keyed := by
  induction elements with
  | nil => cases hv
  | cons w elements ih =>
    rcases List.mem_cons.mp hv with rfl | hv
    · exact h.1
    · exact ih h.2 hv

private theorem keyed_of_mem_members {m : String × Value} {members : List (String × Value)}
    (h : KeyedMembers members) (hm : m ∈ members) : m.2.Keyed := by
  induction members with
  | nil => cases hm
  | cons w members ih =>
    rcases List.mem_cons.mp hm with rfl | hm
    · exact h.1
    · exact ih h.2 hm

/-- `null` is read as it is. -/
private theorem parseValueInner_null (text : List Char) (p : List Char → Parsed Value) :
    parseValueInner p ("null".toList ++ text) = .ok (.null, text) := by
  have hskip := skipWhitespace_cons (c := 'n') (by simp [IsBlank]) ('u' :: 'l' :: 'l' :: text)
  simp [parseValueInner, hskip, literal]

/-- A truth value is read as it is. -/
private theorem parseValueInner_bool (b : Bool) (text : List Char)
    (p : List Char → Parsed Value) :
    parseValueInner p ((if b then "true".toList else "false".toList) ++ text) =
      .ok (.bool b, text) := by
  cases b with
  | false =>
    have hskip := skipWhitespace_cons (c := 'f') (by simp [IsBlank])
      ('a' :: 'l' :: 's' :: 'e' :: text)
    simp [parseValueInner, hskip, literal]
  | true =>
    have hskip := skipWhitespace_cons (c := 't') (by simp [IsBlank]) ('r' :: 'u' :: 'e' :: text)
    simp [parseValueInner, hskip, literal]

/-- A number that was written is read as one. -/
private theorem parseValueInner_number (x : Double) {text : List Char} (he : Ends text)
    (p : List Char → Parsed Value) :
    parseValueInner p (appendNumber x ++ text) = .ok ((Value.number x).reread, text) := by
  rw [Value.reread]
  by_cases hx : x.isFinite
  · obtain ⟨n, htext, hread⟩ := exists_numeral_appendNumber hx
    obtain ⟨c, chars, heq, hc⟩ := exists_head_text n
    have hother : ¬IsBlank c ∧ c ≠ '{' ∧ c ≠ '[' ∧ c ≠ '"' ∧ c ≠ 't' ∧ c ≠ 'f' ∧ c ≠ 'n' := by
      rcases hc with hc | rfl
      · have hdigits : ∀ c ∈ ['0', '1', '2', '3', '4', '5', '6', '7', '8', '9'],
            ¬(c = ' ' ∨ c = '\t' ∨ c = '\n' ∨ c = '\r') ∧ c ≠ '{' ∧ c ≠ '[' ∧ c ≠ '"' ∧
              c ≠ 't' ∧ c ≠ 'f' ∧ c ≠ 'n' := by simp
        exact hdigits c (mem_of_isDigit hc)
      · simp [IsBlank]
    obtain ⟨hblank, h1, h2, h3, h4, h5, h6⟩ := hother
    have hnumber := parseNumber_text n he
    rw [hread, heq, List.cons_append] at hnumber
    rw [if_pos hx, ← htext, heq, List.cons_append, parseValueInner, skipWhitespace_cons hblank]
    simp only [h1, h2, h3, h4, h5, h6, if_false, hnumber]
  · rw [if_neg hx, appendNumber, if_pos (by simpa using hx)]
    exact parseValueInner_null text p

/-- A string is read as one. -/
private theorem parseValueInner_string (s : String) (text : List Char)
    (p : List Char → Parsed Value) :
    parseValueInner p (appendEscaped s ++ text) = .ok (.string s, text) := by
  have hstring := parseString_appendEscaped s text
  rw [appendEscaped, List.cons_append] at hstring ⊢
  have hskip := skipWhitespace_cons (c := '"') (by simp [IsBlank])
    (s.toList.flatMap escape ++ ['"'] ++ text)
  have h : '"' ≠ '{' ∧ '"' ≠ '[' := by decide
  simp only [parseValueInner, hskip, h, if_false, if_true, hstring]

/-- What was written is read again, unless it is nested too deep. -/
private theorem reads (levels : ℕ) (v : Value) (hk : v.Keyed) : Reads levels v := by
  induction levels generalizing v with
  | zero =>
    intro pretty depth blanks text _ _
    have := v.depth_pos
    rw [if_neg (by omega)]
    rfl
  | succ levels ih =>
    intro pretty depth blanks text hb he
    obtain ⟨c, chars, heq, hblank, -⟩ := exists_head v pretty depth
    have hskip : parseValue (levels + 1) (blanks ++ (v.serializeInto pretty depth ++ text)) =
        parseValueInner (parseValue levels) (v.serializeInto pretty depth ++ text) := by
      rw [parseValue, heq, List.cons_append, parseValueInner_blanks hb hblank]
    rw [hskip]
    cases v with
    | array elements =>
      rw [parseArray_spec pretty depth text elements fun v hm ↦ ih v (keyed_of_mem hk hm)]
      simp [Value.depth, Value.reread]
    | object members =>
      rw [parseObject_spec pretty depth text members
        (fun m hm ↦ ih m.2 (keyed_of_mem_members hk.2 hm)) hk.1]
      simp [Value.depth, Value.reread]
    | null =>
      rw [serializeInto, parseValueInner_null]
      simp [Value.depth, Value.reread, Except.toOption]
    | bool b =>
      rw [serializeInto, parseValueInner_bool]
      simp [Value.depth, Value.reread, Except.toOption]
    | number x =>
      rw [serializeInto, parseValueInner_number x he]
      simp [Value.depth, Except.toOption]
    | string s =>
      rw [serializeInto, parseValueInner_string]
      simp [Value.depth, Value.reread, Except.toOption]

end Values
end Parser

/-- A value is read again as it was written, unless it is nested too deep. -/
theorem parse_serialize {v : Value} (hk : v.Keyed) (pretty : Bool) :
    (parse (v.serialize pretty)).toOption =
      if v.depth ≤ Parser.kMaxDepth then some v.reread else none := by
  obtain ⟨c, chars, heq, hblank, -⟩ := Parser.exists_head v pretty 0
  have hread := Parser.reads Parser.kMaxDepth v hk pretty 0 [] [] (by simp) (by simp [Parser.Ends])
  rw [List.nil_append, List.append_nil] at hread
  have hskip : Parser.skipWhitespace (v.serializeInto pretty 0) = v.serializeInto pretty 0 := by
    rw [heq, Parser.skipWhitespace_cons hblank]
  rw [parse, Parser.run, Value.serialize, String.toList_ofList, hskip]
  generalize Parser.parseValue Parser.kMaxDepth (v.serializeInto pretty 0) = parsed at *
  by_cases hd : v.depth ≤ Parser.kMaxDepth
  · rw [if_pos hd] at hread ⊢
    cases parsed with
    | error e => cases hread
    | ok p =>
      cases hread
      rfl
  · rw [if_neg hd] at hread ⊢
    cases parsed with
    | error e => rfl
    | ok p => cases hread

/-- A value with a line end behind it is read as it is alone. -/
theorem parse_serialize_line {v : Value} (hk : v.Keyed) (pretty : Bool) :
    (parse (v.serialize pretty ++ "\n")).toOption = (parse (v.serialize pretty)).toOption := by
  rw [parse_serialize hk pretty]
  obtain ⟨c, chars, heq, hblank, -⟩ := Parser.exists_head v pretty 0
  have hends : Parser.Ends ['\n'] := by simp [Parser.Ends]
  have hread := Parser.reads Parser.kMaxDepth v hk pretty 0 [] ['\n'] (by simp) hends
  rw [List.nil_append] at hread
  have hskip : Parser.skipWhitespace (v.serializeInto pretty 0 ++ ['\n']) =
      v.serializeInto pretty 0 ++ ['\n'] := by
    rw [heq, List.cons_append, Parser.skipWhitespace_cons hblank]
  rw [parse, Parser.run, Value.serialize, String.toList_append, String.toList_ofList,
    show "\n".toList = ['\n'] from rfl, hskip]
  generalize Parser.parseValue Parser.kMaxDepth (v.serializeInto pretty 0 ++ ['\n']) = parsed at *
  by_cases hd : v.depth ≤ Parser.kMaxDepth
  · rw [if_pos hd] at hread ⊢
    cases parsed with
    | error e => cases hread
    | ok p =>
      cases hread
      rfl
  · rw [if_neg hd] at hread ⊢
    cases parsed with
    | error e => rfl
    | ok p => cases hread

namespace Value

mutual

/-- Every number in a value is printed so that it is read again. -/
def Exact : Value → Prop
  | number x => Printable x
  | array elements => ExactElements elements
  | object members => ExactMembers members
  | _ => True

/-- Every number in the elements is. -/
def ExactElements : List Value → Prop
  | [] => True
  | v :: elements => v.Exact ∧ ExactElements elements

/-- Every number in the members is. -/
def ExactMembers : List (String × Value) → Prop
  | [] => True
  | (_, v) :: members => v.Exact ∧ ExactMembers members

end

mutual

/-- Exactly the values whose numbers are read again are read again. -/
theorem reread_eq_iff : ∀ v : Value, v.reread = v ↔ v.Exact
  | null => by simp [reread, Exact]
  | bool _ => by simp [reread, Exact]
  | string _ => by simp [reread, Exact]
  | number x => by
    rw [reread, Exact]
    cases x with
    | nan => simp [Double.isFinite, Printable]
    | inf neg => simp [Double.isFinite, Printable]
    | finite neg size =>
      rw [if_pos (show (Double.finite neg size).isFinite = true from rfl), number.injEq]
      exact rereadNumber_eq_iff neg size
  | array elements => by
    rw [reread, Exact, array.injEq]
    exact rereadElements_eq_iff elements
  | object members => by
    rw [reread, Exact, object.injEq]
    exact rereadMembers_eq_iff members

theorem rereadElements_eq_iff : ∀ elements : List Value,
    rereadElements elements = elements ↔ ExactElements elements
  | [] => by simp [rereadElements, ExactElements]
  | v :: elements => by
    rw [rereadElements, ExactElements, List.cons.injEq, reread_eq_iff v,
      rereadElements_eq_iff elements]

theorem rereadMembers_eq_iff : ∀ members : List (String × Value),
    rereadMembers members = members ↔ ExactMembers members
  | [] => by simp [rereadMembers, ExactMembers]
  | (key, v) :: members => by
    rw [rereadMembers, ExactMembers, List.cons.injEq, Prod.mk.injEq, reread_eq_iff v,
      rereadMembers_eq_iff members]
    simp

end

end Value

end WebLinked.Core.Json
