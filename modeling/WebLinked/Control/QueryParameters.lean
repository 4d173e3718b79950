import Mathlib
import WebLinked.Control.ControlUrl

/-!
# Query parameters

`src/control/http_server.cpp:200–244`. The two characters after a `%` are read by `strtol`, which
takes more than two hexadecimal digits to its end: a blank or a sign before one digit, and what ends
a C string behind them.
-/

namespace WebLinked.Control.Http

open WebLinked.Base NumberText

/-- The byte of two hexadecimal digits. -/
def hexByte (a b : Char) : Char := Char.ofNat (16 * hexDigit a + hexDigit b)

/-- Percent-decoding: `+` is a space, and `%` and two hexadecimal digits are a byte. -/
def percentDecode : Text → Text
  | [] => []
  | '%' :: a :: b :: rest =>
    if isHexDigit a && isHexDigit b then hexByte a b :: percentDecode rest
    else '%' :: percentDecode (a :: b :: rest)
  | c :: rest => (if c = '+' then ' ' else c) :: percentDecode rest

/-- The digit of a number below 16. -/
def hexChar (n : ℕ) : Char := Char.ofNat (if n < 10 then 48 + n else 55 + n)

/-- A byte as a character. -/
def byteChar (b : UInt8) : Char := Char.ofNat b.toNat

/-- Percent-encoding, of every byte but those that are kept. -/
def percentEncode (keep : UInt8 → Bool) (bytes : List UInt8) : Text :=
  bytes.flatMap fun b ↦
    if keep b && byteChar b ≠ '%' && byteChar b ≠ '+' then [byteChar b]
    else ['%', hexChar (b.toNat / 16), hexChar (b.toNat % 16)]

/-- What `strtol` reads to its end, though these are not two hexadecimal digits. -/
def Loose (a b : Char) : Prop :=
  a = '\x00' ∨ isHexDigit a = true ∧ b = '\x00' ∨
    (isSpace a = true ∨ a = '+' ∨ a = '-') ∧ isHexDigit b = true

instance : DecidableRel Loose := fun _ _ ↦ inferInstanceAs (Decidable (_ ∨ _ ∧ _ ∨ _ ∧ _))

/-- Such characters come after a `%` somewhere. -/
def HasLoose (text : Text) : Prop :=
  ∃ before a b after, text = before ++ '%' :: a :: b :: after ∧ Loose a b

/-- The pairs of a query: the texts between its `&`s, but for nothing after the last one. -/
def pairs (query : Text) : List Text :=
  if (query.splitOn '&').getLast? = some [] then (query.splitOn '&').dropLast
  else query.splitOn '&'

/-- What comes before the first `=` of a pair. -/
def keyOf (pair : Text) : Text := pair.takeWhile (· ≠ '=')

/-- What comes after the first `=` of a pair. -/
def valueOf (pair : Text) : Text := (pair.dropWhile (· ≠ '=')).tail

/-- The value of the first pair with a key, as it is written. -/
def firstValue (query key : Text) : Option Text :=
  ((pairs query).find? (keyOf · = key)).map valueOf

variable {text rest query key : Text} {a b c : Char}

/-! ### Two characters after a `%` -/

/-- A digit is no blank, no sign and no end. -/
theorem ne_of_isHexDigit (h : isHexDigit c = true) :
    isSpace c = false ∧ c ≠ '+' ∧ c ≠ '-' ∧ c ≠ '%' ∧ c ≠ '\x00' := by
  have hrange := isHexDigit_iff.mp h
  refine ⟨?_, ?_, ?_, ?_, ?_⟩
  · rw [← Bool.not_eq_true, isSpace_iff]
    omega
  all_goals
    rintro rfl
    exact absurd hrange (by decide)

theorem takeSign_cons (c : Char) (rest : Text) :
    takeSign (c :: rest) =
      if c = '-' then (true, rest) else if c = '+' then (false, rest) else (false, c :: rest) := by
  unfold takeSign
  split
  · next heq =>
    cases heq
    rfl
  · next heq =>
    cases heq
    rfl
  · next hminus hplus =>
    rw [if_neg, if_neg]
    · rintro rfl
      exact hplus _ rfl
    · rintro rfl
      exact hminus _ rfl

theorem length_takeSign_le (text : Text) : (takeSign text).2.length ≤ text.length := by
  cases text with
  | nil => exact le_rfl
  | cons c rest =>
    rw [takeSign_cons]
    split
    · exact Nat.le_succ _
    split
    · exact Nat.le_succ _
    · exact le_rfl

/-- Two characters have no room for a prefix and a digit. -/
theorem strtolHex_of_length (h : text.length ≤ 2) : strtolHex text =
    if (takeSign (text.dropWhile isSpace)).2.takeWhile isHexDigit = [] then (0, text)
    else
      let n : ℤ := ((takeSign (text.dropWhile isSpace)).2.takeWhile isHexDigit).foldl
        (fun n c ↦ 16 * n + hexDigit c) 0
      (if (takeSign (text.dropWhile isSpace)).1 then -n else n,
        (takeSign (text.dropWhile isSpace)).2.dropWhile isHexDigit) := by
  have hlength : (takeSign (text.dropWhile isSpace)).2.length ≤ 2 :=
    (length_takeSign_le _).trans ((List.dropWhile_suffix _).length_le.trans h)
  unfold strtolHex
  generalize takeSign (text.dropWhile isSpace) = signed at hlength ⊢
  obtain ⟨neg, body⟩ := signed
  dsimp only at hlength ⊢
  split
  · next x digit rest =>
    rw [List.length_cons, List.length_cons, List.length_cons] at hlength
    omega
  · rfl

theorem mem_takeSign (hc : c ∈ (takeSign text).2) : c ∈ text := by
  cases text with
  | nil => exact hc
  | cons d rest =>
    rw [takeSign_cons] at hc
    split at hc
    · exact List.mem_cons_of_mem _ hc
    split at hc
    · exact List.mem_cons_of_mem _ hc
    · exact hc

/-- Without a digit nothing is read. -/
theorem strtolHex_of_forall (hlength : text.length ≤ 2) (h : ∀ c ∈ text, isHexDigit c = false) :
    strtolHex text = (0, text) := by
  rw [strtolHex_of_length hlength, if_pos]
  cases hbody : (takeSign (text.dropWhile isSpace)).2 with
  | nil => rfl
  | cons c rest =>
    have hmem : c ∈ (takeSign (text.dropWhile isSpace)).2 := by
      rw [hbody]
      exact List.mem_cons_self ..
    have hc := h c ((List.dropWhile_suffix _).subset (mem_takeSign hmem))
    exact List.takeWhile_cons_of_neg (Bool.eq_false_iff.mp hc)

theorem strtolHex_cons_of_digit {sign : Bool} (hlength : text.length ≤ 2)
    (hsign : takeSign (text.dropWhile isSpace) = (sign, [c])) (hc : isHexDigit c = true) :
    strtolHex text = (if sign then -(hexDigit c : ℤ) else hexDigit c, []) := by
  have htake : [c].takeWhile isHexDigit = [c] := List.takeWhile_cons_of_pos hc
  have hdrop : [c].dropWhile isHexDigit = [] := List.dropWhile_cons_of_pos hc
  rw [strtolHex_of_length hlength, hsign]
  dsimp only
  rw [htake, hdrop, if_neg (List.cons_ne_nil _ _), List.foldl_cons, List.foldl_nil, mul_zero,
    zero_add]

/-- The characters as a C string: nothing after its end. -/
theorem takeWhile_window (a b : Char) : [a, b].takeWhile (· ≠ '\x00') =
    if a = '\x00' then [] else if b = '\x00' then [a] else [a, b] := by
  by_cases ha : a = '\x00'
  · rw [if_pos ha]
    exact List.takeWhile_cons_of_neg (by simpa using ha)
  by_cases hb : b = '\x00'
  · rw [if_neg ha, if_pos hb, List.takeWhile_cons_of_pos (by simpa using ha),
      List.takeWhile_cons_of_neg (by simpa using hb)]
  · rw [if_neg ha, if_neg hb, List.takeWhile_cons_of_pos (by simpa using ha),
      List.takeWhile_cons_of_pos (by simpa using hb), List.takeWhile_nil]

theorem strtolHex_digits (ha : isHexDigit a = true) (hb : isHexDigit b = true) :
    strtolHex ([a, b].takeWhile (· ≠ '\x00')) =
      (((16 * hexDigit a + hexDigit b : ℕ) : ℤ), []) := by
  obtain ⟨hspace, hplus, hminus, -, hend⟩ := ne_of_isHexDigit ha
  have hdrop : [a, b].dropWhile isSpace = [a, b] :=
    List.dropWhile_cons_of_neg (Bool.eq_false_iff.mp hspace)
  have hsign : takeSign [a, b] = (false, [a, b]) := by
    rw [takeSign_cons, if_neg hminus, if_neg hplus]
  have hall : ∀ c ∈ [a, b], isHexDigit c = true := by
    simp [ha, hb]
  rw [takeWhile_window, if_neg hend, if_neg (ne_of_isHexDigit hb).2.2.2.2,
    strtolHex_of_length le_rfl, hdrop, hsign]
  dsimp only
  rw [List.takeWhile_eq_self_iff.mpr hall, List.dropWhile_eq_nil_iff.mpr hall,
    if_neg (List.cons_ne_nil _ _), List.foldl_cons, List.foldl_cons, List.foldl_nil]
  push_cast
  simp

/-- What is read of loose characters is no `%`. -/
theorem strtolHex_loose (h : Loose a b) : ∃ v : ℤ, v % 256 ≠ 37 ∧
    strtolHex ([a, b].takeWhile (· ≠ '\x00')) = (v, []) := by
  rw [takeWhile_window]
  by_cases hend : a = '\x00'
  · rw [if_pos hend]
    exact ⟨0, by decide, rfl⟩
  rw [if_neg hend]
  obtain rfl | ⟨ha, rfl⟩ | ⟨hfront, hb⟩ := h
  · exact absurd rfl hend
  · obtain ⟨hspace, hplus, hminus, -, -⟩ := ne_of_isHexDigit ha
    have hlt := hexDigit_lt ha
    have hdrop : [a].dropWhile isSpace = [a] :=
      List.dropWhile_cons_of_neg (Bool.eq_false_iff.mp hspace)
    have hsign : takeSign ([a].dropWhile isSpace) = (false, [a]) := by
      rw [hdrop, takeSign_cons, if_neg hminus, if_neg hplus]
    rw [if_pos rfl, strtolHex_cons_of_digit (by simp) hsign ha]
    exact ⟨hexDigit a, by omega, rfl⟩
  · obtain ⟨hspace, hplus, hminus, -, hend'⟩ := ne_of_isHexDigit hb
    have hlt := hexDigit_lt hb
    rw [if_neg hend']
    -- The blank is passed, or the sign read, and then the digit.
    have hsign : ∃ sign, takeSign ([a, b].dropWhile isSpace) = (sign, [b]) := by
      by_cases hblank : isSpace a = true
      · rw [List.dropWhile_cons_of_pos hblank,
          List.dropWhile_cons_of_neg (Bool.eq_false_iff.mp hspace), takeSign_cons, if_neg hminus,
          if_neg hplus]
        exact ⟨false, rfl⟩
      · rw [List.dropWhile_cons_of_neg hblank, takeSign_cons]
        obtain hblank' | rfl | rfl := hfront
        · exact absurd hblank' hblank
        · exact ⟨false, rfl⟩
        · exact ⟨true, rfl⟩
    obtain ⟨sign, hsign⟩ := hsign
    rw [strtolHex_cons_of_digit le_rfl hsign hb]
    refine ⟨_, ?_, rfl⟩
    split
    · omega
    · omega

/-- Of any other characters one is left. -/
theorem strtolHex_left (hhex : ¬ (isHexDigit a = true ∧ isHexDigit b = true))
    (hloose : ¬ Loose a b) : (strtolHex ([a, b].takeWhile (· ≠ '\x00'))).2 ≠ [] := by
  unfold Loose at hloose
  rw [not_or, not_or] at hloose
  obtain ⟨hend, hone, htwo⟩ := hloose
  rw [takeWhile_window, if_neg hend]
  by_cases ha : isHexDigit a = true
  · have hb : isHexDigit b = false := Bool.eq_false_iff.mpr fun hb ↦ hhex ⟨ha, hb⟩
    obtain ⟨hspace, hplus, hminus, -, -⟩ := ne_of_isHexDigit ha
    have hdrop : [a, b].dropWhile isSpace = [a, b] :=
      List.dropWhile_cons_of_neg (Bool.eq_false_iff.mp hspace)
    have hsign : takeSign [a, b] = (false, [a, b]) := by
      rw [takeSign_cons, if_neg hminus, if_neg hplus]
    rw [if_neg fun hb ↦ hone ⟨ha, hb⟩, strtolHex_of_length le_rfl, hdrop, hsign]
    dsimp only
    rw [List.takeWhile_cons_of_pos ha, if_neg (List.cons_ne_nil _ _),
      List.dropWhile_cons_of_pos ha, List.dropWhile_cons_of_neg (Bool.eq_false_iff.mp hb)]
    exact List.cons_ne_nil _ _
  rw [Bool.not_eq_true] at ha
  by_cases hend' : b = '\x00'
  · rw [if_pos hend', strtolHex_of_forall (by simp) (by simpa using ha)]
    exact List.cons_ne_nil _ _
  rw [if_neg hend']
  by_cases hb : isHexDigit b = true
  · -- The first character is none that is passed, so nothing is read.
    have hfront : isSpace a = false ∧ a ≠ '+' ∧ a ≠ '-' := by
      rw [← Bool.not_eq_true, ← not_or, ← not_or]
      exact fun hfront ↦ htwo ⟨hfront, hb⟩
    have hdrop : [a, b].dropWhile isSpace = [a, b] :=
      List.dropWhile_cons_of_neg (Bool.eq_false_iff.mp hfront.1)
    have hsign : takeSign [a, b] = (false, [a, b]) := by
      rw [takeSign_cons, if_neg hfront.2.2, if_neg hfront.2.1]
    rw [strtolHex_of_length le_rfl, hdrop, hsign]
    dsimp only
    rw [List.takeWhile_cons_of_neg (Bool.eq_false_iff.mp ha), if_pos rfl]
    exact List.cons_ne_nil _ _
  · rw [Bool.not_eq_true] at hb
    rw [strtolHex_of_forall le_rfl (by simp [ha, hb])]
    exact List.cons_ne_nil _ _

/-! ### Decoding -/

theorem hasLoose_cons : HasLoose (c :: rest) ↔
    (∃ a b after, c = '%' ∧ rest = a :: b :: after ∧ Loose a b) ∨ HasLoose rest := by
  constructor
  · rintro ⟨before, a, b, after, heq, hloose⟩
    cases before with
    | nil =>
      rw [List.nil_append, List.cons.injEq] at heq
      exact Or.inl ⟨a, b, after, heq.1, heq.2, hloose⟩
    | cons d before =>
      rw [List.cons_append, List.cons.injEq] at heq
      exact Or.inr ⟨before, a, b, after, heq.2, hloose⟩
  · rintro (⟨a, b, after, rfl, rfl, hloose⟩ | ⟨before, a, b, after, rfl, hloose⟩)
    · exact ⟨[], a, b, after, rfl, hloose⟩
    · exact ⟨c :: before, a, b, after, rfl, hloose⟩

theorem hasLoose_escape : HasLoose ('%' :: a :: b :: rest) ↔
    Loose a b ∨ HasLoose (a :: b :: rest) := by
  rw [hasLoose_cons]
  apply or_congr_left
  constructor
  · rintro ⟨a', b', after, -, heq, hloose⟩
    rw [List.cons.injEq, List.cons.injEq] at heq
    rw [heq.1, heq.2.1]
    exact hloose
  · intro hloose
    exact ⟨a, b, rest, rfl, rfl, hloose⟩

theorem hasLoose_of_ne (h : c ≠ '%') : HasLoose (c :: rest) ↔ HasLoose rest := by
  rw [hasLoose_cons]
  apply or_iff_right
  rintro ⟨_, _, _, hc, -⟩
  exact h hc

theorem not_loose_of_isHexDigit (ha : isHexDigit a = true) (hb : isHexDigit b = true) :
    ¬ Loose a b := by
  obtain ⟨hspace, hplus, hminus, -, hend⟩ := ne_of_isHexDigit ha
  rintro (h | ⟨-, h⟩ | ⟨h | h | h, -⟩)
  · exact hend h
  · exact (ne_of_isHexDigit hb).2.2.2.2 h
  · rw [hspace] at h
    cases h
  · exact hplus h
  · exact hminus h

/-- What is decoded differs where loose characters come after a `%`, and nowhere else. -/
theorem urlDecode_eq_percentDecode_iff (text : Text) :
    urlDecode text = percentDecode text ↔ ¬ HasLoose text := by
  fun_induction urlDecode text with
  | case1 =>
    simp only [percentDecode, true_iff]
    rintro ⟨before, a, b, after, heq, -⟩
    exact absurd heq (by simp)
  | case2 a b rest value h ih =>
    by_cases hhex : isHexDigit a = true ∧ isHexDigit b = true
    · have hvalue : Char.ofNat (value % 256).toNat = hexByte a b := by
        rw [strtolHex_digits hhex.1 hhex.2, Prod.mk.injEq] at h
        have ha := hexDigit_lt hhex.1
        have hb := hexDigit_lt hhex.2
        rw [hexByte]
        congr 1
        omega
      rw [percentDecode, if_pos (by simp [hhex]), hvalue, List.cons.injEq, ih, hasLoose_escape,
        hasLoose_of_ne (ne_of_isHexDigit hhex.1).2.2.2.1,
        hasLoose_of_ne (ne_of_isHexDigit hhex.2).2.2.2.1]
      simp [not_loose_of_isHexDigit hhex.1 hhex.2]
    · -- `strtol` gives a byte that is no `%`.
      have hloose : Loose a b := by
        by_contra hloose
        exact strtolHex_left hhex hloose (by rw [h])
      obtain ⟨v, hv, hread⟩ := strtolHex_loose hloose
      rw [h, Prod.mk.injEq] at hread
      rw [percentDecode, if_neg (by simpa using hhex), hasLoose_escape, List.cons.injEq]
      constructor
      · rintro ⟨hchar, -⟩
        have hnat := congrArg Char.toNat hchar
        have hlt : 0 ≤ value % 256 ∧ value % 256 < 256 := by omega
        rw [Char.toNat_ofNat, if_pos (Or.inl (by omega))] at hnat
        change (value % 256).toNat = 37 at hnat
        rw [← hread.1] at hv
        omega
      · intro hnone
        exact absurd (Or.inl hloose) hnone
  | case3 a b rest value left hread h ih =>
    have hhex : ¬ (isHexDigit a = true ∧ isHexDigit b = true) := by
      intro hhex
      rw [strtolHex_digits hhex.1 hhex.2, Prod.mk.injEq] at hread
      exact h hread.2.symm
    have hloose : ¬ Loose a b := by
      intro hloose
      obtain ⟨v, -, hread'⟩ := strtolHex_loose hloose
      rw [hread, Prod.mk.injEq] at hread'
      exact h hread'.2
    rw [percentDecode, if_neg (by simpa using hhex), List.cons.injEq, ih, hasLoose_escape]
    simp [hloose]
  | case4 c rest h ih =>
    rw [percentDecode]
    · rw [List.cons.injEq, ih, hasLoose_cons, not_or]
      constructor
      · rintro ⟨-, hnone⟩
        refine ⟨?_, hnone⟩
        rintro ⟨a, b, after, hc, hrest, -⟩
        exact h a b after hc hrest
      · rintro ⟨-, hnone⟩
        exact ⟨rfl, hnone⟩
    · exact h

/-! ### Encoding -/

theorem urlDecode_escape (ha : isHexDigit a = true) (hb : isHexDigit b = true) :
    urlDecode ('%' :: a :: b :: rest) = hexByte a b :: urlDecode rest := by
  have hmod : ((16 * hexDigit a + hexDigit b : ℕ) : ℤ) % 256 =
      (16 * hexDigit a + hexDigit b : ℕ) := by
    have ha := hexDigit_lt ha
    have hb := hexDigit_lt hb
    omega
  rw [urlDecode, strtolHex_digits ha hb]
  dsimp only
  rw [if_pos rfl, hmod, Int.toNat_natCast, hexByte]

theorem urlDecode_cons (hpercent : c ≠ '%') (hplus : c ≠ '+') :
    urlDecode (c :: rest) = c :: urlDecode rest := by
  rw [urlDecode]
  · rw [if_neg hplus]
  · intro a b after hc
    exact absurd hc hpercent

theorem hexChar_spec : ∀ n < 16, isHexDigit (hexChar n) = true ∧ hexDigit (hexChar n) = n := by
  decide

/-- Every byte string is decoded from what it is encoded as, whatever is kept of it. -/
theorem urlDecode_percentEncode (keep : UInt8 → Bool) (bytes : List UInt8) :
    urlDecode (percentEncode keep bytes) = bytes.map byteChar := by
  unfold percentEncode
  induction bytes with
  | nil => rw [List.flatMap_nil, urlDecode, List.map_nil]
  | cons n bytes ih =>
    rw [List.flatMap_cons, List.map_cons]
    split
    · next hkeep =>
      simp only [Bool.and_eq_true, decide_eq_true_eq] at hkeep
      rw [List.singleton_append, urlDecode_cons hkeep.1.2 hkeep.2, ih]
    · have hlt := n.toNat_lt
      obtain ⟨hhigh, hhigh'⟩ := hexChar_spec (n.toNat / 16) (by omega)
      obtain ⟨hlow, hlow'⟩ := hexChar_spec (n.toNat % 16) (by omega)
      have hbyte : hexByte (hexChar (n.toNat / 16)) (hexChar (n.toNat % 16)) = byteChar n := by
        rw [hexByte, hhigh', hlow', Nat.div_add_mod, byteChar]
      rw [List.cons_append, List.cons_append, List.cons_append, List.nil_append,
        urlDecode_escape hhigh hlow, hbyte, ih]

/-! ### Pairs -/

theorem splitOn_cons (c : Char) (rest : Text) : (c :: rest).splitOn '&' =
    if c = '&' then [] :: rest.splitOn '&' else (rest.splitOn '&').modifyHead (c :: ·) := by
  rw [List.splitOn_cons_eq_if_modifyHead]
  by_cases hc : c = '&'
  · rw [if_pos hc, if_pos (by simpa using hc)]
  · rw [if_neg hc, if_neg (by simpa using hc)]

theorem getlines_eq_pairs (query : Text) : getlines '&' query = pairs query := by
  unfold pairs
  induction query with
  | nil => rfl
  | cons c rest ih =>
    rw [getlines, ih, splitOn_cons]
    have hne := List.splitOn_ne_nil '&' rest
    generalize rest.splitOn '&' = parts at hne
    by_cases hc : c = '&'
    · rw [if_pos hc, if_pos hc]
      cases parts with
      | nil => exact absurd rfl hne
      | cons part parts =>
        rw [List.getLast?_cons_cons, List.dropLast_cons_cons]
        split <;> rfl
    · rw [if_neg hc, if_neg hc]
      cases parts with
      | nil => exact absurd rfl hne
      | cons part parts =>
        rw [List.modifyHead_cons]
        cases parts with
        | nil =>
          rw [List.getLast?_singleton, List.getLast?_singleton]
          by_cases hpart : part = []
          · rw [hpart, if_pos rfl, if_neg (by simp)]
            rfl
          · rw [if_neg (by simpa using hpart), if_neg (by simp)]
        | cons part' parts =>
          rw [List.getLast?_cons_cons, List.getLast?_cons_cons, List.dropLast_cons_cons,
            List.dropLast_cons_cons]
          by_cases hlast : (part' :: parts).getLast? = some []
          · rw [if_pos hlast, if_pos hlast]
          · rw [if_neg hlast, if_neg hlast]

theorem findPair_eq (key fallback : Text) (pairs : List Text) : findPair key fallback pairs =
    (((pairs.find? (keyOf · = key)).map valueOf).map urlDecode).getD fallback := by
  induction pairs with
  | nil => rfl
  | cons pair pairs ih =>
    rw [findPair, List.find?_cons]
    by_cases hequals : '=' ∈ pair
    · rw [if_pos hequals]
      by_cases hkey : pair.takeWhile (· ≠ '=') = key
      · rw [if_pos hkey, show decide (keyOf pair = key) = true from decide_eq_true hkey]
        rfl
      · rw [if_neg hkey, ih, show decide (keyOf pair = key) = false from decide_eq_false hkey]
    · have hne : ∀ c ∈ pair, (c ≠ '=' : Bool) = true := by
        intro c hc
        rw [decide_eq_true_eq]
        rintro rfl
        exact hequals hc
      have hkeyOf : keyOf pair = pair := List.takeWhile_eq_self_iff.mpr hne
      have hvalueOf : valueOf pair = [] := by
        rw [valueOf, List.dropWhile_eq_nil_iff.mpr hne]
        rfl
      rw [if_neg hequals, hkeyOf]
      by_cases hkey : pair = key
      · rw [if_pos hkey, decide_eq_true hkey]
        dsimp only
        rw [Option.map_some, hvalueOf, Option.map_some, urlDecode, Option.getD_some]
      · rw [if_neg hkey, ih, decide_eq_false hkey]

theorem param_eq (request : Request) (key fallback : Text) : request.param key fallback =
    ((firstValue request.query key).map urlDecode).getD fallback := by
  rw [Request.param, getlines_eq_pairs, findPair_eq, firstValue]

/-- What a parameter should be. -/
theorem param_eq_percentDecode_iff (request : Request) (key fallback : Text) :
    request.param key fallback =
        ((firstValue request.query key).map percentDecode).getD fallback ↔
      ∀ value ∈ firstValue request.query key, ¬ HasLoose value := by
  rw [param_eq]
  cases firstValue request.query key with
  | none => simp
  | some value => simp [urlDecode_eq_percentDecode_iff]

/-- Decoding is percent-decoding of every text with no loose characters after a `%`, it inverts
every percent-encoding, and a parameter is what its first pair is decoded to. -/
theorem urlDecode_spec (text : Text) (keep : UInt8 → Bool) (bytes : List UInt8)
    (request : Request) (key fallback : Text) :
    (urlDecode text = percentDecode text ↔ ¬ HasLoose text) ∧
      urlDecode (percentEncode keep bytes) = bytes.map byteChar ∧
      (request.param key fallback =
          ((firstValue request.query key).map percentDecode).getD fallback ↔
        ∀ value ∈ firstValue request.query key, ¬ HasLoose value) :=
  ⟨urlDecode_eq_percentDecode_iff text, urlDecode_percentEncode keep bytes,
    param_eq_percentDecode_iff request key fallback⟩

/-- A sign before one digit is read as two digits are. -/
theorem urlDecode_ne_percentDecode :
    urlDecode "%+5".toList ≠ percentDecode "%+5".toList := by
  decide +kernel

end WebLinked.Control.Http
