import Mathlib
import WebLinked.Core.JsonAcceptance

/-!
# The bytes of a string

`src/core/json.cpp:230–322`. A surrogate pair is read as its code point. A surrogate that stands
alone is read as well, as three bytes that are no UTF-8.
-/

namespace WebLinked.Core.Json.Grammar

open WebLinked.Base NumberText

/-- A surrogate, which is no character. -/
def IsSurrogate (code : ℕ) : Prop := IsHigh code ∨ IsLow code

/-- The code points of the escapes of a string, the two halves of a pair being one. -/
def codes : List Piece → List ℕ
  | [] => []
  | .raw _ :: pieces => codes pieces
  | .short _ :: pieces => codes pieces
  | .code a b c d :: .code a' b' c' d' :: pieces =>
    if IsHigh (quad a b c d) ∧ IsLow (quad a' b' c' d') then
      pairCode (quad a b c d) (quad a' b' c' d') :: codes pieces
    else quad a b c d :: codes (.code a' b' c' d' :: pieces)
  | .code a b c d :: pieces => quad a b c d :: codes pieces

/-- No surrogate stands alone in a string. -/
def Paired (pieces : List Piece) : Prop := ∀ code ∈ codes pieces, ¬ IsSurrogate code

/-- Every pair in a string is read as the one character that it stands for. -/
def PairsRead (pieces : List Piece) : Prop :=
  ∀ front back a b c d a' b' c' d', pieces = front ++ .code a b c d :: .code a' b' c' d' :: back →
    IsHigh (quad a b c d) → IsLow (quad a' b' c' d') →
      ∃ x : Char, x.toNat = pairCode (quad a b c d) (quad a' b' c' d') ∧
        (decode pieces).map Char.toNat =
          (decode front).map Char.toNat ++ (Utf8.bytes x ++ (decode back).map Char.toNat)

section Strings

variable {front back text : List Char} {code low : ℕ} {a b c d : Char} {pieces : List Piece}

/-! ### Bytes -/

/-- The bytes of a code point. -/
theorem map_appendUtf8 (h : code < 0x110000) :
    (Parser.appendUtf8 code).map Char.toNat =
      if code < 0x80 then [code]
      else if code < 0x800 then [0xC0 + code / 64, 0x80 + code % 64]
      else if code < 0x10000 then [0xE0 + code / 4096, 0x80 + code / 64 % 64, 0x80 + code % 64]
      else
        [0xF0 + code / 262144, 0x80 + code / 4096 % 64, 0x80 + code / 64 % 64,
          0x80 + code % 64] := by
  have hchar : ∀ n < 256, (Char.ofNat n).toNat = n := by
    intro n hn
    rw [Char.toNat_ofNat, if_pos (Or.inl (by omega))]
  have hrest : ∀ n : ℕ, 0x80 ||| n &&& 0x3F = 0x80 + n % 64 := by
    intro n
    rw [show n &&& 0x3F = n % 64 from Nat.and_two_pow_sub_one_eq_mod n 6]
    exact (Nat.two_pow_add_eq_or_of_lt (i := 6) (Nat.mod_lt n (by decide)) 2).symm
  have htwo : ∀ n < 32, 0xC0 ||| n = 0xC0 + n := fun n hn ↦
    (Nat.two_pow_add_eq_or_of_lt (i := 6) (by omega) 3).symm
  have hthree : ∀ n < 16, 0xE0 ||| n = 0xE0 + n := fun n hn ↦
    (Nat.two_pow_add_eq_or_of_lt (i := 5) (by omega) 7).symm
  have hfour : ∀ n < 8, 0xF0 ||| n = 0xF0 + n := fun n hn ↦
    (Nat.two_pow_add_eq_or_of_lt (i := 4) (by omega) 15).symm
  have h6 : code >>> 6 = code / 64 := Nat.shiftRight_eq_div_pow code 6
  have h12 : code >>> 12 = code / 4096 := Nat.shiftRight_eq_div_pow code 12
  have h18 : code >>> 18 = code / 262144 := Nat.shiftRight_eq_div_pow code 18
  unfold Parser.appendUtf8
  rw [h6, h12, h18, hrest, hrest, hrest]
  split_ifs with h1 h2 h3
  · simp only [List.map_cons, List.map_nil, hchar code (by omega)]
  · rw [htwo _ (by omega)]
    simp only [List.map_cons, List.map_nil]
    rw [hchar _ (by omega), hchar _ (by omega)]
  · rw [hthree _ (by omega)]
    simp only [List.map_cons, List.map_nil]
    rw [hchar _ (by omega), hchar _ (by omega), hchar _ (by omega)]
  · rw [hfour _ (by omega)]
    simp only [List.map_cons, List.map_nil]
    rw [hchar _ (by omega), hchar _ (by omega), hchar _ (by omega), hchar _ (by omega)]

/-- A code point that is no surrogate is written as the character that it is. -/
theorem map_appendUtf8_eq_bytes (h : code < 0x110000) (hs : ¬ IsSurrogate code) :
    (Parser.appendUtf8 code).map Char.toNat = Utf8.bytes (Char.ofNat code) := by
  have hvalid : code.isValidChar := by
    unfold IsSurrogate IsHigh IsLow at hs
    unfold Nat.isValidChar
    omega
  have hcode : (Char.ofNat code).toNat = code := by
    rw [Char.toNat_ofNat, if_pos hvalid]
  rw [map_appendUtf8 h, Utf8.bytes_eq, hcode]

theorem isUtf8_appendUtf8_append_iff (h : code < 0x110000) (rest : List Char) :
    IsUtf8 (Parser.appendUtf8 code ++ rest) ↔ ¬ IsSurrogate code ∧ IsUtf8 rest := by
  unfold IsUtf8
  rw [List.map_append]
  by_cases hs : IsSurrogate code
  · have hbytes : (Parser.appendUtf8 code).map Char.toNat =
        [0xED, 0x80 + code / 64 % 64, 0x80 + code % 64] := by
      unfold IsSurrogate IsHigh IsLow at hs
      rw [map_appendUtf8 h, if_neg (by omega), if_neg (by omega), if_pos (by omega)]
      congr 1
      omega
    rw [hbytes]
    constructor
    · intro hvalid
      unfold IsSurrogate IsHigh IsLow at hs
      exact absurd hvalid (Utf8.not_valid_surrogate (by omega) (by omega))
    · rintro ⟨hno, -⟩
      exact absurd hs hno
  · rw [map_appendUtf8_eq_bytes h hs, (Utf8.valid_bytes _).append_iff]
    exact ⟨fun hvalid ↦ ⟨hs, hvalid⟩, fun hvalid ↦ hvalid.2⟩

theorem IsUtf8.append_iff (h : IsUtf8 front) : IsUtf8 (front ++ back) ↔ IsUtf8 back := by
  unfold IsUtf8
  rw [List.map_append]
  exact Utf8.Valid.append_iff h

theorem IsUtf8.append (hfront : IsUtf8 front) (hback : IsUtf8 back) : IsUtf8 (front ++ back) :=
  hfront.append_iff.mpr hback

theorem isUtf8_of_lt (h : ∀ c ∈ text, c.toNat < 0x80) : IsUtf8 text := by
  apply Utf8.valid_of_forall_lt
  intro n hn
  obtain ⟨c, hc, rfl⟩ := List.mem_map.mp hn
  exact h c hc

theorem isUtf8_cons_iff (h : c.toNat < 0x80) : IsUtf8 (c :: text) ↔ IsUtf8 text :=
  Utf8.valid_cons_iff h

/-- A text may be cut before a character of ASCII. -/
theorem isUtf8_append_cons_iff (h : c.toNat < 0x80) :
    IsUtf8 (front ++ c :: back) ↔ IsUtf8 front ∧ IsUtf8 back := by
  have hback : IsUtf8 (c :: back) ↔ IsUtf8 back := isUtf8_cons_iff h
  rw [← hback]
  unfold IsUtf8
  rw [List.map_append]
  apply Utf8.valid_append_iff
  rintro n ⟨⟩
  unfold Utf8.IsContinuation
  omega

/-! ### Escapes -/

theorem quad_lt (h : (Piece.code a b c d).Ok) : quad a b c d < 0x10000 := by
  obtain ⟨ha, hb, hc, hd⟩ := h
  have ha := hexDigit_lt ha
  have hb := hexDigit_lt hb
  have hc := hexDigit_lt hc
  have hd := hexDigit_lt hd
  unfold quad
  omega

/-- A pair stands for a character beyond the first 65536. -/
theorem pairCode_range (hhigh : IsHigh code) (hlow : IsLow low) :
    0x10000 ≤ pairCode code low ∧ pairCode code low < 0x110000 := by
  unfold IsHigh at hhigh
  unfold IsLow at hlow
  unfold pairCode
  omega

theorem not_isSurrogate_pairCode (hhigh : IsHigh code) (hlow : IsLow low) :
    ¬ IsSurrogate (pairCode code low) := by
  have hrange := pairCode_range hhigh hlow
  unfold IsSurrogate IsHigh IsLow
  omega

/-- What is written with an escape is ASCII. -/
theorem lt_of_mem_code (h : (Piece.code a b c d).Ok) :
    ∀ x ∈ ['u', a, b, c, d], x.toNat < 0x80 := by
  have hlt : ∀ x, isHexDigit x = true → x.toNat < 0x80 := by
    intro x hx
    have hrange := isHexDigit_iff.mp hx
    omega
  obtain ⟨ha, hb, hc, hd⟩ := h
  simp only [List.forall_mem_cons, List.not_mem_nil, false_implies, implies_true, and_true]
  exact ⟨by decide, hlt a ha, hlt b hb, hlt c hc, hlt d hd⟩

/-- A text is cut at an escape. -/
theorem isUtf8_append_code_iff (h : (Piece.code a b c d).Ok) :
    IsUtf8 (front ++ ((Piece.code a b c d).text ++ back)) ↔ IsUtf8 front ∧ IsUtf8 back := by
  have hescape := isUtf8_of_lt (lt_of_mem_code h)
  rw [Piece.text, List.cons_append, isUtf8_append_cons_iff (by decide), hescape.append_iff]

theorem lt_of_mem_shorts (h : c ∈ shorts) : c.toNat < 0x80 ∧ (shortChar c).toNat < 0x80 := by
  unfold shorts at h
  fin_cases h <;> decide

theorem isUtf8_append_short_iff (h : (Piece.short c).Ok) :
    IsUtf8 (front ++ ((Piece.short c).text ++ back)) ↔ IsUtf8 front ∧ IsUtf8 back := by
  rw [Piece.text, List.cons_append, isUtf8_append_cons_iff (by decide), List.singleton_append,
    isUtf8_cons_iff (lt_of_mem_shorts h).1]

/-- A string of a text that is UTF-8 stands for one just when no surrogate is alone in it. -/
theorem isUtf8_append_decode_iff (front : List Char) (hok : ∀ p ∈ pieces, p.Ok)
    (h : IsUtf8 (front ++ pieces.flatMap Piece.text)) :
    IsUtf8 (front ++ decode pieces) ↔ Paired pieces := by
  unfold Paired
  fun_induction decode pieces generalizing front with
  | case1 => exact ⟨fun _ _ hcode ↦ absurd hcode List.not_mem_nil, fun _ ↦ h⟩
  | case2 c pieces ih =>
    rw [codes, List.append_cons]
    apply ih _ (List.forall_mem_cons.mp hok).2
    rwa [← List.append_cons]
  | case3 c pieces ih =>
    obtain ⟨hc, hoks⟩ := List.forall_mem_cons.mp hok
    rw [List.flatMap_cons] at h
    obtain ⟨hfront, hback⟩ := (isUtf8_append_short_iff hc).mp h
    rw [codes, hfront.append_iff, isUtf8_cons_iff (lt_of_mem_shorts hc).2]
    exact ih [] hoks hback
  | case4 a b c d a' b' c' d' pieces hpair ih =>
    obtain ⟨hcode, hoks⟩ := List.forall_mem_cons.mp hok
    obtain ⟨hcode', hoks⟩ := List.forall_mem_cons.mp hoks
    rw [List.flatMap_cons, List.flatMap_cons] at h
    obtain ⟨hfront, hback⟩ := (isUtf8_append_code_iff hcode).mp h
    rw [← List.nil_append (Piece.text _ ++ _)] at hback
    obtain ⟨-, hback⟩ := (isUtf8_append_code_iff hcode').mp hback
    rw [codes, if_pos hpair, hfront.append_iff,
      isUtf8_appendUtf8_append_iff (pairCode_range hpair.1 hpair.2).2, List.forall_mem_cons]
    exact and_congr_right fun _ ↦ ih [] hoks hback
  | case5 a b c d a' b' c' d' pieces hpair ih =>
    obtain ⟨hcode, hoks⟩ := List.forall_mem_cons.mp hok
    rw [List.flatMap_cons] at h
    obtain ⟨hfront, hback⟩ := (isUtf8_append_code_iff hcode).mp h
    have hlt := quad_lt hcode
    rw [codes, if_neg hpair, hfront.append_iff, isUtf8_appendUtf8_append_iff (by omega),
      List.forall_mem_cons]
    exact and_congr_right fun _ ↦ ih [] hoks hback
  | case6 a b c d pieces hlast ih =>
    obtain ⟨hcode, hoks⟩ := List.forall_mem_cons.mp hok
    rw [List.flatMap_cons] at h
    obtain ⟨hfront, hback⟩ := (isUtf8_append_code_iff hcode).mp h
    have hlt := quad_lt hcode
    rw [codes, hfront.append_iff, isUtf8_appendUtf8_append_iff (by omega), List.forall_mem_cons]
    · exact and_congr_right fun _ ↦ ih [] hoks hback
    · exact hlast

/-! ### Pairs -/

/-- A code that is no second half of a pair is read apart from what is in front of it. -/
theorem decode_append_code (hlow : ¬ IsLow (quad a b c d)) (front back : List Piece) :
    decode (front ++ .code a b c d :: back) = decode front ++ decode (.code a b c d :: back) := by
  fun_induction decode front with
  | case1 => rfl
  | case2 c pieces ih => rw [List.cons_append, decode, ih, List.cons_append]
  | case3 c pieces ih => rw [List.cons_append, decode, ih, List.cons_append]
  | case4 a b c d a' b' c' d' pieces hpair ih =>
    rw [List.cons_append, List.cons_append, decode, if_pos hpair, ih, List.append_assoc]
  | case5 a b c d a' b' c' d' pieces hpair ih =>
    rw [List.cons_append, List.cons_append, decode, if_neg hpair, ← List.cons_append, ih,
      List.append_assoc]
  | case6 a' b' c' d' pieces hlast ih =>
    rw [List.cons_append, Parser.decode_code_cons, ih, List.append_assoc]
    rintro a'' b'' c'' d'' pieces' - heq
    cases pieces with
    | nil =>
      cases heq
      exact hlow
    | cons piece pieces =>
      cases heq
      exact absurd rfl (hlast _ _ _ _ _)

theorem pairsRead (pieces : List Piece) : PairsRead pieces := by
  rintro front back a b c d a' b' c' d' rfl hhigh hlow
  have hrange := pairCode_range hhigh hlow
  have hvalid : (pairCode (quad a b c d) (quad a' b' c' d')).isValidChar := Or.inr (by omega)
  refine ⟨Char.ofNat (pairCode (quad a b c d) (quad a' b' c' d')), ?_, ?_⟩
  · rw [Char.toNat_ofNat, if_pos hvalid]
  · have hnot : ¬ IsLow (quad a b c d) := by
      unfold IsHigh at hhigh
      unfold IsLow
      omega
    rw [decode_append_code hnot, decode, if_pos ⟨hhigh, hlow⟩, List.map_append, List.map_append,
      map_appendUtf8_eq_bytes hrange.2 (not_isSurrogate_pairCode hhigh hlow)]

end Strings

end WebLinked.Core.Json.Grammar
