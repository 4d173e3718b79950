import Mathlib
import WebLinked.Core.JsonReader

/-!
# What the parser accepts

`src/core/json.cpp:60–362`. The parser does what the lossless reader does and keeps the value. It
takes numbers and strings that RFC 8259 does not have.
-/

namespace WebLinked.Core.Json

open WebLinked.Base NumberText Grammar

namespace Parser

/-- The parser gives what `value` makes of what is read, and fails where nothing is read. -/
def Agrees {α β : Type} (value : α → β) (p : Parsed β) : Option (α × List Char) → Prop
  | some (item, rest) => p = .ok (value item, rest)
  | none => ∃ e, p = .error e

theorem Agrees.map {α α' β : Type} {value : α → β} {value' : α' → β} {g : α → α'} {p : Parsed β}
    {r : Option (α × List Char)} (h : Agrees value p r) (hvalue : ∀ a rest, r = some (a, rest) →
      value' (g a) = value a) : Agrees value' p (r.map fun (a, rest) ↦ (g a, rest)) := by
  cases r with
  | none => exact h
  | some q =>
    obtain ⟨a, rest⟩ := q
    show p = .ok (value' (g a), rest)
    rw [hvalue a rest rfl]
    exact h

/-! ### Strings -/

section Strings

variable {a b c d : Char} {code low : ℕ} {text rest : List Char}

theorem parseHex4_cons (rest : List Char) :
    Agrees id (parseHex4 (a :: b :: c :: d :: rest))
      (if isHexDigit a && isHexDigit b && isHexDigit c && isHexDigit d then
        some (quad a b c d, rest) else none) := by
  have hlength : ¬ (a :: b :: c :: d :: rest).length < 4 := by simp
  rw [parseHex4, if_neg hlength]
  by_cases ha : isHexDigit a
  · by_cases hb : isHexDigit b
    · by_cases hc : isHexDigit c
      · by_cases hd : isHexDigit d
        · simp [hexDigits, Agrees, ha, hb, hc, hd, quad]
        · simp [hexDigits, Agrees, ha, hb, hc, hd, fail]
      · simp [hexDigits, Agrees, ha, hb, hc, fail]
    · simp [hexDigits, Agrees, ha, hb, fail]
  · simp [hexDigits, Agrees, ha, fail]

theorem parseHex4_of_ok (h : (Piece.code a b c d).Ok) (rest : List Char) :
    parseHex4 (a :: b :: c :: d :: rest) = .ok (quad a b c d, rest) := by
  obtain ⟨ha, hb, hc, hd⟩ := h
  have hagrees := parseHex4_cons (a := a) (b := b) (c := c) (d := d) rest
  rw [ha, hb, hc, hd] at hagrees
  exact hagrees

/-- Four digits that are read. -/
theorem exists_of_parseHex4 (h : parseHex4 text = .ok (code, rest)) :
    ∃ a b c d, (Piece.code a b c d).Ok ∧ text = a :: b :: c :: d :: rest ∧ code = quad a b c d := by
  match text with
  | a :: b :: c :: d :: text =>
    have hagrees := parseHex4_cons (a := a) (b := b) (c := c) (d := d) text
    split at hagrees
    · next hdigits =>
      rw [hagrees] at h
      cases h
      simp only [Bool.and_eq_true] at hdigits
      obtain ⟨⟨⟨ha, hb⟩, hc⟩, hd⟩ := hdigits
      exact ⟨a, b, c, d, ⟨ha, hb, hc, hd⟩, rfl, rfl⟩
    · obtain ⟨e, he⟩ := hagrees
      rw [he] at h
      cases h
  | [] => cases h
  | [_] => cases h
  | [_, _] => cases h
  | [_, _, _] => cases h

theorem surrogate_pair (hhigh : IsHigh code) (hlow : IsLow low)
    (hdigits : parseHex4 text = .ok (low, rest)) :
    surrogate code ('\\' :: 'u' :: text) = (pairCode code low, rest) := by
  have hshift : ∀ n : ℕ, n <<< 10 = n * 1024 := fun n ↦ Nat.shiftLeft_eq n 10
  unfold IsHigh at hhigh
  unfold IsLow at hlow
  unfold surrogate pairCode
  simp only [hdigits, hhigh, hlow, and_self, if_true, hshift]

/-- The first half of a pair stays alone without the second one behind it. -/
theorem surrogate_alone (h : ∀ a b c d rest, IsHigh code → (Piece.code a b c d).Ok →
    text = '\\' :: 'u' :: a :: b :: c :: d :: rest → ¬ IsLow (quad a b c d)) :
    surrogate code text = (code, text) := by
  unfold surrogate
  split
  · next rest =>
    split
    · next hhigh =>
      split
      · next low rest' hlow =>
        obtain ⟨a, b, c, d, hok, rfl, rfl⟩ := exists_of_parseHex4 hlow
        exact if_neg (h a b c d rest' hhigh hok rfl)
      · rfl
    · rfl
  · rfl

theorem parseEscape_short (h : c ∈ shorts) (rest : List Char) :
    parseEscape (c :: rest) = .ok ([shortChar c], rest) := by
  unfold shorts at h
  fin_cases h <;> rfl

theorem parseEscape_code (h : (Piece.code a b c d).Ok) (rest : List Char) :
    parseEscape ('u' :: a :: b :: c :: d :: rest) =
      .ok (appendUtf8 (surrogate (quad a b c d) rest).1, (surrogate (quad a b c d) rest).2) := by
  rw [parseEscape, if_neg (by decide), if_neg (by decide), if_neg (by decide),
    if_neg (by decide), if_neg (by decide), if_neg (by decide), if_pos rfl, parseHex4_of_ok h]

theorem parseEscape_of_none (h : readEscape text = none) : ∃ e, parseEscape text = .error e := by
  cases text with
  | nil => exact ⟨_, rfl⟩
  | cons c text =>
    by_cases hshort : c ∈ shorts
    · exfalso
      rw [readEscape] at h
      · rw [if_pos hshort] at h
        cases h
      · rintro a b c d rest rfl
        exact absurd hshort (by decide)
    · simp only [shorts, List.mem_cons, List.not_mem_nil, or_false, not_or] at hshort
      obtain ⟨h1, h2, h3, h4, h5, h6, h7, h8⟩ := hshort
      rw [parseEscape, if_neg (by tauto), if_neg h4, if_neg h5, if_neg h6, if_neg h7, if_neg h8]
      split
      · next hu =>
        cases hcode : parseHex4 text with
        | error e => exact ⟨e, rfl⟩
        | ok p =>
          obtain ⟨code, rest⟩ := p
          obtain ⟨a, b, c, d, ⟨ha, hb, hc, hd⟩, rfl, rfl⟩ := exists_of_parseHex4 hcode
          rw [hu, readEscape, ha, hb, hc, hd] at h
          cases h
      · exact ⟨_, rfl⟩

/-- A code that is no first half of a pair, or has no second half behind it, stands alone. -/
theorem decode_code_cons {pieces : List Piece}
    (h : ∀ a' b' c' d' pieces', IsHigh (quad a b c d) → pieces = .code a' b' c' d' :: pieces' →
      ¬ IsLow (quad a' b' c' d')) :
    decode (.code a b c d :: pieces) = appendUtf8 (quad a b c d) ++ decode pieces := by
  cases pieces with
  | nil => rfl
  | cons piece pieces =>
    cases piece with
    | raw c => rfl
    | short c => rfl
    | code a' b' c' d' =>
      rw [decode, if_neg]
      rintro ⟨hhigh, hlow⟩
      exact h a' b' c' d' pieces hhigh rfl hlow

theorem parseChars_raw (hquote : c ≠ '"') (hslash : c ≠ '\\') (turns : ℕ) (out : List Char) :
    parseChars (turns + 1) out (c :: text) = parseChars turns (out ++ [c]) text := by
  rw [parseChars, if_neg hquote, if_neg hslash]

theorem parseChars_of_escape {chars : List Char} (h : parseEscape text = .ok (chars, rest))
    (turns : ℕ) (out : List Char) :
    parseChars (turns + 1) out ('\\' :: text) = parseChars turns (out ++ chars) rest := by
  rw [parseChars, if_neg (by decide), if_pos rfl, h]

theorem readPieces_cons {piece : Piece} (h : readPiece text = some (piece, rest))
    (hquote : text.head? ≠ some '"') (turns : ℕ) :
    readPieces (turns + 1) text =
      (readPieces turns rest).map fun (pieces, rest) ↦ (piece :: pieces, rest) := by
  rw [readPieces, if_neg hquote, h]
  simp only [Option.bind_eq_bind, Option.bind_some]
  cases readPieces turns rest <;> rfl

/-- An escape that is a code, with the second half of a pair if it has one. -/
theorem parseChars_code_agrees {turns turns' : ℕ} {out : List Char}
    (ih : ∀ (out text : List Char) (turns' : ℕ), text.length < turns → text.length < turns' →
      Agrees (fun pieces ↦ String.ofList (out ++ decode pieces)) (parseChars turns out text)
        (readPieces turns' text))
    (hok : (Piece.code a b c d).Ok) (h : rest.length < turns) (h' : rest.length < turns') :
    Agrees (fun pieces ↦ String.ofList (out ++ decode pieces))
      (parseChars (turns + 1) out ('\\' :: 'u' :: a :: b :: c :: d :: rest))
      ((readPieces turns' rest).map fun (pieces, rest) ↦ (.code a b c d :: pieces, rest)) := by
  rw [parseChars_of_escape (parseEscape_code hok rest)]
  by_cases hpair : ∃ a' b' c' d' rest', IsHigh (quad a b c d) ∧ (Piece.code a' b' c' d').Ok ∧
      rest = '\\' :: 'u' :: a' :: b' :: c' :: d' :: rest' ∧ IsLow (quad a' b' c' d')
  · obtain ⟨a', b', c', d', rest', hhigh, hok', rfl, hlow⟩ := hpair
    obtain ⟨turns', rfl⟩ := Nat.exists_eq_add_one_of_ne_zero (Nat.ne_zero_of_lt h')
    simp only [List.length_cons] at h h'
    have hread : readPiece ('\\' :: 'u' :: a' :: b' :: c' :: d' :: rest') = _ :=
      readPiece_append hok' rest'
    have hrest := ih (out ++ appendUtf8 (pairCode (quad a b c d) (quad a' b' c' d'))) rest' turns'
      (by omega) (by omega)
    rw [surrogate_pair hhigh hlow (parseHex4_of_ok hok' rest'),
      readPieces_cons hread (by simp), Option.map_map]
    apply hrest.map (g := fun pieces ↦ .code a b c d :: .code a' b' c' d' :: pieces)
    intro pieces _ _
    rw [decode, if_pos ⟨hhigh, hlow⟩, List.append_assoc]
  · have halone : surrogate (quad a b c d) rest = (quad a b c d, rest) := by
      apply surrogate_alone
      intro a' b' c' d' rest' hhigh hok' hrest hlow
      exact hpair ⟨a', b', c', d', rest', hhigh, hok', hrest, hlow⟩
    rw [halone]
    apply (ih (out ++ appendUtf8 (quad a b c d)) rest turns' h h').map
    intro pieces rest' hread
    rw [decode_code_cons, List.append_assoc]
    rintro a' b' c' d' pieces' hhigh rfl hlow
    obtain ⟨hoks, htext⟩ := readPieces_spec hread
    exact hpair ⟨a', b', c', d', _, hhigh, (List.forall_mem_cons.mp hoks).1, htext, hlow⟩

/-- The characters of a string, by the turns of the parser; it takes a surrogate pair in one. -/
theorem parseChars_agrees (turns : ℕ) : ∀ (out text : List Char) (turns' : ℕ),
    text.length < turns → text.length < turns' →
      Agrees (fun pieces ↦ String.ofList (out ++ decode pieces)) (parseChars turns out text)
        (readPieces turns' text) := by
  induction turns with
  | zero =>
    intro out text turns' h
    exact absurd h (Nat.not_lt_zero _)
  | succ turns ih =>
    intro out text turns' h h'
    obtain ⟨turns', rfl⟩ := Nat.exists_eq_add_one_of_ne_zero (Nat.ne_zero_of_lt h')
    cases text with
    | nil => exact ⟨_, rfl⟩
    | cons c text =>
      rw [List.length_cons] at h h'
      by_cases hquote : c = '"'
      · subst hquote
        show Except.ok _ = Except.ok (String.ofList (out ++ []), text)
        rw [List.append_nil]
      have hhead : (c :: text).head? ≠ some '"' := by simpa using hquote
      by_cases hslash : c = '\\'
      · subst hslash
        cases hescape : readEscape text with
        | none =>
          obtain ⟨e, he⟩ := parseEscape_of_none hescape
          rw [parseChars, if_neg (by decide), if_pos rfl, he, readPieces, if_neg hhead, readPiece,
            hescape]
          exact ⟨e, rfl⟩
        | some p =>
          obtain ⟨piece, rest⟩ := p
          have hread : readPiece ('\\' :: text) = some (piece, rest) := hescape
          rw [readPieces_cons hread hhead]
          obtain ⟨hok, htext⟩ := readEscape_spec hescape
          cases piece with
          | raw c =>
            cases htext
            exact absurd rfl hok.2
          | short c =>
            obtain rfl : text = c :: rest := List.tail_eq_of_cons_eq htext
            rw [List.length_cons] at h h'
            rw [parseChars_of_escape (parseEscape_short hok rest)]
            apply (ih (out ++ [shortChar c]) rest turns' (by omega) (by omega)).map
            intro pieces _ _
            rw [decode, List.append_assoc, List.singleton_append]
          | code a b c d =>
            obtain rfl : text = 'u' :: a :: b :: c :: d :: rest := List.tail_eq_of_cons_eq htext
            simp only [List.length_cons] at h h'
            exact parseChars_code_agrees ih hok (by omega) (by omega)
      · have hok : (Piece.raw c).Ok := ⟨hquote, hslash⟩
        have hread : readPiece (c :: text) = some (.raw c, text) := readPiece_append hok text
        rw [parseChars_raw hquote hslash, readPieces_cons hread hhead]
        apply (ih (out ++ [c]) text turns' (by omega) (by omega)).map
        intro pieces _ _
        rw [decode, List.append_assoc, List.singleton_append]

theorem parseString_agrees (text : List Char) :
    Agrees (fun pieces ↦ String.ofList (decode pieces)) (parseString text) (readString text) := by
  unfold parseString
  split
  · exact parseChars_agrees _ [] _ _ (Nat.lt_succ_self _) (Nat.lt_succ_self _)
  · next hquote =>
    unfold readString
    split
    · exact absurd rfl (hquote _)
    · exact ⟨_, rfl⟩

end Strings

/-! ### Numbers -/

section Numbers

theorem takeSign_eq (text : List Char) : (takeSign text).2 = (readSign text).2 := by
  unfold takeSign
  split
  · rfl
  · rfl
  · next hminus hplus =>
    rw [readSign]
    · exact hminus
    · exact hplus

theorem takeDigits_eq (text : List Char) :
    takeDigits Char.isDigit text = (text.takeWhile Char.isDigit,
      (readFraction (text.dropWhile Char.isDigit)).1.getD [],
      (readFraction (text.dropWhile Char.isDigit)).2) := by
  unfold takeDigits
  generalize text.dropWhile Char.isDigit = rest
  split
  · rfl
  · next hpoint =>
    rw [readFraction]
    · rfl
    · exact hpoint

theorem dropExponent_eq (text : List Char) : dropExponent text = (readExponent text).2 := by
  cases text with
  | nil => rfl
  | cons c text =>
    rw [dropExponent, readExponent, takeSign_eq]
    split <;> rfl

/-- What was passed over is what is in front of the rest. -/
theorem take_length_sub {text front rest : List Char} (h : text = front ++ rest) :
    text.take (text.length - rest.length) = front := by
  rw [h, List.length_append, Nat.add_sub_cancel, List.take_left]

theorem parseNumber_agrees (text : List Char) :
    Agrees (fun n ↦ (Tree.number n).value) (parseNumber text) (readNumber text) := by
  cases hs : readSign text with | mk sign afterSign =>
  cases hf : readFraction (afterSign.dropWhile Char.isDigit) with | mk fraction afterFraction =>
  cases he : readExponent afterFraction with | mk exponent rest =>
  have hread : readNumber text = if afterSign.takeWhile Char.isDigit ++ fraction.getD [] = [] then
      none else some (⟨sign, afterSign.takeWhile Char.isDigit, fraction, exponent⟩, rest) := by
    unfold readNumber
    rw [hs]
    dsimp only
    rw [hf]
    dsimp only
    rw [he]
  unfold parseNumber
  rw [takeSign_eq, hs, takeDigits_eq, hf]
  dsimp only
  rw [dropExponent_eq, he]
  split
  · next hempty =>
    rw [hread, if_pos hempty]
    exact ⟨_, rfl⟩
  · next hempty =>
    rw [if_neg hempty] at hread
    rw [hread, take_length_sub (reads_number.sound hread).2]
    rfl

end Numbers

/-! ### Values -/

section Values

variable {α β : Type} {text text' rest : List Char} {read : List Char → Option (Tree × List Char)}
  {parse : List Char → Parsed Value}

/-- The parser gives what `value` makes of what is read, the blanks after it left where they are. -/
def AgreesUpToBlanks (value : α → β) (p : Parsed β) : Option (α × List Char) → Prop
  | some (item, rest) => ∃ rest', p = .ok (value item, rest') ∧ skipWhitespace rest' = rest
  | none => ∃ e, p = .error e

theorem Agrees.padded {value : α → β} {read : List Char → Option (α × List Char)} {p : Parsed β}
    (h : Agrees value p (read (skipWhitespace text))) :
    AgreesUpToBlanks (fun q ↦ value q.item) p (readPadded read text) := by
  have hskip : text.dropWhile isBlank = skipWhitespace text := rfl
  unfold readPadded
  rw [hskip]
  cases hread : read (skipWhitespace text) with
  | none =>
    rw [hread] at h
    exact h
  | some q =>
    obtain ⟨item, rest⟩ := q
    rw [hread] at h
    exact ⟨rest, h, rfl⟩

/-- What a member sets. -/
def memberValue (m : Padded (List Piece) × Padded Tree) : String × Value :=
  (String.ofList (decode m.1.item), m.2.item.value)

theorem elementValues_eq_map (elements : List (Padded Tree)) :
    Tree.elementValues elements = elements.map fun e ↦ e.item.value := by
  induction elements with
  | nil => rfl
  | cons e elements ih => rw [Tree.elementValues, List.map_cons, ih]

theorem setMembers_cons (object : Value) (m : Padded (List Piece) × Padded Tree)
    (members : List (Padded (List Piece) × Padded Tree)) :
    Tree.setMembers object (m :: members) =
      Tree.setMembers (object.set (memberValue m).1 (memberValue m).2) members := by
  obtain ⟨key, before, tree, after⟩ := m
  rw [Tree.setMembers, memberValue]

theorem parseMember_agrees (h : ∀ text, Agrees Tree.value (parse text) (read (skipWhitespace text)))
    (text text' : List Char) (hskip : skipWhitespace text = skipWhitespace text') :
    AgreesUpToBlanks memberValue (parseMember parse text) (readMember read text') := by
  have hkey := Agrees.padded (parseString_agrees (skipWhitespace text'))
  unfold parseMember readMember
  rw [hskip]
  cases hread : readPadded readString text' with
  | none =>
    rw [hread] at hkey
    obtain ⟨e, he⟩ := hkey
    rw [he]
    exact ⟨e, rfl⟩
  | some q =>
    obtain ⟨key, rest⟩ := q
    rw [hread] at hkey
    obtain ⟨afterKey, hstring, hafter⟩ := hkey
    rw [hstring]
    dsimp only
    rw [hafter]
    split
    · next rest =>
      simp only [Option.bind_eq_bind, Option.bind_some]
      have hvalue := Agrees.padded (h rest)
      cases hread : readPadded read rest with
      | none =>
        rw [hread] at hvalue
        obtain ⟨e, he⟩ := hvalue
        rw [he]
        exact ⟨e, rfl⟩
      | some q =>
        obtain ⟨value, rest'⟩ := q
        rw [hread] at hvalue
        obtain ⟨afterValue, hparse, hafter⟩ := hvalue
        rw [hparse]
        exact ⟨afterValue, rfl, hafter⟩
    · next hcolon =>
      rw [Option.bind_eq_bind, Option.bind_some]
      dsimp only
      split
      · exact (hcolon _ rfl).elim
      · exact ⟨_, rfl⟩

theorem readItems_of_comma {read : List Char → Option (α × List Char)} {item : α} (close : Char)
    (h : read text = some (item, ',' :: rest)) (turns : ℕ) :
    readItems close read (turns + 1) text =
      (readItems close read turns rest).map fun (items, rest) ↦ (item :: items, rest) := by
  rw [readItems, h, Option.bind_eq_bind, Option.bind_some]
  dsimp only
  rw [if_pos rfl]
  cases readItems close read turns rest <;> rfl

theorem readItems_of_close {read : List Char → Option (α × List Char)} {item : α} {close : Char}
    (h : read text = some (item, close :: rest)) (hcomma : close ≠ ',') (turns : ℕ) :
    readItems close read (turns + 1) text = some ([item], rest) := by
  rw [readItems, h, Option.bind_eq_bind, Option.bind_some]
  dsimp only
  rw [if_neg hcomma, if_pos rfl]

theorem readItems_of_other {read : List Char → Option (α × List Char)} {item : α} {close : Char}
    (h : read text = some (item, rest)) (hcomma : ∀ tail, rest = ',' :: tail → False)
    (hclose : ∀ tail, rest = close :: tail → False) (turns : ℕ) :
    readItems close read (turns + 1) text = none := by
  rw [readItems, h, Option.bind_eq_bind, Option.bind_some]
  cases rest with
  | nil => rfl
  | cons c rest =>
    dsimp only
    rw [if_neg, if_neg]
    · rintro rfl
      exact hclose rest rfl
    · rintro rfl
      exact hcomma rest rfl

theorem parseElements_agrees
    (h : ∀ text, Agrees Tree.value (parse text) (read (skipWhitespace text))) (turns : ℕ) :
    ∀ elements text text', skipWhitespace text = skipWhitespace text' →
      Agrees (fun items ↦ Value.array (elements ++ Tree.elementValues items))
        (parseElements parse turns elements text)
        (readItems ']' (readPadded read) turns text') := by
  induction turns with
  | zero =>
    intros
    exact ⟨_, rfl⟩
  | succ turns ih =>
    intro elements text text' hskip
    have hitem := h text
    rw [hskip] at hitem
    have hitem := Agrees.padded hitem
    rw [parseElements]
    cases hread : readPadded read text' with
    | none =>
      rw [hread] at hitem
      obtain ⟨e, he⟩ := hitem
      rw [he, readItems, hread]
      exact ⟨e, rfl⟩
    | some q =>
      obtain ⟨item, rest⟩ := q
      rw [hread] at hitem
      obtain ⟨afterItem, hparse, hafter⟩ := hitem
      rw [hparse]
      dsimp only
      rw [hafter]
      split
      · rw [readItems_of_comma _ hread]
        apply (ih _ _ _ rfl).map
        intro items _ _
        rw [Tree.elementValues, List.append_assoc, List.singleton_append]
      · rw [readItems_of_close hread (by decide)]
        rfl
      · next hcomma hclose =>
        rw [readItems_of_other hread hcomma hclose]
        exact ⟨_, rfl⟩

theorem parseMembers_agrees
    (h : ∀ text, Agrees Tree.value (parse text) (read (skipWhitespace text))) (turns : ℕ) :
    ∀ object text text', skipWhitespace text = skipWhitespace text' →
      Agrees (Tree.setMembers object) (parseMembers parse turns object text)
        (readItems '}' (readMember read) turns text') := by
  induction turns with
  | zero =>
    intros
    exact ⟨_, rfl⟩
  | succ turns ih =>
    intro object text text' hskip
    have hitem := parseMember_agrees h text text' hskip
    rw [parseMembers]
    cases hread : readMember read text' with
    | none =>
      rw [hread] at hitem
      obtain ⟨e, he⟩ := hitem
      rw [he, readItems, hread]
      exact ⟨e, rfl⟩
    | some q =>
      obtain ⟨item, rest⟩ := q
      rw [hread] at hitem
      obtain ⟨afterItem, hparse, hafter⟩ := hitem
      rw [hparse]
      dsimp only
      rw [hafter]
      split
      · rw [readItems_of_comma _ hread]
        apply (ih _ _ _ rfl).map
        intro items _ _
        rw [setMembers_cons]
      · rw [readItems_of_close hread (by decide)]
        show Except.ok _ = Except.ok (Tree.setMembers object [item], _)
        rw [setMembers_cons]
        rfl
      · next hcomma hclose =>
        rw [readItems_of_other hread hcomma hclose]
        exact ⟨_, rfl⟩

theorem skipWhitespace_idempotent (text : List Char) :
    skipWhitespace (skipWhitespace text) = skipWhitespace text :=
  List.dropWhile_idempotent _ text

theorem readBracketed_of_close {read : List Char → Option (α × List Char)} {close : Char}
    {none : List Char → Tree} {some : List α → Tree} (h : skipWhitespace text = close :: rest) :
    readBracketed close read none some text = .some (none (text.takeWhile isBlank), rest) := by
  have hskip : text.dropWhile isBlank = close :: rest := h
  unfold readBracketed
  rw [hskip]
  exact if_pos rfl

theorem readBracketed_of_ne {read : List Char → Option (α × List Char)} {close : Char}
    {none : List Char → Tree} {some : List α → Tree}
    (h : ∀ tail, skipWhitespace text = close :: tail → False) :
    readBracketed close read none some text =
      (readItems close read ((skipWhitespace text).length + 1) text).map
        fun (items, rest) ↦ (some items, rest) := by
  apply if_neg
  intro hhead
  exact h _ (List.cons_head?_tail hhead).symm

theorem parseArray_agrees
    (h : ∀ text, Agrees Tree.value (parse text) (read (skipWhitespace text))) (text : List Char) :
    Agrees Tree.value (parseArray parse text)
      (readBracketed ']' (readPadded read) .emptyArray .array text) := by
  unfold parseArray
  split
  · next hclose =>
    rw [readBracketed_of_close hclose]
    rfl
  · next hclose =>
    rw [readBracketed_of_ne hclose]
    apply (parseElements_agrees h _ [] _ _ (skipWhitespace_idempotent text)).map
    intro items _ _
    rfl

theorem parseObject_agrees
    (h : ∀ text, Agrees Tree.value (parse text) (read (skipWhitespace text))) (text : List Char) :
    Agrees Tree.value (parseObject parse text)
      (readBracketed '}' (readMember read) .emptyObject .object text) := by
  unfold parseObject
  split
  · next hclose =>
    rw [readBracketed_of_close hclose]
    rfl
  · next hclose =>
    rw [readBracketed_of_ne hclose]
    apply (parseMembers_agrees h _ (.object []) _ _ (skipWhitespace_idempotent text)).map
    intro items _ _
    rfl

theorem literal_agrees (word : List Char) (tree : Tree) (text : List Char) :
    Agrees Tree.value (literal word tree.value text) (readWord word tree text) := by
  unfold literal readWord
  split
  · rfl
  · exact ⟨_, rfl⟩

theorem parseValueInner_agrees
    (h : ∀ text, Agrees Tree.value (parse text) (read (skipWhitespace text))) (text : List Char) :
    Agrees Tree.value (parseValueInner parse text) (readInner read (skipWhitespace text)) := by
  unfold parseValueInner
  cases skipWhitespace text with
  | nil => exact ⟨_, rfl⟩
  | cons c text =>
    rw [readInner]
    dsimp only
    split_ifs
    · exact parseObject_agrees h text
    · exact parseArray_agrees h text
    · have hstring := parseString_agrees (c :: text)
      cases hread : readString (c :: text) with
      | none =>
        rw [hread] at hstring
        obtain ⟨e, he⟩ := hstring
        rw [he]
        exact ⟨e, rfl⟩
      | some q =>
        obtain ⟨pieces, rest⟩ := q
        rw [hread] at hstring
        rw [hstring]
        rfl
    · exact literal_agrees "true".toList (.bool true) (c :: text)
    · exact literal_agrees "false".toList (.bool false) (c :: text)
    · exact literal_agrees "null".toList .null (c :: text)
    · apply (parseNumber_agrees (c :: text)).map
      intro n _ _
      rfl

theorem parseValue_agrees (levels : ℕ) : ∀ text : List Char,
    Agrees Tree.value (parseValue levels text) (readTree levels (skipWhitespace text)) := by
  induction levels with
  | zero =>
    intro text
    exact ⟨_, rfl⟩
  | succ levels ih => exact parseValueInner_agrees ih

theorem run_agrees (text : List Char) :
    Agrees (fun d : Document ↦ d.item.value) (run text)
      ((readDocument kMaxDepth text).map fun d ↦ (d, [])) := by
  have hvalue := parseValue_agrees kMaxDepth (skipWhitespace text)
  rw [skipWhitespace_idempotent] at hvalue
  have hvalue := hvalue.padded
  unfold run readDocument
  cases hread : readPadded (readTree kMaxDepth) text with
  | none =>
    rw [hread] at hvalue
    obtain ⟨e, he⟩ := hvalue
    rw [he]
    exact ⟨e, rfl⟩
  | some q =>
    obtain ⟨d, rest⟩ := q
    rw [hread] at hvalue
    obtain ⟨afterValue, hparse, hafter⟩ := hvalue
    rw [hparse]
    dsimp only
    rw [hafter]
    cases rest with
    | nil => rfl
    | cons c rest => exact ⟨_, rfl⟩

end Values

end Parser

/-! ### Whole texts -/

variable {text : String}

/-- What is accepted is put together as the grammar says, and its value is what is returned. -/
theorem parse_eq_ok_iff {v : Value} : parse text = .ok v ↔
    ∃ d : Document, d.Ok Parser.kMaxDepth ∧ d.text = text.toList ∧ d.item.value = v := by
  have hrun := Parser.run_agrees text.toList
  unfold parse
  constructor
  · intro h
    cases hread : readDocument Parser.kMaxDepth text.toList with
    | none =>
      rw [hread] at hrun
      obtain ⟨e, he⟩ := hrun
      rw [he] at h
      cases h
    | some d =>
      rw [hread] at hrun
      have hok : Parser.run text.toList = .ok (d.item.value, []) := hrun
      rw [hok] at h
      cases h
      obtain ⟨hd, htext⟩ := readDocument_eq_some_iff.mp hread
      exact ⟨d, hd, htext, rfl⟩
  · rintro ⟨d, hd, htext, rfl⟩
    rw [readDocument_eq_some_iff.mpr ⟨hd, htext⟩] at hrun
    have hok : Parser.run text.toList = .ok (d.item.value, []) := hrun
    rw [hok]

/-- A text is accepted just when it is one of the grammar's. -/
theorem exists_parse_eq_ok_iff : (∃ v, parse text = .ok v) ↔
    ∃ d : Document, d.Ok Parser.kMaxDepth ∧ d.text = text.toList := by
  constructor
  · rintro ⟨v, hv⟩
    obtain ⟨d, hd, htext, -⟩ := parse_eq_ok_iff.mp hv
    exact ⟨d, hd, htext⟩
  · rintro ⟨d, hd, htext⟩
    exact ⟨d.item.value, parse_eq_ok_iff.mpr ⟨d, hd, htext, rfl⟩⟩

/-- A text that is accepted is JSON just when all that it is put together of is. -/
theorem isJson_iff_of_ok {levels : ℕ} {text : List Char} {d : Document} (hd : d.Ok levels)
    (htext : d.text = text) : IsJson levels text ↔ d.item.Strict ∧ IsUtf8 text := by
  constructor
  · rintro ⟨hutf8, d', hd', hstrict, htext'⟩
    obtain rfl := document_ext hd' hd (htext'.trans htext.symm)
    exact ⟨hstrict, hutf8⟩
  · rintro ⟨hstrict, hutf8⟩
    exact ⟨hutf8, d, hd, hstrict, htext⟩

/-- JSON is accepted, and what is accepted is JSON where it has no number or string that RFC 8259
does not have and is UTF-8. -/
theorem accepted_iff_isJson_iff (text : String) :
    ((∃ v, parse text = .ok v) ↔ IsJson Parser.kMaxDepth text.toList) ↔
      ∀ d : Document, d.Ok Parser.kMaxDepth → d.text = text.toList →
        d.item.Strict ∧ IsUtf8 text.toList := by
  constructor
  · intro h d hd htext
    exact (isJson_iff_of_ok hd htext).mp (h.mp (exists_parse_eq_ok_iff.mpr ⟨d, hd, htext⟩))
  · intro h
    constructor
    · intro hparse
      obtain ⟨d, hd, htext⟩ := exists_parse_eq_ok_iff.mp hparse
      exact (isJson_iff_of_ok hd htext).mpr (h d hd htext)
    · rintro ⟨-, d, hd, -, htext⟩
      exact exists_parse_eq_ok_iff.mpr ⟨d, hd, htext⟩

/-- A number with a zero in front of other digits is accepted. -/
theorem accepted_not_isJson :
    ¬ ((∃ v, parse "01" = .ok v) ↔ IsJson Parser.kMaxDepth "01".toList) := by
  have hok : Document.Ok Parser.kMaxDepth ⟨[], .number ⟨[], ['0', '1'], none, none⟩, []⟩ := by
    refine ⟨by simp [AllBlank], by simp [AllBlank], ?_, by simp [Tree.depth, Parser.kMaxDepth]⟩
    exact ⟨Or.inl rfl, by simp [AllDigits], by simp, by simp, by simp⟩
  have htext : Document.text ⟨[], .number ⟨[], ['0', '1'], none, none⟩, []⟩ = "01".toList := rfl
  intro h
  obtain ⟨hstrict, -⟩ := (isJson_iff_of_ok hok htext).mp
    (h.mp (exists_parse_eq_ok_iff.mpr ⟨_, hok, htext⟩))
  obtain hwhole | ⟨-, hwhole⟩ := hstrict.whole
  · cases hwhole
  · exact hwhole rfl

end WebLinked.Core.Json
