import Mathlib
import WebLinked.Core.JsonGrammar

/-!
# Reading JSON without losing anything

A reader that gives back what a text is put together of. It reads what is written and nothing else,
so there is only one way in which a text can be put together.
-/

namespace WebLinked.Core.Json.Grammar

open WebLinked.Base NumberText

/-- A sign or none at the front of a text. -/
def readSign : List Char → List Char × List Char
  | '-' :: rest => (['-'], rest)
  | '+' :: rest => (['+'], rest)
  | text => ([], text)

/-- A point and digits at the front of a text, if there are any. -/
def readFraction : List Char → Option (List Char) × List Char
  | '.' :: rest => (some (rest.takeWhile Char.isDigit), rest.dropWhile Char.isDigit)
  | text => (none, text)

/-- An exponent at the front of a text, if there is one. -/
def readExponent : List Char → Option Exponent × List Char
  | [] => (none, [])
  | c :: rest =>
    if c = 'e' ∨ c = 'E' then
      (some ⟨c, (readSign rest).1, (readSign rest).2.takeWhile Char.isDigit⟩,
        (readSign rest).2.dropWhile Char.isDigit)
    else (none, c :: rest)

/-- A number at the front of a text. -/
def readNumber (text : List Char) : Option (Lexeme × List Char) :=
  let (sign, rest) := readSign text
  let whole := rest.takeWhile Char.isDigit
  let (fraction, rest) := readFraction (rest.dropWhile Char.isDigit)
  let (exponent, rest) := readExponent rest
  if whole ++ fraction.getD [] = [] then none else some (⟨sign, whole, fraction, exponent⟩, rest)

/-- What follows a backslash. -/
def readEscape : List Char → Option (Piece × List Char)
  | 'u' :: a :: b :: c :: d :: rest =>
    if isHexDigit a && isHexDigit b && isHexDigit c && isHexDigit d then
      some (.code a b c d, rest)
    else none
  | c :: rest => if c ∈ shorts then some (.short c, rest) else none
  | [] => none

/-- One character of a string. -/
def readPiece : List Char → Option (Piece × List Char)
  | '\\' :: rest => readEscape rest
  | c :: rest => some (.raw c, rest)
  | [] => none

/-- The characters of a string, in so many turns, and its closing quote. -/
def readPieces : ℕ → List Char → Option (List Piece × List Char)
  | 0, _ => none
  | turns + 1, text =>
    if text.head? = some '"' then some ([], text.tail)
    else do
      let (piece, rest) ← readPiece text
      let (pieces, rest) ← readPieces turns rest
      some (piece :: pieces, rest)

/-- Something after blanks and before blanks. -/
def readPadded {α : Type} (read : List Char → Option (α × List Char)) (text : List Char) :
    Option (Padded α × List Char) := do
  let (item, rest) ← read (text.dropWhile isBlank)
  some (⟨text.takeWhile isBlank, item, rest.takeWhile isBlank⟩, rest.dropWhile isBlank)

/-- Items up to a bracket, in so many turns. -/
def readItems {α : Type} (close : Char) (read : List Char → Option (α × List Char)) :
    ℕ → List Char → Option (List α × List Char)
  | 0, _ => none
  | turns + 1, text => do
    let (item, rest) ← read text
    match rest with
    | [] => none
    | c :: rest =>
      if c = ',' then do
        let (items, rest) ← readItems close read turns rest
        some (item :: items, rest)
      else if c = close then some ([item], rest)
      else none

/-- A string after its quote. -/
def readString (text : List Char) : Option (List Piece × List Char) :=
  match text with
  | '"' :: rest => readPieces (rest.length + 1) rest
  | _ => none

/-- A key and its value. -/
def readMember (read : List Char → Option (Tree × List Char)) (text : List Char) :
    Option ((Padded (List Piece) × Padded Tree) × List Char) := do
  let (key, rest) ← readPadded readString text
  match rest with
  | ':' :: rest => do
    let (tree, rest) ← readPadded read rest
    some ((key, tree), rest)
  | _ => none

/-- A list of items in brackets: none, or some. -/
def readBracketed {α : Type} (close : Char) (read : List Char → Option (α × List Char))
    (none : List Char → Tree) (some : List α → Tree) (text : List Char) :
    Option (Tree × List Char) :=
  let rest := text.dropWhile isBlank
  if rest.head? = .some close then .some (none (text.takeWhile isBlank), rest.tail)
  else (readItems close read (rest.length + 1) text).map fun (items, rest) ↦ (some items, rest)

/-- A word at the front of a text. -/
def readWord (word : List Char) (tree : Tree) (text : List Char) : Option (Tree × List Char) :=
  if word.isPrefixOf text then some (tree, text.drop word.length) else none

/-- A value that begins a text, with `read` for what is nested in it. -/
def readInner (read : List Char → Option (Tree × List Char)) :
    List Char → Option (Tree × List Char)
  | [] => none
  | c :: text =>
    if c = '{' then readBracketed '}' (readMember read) .emptyObject .object text
    else if c = '[' then readBracketed ']' (readPadded read) .emptyArray .array text
    else if c = '"' then (readString (c :: text)).map fun (pieces, rest) ↦ (.string pieces, rest)
    else if c = 't' then readWord "true".toList (.bool true) (c :: text)
    else if c = 'f' then readWord "false".toList (.bool false) (c :: text)
    else if c = 'n' then readWord "null".toList .null (c :: text)
    else (readNumber (c :: text)).map fun (n, rest) ↦ (.number n, rest)

/-- A value that begins a text, of so many levels. -/
def readTree : ℕ → List Char → Option (Tree × List Char)
  | 0, _ => none
  | levels + 1, text => readInner (readTree levels) text

/-- A whole text. -/
def readDocument (levels : ℕ) (text : List Char) : Option Document :=
  match readPadded (readTree levels) text with
  | some (d, []) => some d
  | _ => none

/-- A reader gives what is written, and is stopped by what may follow. -/
structure Reads {α : Type} (read : List Char → Option (α × List Char)) (write : α → List Char)
    (ok : α → Prop) (follows : List Char → Prop) : Prop where
  sound : ∀ {text item rest}, read text = some (item, rest) → ok item ∧ text = write item ++ rest
  complete : ∀ {item rest}, ok item → follows rest → read (write item ++ rest) = some (item, rest)

/-! ### Numbers -/

section Numbers

variable {text rest digits sign : List Char}

theorem readSign_spec (text : List Char) :
    IsSign (readSign text).1 ∧ text = (readSign text).1 ++ (readSign text).2 := by
  unfold readSign
  split
  · exact ⟨Or.inr (Or.inl rfl), rfl⟩
  · exact ⟨Or.inr (Or.inr rfl), rfl⟩
  · exact ⟨Or.inl rfl, rfl⟩

theorem readSign_append (h : IsSign sign) (hrest : ∀ c ∈ rest.head?, c ≠ '+' ∧ c ≠ '-') :
    readSign (sign ++ rest) = (sign, rest) := by
  obtain rfl | rfl | rfl := h
  · rw [List.nil_append]
    unfold readSign
    split
    · exact absurd rfl (hrest '-' rfl).2
    · exact absurd rfl (hrest '+' rfl).1
    · rfl
  · rfl
  · rfl

theorem allDigits_takeWhile (text : List Char) : AllDigits (text.takeWhile Char.isDigit) :=
  fun _ hc ↦ List.mem_takeWhile_imp hc

theorem readFraction_spec (text : List Char) :
    (∀ digits ∈ (readFraction text).1, AllDigits digits) ∧
      text = (readFraction text).1.elim [] ('.' :: ·) ++ (readFraction text).2 := by
  unfold readFraction
  split
  · next rest =>
    constructor
    · intro digits hdigits
      cases hdigits
      exact allDigits_takeWhile rest
    · exact congrArg ('.' :: ·) List.takeWhile_append_dropWhile.symm
  · exact ⟨by simp, rfl⟩

theorem readFraction_append {fraction : Option (List Char)}
    (h : ∀ digits ∈ fraction, AllDigits digits)
    (hrest : ∀ c ∈ rest.head?, c.isDigit = false ∧ c ≠ '.') :
    readFraction (fraction.elim [] ('.' :: ·) ++ rest) = (fraction, rest) := by
  cases fraction with
  | none =>
    rw [Option.elim_none, List.nil_append]
    unfold readFraction
    split
    · exact absurd rfl (hrest '.' rfl).2
    · rfl
  | some digits =>
    obtain ⟨htake, hdrop⟩ := takeWhile_append (h digits rfl) rest fun c hc ↦ (hrest c hc).1
    rw [Option.elim_some, List.cons_append, readFraction, htake, hdrop]

theorem readExponent_spec (text : List Char) :
    (∀ e ∈ (readExponent text).1, e.Ok) ∧
      text = (readExponent text).1.elim [] Exponent.text ++ (readExponent text).2 := by
  unfold readExponent
  split
  · exact ⟨by simp, rfl⟩
  · next c rest =>
    split
    · next hmarker =>
      obtain ⟨hsign, heq⟩ := readSign_spec rest
      constructor
      · intro e he
        cases he
        exact ⟨hmarker, hsign, allDigits_takeWhile _⟩
      · rw [Option.elim_some, Exponent.text, List.cons_append, List.append_assoc,
          List.takeWhile_append_dropWhile, ← heq]
    · exact ⟨by simp, rfl⟩

theorem readExponent_append {exponent : Option Exponent} (h : ∀ e ∈ exponent, e.Ok)
    (hrest : EndsNumber rest) :
    readExponent (exponent.elim [] Exponent.text ++ rest) = (exponent, rest) := by
  cases exponent with
  | none =>
    rw [Option.elim_none, List.nil_append]
    unfold readExponent
    split
    · rfl
    · next c rest =>
      obtain ⟨-, -, he, hE, -⟩ := hrest c rfl
      rw [if_neg (by simp [he, hE])]
  | some e =>
    obtain ⟨hmarker, hsign, hdigits⟩ := h e rfl
    obtain ⟨htake, hdrop⟩ := takeWhile_append hdigits rest fun c hc ↦ (hrest c hc).1
    have hhead : ∀ c ∈ (e.digits ++ rest).head?, c ≠ '+' ∧ c ≠ '-' := by
      intro c hc
      cases hempty : e.digits with
      | nil =>
        rw [hempty, List.nil_append] at hc
        exact (hrest c hc).2.2.2.2
      | cons d digits =>
        rw [hempty, List.cons_append, List.head?_cons, Option.mem_some_iff] at hc
        have hdigit := hdigits d (by rw [hempty]; exact List.mem_cons_self ..)
        rw [hc] at hdigit
        constructor
        · rintro rfl
          exact absurd hdigit (by decide)
        · rintro rfl
          exact absurd hdigit (by decide)
    have hread := readSign_append hsign hhead
    rw [Option.elim_some, Exponent.text, List.cons_append, List.append_assoc, readExponent,
      if_pos hmarker, hread, htake, hdrop]

/-- The first character of what may follow the digits of a number. -/
theorem head?_exponent {exponent : Option Exponent} (h : ∀ e ∈ exponent, e.Ok)
    (hrest : EndsNumber rest) : ∀ c ∈ (exponent.elim [] Exponent.text ++ rest).head?,
      c.isDigit = false ∧ c ≠ '.' ∧ c ≠ '+' ∧ c ≠ '-' := by
  intro c hc
  cases exponent with
  | none =>
    obtain ⟨hdigit, hpoint, -, -, hsign⟩ := hrest c hc
    exact ⟨hdigit, hpoint, hsign⟩
  | some e =>
    cases hc
    obtain hmarker | hmarker := (h e rfl).marker
    · rw [hmarker]
      decide
    · rw [hmarker]
      decide

theorem head?_fraction {fraction : Option (List Char)}
    (hrest : ∀ c ∈ rest.head?, c.isDigit = false ∧ c ≠ '.' ∧ c ≠ '+' ∧ c ≠ '-') :
    ∀ c ∈ (fraction.elim [] ('.' :: ·) ++ rest).head?, c.isDigit = false ∧ c ≠ '+' ∧ c ≠ '-' := by
  intro c hc
  cases fraction with
  | none =>
    obtain ⟨hdigit, -, hsign⟩ := hrest c hc
    exact ⟨hdigit, hsign⟩
  | some digits =>
    cases hc
    decide

theorem reads_number : Reads readNumber Lexeme.text Lexeme.Ok EndsNumber where
  sound := by
    intro text n rest h
    cases hs : readSign text with | mk sign afterSign =>
    cases hf : readFraction (afterSign.dropWhile Char.isDigit) with | mk fraction afterFraction =>
    cases he : readExponent afterFraction with | mk exponent afterExponent =>
    obtain ⟨hsign, hsplit⟩ := readSign_spec text
    obtain ⟨hfraction, hsplit'⟩ := readFraction_spec (afterSign.dropWhile Char.isDigit)
    obtain ⟨hexponent, hsplit''⟩ := readExponent_spec afterFraction
    rw [hs] at hsign hsplit
    rw [hf] at hfraction hsplit'
    rw [he] at hexponent hsplit''
    unfold readNumber at h
    rw [hs] at h
    dsimp only at h
    rw [hf] at h
    dsimp only at h
    rw [he] at h
    obtain ⟨hne, h⟩ := Option.ite_none_left_eq_some.mp h
    cases h
    refine ⟨⟨hsign, allDigits_takeWhile _, hfraction, hexponent, hne⟩, ?_⟩
    unfold Lexeme.text
    dsimp only
    rw [List.append_assoc, List.append_assoc, List.append_assoc, ← hsplit'', ← hsplit',
      List.takeWhile_append_dropWhile, ← hsplit]
  complete := by
    intro n rest hn hrest
    obtain ⟨sign, whole, fraction, exponent⟩ := n
    obtain ⟨hsign, hwhole, hfraction, hexponent, hne⟩ := hn
    dsimp only at hsign hwhole hfraction hexponent hne
    have hhead := head?_exponent hexponent hrest
    have hhead' : ∀ c ∈ (fraction.elim [] ('.' :: ·) ++ _).head?, _ := head?_fraction hhead
    obtain ⟨htake, hdrop⟩ := takeWhile_append hwhole _ fun c hc ↦ (hhead' c hc).1
    have hhead'' : ∀ c ∈ (whole ++ (fraction.elim [] ('.' :: ·) ++
        (exponent.elim [] Exponent.text ++ rest))).head?, c ≠ '+' ∧ c ≠ '-' := by
      intro c hc
      cases whole with
      | nil => exact (hhead' c hc).2
      | cons d whole =>
        rw [List.cons_append, List.head?_cons, Option.mem_some_iff] at hc
        have hdigit := hwhole d (List.mem_cons_self ..)
        rw [hc] at hdigit
        constructor
        · rintro rfl
          exact absurd hdigit (by decide)
        · rintro rfl
          exact absurd hdigit (by decide)
    unfold readNumber Lexeme.text
    dsimp only
    rw [List.append_assoc, List.append_assoc, List.append_assoc, readSign_append hsign hhead'']
    dsimp only
    rw [hdrop, readFraction_append hfraction fun c hc ↦ ⟨(hhead c hc).1, (hhead c hc).2.1⟩]
    dsimp only
    rw [readExponent_append hexponent hrest, htake]
    exact if_neg hne

end Numbers

/-! ### Strings -/

section Strings

variable {text rest : List Char} {piece : Piece} {pieces : List Piece} {turns : ℕ}

theorem readEscape_spec (h : readEscape text = some (piece, rest)) :
    piece.Ok ∧ '\\' :: text = piece.text ++ rest := by
  unfold readEscape at h
  split at h
  · obtain ⟨hdigits, h⟩ := Option.ite_none_right_eq_some.mp h
    cases h
    simp only [Bool.and_eq_true] at hdigits
    obtain ⟨⟨⟨ha, hb⟩, hc⟩, hd⟩ := hdigits
    exact ⟨⟨ha, hb, hc, hd⟩, rfl⟩
  · obtain ⟨hshort, h⟩ := Option.ite_none_right_eq_some.mp h
    cases h
    exact ⟨hshort, rfl⟩
  · cases h

theorem readPiece_spec (h : readPiece text = some (piece, rest)) (hquote : text.head? ≠ some '"') :
    piece.Ok ∧ text = piece.text ++ rest := by
  unfold readPiece at h
  split at h
  · exact readEscape_spec h
  · next c rest hne =>
    cases h
    constructor
    · constructor
      · rintro rfl
        exact hquote rfl
      · rintro rfl
        exact hne rfl
    · rfl
  · cases h

theorem readPiece_append (h : piece.Ok) (rest : List Char) :
    readPiece (piece.text ++ rest) = some (piece, rest) := by
  cases piece with
  | raw c =>
    unfold readPiece
    split
    · next heq =>
      cases heq
      exact absurd rfl h.2
    · next heq =>
      cases heq
      rfl
    · next heq => cases heq
  | short c =>
    show readEscape (c :: rest) = _
    unfold readEscape
    split
    · next heq =>
      cases heq
      exact absurd (show 'u' ∈ shorts from h) (by decide)
    · next heq =>
      cases heq
      exact if_pos h
    · next heq => cases heq
  | code a b c d =>
    obtain ⟨ha, hb, hc, hd⟩ := h
    show (if isHexDigit a && isHexDigit b && isHexDigit c && isHexDigit d then _ else none) = _
    rw [ha, hb, hc, hd]
    rfl

/-- A character of a string does not begin with a quote. -/
theorem head?_piece (h : piece.Ok) (rest : List Char) :
    (piece.text ++ rest).head? ≠ some '"' := by
  cases piece with
  | raw c =>
    intro heq
    exact h.1 (Option.some_inj.mp heq)
  | short c =>
    show some '\\' ≠ some '"'
    decide
  | code a b c d =>
    show some '\\' ≠ some '"'
    decide

theorem piece_text_length_pos (piece : Piece) : 0 < piece.text.length := by
  cases piece <;> exact Nat.succ_pos _

theorem length_le_flatMap_text (pieces : List Piece) :
    pieces.length ≤ (pieces.flatMap Piece.text).length := by
  induction pieces with
  | nil => exact le_rfl
  | cons piece pieces ih =>
    have hpos := piece_text_length_pos piece
    rw [List.flatMap_cons, List.length_append, List.length_cons]
    omega

theorem readPieces_spec (h : readPieces turns text = some (pieces, rest)) :
    (∀ p ∈ pieces, p.Ok) ∧ text = pieces.flatMap Piece.text ++ '"' :: rest := by
  induction turns generalizing text pieces with
  | zero => cases h
  | succ turns ih =>
    unfold readPieces at h
    split at h
    · next hquote =>
      cases h
      exact ⟨by simp, (List.cons_head?_tail hquote).symm⟩
    · next hquote =>
      obtain ⟨⟨piece, rest'⟩, hpiece, h⟩ := Option.bind_eq_some_iff.mp h
      obtain ⟨⟨pieces', rest''⟩, hpieces, h⟩ := Option.bind_eq_some_iff.mp h
      cases h
      obtain ⟨hok, htext⟩ := readPiece_spec hpiece hquote
      obtain ⟨hoks, htexts⟩ := ih hpieces
      constructor
      · exact List.forall_mem_cons.mpr ⟨hok, hoks⟩
      · rw [htext, htexts, List.flatMap_cons, List.append_assoc]

theorem readPieces_append (h : ∀ p ∈ pieces, p.Ok) (hturns : pieces.length < turns) :
    readPieces turns (pieces.flatMap Piece.text ++ '"' :: rest) = some (pieces, rest) := by
  induction pieces generalizing turns with
  | nil =>
    cases turns with
    | zero => exact absurd hturns (Nat.not_lt_zero _)
    | succ turns => rfl
  | cons piece pieces ih =>
    cases turns with
    | zero => exact absurd hturns (Nat.not_lt_zero _)
    | succ turns =>
      obtain ⟨hok, hoks⟩ := List.forall_mem_cons.mp h
      rw [List.flatMap_cons, List.append_assoc, readPieces, if_neg (head?_piece hok _),
        readPiece_append hok]
      simp only [Option.bind_eq_bind, Option.bind_some, ih hoks (Nat.lt_of_succ_lt_succ hturns)]

theorem reads_string : Reads readString quoted (∀ p ∈ ·, p.Ok) fun _ ↦ True where
  sound := by
    intro text pieces rest h
    unfold readString at h
    split at h
    · obtain ⟨hok, htext⟩ := readPieces_spec h
      rw [htext, quoted, List.cons_append, List.append_assoc]
      exact ⟨hok, rfl⟩
    · cases h
  complete := by
    intro pieces rest h _
    have hlength := length_le_flatMap_text pieces
    rw [quoted, List.cons_append, List.append_assoc]
    apply readPieces_append h
    rw [List.length_append]
    omega

end Strings

/-! ### Blanks and lists -/

/-- The end of something with the blanks around it. -/
def Stops (rest : List Char) : Prop := ∀ c ∈ rest.head?, c ∈ [',', ':', ']', '}']

namespace Padded

variable {α : Type}

/-- As it is written, with `write` for the item. -/
def text (write : α → List Char) (p : Padded α) : List Char :=
  p.before ++ (write p.item ++ p.after)

/-- What is read as something with the blanks around it. -/
structure Ok (ok : α → Prop) (p : Padded α) : Prop where
  before : AllBlank p.before
  after : AllBlank p.after
  item : ok p.item

end Padded

section Lists

variable {α : Type} {read : List Char → Option (α × List Char)} {write : α → List Char}
  {ok : α → Prop} {close : Char} {text rest : List Char} {items : List α}

theorem allBlank_takeWhile (text : List Char) : AllBlank (text.takeWhile isBlank) :=
  fun _ hc ↦ List.mem_takeWhile_imp hc

theorem Stops.not_blank (h : Stops rest) : ∀ c ∈ rest.head?, isBlank c = false := by
  intro c hc
  have hmem := h c hc
  fin_cases hmem <;> rfl

/-- What follows blanks, or comes after a value, ends a number. -/
theorem Stops.endsNumber {blanks : List Char} (hblanks : AllBlank blanks) (h : Stops rest) :
    EndsNumber (blanks ++ rest) := by
  intro c hc
  cases blanks with
  | nil =>
    have hmem := h c hc
    fin_cases hmem <;> decide
  | cons d blanks =>
    cases hc
    have hblank := hblanks c (List.mem_cons_self ..)
    simp only [isBlank, Bool.or_eq_true, decide_eq_true_eq] at hblank
    obtain ((rfl | rfl) | rfl) | rfl := hblank <;> decide

theorem reads_padded {follows : List Char → Prop} (h : Reads read write ok follows)
    (hhead : ∀ item, ok item → ∀ rest, ∀ c ∈ (write item ++ rest).head?, isBlank c = false)
    (hfollows : ∀ blanks rest, AllBlank blanks → Stops rest → follows (blanks ++ rest)) :
    Reads (readPadded read) (Padded.text write) (Padded.Ok ok) Stops where
  sound := by
    intro text p rest hread
    obtain ⟨⟨item, after⟩, hitem, hread⟩ := Option.bind_eq_some_iff.mp hread
    cases hread
    obtain ⟨hok, htext⟩ := h.sound hitem
    constructor
    · exact ⟨allBlank_takeWhile _, allBlank_takeWhile _, hok⟩
    · rw [Padded.text, List.append_assoc, List.append_assoc, List.takeWhile_append_dropWhile,
        ← htext, List.takeWhile_append_dropWhile]
  complete := by
    intro p rest hp hrest
    obtain ⟨before, item, after⟩ := p
    obtain ⟨hbefore, hafter, hitem⟩ := hp
    dsimp only at hbefore hafter hitem
    obtain ⟨htake, hdrop⟩ := takeWhile_append hbefore _ (hhead item hitem (after ++ rest))
    obtain ⟨htake', hdrop'⟩ := takeWhile_append hafter rest hrest.not_blank
    have hread := h.complete hitem (hfollows after rest hafter hrest)
    unfold Padded.text readPadded
    dsimp only
    rw [List.append_assoc, List.append_assoc, htake, hdrop, hread]
    simp only [Option.bind_eq_bind, Option.bind_some, htake', hdrop']

theorem separated_singleton (item : List Char) : separated close [item] = item ++ [close] := rfl

theorem separated_cons (item item' : List Char) (texts : List (List Char)) :
    separated close (item :: item' :: texts) =
      item ++ ',' :: separated close (item' :: texts) := rfl

theorem readItems_spec {follows : List Char → Prop} (h : Reads read write ok follows) {turns : ℕ}
    (hread : readItems close read turns text = some (items, rest)) :
    items ≠ [] ∧ (∀ item ∈ items, ok item) ∧
      text = separated close (items.map write) ++ rest := by
  induction turns generalizing text items with
  | zero => cases hread
  | succ turns ih =>
    obtain ⟨⟨item, afterItem⟩, hitem, hread⟩ := Option.bind_eq_some_iff.mp hread
    obtain ⟨hok, htext⟩ := h.sound hitem
    dsimp only at hread
    split at hread
    · cases hread
    · next c rest' =>
      split at hread
      · next hcomma =>
        obtain ⟨⟨items', rest''⟩, hitems, hread⟩ := Option.bind_eq_some_iff.mp hread
        cases hread
        obtain ⟨hne, hoks, htexts⟩ := ih hitems
        dsimp only
        refine ⟨List.cons_ne_nil _ _, List.forall_mem_cons.mpr ⟨hok, hoks⟩, ?_⟩
        cases items' with
        | nil => exact absurd rfl hne
        | cons item' items' =>
          rw [List.map_cons] at htexts
          rw [htext, htexts, hcomma, List.map_cons, List.map_cons, separated_cons,
            List.append_assoc, List.cons_append]
      · next hcomma =>
        obtain ⟨hclose, hread⟩ := Option.ite_none_right_eq_some.mp hread
        cases hread
        refine ⟨List.cons_ne_nil _ _, List.forall_mem_singleton.mpr hok, ?_⟩
        rw [htext, hclose, List.map_singleton, separated_singleton, List.append_assoc]
        rfl

theorem readItems_append (h : Reads read write ok Stops) (hclose : close = ']' ∨ close = '}')
    {turns : ℕ} (hne : items ≠ []) (hok : ∀ item ∈ items, ok item) (hturns : items.length ≤ turns) :
    readItems close read turns (separated close (items.map write) ++ rest) =
      some (items, rest) := by
  have hstops : ∀ c, c = ',' ∨ c = close → ∀ rest, Stops (c :: rest) := by
    rintro c hc rest d ⟨⟩
    rcases hclose with rfl | rfl <;> rcases hc with rfl | rfl <;> decide
  induction items generalizing turns with
  | nil => exact absurd rfl hne
  | cons item items ih =>
    cases turns with
    | zero => exact absurd hturns (Nat.not_succ_le_zero _)
    | succ turns =>
      obtain ⟨hitem, hoks⟩ := List.forall_mem_cons.mp hok
      cases items with
      | nil =>
        have hread := h.complete hitem (hstops close (Or.inr rfl) rest)
        have hcomma : close ≠ ',' := by rcases hclose with rfl | rfl <;> decide
        rw [List.map_singleton, separated_singleton, List.append_assoc, List.singleton_append,
          readItems, hread]
        show (if close = ',' then _ else if close = close then _ else _) = _
        rw [if_neg hcomma, if_pos rfl]
      | cons item' items =>
        have hrest := ih (List.cons_ne_nil _ _) hoks (Nat.le_of_succ_le_succ hturns)
        have hread := h.complete hitem
          (hstops ',' (Or.inl rfl) (separated close ((item' :: items).map write) ++ rest))
        rw [List.map_cons, List.map_cons, separated_cons, List.append_assoc, List.cons_append,
          ← List.map_cons, readItems, hread]
        simp only [Option.bind_eq_bind, Option.bind_some, if_true, hrest]

/-- What follows blanks is still there without them. -/
theorem length_le_dropWhile {c : Char} (hc : isBlank c = false) (front back : List Char) :
    (c :: back).length ≤ ((front ++ c :: back).dropWhile isBlank).length := by
  induction front with
  | nil => rw [List.nil_append, List.dropWhile_cons_of_neg (by simp [hc])]
  | cons d front ih =>
    rw [List.cons_append, List.dropWhile_cons]
    split
    · exact ih
    · rw [List.length_cons, List.length_cons, List.length_append, List.length_cons]
      omega

theorem length_le_separated (texts : List (List Char)) :
    texts.length ≤ (separated close texts).length := by
  induction texts with
  | nil => exact Nat.zero_le _
  | cons item texts ih =>
    cases texts with
    | nil =>
      rw [separated_singleton, List.length_append, List.length_singleton, List.length_singleton]
      exact Nat.le_add_left 1 item.length
    | cons item' texts =>
      rw [separated_cons, List.length_append, List.length_cons, List.length_cons (a := ',')]
      omega

/-- There are turns enough for the items of a list. -/
theorem length_le_separated_dropWhile (hclose : isBlank close = false) (texts : List (List Char))
    (rest : List Char) :
    texts.length ≤ ((separated close texts ++ rest).dropWhile isBlank).length := by
  cases texts with
  | nil => exact Nat.zero_le _
  | cons item texts =>
    cases texts with
    | nil =>
      have hle := length_le_dropWhile hclose item rest
      rw [List.length_cons] at hle
      rw [separated_singleton, List.append_assoc, List.singleton_append, List.length_singleton]
      omega
    | cons item' texts =>
      have hle := length_le_dropWhile (c := ',') rfl item
        (separated close (item' :: texts) ++ rest)
      have hlength : (item' :: texts).length ≤ (separated close (item' :: texts)).length :=
        length_le_separated _
      rw [List.length_cons, List.length_append] at hle
      rw [separated_cons, List.append_assoc, List.cons_append, List.length_cons]
      omega

end Lists

/-! ### Brackets -/

section Brackets

variable {α : Type} {read : List Char → Option (α × List Char)} {write : α → List Char}
  {ok : α → Prop} {close : Char} {text rest blanks : List Char} {items : List α}
  {none : List Char → Tree} {some : List α → Tree} {tree : Tree}

theorem readBracketed_spec (h : Reads read write ok Stops)
    (hread : readBracketed close read none some text = .some (tree, rest)) :
    (∃ blanks, AllBlank blanks ∧ tree = none blanks ∧ text = blanks ++ close :: rest) ∨
      ∃ items, items ≠ [] ∧ (∀ item ∈ items, ok item) ∧ tree = some items ∧
        text = separated close (items.map write) ++ rest := by
  unfold readBracketed at hread
  dsimp only at hread
  split at hread
  · next hclose =>
    cases hread
    left
    refine ⟨text.takeWhile isBlank, allBlank_takeWhile text, rfl, ?_⟩
    rw [List.cons_head?_tail hclose, List.takeWhile_append_dropWhile]
  · right
    obtain ⟨⟨items, rest'⟩, hitems, hread⟩ := Option.map_eq_some_iff.mp hread
    cases hread
    obtain ⟨hne, hok, htext⟩ := readItems_spec h hitems
    exact ⟨items, hne, hok, rfl, htext⟩

theorem readBracketed_none (hclose : isBlank close = false) (hblanks : AllBlank blanks)
    (rest : List Char) :
    readBracketed close read none some (blanks ++ close :: rest) = .some (none blanks, rest) := by
  obtain ⟨htake, hdrop⟩ := takeWhile_append hblanks (close :: rest) (by simp [hclose])
  unfold readBracketed
  dsimp only
  rw [htake, hdrop]
  exact if_pos rfl

theorem readBracketed_some (h : Reads read write ok Stops) (hclose : close = ']' ∨ close = '}')
    (hhead : ∀ item, ok item → ∀ rest, ((write item ++ rest).dropWhile isBlank).head? ≠ .some close)
    (hne : items ≠ []) (hok : ∀ item ∈ items, ok item) (rest : List Char) :
    readBracketed close read none some (separated close (items.map write) ++ rest) =
      .some (some items, rest) := by
  have hblank : isBlank close = false := by rcases hclose with rfl | rfl <;> rfl
  have hturns := length_le_separated_dropWhile hblank (items.map write) rest
  rw [List.length_map] at hturns
  have hfirst : ((separated close (items.map write) ++ rest).dropWhile isBlank).head? ≠
      .some close := by
    cases items with
    | nil => exact absurd rfl hne
    | cons item items =>
      have hitem := hhead item (hok item (List.mem_cons_self ..))
      cases items with
      | nil =>
        rw [List.map_singleton, separated_singleton, List.append_assoc]
        exact hitem _
      | cons item' items =>
        rw [List.map_cons, List.map_cons, separated_cons, List.append_assoc]
        exact hitem _
  unfold readBracketed
  dsimp only
  rw [if_neg hfirst, readItems_append h hclose hne hok (Nat.le_succ_of_le hturns)]
  rfl

end Brackets

/-! ### Values -/

/-- A character that a number may begin with. -/
def StartsNumber (c : Char) : Prop := c.isDigit = true ∨ c ∈ ['-', '+', '.']

instance : DecidablePred StartsNumber := fun _ ↦ inferInstanceAs (Decidable (_ ∨ _))

theorem StartsNumber.ne {c d : Char} (h : StartsNumber c) (hd : ¬ StartsNumber d) : c ≠ d := by
  rintro rfl
  exact hd h

theorem Lexeme.Ok.exists_text_eq {n : Lexeme} (h : n.Ok) :
    ∃ c rest, n.text = c :: rest ∧ StartsNumber c := by
  obtain ⟨sign, whole, fraction, exponent⟩ := n
  obtain ⟨hsign, hwhole, -, -, hne⟩ := h
  dsimp only at hsign hwhole hne
  unfold Lexeme.text
  dsimp only
  obtain rfl | rfl | rfl := hsign
  · cases whole with
    | cons c whole => exact ⟨c, _, rfl, Or.inl (hwhole c (List.mem_cons_self ..))⟩
    | nil =>
      cases fraction with
      | none => exact absurd rfl hne
      | some digits => exact ⟨'.', _, rfl, by decide⟩
  · exact ⟨'-', _, rfl, by decide⟩
  · exact ⟨'+', _, rfl, by decide⟩

/-- A member as it is written. -/
def memberText (m : Padded (List Piece) × Padded Tree) : List Char :=
  m.1.text quoted ++ ':' :: m.2.text Tree.text

/-- What is read as a member. -/
structure MemberOk (ok : Tree → Prop) (m : Padded (List Piece) × Padded Tree) : Prop where
  key : m.1.Ok (∀ p ∈ ·, p.Ok)
  value : m.2.Ok ok

section Trees

variable {text rest : List Char} {tree : Tree} {levels : ℕ}

theorem elementTexts_eq_map (elements : List (Padded Tree)) :
    Tree.elementTexts elements = elements.map (Padded.text Tree.text) := by
  induction elements with
  | nil => rfl
  | cons e elements ih => exact congrArg (e.text Tree.text :: ·) ih

theorem memberTexts_eq_map (members : List (Padded (List Piece) × Padded Tree)) :
    Tree.memberTexts members = members.map memberText := by
  induction members with
  | nil => rfl
  | cons m members ih =>
    have hm : memberText m = m.1.before ++ (quoted m.1.item ++ (m.1.after ++ ':' ::
        m.2.text Tree.text)) := by
      rw [memberText, Padded.text, List.append_assoc, List.append_assoc]
    rw [List.map_cons, ← ih, hm]
    rfl

/-- What is read as a value of so many levels. -/
def Fits (levels : ℕ) (tree : Tree) : Prop := tree.Ok ∧ tree.depth ≤ levels

theorem fits_array {elements : List (Padded Tree)} : Fits (levels + 1) (.array elements) ↔
    elements ≠ [] ∧ ∀ e ∈ elements, e.Ok (Fits levels) := by
  have hiff : ∀ elements : List (Padded Tree),
      (Tree.ElementsOk elements ∧ Tree.elementsDepth elements ≤ levels) ↔
        ∀ e ∈ elements, e.Ok (Fits levels) := by
    intro elements
    induction elements with
    | nil => simp [Tree.ElementsOk, Tree.elementsDepth]
    | cons e elements ih =>
      rw [List.forall_mem_cons, ← ih, Tree.ElementsOk, Tree.elementsDepth, max_le_iff]
      constructor
      · rintro ⟨⟨⟨hbefore, hafter, hok⟩, hoks⟩, hdepth, hdepths⟩
        exact ⟨⟨hbefore, hafter, hok, hdepth⟩, hoks, hdepths⟩
      · rintro ⟨⟨hbefore, hafter, hok, hdepth⟩, hoks, hdepths⟩
        exact ⟨⟨⟨hbefore, hafter, hok⟩, hoks⟩, hdepth, hdepths⟩
  rw [← hiff, Fits, Tree.Ok, Tree.depth, Nat.add_le_add_iff_right, and_assoc]

theorem fits_object {members : List (Padded (List Piece) × Padded Tree)} :
    Fits (levels + 1) (.object members) ↔
      members ≠ [] ∧ ∀ m ∈ members, MemberOk (Fits levels) m := by
  have hiff : ∀ members : List (Padded (List Piece) × Padded Tree),
      (Tree.MembersOk members ∧ Tree.membersDepth members ≤ levels) ↔
        ∀ m ∈ members, MemberOk (Fits levels) m := by
    intro members
    induction members with
    | nil => simp [Tree.MembersOk, Tree.membersDepth]
    | cons m members ih =>
      rw [List.forall_mem_cons, ← ih, Tree.MembersOk, Tree.membersDepth, max_le_iff]
      constructor
      · rintro ⟨⟨⟨hkeyBefore, hkeyAfter, hkey, hbefore, hafter, hok⟩, hoks⟩, hdepth, hdepths⟩
        exact ⟨⟨⟨hkeyBefore, hkeyAfter, hkey⟩, hbefore, hafter, hok, hdepth⟩, hoks, hdepths⟩
      · rintro ⟨⟨⟨hkeyBefore, hkeyAfter, hkey⟩, hbefore, hafter, hok, hdepth⟩, hoks, hdepths⟩
        exact ⟨⟨⟨hkeyBefore, hkeyAfter, hkey, hbefore, hafter, hok⟩, hoks⟩, hdepth, hdepths⟩
  rw [← hiff, Fits, Tree.Ok, Tree.depth, Nat.add_le_add_iff_right, and_assoc]

/-- The first character of a value. -/
theorem exists_text_eq (h : tree.Ok) :
    ∃ c rest, tree.text = c :: rest ∧ isBlank c = false ∧ c ≠ ']' ∧ c ≠ '}' := by
  cases tree with
  | null => exact ⟨'n', _, rfl, by decide⟩
  | bool b =>
    cases b with
    | false => exact ⟨'f', _, rfl, by decide⟩
    | true => exact ⟨'t', _, rfl, by decide⟩
  | number n =>
    obtain ⟨c, rest, htext, hc⟩ := Lexeme.Ok.exists_text_eq h
    have hblank : isBlank c = false := by
      simp [isBlank, hc.ne (d := ' ') (by decide), hc.ne (d := '\t') (by decide),
        hc.ne (d := '\n') (by decide), hc.ne (d := '\r') (by decide)]
    exact ⟨c, rest, htext, hblank, hc.ne (by decide), hc.ne (by decide)⟩
  | string pieces => exact ⟨'"', _, rfl, by decide⟩
  | emptyArray blanks => exact ⟨'[', _, rfl, by decide⟩
  | array elements => exact ⟨'[', _, rfl, by decide⟩
  | emptyObject blanks => exact ⟨'{', _, rfl, by decide⟩
  | object members => exact ⟨'{', _, rfl, by decide⟩

theorem readWord_spec {word : List Char} {t : Tree}
    (h : readWord word tree text = some (t, rest)) : t = tree ∧ text = word ++ rest := by
  obtain ⟨hword, h⟩ := Option.ite_none_right_eq_some.mp h
  cases h
  obtain ⟨rest, rfl⟩ := List.isPrefixOf_iff_prefix.mp hword
  rw [List.drop_left]
  exact ⟨rfl, rfl⟩

theorem readWord_append (word : List Char) (tree : Tree) (rest : List Char) :
    readWord word tree (word ++ rest) = some (tree, rest) := by
  rw [readWord, if_pos (List.isPrefixOf_iff_prefix.mpr (List.prefix_append word rest)),
    List.drop_left]

variable {read : List Char → Option (Tree × List Char)} {ok : Tree → Prop}

theorem reads_key :
    Reads (readPadded readString) (Padded.text quoted) (Padded.Ok (∀ p ∈ ·, p.Ok)) Stops := by
  apply reads_padded reads_string
  · intro pieces _ rest c hc
    cases hc
    rfl
  · intros
    trivial

theorem reads_element (h : Reads read Tree.text ok EndsNumber) (hok : ∀ t, ok t → t.Ok) :
    Reads (readPadded read) (Padded.text Tree.text) (Padded.Ok ok) Stops := by
  apply reads_padded h
  · intro t ht rest c hc
    obtain ⟨d, tail, htext, hblank, -⟩ := exists_text_eq (hok t ht)
    rw [htext] at hc
    cases hc
    exact hblank
  · intro blanks rest hblanks hrest
    exact hrest.endsNumber hblanks

theorem reads_member (h : Reads (readPadded read) (Padded.text Tree.text) (Padded.Ok ok) Stops) :
    Reads (readMember read) memberText (MemberOk ok) Stops where
  sound := by
    intro text m rest hread
    obtain ⟨⟨key, afterKey⟩, hkey, hread⟩ := Option.bind_eq_some_iff.mp hread
    obtain ⟨hkeyOk, htext⟩ := reads_key.sound hkey
    dsimp only at hread
    split at hread
    · obtain ⟨⟨value, rest'⟩, hvalue, hread⟩ := Option.bind_eq_some_iff.mp hread
      cases hread
      obtain ⟨hvalueOk, htext'⟩ := h.sound hvalue
      constructor
      · exact ⟨hkeyOk, hvalueOk⟩
      · rw [htext, htext', memberText, List.append_assoc, List.cons_append]
    · cases hread
  complete := by
    intro m rest hm hrest
    obtain ⟨key, value⟩ := m
    have hcolon : Stops (':' :: (value.text Tree.text ++ rest)) := by
      rintro c ⟨⟩
      decide
    have hkey := reads_key.complete hm.key hcolon
    have hvalue := h.complete hm.value hrest
    unfold memberText readMember
    dsimp only
    rw [List.append_assoc, List.cons_append, hkey]
    simp only [Option.bind_eq_bind, Option.bind_some, hvalue]

theorem head?_element (hok : ∀ t, ok t → t.Ok) {e : Padded Tree} (he : e.Ok ok)
    (rest : List Char) :
    ((e.text Tree.text ++ rest).dropWhile isBlank).head? ≠ some ']' := by
  obtain ⟨c, tail, htext, hblank, hclose, -⟩ := exists_text_eq (hok _ he.item)
  rw [Padded.text, htext, List.append_assoc, List.dropWhile_append_of_pos he.before,
    List.cons_append, List.cons_append, List.dropWhile_cons_of_neg (by simp [hblank])]
  intro heq
  exact hclose (Option.some_inj.mp heq)

theorem head?_member {m : Padded (List Piece) × Padded Tree} (hm : MemberOk ok m)
    (rest : List Char) :
    ((memberText m ++ rest).dropWhile isBlank).head? ≠ some '}' := by
  rw [memberText, Padded.text, quoted, List.append_assoc, List.append_assoc,
    List.dropWhile_append_of_pos hm.key.before, List.cons_append, List.cons_append,
    List.dropWhile_cons_of_neg (by decide)]
  intro heq
  exact absurd (Option.some_inj.mp heq) (by decide)

/-- A value is read back when the values in it are. -/
theorem reads_inner (h : Reads read Tree.text (Fits levels) EndsNumber) :
    Reads (readInner read) Tree.text (Fits (levels + 1)) EndsNumber where
  sound := by
    intro text t rest hread
    have helement := reads_element h fun t ht ↦ ht.1
    cases text with
    | nil => cases hread
    | cons c text =>
      rw [readInner] at hread
      split_ifs at hread with hobject harray hstring htrue hfalse hnull
      · rw [hobject]
        obtain ⟨blanks, hblanks, rfl, htext⟩ | ⟨members, hne, hok, rfl, htext⟩ :=
          readBracketed_spec (reads_member helement) hread
        · refine ⟨⟨hblanks, Nat.le_add_left 1 levels⟩, ?_⟩
          rw [htext, Tree.text, List.cons_append, List.append_assoc]
          rfl
        · refine ⟨fits_object.mpr ⟨hne, hok⟩, ?_⟩
          rw [htext, Tree.text, memberTexts_eq_map]
          rfl
      · rw [harray]
        obtain ⟨blanks, hblanks, rfl, htext⟩ | ⟨elements, hne, hok, rfl, htext⟩ :=
          readBracketed_spec helement hread
        · refine ⟨⟨hblanks, Nat.le_add_left 1 levels⟩, ?_⟩
          rw [htext, Tree.text, List.cons_append, List.append_assoc]
          rfl
        · refine ⟨fits_array.mpr ⟨hne, hok⟩, ?_⟩
          rw [htext, Tree.text, elementTexts_eq_map]
          rfl
      · obtain ⟨⟨pieces, rest'⟩, hpieces, hread⟩ := Option.map_eq_some_iff.mp hread
        cases hread
        obtain ⟨hok, htext⟩ := reads_string.sound hpieces
        exact ⟨⟨hok, Nat.le_add_left 1 levels⟩, htext⟩
      · obtain ⟨rfl, htext⟩ := readWord_spec hread
        exact ⟨⟨trivial, Nat.le_add_left 1 levels⟩, htext⟩
      · obtain ⟨rfl, htext⟩ := readWord_spec hread
        exact ⟨⟨trivial, Nat.le_add_left 1 levels⟩, htext⟩
      · obtain ⟨rfl, htext⟩ := readWord_spec hread
        exact ⟨⟨trivial, Nat.le_add_left 1 levels⟩, htext⟩
      · obtain ⟨⟨n, rest'⟩, hn, hread⟩ := Option.map_eq_some_iff.mp hread
        cases hread
        obtain ⟨hok, htext⟩ := reads_number.sound hn
        exact ⟨⟨hok, Nat.le_add_left 1 levels⟩, htext⟩
  complete := by
    intro t rest ht hrest
    have helement := reads_element h fun t ht ↦ ht.1
    cases t with
    | null => exact readWord_append "null".toList .null rest
    | bool b =>
      cases b with
      | false => exact readWord_append "false".toList (.bool false) rest
      | true => exact readWord_append "true".toList (.bool true) rest
    | number n =>
      have hread := reads_number.complete ht.1 hrest
      obtain ⟨c, tail, htext, hc⟩ := Lexeme.Ok.exists_text_eq ht.1
      rw [htext] at hread
      rw [Tree.text, htext, List.cons_append, readInner, if_neg (hc.ne (by decide)),
        if_neg (hc.ne (by decide)), if_neg (hc.ne (by decide)), if_neg (hc.ne (by decide)),
        if_neg (hc.ne (by decide)), if_neg (hc.ne (by decide)), ← List.cons_append, hread]
      rfl
    | string pieces =>
      have hread : readString (quoted pieces ++ rest) = _ := reads_string.complete ht.1 trivial
      show (readString (quoted pieces ++ rest)).map _ = _
      rw [hread]
      rfl
    | emptyArray blanks =>
      show readBracketed ']' _ _ _ (blanks ++ [']'] ++ rest) = _
      rw [List.append_assoc]
      exact readBracketed_none rfl ht.1 rest
    | array elements =>
      obtain ⟨hne, hok⟩ := fits_array.mp ht
      show readBracketed ']' _ _ _ (separated ']' (Tree.elementTexts elements) ++ rest) = _
      rw [elementTexts_eq_map]
      exact readBracketed_some helement (Or.inl rfl)
        (fun e he ↦ head?_element (fun t ht ↦ ht.1) he) hne hok rest
    | emptyObject blanks =>
      show readBracketed '}' _ _ _ (blanks ++ ['}'] ++ rest) = _
      rw [List.append_assoc]
      exact readBracketed_none rfl ht.1 rest
    | object members =>
      obtain ⟨hne, hok⟩ := fits_object.mp ht
      show readBracketed '}' _ _ _ (separated '}' (Tree.memberTexts members) ++ rest) = _
      rw [memberTexts_eq_map]
      exact readBracketed_some (reads_member helement) (Or.inr rfl)
        (fun m hm ↦ head?_member hm) hne hok rest

theorem depth_pos (tree : Tree) : 0 < tree.depth := by
  cases tree <;> simp [Tree.depth]

/-- A value is read back as it was put together. -/
theorem reads_tree (levels : ℕ) : Reads (readTree levels) Tree.text (Fits levels) EndsNumber := by
  induction levels with
  | zero =>
    constructor
    · intro text t rest h
      cases h
    · intro t rest h _
      exact absurd h.2 (Nat.not_le_of_lt (depth_pos t))
  | succ levels ih => exact reads_inner ih

/-- A whole text is read as what it is put together of, and as nothing else. -/
theorem readDocument_eq_some_iff {d : Document} :
    readDocument levels text = some d ↔ d.Ok levels ∧ d.text = text := by
  have hreads := reads_element (reads_tree levels) fun t ht ↦ ht.1
  unfold readDocument
  constructor
  · intro h
    split at h
    · next d' hread =>
      cases h
      obtain ⟨⟨hbefore, hafter, hok, hdepth⟩, htext⟩ := hreads.sound hread
      rw [List.append_nil] at htext
      exact ⟨⟨hbefore, hafter, hok, hdepth⟩, htext.symm⟩
    · cases h
  · rintro ⟨⟨hbefore, hafter, hok, hdepth⟩, rfl⟩
    have hstops : Stops [] := by
      rintro c ⟨⟩
    have hread := hreads.complete ⟨hbefore, hafter, hok, hdepth⟩ hstops
    rw [List.append_nil] at hread
    rw [Document.text, ← Padded.text, hread]

/-- There is one way in which a text can be put together. -/
theorem document_ext {d d' : Document} (h : d.Ok levels) (h' : d'.Ok levels)
    (htext : d.text = d'.text) : d = d' := by
  have hread := readDocument_eq_some_iff.mpr ⟨h, rfl⟩
  have hread' := readDocument_eq_some_iff.mpr ⟨h', rfl⟩
  rw [htext, hread'] at hread
  exact (Option.some_inj.mp hread).symm

end Trees

end WebLinked.Core.Json.Grammar
