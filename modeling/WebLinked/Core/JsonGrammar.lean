import Mathlib
import WebLinked.Base.Utf8
import WebLinked.Core.JsonText

/-!
# JSON as a grammar

What a text is put together of, with every blank, digit and escape that it has. `Ok` is the grammar
that `src/core/json.cpp:60–362` reads and `Strict` what RFC 8259 asks for besides. Texts are
sequences of bytes, a character each.
-/

namespace WebLinked.Core.Json.Grammar

open WebLinked.Base NumberText

/-- A blank. -/
def isBlank (c : Char) : Bool := c = ' ' || c = '\t' || c = '\n' || c = '\r'

/-- The end of a number. -/
def EndsNumber (rest : List Char) : Prop :=
  ∀ c ∈ rest.head?, c.isDigit = false ∧ c ≠ '.' ∧ c ≠ 'e' ∧ c ≠ 'E' ∧ c ≠ '+' ∧ c ≠ '-'

/-! ### Numbers -/

/-- The exponent of a number: `e` or `E`, a sign or none, and digits. -/
structure Exponent where
  marker : Char
  sign : List Char
  digits : List Char

/-- A number: a sign or none, digits, digits after a point, and an exponent. -/
structure Lexeme where
  sign : List Char
  whole : List Char
  fraction : Option (List Char)
  exponent : Option Exponent

/-- A sign or none. -/
def IsSign (sign : List Char) : Prop := sign = [] ∨ sign = ['-'] ∨ sign = ['+']

/-- Nothing but digits. -/
def AllDigits (text : List Char) : Prop := ∀ c ∈ text, c.isDigit = true

namespace Exponent

/-- As it is written. -/
def text (e : Exponent) : List Char := e.marker :: (e.sign ++ e.digits)

/-- What is read as one. -/
structure Ok (e : Exponent) : Prop where
  marker : e.marker = 'e' ∨ e.marker = 'E'
  sign : IsSign e.sign
  digits : AllDigits e.digits

end Exponent

namespace Lexeme

/-- As it is written. -/
def text (n : Lexeme) : List Char :=
  n.sign ++ (n.whole ++ (n.fraction.elim [] ('.' :: ·) ++ n.exponent.elim [] Exponent.text))

/-- What is read as a number: it has a digit before or after the point. -/
structure Ok (n : Lexeme) : Prop where
  sign : IsSign n.sign
  whole : AllDigits n.whole
  fraction : ∀ digits ∈ n.fraction, AllDigits digits
  exponent : ∀ e ∈ n.exponent, e.Ok
  ne_nil : n.whole ++ n.fraction.getD [] ≠ []

/-- What RFC 8259 asks for besides: no plus in front, no zero before other digits, and digits before
the point, after it and in the exponent. -/
structure Strict (n : Lexeme) : Prop where
  sign : n.sign ≠ ['+']
  whole : n.whole = ['0'] ∨ n.whole ≠ [] ∧ n.whole.head? ≠ some '0'
  fraction : n.fraction ≠ some []
  exponent : ∀ e ∈ n.exponent, e.digits ≠ []

end Lexeme

/-! ### Strings -/

/-- A character of a string: as it is, after a backslash, or four digits after a `\u`. -/
inductive Piece where
  | raw (c : Char)
  | short (c : Char)
  | code (a b c d : Char)

/-- What may follow a backslash by itself. -/
def shorts : List Char := ['"', '\\', '/', 'b', 'f', 'n', 'r', 't']

/-- What a character stands for after a backslash. -/
def shortChar (c : Char) : Char :=
  if c = 'b' then '\x08' else if c = 'f' then '\x0c' else if c = 'n' then '\n'
  else if c = 'r' then '\r' else if c = 't' then '\t' else c

/-- The number of four digits. -/
def quad (a b c d : Char) : ℕ :=
  ((hexDigit a * 16 + hexDigit b) * 16 + hexDigit c) * 16 + hexDigit d

/-- The first of a surrogate pair. -/
def IsHigh (code : ℕ) : Prop := 0xD800 ≤ code ∧ code ≤ 0xDBFF

/-- The second of a surrogate pair. -/
def IsLow (code : ℕ) : Prop := 0xDC00 ≤ code ∧ code ≤ 0xDFFF

instance : DecidablePred IsHigh := fun _ ↦ inferInstanceAs (Decidable (_ ∧ _))
instance : DecidablePred IsLow := fun _ ↦ inferInstanceAs (Decidable (_ ∧ _))

/-- The code point of a surrogate pair. -/
def pairCode (high low : ℕ) : ℕ := 0x10000 + (high - 0xD800) * 1024 + (low - 0xDC00)

namespace Piece

/-- As it is written. -/
def text : Piece → List Char
  | raw c => [c]
  | short c => ['\\', c]
  | code a b c d => ['\\', 'u', a, b, c, d]

/-- What is read as one. -/
def Ok : Piece → Prop
  | raw c => c ≠ '"' ∧ c ≠ '\\'
  | short c => c ∈ shorts
  | code a b c d =>
    isHexDigit a = true ∧ isHexDigit b = true ∧ isHexDigit c = true ∧ isHexDigit d = true

/-- What RFC 8259 asks for besides: control characters are escaped. -/
def Strict : Piece → Prop
  | raw c => 0x20 ≤ c.toNat
  | _ => True

end Piece

/-- A string between its quotes. -/
def quoted (pieces : List Piece) : List Char := '"' :: (pieces.flatMap Piece.text ++ ['"'])

/-- What a string stands for: two surrogates one after the other are one code point. -/
def decode : List Piece → List Char
  | [] => []
  | .raw c :: pieces => c :: decode pieces
  | .short c :: pieces => shortChar c :: decode pieces
  | .code a b c d :: .code a' b' c' d' :: pieces =>
    if IsHigh (quad a b c d) ∧ IsLow (quad a' b' c' d') then
      Parser.appendUtf8 (pairCode (quad a b c d) (quad a' b' c' d')) ++ decode pieces
    else Parser.appendUtf8 (quad a b c d) ++ decode (.code a' b' c' d' :: pieces)
  | .code a b c d :: pieces => Parser.appendUtf8 (quad a b c d) ++ decode pieces

/-! ### Values -/

/-- Something with the blanks around it. -/
structure Padded (α : Type) where
  before : List Char
  item : α
  after : List Char

/-- A value as it is written. -/
inductive Tree where
  | null
  | bool (b : Bool)
  | number (n : Lexeme)
  | string (pieces : List Piece)
  | emptyArray (blanks : List Char)
  | array (elements : List (Padded Tree))
  | emptyObject (blanks : List Char)
  | object (members : List (Padded (List Piece) × Padded Tree))

/-- Nothing but blanks. -/
def AllBlank (text : List Char) : Prop := ∀ c ∈ text, isBlank c = true

/-- Items with commas between them, up to a bracket. -/
def separated (close : Char) : List (List Char) → List Char
  | [] => [close]
  | [item] => item ++ [close]
  | item :: items => item ++ ',' :: separated close items

namespace Tree

mutual

/-- As it is written. -/
def text : Tree → List Char
  | null => "null".toList
  | bool b => if b then "true".toList else "false".toList
  | number n => n.text
  | string pieces => quoted pieces
  | emptyArray blanks => '[' :: (blanks ++ [']'])
  | array elements => '[' :: separated ']' (elementTexts elements)
  | emptyObject blanks => '{' :: (blanks ++ ['}'])
  | object members => '{' :: separated '}' (memberTexts members)

/-- The elements of an array as they are written. -/
def elementTexts : List (Padded Tree) → List (List Char)
  | [] => []
  | ⟨before, tree, after⟩ :: elements => (before ++ (text tree ++ after)) :: elementTexts elements

/-- The members of an object as they are written. -/
def memberTexts : List (Padded (List Piece) × Padded Tree) → List (List Char)
  | [] => []
  | (key, ⟨before, tree, after⟩) :: members =>
    (key.before ++ (quoted key.item ++ (key.after ++ ':' :: (before ++ (text tree ++ after))))) ::
      memberTexts members

end

mutual

/-- What is read as a value. -/
def Ok : Tree → Prop
  | number n => n.Ok
  | string pieces => ∀ p ∈ pieces, p.Ok
  | emptyArray blanks => AllBlank blanks
  | array elements => elements ≠ [] ∧ ElementsOk elements
  | emptyObject blanks => AllBlank blanks
  | object members => members ≠ [] ∧ MembersOk members
  | _ => True

/-- What is read as elements. -/
def ElementsOk : List (Padded Tree) → Prop
  | [] => True
  | ⟨before, tree, after⟩ :: elements =>
    (AllBlank before ∧ AllBlank after ∧ tree.Ok) ∧ ElementsOk elements

/-- What is read as members. -/
def MembersOk : List (Padded (List Piece) × Padded Tree) → Prop
  | [] => True
  | (key, ⟨before, tree, after⟩) :: members =>
    (AllBlank key.before ∧ AllBlank key.after ∧ (∀ p ∈ key.item, p.Ok) ∧ AllBlank before ∧
      AllBlank after ∧ tree.Ok) ∧ MembersOk members

end

mutual

/-- What RFC 8259 asks for besides, of every number and every string. -/
def Strict : Tree → Prop
  | number n => n.Strict
  | string pieces => ∀ p ∈ pieces, p.Strict
  | array elements => ElementsStrict elements
  | object members => MembersStrict members
  | _ => True

/-- What it asks of elements. -/
def ElementsStrict : List (Padded Tree) → Prop
  | [] => True
  | ⟨_, tree, _⟩ :: elements => tree.Strict ∧ ElementsStrict elements

/-- What it asks of members. -/
def MembersStrict : List (Padded (List Piece) × Padded Tree) → Prop
  | [] => True
  | (key, ⟨_, tree, _⟩) :: members =>
    ((∀ p ∈ key.item, p.Strict) ∧ tree.Strict) ∧ MembersStrict members

end

mutual

/-- How deep values are nested. -/
def depth : Tree → ℕ
  | array elements => elementsDepth elements + 1
  | object members => membersDepth members + 1
  | _ => 1

/-- How deep the deepest element is nested. -/
def elementsDepth : List (Padded Tree) → ℕ
  | [] => 0
  | ⟨_, tree, _⟩ :: elements => max tree.depth (elementsDepth elements)

/-- How deep the deepest member is nested. -/
def membersDepth : List (Padded (List Piece) × Padded Tree) → ℕ
  | [] => 0
  | (_, ⟨_, tree, _⟩) :: members => max tree.depth (membersDepth members)

end

mutual

/-- What is read of a value; of members with one key the last one counts, in the place of the
first. -/
def value : Tree → Value
  | null => .null
  | bool b => .bool b
  | number n => .number (((strtod n.text).map Conversion.value).getD (.ofInt 0))
  | string pieces => .string (String.ofList (decode pieces))
  | emptyArray _ => .array []
  | array elements => .array (elementValues elements)
  | emptyObject _ => .object []
  | object members => setMembers (.object []) members

/-- What is read of elements. -/
def elementValues : List (Padded Tree) → List Value
  | [] => []
  | ⟨_, tree, _⟩ :: elements => tree.value :: elementValues elements

/-- Members set one after the other. -/
def setMembers (object : Value) : List (Padded (List Piece) × Padded Tree) → Value
  | [] => object
  | (key, ⟨_, tree, _⟩) :: members =>
    setMembers (object.set (String.ofList (decode key.item)) tree.value) members

end

end Tree

/-! ### Texts -/

/-- A value with blanks around it, as a whole text. -/
abbrev Document := Padded Tree

namespace Document

/-- As it is written. -/
def text (d : Document) : List Char := d.before ++ (d.item.text ++ d.after)

/-- What is read as a text of so many levels. -/
structure Ok (levels : ℕ) (d : Document) : Prop where
  before : AllBlank d.before
  after : AllBlank d.after
  item : d.item.Ok
  depth : d.item.depth ≤ levels

end Document

/-- Bytes that are UTF-8. -/
def IsUtf8 (text : List Char) : Prop := Utf8.Valid (text.map Char.toNat)

/-- A text of RFC 8259, of so many levels. -/
def IsJson (levels : ℕ) (text : List Char) : Prop :=
  IsUtf8 text ∧ ∃ d : Document, d.Ok levels ∧ d.item.Strict ∧ d.text = text

end WebLinked.Core.Json.Grammar
