import WebLinked.Base.NumberText
import WebLinked.Core.Json

/-!
# JSON as text

`src/core/json.cpp:17–362,466–530`. Text is a list of characters, each of them a byte. Both loops
of the parser, and the one over a string, take at most as many turns as there are characters.
-/

namespace WebLinked.Core.Json

open WebLinked.Base NumberText

/-- One character of `appendEscaped`; `src/core/json.cpp:20–42`. -/
def escape (c : Char) : List Char :=
  if c = '"' then ['\\', '"']
  else if c = '\\' then ['\\', '\\']
  else if c = '\n' then ['\\', 'n']
  else if c = '\r' then ['\\', 'r']
  else if c = '\t' then ['\\', 't']
  else if c = '\x08' then ['\\', 'b']
  else if c = '\x0c' then ['\\', 'f']
  else if c.toNat < 0x20 then '\\' :: 'u' :: (Nat.toDigits 16 c.toNat).leftpad 4 '0'
  else [c]

/-- `appendEscaped`; `src/core/json.cpp:17`. -/
def appendEscaped (text : String) : List Char := '"' :: (text.toList.flatMap escape ++ ['"'])

/-- `appendNumber`; `src/core/json.cpp:46`. -/
def appendNumber (x : Double) : List Char :=
  if x.isFinite = false then "null".toList
  else if x.isWhole && x.abs.lt (.ofInt (10 ^ 15)) then NumberText.toString x.trunc
  else general 10 x

/-- An indentation. -/
def indent (pretty : Bool) (depth : ℕ) : List Char :=
  if pretty then List.replicate (depth * 2) ' ' else []

/-- A line break. -/
def newline (pretty : Bool) : List Char := if pretty then ['\n'] else []

/-- What stands between a key and its value. -/
def colon (pretty : Bool) : List Char := if pretty then [':', ' '] else [':']

/-- Texts one after another, each on a line of its own; `src/core/json.cpp:496–501,511–519`. -/
def separated (pretty : Bool) (depth : ℕ) : List (List Char) → List Char
  | [] => []
  | [item] => indent pretty depth ++ item
  | item :: items =>
    indent pretty depth ++ item ++ ',' :: (newline pretty ++ separated pretty depth items)

/-- The items of an array or an object between its brackets; `src/core/json.cpp:490–523`. -/
def bracketed (left right : Char) (pretty : Bool) (depth : ℕ) (items : List (List Char)) :
    List Char :=
  if items = [] then [left, right]
  else
    left :: (newline pretty ++ separated pretty (depth + 1) items ++ newline pretty ++
      indent pretty depth ++ [right])

namespace Value

mutual

/-- `Value::serializeInto`; `src/core/json.cpp:472`. -/
def serializeInto (pretty : Bool) (depth : ℕ) : Value → List Char
  | null => "null".toList
  | bool b => if b then "true".toList else "false".toList
  | number x => appendNumber x
  | string s => appendEscaped s
  | array elements =>
    bracketed '[' ']' pretty depth (serializeElements pretty (depth + 1) elements)
  | object members =>
    bracketed '{' '}' pretty depth (serializeMembers pretty (depth + 1) members)

/-- The elements of an array. -/
def serializeElements (pretty : Bool) (depth : ℕ) : List Value → List (List Char)
  | [] => []
  | v :: elements => serializeInto pretty depth v :: serializeElements pretty depth elements

/-- The members of an object. -/
def serializeMembers (pretty : Bool) (depth : ℕ) : List (String × Value) → List (List Char)
  | [] => []
  | (key, v) :: members =>
    (appendEscaped key ++ colon pretty ++ serializeInto pretty depth v) ::
      serializeMembers pretty depth members

end

/-- An array is written between its brackets. -/
theorem serializeInto_array (pretty : Bool) (depth : ℕ) (elements : List Value) :
    (array elements).serializeInto pretty depth =
      bracketed '[' ']' pretty depth (serializeElements pretty (depth + 1) elements) := by
  rw [serializeInto]

/-- An object is, too. -/
theorem serializeInto_object (pretty : Bool) (depth : ℕ) (members : List (String × Value)) :
    (object members).serializeInto pretty depth =
      bracketed '{' '}' pretty depth (serializeMembers pretty (depth + 1) members) := by
  rw [serializeInto]

/-- The elements are written one by one. -/
theorem serializeElements_eq_map (pretty : Bool) (depth : ℕ) (elements : List Value) :
    serializeElements pretty depth elements = elements.map (serializeInto pretty depth) := by
  induction elements with
  | nil => rfl
  | cons v elements ih => rw [serializeElements, ih, List.map_cons]

/-- The members are, too, each after its key. -/
theorem serializeMembers_eq_map (pretty : Bool) (depth : ℕ) (members : List (String × Value)) :
    serializeMembers pretty depth members = members.map fun m ↦
      appendEscaped m.1 ++ colon pretty ++ m.2.serializeInto pretty depth := by
  induction members with
  | nil => rfl
  | cons m members ih => rw [serializeMembers, ih, List.map_cons]

/-- `Value::serialize`; `src/core/json.cpp:466`. -/
def serialize (v : Value) (pretty : Bool := false) : String :=
  String.ofList (v.serializeInto pretty 0)

end Value

namespace Parser

/-- What was read and the text after it, or why it failed and how much text was left there. -/
abbrev Parsed (α : Type) := Except (String × ℕ) (α × List Char)

variable {α : Type}

/-- `fail`. Of several failures the first one is kept, and after any the parser fails. -/
def fail (message : String) (text : List Char) : Parsed α := .error (message, text.length)

/-- `skipWhitespace`; `src/core/json.cpp:92`. -/
def skipWhitespace (text : List Char) : List Char :=
  text.dropWhile fun c ↦ c = ' ' || c = '\t' || c = '\n' || c = '\r'

/-- `literal`, and the value it stands for; `src/core/json.cpp:111,146–154`. -/
def literal (word : List Char) (value : Value) (text : List Char) : Parsed Value :=
  if word.isPrefixOf text then .ok (value, text.drop word.length)
  else fail "invalid literal" text

/-- So many hexadecimal digits, after those that gave `code`; `src/core/json.cpp:289–302`. -/
def hexDigits : ℕ → ℕ → List Char → Parsed ℕ
  | 0, code, text => .ok (code, text)
  | n + 1, code, c :: text =>
    if isHexDigit c then hexDigits n (code * 16 + hexDigit c) text
    else fail "invalid hex digit" text
  | _ + 1, _, [] => fail "truncated \\u escape" []

/-- `parseHex4`; `src/core/json.cpp:285`. -/
def parseHex4 (text : List Char) : Parsed ℕ :=
  if text.length < 4 then fail "truncated \\u escape" text else hexDigits 4 0 text

/-- `appendUtf8`; `src/core/json.cpp:306`. -/
def appendUtf8 (code : ℕ) : List Char :=
  (if code < 0x80 then [code]
  else if code < 0x800 then [0xC0 ||| code >>> 6, 0x80 ||| code &&& 0x3F]
  else if code < 0x10000 then
    [0xE0 ||| code >>> 12, 0x80 ||| code >>> 6 &&& 0x3F, 0x80 ||| code &&& 0x3F]
  else
    [0xF0 ||| code >>> 18, 0x80 ||| code >>> 12 &&& 0x3F, 0x80 ||| code >>> 6 &&& 0x3F,
      0x80 ||| code &&& 0x3F]).map Char.ofNat

/-- The second half of a surrogate pair after a first one, or the first one alone;
`src/core/json.cpp:262–272`. A digit that is wrong here fails when the escape is read again. -/
def surrogate (code : ℕ) (text : List Char) : ℕ × List Char :=
  match text with
  | '\\' :: 'u' :: rest =>
    if 0xD800 ≤ code ∧ code ≤ 0xDBFF then
      match parseHex4 rest with
      | .ok (low, rest) =>
        if 0xDC00 ≤ low ∧ low ≤ 0xDFFF then
          (0x10000 + (code - 0xD800) <<< 10 + (low - 0xDC00), rest)
        else (code, text)
      | .error _ => (code, text)
    else (code, text)
  | _ => (code, text)

/-- What follows a backslash; `src/core/json.cpp:244–279`. -/
def parseEscape : List Char → Parsed (List Char)
  | [] => fail "unterminated escape" []
  | c :: text =>
    if c = '"' ∨ c = '\\' ∨ c = '/' then .ok ([c], text)
    else if c = 'b' then .ok (['\x08'], text)
    else if c = 'f' then .ok (['\x0c'], text)
    else if c = 'n' then .ok (['\n'], text)
    else if c = 'r' then .ok (['\r'], text)
    else if c = 't' then .ok (['\t'], text)
    else if c = 'u' then
      match parseHex4 text with
      | .ok (code, text) =>
        let (code, text) := surrogate code text
        .ok (appendUtf8 code, text)
      | .error e => .error e
    else fail "invalid escape" text

/-- The characters of a string up to its closing quote, after those in `out`;
`src/core/json.cpp:234–282`. -/
def parseChars : ℕ → List Char → List Char → Parsed String
  | 0, _, text => fail "unterminated string" text
  | _ + 1, _, [] => fail "unterminated string" []
  | turns + 1, out, c :: text =>
    if c = '"' then .ok (String.ofList out, text)
    else if c = '\\' then
      match parseEscape text with
      | .ok (chars, text) => parseChars turns (out ++ chars) text
      | .error e => .error e
    else parseChars turns (out ++ [c]) text

/-- `parseString`; `src/core/json.cpp:230`. -/
def parseString : List Char → Parsed String
  | '"' :: text => parseChars (text.length + 1) [] text
  | text => fail "expected string" text

/-- What `parseNumber` passes over after the digits; `src/core/json.cpp:341–349`. -/
def dropExponent : List Char → List Char
  | [] => []
  | c :: text =>
    if c = 'e' ∨ c = 'E' then (takeSign text).2.dropWhile Char.isDigit else c :: text

/-- `parseNumber`; `src/core/json.cpp:324`. -/
def parseNumber (text : List Char) : Parsed Value :=
  let (whole, fraction, rest) := takeDigits Char.isDigit (takeSign text).2
  let rest := dropExponent rest
  if whole ++ fraction = [] then fail "invalid number" rest
  else
    let number := (strtod (text.take (text.length - rest.length))).map Conversion.value
    .ok (.number (number.getD (.ofInt 0)), rest)

/-- The elements of an array up to its closing bracket, after those in `elements`, each read by
`parseValue`; `src/core/json.cpp:212–227`. -/
def parseElements (parseValue : List Char → Parsed Value) :
    ℕ → List Value → List Char → Parsed Value
  | 0, _, text => fail "expected ',' or ']'" text
  | turns + 1, elements, text =>
    match parseValue text with
    | .error e => .error e
    | .ok (value, text) =>
      match skipWhitespace text with
      | ',' :: text => parseElements parseValue turns (elements ++ [value]) text
      | ']' :: text => .ok (.array (elements ++ [value]), text)
      | text => fail "expected ',' or ']'" text

/-- One member of an object; `src/core/json.cpp:175–188`. -/
def parseMember (parseValue : List Char → Parsed Value) (text : List Char) :
    Parsed (String × Value) :=
  match parseString (skipWhitespace text) with
  | .error e => .error e
  | .ok (key, text) =>
    match skipWhitespace text with
    | ':' :: text =>
      match parseValue text with
      | .error e => .error e
      | .ok (value, text) => .ok ((key, value), text)
    | text => fail "expected ':'" text

/-- The members of an object up to its closing bracket, after those in `object`;
`src/core/json.cpp:174–199`. -/
def parseMembers (parseValue : List Char → Parsed Value) : ℕ → Value → List Char → Parsed Value
  | 0, _, text => fail "expected ',' or '\x7d'" text
  | turns + 1, object, text =>
    match parseMember parseValue text with
    | .error e => .error e
    | .ok ((key, value), text) =>
      match skipWhitespace text with
      | ',' :: text => parseMembers parseValue turns (object.set key value) text
      | '}' :: text => .ok (object.set key value, text)
      | text => fail "expected ',' or '\x7d'" text

/-- `parseArray` after its bracket; `src/core/json.cpp:202`. -/
def parseArray (parseValue : List Char → Parsed Value) (text : List Char) : Parsed Value :=
  match skipWhitespace text with
  | ']' :: text => .ok (.array [], text)
  | text => parseElements parseValue (text.length + 1) [] text

/-- `parseObject` after its bracket; `src/core/json.cpp:164`. -/
def parseObject (parseValue : List Char → Parsed Value) (text : List Char) : Parsed Value :=
  match skipWhitespace text with
  | '}' :: text => .ok (.object [], text)
  | text => parseMembers parseValue (text.length + 1) (.object []) text

/-- `parseValueInner`, with `parseValue` for what is nested in it; `src/core/json.cpp:130`. -/
def parseValueInner (parseValue : List Char → Parsed Value) (text : List Char) : Parsed Value :=
  match skipWhitespace text with
  | [] => fail "unexpected end of input" []
  | c :: text =>
    if c = '{' then parseObject parseValue text
    else if c = '[' then parseArray parseValue text
    else if c = '"' then
      match parseString (c :: text) with
      | .ok (s, text) => .ok (.string s, text)
      | .error e => .error e
    else if c = 't' then literal "true".toList (.bool true) (c :: text)
    else if c = 'f' then literal "false".toList (.bool false) (c :: text)
    else if c = 'n' then literal "null".toList .null (c :: text)
    else parseNumber (c :: text)

/-- `parseValue` with so many levels of nesting left; `src/core/json.cpp:120`. -/
def parseValue : ℕ → List Char → Parsed Value
  | 0, text => fail "nesting too deep" text
  | levels + 1, text => parseValueInner (parseValue levels) text

/-- `kMaxDepth`. -/
def kMaxDepth : ℕ := 64

/-- `run`; `src/core/json.cpp:64`. -/
def run (text : List Char) : Parsed Value :=
  match parseValue kMaxDepth (skipWhitespace text) with
  | .error e => .error e
  | .ok (value, rest) =>
    match skipWhitespace rest with
    | [] => .ok (value, [])
    | rest => fail "trailing characters after value" rest

end Parser

/-- `parse`, or a message that names the offset; `src/core/json.cpp:527`. -/
def parse (text : String) : Except String Value :=
  match Parser.run text.toList with
  | .ok (value, _) => .ok value
  | .error (message, left) =>
    .error (message ++ " at offset " ++ ToString.toString (text.toList.length - left))

end WebLinked.Core.Json
