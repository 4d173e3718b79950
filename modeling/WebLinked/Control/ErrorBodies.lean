import Mathlib
import WebLinked.Control.HttpServer
import WebLinked.Core.JsonUnicode

/-!
# The bodies of errors

`src/control/http_server.cpp:182–198`. The message of an error is escaped by hand, and no control
character is but a line break, so that only the own parser reads every one of them.
-/

namespace WebLinked.Control.Http

open WebLinked.Base NumberText Core.Json Grammar

/-- A character of a message as a string has it. -/
def piece (c : Char) : Piece :=
  if c = '"' || c = '\\' then .short c else if c = '\n' then .short 'n' else .raw c

/-- The body of an error as JSON: an object of one member. -/
def errorDocument (message : Text) : Document :=
  ⟨[], .object [(⟨[], "error".toList.map .raw, []⟩, ⟨[], .string (message.map piece), []⟩)], []⟩

variable {message : Text} {c : Char}

/-- The three ways in which a character is written. -/
theorem piece_cases (c : Char) :
    (c = '"' ∨ c = '\\') ∧ piece c = .short c ∨ c = '\n' ∧ piece c = .short 'n' ∨
      (c ≠ '"' ∧ c ≠ '\\') ∧ c ≠ '\n' ∧ piece c = .raw c := by
  unfold piece
  by_cases hescape : c = '"' ∨ c = '\\'
  · left
    exact ⟨hescape, if_pos (by simpa using hescape)⟩
  rw [if_neg (by simpa using hescape)]
  by_cases hline : c = '\n'
  · right
    left
    exact ⟨hline, if_pos hline⟩
  · right
    right
    exact ⟨not_or.mp hescape, hline, if_neg hline⟩

theorem piece_ok (c : Char) : (piece c).Ok := by
  obtain ⟨rfl | rfl, hpiece⟩ | ⟨rfl, hpiece⟩ | ⟨hne, -, hpiece⟩ := piece_cases c
  · show '"' ∈ shorts
    decide
  · show '\\' ∈ shorts
    decide
  · show 'n' ∈ shorts
    decide
  · rw [hpiece]
    exact hne

/-- What is escaped is the character. -/
theorem decode_map_piece (message : Text) : decode (message.map piece) = message := by
  induction message with
  | nil => rfl
  | cons c message ih =>
    rw [List.map_cons]
    obtain ⟨rfl | rfl, hpiece⟩ | ⟨rfl, hpiece⟩ | ⟨-, -, hpiece⟩ := piece_cases c
    · rw [hpiece, decode, ih]
      rfl
    · rw [hpiece, decode, ih]
      rfl
    · rw [hpiece, decode, ih]
      rfl
    · rw [hpiece, decode, ih]

/-- A character is written as RFC 8259 asks when it is a line break or no control character. -/
theorem strict_piece_iff : (piece c).Strict ↔ c = '\n' ∨ 0x20 ≤ c.toNat := by
  obtain ⟨rfl | rfl, hpiece⟩ | ⟨rfl, hpiece⟩ | ⟨-, hline, hpiece⟩ := piece_cases c
  · simp [hpiece, Piece.Strict]
  · simp [hpiece, Piece.Strict]
  · simp [hpiece, Piece.Strict]
  · simp [hpiece, Piece.Strict, hline]

theorem text_piece (c : Char) : (piece c).text =
    if c = '"' || c = '\\' then ['\\', c] else if c = '\n' then ['\\', 'n'] else [c] := by
  unfold piece
  split
  · rfl
  · split
    · rfl
    · rfl

theorem flatMap_piece (message : Text) :
    (message.map piece).flatMap Piece.text = escape message := by
  rw [List.flatMap_map, escape]
  exact congrArg (message.flatMap ·) (funext text_piece)

theorem errorDocument_ok (message : Text) : (errorDocument message).Ok Parser.kMaxDepth := by
  have hkey : ∀ p ∈ "error".toList.map Piece.raw, p.Ok := by
    intro p hp
    fin_cases hp
    all_goals exact ⟨by decide, by decide⟩
  have hvalue : ∀ p ∈ message.map piece, p.Ok := by
    intro p hp
    obtain ⟨c, -, rfl⟩ := List.mem_map.mp hp
    exact piece_ok c
  have hblank : AllBlank [] := List.forall_mem_nil _
  refine ⟨hblank, hblank, ⟨List.cons_ne_nil _ _, ?_, trivial⟩, ?_⟩
  · exact ⟨hblank, hblank, hkey, hblank, hblank, hvalue⟩
  · simp [errorDocument, Tree.depth, Tree.membersDepth, Parser.kMaxDepth]

/-- The body is the text of it. -/
theorem errorDocument_text (response : Response) (code : ℤ) (message : String) :
    (errorDocument message.toList).text = (response.error code message).body := by
  have hkey : ("error".toList.map Piece.raw).flatMap Piece.text = "error".toList := rfl
  have hpieces : (message.toList.map piece).flatMap Piece.text = escape message.toList :=
    flatMap_piece message.toList
  simp only [errorDocument, Document.text, Tree.text, Tree.memberTexts, Grammar.separated, quoted,
    hkey, hpieces, Response.error, List.nil_append, List.append_nil, List.cons_append,
    List.append_assoc]
  simp

theorem errorDocument_value (message : Text) :
    (errorDocument message).item.value.get "error" = .string (String.ofList message) := by
  show (Value.set _ "error" (.string (String.ofList (decode (message.map piece))))).get "error" = _
  rw [Value.get_set_self, decode_map_piece]

theorem errorDocument_strict_iff : (errorDocument message).item.Strict ↔
    ∀ c ∈ message, c = '\n' ∨ 0x20 ≤ c.toNat := by
  have hkey : ∀ p ∈ "error".toList.map Piece.raw, p.Strict := by
    intro p hp
    fin_cases hp
    all_goals
      show 0x20 ≤ Char.toNat _
      decide
  have hvalue : (∀ p ∈ message.map piece, p.Strict) ↔ ∀ c ∈ message, c = '\n' ∨ 0x20 ≤ c.toNat := by
    rw [List.forall_mem_map]
    exact forall₂_congr fun c _ ↦ strict_piece_iff
  rw [← hvalue]
  constructor
  · intro h
    exact h.1.2
  · intro h
    exact ⟨⟨hkey, h⟩, trivial⟩

/-- Escaping changes nothing but ASCII. -/
theorem isUtf8_append_escape_iff (front : Text) :
    IsUtf8 (front ++ escape message) ↔ IsUtf8 (front ++ message) := by
  induction message generalizing front with
  | nil => rfl
  | cons c message ih =>
    have hescape : escape (c :: message) = (piece c).text ++ escape message := by
      rw [text_piece, escape, List.flatMap_cons, ← escape]
    have hrest : IsUtf8 (escape message) ↔ IsUtf8 message := ih []
    rw [hescape]
    obtain ⟨hc, hpiece⟩ | ⟨rfl, hpiece⟩ | ⟨-, -, hpiece⟩ := piece_cases c
    · have hlt : c.toNat < 0x80 := by
        obtain rfl | rfl := hc
        · decide
        · decide
      have hok : (Piece.short c).Ok := hpiece ▸ piece_ok c
      rw [hpiece, isUtf8_append_short_iff hok, isUtf8_append_cons_iff hlt, hrest]
    · have hok : (Piece.short 'n').Ok := hpiece ▸ piece_ok '\n'
      rw [hpiece, isUtf8_append_short_iff hok, isUtf8_append_cons_iff (by decide), hrest]
    · rw [hpiece, Piece.text, List.singleton_append, List.append_cons, ih, ← List.append_cons]

theorem isUtf8_body_iff (response : Response) (code : ℤ) (message : String) :
    IsUtf8 (response.error code message).body ↔ IsUtf8 message.toList := by
  have hfront : ∀ c ∈ "\x7b\"error\":\"".toList, c.toNat < 0x80 := by
    intro c hc
    fin_cases hc <;> decide
  have hback : ∀ c ∈ "\"\x7d".toList, c.toNat < 0x80 := by
    intro c hc
    fin_cases hc <;> decide
  rw [Response.error, isUtf8_append_iff_of_lt hback, (isUtf8_of_lt hfront).append_iff]
  exact isUtf8_append_escape_iff []

/-- The own parser reads every error. -/
theorem parse_body (response : Response) (code : ℤ) (message : String) : ∃ v,
    parse (String.ofList (response.error code message).body) = .ok v ∧
      v.get "error" = .string message := by
  refine ⟨(errorDocument message.toList).item.value, ?_, ?_⟩
  · refine parse_eq_ok_iff.mpr ⟨_, errorDocument_ok message.toList, ?_, rfl⟩
    rw [errorDocument_text response code, String.toList_ofList]
  · rw [errorDocument_value, String.ofList_toList]

/-- What every parser of JSON reads: the message is UTF-8 and has no control characters but line
breaks. -/
theorem error_isJson_iff (response : Response) (code : ℤ) (message : String) :
    ((∃ v, parse (String.ofList (response.error code message).body) = .ok v ∧
        v.get "error" = .string message) ∧
      IsJson Parser.kMaxDepth (response.error code message).body) ↔
        (∀ c ∈ message.toList, c = '\n' ∨ 0x20 ≤ c.toNat) ∧ IsUtf8 message.toList := by
  have hjson : IsJson Parser.kMaxDepth (response.error code message).body ↔ _ :=
    isJson_iff_of_ok (errorDocument_ok message.toList) (errorDocument_text response code message)
  rw [and_iff_right (parse_body response code message), hjson, errorDocument_strict_iff,
    isUtf8_body_iff]

/-- A tab in a message is not escaped. -/
theorem error_not_isJson :
    ¬ ((∃ v, parse (String.ofList (({} : Response).error 400 "\t").body) = .ok v ∧
        v.get "error" = .string "\t") ∧
      IsJson Parser.kMaxDepth (({} : Response).error 400 "\t").body) := by
  rintro ⟨-, hjson⟩
  have hstrict := ((isJson_iff_of_ok (errorDocument_ok "\t".toList)
    (errorDocument_text {} 400 "\t")).mp hjson).1
  have htab := errorDocument_strict_iff.mp hstrict '\t' (List.mem_singleton_self _)
  exact absurd htab (by decide)

end WebLinked.Control.Http
