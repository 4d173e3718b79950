import Mathlib
import WebLinked.Core.JsonDocument
import WebLinked.Core.JsonStrings

/-!
# Values that are UTF-8

`src/core/json.cpp:17–44,60–322,466–530`. What is read of UTF-8 is UTF-8 in all its strings where no
surrogate stands alone, and is then written as UTF-8.
-/

namespace WebLinked.Core.Json

open WebLinked.Base NumberText

namespace Grammar.Tree

mutual

/-- Every string and key in a value. -/
def strings : Tree → List (List Piece)
  | string pieces => [pieces]
  | array elements => elementStrings elements
  | object members => memberStrings members
  | _ => []

/-- Every string and key in elements. -/
def elementStrings : List (Padded Tree) → List (List Piece)
  | [] => []
  | ⟨_, tree, _⟩ :: elements => tree.strings ++ elementStrings elements

/-- Every string and key in members. -/
def memberStrings : List (Padded (List Piece) × Padded Tree) → List (List Piece)
  | [] => []
  | (key, ⟨_, tree, _⟩) :: members => key.item :: (tree.strings ++ memberStrings members)

end

mutual

/-- No surrogate stands alone in a string or a key, but for the values that a later member of the
same key takes the place of. -/
def Paired : Tree → Prop
  | string pieces => Grammar.Paired pieces
  | array elements => ElementsPaired elements
  | object members => MembersPaired members
  | _ => True

/-- No surrogate stands alone in elements. -/
def ElementsPaired : List (Padded Tree) → Prop
  | [] => True
  | ⟨_, tree, _⟩ :: elements => tree.Paired ∧ ElementsPaired elements

/-- No surrogate stands alone in a key, or in the last value of one. -/
def MembersPaired : List (Padded (List Piece) × Padded Tree) → Prop
  | [] => True
  | (key, ⟨_, tree, _⟩) :: members =>
    (Grammar.Paired key.item ∧
      (tree.Paired ∨ ∃ m ∈ members, decode m.1.item = decode key.item)) ∧ MembersPaired members

end

end Grammar.Tree

open Grammar

/-! ### Values -/

namespace Value

mutual

/-- Every string and key in a value. -/
def strings : Value → List String
  | string s => [s]
  | array elements => elementStrings elements
  | object members => memberStrings members
  | _ => []

/-- Every string and key in elements. -/
def elementStrings : List Value → List String
  | [] => []
  | v :: elements => v.strings ++ elementStrings elements

/-- Every string and key in members. -/
def memberStrings : List (String × Value) → List String
  | [] => []
  | (key, v) :: members => key :: (v.strings ++ memberStrings members)

end

/-- Every string and key in a value is UTF-8. -/
def Encoded (v : Value) : Prop := ∀ s ∈ v.strings, IsUtf8 s.toList

variable {v : Value} {s : String} {elements : List Value} {members : List (String × Value)}

theorem elementStrings_eq_flatMap : elementStrings elements = elements.flatMap strings := by
  induction elements with
  | nil => rfl
  | cons v elements ih => exact congrArg (v.strings ++ ·) ih

theorem memberStrings_eq_flatMap :
    memberStrings members = members.flatMap fun m ↦ m.1 :: m.2.strings := by
  induction members with
  | nil => rfl
  | cons m members ih => exact congrArg (m.1 :: m.2.strings ++ ·) ih

theorem mem_strings_array : s ∈ (array elements).strings ↔ ∃ v ∈ elements, s ∈ v.strings := by
  show s ∈ elementStrings elements ↔ _
  rw [elementStrings_eq_flatMap, List.mem_flatMap]

theorem mem_strings_object :
    s ∈ (object members).strings ↔ ∃ m ∈ members, s = m.1 ∨ s ∈ m.2.strings := by
  show s ∈ memberStrings members ↔ _
  rw [memberStrings_eq_flatMap, List.mem_flatMap]
  simp only [List.mem_cons]

theorem encoded_string : (string s).Encoded ↔ IsUtf8 s.toList := by
  show (∀ t ∈ [s], IsUtf8 t.toList) ↔ _
  rw [List.forall_mem_singleton]

theorem encoded_array : (array elements).Encoded ↔ ∀ v ∈ elements, v.Encoded := by
  unfold Encoded
  constructor
  · intro h v hv s hs
    exact h s (mem_strings_array.mpr ⟨v, hv, hs⟩)
  · intro h s hs
    obtain ⟨v, hv, hs⟩ := mem_strings_array.mp hs
    exact h v hv s hs

theorem encoded_object :
    (object members).Encoded ↔ ∀ m ∈ members, IsUtf8 m.1.toList ∧ m.2.Encoded := by
  unfold Encoded
  constructor
  · intro h m hm
    constructor
    · exact h m.1 (mem_strings_object.mpr ⟨m, hm, Or.inl rfl⟩)
    · intro s hs
      exact h s (mem_strings_object.mpr ⟨m, hm, Or.inr hs⟩)
  · intro h s hs
    obtain ⟨m, hm, rfl | hs⟩ := mem_strings_object.mp hs
    · exact (h m hm).1
    · exact (h m hm).2 s hs

end Value

namespace Grammar

section Trees

variable {text front back : List Char} {close : Char} {texts : List (List Char)} {levels : ℕ}

theorem isUtf8_append_iff_of_lt (h : ∀ c ∈ back, c.toNat < 0x80) :
    IsUtf8 (front ++ back) ↔ IsUtf8 front := by
  cases back with
  | nil => rw [List.append_nil]
  | cons c back =>
    obtain ⟨hc, hback⟩ := List.forall_mem_cons.mp h
    rw [isUtf8_append_cons_iff hc]
    exact and_iff_left (isUtf8_of_lt hback)

theorem AllBlank.lt (h : AllBlank text) : ∀ c ∈ text, c.toNat < 0x80 := by
  intro c hc
  have hblank := h c hc
  simp only [isBlank, Bool.or_eq_true, decide_eq_true_eq] at hblank
  obtain ((rfl | rfl) | rfl) | rfl := hblank <;> decide

/-- What is written with blanks around it is UTF-8 when the whole is. -/
theorem Padded.isUtf8_iff {α : Type} {write : α → List Char} {ok : α → Prop} {p : Padded α}
    (hp : p.Ok ok) : IsUtf8 (p.text write) ↔ IsUtf8 (write p.item) := by
  rw [Padded.text, (isUtf8_of_lt hp.before.lt).append_iff, isUtf8_append_iff_of_lt hp.after.lt]

theorem isUtf8_separated_iff (hclose : close.toNat < 0x80) :
    IsUtf8 (separated close texts) ↔ ∀ t ∈ texts, IsUtf8 t := by
  induction texts with
  | nil =>
    have hend : IsUtf8 [close] := isUtf8_of_lt (List.forall_mem_singleton.mpr hclose)
    exact ⟨fun _ _ ht ↦ absurd ht List.not_mem_nil, fun _ ↦ hend⟩
  | cons item texts ih =>
    cases texts with
    | nil =>
      rw [separated_singleton, isUtf8_append_iff_of_lt (List.forall_mem_singleton.mpr hclose),
        List.forall_mem_singleton]
    | cons item' texts =>
      rw [separated_cons, isUtf8_append_cons_iff (by decide), ih]
      exact List.forall_mem_cons.symm

theorem isUtf8_quoted_iff {pieces : List Piece} :
    IsUtf8 (quoted pieces) ↔ IsUtf8 (pieces.flatMap Piece.text) := by
  have hquote : ∀ c ∈ ['"'], c.toNat < 0x80 := List.forall_mem_singleton.mpr (by decide)
  rw [quoted, isUtf8_cons_iff (by decide), isUtf8_append_iff_of_lt hquote]

/-- A string of a text that is UTF-8. -/
theorem isUtf8_decode_iff {pieces : List Piece} (hok : ∀ p ∈ pieces, p.Ok)
    (h : IsUtf8 (quoted pieces)) : IsUtf8 (decode pieces) ↔ Paired pieces :=
  isUtf8_append_decode_iff [] hok (isUtf8_quoted_iff.mp h)

theorem elementsPaired_iff {elements : List (Padded Tree)} :
    Tree.ElementsPaired elements ↔ ∀ e ∈ elements, e.item.Paired := by
  induction elements with
  | nil => simp [Tree.ElementsPaired]
  | cons e elements ih => rw [Tree.ElementsPaired, ih, List.forall_mem_cons]

theorem membersPaired_cons {m : Padded (List Piece) × Padded Tree}
    {members : List (Padded (List Piece) × Padded Tree)} :
    Tree.MembersPaired (m :: members) ↔ (Paired m.1.item ∧
      (m.2.item.Paired ∨ ∃ m' ∈ members, decode m'.1.item = decode m.1.item)) ∧
      Tree.MembersPaired members := by
  obtain ⟨key, before, tree, after⟩ := m
  exact Iff.rfl

theorem memberValue_fst_inj {m m' : Padded (List Piece) × Padded Tree} :
    (Parser.memberValue m).1 = (Parser.memberValue m').1 ↔ decode m.1.item = decode m'.1.item :=
  String.ofList_inj

/-- Setting a member keeps no other value of its key. -/
theorem encoded_setMembers_iff {members : List (Padded (List Piece) × Padded Tree)}
    (h : ∀ m ∈ members, (IsUtf8 (decode m.1.item) ↔ Paired m.1.item) ∧
      (m.2.item.value.Encoded ↔ m.2.item.Paired))
    {old : List (String × Value)} (hold : (old.map Prod.fst).Nodup) :
    (Tree.setMembers (.object old) members).Encoded ↔
      (∀ w ∈ old, IsUtf8 w.1.toList ∧
        (w.2.Encoded ∨ ∃ m ∈ members, (Parser.memberValue m).1 = w.1)) ∧
      Tree.MembersPaired members := by
  induction members generalizing old with
  | nil => simp [Tree.setMembers, Tree.MembersPaired, Value.encoded_object]
  | cons m members ih =>
    obtain ⟨⟨hkey, hvalue⟩, hrest⟩ := List.forall_mem_cons.mp h
    have hset : (Value.object old).set (Parser.memberValue m).1 (Parser.memberValue m).2 =
        .object (Value.setMember (Parser.memberValue m).1 (Parser.memberValue m).2 old) := rfl
    have hkey' : IsUtf8 (Parser.memberValue m).1.toList ↔ Paired m.1.item := by
      rw [Parser.memberValue, String.toList_ofList]
      exact hkey
    rw [Parser.setMembers_cons, hset, ih hrest (Value.nodup_setMember hold), membersPaired_cons,
      ← hkey', ← hvalue, ← and_assoc]
    apply and_congr_left'
    constructor
    · intro hall
      obtain ⟨hnew, hnewValue⟩ := hall _ ((Value.mem_setMember_iff hold).mpr (Or.inl rfl))
      refine ⟨?_, hnew, ?_⟩
      · intro w hw
        by_cases hne : w.1 = (Parser.memberValue m).1
        · rw [hne]
          exact ⟨hnew, Or.inr ⟨m, List.mem_cons_self .., rfl⟩⟩
        · obtain ⟨hw, hwValue⟩ := hall w ((Value.mem_setMember_iff hold).mpr (Or.inr ⟨hw, hne⟩))
          refine ⟨hw, hwValue.imp_right ?_⟩
          rintro ⟨m', hm', heq⟩
          exact ⟨m', List.mem_cons_of_mem _ hm', heq⟩
      · apply hnewValue.imp_right
        rintro ⟨m', hm', heq⟩
        exact ⟨m', hm', memberValue_fst_inj.mp heq⟩
    · rintro ⟨hall, hnew, hnewValue⟩ w hw
      obtain rfl | ⟨hw, hne⟩ := (Value.mem_setMember_iff hold).mp hw
      · refine ⟨hnew, hnewValue.imp_right ?_⟩
        rintro ⟨m', hm', heq⟩
        exact ⟨m', hm', memberValue_fst_inj.mpr heq⟩
      · obtain ⟨hw, hwValue⟩ := hall w hw
        refine ⟨hw, hwValue.imp_right ?_⟩
        rintro ⟨m', hm', heq⟩
        obtain rfl | hm' := List.mem_cons.mp hm'
        · exact absurd heq.symm hne
        · exact ⟨m', hm', heq⟩

/-- Every string of a value that is read of UTF-8 is UTF-8, just when no surrogate stands alone. -/
theorem encoded_value_iff (levels : ℕ) : ∀ t, Fits levels t → IsUtf8 t.text →
    (t.value.Encoded ↔ t.Paired) := by
  induction levels with
  | zero =>
    intro t ht
    exact absurd ht.2 (Nat.not_le_of_lt (depth_pos t))
  | succ levels ih =>
    intro t ht htext
    have hpadded : ∀ e : Padded Tree, e.Ok (Fits levels) → IsUtf8 (e.text Tree.text) →
        (e.item.value.Encoded ↔ e.item.Paired) :=
      fun e he hutf8 ↦ ih e.item he.item ((Padded.isUtf8_iff he).mp hutf8)
    cases t with
    | null => simp [Tree.value, Tree.Paired, Value.Encoded, Value.strings]
    | bool b => simp [Tree.value, Tree.Paired, Value.Encoded, Value.strings]
    | number n => simp [Tree.value, Tree.Paired, Value.Encoded, Value.strings]
    | emptyArray blanks => simp [Tree.value, Tree.Paired, Value.encoded_array]
    | emptyObject blanks => simp [Tree.value, Tree.Paired, Value.encoded_object]
    | string pieces =>
      rw [Tree.value, Tree.Paired, Value.encoded_string, String.toList_ofList]
      exact isUtf8_decode_iff ht.1 htext
    | array elements =>
      obtain ⟨-, hok⟩ := fits_array.mp ht
      rw [Tree.text, elementTexts_eq_map, isUtf8_cons_iff (by decide),
        isUtf8_separated_iff (by decide), List.forall_mem_map] at htext
      rw [Tree.value, Tree.Paired, Value.encoded_array, elementsPaired_iff,
        Parser.elementValues_eq_map, List.forall_mem_map]
      exact forall₂_congr fun e he ↦ hpadded e (hok e he) (htext e he)
    | object members =>
      obtain ⟨-, hok⟩ := fits_object.mp ht
      rw [Tree.text, memberTexts_eq_map, isUtf8_cons_iff (by decide),
        isUtf8_separated_iff (by decide), List.forall_mem_map] at htext
      have hnodup : (([] : List (String × Value)).map Prod.fst).Nodup := List.nodup_nil
      rw [Tree.value, Tree.Paired, encoded_setMembers_iff _ hnodup]
      · simp
      · intro m hm
        have hmember := htext m hm
        rw [memberText, isUtf8_append_cons_iff (by decide)] at hmember
        constructor
        · exact isUtf8_decode_iff (hok m hm).key.item
            ((Padded.isUtf8_iff (hok m hm).key).mp hmember.1)
        · exact hpadded m.2 (hok m hm).value hmember.2

theorem mem_elementStrings {elements : List (Padded Tree)} {pieces : List Piece} :
    pieces ∈ Tree.elementStrings elements ↔ ∃ e ∈ elements, pieces ∈ e.item.strings := by
  induction elements with
  | nil => simp [Tree.elementStrings]
  | cons e elements ih =>
    rw [Tree.elementStrings, List.mem_append, ih, List.exists_mem_cons_iff]

theorem mem_memberStrings {members : List (Padded (List Piece) × Padded Tree)}
    {pieces : List Piece} : pieces ∈ Tree.memberStrings members ↔
      ∃ m ∈ members, pieces = m.1.item ∨ pieces ∈ m.2.item.strings := by
  induction members with
  | nil => simp [Tree.memberStrings]
  | cons m members ih =>
    rw [Tree.memberStrings, List.mem_cons, List.mem_append, ih, List.exists_mem_cons_iff, or_assoc]

/-- What is in an object was set or was there before. -/
theorem mem_strings_setMembers {members : List (Padded (List Piece) × Padded Tree)}
    {old : List (String × Value)} {s : String}
    (h : s ∈ (Tree.setMembers (.object old) members).strings) :
    s ∈ (Value.object old).strings ∨ ∃ m ∈ members,
      s = (Parser.memberValue m).1 ∨ s ∈ m.2.item.value.strings := by
  induction members generalizing old with
  | nil =>
    left
    exact h
  | cons m members ih =>
    rw [Parser.setMembers_cons] at h
    obtain h | ⟨m', hm', h⟩ := ih h
    · obtain ⟨w, hw, h⟩ := Value.mem_strings_object.mp h
      obtain rfl | hw := Value.mem_setMember hw
      · right
        exact ⟨m, List.mem_cons_self .., h⟩
      · left
        exact Value.mem_strings_object.mpr ⟨w, hw, h⟩
    · right
      exact ⟨m', List.mem_cons_of_mem _ hm', h⟩

/-- Every string of a value that is read is what a string of the text stands for. -/
theorem exists_of_mem_strings (levels : ℕ) : ∀ t, Fits levels t → ∀ s ∈ t.value.strings,
    ∃ pieces ∈ t.strings, s.toList = decode pieces := by
  induction levels with
  | zero =>
    intro t ht
    exact absurd ht.2 (Nat.not_le_of_lt (depth_pos t))
  | succ levels ih =>
    intro t ht s hs
    cases t with
    | null => exact absurd hs List.not_mem_nil
    | bool b => exact absurd hs List.not_mem_nil
    | number n => exact absurd hs List.not_mem_nil
    | emptyArray blanks => exact absurd hs List.not_mem_nil
    | emptyObject blanks => exact absurd hs List.not_mem_nil
    | string pieces =>
      rw [Tree.value, Value.strings, List.mem_singleton] at hs
      refine ⟨pieces, List.mem_singleton_self pieces, ?_⟩
      rw [hs, String.toList_ofList]
    | array elements =>
      obtain ⟨-, hok⟩ := fits_array.mp ht
      rw [Tree.value, Value.mem_strings_array, Parser.elementValues_eq_map] at hs
      obtain ⟨v, hv, hs⟩ := hs
      obtain ⟨e, he, rfl⟩ := List.mem_map.mp hv
      obtain ⟨pieces, hpieces, heq⟩ := ih e.item (hok e he).item s hs
      exact ⟨pieces, mem_elementStrings.mpr ⟨e, he, hpieces⟩, heq⟩
    | object members =>
      obtain ⟨-, hok⟩ := fits_object.mp ht
      obtain hs | ⟨m, hm, rfl | hs⟩ := mem_strings_setMembers hs
      · exact absurd hs List.not_mem_nil
      · refine ⟨m.1.item, mem_memberStrings.mpr ⟨m, hm, Or.inl rfl⟩, ?_⟩
        rw [Parser.memberValue, String.toList_ofList]
      · obtain ⟨pieces, hpieces, heq⟩ := ih m.2.item (hok m hm).value.item s hs
        exact ⟨pieces, mem_memberStrings.mpr ⟨m, hm, Or.inr hpieces⟩, heq⟩

end Trees

end Grammar

/-! ### Serializing -/

section Serializing

variable {pretty : Bool} {depth : ℕ} {items : List (List Char)}

theorem escape_of_le {c : Char} (h : 0x80 ≤ c.toNat) : escape c = [c] := by
  have hne : ∀ d : Char, d.toNat < 0x80 → c ≠ d := by
    rintro d hd rfl
    omega
  rw [escape, if_neg (hne _ (by decide)), if_neg (hne _ (by decide)), if_neg (hne _ (by decide)),
    if_neg (hne _ (by decide)), if_neg (hne _ (by decide)), if_neg (hne _ (by decide)),
    if_neg (hne _ (by decide)), if_neg (by omega)]

theorem lt_of_mem_escape {c x : Char} (h : c.toNat < 0x80) (hx : x ∈ escape c) :
    x.toNat < 0x80 := by
  have hlist : ∀ a b : Char, a.toNat < 0x80 → b.toNat < 0x80 → x ∈ [a, b] → x.toNat < 0x80 := by
    intro a b ha hb hmem
    obtain rfl | hmem := List.mem_cons.mp hmem
    · exact ha
    · rwa [List.mem_singleton.mp hmem]
  have hdigits : ∀ n < 0x20, ∀ x ∈ (Nat.toDigits 16 n).leftpad 4 '0', x.toNat < 0x80 := by
    intro n hn x hx
    obtain ⟨a, b, heq, ha, hb, -⟩ := Parser.exists_digits_control n hn
    have hzero : ∀ y ∈ ['0', '0', a, b], isHexDigit y = true := by
      simp only [List.forall_mem_cons, ha, hb, List.not_mem_nil, false_implies, implies_true,
        and_true]
      decide
    rw [heq] at hx
    have hrange := isHexDigit_iff.mp (hzero x hx)
    omega
  unfold escape at hx
  split_ifs at hx with _ _ _ _ _ _ _ hcontrol
  · exact hlist _ _ (by decide) (by decide) hx
  · exact hlist _ _ (by decide) (by decide) hx
  · exact hlist _ _ (by decide) (by decide) hx
  · exact hlist _ _ (by decide) (by decide) hx
  · exact hlist _ _ (by decide) (by decide) hx
  · exact hlist _ _ (by decide) (by decide) hx
  · exact hlist _ _ (by decide) (by decide) hx
  · obtain rfl | hx := List.mem_cons.mp hx
    · decide
    obtain rfl | hx := List.mem_cons.mp hx
    · decide
    exact hdigits _ hcontrol x hx
  · rwa [List.mem_singleton.mp hx]

/-- Escaping leaves the bytes of every character beyond ASCII as they are. -/
theorem isUtf8_appendEscaped {s : String} (h : IsUtf8 s.toList) : IsUtf8 (appendEscaped s) := by
  have hquote : ∀ c ∈ ['"'], c.toNat < 0x80 := List.forall_mem_singleton.mpr (by decide)
  rw [appendEscaped, isUtf8_cons_iff (by decide), isUtf8_append_iff_of_lt hquote]
  unfold IsUtf8 at h ⊢
  have hbytes : ((s.toList.flatMap escape).map Char.toNat) = (s.toList.map Char.toNat).flatMap
      fun n ↦ if n < 0x80 then (escape (Char.ofNat n)).map Char.toNat else [n] := by
    rw [List.map_flatMap, List.flatMap_map]
    congr 1
    funext c
    split
    · rw [Char.ofNat_toNat]
    · next hge => rw [escape_of_le (by omega), List.map_singleton]
  rw [hbytes]
  apply h.flatMap
  · intro n hn m hm
    rw [if_pos hn] at hm
    obtain ⟨x, hx, rfl⟩ := List.mem_map.mp hm
    apply lt_of_mem_escape _ hx
    rwa [Char.toNat_ofNat, if_pos (Or.inl (by omega))]
  · intro n hn
    rw [if_neg (by omega)]

/-- Numbers are written in ASCII. -/
theorem lt_of_mem_appendNumber {x : Double} {c : Char} (hc : c ∈ appendNumber x) :
    c.toNat < 0x80 := by
  by_cases hx : x.isFinite = true
  · obtain ⟨n, htext, -⟩ := Parser.exists_numeral_appendNumber hx
    rw [← htext, Numeral.text, List.mem_append] at hc
    obtain hc | hc := hc
    · unfold sign at hc
      split at hc
      · rw [List.mem_singleton.mp hc]
        decide
      · cases hc
    · obtain hc | hc := n.mem_unsigned hc
      · have hdigit := isDigit_iff.mp hc
        omega
      · fin_cases hc <;> decide
  · rw [appendNumber, if_pos (by simpa using hx)] at hc
    fin_cases hc <;> decide

theorem isUtf8_indent (pretty : Bool) (depth : ℕ) : IsUtf8 (indent pretty depth) := by
  apply isUtf8_of_lt
  intro c hc
  unfold indent at hc
  split at hc
  · rw [List.eq_of_mem_replicate hc]
    decide
  · cases hc

theorem isUtf8_newline (pretty : Bool) : IsUtf8 (newline pretty) := by
  cases pretty with
  | false => exact Utf8.valid_nil
  | true => exact (isUtf8_cons_iff (by decide)).mpr Utf8.valid_nil

theorem isUtf8_separated (h : ∀ item ∈ items, IsUtf8 item) :
    IsUtf8 (separated pretty depth items) := by
  have hindent := isUtf8_indent pretty depth
  induction items with
  | nil => exact Utf8.valid_nil
  | cons item items ih =>
    obtain ⟨hitem, hitems⟩ := List.forall_mem_cons.mp h
    cases items with
    | nil => exact hindent.append hitem
    | cons item' items =>
      rw [separated]
      · apply (hindent.append hitem).append
        rw [isUtf8_cons_iff (by decide)]
        exact (isUtf8_newline pretty).append (ih hitems)
      · simp

theorem isUtf8_bracketed {left right : Char} (hleft : left.toNat < 0x80)
    (hright : right.toNat < 0x80) (h : ∀ item ∈ items, IsUtf8 item) :
    IsUtf8 (bracketed left right pretty depth items) := by
  have hend : IsUtf8 [right] := (isUtf8_cons_iff hright).mpr Utf8.valid_nil
  unfold bracketed
  split
  · exact (isUtf8_cons_iff hleft).mpr hend
  · rw [isUtf8_cons_iff hleft]
    have hnewline := isUtf8_newline pretty
    exact (((hnewline.append (isUtf8_separated h)).append hnewline).append
      (isUtf8_indent pretty depth)).append hend

/-- A value whose strings are UTF-8 is written as UTF-8. -/
theorem isUtf8_serializeInto (n : ℕ) : ∀ v : Value, v.depth ≤ n → v.Encoded → ∀ depth,
    IsUtf8 (v.serializeInto pretty depth) := by
  induction n with
  | zero =>
    intro v hv
    exact absurd hv (Nat.not_le_of_lt v.depth_pos)
  | succ n ih =>
    intro v hv henc depth
    cases v with
    | null =>
      show IsUtf8 "null".toList
      apply isUtf8_of_lt
      intro c hc
      fin_cases hc <;> decide
    | bool b =>
      cases b with
      | false =>
        show IsUtf8 "false".toList
        apply isUtf8_of_lt
        intro c hc
        fin_cases hc <;> decide
      | true =>
        show IsUtf8 "true".toList
        apply isUtf8_of_lt
        intro c hc
        fin_cases hc <;> decide
    | number x => exact isUtf8_of_lt fun c hc ↦ lt_of_mem_appendNumber hc
    | string s => exact isUtf8_appendEscaped (Value.encoded_string.mp henc)
    | array elements =>
      rw [Value.serializeInto_array]
      apply isUtf8_bracketed (by decide) (by decide)
      intro item hitem
      rw [Value.serializeElements_eq_map] at hitem
      obtain ⟨v, hmem, rfl⟩ := List.mem_map.mp hitem
      exact ih v (Value.depth_array_le.mp hv v hmem) (Value.encoded_array.mp henc v hmem) _
    | object members =>
      rw [Value.serializeInto_object]
      apply isUtf8_bracketed (by decide) (by decide)
      intro item hitem
      rw [Value.serializeMembers_eq_map] at hitem
      obtain ⟨m, hmem, rfl⟩ := List.mem_map.mp hitem
      obtain ⟨hkey, hvalue⟩ := Value.encoded_object.mp henc m hmem
      have hcolon : IsUtf8 (colon pretty) := by
        cases pretty with
        | false => exact isUtf8_of_lt (List.forall_mem_singleton.mpr (by decide))
        | true =>
          show IsUtf8 [':', ' ']
          apply isUtf8_of_lt
          intro c hc
          fin_cases hc <;> decide
      exact ((isUtf8_appendEscaped hkey).append hcolon).append
        (ih m.2 (Value.depth_object_le.mp hv m hmem) hvalue _)

end Serializing

/-! ### Whole texts -/

/-- What is read of a text is UTF-8 in every string and key, its pairs of surrogates are read as
the characters that they stand for, and it is written as UTF-8. -/
structure StaysUnicode (text : List Char) (v : Value) : Prop where
  encoded : v.Encoded
  pairs : ∃ d : Document, d.Ok Parser.kMaxDepth ∧ d.text = text ∧
    (∀ s ∈ v.strings, ∃ pieces ∈ d.item.strings, s.toList = decode pieces) ∧
      ∀ pieces ∈ d.item.strings, PairsRead pieces
  serialize : ∀ pretty, IsUtf8 (v.serialize pretty).toList

/-- Strings stay UTF-8 just when no surrogate of the text stands alone, but for the values that a
later member of the same key takes the place of. -/
theorem staysUnicode_iff {text : String} {v : Value} (hutf8 : IsUtf8 text.toList)
    (hparse : parse text = .ok v) : StaysUnicode text.toList v ↔
      ∀ d : Document, d.Ok Parser.kMaxDepth → d.text = text.toList → d.item.Paired := by
  obtain ⟨d, hd, htext, rfl⟩ := parse_eq_ok_iff.mp hparse
  have hfits : Fits Parser.kMaxDepth d.item := ⟨hd.item, hd.depth⟩
  have hitem : IsUtf8 d.item.text := by
    rw [← htext] at hutf8
    exact (Padded.isUtf8_iff ⟨hd.before, hd.after, hd.item⟩).mp hutf8
  have hencoded := encoded_value_iff _ d.item hfits hitem
  constructor
  · intro h d' hd' htext'
    obtain rfl := document_ext hd' hd (htext'.trans htext.symm)
    exact hencoded.mp h.encoded
  · intro h
    have hvalue := hencoded.mpr (h d hd htext)
    refine ⟨hvalue, ⟨d, hd, htext, exists_of_mem_strings _ d.item hfits, ?_⟩, ?_⟩
    · intro pieces _
      exact pairsRead pieces
    · intro pretty
      rw [Value.serialize, String.toList_ofList]
      exact isUtf8_serializeInto _ _ le_rfl hvalue 0

/-- A text that is one string. -/
theorem quoted_ok {pieces : List Piece} (h : ∀ p ∈ pieces, p.Ok) :
    Document.Ok Parser.kMaxDepth ⟨[], .string pieces, []⟩ :=
  ⟨List.forall_mem_nil _, List.forall_mem_nil _, h, by simp [Tree.depth, Parser.kMaxDepth]⟩

theorem parse_quoted {pieces : List Piece} (h : ∀ p ∈ pieces, p.Ok) {text : String}
    (htext : quoted pieces = text.toList) :
    parse text = .ok (.string (String.ofList (decode pieces))) := by
  refine parse_eq_ok_iff.mpr ⟨⟨[], .string pieces, []⟩, quoted_ok h, ?_, rfl⟩
  rw [Document.text, List.nil_append, List.append_nil]
  exact htext

/-- A pair of surrogates, which is the one character of four bytes. -/
theorem staysUnicode_pair : StaysUnicode "\"\\ud83d\\ude00\"".toList
    (.string (String.ofList ['\xf0', '\x9f', '\x98', '\x80'])) := by
  have hok : ∀ p ∈ [Piece.code 'd' '8' '3' 'd', .code 'd' 'e' '0' '0'], p.Ok := by
    intro p hp
    fin_cases hp
    · exact ⟨rfl, rfl, rfl, rfl⟩
    · exact ⟨rfl, rfl, rfl, rfl⟩
  have htext : quoted [Piece.code 'd' '8' '3' 'd', .code 'd' 'e' '0' '0'] =
      "\"\\ud83d\\ude00\"".toList := rfl
  refine (staysUnicode_iff ?_ (parse_quoted hok htext)).mpr ?_
  · apply isUtf8_of_lt
    intro c hc
    fin_cases hc <;> decide
  · intro d hd hd'
    obtain rfl := document_ext hd (quoted_ok hok) (hd'.trans htext.symm)
    intro code hcode
    have hcodes : codes [.code 'd' '8' '3' 'd', .code 'd' 'e' '0' '0'] = [0x1F600] := by decide
    rw [hcodes, List.mem_singleton] at hcode
    unfold IsSurrogate IsHigh IsLow
    omega

/-- One of them alone is no character. -/
theorem not_staysUnicode : IsUtf8 "\"\\ud800\"".toList ∧
    parse "\"\\ud800\"" = .ok (.string (String.ofList ['\xed', '\xa0', '\x80'])) ∧
    ¬ StaysUnicode "\"\\ud800\"".toList (.string (String.ofList ['\xed', '\xa0', '\x80'])) := by
  have hok : ∀ p ∈ [Piece.code 'd' '8' '0' '0'], p.Ok :=
    List.forall_mem_singleton.mpr ⟨rfl, rfl, rfl, rfl⟩
  refine ⟨?_, parse_quoted hok rfl, ?_⟩
  · apply isUtf8_of_lt
    intro c hc
    fin_cases hc <;> decide
  · intro h
    have hvalid := Value.encoded_string.mp h.encoded
    rw [String.toList_ofList] at hvalid
    exact Utf8.not_valid_surrogate (n := 0xA0) (by decide) (by decide) hvalid

end WebLinked.Core.Json
