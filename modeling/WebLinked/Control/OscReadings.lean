import Mathlib
import WebLinked.Control.OscMessages

/-!
# What is taken for a message

`src/control/osc_server.cpp:43–189`. A reader that asks less of a message than OSC 1.0 does: the
bytes after the zero of a text may be any, tags may be missing, and what follows the last argument is
left. A bundle is known by seven bytes, and is read up to an element of no bytes.
-/

namespace WebLinked.Control.Osc

/-- A text up to its zero, and the bytes that are passed over with it, whatever they are. -/
def Spells (text bytes : Bytes) : Prop :=
  0 ∉ text ∧ bytes.length = padded text.length ∧ ∃ padding, bytes = text ++ 0 :: padding

/-- Bytes that an argument of this tag takes up. -/
def Takes (tag : UInt8) (bytes : Bytes) : Prop :=
  match Char.ofNat tag.toNat with
  | 'i' | 'f' => bytes.length = 4
  | 's' | 'S' => ∃ text, Spells text bytes
  | 'T' | 'F' | 'N' | 'I' => bytes = []
  | 'b' =>
    ∃ size content, 0 ≤ size.toInt ∧ content.length = padded size.toInt.toNat ∧
      bytes = encodeWord size ++ content
  | 'd' | 'h' | 't' => bytes.length = 8
  | _ => False

/-- Bytes that begin with what the arguments of these tags take up. -/
def Covers : Bytes → Bytes → Prop
  | [], _ => True
  | tag :: tags, bytes => ∃ taken rest, bytes = taken ++ rest ∧ Takes tag taken ∧ Covers tags rest

/-- An address, and, if a comma follows it, tags with what their arguments take up. -/
def ReadsAsMessage (data : Bytes) : Prop :=
  ∃ address bytes rest, data = bytes ++ rest ∧ Spells address bytes ∧
    address.head? = some (UInt8.ofNat '/'.toNat) ∧
    (rest.head? = some (UInt8.ofNat ','.toNat) → ∃ tags bytes' payload,
      rest = bytes' ++ payload ∧ Spells tags bytes' ∧ Covers tags.tail payload)

/-- Something in the bytes is taken for a message: they are, or an element is that no element of no
bytes stands before. -/
inductive Heard : Bytes → Prop
  | message {data : Bytes} (h : ReadsAsMessage data) : Heard data
  | element {mark : Bytes} {before : List Bytes} {content : Bytes} (after : Bytes)
      (hmark : ascii "#bundle" <+: mark) (hlength : mark.length = 16) (hbefore : [] ∉ before)
      (hcontent : Heard content) :
      Heard (mark ++ (before.flatMap element ++ (element content ++ after)))

section Readers

variable {data : Bytes} {offset offset' : ℕ}

/-- A text is read from bytes that spell it. -/
theorem readString_eq_some {text : Bytes} : readString data offset = some (text, offset') ↔
    ∃ bytes rest, data.drop offset = bytes ++ rest ∧ Spells text bytes ∧
      offset' = offset + bytes.length := by
  constructor
  · intro h
    obtain ⟨hoffset, hle⟩ := readString_le h
    have htext := readString_eq h
    have hmore : text.length ≠ (data.drop offset).length := by
      unfold readString at h
      split at h
      · cases h
      · dsimp only at h
        split at h
        · cases h
        · next hne =>
          rw [List.length_drop, htext]
          exact hne
    obtain ⟨padding, hpadding⟩ : ∃ padding, data.drop offset = text ++ 0 :: padding := by
      have hsplit := List.takeWhile_append_dropWhile (p := (· ≠ (0 : UInt8))) (l := data.drop offset)
      rw [← htext] at hsplit
      cases hdrop : (data.drop offset).dropWhile (· ≠ (0 : UInt8)) with
      | nil =>
        rw [hdrop, List.append_nil] at hsplit
        exact absurd (congrArg List.length hsplit) hmore
      | cons b padding =>
        have hzero := List.head?_dropWhile_not (fun b : UInt8 ↦ decide (b ≠ 0)) (data.drop offset)
        rw [hdrop] at hsplit hzero
        have hb : b = 0 := by simpa using hzero
        exact ⟨padding, by rw [← hsplit, hb]⟩
    have hlen : (data.drop offset).length = data.length - offset := List.length_drop
    have hmoved : text.length < padded text.length := by
      rw [padded]
      omega
    refine ⟨(data.drop offset).take (padded text.length), (data.drop offset).drop (padded text.length),
      (List.take_append_drop _ _).symm, ⟨?_, ?_, ?_⟩, ?_⟩
    · rw [htext]
      intro hmem
      simpa using List.mem_takeWhile_imp hmem
    · rw [List.length_take]
      omega
    · obtain ⟨n, hn⟩ := Nat.exists_eq_add_of_lt hmoved
      refine ⟨padding.take n, ?_⟩
      rw [hpadding, hn, List.take_append, Nat.add_assoc, Nat.add_sub_cancel_left, List.take_succ_cons,
        List.take_of_length_le (Nat.le_add_right _ _)]
    · rw [List.length_take]
      omega
  · rintro ⟨bytes, rest, hdrop, ⟨hzero, hlength, padding, rfl⟩, rfl⟩
    have htake : (data.drop offset).takeWhile (· ≠ 0) = text := by
      rw [hdrop, List.append_assoc, List.takeWhile_append_of_pos, List.cons_append,
        List.takeWhile_cons_of_neg (by decide), List.append_nil]
      exact fun c hc ↦ decide_eq_true fun h ↦ hzero (h ▸ hc)
    have hlong := congrArg List.length hdrop
    rw [List.length_drop, List.length_append, hlength] at hlong
    have hmoved : text.length < padded text.length := by
      rw [padded]
      omega
    rw [readString, if_neg (by omega), htake]
    dsimp only
    rw [if_neg (by omega), if_pos (by omega), hlength]

/-- Four bytes are the number they are read as. -/
theorem encodeWord_ntohl (a b c d : UInt8) : encodeWord (ntohl a b c d) = [a, b, c, d] := by
  have ha := a.toNat_lt
  have hb := b.toNat_lt
  have hc := c.toNat_lt
  have hd := d.toNat_lt
  have hword : (ntohl a b c d).toNat =
      ((a.toNat * 256 + b.toNat) * 256 + c.toNat) * 256 + d.toNat := by
    rw [ntohl, BitVec.toNat_ofNat]
    omega
  have hbyte {n : ℕ} {x : UInt8} (h : n = x.toNat) : UInt8.ofNat n = x := by
    rw [h, UInt8.ofNat_toNat]
  rw [encodeWord, hword, hbyte (x := a) (by omega), hbyte (x := b) (by omega),
    hbyte (x := c) (by omega), hbyte (x := d) (by omega)]

/-- A number is read from its bytes. -/
theorem readInt32_eq_some {word : BitVec 32} : readInt32 data offset = some (word, offset') ↔
    ∃ rest, data.drop offset = encodeWord word ++ rest ∧ offset' = offset + 4 := by
  constructor
  · intro h
    obtain ⟨⟨a, b, c, d, rest, hdrop, rfl⟩, hoffset, -⟩ := readInt32_eq h
    exact ⟨rest, by rw [hdrop, encodeWord_ntohl]; rfl, hoffset⟩
  · rintro ⟨rest, hdrop, rfl⟩
    have hlong := congrArg List.length hdrop
    rw [List.length_drop, List.length_append, length_encodeWord] at hlong
    rw [readInt32, if_neg (by omega), hdrop]
    exact congrArg (fun word ↦ some (word, offset + 4)) (ntohl_encodeWord word)

/-- Bytes are passed over if there are so many. -/
theorem skipTo_eq_some_iff {n : ℕ} (hoffset : offset ≤ data.length) :
    skipTo data (offset + n) = some offset' ↔
      ∃ bytes rest, data.drop offset = bytes ++ rest ∧ bytes.length = n ∧ offset' = offset + n := by
  rw [skipTo_eq_some]
  constructor
  · rintro ⟨hle, rfl⟩
    refine ⟨_, _, (List.take_append_drop n _).symm, ?_, rfl⟩
    rw [List.length_take, List.length_drop]
    omega
  · rintro ⟨bytes, rest, hdrop, rfl, rfl⟩
    have hlong := congrArg List.length hdrop
    rw [List.length_drop, List.length_append] at hlong
    exact ⟨by omega, rfl⟩

end Readers

section Messages

variable {data : Bytes} {offset offset' : ℕ}

/-- An argument is read exactly from bytes that its tag takes. -/
theorem readArgument_eq_some (tag : UInt8) (message : Message) (hoffset : offset ≤ data.length) :
    (∃ message', readArgument data tag offset message = some (offset', message')) ↔
      ∃ bytes rest, data.drop offset = bytes ++ rest ∧ Takes tag bytes ∧
        offset' = offset + bytes.length := by
  -- What is read is put into the message, wherever it goes there.
  have hput {β : Type} {read : Option (β × ℕ)} {put : β × ℕ → ℕ × Message}
      (hfirst : ∀ x, (put x).1 = x.2) :
      (∃ message', read.map put = some (offset', message')) ↔
        ∃ value, read = some (value, offset') := by
    constructor
    · rintro ⟨message', hmap⟩
      obtain ⟨⟨value, offset⟩, hread, hx⟩ := Option.map_eq_some_iff.mp hmap
      have heq : offset = offset' := (hfirst (value, offset)).symm.trans (congrArg Prod.fst hx)
      exact ⟨value, by rw [hread, heq]⟩
    · rintro ⟨value, hread⟩
      refine ⟨(put (value, offset')).2, ?_⟩
      rw [hread, Option.map_some]
      exact congrArg some (Prod.ext (hfirst _) rfl)
  have hskip {n : ℕ} :
      (∃ message', ((skipTo data (offset + n)).map fun offset ↦ (offset, message)) =
          some (offset', message')) ↔
        ∃ bytes rest, data.drop offset = bytes ++ rest ∧ bytes.length = n ∧
          offset' = offset + bytes.length := by
    have hmap : (∃ message', ((skipTo data (offset + n)).map fun offset ↦ (offset, message)) =
        some (offset', message')) ↔ skipTo data (offset + n) = some offset' := by
      cases skipTo data (offset + n) <;> simp
    rw [hmap, skipTo_eq_some_iff hoffset]
    constructor
    · rintro ⟨bytes, rest, hdrop, rfl, rfl⟩
      exact ⟨bytes, rest, hdrop, rfl, rfl⟩
    · rintro ⟨bytes, rest, hdrop, rfl, rfl⟩
      exact ⟨bytes, rest, hdrop, rfl, rfl⟩
  have hword : (∃ value, readInt32 data offset = some (value, offset')) ↔
      ∃ bytes rest, data.drop offset = bytes ++ rest ∧ bytes.length = 4 ∧
        offset' = offset + bytes.length := by
    constructor
    · rintro ⟨value, hread⟩
      obtain ⟨rest, hdrop, rfl⟩ := readInt32_eq_some.mp hread
      exact ⟨encodeWord value, rest, hdrop, rfl, rfl⟩
    · rintro ⟨bytes, rest, hdrop, hlength, rfl⟩
      match bytes, hlength with
      | [a, b, c, d], _ =>
        exact ⟨ntohl a b c d, readInt32_eq_some.mpr ⟨rest, by rwa [encodeWord_ntohl], rfl⟩⟩
  have htext : (∃ value, readString data offset = some (value, offset')) ↔
      ∃ bytes rest, data.drop offset = bytes ++ rest ∧ (∃ text, Spells text bytes) ∧
        offset' = offset + bytes.length := by
    constructor
    · rintro ⟨text, hread⟩
      obtain ⟨bytes, rest, hdrop, hspells, rfl⟩ := readString_eq_some.mp hread
      exact ⟨bytes, rest, hdrop, ⟨text, hspells⟩, rfl⟩
    · rintro ⟨bytes, rest, hdrop, ⟨text, hspells⟩, rfl⟩
      exact ⟨text, readString_eq_some.mpr ⟨bytes, rest, hdrop, hspells, rfl⟩⟩
  have hbare {message' : Message} : (∃ m, some (offset, message') = some (offset', m)) ↔
      ∃ bytes rest, data.drop offset = bytes ++ rest ∧ bytes = [] ∧
        offset' = offset + bytes.length := by
    constructor
    · rintro ⟨m, hm⟩
      cases hm
      exact ⟨[], _, rfl, rfl, rfl⟩
    · rintro ⟨bytes, rest, -, rfl, rfl⟩
      exact ⟨_, rfl⟩
  unfold readArgument Takes
  generalize Char.ofNat tag.toNat = c
  split
  case h_1 | h_2 => exact (hput fun _ ↦ rfl).trans hword
  case h_3 | h_4 => exact (hput fun _ ↦ rfl).trans htext
  case h_5 | h_6 | h_7 | h_8 => exact hbare
  case h_9 =>
    constructor
    · rintro ⟨message', hread⟩
      obtain ⟨⟨size, offset₁⟩, hsize, hread⟩ := Option.bind_eq_some_iff.mp hread
      dsimp only at hread
      split at hread
      · cases hread
      · next hpos =>
        obtain ⟨rest, hdrop, rfl⟩ := readInt32_eq_some.mp hsize
        have hlong := congrArg List.length hdrop
        rw [List.length_drop, List.length_append, length_encodeWord] at hlong
        obtain ⟨offset₂, hskip, hx⟩ := Option.map_eq_some_iff.mp hread
        cases hx
        obtain ⟨content, rest', hdrop', hlength, rfl⟩ :=
          (skipTo_eq_some_iff (by omega)).mp hskip
        have hrest : rest = content ++ rest' := by
          rw [← hdrop', ← List.drop_drop, hdrop]
          rfl
        refine ⟨encodeWord size ++ content, rest', by rw [hdrop, hrest, List.append_assoc],
          ⟨size, content, by omega, hlength, rfl⟩, ?_⟩
        rw [List.length_append, length_encodeWord, hlength, Nat.add_assoc]
    · rintro ⟨bytes, rest, hdrop, ⟨size, content, hpos, hlength, rfl⟩, rfl⟩
      rw [List.append_assoc] at hdrop
      have hlong := congrArg List.length hdrop
      rw [List.length_drop, List.length_append, length_encodeWord] at hlong
      have hskip : skipTo data (offset + 4 + padded size.toInt.toNat) =
          some (offset + 4 + padded size.toInt.toNat) := by
        refine (skipTo_eq_some_iff (by omega)).mpr ⟨content, rest, ?_, hlength, rfl⟩
        rw [← List.drop_drop, hdrop]
        rfl
      refine ⟨message, ?_⟩
      rw [readInt32_eq_some.mpr ⟨_, hdrop, rfl⟩, Option.bind_some]
      dsimp only
      rw [if_neg (by omega), hskip, List.length_append, length_encodeWord, hlength, Nat.add_assoc]
      rfl
  case h_10 | h_11 | h_12 => exact hskip
  case h_13 =>
    constructor
    · rintro ⟨message', hread⟩
      cases hread
    · rintro ⟨bytes, rest, -, hfalse, -⟩
      simp only [*] at hfalse

/-- Arguments are read exactly from bytes that begin with what their tags take. -/
theorem isSome_readArguments (tags : Bytes) (message : Message) (hoffset : offset ≤ data.length) :
    (readArguments data tags offset message).isSome ↔ Covers tags (data.drop offset) := by
  induction tags generalizing offset message with
  | nil => exact ⟨fun _ ↦ trivial, fun _ ↦ rfl⟩
  | cons tag tags ih =>
    rw [Covers, readArguments, Option.isSome_bind]
    constructor
    · intro hread
      obtain ⟨⟨offset', message'⟩, harg, hrest⟩ := Option.any_eq_true _ _ |>.mp hread
      obtain ⟨bytes, rest, hdrop, htakes, rfl⟩ :=
        (readArgument_eq_some tag message hoffset).mp ⟨message', harg⟩
      have hlong := congrArg List.length hdrop
      rw [List.length_drop, List.length_append] at hlong
      have hcovers := (ih message' (by omega)).mp hrest
      rw [← List.drop_drop, hdrop, List.drop_left] at hcovers
      exact ⟨bytes, rest, hdrop, htakes, hcovers⟩
    · rintro ⟨bytes, rest, hdrop, htakes, hcovers⟩
      obtain ⟨message', harg⟩ :=
        (readArgument_eq_some tag message hoffset).mpr ⟨bytes, rest, hdrop, htakes, rfl⟩
      have hlong := congrArg List.length hdrop
      rw [List.length_drop, List.length_append] at hlong
      rw [harg, Option.any_some]
      apply (ih message' (by omega)).mpr
      rw [← List.drop_drop, hdrop, List.drop_left]
      exact hcovers

/-- Bytes are decoded as a message exactly if they read as one. -/
theorem isSome_decodeMessage : (decodeMessage data).isSome ↔ ReadsAsMessage data := by
  have hcomma (bytes rest : Bytes) (h : data = bytes ++ rest) :
      data[bytes.length]? = some (UInt8.ofNat ','.toNat) ↔
        rest.head? = some (UInt8.ofNat ','.toNat) := by
    rw [h, List.getElem?_append_right (Nat.le_refl _), Nat.sub_self, List.head?_eq_getElem?]
  rw [decodeMessage, Option.isSome_bind]
  constructor
  · intro hread
    obtain ⟨⟨address, offset⟩, haddress, hread⟩ := Option.any_eq_true _ _ |>.mp hread
    obtain ⟨bytes, rest, hdata, hspells, hoffset⟩ := readString_eq_some.mp haddress
    rw [List.drop_zero] at hdata
    rw [Nat.zero_add] at hoffset
    subst hoffset
    dsimp only at hread
    split at hread
    · cases hread
    · next hslash =>
      refine ⟨address, bytes, rest, hdata, hspells, not_not.mp hslash, fun hhead ↦ ?_⟩
      rw [if_pos ((hcomma bytes rest hdata).mpr hhead), Option.isSome_bind] at hread
      obtain ⟨⟨tags, offset'⟩, htags, hread⟩ := Option.any_eq_true _ _ |>.mp hread
      obtain ⟨bytes', payload, hdrop, hspells', rfl⟩ := readString_eq_some.mp htags
      have hlong := congrArg List.length hdrop
      have hrest : rest = bytes' ++ payload := by
        rw [← hdrop, hdata, List.drop_left]
      have hcovers := (isSome_readArguments _ _ (by
        rw [hdata, hrest]
        simp only [List.length_append]
        omega)).mp hread
      rw [← List.drop_drop, hdrop, List.drop_left] at hcovers
      exact ⟨tags, bytes', payload, hrest, hspells', hcovers⟩
  · rintro ⟨address, bytes, rest, hdata, hspells, hslash, htags⟩
    have haddress : readString data 0 = some (address, bytes.length) :=
      readString_eq_some.mpr ⟨bytes, rest, hdata, hspells, (Nat.zero_add _).symm⟩
    rw [haddress, Option.any_some]
    dsimp only
    rw [if_neg (not_not.mpr hslash)]
    split
    · next hhead =>
      obtain ⟨tags, bytes', payload, hrest, hspells', hcovers⟩ :=
        htags ((hcomma bytes rest hdata).mp hhead)
      have hdrop : data.drop bytes.length = bytes' ++ payload := by
        rw [hdata, List.drop_left, hrest]
      have hread : readString data bytes.length = some (tags, bytes.length + bytes'.length) :=
        readString_eq_some.mpr ⟨bytes', payload, hdrop, hspells', rfl⟩
      rw [hread, Option.bind_some]
      apply (isSome_readArguments _ _ (by
        rw [hdata, hrest]
        simp only [List.length_append]
        omega)).mpr
      rw [← List.drop_drop, hdrop, List.drop_left]
      exact hcovers
    · rfl

end Messages

section Depth

/-- Depths greater than what is left are as good as one another. -/
private theorem decode_depth (depth : ℕ) :
    (∀ depth' data, data.length < depth → data.length < depth' →
      decodePacketTo depth data = decodePacketTo depth' data) ∧
    ∀ depth' data offset, data.length - offset < depth → data.length - offset < depth' →
      decodeBundleTo depth data offset = decodeBundleTo depth' data offset := by
  induction depth with
  | zero => exact ⟨fun _ _ h ↦ absurd h (Nat.not_lt_zero _), fun _ _ _ h ↦ absurd h (Nat.not_lt_zero _)⟩
  | succ depth ih =>
    obtain ⟨hpacket, hbundle⟩ := ih
    constructor
    · intro depth' data h h'
      cases depth' with
      | zero => exact absurd h' (Nat.not_lt_zero _)
      | succ depth' =>
        rw [decodePacketTo, decodePacketTo]
        by_cases hshort : data.length < 4
        · rw [if_pos hshort, if_pos hshort]
        · rw [if_neg hshort, if_neg hshort, hbundle depth' data 16 (by omega) (by omega)]
    · intro depth' data offset h h'
      cases depth' with
      | zero => exact absurd h' (Nat.not_lt_zero _)
      | succ depth' =>
        rw [decodeBundleTo, decodeBundleTo]
        split
        · next hfits =>
          cases hread : readInt32 data offset with
          | none => rfl
          | some read =>
            obtain ⟨size, offset'⟩ := read
            obtain ⟨-, hoffset, hle⟩ := readInt32_eq hread
            dsimp only
            split
            · rfl
            · have hslice : ((data.drop offset').take size.toInt.toNat).length ≤
                  data.length - offset' := by
                rw [List.length_take, List.length_drop]
                exact Nat.min_le_right _ _
              rw [hpacket depth' _ (by omega) (by omega),
                hbundle depth' data (offset' + size.toInt.toNat) (by omega) (by omega)]
        · rfl

/-- A depth greater than the length of a packet is no limit. -/
theorem decodePacketTo_eq {data : Bytes} {depth : ℕ} (h : data.length < depth) :
    decodePacketTo depth data = decodePacket data :=
  (decode_depth depth).1 _ data h (Nat.lt_succ_self _)

end Depth

section Elements

/-- What the packets of a bundle are decoded into: those up to one of no bytes. -/
def calls : List Bytes → List Message
  | [] => []
  | content :: elements => if content = [] then [] else decodePacket content ++ calls elements

variable {data : Bytes}

/-- Bytes are elements, one after another, and what is left. -/
theorem exists_elements (bytes : Bytes) (hsize : bytes.length < 2 ^ 31) :
    ∃ (elements : List Bytes) (tail : Bytes),
      bytes = elements.flatMap element ++ tail ∧ NoElement tail := by
  induction hn : bytes.length using Nat.strongRecOn generalizing bytes with
  | ind n ih =>
    by_cases hno : NoElement bytes
    · exact ⟨[], bytes, rfl, hno⟩
    · unfold NoElement at hno
      push Not at hno
      obtain ⟨size, rest, rfl, hpos, hle⟩ := hno
      rw [List.length_append, length_encodeWord] at hn hsize
      have hsize' : BitVec.ofNat 32 size.toInt.toNat = size := by
        apply BitVec.eq_of_toInt_eq
        rw [toInt_ofNat (by omega)]
        omega
      have hlength : (rest.take size.toInt.toNat).length = size.toInt.toNat := by
        rw [List.length_take]
        omega
      have hrest : (rest.drop size.toInt.toNat).length = rest.length - size.toInt.toNat :=
        List.length_drop
      obtain ⟨elements, tail, hmore, hno⟩ :=
        ih _ (by omega) (rest.drop size.toInt.toNat) (by omega) rfl
      refine ⟨rest.take size.toInt.toNat :: elements, tail, ?_, hno⟩
      rw [List.flatMap_cons, element, hlength, hsize', List.append_assoc, List.append_assoc, ← hmore,
        List.take_append_drop]

/-- The loop over the packets of a bundle takes one after another. -/
theorem decodeBundleTo_elements (elements : List Bytes) {tail : Bytes} (hno : NoElement tail)
    (before : Bytes) (hsize : (before ++ (elements.flatMap element ++ tail)).length < 2 ^ 31)
    (depth : ℕ) (hdepth : (elements.flatMap element ++ tail).length < depth) :
    decodeBundleTo depth (before ++ (elements.flatMap element ++ tail)) before.length =
      calls elements := by
  induction elements generalizing before depth with
  | nil =>
    cases depth with
    | zero => exact absurd hdepth (Nat.not_lt_zero _)
    | succ depth =>
      rw [List.flatMap_nil, List.nil_append, decodeBundleTo, calls]
      split
      · cases hread : readInt32 (before ++ tail) before.length with
        | none => rfl
        | some read =>
          obtain ⟨size, offset⟩ := read
          obtain ⟨rest, hdrop, rfl⟩ := readInt32_eq_some.mp hread
          rw [List.drop_left] at hdrop
          dsimp only
          rw [if_pos]
          rw [Bool.or_eq_true, decide_eq_true_eq, decide_eq_true_eq, hdrop]
          simp only [List.length_append, length_encodeWord]
          rcases hno size rest hdrop with hneg | hlong
          · exact .inl (by omega)
          · exact .inr (by omega)
      · rfl
  | cons content elements ih =>
    cases depth with
    | zero => exact absurd hdepth (Nat.not_lt_zero _)
    | succ depth =>
      have hsplit : (content :: elements).flatMap element ++ tail =
          encodeWord (.ofNat 32 content.length) ++
            (content ++ (elements.flatMap element ++ tail)) := by
        rw [List.flatMap_cons, element, List.append_assoc, List.append_assoc]
      rw [hsplit] at hsize hdepth ⊢
      simp only [List.length_append, length_encodeWord] at hsize hdepth
      have hread : readInt32 (before ++ (encodeWord (.ofNat 32 content.length) ++
          (content ++ (elements.flatMap element ++ tail)))) before.length =
            some (.ofNat 32 content.length, before.length + 4) := readInt32_append _ _ _
      have hsize' : (BitVec.ofNat 32 content.length).toInt = content.length :=
        toInt_ofNat (by omega)
      have hfits : before.length + 4 ≤ (before ++ (encodeWord (.ofNat 32 content.length) ++
          (content ++ (elements.flatMap element ++ tail)))).length := by
        simp only [List.length_append, length_encodeWord]
        omega
      rw [decodeBundleTo, if_pos hfits, hread, calls]
      dsimp only
      rw [hsize', Int.toNat_natCast]
      by_cases hempty : content = []
      · subst hempty
        rfl
      · have hpos := List.length_pos_iff.mpr hempty
        have hnext : before ++ (encodeWord (.ofNat 32 content.length) ++
            (content ++ (elements.flatMap element ++ tail))) =
              (before ++ element content) ++ (elements.flatMap element ++ tail) := by
          rw [element]
          simp only [List.append_assoc]
        have hlen : (before ++ element content).length = before.length + 4 + content.length := by
          rw [element]
          simp only [List.length_append, length_encodeWord]
          omega
        have hslice : ((before ++ (encodeWord (.ofNat 32 content.length) ++
            (content ++ (elements.flatMap element ++ tail)))).drop (before.length + 4)).take
              content.length = content := by
          rw [← List.drop_drop, List.drop_left]
          exact List.take_left
        have hmore := ih (before ++ element content) (by
          simp only [List.length_append, hlen]
          omega) depth (by
          simp only [List.length_append]
          omega)
        rw [if_neg, if_neg hempty, hslice, decodePacketTo_eq (by omega), hnext, ← hlen, hmore]
        rw [Bool.or_eq_true, decide_eq_true_eq, decide_eq_true_eq]
        simp only [List.length_append, length_encodeWord]
        omega

/-- A bundle is decoded by its elements. -/
theorem decodePacket_elements {mark : Bytes} (elements : List Bytes) {tail : Bytes}
    (hmark : ascii "#bundle" <+: mark) (hlength : mark.length = 16) (hno : NoElement tail)
    (hsize : (mark ++ (elements.flatMap element ++ tail)).length < 2 ^ 31) :
    decodePacket (mark ++ (elements.flatMap element ++ tail)) = calls elements := by
  have hlong : (mark ++ (elements.flatMap element ++ tail)).length =
      16 + (elements.flatMap element ++ tail).length := by rw [List.length_append, hlength]
  have htake : (mark ++ (elements.flatMap element ++ tail)).take 7 = ascii "#bundle" := by
    obtain ⟨rest, rfl⟩ := hmark
    rfl
  rw [decodePacket, decodePacketTo, if_neg (by omega), if_pos (by rw [htake, hlong]; simp; omega)]
  have hloop := decodeBundleTo_elements elements hno mark hsize
    (mark ++ (elements.flatMap element ++ tail)).length (by omega)
  rwa [hlength] at hloop

/-- Something is called for a list of packets exactly if something is for one of them that no
packet of no bytes stands before. -/
theorem calls_ne_nil (elements : List Bytes) : calls elements ≠ [] ↔
    ∃ before content after, elements = before ++ content :: after ∧ [] ∉ before ∧
      decodePacket content ≠ [] := by
  induction elements with
  | nil => simp [calls]
  | cons content elements ih =>
    have hnone : decodePacket [] = [] := rfl
    constructor
    · intro h
      rw [calls] at h
      split at h
      · exact absurd rfl h
      · next hne =>
        by_cases hfirst : decodePacket content = []
        · rw [hfirst, List.nil_append] at h
          obtain ⟨before, content', after, rfl, hbefore, hcontent⟩ := ih.mp h
          refine ⟨content :: before, content', after, rfl, ?_, hcontent⟩
          rw [List.mem_cons, not_or]
          exact ⟨Ne.symm hne, hbefore⟩
        · exact ⟨[], content, elements, rfl, List.not_mem_nil, hfirst⟩
    · rintro ⟨before, content', after, heq, hbefore, hcontent⟩
      cases before with
      | nil =>
        cases heq
        rw [calls, if_neg (fun hempty ↦ hcontent (by rw [hempty, hnone]))]
        exact fun happend ↦ hcontent (List.append_eq_nil_iff.mp happend).1
      | cons first before =>
        cases heq
        rw [List.mem_cons, not_or] at hbefore
        rw [calls, if_neg (Ne.symm hbefore.1)]
        intro happend
        exact ih.mpr ⟨before, content', after, rfl, hbefore.2, hcontent⟩
          (List.append_eq_nil_iff.mp happend).2

/-- Bytes that begin neither with an address nor as a bundle. -/
theorem decodePacket_of_not_bundle (hmark : ¬ ascii "#bundle" <+: data) :
    decodePacket data ≠ [] ↔ ReadsAsMessage data := by
  have htake : data.take 7 ≠ ascii "#bundle" := fun h ↦ hmark (h ▸ List.take_prefix 7 data)
  rw [decodePacket, decodePacketTo, decide_eq_false htake, Bool.and_false]
  split
  · next hshort =>
    refine iff_of_false (not_not.mpr rfl) ?_
    rintro ⟨address, bytes, rest, rfl, ⟨-, hlength, -⟩, -⟩
    rw [List.length_append, hlength, padded] at hshort
    omega
  · rw [← isSome_decodeMessage]
    cases decodeMessage data <;> simp

/-- Bytes that read as a message do not begin as a bundle. -/
theorem ReadsAsMessage.not_bundle (h : ReadsAsMessage data) : ¬ ascii "#bundle" <+: data := by
  obtain ⟨address, bytes, rest, rfl, ⟨-, -, padding, rfl⟩, hslash, -⟩ := h
  rintro ⟨more, hmore⟩
  have hhead := congrArg List.head? hmore
  rw [List.append_assoc, List.head?_append, List.head?_append, hslash] at hhead
  exact absurd (Option.some.inj hhead) (by decide)

/-- The handler is called for bytes exactly if something in them is taken for a message. -/
theorem decodePacket_ne_nil (hsize : data.length < 2 ^ 31) :
    decodePacket data ≠ [] ↔ Heard data := by
  constructor
  · induction hn : data.length using Nat.strongRecOn generalizing data with
    | ind n ih =>
      intro h
      by_cases hmark : ascii "#bundle" <+: data
      · by_cases hlong : data.length < 16
        · -- Not even the timetag is whole.
          exfalso
          apply h
          have hloop : decodeBundleTo data.length data 16 = [] := by
            cases data.length with
            | zero => rfl
            | succ depth => rw [decodeBundleTo, if_neg (by omega)]
          have hnone : decodeMessage data = none := by
            rw [← Option.not_isSome_iff_eq_none, isSome_decodeMessage]
            exact fun hreads ↦ hreads.not_bundle hmark
          rw [decodePacket, decodePacketTo, hloop, hnone, Option.toList_none, ite_self, ite_self]
        · obtain ⟨elements, tail, hdrop, hno⟩ := exists_elements (data.drop 16) (by
            rw [List.length_drop]
            omega)
          have hdata : data = data.take 16 ++ (elements.flatMap element ++ tail) := by
            rw [← hdrop, List.take_append_drop]
          have hlength : (data.take 16).length = 16 := by
            rw [List.length_take]
            omega
          have hmark' : ascii "#bundle" <+: data.take 16 :=
            List.prefix_take_iff.mpr ⟨hmark, by decide⟩
          rw [hdata, decodePacket_elements elements hmark' hlength hno (by rwa [← hdata])] at h
          obtain ⟨before, content, after, rfl, hbefore, hcontent⟩ := (calls_ne_nil _).mp h
          have hshort : content.length < data.length := by
            rw [hdata]
            simp only [List.flatMap_append, List.flatMap_cons, List.length_append, element]
            omega
          have hheard := ih _ (by omega) (by omega) rfl hcontent
          rw [hdata]
          simp only [List.flatMap_append, List.flatMap_cons, List.append_assoc]
          exact .element _ hmark' hlength hbefore hheard
      · exact .message ((decodePacket_of_not_bundle hmark).mp h)
  · intro h
    induction h with
    | message h => exact (decodePacket_of_not_bundle h.not_bundle).mpr h
    | @element mark before content after hmark hlength hbefore hcontent ih =>
      have hsize' := hsize
      simp only [List.length_append, element] at hsize'
      obtain ⟨elements, tail, rfl, hno⟩ := exists_elements after (by omega)
      have hsplit : before.flatMap element ++ (element content ++ (elements.flatMap element ++ tail)) =
          (before ++ content :: elements).flatMap element ++ tail := by
        simp only [List.flatMap_append, List.flatMap_cons, List.append_assoc]
      rw [hsplit] at hsize ⊢
      rw [decodePacket_elements _ hmark hlength hno hsize]
      exact (calls_ne_nil _).mpr ⟨before, content, elements, rfl, hbefore, ih (by omega)⟩

end Elements
end WebLinked.Control.Osc
