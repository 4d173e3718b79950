import Mathlib
import WebLinked.Control.OscServer

/-!
# Messages are decoded as they were sent, but for blobs

A blob is skipped as if it ended in a zero, as a string does. So one whose length is no multiple of
four is skipped right, and after any other the arguments are looked for where they are not.
-/

namespace WebLinked.Control.Osc

section Numbers

/-- The length of a string with what ends it is what `padded` says. -/
theorem length_encodeString (text : Bytes) : (encodeString text).length = padded text.length := by
  rw [encodeString, padded, List.length_append, List.length_replicate]
  omega

/-- That of a blob is, unless it is a multiple of four. -/
theorem length_encodeBlob (content : Bytes) : (encodeBlob content).length =
    if content.length % 4 = 0 then 4 + content.length else 4 + padded content.length := by
  rw [encodeBlob, padded, List.length_append, List.length_append, List.length_replicate]
  change 4 + content.length + _ = _
  split <;> omega

/-- Either way it is a multiple of four. -/
theorem length_encodeBlob_mod (content : Bytes) : (encodeBlob content).length % 4 = 0 := by
  have hlen := length_encodeBlob content
  rw [padded] at hlen
  split at hlen <;> omega

@[simp] theorem length_encodeWord (word : BitVec 32) : (encodeWord word).length = 4 := rfl

/-- A number is read as it was written. -/
theorem ntohl_encodeWord (word : BitVec 32) :
    ntohl (.ofNat (word.toNat / 2 ^ 24)) (.ofNat (word.toNat / 2 ^ 16 % 256))
      (.ofNat (word.toNat / 2 ^ 8 % 256)) (.ofNat (word.toNat % 256)) = word := by
  have hlt := word.isLt
  apply BitVec.eq_of_toNat_eq
  rw [ntohl, BitVec.toNat_ofNat]
  simp only [UInt8.toNat_ofNat']
  omega

/-- A length that fits is not negative. -/
theorem toInt_ofNat {n : ℕ} (h : n < 2 ^ 31) : (BitVec.ofNat 32 n).toInt = n := by
  rw [BitVec.toInt_eq_toNat_cond, BitVec.toNat_ofNat]
  split <;> omega

/-- A number is negative if its first byte is the highest. -/
theorem toInt_ntohl_neg (b c d : UInt8) : (ntohl 255 b c d).toInt < 0 := by
  have hb := b.toNat_lt
  have hc := c.toNat_lt
  have hd := d.toNat_lt
  have h255 : (255 : UInt8).toNat = 255 := rfl
  rw [ntohl, BitVec.toInt_eq_toNat_cond, BitVec.toNat_ofNat, h255]
  split <;> omega

end Numbers

section Reading

variable {before after data : Bytes} {offset : ℕ}

/-- A number is read from where it stands. -/
theorem readInt32_append (before after : Bytes) (word : BitVec 32) :
    readInt32 (before ++ (encodeWord word ++ after)) before.length =
      some (word, before.length + 4) := by
  have hlong : ¬ (before ++ (encodeWord word ++ after)).length < before.length + 4 := by
    rw [List.length_append, List.length_append, length_encodeWord]
    omega
  rw [readInt32, if_neg hlong, List.drop_left]
  exact congrArg (fun word ↦ some (word, before.length + 4)) (ntohl_encodeWord word)

/-- A string is read from where it stands. -/
theorem readString_append (before after : Bytes) {text : Bytes} (htext : 0 ∉ text) :
    readString (before ++ (encodeString text ++ after)) before.length =
      some (text, before.length + (encodeString text).length) := by
  have hlen := length_encodeString text
  obtain ⟨zeros, hzeros⟩ : ∃ zeros, encodeString text = text ++ 0 :: zeros := by
    obtain ⟨n, hn⟩ : ∃ n, 4 - text.length % 4 = n + 1 := ⟨3 - text.length % 4, by omega⟩
    exact ⟨List.replicate n 0, by rw [encodeString, hn, List.replicate_succ]⟩
  have htake : ((encodeString text ++ after).takeWhile (· ≠ 0)) = text := by
    rw [hzeros, List.append_assoc, List.takeWhile_append_of_pos, List.cons_append,
      List.takeWhile_cons_of_neg (by decide), List.append_nil]
    exact fun c hc ↦ decide_eq_true fun h ↦ htext (h ▸ hc)
  have hlonger : text.length < (encodeString text).length := by
    rw [hzeros, List.length_append, List.length_cons]
    omega
  rw [readString, List.drop_left, htake, List.length_append, List.length_append]
  rw [if_neg (by omega), if_neg (by omega), if_pos (by omega), hlen]

/-- The size of a blob is read from where it stands. -/
theorem readInt32_encodeBlob (before content after : Bytes) :
    readInt32 (before ++ (encodeBlob content ++ after)) before.length =
      some (.ofNat 32 content.length, before.length + 4) := by
  rw [encodeBlob, List.append_assoc, List.append_assoc]
  exact readInt32_append before _ _

/-- What is skipped right is skipped. -/
theorem skipTo_map (before skipped after : Bytes) (message : Message) :
    (skipTo (before ++ (skipped ++ after)) (before.length + skipped.length)).map
        (fun offset ↦ (offset, message)) =
      some (before.length + skipped.length, message) := by
  rw [skipTo, if_neg]
  · rfl
  · rw [List.length_append, List.length_append]
    omega

/-- What is read of a string goes to the first zero. -/
theorem readString_eq {text : Bytes} {offset' : ℕ} (h : readString data offset = some (text, offset')) :
    text = (data.drop offset).takeWhile (· ≠ 0) := by
  unfold readString at h
  split at h
  · cases h
  · dsimp only at h
    split at h
    · cases h
    · split at h
      · cases h
        rfl
      · cases h

/-- What is read of a string is within the data. -/
theorem readString_le {text : Bytes} {offset' : ℕ} (h : readString data offset = some (text, offset')) :
    offset' = offset + padded text.length ∧ offset' ≤ data.length := by
  unfold readString at h
  split at h
  · cases h
  · dsimp only at h
    split at h
    · cases h
    · split at h
      · next hle =>
        cases h
        exact ⟨rfl, hle⟩
      · cases h

/-- What is read of a number is four bytes, within the data. -/
theorem readInt32_eq {word : BitVec 32} {offset' : ℕ}
    (h : readInt32 data offset = some (word, offset')) :
    (∃ a b c d rest, data.drop offset = a :: b :: c :: d :: rest ∧ word = ntohl a b c d) ∧
      offset' = offset + 4 ∧ offset' ≤ data.length := by
  unfold readInt32 at h
  split at h
  · cases h
  · split at h
    · next hdrop =>
      cases h
      exact ⟨⟨_, _, _, _, _, hdrop, rfl⟩, rfl, by omega⟩
    · cases h

/-- What is skipped is within the data. -/
theorem skipTo_eq_some {offset' : ℕ} :
    skipTo data offset = some offset' ↔ offset ≤ data.length ∧ offset = offset' := by
  rw [skipTo]
  split
  · next h => simp [Nat.not_le.mpr h]
  · next h => simp [Nat.not_lt.mp h]

end Reading

section Arguments

variable {before after data : Bytes} {offset : ℕ} {message : Message} {a : Argument}

/-- A blob is skipped as a string of its length would be. -/
theorem readArgument_blob (before after : Bytes) (message : Message) {content : Bytes}
    (hsize : (encodeBlob content).length < 2 ^ 31) :
    readArgument (before ++ (encodeBlob content ++ after)) (UInt8.ofNat 'b'.toNat) before.length
        message =
      (skipTo (before ++ (encodeBlob content ++ after))
        (before.length + 4 + padded content.length)).map fun offset ↦ (offset, message) := by
  have hfits : content.length < 2 ^ 31 := by
    have hlen := length_encodeBlob content
    rw [padded] at hlen
    split at hlen <;> omega
  change (readInt32 (before ++ (encodeBlob content ++ after)) before.length).bind _ = _
  rw [readInt32_encodeBlob, Option.bind_some]
  dsimp only
  rw [toInt_ofNat hfits, if_neg (by omega), Int.toNat_natCast]

/-- An argument that is no blob of a multiple of four is read from where it stands. -/
theorem readArgument_append (before after : Bytes) (message : Message) (ha : a.WellFormed)
    (hodd : a.isOdd) (hsize : a.encode.length < 2 ^ 31) :
    readArgument (before ++ (a.encode ++ after)) (UInt8.ofNat a.tag.toNat) before.length message =
      some (before.length + a.encode.length, a.addTo message) := by
  cases a with
  | int value =>
    change (readInt32 (before ++ (encodeWord value ++ after)) before.length).map _ = _
    rw [readInt32_append]
    rfl
  | float bits =>
    change (readInt32 (before ++ (encodeWord bits ++ after)) before.length).map _ = _
    rw [readInt32_append]
    rfl
  | string text =>
    change (readString (before ++ (encodeString text ++ after)) before.length).map _ = _
    rw [readString_append before after ha]
    rfl
  | symbol text =>
    change (readString (before ++ (encodeString text ++ after)) before.length).map _ = _
    rw [readString_append before after ha]
    rfl
  | blob content =>
    have hodd : ¬ content.length % 4 = 0 := of_decide_eq_true hodd
    have hlen := length_encodeBlob content
    rw [if_neg hodd] at hlen
    refine (readArgument_blob before after message hsize).trans ?_
    rw [Nat.add_assoc, ← hlen]
    exact skipTo_map before (encodeBlob content) after message
  | double high low =>
    exact skipTo_map before (encodeWord high ++ encodeWord low) after message
  | long high low =>
    exact skipTo_map before (encodeWord high ++ encodeWord low) after message
  | timetag high low =>
    exact skipTo_map before (encodeWord high ++ encodeWord low) after message
  | true => rfl
  | false => rfl
  | nil => rfl
  | infinitum => rfl

/-- Arguments without such a blob are read one after another. -/
theorem readArguments_append {arguments : List Argument} (hwell : ∀ a ∈ arguments, a.WellFormed)
    (hodd : ∀ a ∈ arguments, a.isOdd)
    (hsize : (before ++ arguments.flatMap Argument.encode).length < 2 ^ 31) (message : Message) :
    readArguments (before ++ arguments.flatMap Argument.encode)
        (arguments.map fun a ↦ UInt8.ofNat a.tag.toNat) before.length message =
      some (arguments.foldl (fun message a ↦ a.addTo message) message) := by
  induction arguments generalizing before message with
  | nil => rfl
  | cons a arguments ih =>
    obtain ⟨ha, hwell⟩ := List.forall_mem_cons.mp hwell
    obtain ⟨hodd', hodds⟩ := List.forall_mem_cons.mp hodd
    rw [List.flatMap_cons] at hsize ⊢
    have hfits : a.encode.length < 2 ^ 31 := by
      rw [List.length_append, List.length_append] at hsize
      omega
    rw [List.map_cons, readArguments, readArgument_append before _ message ha hodd' hfits,
      Option.bind_some]
    dsimp only
    rw [← List.append_assoc] at hsize ⊢
    rw [← List.length_append]
    exact ih hwell hodds hsize (a.addTo message)

end Arguments

section Shifted

variable {before after data : Bytes} {offset offset' d : ℕ} {message message' result : Message}
  {a : Argument} {tag : UInt8}

/-- What is read and put into a message leaves its strings if putting it there does. -/
theorem stringArgs_map {β : Type} {read : Option β} {put : β → ℕ × Message}
    (hput : ∀ x, message.stringArgs <+: (put x).2.stringArgs)
    (h : read.map put = some (offset', message')) : message.stringArgs <+: message'.stringArgs := by
  obtain ⟨x, -, hx⟩ := Option.map_eq_some_iff.mp h
  have hsame := hput x
  rw [hx] at hsame
  exact hsame

/-- An argument adds to the strings, or leaves them. -/
theorem stringArgs_readArgument (h : readArgument data tag offset message = some (offset', message')) :
    message.stringArgs <+: message'.stringArgs := by
  have hkept {β : Type} {read : Option β} {put : β → ℕ × Message}
      (hput : ∀ x, (put x).2.stringArgs = message.stringArgs)
      (h : read.map put = some (offset', message')) :
      message.stringArgs <+: message'.stringArgs :=
    stringArgs_map (fun x ↦ hput x ▸ List.prefix_rfl) h
  unfold readArgument at h
  split at h
  case h_1 | h_2 => exact hkept (fun _ ↦ rfl) h
  case h_3 | h_4 => exact stringArgs_map (fun _ ↦ List.prefix_append message.stringArgs _) h
  case h_5 | h_6 | h_7 | h_8 =>
    cases h
    exact List.prefix_rfl
  case h_9 =>
    obtain ⟨⟨size, offset⟩, -, hx⟩ := Option.bind_eq_some_iff.mp h
    dsimp only at hx
    split at hx
    · cases hx
    · exact hkept (fun _ ↦ rfl) hx
  case h_10 | h_11 | h_12 => exact hkept (fun _ ↦ rfl) h
  case h_13 => cases h

/-- So do several. -/
theorem stringArgs_readArguments {tags : Bytes} (h : readArguments data tags offset message = some result) :
    message.stringArgs <+: result.stringArgs := by
  induction tags generalizing offset message with
  | nil =>
    cases h
    exact List.prefix_rfl
  | cons tag tags ih =>
    obtain ⟨⟨offset', message'⟩, hread, hrest⟩ := Option.bind_eq_some_iff.mp h
    exact (stringArgs_readArgument hread).trans (ih hrest)

/-- What is to be got of arguments has the strings of the first of them. -/
theorem stringArgs_foldl (arguments : List Argument) (message : Message) :
    message.stringArgs <+:
      (arguments.foldl (fun message a ↦ a.addTo message) message).stringArgs := by
  induction arguments generalizing message with
  | nil => exact List.prefix_rfl
  | cons a arguments ih =>
    refine List.IsPrefix.trans ?_ (ih (a.addTo message))
    cases a with
    | string text => exact List.prefix_append message.stringArgs _
    | symbol text => exact List.prefix_append message.stringArgs _
    | _ => exact List.prefix_rfl

/-- An argument was not where it was looked for: the reading has ended after `finish`, with the
strings that were sent, or got another string. -/
def Astray (data : Bytes) (finish offset : ℕ) (before got sent : List Bytes) : Prop :=
  (∃ d, 4 ≤ d ∧ d % 4 = 0 ∧ offset = finish + d ∧ offset ≤ data.length ∧ got = sent) ∨
    ∃ text text', text ≠ text' ∧ got = before ++ [text] ∧ sent = before ++ [text']

/-- A string that is looked for too far on. -/
theorem readString_shifted {text value : Bytes} (hd : 4 ≤ d) (hmod : d % 4 = 0) (strings : List Bytes)
    (h : readString data (offset + d) = some (value, offset')) :
    Astray data (offset + (encodeString text).length) offset' strings (strings ++ [value])
      (strings ++ [text]) := by
  obtain ⟨hoffset, hle⟩ := readString_le h
  by_cases hvalue : value = text
  · subst hvalue
    rw [length_encodeString]
    exact Or.inl ⟨d, hd, hmod, by omega, hle, rfl⟩
  · exact Or.inr ⟨value, text, hvalue, rfl, rfl⟩

/-- A blob of highest bytes that is looked for too far on: its size is not found in its content. -/
theorem readInt32_shifted {content : Bytes} {size : BitVec 32} (hff : ∀ b ∈ content, b = 255)
    (hd : 4 ≤ d) (hmod : d % 4 = 0)
    (h : readInt32 (before ++ (encodeBlob content ++ after)) (before.length + d) =
      some (size, offset')) (hsize : ¬ size.toInt < 0) : (encodeBlob content).length ≤ d := by
  by_contra hlong
  have hlen := length_encodeBlob content
  have hinside : d - 4 < content.length := by
    rw [padded] at hlen
    split at hlen <;> omega
  obtain ⟨⟨a, b, c, e, rest, hdrop, rfl⟩, -⟩ := readInt32_eq h
  have ha : a = 255 := by
    have hword : encodeBlob content ++ after = encodeWord (.ofNat 32 content.length) ++
        (content ++ (List.replicate ((4 - content.length % 4) % 4) 0 ++ after)) := by
      simp only [encodeBlob, List.append_assoc]
    have hhead := congrArg List.head? hdrop
    rw [List.head?_drop, List.getElem?_append_right (by omega), Nat.add_sub_cancel_left, hword,
      List.getElem?_append_right (by rw [length_encodeWord]; exact hd), length_encodeWord,
      List.getElem?_append_left hinside, List.getElem?_eq_getElem hinside] at hhead
    rw [← Option.some.inj hhead]
    exact hff _ (List.getElem_mem hinside)
  subst ha
  exact hsize (toInt_ntohl_neg b c e)

/-- An argument that is looked for too far on. -/
theorem readArgument_shifted (hff : ∀ content, a = .blob content → ∀ b ∈ content, b = 255)
    (hd : 4 ≤ d) (hmod : d % 4 = 0) (hle : before.length + d ≤ (before ++ (a.encode ++ after)).length)
    (hstrings : message.stringArgs = result.stringArgs)
    (h : readArgument (before ++ (a.encode ++ after)) (UInt8.ofNat a.tag.toNat) (before.length + d)
      message = some (offset', message')) :
    Astray (before ++ (a.encode ++ after)) (before.length + a.encode.length) offset'
      result.stringArgs message'.stringArgs (a.addTo result).stringArgs := by
  -- A number, or what is skipped, has the length it was sent with.
  have hfixed {n : ℕ} (hn : a.encode.length = n) (hoffset : offset' = before.length + d + n)
      (hle' : offset' ≤ (before ++ (a.encode ++ after)).length)
      (hsame : message'.stringArgs = (a.addTo result).stringArgs) :
      Astray (before ++ (a.encode ++ after)) (before.length + a.encode.length) offset'
        result.stringArgs message'.stringArgs (a.addTo result).stringArgs :=
    Or.inl ⟨d, hd, hmod, by omega, hle', hsame⟩
  have hskipped {n : ℕ} (hn : a.encode.length = n)
      (hsame : message.stringArgs = (a.addTo result).stringArgs)
      (h : (skipTo (before ++ (a.encode ++ after)) (before.length + d + n)).map
        (fun offset ↦ (offset, message)) = some (offset', message')) :
      Astray (before ++ (a.encode ++ after)) (before.length + a.encode.length) offset'
        result.stringArgs message'.stringArgs (a.addTo result).stringArgs := by
    obtain ⟨offset, hskip, hx⟩ := Option.map_eq_some_iff.mp h
    cases hx
    obtain ⟨hle', hoffset⟩ := skipTo_eq_some.mp hskip
    exact hfixed hn hoffset.symm (hoffset ▸ hle') hsame
  cases a with
  | int value =>
    obtain ⟨⟨value', offset⟩, hread, hx⟩ := Option.map_eq_some_iff.mp h
    cases hx
    obtain ⟨-, hoffset, hle'⟩ := readInt32_eq hread
    exact hfixed rfl hoffset hle' hstrings
  | float bits =>
    obtain ⟨⟨value', offset⟩, hread, hx⟩ := Option.map_eq_some_iff.mp h
    cases hx
    obtain ⟨-, hoffset, hle'⟩ := readInt32_eq hread
    exact hfixed rfl hoffset hle' hstrings
  | string text | symbol text =>
    obtain ⟨⟨value, offset⟩, hread, hx⟩ := Option.map_eq_some_iff.mp h
    cases hx
    dsimp only
    rw [hstrings]
    exact readString_shifted hd hmod result.stringArgs hread
  | blob content =>
    obtain ⟨⟨size, offset⟩, hread, hx⟩ := Option.bind_eq_some_iff.mp h
    dsimp only at hx
    split at hx
    · cases hx
    · next hsize =>
      obtain ⟨offset₂, hskip, hx⟩ := Option.map_eq_some_iff.mp hx
      cases hx
      obtain ⟨hle', hoffset₂⟩ := skipTo_eq_some.mp hskip
      obtain ⟨-, hoffset, -⟩ := readInt32_eq hread
      have hpast : (encodeBlob content).length ≤ d :=
        readInt32_shifted (hff content rfl) hd hmod hread hsize
      have hword := length_encodeBlob_mod content
      have hfour : 4 ≤ padded size.toInt.toNat ∧ padded size.toInt.toNat % 4 = 0 := by
        rw [padded]
        omega
      change Astray _ (before.length + (encodeBlob content).length) _ _ _ _
      exact Or.inl ⟨d + 4 + padded size.toInt.toNat - (encodeBlob content).length, by omega, by omega,
        by omega, by omega, hstrings⟩
  | double high low | long high low | timetag high low => exact hskipped rfl hstrings h
  | true | false | nil | infinitum =>
    cases h
    exact hfixed rfl rfl hle hstrings

/-- Two lists that go on after one list with different texts are different. -/
theorem ne_of_branch {strings got sent : List Bytes} {text text' : Bytes} (hne : text ≠ text')
    (hgot : strings ++ [text] <+: got) (hsent : strings ++ [text'] <+: sent) : got ≠ sent := by
  rintro rfl
  have hsame := (List.prefix_of_prefix_length_le hgot hsent (by simp)).eq_of_length (by simp)
  exact hne (List.singleton_inj.mp (List.append_cancel_left hsame))

/-- Once arguments are looked for too far on, what comes of it has other strings, if anything comes
of it. -/
theorem readArguments_shifted {arguments : List Argument}
    (hff : ∀ content, .blob content ∈ arguments → ∀ b ∈ content, b = 255) (hd : 4 ≤ d)
    (hmod : d % 4 = 0)
    (hle : before.length + d ≤ (before ++ arguments.flatMap Argument.encode).length)
    (hstrings : message.stringArgs = result.stringArgs)
    (h : readArguments (before ++ arguments.flatMap Argument.encode)
      (arguments.map fun a ↦ UInt8.ofNat a.tag.toNat) (before.length + d) message = some message') :
    message'.stringArgs ≠
      (arguments.foldl (fun message a ↦ a.addTo message) result).stringArgs := by
  induction arguments generalizing before d message result with
  | nil =>
    -- All that was sent has been passed.
    rw [List.flatMap_nil, List.append_nil] at hle
    omega
  | cons a arguments ih =>
    obtain ⟨⟨offset', message₁⟩, hread, hrest⟩ := Option.bind_eq_some_iff.mp h
    dsimp only at hrest
    rw [List.flatMap_cons] at hle hread hrest
    rcases readArgument_shifted (fun content ha ↦ hff content (ha ▸ List.mem_cons_self)) hd hmod hle
      hstrings hread with ⟨d', hd', hmod', rfl, hle', hsame⟩ | ⟨text, text', hne, hgot, hsent⟩
    · rw [← List.append_assoc] at hrest hle'
      rw [← List.length_append] at hrest hle'
      exact ih (fun content hmem ↦ hff content (List.mem_cons_of_mem a hmem)) hd' hmod' hle' hsame
        hrest
    · have hgot' : result.stringArgs ++ [text] <+: message'.stringArgs := by
        rw [← hgot]
        exact stringArgs_readArguments hrest
      have hsent' := stringArgs_foldl arguments (a.addTo result)
      rw [hsent] at hsent'
      exact ne_of_branch hne hgot' hsent'

/-- With a blob of a multiple of four among arguments and highest bytes in all blobs, what comes of
them has other strings, if anything does. -/
theorem readArguments_of_even {arguments : List Argument} (hwell : ∀ a ∈ arguments, a.WellFormed)
    (hff : ∀ content, .blob content ∈ arguments → ∀ b ∈ content, b = 255)
    (heven : ∃ a ∈ arguments, a.isOdd = false)
    (hsize : (before ++ arguments.flatMap Argument.encode).length < 2 ^ 31)
    (h : readArguments (before ++ arguments.flatMap Argument.encode)
      (arguments.map fun a ↦ UInt8.ofNat a.tag.toNat) before.length message = some message') :
    message'.stringArgs ≠
      (arguments.foldl (fun message a ↦ a.addTo message) message).stringArgs := by
  induction arguments generalizing before message with
  | nil =>
    obtain ⟨a, ha, -⟩ := heven
    cases ha
  | cons a arguments ih =>
    obtain ⟨ha, hwell⟩ := List.forall_mem_cons.mp hwell
    obtain ⟨⟨offset', message₁⟩, hread, hrest⟩ := Option.bind_eq_some_iff.mp h
    dsimp only at hrest
    rw [List.flatMap_cons] at hsize hread hrest
    have hfits : a.encode.length < 2 ^ 31 := by
      rw [List.length_append, List.length_append] at hsize
      omega
    have hothers (content : Bytes) (hmem : .blob content ∈ arguments) :=
      hff content (List.mem_cons_of_mem a hmem)
    cases hodd : a.isOdd with
    | true =>
      -- This one is read right, and the blob is still to come.
      rw [readArgument_append before _ message ha hodd hfits] at hread
      cases hread
      rw [← List.append_assoc] at hrest hsize
      rw [← List.length_append] at hrest
      refine ih hwell hothers ?_ hsize hrest
      obtain ⟨a', hmem, ha'⟩ := heven
      rcases List.mem_cons.mp hmem with rfl | hmem
      · rw [hodd] at ha'
        cases ha'
      · exact ⟨a', hmem, ha'⟩
    | false =>
      cases a with
      | blob content =>
        have heven : content.length % 4 = 0 := by simpa [Argument.isOdd] using hodd
        have hlen := length_encodeBlob content
        rw [if_pos heven] at hlen
        obtain ⟨offset, hskip, hx⟩ := Option.map_eq_some_iff.mp
          ((readArgument_blob before _ message hfits).symm.trans hread)
        cases hx
        obtain ⟨hle, rfl⟩ := skipTo_eq_some.mp hskip
        have hoffset : before.length + 4 + padded content.length =
            (before ++ encodeBlob content).length + 4 := by
          rw [List.length_append, hlen, padded]
          omega
        rw [hoffset] at hrest hle
        change readArguments (before ++ (encodeBlob content ++ _)) _ _ _ = _ at hrest
        change _ ≤ (before ++ (encodeBlob content ++ _)).length at hle
        rw [← List.append_assoc] at hrest hle
        have hshifted := readArguments_shifted hothers (Nat.le_refl 4) rfl hle rfl hrest
        exact hshifted
      | _ => cases hodd

end Shifted

section Decoding

variable {m : Sent}

/-- A message is decoded by its arguments. -/
theorem decodeMessage_eq (h : m.WellFormed) :
    ∃ before, m.encode = before ++ m.arguments.flatMap Argument.encode ∧
      decodeMessage m.encode = readArguments (before ++ m.arguments.flatMap Argument.encode)
        (m.arguments.map fun a ↦ UInt8.ofNat a.tag.toNat) before.length { address := m.address } := by
  let tags : Bytes := UInt8.ofNat ','.toNat :: m.arguments.map fun a ↦ UInt8.ofNat a.tag.toNat
  have htags : 0 ∉ tags := by
    intro hmem
    rcases List.mem_cons.mp hmem with hzero | hmem
    · exact absurd hzero (by decide)
    · obtain ⟨a, -, ha⟩ := List.mem_map.mp hmem
      have htag : a.tag ∈ ['i', 'f', 's', 'S', 'b', 'T', 'F', 'N', 'I', 'd', 'h', 't'] := by
        cases a <;> simp [Argument.tag]
      have hne : ∀ c ∈ ['i', 'f', 's', 'S', 'b', 'T', 'F', 'N', 'I', 'd', 'h', 't'],
          decide (UInt8.ofNat c.toNat ≠ 0) = true := List.all_eq_true.mp (by decide)
      exact of_decide_eq_true (hne a.tag htag) ha
  let payload := m.arguments.flatMap Argument.encode
  have hencode : m.encode = encodeString m.address ++ (encodeString tags ++ payload) :=
    List.append_assoc ..
  have haddress : readString m.encode 0 = some (m.address, (encodeString m.address).length) := by
    have hread := readString_append [] (encodeString tags ++ payload) h.address
    rw [List.nil_append, ← hencode, List.length_nil, Nat.zero_add] at hread
    exact hread
  have hcomma : m.encode[(encodeString m.address).length]? = some (UInt8.ofNat ','.toNat) := by
    rw [hencode, List.getElem?_append_right (Nat.le_refl _), Nat.sub_self]
    rfl
  have htypes := readString_append (encodeString m.address) payload htags
  rw [← hencode] at htypes
  refine ⟨encodeString m.address ++ encodeString tags, rfl, ?_⟩
  rw [decodeMessage, haddress, Option.bind_some]
  dsimp only
  rw [if_neg (by simp [h.slash]), if_pos hcomma, htypes, Option.bind_some, List.append_assoc,
    ← hencode, List.length_append]
  rfl

/-- A message without a blob of a multiple of four is decoded as it was sent. -/
theorem decodeMessage_of_odd (h : m.WellFormed) (hsize : m.encode.length < 2 ^ 31)
    (hodd : ∀ a ∈ m.arguments, a.isOdd) : decodeMessage m.encode = some m.message := by
  obtain ⟨before, hencode, hdecode⟩ := decodeMessage_eq h
  rw [hencode] at hsize
  rw [hdecode, readArguments_append h.arguments hodd hsize]
  rfl

/-- One with such a blob, and highest bytes in all blobs, is not. -/
theorem decodeMessage_of_even (h : m.WellFormed) (hsize : m.encode.length < 2 ^ 31)
    (hff : ∀ content, .blob content ∈ m.arguments → ∀ b ∈ content, b = 255)
    (heven : ∃ a ∈ m.arguments, a.isOdd = false) : decodeMessage m.encode ≠ some m.message := by
  obtain ⟨before, hencode, hdecode⟩ := decodeMessage_eq h
  rw [hencode] at hsize
  rw [hdecode]
  intro hread
  exact readArguments_of_even h.arguments hff heven hsize hread rfl

end Decoding

end WebLinked.Control.Osc
