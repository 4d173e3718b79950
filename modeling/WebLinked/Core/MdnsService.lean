import Mathlib

/-!
# What is advertised over mDNS

`src/core/mdns_service.h:12–67`, `src/core/mdns_service.cpp:24–28,158–204`. A TXT record is a
sequence of `key=value` texts, each after a byte that holds its length. Texts are any bytes.
-/

namespace WebLinked.Core.Mdns

/-- A text. -/
abbrev Bytes := List UInt8

/-- The bytes of ASCII characters. -/
def ofChars (text : List Char) : Bytes := text.map fun c ↦ UInt8.ofNat c.toNat

/-- A text of the source. -/
def ofString (text : String) : Bytes := ofChars text.toList

/-- `std::to_string` of an unsigned number. -/
def toText (n : ℕ) : Bytes := ofChars (Nat.toDigits 10 n)

/-- `'='`. -/
def kEquals : UInt8 := 61

/-- `TxtRecords`; `src/core/mdns_service.h:13`. -/
abbrev TxtRecords := List (Bytes × Bytes)

/-- `TxtInputs`, but for `httpPort`, which nothing reads; `src/core/mdns_service.h:41`. -/
structure TxtInputs where
  name : Bytes
  version : Bytes
  id : Bytes
  tokenRequired : Bool := false
  oscEnabled : Bool := true
  oscPort : UInt16 := 7655
  oscPrefix : Bytes := ofString "/weblinked"

/-- `kMaxTxtEntryBytes`; `src/core/mdns_service.cpp:28`. -/
def kMaxTxtEntryBytes : ℕ := 255

/-- `buildTxt`; `src/core/mdns_service.cpp:158`. -/
def buildTxt (inputs : TxtInputs) : TxtRecords :=
  [(ofString "txtvers", ofString "1"),
    (ofString "ver", inputs.version),
    (ofString "name", inputs.name),
    (ofString "id", inputs.id),
    (ofString "path", ofString "/api/state"),
    (ofString "token", ofString (if inputs.tokenRequired then "1" else "0")),
    (ofString "osc", ofString (if inputs.oscEnabled then "1" else "0"))] ++
  if inputs.oscEnabled then
    [(ofString "oscport", toText inputs.oscPort.toNat), (ofString "oscprefix", inputs.oscPrefix)]
  else []

/-- The loop of `encodeTxt`; `src/core/mdns_service.cpp:184–198`. -/
def encodeEntry (encoded : Bytes) (entry : Bytes × Bytes) : Bytes :=
  if entry.1 = [] ∨ kEquals ∈ entry.1 then encoded
  else
    let text := entry.1 ++ kEquals :: entry.2
    if kMaxTxtEntryBytes < text.length then encoded
    else encoded ++ UInt8.ofNat text.length :: text

/-- `encodeTxt`; `src/core/mdns_service.cpp:182`. -/
def encodeTxt (records : TxtRecords) : Bytes :=
  let encoded := records.foldl encodeEntry []
  if encoded = [] then [0] else encoded

/-- A text cut at its first `=`; `tests/test_mdns_service.cpp:46–51`. -/
def splitEntry (text : Bytes) : Bytes × Bytes :=
  (text.takeWhile (· ≠ kEquals), (text.dropWhile (· ≠ kEquals)).drop 1)

/-- The loop of `decodeTxt`, of `size` bytes in all; `tests/test_mdns_service.cpp:30–53`. -/
def decodeFrom (size : ℕ) : Bytes → Option TxtRecords
  | [] => some []
  | length :: rest =>
    -- The byte of the empty record is legal only as the whole of it.
    if length = 0 then if size = 1 then some [] else none
    else if rest.length < length.toNat then none
    else
      (decodeFrom size (rest.drop length.toNat)).map (splitEntry (rest.take length.toNat) :: ·)
termination_by encoded => encoded.length

/-- `decodeTxt`; `tests/test_mdns_service.cpp:27`. -/
def decodeTxt (encoded : Bytes) : Option TxtRecords := decodeFrom encoded.length encoded

/-- What a key may be. -/
def IsKey (key : Bytes) : Prop := key ≠ [] ∧ kEquals ∉ key

instance : DecidablePred IsKey := fun _ ↦ inferInstanceAs (Decidable (_ ∧ _))

/-- What a TXT record has room for: a key, and at most 255 bytes of `key=value`. -/
def Fits (entry : Bytes × Bytes) : Prop :=
  IsKey entry.1 ∧ (entry.1 ++ kEquals :: entry.2).length ≤ kMaxTxtEntryBytes

instance : DecidablePred Fits := fun _ ↦ inferInstanceAs (Decidable (_ ∧ _))

/-- An entry on the wire. -/
def frame (entry : Bytes × Bytes) : Bytes :=
  UInt8.ofNat (entry.1 ++ kEquals :: entry.2).length :: (entry.1 ++ kEquals :: entry.2)

variable {size : ℕ} {entry : Bytes × Bytes} {rest : Bytes}

theorem encodeEntry_of_fits (h : Fits entry) (encoded : Bytes) :
    encodeEntry encoded entry = encoded ++ frame entry := by
  unfold encodeEntry
  rw [if_neg (by rintro (hkey | hkey); exacts [h.1.1 hkey, h.1.2 hkey])]
  exact if_neg (Nat.not_lt.mpr h.2)

theorem encodeEntry_of_not_fits (h : ¬ Fits entry) (encoded : Bytes) :
    encodeEntry encoded entry = encoded := by
  unfold encodeEntry
  by_cases hkey : entry.1 = [] ∨ kEquals ∈ entry.1
  · rw [if_pos hkey]
  · rw [not_or] at hkey
    rw [if_neg (not_or.mpr hkey)]
    apply if_pos
    by_contra hle
    exact h ⟨hkey, Nat.not_lt.mp hle⟩

theorem foldl_encodeEntry (records : TxtRecords) (encoded : Bytes) :
    records.foldl encodeEntry encoded = encoded ++ (records.filter Fits).flatMap frame := by
  induction records generalizing encoded with
  | nil => simp
  | cons entry records ih =>
    rw [List.foldl_cons]
    by_cases h : Fits entry
    · rw [ih, encodeEntry_of_fits h, List.filter_cons_of_pos (by simpa using h),
        List.flatMap_cons, List.append_assoc]
    · rw [ih, encodeEntry_of_not_fits h, List.filter_cons_of_neg (by simpa using h)]

theorem splitEntry_append {key : Bytes} (h : kEquals ∉ key) (value : Bytes) :
    splitEntry (key ++ kEquals :: value) = (key, value) := by
  have hkey : ∀ b ∈ key, (b ≠ kEquals : Bool) = true := by
    intro b hb
    rw [decide_eq_true_eq]
    rintro rfl
    exact h hb
  unfold splitEntry
  rw [List.takeWhile_append_of_pos hkey, List.dropWhile_append_of_pos hkey,
    List.takeWhile_cons_of_neg (by simp), List.dropWhile_cons_of_neg (by simp), List.append_nil]
  rfl

/-- An entry that fits is read back, and its length byte leads to the next one. -/
theorem decodeFrom_frame_append (h : Fits entry) :
    decodeFrom size (frame entry ++ rest) = (decodeFrom size rest).map (entry :: ·) := by
  have hle : (entry.1 ++ kEquals :: entry.2).length ≤ 255 := h.2
  have hsplit := splitEntry_append h.1.2 entry.2
  have hlt : 0 < (entry.1 ++ kEquals :: entry.2).length := by
    rw [List.length_append, List.length_cons]
    omega
  unfold frame
  generalize entry.1 ++ kEquals :: entry.2 = text at hle hsplit hlt ⊢
  have hlength : (UInt8.ofNat text.length).toNat = text.length := by
    rw [UInt8.toNat_ofNat']
    omega
  have hne : UInt8.ofNat text.length ≠ 0 := by
    intro h0
    rw [h0] at hlength
    exact absurd hlength (Nat.ne_of_lt hlt)
  rw [List.cons_append, decodeFrom, if_neg hne, hlength, if_neg (by simp), List.take_left,
    List.drop_left, hsplit]

theorem decodeFrom_flatMap_frame {records : TxtRecords} (h : ∀ entry ∈ records, Fits entry) :
    decodeFrom size (records.flatMap frame) = some records := by
  induction records with
  | nil => rw [List.flatMap_nil, decodeFrom]
  | cons entry records ih =>
    rw [List.forall_mem_cons] at h
    rw [List.flatMap_cons, decodeFrom_frame_append h.1, ih h.2, Option.map_some]

/-- The records that there is room for are read back. -/
theorem decode_encode (records : TxtRecords) :
    decodeTxt (encodeTxt records) = some (records.filter Fits) := by
  have hfits : ∀ entry ∈ records.filter Fits, Fits entry := by
    intro entry hentry
    simpa using (List.mem_filter.mp hentry).2
  have hencode := foldl_encodeEntry records []
  rw [List.nil_append] at hencode
  unfold encodeTxt
  rw [hencode]
  by_cases hempty : (records.filter Fits).flatMap frame = []
  · -- Every frame has at least its length byte.
    have hnone : records.filter Fits = [] := by
      cases hrecords : records.filter Fits with
      | nil => rfl
      | cons entry rest =>
        rw [hrecords, List.flatMap_cons] at hempty
        cases hempty
    rw [if_pos hempty, hnone, decodeTxt, decodeFrom, if_pos rfl]
    rfl
  · rw [if_neg hempty]
    exact decodeFrom_flatMap_frame hfits

/-- What is sent reads back as the records it has room for, and is never empty. -/
theorem decodeTxt_encodeTxt (records : TxtRecords) :
    decodeTxt (encodeTxt records) = some (records.filter Fits) ∧ encodeTxt records ≠ [] := by
  refine ⟨decode_encode records, ?_⟩
  unfold encodeTxt
  by_cases hempty : records.foldl encodeEntry [] = []
  · rw [if_pos hempty]
    exact List.cons_ne_nil _ _
  · rw [if_neg hempty]
    exact hempty

/-- What is built has only keys that can be sent. -/
theorem buildTxt_isKey (inputs : TxtInputs) : ∀ entry ∈ buildTxt inputs, IsKey entry.1 := by
  intro entry hentry
  rw [buildTxt, List.mem_append] at hentry
  cases hentry with
  | inl hentry =>
    simp only [List.mem_cons, List.not_mem_nil, or_false] at hentry
    rcases hentry with rfl | rfl | rfl | rfl | rfl | rfl | rfl <;> (dsimp only; decide)
  | inr hentry =>
    by_cases hosc : inputs.oscEnabled = true
    · rw [if_pos hosc] at hentry
      simp only [List.mem_cons, List.not_mem_nil, or_false] at hentry
      rcases hentry with rfl | rfl <;> (dsimp only; decide)
    · rw [if_neg hosc] at hentry
      cases hentry

/-- Of what is built only what is too long is not read back. -/
theorem decode_buildTxt (inputs : TxtInputs) :
    decodeTxt (encodeTxt (buildTxt inputs)) = some ((buildTxt inputs).filter fun entry ↦
      (entry.1 ++ kEquals :: entry.2).length ≤ kMaxTxtEntryBytes) := by
  rw [decode_encode]
  apply congrArg some
  apply List.filter_congr
  intro entry hentry
  rw [decide_eq_decide]
  exact and_iff_right (buildTxt_isKey inputs entry hentry)

end WebLinked.Core.Mdns
