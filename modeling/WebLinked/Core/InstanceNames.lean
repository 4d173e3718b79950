import Mathlib
import WebLinked.Base.Utf8
import WebLinked.Core.MdnsService

/-!
# Instance names

`src/core/mdns_service.h:72–97`, `src/core/mdns_service.cpp:24–88`. A name is cleaned, trimmed and
cut, in this order, so a cut can leave the blank before it, and can take the port off. What is left
before the cut is `kept`, as far as the bytes that decide go.
-/

namespace WebLinked.Core.Mdns

open WebLinked.Base

/-- `kMaxNameBytes`; `src/core/mdns_service.cpp:26`. -/
def kMaxNameBytes : ℕ := 63

/-- `std::isspace` of the C locale. -/
def isSpace (b : UInt8) : Bool := b = 32 || (9 ≤ b && b ≤ 13)

/-- A byte inside a character; `src/core/mdns_service.cpp:40`. -/
def isContinuation (b : UInt8) : Bool := b &&& 0xC0 = 0x80

/-- The loop of `utf8SafeLength`; `src/core/mdns_service.cpp:39–42`. -/
def backUp (text : Bytes) : ℕ → ℕ
  | 0 => 0
  | length + 1 =>
    if isContinuation (text.getD (length + 1) 0) then backUp text length else length + 1

/-- `utf8SafeLength`; `src/core/mdns_service.cpp:34`. -/
def utf8SafeLength (text : Bytes) (limit : ℕ) : ℕ :=
  if text.length ≤ limit then text.length else backUp text limit

/-- What one byte adds; `src/core/mdns_service.cpp:51–65`. -/
def cleanByte (b : UInt8) : Bytes :=
  if b = 46 then [45] else if b < 0x20 ∨ b = 0x7F then [] else [b]

/-- `sanitiseInstanceName`; `src/core/mdns_service.cpp:48`. -/
def sanitiseInstanceName (raw : Bytes) : Bytes :=
  let cleaned := raw.flatMap cleanByte
  let cleaned := cleaned.dropWhile isSpace
  let cleaned := cleaned.rdropWhile isSpace
  let cleaned := cleaned.take (utf8SafeLength cleaned kMaxNameBytes)
  if cleaned = [] then ofString "WebLinked" else cleaned

/-- `instanceNameFor`; `src/core/mdns_service.cpp:81`. -/
def instanceNameFor (configured host : Bytes) (httpPort : UInt16) : Bytes :=
  if configured ≠ [] then sanitiseInstanceName configured
  else
    let host_part := if host = [] then ofString "WebLinked" else host
    sanitiseInstanceName (host_part ++ ofString " (" ++ toText httpPort.toNat ++ ofString ")")

/-- A control character. -/
def IsControl (b : UInt8) : Prop := b < 0x20 ∨ b = 0x7F

instance : DecidablePred IsControl := fun _ ↦ inferInstanceAs (Decidable (_ ∨ _))

/-- A text that is UTF-8. -/
def IsUtf8 (text : Bytes) : Prop := Utf8.Valid (text.map UInt8.toNat)

/-- What of a name is not left out before it is cut: no control character, and no blank at either
end. -/
def kept (raw : Bytes) : Bytes :=
  ((raw.filter (¬ IsControl ·)).dropWhile isSpace).rdropWhile isSpace

/-- The 64th byte kept belongs to a character that comes right after a blank. -/
def CutAfterBlank (raw : Bytes) : Prop :=
  ∃ before blank first inside after,
    kept raw = before ++ blank :: first :: (inside ++ after) ∧
    isSpace blank = true ∧ isContinuation first = false ∧
    (∀ b ∈ inside, isContinuation b = true) ∧ before.length + inside.length + 2 = 64

/-- What a name is to be, made of `raw`. -/
structure NormalForm (raw name : Bytes) : Prop where
  pos : 0 < name.length
  le : name.length ≤ kMaxNameBytes
  plain : ∀ b ∈ name, b ≠ 46 ∧ ¬ IsControl b
  starts : ∀ b ∈ name.head?, isSpace b = false
  ends : ∀ b ∈ name.getLast?, isSpace b = false
  utf8 : IsUtf8 raw → IsUtf8 name
  fixed : sanitiseInstanceName name = name

/-! ### The cut -/

variable {text raw name : Bytes} {b : UInt8} {n m : ℕ}

theorem isContinuation_iff : isContinuation b = true ↔ Utf8.IsContinuation b.toNat := by
  have hmask : ∀ b : BitVec 8, b &&& 0xC0 = 0x80 ↔ 0x80 ≤ b.toNat ∧ b.toNat < 0xC0 := by decide
  unfold isContinuation
  rw [decide_eq_true_eq, ← UInt8.toBitVec_inj]
  exact hmask b.toBitVec

/-- Where a cut is moved to: off every continuation byte, and no further. -/
theorem backUp_eq_iff : backUp text n = m ↔ m ≤ n ∧
    (m = 0 ∨ isContinuation (text.getD m 0) = false) ∧
    ∀ i, m < i → i ≤ n → isContinuation (text.getD i 0) = true := by
  induction n with
  | zero =>
    unfold backUp
    constructor
    · rintro rfl
      exact ⟨le_rfl, Or.inl rfl, by omega⟩
    · rintro ⟨hle, -, -⟩
      omega
  | succ n ih =>
    unfold backUp
    by_cases h : isContinuation (text.getD (n + 1) 0) = true
    · rw [if_pos h, ih]
      constructor
      · rintro ⟨hle, hstop, hpass⟩
        refine ⟨by omega, hstop, fun i hi hle ↦ ?_⟩
        by_cases hlast : i = n + 1
        · rw [hlast]
          exact h
        · exact hpass i hi (by omega)
      · rintro ⟨hle, hstop, hpass⟩
        have hne : m ≠ n + 1 := by
          rintro rfl
          cases hstop with
          | inl h0 => omega
          | inr hfirst =>
            rw [h] at hfirst
            cases hfirst
        exact ⟨by omega, hstop, fun i hi hle ↦ hpass i hi (by omega)⟩
    · rw [if_neg h]
      constructor
      · rintro rfl
        exact ⟨le_rfl, Or.inr (Bool.eq_false_iff.mpr h), by omega⟩
      · rintro ⟨hle, -, hpass⟩
        by_contra hne
        exact h (hpass (n + 1) (by omega) le_rfl)

theorem utf8SafeLength_le_limit : utf8SafeLength text n ≤ n := by
  unfold utf8SafeLength
  split
  · assumption
  · exact (backUp_eq_iff.mp rfl).1

theorem utf8SafeLength_le_length : utf8SafeLength text n ≤ text.length := by
  have hlimit : utf8SafeLength text n ≤ n := utf8SafeLength_le_limit
  by_cases h : text.length ≤ n
  · rw [utf8SafeLength, if_pos h]
  · omega

/-- What is left after the cut starts with no continuation byte, unless nothing is kept. -/
theorem head?_drop_utf8SafeLength (h0 : utf8SafeLength text n ≠ 0) :
    ∀ b ∈ (text.drop (utf8SafeLength text n)).head?, isContinuation b = false := by
  intro b hb
  rw [List.head?_drop] at hb
  have hlt : utf8SafeLength text n < text.length := by
    by_contra hge
    rw [List.getElem?_eq_none (Nat.not_lt.mp hge)] at hb
    cases hb
  have hcut : utf8SafeLength text n = backUp text n := by
    unfold utf8SafeLength at hlt ⊢
    split
    · rename_i hle
      rw [if_pos hle] at hlt
      omega
    · rfl
  obtain ⟨-, hstop, -⟩ := backUp_eq_iff.mp hcut.symm
  cases hstop with
  | inl hzero => exact absurd hzero h0
  | inr hfirst =>
    rw [List.getD_eq_getElem?_getD, Option.mem_def.mp hb] at hfirst
    exact hfirst

/-! ### What is kept -/

/-- What a byte that is kept becomes. -/
def dash (b : UInt8) : UInt8 := if b = 46 then 45 else b

@[simp] theorem isSpace_dash : isSpace (dash b) = isSpace b := by
  unfold dash
  split
  · rename_i h
    rw [h]
    rfl
  · rfl

@[simp] theorem isContinuation_dash : isContinuation (dash b) = isContinuation b := by
  unfold dash
  split
  · rename_i h
    rw [h]
    rfl
  · rfl

theorem dash_plain (h : ¬ IsControl b) : dash b ≠ 46 ∧ ¬ IsControl (dash b) := by
  unfold dash
  split
  · exact ⟨by decide, by decide⟩
  · rename_i hne
    exact ⟨hne, h⟩

/-- A control character is left out, and a dot becomes a dash. -/
theorem cleanByte_eq (b : UInt8) : cleanByte b = if IsControl b then [] else [dash b] := by
  unfold cleanByte dash
  by_cases hdot : b = 46
  · rw [if_pos hdot, if_pos hdot, if_neg]
    rw [hdot]
    decide
  · rw [if_neg hdot, if_neg hdot]
    rfl

theorem flatMap_cleanByte (raw : Bytes) :
    raw.flatMap cleanByte = (raw.filter (¬ IsControl ·)).map dash := by
  induction raw with
  | nil => rfl
  | cons b raw ih =>
    rw [List.flatMap_cons, ih, cleanByte_eq]
    by_cases hcontrol : IsControl b
    · rw [if_pos hcontrol, List.filter_cons_of_neg (by simpa using hcontrol), List.nil_append]
    · rw [if_neg hcontrol, List.filter_cons_of_pos (by simpa using hcontrol), List.map_cons,
        List.singleton_append]

theorem trim_flatMap_cleanByte (raw : Bytes) :
    ((raw.flatMap cleanByte).dropWhile isSpace).rdropWhile isSpace = (kept raw).map dash := by
  have hspace : isSpace ∘ dash = isSpace := funext fun _ ↦ isSpace_dash
  unfold kept
  rw [flatMap_cleanByte, List.dropWhile_map, hspace, List.rdropWhile, List.rdropWhile,
    ← List.map_reverse, List.dropWhile_map, hspace, List.map_reverse]

theorem backUp_map_dash : backUp (text.map dash) n = backUp text n := by
  induction n with
  | zero => rfl
  | succ n ih =>
    have hget : isContinuation ((text.map dash).getD (n + 1) 0) =
        isContinuation (text.getD (n + 1) 0) := by
      rw [show (0 : UInt8) = dash 0 from rfl, List.getD_map, isContinuation_dash]
      rfl
    unfold backUp
    rw [hget, ih]

theorem utf8SafeLength_map_dash : utf8SafeLength (text.map dash) n = utf8SafeLength text n := by
  unfold utf8SafeLength
  rw [List.length_map, backUp_map_dash]

/-- A name is what is kept, up to the cut, with dashes for dots. -/
theorem sanitiseInstanceName_eq (raw : Bytes) :
    sanitiseInstanceName raw =
      if utf8SafeLength (kept raw) kMaxNameBytes = 0 then ofString "WebLinked"
      else ((kept raw).take (utf8SafeLength (kept raw) kMaxNameBytes)).map dash := by
  have hle : utf8SafeLength (kept raw) kMaxNameBytes ≤ (kept raw).length :=
    utf8SafeLength_le_length
  unfold sanitiseInstanceName
  dsimp only
  rw [trim_flatMap_cleanByte, utf8SafeLength_map_dash, ← List.map_take]
  by_cases h0 : utf8SafeLength (kept raw) kMaxNameBytes = 0
  · rw [if_pos h0, h0]
    rfl
  · rw [if_neg h0, if_neg]
    rw [List.map_eq_nil_iff, ← List.length_eq_zero_iff, List.length_take]
    omega

theorem mem_kept (hb : b ∈ kept raw) : ¬ IsControl b := by
  unfold kept at hb
  have hfilter := (List.dropWhile_suffix _).subset ((List.rdropWhile_prefix _ _).subset hb)
  simpa using (List.mem_filter.mp hfilter).2

theorem head?_kept : ∀ b ∈ (kept raw).head?, isSpace b = false := by
  intro b hb
  obtain ⟨rest, hrest⟩ := List.head?_eq_some_iff.mp hb
  obtain ⟨tail, htail⟩ :=
    List.rdropWhile_prefix isSpace ((raw.filter (¬ IsControl ·)).dropWhile isSpace)
  have hfirst := List.head?_dropWhile_not isSpace (raw.filter (¬ IsControl ·))
  change kept raw ++ tail = _ at htail
  rw [← htail, hrest] at hfirst
  exact hfirst

theorem getLast?_kept : ∀ b ∈ (kept raw).getLast?, isSpace b = false := by
  intro b hb
  obtain ⟨hne, hlast⟩ := List.mem_getLast?_eq_getLast hb
  rw [hlast]
  exact Bool.eq_false_iff.mpr (List.rdropWhile_last_not _ _ hne)

/-! ### UTF-8 -/

theorem toNat_lt_of_isSpace (h : isSpace b = true) : b.toNat < 0x80 := by
  unfold isSpace at h
  simp only [Bool.or_eq_true, Bool.and_eq_true, decide_eq_true_eq, UInt8.le_iff_toNat_le] at h
  cases h with
  | inl h =>
    rw [h]
    decide
  | inr h =>
    have h13 : (13 : UInt8).toNat = 13 := rfl
    omega

theorem IsUtf8.filter (h : IsUtf8 text) : IsUtf8 (text.filter (¬ IsControl ·)) := by
  have hflat : ∀ text : Bytes, (text.filter (¬ IsControl ·)).map UInt8.toNat =
      (text.map UInt8.toNat).flatMap fun n ↦ if n < 0x20 ∨ n = 0x7F then [] else [n] := by
    intro text
    induction text with
    | nil => rfl
    | cons b text ih =>
      have hiff : IsControl b ↔ b.toNat < 0x20 ∨ b.toNat = 0x7F := by
        unfold IsControl
        rw [UInt8.lt_iff_toNat_lt, ← UInt8.toNat_inj]
        rfl
      rw [List.map_cons, List.flatMap_cons, ← ih]
      by_cases hcontrol : IsControl b
      · rw [if_pos (hiff.mp hcontrol), List.filter_cons_of_neg (by simpa using hcontrol),
          List.nil_append]
      · rw [if_neg (mt hiff.mpr hcontrol), List.filter_cons_of_pos (by simpa using hcontrol),
          List.map_cons, List.singleton_append]
  unfold IsUtf8 at h ⊢
  rw [hflat]
  apply h.flatMap
  · intro n hn m hm
    split at hm
    · cases hm
    · rw [List.mem_singleton.mp hm]
      exact hn
  · intro n hn
    exact if_neg (by omega)

theorem IsUtf8.map_dash (h : IsUtf8 text) : IsUtf8 (text.map dash) := by
  have hflat : ∀ text : Bytes, (text.map dash).map UInt8.toNat =
      (text.map UInt8.toNat).flatMap fun n ↦ [if n = 46 then 45 else n] := by
    intro text
    induction text with
    | nil => rfl
    | cons b text ih =>
      have hdash : (dash b).toNat = if b.toNat = 46 then 45 else b.toNat := by
        unfold dash
        by_cases hdot : b = 46
        · rw [if_pos hdot, hdot]
          rfl
        · rw [if_neg hdot, if_neg]
          intro hn
          exact hdot (UInt8.toNat_inj.mp hn)
      rw [List.map_cons, List.map_cons, List.map_cons, List.flatMap_cons, ih, hdash,
        List.singleton_append]
  unfold IsUtf8 at h ⊢
  rw [hflat]
  apply h.flatMap
  · intro n hn m hm
    rw [List.mem_singleton] at hm
    split at hm
    · omega
    · omega
  · intro n hn
    rw [if_neg (by omega)]

theorem IsUtf8.of_append {rest : Bytes} (h : IsUtf8 (text ++ rest))
    (hrest : ∀ b ∈ rest.head?, isContinuation b = false) : IsUtf8 text := by
  unfold IsUtf8 at h ⊢
  rw [List.map_append] at h
  apply h.of_append
  intro n hn
  rw [List.head?_map, Option.mem_map] at hn
  obtain ⟨b, hb, rfl⟩ := hn
  rw [← isContinuation_iff, hrest b hb]
  exact Bool.false_ne_true

theorem IsUtf8.kept (h : IsUtf8 raw) : IsUtf8 (kept raw) := by
  have hfilter := h.filter
  -- The blanks in front are characters of their own, and so is the first one behind.
  have hfront : IsUtf8 ((raw.filter (¬ IsControl ·)).dropWhile isSpace) := by
    unfold IsUtf8 at hfilter ⊢
    rw [← List.takeWhile_append_dropWhile (p := isSpace) (l := raw.filter _), List.map_append]
      at hfilter
    refine (Utf8.Valid.append_iff (Utf8.valid_of_forall_lt ?_)).mp hfilter
    intro n hn
    obtain ⟨b, hb, rfl⟩ := List.mem_map.mp hn
    exact toNat_lt_of_isSpace (List.mem_takeWhile_imp hb)
  rw [← List.rdropWhile_append_rtakeWhile (p := isSpace) (l := (raw.filter _).dropWhile _)]
    at hfront
  apply hfront.of_append
  intro b hb
  have hspace := toNat_lt_of_isSpace (List.mem_rtakeWhile_imp (List.mem_of_mem_head? hb))
  rw [← Bool.not_eq_true, isContinuation_iff]
  unfold Utf8.IsContinuation
  omega

theorem IsUtf8.take (h : IsUtf8 text) : IsUtf8 (text.take (utf8SafeLength text n)) := by
  by_cases h0 : utf8SafeLength text n = 0
  · rw [h0]
    exact Utf8.valid_nil
  · rw [← List.take_append_drop (utf8SafeLength text n) text] at h
    exact h.of_append (head?_drop_utf8SafeLength h0)

/-! ### The normal form -/

theorem head?_map_dash (h : ∀ b ∈ text.head?, isSpace b = false) :
    ∀ b ∈ (text.map dash).head?, isSpace b = false := by
  intro b hb
  rw [List.head?_map, Option.mem_map] at hb
  obtain ⟨c, hc, rfl⟩ := hb
  rw [isSpace_dash]
  exact h c hc

theorem kept_eq (hplain : ∀ b ∈ name, ¬ IsControl b) (hstarts : ∀ b ∈ name.head?, isSpace b = false)
    (hends : ∀ b ∈ name.getLast?, isSpace b = false) : kept name = name := by
  have hfilter : name.filter (¬ IsControl ·) = name := by
    rw [List.filter_eq_self]
    simpa using hplain
  have hfront : name.dropWhile isSpace = name := by
    rw [List.dropWhile_eq_self_iff]
    intro hlt
    rw [hstarts _ (List.head?_eq_getElem? ▸ List.getElem?_eq_getElem hlt)]
    exact Bool.false_ne_true
  unfold kept
  rw [hfilter, hfront, List.rdropWhile_eq_self_iff]
  intro hne
  rw [hends _ (List.getLast?_eq_getLast_of_ne_nil hne)]
  exact Bool.false_ne_true

/-- A name that could be the result of the cut is one. -/
theorem sanitiseInstanceName_eq_self (hpos : 0 < name.length) (hle : name.length ≤ kMaxNameBytes)
    (hplain : ∀ b ∈ name, b ≠ 46 ∧ ¬ IsControl b) (hstarts : ∀ b ∈ name.head?, isSpace b = false)
    (hends : ∀ b ∈ name.getLast?, isSpace b = false) : sanitiseInstanceName name = name := by
  have hkept : kept name = name := kept_eq (fun b hb ↦ (hplain b hb).2) hstarts hends
  have hcut : utf8SafeLength name kMaxNameBytes = name.length := by
    rw [utf8SafeLength, if_pos hle]
  have hdash : name.map dash = name := by
    conv_rhs => rw [← List.map_id name]
    apply List.map_congr_left
    intro b hb
    exact if_neg (hplain b hb).1
  rw [sanitiseInstanceName_eq, hkept, hcut, if_neg (by omega), List.take_length, hdash]

theorem ofString_webLinked :
    ofString "WebLinked" = [87, 101, 98, 76, 105, 110, 107, 101, 100] := rfl

/-- The blank that ends a name is the one before the character that is cut off. -/
theorem cutAfterBlank_iff : CutAfterBlank raw ↔
    ∃ b ∈ ((kept raw).take (utf8SafeLength (kept raw) kMaxNameBytes)).getLast?,
      isSpace b = true := by
  constructor
  · rintro ⟨before, blank, first, inside, after, heq, hblank, hfirst, hinside, hlength⟩
    have hcut : utf8SafeLength (kept raw) kMaxNameBytes = before.length + 1 := by
      rw [utf8SafeLength, if_neg, backUp_eq_iff, heq]
      · refine ⟨by unfold kMaxNameBytes; omega, Or.inr ?_, fun i hi hle ↦ ?_⟩
        · rw [List.getD_append_right _ _ _ _ (by omega), Nat.add_sub_cancel_left,
            List.getD_cons_succ, List.getD_cons_zero]
          exact hfirst
        · have hi' : i - before.length = i - before.length - 2 + 1 + 1 := by omega
          have hlt : i - before.length - 2 < inside.length := by
            unfold kMaxNameBytes at hle
            omega
          rw [List.getD_append_right _ _ _ _ (by omega), hi', List.getD_cons_succ,
            List.getD_cons_succ, List.getD_append _ _ _ _ hlt, List.getD_eq_getElem _ _ hlt]
          exact hinside _ (List.getElem_mem hlt)
      · rw [heq, List.length_append, List.length_cons, List.length_cons, List.length_append]
        unfold kMaxNameBytes
        omega
    refine ⟨blank, ?_, hblank⟩
    rw [hcut, heq, List.take_length_add_append, List.take_succ_cons, List.take_zero,
      List.getLast?_append]
    rfl
  · rintro ⟨blank, hlast, hblank⟩
    have hlong : ¬ (kept raw).length ≤ kMaxNameBytes := by
      intro hle
      rw [utf8SafeLength, if_pos hle, List.take_length] at hlast
      rw [getLast?_kept blank hlast] at hblank
      cases hblank
    rw [utf8SafeLength, if_neg hlong] at hlast
    obtain ⟨hle, hstop, hpass⟩ := backUp_eq_iff.mp (rfl : backUp (kept raw) kMaxNameBytes = _)
    generalize backUp (kept raw) kMaxNameBytes = n at *
    cases n with
    | zero => cases hlast
    | succ k =>
      unfold kMaxNameBytes at hlong hle hpass
      have hk : k + 1 < (kept raw).length := by omega
      have hlast : (kept raw)[k] = blank := by
        rw [← List.take_concat_get' _ _ (by omega), List.getLast?_concat, Option.mem_some_iff]
          at hlast
        exact hlast
      rw [List.getD_eq_getElem _ _ hk] at hstop
      refine ⟨(kept raw).take k, blank, (kept raw)[k + 1], ((kept raw).drop (k + 2)).take (62 - k),
        ((kept raw).drop (k + 2)).drop (62 - k), ?_, hblank, ?_, ?_, ?_⟩
      · rw [List.take_append_drop, ← List.drop_eq_getElem_cons, ← hlast,
          ← List.drop_eq_getElem_cons, List.take_append_drop]
      · simpa using hstop
      · intro b hb
        obtain ⟨i, hi, rfl⟩ := List.mem_iff_getElem.mp hb
        rw [List.length_take, List.length_drop] at hi
        rw [List.getElem_take, List.getElem_drop, ← List.getD_eq_getElem _ 0]
        exact hpass _ (by omega) (by omega)
      · rw [List.length_take, List.length_take, List.length_drop]
        omega

/-- A name has its normal form exactly if it is not cut after a blank. -/
theorem normalForm_iff (raw : Bytes) :
    NormalForm raw (sanitiseInstanceName raw) ↔ ¬ CutAfterBlank raw := by
  rw [cutAfterBlank_iff, sanitiseInstanceName_eq]
  by_cases h0 : utf8SafeLength (kept raw) kMaxNameBytes = 0
  · rw [if_pos h0, h0, ofString_webLinked]
    constructor
    · rintro - ⟨b, hb, -⟩
      cases hb
    · rintro -
      have hplain : ∀ b ∈ ([87, 101, 98, 76, 105, 110, 107, 101, 100] : Bytes),
          b ≠ 46 ∧ ¬ IsControl b := by
        simp [IsControl]
      exact
        { pos := by decide
          le := by decide
          plain := hplain
          starts := by simp [isSpace]
          ends := by simp [isSpace]
          utf8 := fun _ ↦ Utf8.valid_of_forall_lt (by simp)
          fixed := sanitiseInstanceName_eq_self (by decide) (by decide) hplain (by simp [isSpace])
            (by simp [isSpace]) }
  rw [if_neg h0]
  have hle : utf8SafeLength (kept raw) kMaxNameBytes ≤ (kept raw).length :=
    utf8SafeLength_le_length
  have hlimit : utf8SafeLength (kept raw) kMaxNameBytes ≤ kMaxNameBytes :=
    utf8SafeLength_le_limit
  have hutf8 : IsUtf8 raw →
      IsUtf8 ((kept raw).take (utf8SafeLength (kept raw) kMaxNameBytes)) :=
    fun h ↦ h.kept.take
  generalize utf8SafeLength (kept raw) kMaxNameBytes = n at *
  have hlength : (((kept raw).take n).map dash).length = n := by
    rw [List.length_map, List.length_take]
    omega
  have hplain : ∀ b ∈ ((kept raw).take n).map dash, b ≠ 46 ∧ ¬ IsControl b := by
    intro b hb
    obtain ⟨c, hc, rfl⟩ := List.mem_map.mp hb
    exact dash_plain (mem_kept (List.mem_of_mem_take hc))
  have hstarts : ∀ b ∈ (((kept raw).take n).map dash).head?, isSpace b = false := by
    apply head?_map_dash
    rw [List.head?_take, if_neg h0]
    exact head?_kept
  constructor
  · rintro h ⟨b, hb, hspace⟩
    have hlast := h.ends (dash b) (by rw [List.getLast?_map, Option.mem_def.mp hb]; rfl)
    rw [isSpace_dash, hspace] at hlast
    cases hlast
  · intro h
    have hends : ∀ b ∈ (((kept raw).take n).map dash).getLast?, isSpace b = false := by
      intro b hb
      rw [List.getLast?_map, Option.mem_map] at hb
      obtain ⟨c, hc, rfl⟩ := hb
      rw [isSpace_dash, ← Bool.not_eq_true]
      intro hspace
      exact h ⟨c, hc, hspace⟩
    exact
      { pos := by omega
        le := by omega
        plain := hplain
        starts := hstarts
        ends := hends
        utf8 := fun h ↦ (hutf8 h).map_dash
        fixed := sanitiseInstanceName_eq_self (by omega) (by omega) hplain hstarts hends }

/-- A name of 62 letters, a space and more is cut after the space. -/
theorem not_normalForm :
    ¬ NormalForm (List.replicate 62 97 ++ [32, 98])
      (sanitiseInstanceName (List.replicate 62 97 ++ [32, 98])) := by
  intro h
  have hname : sanitiseInstanceName (List.replicate 62 97 ++ [32, 98]) =
      List.replicate 62 97 ++ [32] := by
    decide +kernel
  have hends := h.ends 32 (by rw [hname, List.getLast?_concat]; rfl)
  exact absurd hends (by decide)

/-! ### The port -/

/-- What is kept of the host part and of the bracket that opens after it. -/
def hostPart (host : Bytes) : Bytes :=
  (((if host = [] then ofString "WebLinked" else host) ++ ofString " (").filter
    (¬ IsControl ·)).dropWhile isSpace

/-- What follows the host part. -/
def portPart (httpPort : UInt16) : Bytes := toText httpPort.toNat ++ ofString ")"

theorem mem_toText (hb : b ∈ toText n) : 48 ≤ b.toNat ∧ b.toNat ≤ 57 := by
  obtain ⟨c, hc, rfl⟩ := List.mem_map.mp hb
  have hdigit := Nat.isDigit_of_mem_toDigits (by decide) (by decide) hc
  simp only [Char.isDigit, Bool.and_eq_true, decide_eq_true_eq, UInt32.le_iff_toNat_le] at hdigit
  obtain ⟨hlow, hhigh⟩ := hdigit
  change 48 ≤ c.toNat at hlow
  change c.toNat ≤ 57 at hhigh
  rw [UInt8.toNat_ofNat']
  omega

theorem mem_portPart {httpPort : UInt16} (hb : b ∈ portPart httpPort) :
    b.toNat = 41 ∨ 48 ≤ b.toNat ∧ b.toNat ≤ 57 := by
  cases List.mem_append.mp hb with
  | inl hdigit => exact Or.inr (mem_toText hdigit)
  | inr hclose =>
    rw [List.mem_singleton.mp hclose]
    exact Or.inl rfl

theorem isContinuation_of_mem_portPart {httpPort : UInt16} (hb : b ∈ portPart httpPort) :
    isContinuation b = false := by
  have hrange := mem_portPart hb
  rw [← Bool.not_eq_true, isContinuation_iff]
  unfold Utf8.IsContinuation
  omega

theorem hostPart_ne_nil (host : Bytes) : hostPart host ≠ [] := by
  unfold hostPart
  rw [Ne, List.dropWhile_eq_nil_iff]
  intro h
  have hopen := h 40 (by
    rw [List.mem_filter]
    exact ⟨List.mem_append_right _ (by decide), by decide⟩)
  exact absurd hopen (by decide)

/-- Nothing of the port is left out before the cut. -/
theorem kept_host (host : Bytes) (httpPort : UInt16) :
    kept ((if host = [] then ofString "WebLinked" else host) ++ ofString " (" ++
      toText httpPort.toNat ++ ofString ")") = hostPart host ++ portPart httpPort := by
  have hport : (portPart httpPort).filter (¬ IsControl ·) = portPart httpPort := by
    rw [List.filter_eq_self]
    intro b hb
    have hrange := mem_portPart hb
    rw [decide_eq_true_eq]
    unfold IsControl
    rw [UInt8.lt_iff_toNat_lt, ← UInt8.toNat_inj]
    have h20 : (0x20 : UInt8).toNat = 32 := rfl
    have h7F : (0x7F : UInt8).toNat = 127 := rfl
    omega
  have hne := hostPart_ne_nil host
  unfold kept
  rw [List.append_assoc _ _ (ofString ")"), ← portPart, List.filter_append, hport,
    List.dropWhile_append, if_neg (by rw [List.isEmpty_iff]; exact hne)]
  unfold portPart
  rw [← List.append_assoc, ← List.append_assoc (hostPart host)]
  exact List.rdropWhile_concat_neg isSpace _ 41 (by decide)

theorem backUp_append {rest : Bytes} (h : n < text.length) :
    backUp (text ++ rest) n = backUp text n := by
  induction n with
  | zero => rfl
  | succ n ih =>
    unfold backUp
    rw [List.getD_append _ _ _ _ h, ih (by omega)]

/-- Before the limit the cut takes off what is over it, and no more. -/
theorem take_utf8SafeLength_append {rest : Bytes} (h : text.length ≤ n)
    (hrest : ∀ b ∈ rest, isContinuation b = false) :
    (text ++ rest).take (utf8SafeLength (text ++ rest) n) =
      text ++ rest.take (n - text.length) := by
  by_cases hle : (text ++ rest).length ≤ n
  · have hlength := hle
    rw [List.length_append] at hlength
    rw [utf8SafeLength, if_pos hle, List.take_length, List.take_of_length_le (by omega)]
  · have hcut : utf8SafeLength (text ++ rest) n = n := by
      rw [List.length_append] at hle
      have hlt : n - text.length < rest.length := by omega
      rw [utf8SafeLength, if_neg (by rwa [List.length_append]), backUp_eq_iff]
      refine ⟨le_rfl, Or.inr ?_, by omega⟩
      rw [List.getD_append_right _ _ _ _ h, List.getD_eq_getElem _ _ hlt]
      exact hrest _ (List.getElem_mem hlt)
    rw [hcut, List.take_append, List.take_of_length_le h]

/-- The names of one host are the same, but for what the limit leaves of the port. -/
theorem exists_instanceNameFor_eq (host : Bytes) : ∃ common, ∀ httpPort,
    instanceNameFor [] host httpPort =
      common ++ (portPart httpPort).take (kMaxNameBytes - (hostPart host).length) := by
  by_cases h : (hostPart host).length ≤ kMaxNameBytes
  · refine ⟨(hostPart host).map dash, fun httpPort ↦ ?_⟩
    have htake := take_utf8SafeLength_append h
      fun b (hb : b ∈ portPart httpPort) ↦ isContinuation_of_mem_portPart hb
    have hdash : ((portPart httpPort).take (kMaxNameBytes - (hostPart host).length)).map dash =
        (portPart httpPort).take (kMaxNameBytes - (hostPart host).length) := by
      conv_rhs => rw [← List.map_id (List.take _ _)]
      apply List.map_congr_left
      intro b hb
      have hrange := mem_portPart (List.mem_of_mem_take hb)
      refine if_neg ?_
      rintro rfl
      exact absurd hrange (by decide)
    rw [instanceNameFor, if_neg (by simp), sanitiseInstanceName_eq]
    rw [kept_host, if_neg, htake, List.map_append, hdash]
    intro h0
    rw [h0, List.take_zero] at htake
    exact hostPart_ne_nil host (List.append_eq_nil_iff.mp htake.symm).1
  · refine ⟨if utf8SafeLength (hostPart host) kMaxNameBytes = 0 then ofString "WebLinked"
      else ((hostPart host).take (utf8SafeLength (hostPart host) kMaxNameBytes)).map dash,
      fun httpPort ↦ ?_⟩
    have hcut : utf8SafeLength (hostPart host ++ portPart httpPort) kMaxNameBytes =
        utf8SafeLength (hostPart host) kMaxNameBytes := by
      unfold utf8SafeLength
      rw [if_neg h, if_neg (by rw [List.length_append]; omega), backUp_append (by omega)]
    rw [instanceNameFor, if_neg (by simp), sanitiseInstanceName_eq]
    rw [kept_host, hcut, List.take_append_of_le_length utf8SafeLength_le_length,
      Nat.sub_eq_zero_of_le (by omega), List.take_zero, List.append_nil]

/-- The names of two ports differ exactly if what the limit leaves of them does. -/
theorem instanceNameFor_ne_iff (host : Bytes) (p q : UInt16) :
    instanceNameFor [] host p ≠ instanceNameFor [] host q ↔
      (toText p.toNat ++ ofString ")").take (kMaxNameBytes - (hostPart host).length) ≠
        (toText q.toNat ++ ofString ")").take (kMaxNameBytes - (hostPart host).length) := by
  obtain ⟨common, hcommon⟩ := exists_instanceNameFor_eq host
  rw [hcommon p, hcommon q, Ne, List.append_cancel_left_eq]
  rfl

/-- Two ports of a host with a name of 63 letters have one name. -/
theorem instanceNameFor_eq :
    ∃ host p q, p ≠ q ∧ instanceNameFor [] host p = instanceNameFor [] host q :=
  ⟨List.replicate 63 97, 7654, 7664, by decide, by decide +kernel⟩

end WebLinked.Core.Mdns
