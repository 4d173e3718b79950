import Mathlib

/-!
# UTF-8

Bytes are natural numbers. A text is valid if it is what some characters are encoded as, so what is
left to show is where such a text may be cut: an encoding is a prefix code, and only the first byte
of a character is no continuation byte.
-/

namespace WebLinked.Base.Utf8

/-- The bytes of a character. -/
def bytes (c : Char) : List ℕ := (String.utf8EncodeChar c).map UInt8.toNat

/-- The bytes of some characters. -/
def encode (text : List Char) : List ℕ := text.flatMap bytes

/-- The bytes of some characters, whichever they are. -/
def Valid (b : List ℕ) : Prop := ∃ text, encode text = b

/-- A byte inside a character. -/
def IsContinuation (n : ℕ) : Prop := 0x80 ≤ n ∧ n < 0xC0

instance : DecidablePred IsContinuation := fun _ ↦ inferInstanceAs (Decidable (_ ∧ _))

variable {a b : List ℕ} {c d : Char} {n : ℕ}

/-- The four forms of a character. -/
theorem bytes_eq (c : Char) : bytes c =
    if c.toNat < 0x80 then [c.toNat]
    else if c.toNat < 0x800 then [0xC0 + c.toNat / 64, 0x80 + c.toNat % 64]
    else if c.toNat < 0x10000 then
      [0xE0 + c.toNat / 4096, 0x80 + c.toNat / 64 % 64, 0x80 + c.toNat % 64]
    else
      [0xF0 + c.toNat / 262144, 0x80 + c.toNat / 4096 % 64, 0x80 + c.toNat / 64 % 64,
        0x80 + c.toNat % 64] := by
  have hlt : c.toNat < 0x110000 := by
    have := c.valid
    simp only [UInt32.isValidChar, Nat.isValidChar] at this
    simp only [Char.toNat]
    omega
  unfold bytes String.utf8EncodeChar
  simp only [Char.toNat] at hlt ⊢
  generalize c.val.toNat = n at hlt ⊢
  by_cases h1 : n < 0x80
  · rw [if_pos h1, if_pos (by omega)]
    simp only [List.map_cons, List.map_nil, UInt8.toNat_ofNat', List.cons.injEq, and_true]
    omega
  by_cases h2 : n < 0x800
  · rw [if_neg h1, if_pos h2, if_neg (by omega), if_pos (by omega)]
    simp only [List.map_cons, List.map_nil, UInt8.toNat_ofNat', List.cons.injEq, and_true]
    omega
  by_cases h3 : n < 0x10000
  · rw [if_neg h1, if_neg h2, if_pos h3, if_neg (by omega), if_neg (by omega), if_pos (by omega)]
    simp only [List.map_cons, List.map_nil, UInt8.toNat_ofNat', List.cons.injEq, and_true]
    omega
  · rw [if_neg h1, if_neg h2, if_neg h3, if_neg (by omega), if_neg (by omega), if_neg (by omega)]
    simp only [List.map_cons, List.map_nil, UInt8.toNat_ofNat', List.cons.injEq, and_true]
    omega

/-- A character below 128 is its own byte. -/
theorem bytes_of_lt (h : c.toNat < 0x80) : bytes c = [c.toNat] := by
  rw [bytes_eq, if_pos h]

/-- Only the first byte of a character is no continuation byte. -/
theorem exists_bytes_eq (c : Char) :
    ∃ first rest, bytes c = first :: rest ∧ ¬ IsContinuation first ∧
      ∀ n ∈ rest, IsContinuation n := by
  rw [bytes_eq]
  unfold IsContinuation
  split
  · exact ⟨_, _, rfl, by omega, List.forall_mem_nil _⟩
  split
  · refine ⟨_, _, rfl, by omega, ?_⟩
    simp only [List.mem_cons, List.not_mem_nil, or_false, forall_eq]
    omega
  split
  · refine ⟨_, _, rfl, by omega, ?_⟩
    simp only [List.mem_cons, List.not_mem_nil, or_false, forall_eq_or_imp, forall_eq]
    omega
  · refine ⟨_, _, rfl, by omega, ?_⟩
    simp only [List.mem_cons, List.not_mem_nil, or_false, forall_eq_or_imp, forall_eq]
    omega

/-- From 128 on every byte of a character is at least 128. -/
theorem le_of_mem_bytes (h : 0x80 ≤ c.toNat) (hn : n ∈ bytes c) : 0x80 ≤ n := by
  rw [bytes_eq, if_neg (by omega)] at hn
  split at hn
  · simp only [List.mem_cons, List.not_mem_nil, or_false] at hn
    omega
  split at hn
  · simp only [List.mem_cons, List.not_mem_nil, or_false] at hn
    omega
  · simp only [List.mem_cons, List.not_mem_nil, or_false] at hn
    omega

/-- No character goes on as another one. -/
theorem bytes_append_inj (h : bytes c ++ a = bytes d ++ b) : c = d ∧ a = b := by
  have hchar : c.toNat = d.toNat → c = d := by
    intro heq
    rw [← Char.ofNat_toNat c, heq, Char.ofNat_toNat]
  rw [bytes_eq, bytes_eq] at h
  repeat' split at h
  all_goals
    simp only [List.cons_append, List.nil_append, List.cons.injEq] at h
    -- Of two forms the first bytes differ, of one form every byte is the same.
    first
    | omega
    | exact ⟨hchar (by omega), by simp only [h]⟩

@[simp] theorem encode_nil : encode [] = [] := rfl

@[simp] theorem encode_cons (c : Char) (text : List Char) :
    encode (c :: text) = bytes c ++ encode text :=
  List.flatMap_cons

theorem encode_append (s t : List Char) : encode (s ++ t) = encode s ++ encode t :=
  List.flatMap_append

theorem valid_nil : Valid [] := ⟨[], rfl⟩

theorem valid_bytes (c : Char) : Valid (bytes c) := ⟨[c], by simp⟩

theorem Valid.append (ha : Valid a) (hb : Valid b) : Valid (a ++ b) := by
  obtain ⟨s, rfl⟩ := ha
  obtain ⟨t, rfl⟩ := hb
  exact ⟨s ++ t, encode_append s t⟩

/-- What follows a valid text is what it makes of the whole. -/
theorem Valid.append_iff (ha : Valid a) : Valid (a ++ b) ↔ Valid b := by
  refine ⟨?_, ha.append⟩
  obtain ⟨s, rfl⟩ := ha
  rintro ⟨t, ht⟩
  induction s generalizing t with
  | nil => exact ⟨t, ht⟩
  | cons c s ih =>
    rw [encode_cons, List.append_assoc] at ht
    cases t with
    | nil =>
      obtain ⟨first, rest, heq, -⟩ := exists_bytes_eq c
      rw [heq] at ht
      cases ht
    | cons d t =>
      rw [encode_cons] at ht
      exact ih t (bytes_append_inj ht).2

/-- A text may be cut before every byte that is no continuation byte. -/
theorem Valid.of_append (h : Valid (a ++ b)) (hb : ∀ n ∈ b.head?, ¬ IsContinuation n) :
    Valid a := by
  obtain ⟨t, ht⟩ := h
  induction t generalizing a with
  | nil =>
    obtain ⟨rfl, -⟩ := List.append_eq_nil_iff.mp ht.symm
    exact valid_nil
  | cons c t ih =>
    rw [encode_cons] at ht
    obtain ⟨mid, ha, hmid⟩ | ⟨mid, hc, hmid⟩ := List.append_eq_append_iff.mp ht
    · rw [ha]
      exact (valid_bytes c).append (ih hmid)
    · obtain ⟨first, rest, hbytes, -, hrest⟩ := exists_bytes_eq c
      rw [hbytes] at hc
      cases a with
      | nil => exact valid_nil
      | cons n a =>
        rw [List.cons_append, List.cons.injEq] at hc
        cases mid with
        | nil =>
          rw [← hc.1, ← List.append_nil a, ← hc.2, ← hbytes]
          exact valid_bytes c
        | cons m mid =>
          -- The cut is inside the character.
          have hcont : IsContinuation m := hrest m (by rw [hc.2]; simp)
          rw [hmid] at hb
          exact absurd hcont (hb m rfl)

theorem valid_append_iff (hb : ∀ n ∈ b.head?, ¬ IsContinuation n) :
    Valid (a ++ b) ↔ Valid a ∧ Valid b := by
  constructor
  · intro h
    have ha := h.of_append hb
    exact ⟨ha, ha.append_iff.mp h⟩
  · rintro ⟨ha, hb⟩
    exact ha.append hb

/-- A byte below 128 is a character. -/
theorem valid_singleton (h : n < 0x80) : Valid [n] := by
  refine ⟨[Char.ofNat n], ?_⟩
  have hn : (Char.ofNat n).toNat = n := by
    rw [Char.toNat_ofNat, if_pos]
    exact Or.inl (by omega)
  rw [encode_cons, encode_nil, List.append_nil, bytes_of_lt (by omega), hn]

theorem valid_cons_iff (h : n < 0x80) : Valid (n :: b) ↔ Valid b :=
  (valid_singleton h).append_iff (a := [n])

/-- Bytes below 128 are a text. -/
theorem valid_of_forall_lt (h : ∀ n ∈ b, n < 0x80) : Valid b := by
  induction b with
  | nil => exact valid_nil
  | cons n b ih =>
    rw [List.forall_mem_cons] at h
    exact (valid_cons_iff h.1).mpr (ih h.2)

/-- No character is a surrogate. -/
theorem not_valid_surrogate (h : 0xA0 ≤ n) (hlt : n < 0xC0) : ¬ Valid (0xED :: n :: b) := by
  rintro ⟨text, htext⟩
  cases text with
  | nil => cases htext
  | cons c text =>
    have hvalid : c.toNat < 0xD800 ∨ 0xDFFF < c.toNat ∧ c.toNat < 0x110000 := c.valid
    rw [encode_cons, bytes_eq] at htext
    repeat' split at htext
    all_goals
      simp only [List.cons_append, List.nil_append, List.cons.injEq] at htext
      omega

/-- Characters below 128 may be left out or replaced by others of them. -/
theorem Valid.flatMap (h : Valid b) {f : ℕ → List ℕ} (hlt : ∀ n < 0x80, ∀ m ∈ f n, m < 0x80)
    (hge : ∀ n, 0x80 ≤ n → f n = [n]) : Valid (b.flatMap f) := by
  obtain ⟨t, rfl⟩ := h
  induction t with
  | nil => exact valid_nil
  | cons c t ih =>
    rw [encode_cons, List.flatMap_append]
    refine Valid.append ?_ ih
    by_cases hc : c.toNat < 0x80
    · rw [bytes_of_lt hc, List.flatMap_singleton]
      exact valid_of_forall_lt (hlt _ hc)
    · have hsame : (bytes c).flatMap f = bytes c := by
        rw [List.flatMap_congr fun n hn ↦ hge n (le_of_mem_bytes (by omega) hn)]
        simp
      rw [hsame]
      exact valid_bytes c

end WebLinked.Base.Utf8
