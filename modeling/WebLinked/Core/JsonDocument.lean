import WebLinked.Core.JsonRoundTrip

/-!
# Documents that are set and read by key

What is read again of a document, asked for its members and elements, and how deep a document is
that `set` puts together.
-/

namespace WebLinked.Core.Json.Value

open WebLinked.Base

variable {v x : Value} {key : String} {n : ℕ}

section Reread

/-- The elements are read again each by itself. -/
theorem rereadElements_eq_map (elements : List Value) :
    rereadElements elements = elements.map reread := by
  induction elements with
  | nil => rfl
  | cons v elements ih => rw [rereadElements, ih, List.map_cons]

theorem reread_array (elements : List Value) :
    (array elements).reread = array (elements.map reread) := by
  rw [reread, rereadElements_eq_map]

@[simp] theorem elements_reread (v : Value) : v.reread.elements = v.elements.map reread := by
  cases v with
  | number x =>
    rw [reread]
    split <;> rfl
  | array list =>
    rw [reread_array]
    rfl
  | _ => simp [reread, elements]

@[simp] theorem isArray_reread (v : Value) : v.reread.isArray = v.isArray := by
  cases v with
  | number x =>
    rw [reread]
    split <;> rfl
  | _ => simp [reread, isArray]

@[simp] theorem isObject_reread (v : Value) : v.reread.isObject = v.isObject := by
  cases v with
  | number x =>
    rw [reread]
    split <;> rfl
  | _ => simp [reread, isObject]

theorem members_reread (v : Value) : v.reread.members = rereadMembers v.members := by
  cases v with
  | number x =>
    rw [reread]
    split <;> rfl
  | _ => simp [reread, members, rereadMembers]

/-- What stands under a key is read again. -/
@[simp] theorem get_reread (v : Value) (key : String) :
    v.reread.get key = (v.get key).reread := by
  rw [get, get, members_reread]
  induction v.members with
  | nil => simp [rereadMembers, reread]
  | cons m members ih =>
    obtain ⟨k, w⟩ := m
    rw [rereadMembers, List.lookup_cons, List.lookup_cons]
    cases key == k with
    | true => rfl
    | false => exact ih

@[simp] theorem has_reread (v : Value) (key : String) : v.reread.has key = v.has key := by
  rw [has, has, members_reread]
  induction v.members with
  | nil => rfl
  | cons m members ih =>
    rw [rereadMembers, List.any_cons, List.any_cons, ih]

@[simp] theorem asString_reread (v : Value) (fallback : String) :
    v.reread.asString fallback = v.asString fallback := by
  cases v with
  | number x =>
    rw [reread]
    split <;> rfl
  | _ => simp [reread, asString]

@[simp] theorem asBool_reread_bool (b fallback : Bool) :
    (Value.bool b).reread.asBool fallback = b := by
  simp [reread, asBool]

end Reread

section Elements

variable {elements : List Value}

/-- An array is one level deeper than its elements. -/
theorem depth_array_le : (array elements).depth ≤ n + 1 ↔ ∀ v ∈ elements, v.depth ≤ n := by
  rw [depth, Nat.add_le_add_iff_right]
  induction elements with
  | nil => simp [depthElements]
  | cons v elements ih => rw [depthElements, max_le_iff, ih, List.forall_mem_cons]

/-- No key is there twice in an array when none is in its elements. -/
theorem keyed_array : (array elements).Keyed ↔ ∀ v ∈ elements, v.Keyed := by
  rw [Keyed]
  induction elements with
  | nil => simp [KeyedElements]
  | cons v elements ih => rw [KeyedElements, ih, List.forall_mem_cons]

/-- Every number in an array is read again when every one in its elements is. -/
theorem exact_array : (array elements).Exact ↔ ∀ v ∈ elements, v.Exact := by
  rw [Exact]
  induction elements with
  | nil => simp [ExactElements]
  | cons v elements ih => rw [ExactElements, ih, List.forall_mem_cons]

/-- An element is less deep. -/
theorem depth_lt_of_mem_elements (h : x ∈ v.elements) : x.depth < v.depth := by
  cases v with
  | array elements =>
    have hdepth : (array elements).depth = depthElements elements + 1 := by rw [depth]
    have hle := depth_array_le.mp hdepth.le x h
    omega
  | _ => exact absurd h List.not_mem_nil

end Elements

section Members

variable {members : List (String × Value)}

/-- An object is one level deeper than its members. -/
theorem depth_object_le : (object members).depth ≤ n + 1 ↔ ∀ m ∈ members, m.2.depth ≤ n := by
  rw [depth, Nat.add_le_add_iff_right]
  induction members with
  | nil => simp [depthMembers]
  | cons m members ih => rw [depthMembers, max_le_iff, ih, List.forall_mem_cons]

/-- No key is there twice in an object when none is in it or in its members. -/
theorem keyed_object : (object members).Keyed ↔
    (members.map Prod.fst).Nodup ∧ ∀ m ∈ members, m.2.Keyed := by
  have hmembers : KeyedMembers members ↔ ∀ m ∈ members, m.2.Keyed := by
    induction members with
    | nil => simp [KeyedMembers]
    | cons m members ih => rw [KeyedMembers, ih, List.forall_mem_cons]
  rw [Keyed, hmembers]

/-- Every number in an object is read again when every one in its members is. -/
theorem exact_object : (object members).Exact ↔ ∀ m ∈ members, m.2.Exact := by
  rw [Exact]
  induction members with
  | nil => simp [ExactMembers]
  | cons m members ih => rw [ExactMembers, ih, List.forall_mem_cons]

/-- A member after `set` is the new one or was there before. -/
theorem mem_setMember {m : String × Value} (h : m ∈ setMember key x members) :
    m = (key, x) ∨ m ∈ members := by
  induction members with
  | nil => exact Or.inl (List.mem_singleton.mp h)
  | cons w members ih =>
    rw [setMember] at h
    split at h
    · rcases List.mem_cons.mp h with h | h
      · exact Or.inl h
      · exact Or.inr (List.mem_cons_of_mem _ h)
    · rcases List.mem_cons.mp h with rfl | h
      · exact Or.inr List.mem_cons_self
      · exact (ih h).imp_right (List.mem_cons_of_mem _)

theorem nodup_setMember (h : (members.map Prod.fst).Nodup) :
    ((setMember key x members).map Prod.fst).Nodup := by
  induction members with
  | nil => exact List.nodup_singleton key
  | cons m members ih =>
    obtain ⟨hm, hrest⟩ := List.nodup_cons.mp h
    rw [setMember]
    split
    · next heq =>
      subst heq
      exact h
    · next hne =>
      refine List.nodup_cons.mpr ⟨fun hin ↦ ?_, ih hrest⟩
      obtain ⟨w, hw, heq⟩ := List.mem_map.mp hin
      rcases mem_setMember hw with rfl | hw
      · exact hne heq.symm
      · exact hm (heq ▸ List.mem_map_of_mem hw)

/-- The other members of an object with a key once are still there. -/
theorem mem_setMember_iff (h : (members.map Prod.fst).Nodup) {m : String × Value} :
    m ∈ setMember key x members ↔ m = (key, x) ∨ m ∈ members ∧ m.1 ≠ key := by
  induction members with
  | nil => simp [setMember]
  | cons w members ih =>
    obtain ⟨hw, hrest⟩ := List.nodup_cons.mp h
    rw [setMember]
    split
    · next heq =>
      have hne : ∀ m ∈ members, m.1 ≠ key := by
        rintro m hm rfl
        exact hw (heq ▸ List.mem_map_of_mem hm)
      rw [List.mem_cons, List.mem_cons]
      constructor
      · rintro (hm | hm)
        · exact Or.inl hm
        · exact Or.inr ⟨Or.inr hm, hne m hm⟩
      · rintro (hm | ⟨rfl | hm, hkey⟩)
        · exact Or.inl hm
        · exact absurd heq hkey
        · exact Or.inr hm
    · next hne =>
      rw [List.mem_cons, List.mem_cons, ih hrest]
      constructor
      · rintro (rfl | hm | ⟨hm, hkey⟩)
        · exact Or.inr ⟨Or.inl rfl, hne⟩
        · exact Or.inl hm
        · exact Or.inr ⟨Or.inr hm, hkey⟩
      · rintro (hm | ⟨rfl | hm, hkey⟩)
        · exact Or.inr (Or.inl hm)
        · exact Or.inl rfl
        · exact Or.inr (Or.inr ⟨hm, hkey⟩)

private theorem mem_of_mem_members (P : Value → Prop)
    (h : ∀ m ∈ v.members, P m.2) (hx : P x) : ∀ m ∈ setMember key x v.members, P m.2 := by
  intro m hm
  rcases mem_setMember hm with rfl | hm
  · exact hx
  · exact h m hm

/-- What is set is no deeper than it may be. -/
theorem depth_set_le (hv : v.depth ≤ n + 1) (hx : x.depth ≤ n) : (v.set key x).depth ≤ n + 1 := by
  refine depth_object_le.mpr (mem_of_mem_members (fun w ↦ w.depth ≤ n) ?_ hx)
  cases v with
  | object members => exact depth_object_le.mp hv
  | _ => exact fun _ hm ↦ absurd hm List.not_mem_nil

/-- `set` leaves every key there once. -/
theorem keyed_set (hv : v.Keyed) (hx : x.Keyed) : (v.set key x).Keyed := by
  have hmembers : (v.members.map Prod.fst).Nodup ∧ ∀ m ∈ v.members, m.2.Keyed := by
    cases v with
    | object members => exact keyed_object.mp hv
    | _ => simp [Value.members]
  exact keyed_object.mpr ⟨nodup_setMember hmembers.1,
    mem_of_mem_members Keyed hmembers.2 hx⟩

/-- Setting what is read again leaves a value that is. -/
theorem exact_set (hv : v.Exact) (hx : x.Exact) : (v.set key x).Exact := by
  refine exact_object.mpr (mem_of_mem_members Exact ?_ hx)
  cases v with
  | object members => exact exact_object.mp hv
  | _ => exact fun _ hm ↦ absurd hm List.not_mem_nil

private theorem mem_of_lookup {members : List (String × Value)} (h : members.lookup key = some x) :
    (key, x) ∈ members := by
  induction members with
  | nil => cases h
  | cons m members ih =>
    obtain ⟨k, w⟩ := m
    rw [List.lookup_cons] at h
    cases hk : key == k with
    | true =>
      rw [hk] at h
      cases h
      rw [beq_iff_eq.mp hk]
      exact List.mem_cons_self
    | false =>
      rw [hk] at h
      exact List.mem_cons_of_mem _ (ih h)

/-- A member is less deep. -/
theorem depth_get_lt (h : v.get key ≠ null) : (v.get key).depth < v.depth := by
  cases hl : v.members.lookup key with
  | none => exact absurd (by rw [get, hl]; rfl) h
  | some w =>
    have hw : v.get key = w := by rw [get, hl]; rfl
    rw [hw]
    cases v with
    | object members =>
      have hdepth : (object members).depth = depthMembers members + 1 := by rw [depth]
      have hle : w.depth ≤ depthMembers members := depth_object_le.mp hdepth.le _ (mem_of_lookup hl)
      omega
    | _ => cases hl

end Members

section Int

variable {i : ℤ}

/-- An `int` is read again. -/
theorem exact_int (h : i.natAbs < 10 ^ 15) : (int i).Exact := by
  have h53 : i.natAbs < 2 ^ 53 := by omega
  rw [int, Exact, Double.ofInt_eq h53]
  refine ⟨fun hneg ↦ ?_, Or.inl ⟨i.natAbs, h, rfl⟩⟩
  have hneg := of_decide_eq_true hneg
  have hne : ((i.natAbs : ℕ) : ℚ) ≠ 0 := Nat.cast_ne_zero.mpr (by omega)
  exact hne

/-- `asInt` gives back an `int`. -/
theorem asInt_int (hl : -2 ^ 31 ≤ i) (hu : i < 2 ^ 31) (fallback : ℤ) :
    (int i).asInt fallback = i := by
  have hround : (Double.ofInt i).llround = i := by
    rw [Double.llround_eq, Double.rounded_ofInt (by omega)]
    exact if_pos (by omega)
  rw [asInt, int, asInt64, hround, Int.bmod_def]
  split <;> omega

/-- Also when it has been read. -/
theorem asInt_reread_int (hl : -2 ^ 31 ≤ i) (hu : i < 2 ^ 31) (fallback : ℤ) :
    (int i).reread.asInt fallback = i := by
  rw [(reread_eq_iff (int i)).mpr (exact_int (by omega)), asInt_int hl hu]

end Int

section Plain

/-- Put together of null, booleans, integers below 10^15, texts, arrays, and objects that have no
key twice. -/
inductive Plain : Value → Prop where
  | null : Plain null
  | bool (b : Bool) : Plain (bool b)
  | int {i : ℤ} (h : i.natAbs < 10 ^ 15) : Plain (int i)
  | string (text : String) : Plain (string text)
  | array {elements : List Value} (h : ∀ v ∈ elements, Plain v) : Plain (array elements)
  | object {members : List (String × Value)} (hkeys : (members.map Prod.fst).Nodup)
      (h : ∀ m ∈ members, Plain m.2) : Plain (object members)

theorem Plain.keyed (h : v.Plain) : v.Keyed := by
  induction h with
  | array _ ih => exact keyed_array.mpr ih
  | object hkeys _ ih => exact keyed_object.mpr ⟨hkeys, ih⟩
  | int _ => simp [Value.int, Keyed]
  | _ => simp [Keyed]

theorem Plain.exact (h : v.Plain) : v.Exact := by
  induction h with
  | int hi => exact exact_int hi
  | array _ ih => exact exact_array.mpr ih
  | object _ _ ih => exact exact_object.mpr ih
  | _ => simp [Exact]

/-- A plain value that is not nested too deep is read as it was written. -/
theorem parse_serialize_plain (h : v.Plain) (hdepth : v.depth ≤ 64) (pretty : Bool) :
    parse (v.serialize pretty) = .ok v := by
  have hread := parse_serialize h.keyed pretty
  rw [Parser.kMaxDepth, if_pos hdepth, (reread_eq_iff v).mpr h.exact] at hread
  cases hparsed : parse (v.serialize pretty) with
  | error message =>
    rw [hparsed] at hread
    cases hread
  | ok w =>
    rw [hparsed] at hread
    cases hread
    rfl

/-- A list with a member of each kind, and a NUL in a text, in both layouts. -/
theorem parse_serialize_sample :
    let v := array [null, bool true, int (-7), object [("a", string "x\x00\"y"), ("b", array [])]]
    ∀ pretty, parse (v.serialize pretty) = .ok v := by
  refine parse_serialize_plain (Plain.array ?_) (by decide)
  simp only [List.mem_cons, List.not_mem_nil, or_false, forall_eq_or_imp, forall_eq]
  refine ⟨Plain.null, Plain.bool _, Plain.int (by decide), Plain.object (by decide) ?_⟩
  simp only [List.mem_cons, List.not_mem_nil, or_false, forall_eq_or_imp, forall_eq]
  exact ⟨Plain.string _, Plain.array (List.forall_mem_nil _)⟩

end Plain

end WebLinked.Core.Json.Value
