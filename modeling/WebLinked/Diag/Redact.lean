import Mathlib
import WebLinked.Core.JsonDocument
import WebLinked.Core.StreamArgs

/-!
# What a diagnostics bundle shows of the configuration

`src/diag/diag.cpp:175–207`. A member whose key looks like the name of a secret is shown as a
marker, whatever its value; everything else is shown as it is.
-/

namespace WebLinked.Diag

open WebLinked.Core WebLinked.Core.Json

/-- `kSuspicious`; `src/diag/diag.cpp:178`. -/
def kSuspicious : List String :=
  ["password", "secret", "token", "key", "credential", "auth", "cookie"]

/-- The test of a key; `src/diag/diag.cpp:184–194`. -/
def suspicious (key : String) : Bool :=
  kSuspicious.any fun needle ↦
    (findText needle.toList (key.toList.map Char.toLower)).isSome

/-- What stands for a secret. -/
def marker : Value := .string "[redacted]"

/-- `push`, which makes an array of anything else; `src/core/json.cpp:414`. -/
def push (v value : Value) : Value := .array (v.elements ++ [value])

mutual

/-- `redact`; `src/diag/diag.cpp:177`. -/
def redact : Value → Value
  | .object members => redactMembers members (.object [])
  | .array elements => redactElements elements (.array [])
  | .null => .null
  | .bool value => .bool value
  | .number value => .number value
  | .string value => .string value

/-- The loop over the members of an object. -/
def redactMembers : List (String × Value) → Value → Value
  | [], out => out
  | (key, child) :: members, out =>
    redactMembers members (out.set key (if suspicious key then marker else redact child))

/-- The loop over the elements of an array. -/
def redactElements : List Value → Value → Value
  | [], out => out
  | element :: elements, out => redactElements elements (push out (redact element))

end

/-- A key contains one of the words, in whatever case. -/
def IsSuspicious (key : String) : Prop :=
  ∃ needle ∈ kSuspicious, ∃ before found after : List Char,
    key.toList = before ++ found ++ after ∧ found.map Char.toLower = needle.toList

/-- Two values that differ only inside the values of suspicious members, at any depth. -/
inductive Alike : Value → Value → Prop where
  | same (v : Value) : Alike v v
  | array {xs ys : List Value} (length : xs.length = ys.length)
      (each : ∀ (i : ℕ) x y, xs[i]? = some x → ys[i]? = some y → Alike x y) :
      Alike (.array xs) (.array ys)
  | object {ms ns : List (String × Value)} (keys : ms.map Prod.fst = ns.map Prod.fst)
      (each : ∀ (i : ℕ) m n, ms[i]? = some m → ns[i]? = some n → ¬ IsSuspicious m.1 →
        Alike m.2 n.2) :
      Alike (.object ms) (.object ns)

/-- The second value is the first, but for the marker in place of each suspicious member's
value. -/
inductive Redacted : Value → Value → Prop where
  | scalar {v : Value} (array : v.isArray = false) (object : v.isObject = false) : Redacted v v
  | array {xs ys : List Value} (length : ys.length = xs.length)
      (each : ∀ (i : ℕ) x y, xs[i]? = some x → ys[i]? = some y → Redacted x y) :
      Redacted (.array xs) (.array ys)
  | object {ms ns : List (String × Value)} (keys : ns.map Prod.fst = ms.map Prod.fst)
      (hidden : ∀ (i : ℕ) m n, ms[i]? = some m → ns[i]? = some n → IsSuspicious m.1 →
        n.2 = marker)
      (each : ∀ (i : ℕ) m n, ms[i]? = some m → ns[i]? = some n → ¬ IsSuspicious m.1 →
        Redacted m.2 n.2) :
      Redacted (.object ms) (.object ns)

/-! ### Keys -/

/-- A text is found where it is a part of another. -/
theorem isSome_findText_iff {text rest : List Char} (htext : text ≠ []) :
    (findText text rest).isSome ↔ text <:+: rest := by
  induction rest with
  | nil =>
    rw [findText, List.infix_nil]
    simp [htext]
  | cons c rest ih =>
    rw [findText, List.infix_cons_iff, ← List.isPrefixOf_iff_prefix]
    split
    · next h => simp [h]
    · next h => simp [h, ih]

/-- The test of a key finds the words in whatever case. -/
theorem suspicious_iff (key : String) : suspicious key = true ↔ IsSuspicious key := by
  rw [suspicious, List.any_eq_true]
  apply exists_congr
  intro needle
  apply and_congr_right
  intro hneedle
  have hnonempty : needle.toList ≠ [] := by
    fin_cases hneedle <;> decide
  rw [isSome_findText_iff hnonempty]
  constructor
  · rintro ⟨before, after, heq⟩
    obtain ⟨front, last, hkey, hfront, hlast⟩ := List.map_eq_append_iff.mp heq.symm
    obtain ⟨first, found, hfirst, hbefore, hfound⟩ := List.map_eq_append_iff.mp hfront
    exact ⟨first, found, last, by rw [hkey, hfirst], hfound⟩
  · rintro ⟨before, found, after, heq, hfound⟩
    refine ⟨before.map Char.toLower, after.map Char.toLower, ?_⟩
    rw [heq, List.map_append, List.map_append, hfound]

/-! ### Two values that are alike -/

/-- What is shown of a member. -/
def shown (m : String × Value) : String × Value :=
  (m.1, if suspicious m.1 then marker else redact m.2)

/-- An array is shown element by element. -/
theorem redactElements_eq (elements done : List Value) :
    redactElements elements (.array done) = .array (done ++ elements.map redact) := by
  induction elements generalizing done with
  | nil => rw [redactElements, List.map_nil, List.append_nil]
  | cons v elements ih =>
    rw [redactElements, push, Value.elements, ih, List.map_cons, List.append_assoc,
      List.singleton_append]

/-- An object is made of what is shown of its members. -/
theorem redactMembers_eq (members : List (String × Value)) (out : Value) :
    redactMembers members out = (members.map shown).foldl (fun out m ↦ out.set m.1 m.2) out := by
  induction members generalizing out with
  | nil => rw [redactMembers, List.map_nil, List.foldl_nil]
  | cons m members ih => rw [redactMembers, ih, List.map_cons, List.foldl_cons, shown]

/-- Lists that are the same at each place. -/
theorem map_eq_of_each {α β : Type} {f : α → β} {xs ys : List α} (hlen : xs.length = ys.length)
    (h : ∀ (i : ℕ) x y, xs[i]? = some x → ys[i]? = some y → f x = f y) : xs.map f = ys.map f := by
  apply List.ext_getElem (by rw [List.length_map, List.length_map, hlen])
  intro i hx hy
  rw [List.length_map] at hx hy
  rw [List.getElem_map, List.getElem_map]
  exact h i _ _ (List.getElem?_eq_getElem hx) (List.getElem?_eq_getElem hy)

/-- Values that are alike are shown the same. -/
theorem Alike.redact_eq {v w : Value} (h : Alike v w) : redact v = redact w := by
  induction h with
  | same v => rfl
  | array length each ih =>
    rw [redact, redact, redactElements_eq, redactElements_eq, map_eq_of_each length ih]
  | @object ms ns keys each ih =>
    have hlen : ms.length = ns.length := by
      simpa using congrArg List.length keys
    have hshown : ms.map shown = ns.map shown := by
      apply map_eq_of_each hlen
      intro i m n hm hn
      have hkey : m.1 = n.1 := by
        have hat := congrArg (·[i]?) keys
        simpa [hm, hn] using hat
      rw [shown, shown, ← hkey]
      by_cases hs : suspicious m.1
      · rw [if_pos hs, if_pos hs]
      · rw [if_neg hs, if_neg hs, ih i m n hm hn fun hsus ↦ hs ((suspicious_iff m.1).mpr hsus)]
    rw [redact, redact, redactMembers_eq, redactMembers_eq, hshown]

/-! ### A value and what is shown of it -/

/-- Members with different keys are set one after another. -/
theorem foldl_set {members done : List (String × Value)}
    (h : (done.map Prod.fst ++ members.map Prod.fst).Nodup) :
    members.foldl (fun (out : Value) m ↦ out.set m.1 m.2) (.object done) =
      .object (done ++ members) := by
  induction members generalizing done with
  | nil => rw [List.foldl_nil, List.append_nil]
  | cons m members ih =>
    have hset : (Value.object done).set m.1 m.2 = .object (done ++ [m]) :=
      Parser.set_object h m.2
    rw [List.foldl_cons, hset, ih, List.append_assoc, List.singleton_append]
    rw [List.map_append, List.append_assoc]
    exact h

/-- What is shown of members has their keys. -/
theorem keys_shown (members : List (String × Value)) :
    (members.map shown).map Prod.fst = members.map Prod.fst := by
  rw [List.map_map]
  rfl

/-- An object without a key twice is shown member by member. -/
theorem redact_object {members : List (String × Value)} (h : (members.map Prod.fst).Nodup) :
    redact (.object members) = .object (members.map shown) := by
  rw [redact, redactMembers_eq, foldl_set, List.nil_append]
  rw [keys_shown]
  exact h

/-- An array is shown element by element. -/
theorem redact_array (elements : List Value) :
    redact (.array elements) = .array (elements.map redact) := by
  rw [redact, redactElements_eq, List.nil_append]

/-- Of a value in which no key is there twice, everything is shown but the secrets. -/
theorem redacted_redact {v : Value} (h : v.Keyed) : Redacted v (redact v) := by
  -- by the depth, since the induction is on what is inside
  obtain ⟨n, hn⟩ : ∃ n, v.depth ≤ n := ⟨_, le_rfl⟩
  induction n generalizing v with
  | zero => exact absurd v.depth_pos (by omega)
  | succ n ih =>
    cases v with
    | array elements =>
      rw [redact_array]
      apply Redacted.array
      · rw [List.length_map]
      · intro i x y hx hy
        rw [List.getElem?_map, hx] at hy
        cases hy
        have hmem := List.mem_of_getElem? hx
        exact ih (Value.keyed_array.mp h x hmem) (Value.depth_array_le.mp hn x hmem)
    | object members =>
      obtain ⟨hnodup, hkeyed⟩ := Value.keyed_object.mp h
      rw [redact_object hnodup]
      apply Redacted.object
      · exact keys_shown members
      · intro i m m' hm hm' hsus
        rw [List.getElem?_map, hm] at hm'
        cases hm'
        exact if_pos ((suspicious_iff m.1).mpr hsus)
      · intro i m m' hm hm' hsus
        rw [List.getElem?_map, hm] at hm'
        cases hm'
        have hmem := List.mem_of_getElem? hm
        have hclear : ¬ suspicious m.1 = true := fun hs ↦ hsus ((suspicious_iff m.1).mp hs)
        rw [shown, if_neg hclear]
        exact ih (hkeyed m hmem) (Value.depth_object_le.mp hn m hmem)
    | _ => exact .scalar rfl rfl

/-- The law of `redact`: what differs from a value only inside suspicious members is shown the same,
and but for these everything is shown as it is. A value has no key twice in an object, as `set` sees
to. -/
theorem redact_spec (v w : Value) (hv : v.Keyed) :
    (Alike v w → redact v = redact w) ∧ Redacted v (redact v) :=
  ⟨fun h ↦ h.redact_eq, redacted_redact hv⟩

/-- A configuration with a secret. -/
def withToken (token : String) : Value :=
  .object [("instance", .string "main"), ("HttpToken", .string token)]

/-- Two secrets are shown the same. -/
theorem redact_withToken :
    redact (withToken "a") = redact (withToken "b") ∧
      Redacted (withToken "a") (redact (withToken "a")) := by
  have hkeyed : (withToken "a").Keyed := by
    rw [withToken, Value.keyed_object]
    refine ⟨by decide, ?_⟩
    simp [Value.Keyed]
  have halike : Alike (withToken "a") (withToken "b") := by
    apply Alike.object
    · rfl
    · intro i m n hm hn hclear
      cases i with
      | zero =>
        cases hm
        cases hn
        exact .same _
      | succ i =>
        cases i with
        | zero =>
          cases hm
          exact absurd ((suspicious_iff "HttpToken").mp (by decide)) hclear
        | succ i => cases hm
  have hspec := redact_spec (withToken "a") (withToken "b") hkeyed
  exact ⟨hspec.1 halike, hspec.2⟩

end WebLinked.Diag
