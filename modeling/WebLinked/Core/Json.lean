import WebLinked.Base.Double

/-!
# JSON values

`src/core/json.h`, `src/core/json.cpp:366–464`. Strings are sequences of bytes, a character
each.
-/

namespace WebLinked.Core.Json

open WebLinked.Base

/-- `Value`; `src/core/json.h:18`. Members are in the order they were first set. -/
inductive Value where
  | null
  | bool (value : Bool)
  | number (value : Double)
  | string (value : String)
  | array (elements : List Value)
  | object (members : List (String × Value))
  deriving Inhabited

namespace Value

/-- `Value(int)`, and `Value(int64_t)`; `src/core/json.cpp:369`. -/
def int (n : Int) : Value := number (.ofInt n)

/-- `isArray`. -/
def isArray : Value → Bool
  | array _ => true
  | _ => false

/-- `isObject`. -/
def isObject : Value → Bool
  | object _ => true
  | _ => false

/-- `asBool`; `src/core/json.cpp:387`. -/
def asBool (v : Value) (fallback : Bool) : Bool :=
  match v with
  | bool b => b
  | number x => !x.isZero
  | _ => fallback

/-- `asInt64`; `src/core/json.cpp:403`. -/
def asInt64 (v : Value) (fallback : Int) : Int :=
  match v with
  | number x => x.llround
  | bool b => if b then 1 else 0
  | _ => fallback

/-- `asInt`, which keeps the low 32 bits; `src/core/json.cpp:399`. -/
def asInt (v : Value) (fallback : Int) : Int := (v.asInt64 fallback).bmod (2 ^ 32)

/-- `asString`; `src/core/json.cpp:409`. -/
def asString (v : Value) (fallback : String := "") : String :=
  match v with
  | string s => s
  | _ => fallback

/-- `elements`. -/
def elements : Value → List Value
  | array elements => elements
  | _ => []

/-- `members`. -/
def members : Value → List (String × Value)
  | object members => members
  | _ => []

/-- `size`; `src/core/json.cpp:422`. -/
def size : Value → ℕ
  | array elements => elements.length
  | object members => members.length
  | _ => 0

/-- Replaces the member of a key where it stands, or adds it at the end. -/
def setMember (key : String) (value : Value) : List (String × Value) → List (String × Value)
  | [] => [(key, value)]
  | m :: members =>
    if m.1 = key then (key, value) :: members else m :: setMember key value members

/-- `set`, which makes an object of anything else; `src/core/json.cpp:435`. -/
def set (v : Value) (key : String) (value : Value) : Value :=
  object (setMember key value v.members)

/-- `has`; `src/core/json.cpp:449`. -/
def has (v : Value) (key : String) : Bool := v.members.any (·.1 = key)

/-- `operator[]`; `src/core/json.cpp:457`. -/
def get (v : Value) (key : String) : Value := (v.members.lookup key).getD null

section Members

variable {k k' : String}

theorem setMember_nil (key : String) (value : Value) :
    setMember key value [] = [(key, value)] := rfl

theorem setMember_cons (key : String) (value : Value) (m : String × Value)
    (members : List (String × Value)) : setMember key value (m :: members) =
      if m.1 = key then (key, value) :: members else m :: setMember key value members := rfl

/-- What is set under a key is found. -/
theorem lookup_setMember_self (k : String) (x : Value) (ms : List (String × Value)) :
    (setMember k x ms).lookup k = some x := by
  induction ms with
  | nil => simp [setMember_nil]
  | cons m ms ih =>
    obtain ⟨a, b⟩ := m
    by_cases h : a = k
    · simp [setMember_cons, h]
    · have hne : (k == a) = false := beq_eq_false_iff_ne.mpr (Ne.symm h)
      simp [setMember_cons, h, List.lookup_cons, hne, ih]

/-- Setting a member again. -/
theorem setMember_setMember (k : String) (x y : Value) (ms : List (String × Value)) :
    setMember k y (setMember k x ms) = setMember k y ms := by
  induction ms with
  | nil => simp [setMember_nil, setMember_cons]
  | cons m ms ih =>
    rw [setMember_cons, setMember_cons]
    split
    · rw [setMember_cons, if_pos rfl]
    · next hm => rw [setMember_cons, if_neg hm, ih]

/-- Setting a member to what it is. -/
theorem setMember_of_lookup {ms : List (String × Value)} (h : ms.lookup k = some x) :
    setMember k x ms = ms := by
  induction ms with
  | nil => cases h
  | cons m ms ih =>
    obtain ⟨a, b⟩ := m
    rw [setMember_cons]
    by_cases ha : a = k
    · subst ha
      rw [List.lookup_cons, beq_self_eq_true] at h
      cases h
      rw [if_pos rfl]
    · have hne : (k == a) = false := beq_eq_false_iff_ne.mpr (Ne.symm ha)
      rw [List.lookup_cons, hne] at h
      rw [if_neg ha, ih h]

/-- Other keys are found as before. -/
theorem lookup_setMember_of_ne (h : k' ≠ k) (x : Value) (ms : List (String × Value)) :
    (setMember k x ms).lookup k' = ms.lookup k' := by
  have hk : (k' == k) = false := beq_eq_false_iff_ne.mpr h
  induction ms with
  | nil => simp [setMember_nil, List.lookup_cons, hk]
  | cons m ms ih =>
    obtain ⟨a, b⟩ := m
    by_cases ha : a = k
    · simp [setMember_cons, ha, List.lookup_cons, hk]
    · simp [setMember_cons, ha, List.lookup_cons, ih]

/-- A set member is there. -/
@[simp] theorem get_set_self (v : Value) (k : String) (x : Value) : (v.set k x).get k = x := by
  simp [get, set, members, lookup_setMember_self]

/-- The members of other keys are what they were. -/
theorem get_set_of_ne (h : k' ≠ k) (v x : Value) : (v.set k x).get k' = v.get k' := by
  rw [get, set, members, lookup_setMember_of_ne h, get]

/-- A key is there when it was set, or was there before. -/
@[simp] theorem has_set (v : Value) (k : String) (x : Value) (k' : String) :
    (v.set k x).has k' = (decide (k = k') || v.has k') := by
  rw [has, set, members, has]
  induction v.members with
  | nil => simp [setMember_nil]
  | cons m ms ih =>
    by_cases hm : m.1 = k
    · simp [setMember_cons, hm]
    · simp [setMember_cons, hm, ih, Bool.or_left_comm]

end Members

end Value
end WebLinked.Core.Json
