import Mathlib.Data.List.Nodup
import WebLinked.Core.SourceTable

/-!
# Handing an entry over to be stopped

`src/core/source_table.h:97–158`. An entry has one token: it is in the table's list, on
the way out with one `takeAll`, or handed out. `takeAll` moves tokens out of the list in
one step; `remove` asks `isRetired` first and erases later, in a section of its own, so
it is exclusive only if the entry is still listed when it erases.
-/

namespace WebLinked.Core.SourceTable

open WebLinked.Base WebLinked.Base.Pool

variable {T : Type}

namespace Call

/-- The call is running the caller's function on the entry at `a`. -/
def inside (a : Addr) : Call → Bool
  | .withInside b => a == b
  | .forEachInside b _ => a == b
  | _ => false

/-- What a `takeAll` has listed so far. -/
def taken : Call → Taken
  | .takeAllAt _ taken => taken
  | .takeAllRetired _ _ taken => taken
  | .takeAllWaiting _ _ taken => taken
  | _ => {}

/-- What a `takeAll` has swapped out of the table and not listed yet. -/
def pending : Call → List Addr
  | .takeAllAt todo _ => todo
  | .takeAllRetired a todo _ => a :: todo
  | .takeAllWaiting a todo _ => a :: todo
  | _ => []

/-- What a `remove` has handed back. -/
def removed : Call → List Addr
  | .removeDone _ (some a) => [a]
  | _ => []

/-- Entries this call has handed out, as removed, idle or busy. -/
def handed (c : Call) : List Addr := c.removed ++ c.taken.idle ++ c.taken.busy

/-- Entries this call has handed out to be stopped. -/
def toStop (c : Call) : List Addr := c.removed ++ c.taken.idle

end Call

/-- No entry is handed out twice, and one handed out to be stopped has no call inside it
and lets none in. -/
structure HandedOver (s : State T) : Prop where
  once : (s.calls.flatMap Call.handed).Nodup
  quiet : ∀ a ∈ s.calls.flatMap Call.toStop,
    (∀ c ∈ s.calls, c.inside a = false) ∧ ∀ e, s.heap[a]? = some e → e.enter = none

/-- The step is no erase of an entry that `takeAll` has swapped out: a `remove` past its
`isRetired` still finds its entry listed. -/
def erasesListed (s : State T) : Action T → Bool
  | .proceed call _ =>
    match s.calls[call]? with
    | some (.removeErasing a) => s.entries.contains a
    | _ => true
  | _ => true

namespace Call

/-- Past `close`, with the entry's `closing` still owed to this removal. -/
private def removing (a : Addr) : Call → Bool
  | .removeWaiting b | .removeTimedOut b | .removeEmpty b | .removeErasing b => a == b
  | .removeDone _ removed => some a == removed
  | _ => false

/-- Has seen the entry empty, and the entry has stayed closed since. -/
private def emptied (a : Addr) : Call → Bool
  | .removeEmpty b | .removeErasing b => a == b
  | .removeDone _ removed => some a == removed
  | c => c.taken.idle.contains a

/-- A `takeAll` past its `retire` of this entry. -/
private def retires (a : Addr) : Call → Bool
  | .takeAllAt _ taken => taken.idle.contains a
  | .takeAllRetired b _ taken | .takeAllWaiting b _ taken => a == b || taken.idle.contains a
  | _ => false

/-- Relies on `closing` staying set. -/
private def closes (a : Addr) (c : Call) : Bool :=
  c.removing a || c.emptied a || (match c with | .takeAllWaiting b _ _ => a == b | _ => false)

/-- Tokens of the entry this call holds. -/
private def holds (a : Addr) (c : Call) : Nat := c.pending.count a + c.handed.count a

private def mentions (a : Addr) : Call → Bool
  | .withFound b | .withInside b | .removeFound b | .removeWaiting b | .removeTimedOut b
  | .removeEmpty b | .removeErasing b => a == b
  | .forEachAt todo => todo.contains a
  | .forEachInside b todo => a == b || todo.contains a
  | c => 0 < c.holds a

end Call

/-- What the calls in `pool` know about the entry `e` at `a`. -/
private structure EntryInv (pool : List Call) (a : Addr) (e : Entry T) : Prop where
  users : e.users = (total (fun c ↦ (c.inside a).toNat) pool : Nat)
  closing : ∀ c ∈ pool, c.closes a → e.closing
  empty : ∀ c ∈ pool, c.emptied a → e.users = 0
  retired : ∀ c ∈ pool, c.retires a → e.retired
  single : e.retired = false → total (fun c ↦ (c.removing a).toNat) pool ≤ 1

private structure Inv (s : State T) : Prop where
  entry : ∀ a e, s.heap[a]? = some e → EntryInv s.calls a e
  bound : ∀ a, s.heap.length ≤ a → a ∉ s.entries ∧ ∀ c ∈ s.calls, c.mentions a = false
  token : ∀ a, s.entries.count a + total (Call.holds a) s.calls ≤ 1

/-! ### What `close` answers -/

private theorem Entry.beginClose_cases (e : Entry T) :
    (e.closing = true ∧ e.retired = false ∧ e.beginClose = (some .kAlready, e)) ∨
    ((e.retired = false → e.closing = false) ∧ e.users = 0 ∧
      e.beginClose = (some .kEmpty, { e with closing := true })) ∨
    ((e.retired = false → e.closing = false) ∧ e.users ≠ 0 ∧
      e.beginClose = (none, { e with closing := true })) := by
  unfold Entry.beginClose
  cases hc : e.closing <;> cases hr : e.retired <;> by_cases hu : e.users = 0 <;>
    simp [hu]

private theorem Entry.wakeClose_cases (e : Entry T) {expired : Bool} {answer : Closed}
    (h : e.wakeClose expired = some answer) :
    (e.users = 0 ∧ answer = .kEmpty) ∨ (e.users ≠ 0 ∧ answer = .kTimedOut) := by
  unfold Entry.wakeClose at h
  split at h
  · next hu => exact Or.inl ⟨hu, (Option.some.inj h).symm⟩
  · next hu =>
    split at h
    · exact Or.inr ⟨hu, (Option.some.inj h).symm⟩
    · cases h

/-! ### One step at one entry -/

section Entry

variable {pool : List Call} {i : Nat} {c c' : Call} {a b : Addr} {e e' : Entry T}

private theorem closes_of_removing (h : c.removing a) : c.closes a := by simp [Call.closes, h]

private theorem closes_of_emptied (h : c.emptied a) : c.closes a := by simp [Call.closes, h]

/-- Every step but `reopen`: `closing` and `retired` only ever become set. -/
private theorem EntryInv.advance (inv : EntryInv pool a e) (hc : pool[i]? = some c)
    (users : e'.users + (c.inside a).toNat = e.users + (c'.inside a).toNat)
    (closing : e.closing → e'.closing) (closes : c'.closes a → c.closes a ∨ e'.closing)
    (retired : e.retired → e'.retired) (retires : c'.retires a → c.retires a ∨ e'.retired)
    (empty : e.closing → e.users = 0 → e'.users = 0)
    (emptied : c'.emptied a → c.emptied a ∨ e'.users = 0)
    (single : e'.retired = false → c'.removing a → c.removing a ∨ e.closing = false) :
    EntryInv (pool.set i c') a e' where
  users := by
    have ht := total_set (fun c ↦ (c.inside a).toNat) c' hc
    have hu := inv.users
    omega
  closing d hd hcl := by
    have hm := List.mem_of_getElem? hc
    rcases List.mem_or_eq_of_mem_set hd with hd | rfl
    · exact closing (inv.closing d hd hcl)
    · exact (closes hcl).elim (fun h ↦ closing (inv.closing c hm h)) id
  empty d hd hem := by
    have hm := List.mem_of_getElem? hc
    have stays (b) (hb : b ∈ pool) (h : b.emptied a) : e'.users = 0 :=
      empty (inv.closing b hb (closes_of_emptied h)) (inv.empty b hb h)
    rcases List.mem_or_eq_of_mem_set hd with hd | rfl
    · exact stays d hd hem
    · exact (emptied hem).elim (stays c hm) id
  retired d hd hre := by
    have hm := List.mem_of_getElem? hc
    rcases List.mem_or_eq_of_mem_set hd with hd | rfl
    · exact retired (inv.retired d hd hre)
    · exact (retires hre).elim (fun h ↦ retired (inv.retired c hm h)) id
  single hr := by
    have hre : e.retired = false := by
      cases h : e.retired with
      | false => rfl
      | true => rw [retired h] at hr; cases hr
    have ht := total_set (fun c ↦ (c.removing a).toNat) c' hc
    have hle := inv.single hre
    cases hn : c'.removing a with
    | false => simp only [hn, Bool.toNat_false] at ht; omega
    | true =>
      rcases single hr hn with ho | ho
      · simp only [hn, ho, Bool.toNat_true] at ht
        omega
      · have hz : total (fun c ↦ (c.removing a).toNat) pool = 0 := by
          apply total_eq_zero
          intro d hd
          cases hrm : d.removing a with
          | false => rfl
          | true =>
            have := inv.closing d hd (closes_of_removing hrm)
            simp [ho] at this
        simp only [hn, Bool.toNat_true] at ht
        omega

/-- A step elsewhere, of a call that stands in the same place to this entry. -/
private theorem EntryInv.frame (inv : EntryInv pool b e) (hc : pool[i]? = some c)
    (inside : c'.inside b = c.inside b) (closes : c'.closes b → c.closes b)
    (emptied : c'.emptied b → c.emptied b) (retires : c'.retires b → c.retires b)
    (removing : c'.removing b → c.removing b) : EntryInv (pool.set i c') b e := by
  exact inv.advance hc (by rw [inside]) id (Or.inl ∘ closes) id (Or.inl ∘ retires) (fun _ ↦ id)
    (Or.inl ∘ emptied) (fun _ ↦ Or.inl ∘ removing)

/-- `reopen` undoes `closing` only before a `takeAll` retires the entry, when the removal
that timed out is the only one the entry is closed for. -/
private theorem EntryInv.reopen (inv : EntryInv pool a e)
    (hc : pool[i]? = some (.removeTimedOut a)) :
    EntryInv (pool.set i (.removeDone .kBusy none)) a e.reopen := by
  by_cases hr : e.retired = true
  · have he : e.reopen = e := by simp [Entry.reopen, hr]
    rw [he]
    exact inv.frame hc rfl nofun nofun nofun nofun
  · have hre : e.retired = false := by simpa using hr
    have he : e.reopen = { e with closing := false } := by simp [Entry.reopen, hre]
    have hone := inv.single hre
    have hmine : (Call.removeTimedOut a).removing a = true := beq_self_eq_true a
    have hgone : (Call.removeDone .kBusy none).removing a = false := rfl
    -- Nobody else relies on `closing`: a second removal would make two, and a `takeAll`
    -- waiting or done would have retired the entry.
    have hfree : ∀ d ∈ pool.set i (.removeDone .kBusy none), d.closes a = false := by
      intro d hd
      rcases mem_set hd with rfl | ⟨j, hj, hjd⟩
      · rfl
      · have hpair := pair_le_total (fun c ↦ (c.removing a).toNat) hjd hc hj
        have hnr : d.removing a = false := by
          cases h : d.removing a with
          | false => rfl
          | true => simp only [h, hmine, Bool.toNat_true] at hpair; omega
        have hnt : d.retires a = false := by
          cases h : d.retires a with
          | false => rfl
          | true =>
            have := inv.retired d (List.mem_of_getElem? hjd) h
            simp [hre] at this
        cases d <;>
          simp_all [Call.closes, Call.removing, Call.emptied, Call.retires, Call.taken]
    rw [he]
    refine ⟨?_, ?_, ?_, ?_, ?_⟩
    · have ht := total_set (fun c ↦ (c.inside a).toNat) (.removeDone .kBusy none) hc
      have hu := inv.users
      simp only [show (Call.removeTimedOut a).inside a = false from rfl,
        show (Call.removeDone .kBusy none).inside a = false from rfl] at ht
      simp only [hu]
      omega
    · intro d hd hcl
      rw [hfree d hd] at hcl
      cases hcl
    · intro d hd hem
      have := closes_of_emptied hem
      rw [hfree d hd] at this
      cases this
    · intro d hd hrt
      rcases List.mem_or_eq_of_mem_set hd with hd | rfl
      · exact inv.retired d hd hrt
      · cases hrt
    · intro _
      have hs := total_set (fun c ↦ (c.removing a).toNat) (.removeDone .kBusy none) hc
      simp only [hmine, hgone, Bool.toNat_true, Bool.toNat_false] at hs
      omega

private theorem EntryInv.newCall (inv : EntryInv pool b e) (inside : c.inside b = false)
    (closes : c.closes b = false) (retires : c.retires b = false) :
    EntryInv (pool ++ [c]) b e where
  users := by
    rw [total_append_singleton, inside]
    simpa using inv.users
  closing d hd hcl := by
    rcases List.mem_append.mp hd with hd | hd
    · exact inv.closing d hd hcl
    · rw [List.mem_singleton.mp hd, closes] at hcl
      cases hcl
  empty d hd hem := by
    rcases List.mem_append.mp hd with hd | hd
    · exact inv.empty d hd hem
    · have := closes_of_emptied hem
      rw [List.mem_singleton.mp hd, closes] at this
      cases this
  retired d hd hre := by
    rcases List.mem_append.mp hd with hd | hd
    · exact inv.retired d hd hre
    · rw [List.mem_singleton.mp hd, retires] at hre
      cases hre
  single hr := by
    have hn : c.removing b = false := by
      cases h : c.removing b with
      | false => rfl
      | true => rw [closes_of_removing h] at closes; cases closes
    rw [total_append_singleton, hn]
    exact inv.single hr

/-- A call that does not mention an address stands nowhere to it. -/
private theorem stands_nowhere (h : c.mentions a = false) :
    c.inside a = false ∧ c.closes a = false ∧ c.retires a = false ∧ c.holds a = 0 := by
  cases c <;>
    simp_all [Call.mentions, Call.inside, Call.closes, Call.removing, Call.emptied,
      Call.retires, Call.holds, Call.pending, Call.handed, Call.removed, Call.taken,
      List.count_eq_zero]
  grind

/-- A new entry, which nothing mentions yet. -/
private theorem entryInv_fresh (hm : ∀ d ∈ pool, d.mentions a = false) (id : String)
    (value : Option T) : EntryInv pool a ({ id, value } : Entry T) := by
  refine ⟨?_, ?_, fun _ _ _ ↦ rfl, ?_, ?_⟩
  · rw [total_eq_zero]
    · rfl
    · intro d hd
      rw [(stands_nowhere (hm d hd)).1]
      rfl
  · intro d hd h
    rw [(stands_nowhere (hm d hd)).2.1] at h
    cases h
  · intro d hd h
    rw [(stands_nowhere (hm d hd)).2.2.1] at h
    cases h
  · intro _
    rw [total_eq_zero]
    · exact Nat.zero_le _
    · intro d hd
      cases h : d.removing a with
      | false => rfl
      | true =>
        have := closes_of_removing h
        rw [(stands_nowhere (hm d hd)).2.1] at this
        cases this

end Entry

/-! ### One step of the table -/

section Step

variable {s t : State T} {i : Nat} {c c' : Call} {a : Addr} {e e' : Entry T}

/-- A step of the call at `i` that touches the entry at `a` and no token. -/
private theorem Inv.put (inv : Inv s) (hc : s.calls[i]? = some c)
    (he : s.heap[a]? = some e) (entry : EntryInv (s.calls.set i c') a e')
    (frame : ∀ b, b ≠ a → c'.inside b = c.inside b ∧ (c'.closes b → c.closes b) ∧
      (c'.emptied b → c.emptied b) ∧ (c'.retires b → c.retires b) ∧
      (c'.removing b → c.removing b))
    (holds : ∀ b, c'.holds b = c.holds b) (mentions : ∀ b, c'.mentions b → c.mentions b) :
    Inv (s.put a e' i c') where
  entry b f hf := by
    by_cases hb : b = a
    · subst hb
      have ha : b < s.heap.length := (List.getElem?_eq_some_iff.mp he).1
      simp only [State.put, List.getElem?_set_self ha, Option.some.injEq] at hf
      subst hf
      exact entry
    · simp only [State.put, List.getElem?_set_ne (Ne.symm hb)] at hf
      obtain ⟨h1, h2, h3, h4, h5⟩ := frame b hb
      exact (inv.entry b f hf).frame hc h1 h2 h3 h4 h5
  bound b hb := by
    obtain ⟨hn, hm⟩ := inv.bound b (by simpa [State.put] using hb)
    refine ⟨hn, fun d hd ↦ ?_⟩
    rcases List.mem_or_eq_of_mem_set hd with hd | rfl
    · exact hm d hd
    · cases h : d.mentions b with
      | false => rfl
      | true =>
        have := hm c (List.mem_of_getElem? hc)
        rw [mentions b h] at this
        cases this
  token b := by
    have ht := total_set (Call.holds b) c' hc
    have hb := inv.token b
    rw [holds b] at ht
    simp only [State.put]
    omega

/-- A new call that holds no token and is inside nothing. -/
private theorem Inv.newCall (inv : Inv s) (inside : ∀ b, c.inside b = false)
    (closes : ∀ b, c.closes b = false) (retires : ∀ b, c.retires b = false)
    (holds : ∀ b, c.holds b = 0) (mentions : ∀ b, c.mentions b → b < s.heap.length) :
    Inv { s with calls := s.calls ++ [c] } where
  entry b f hf := (inv.entry b f hf).newCall (inside b) (closes b) (retires b)
  bound b hb := by
    obtain ⟨hn, hm⟩ := inv.bound b hb
    refine ⟨hn, fun d hd ↦ ?_⟩
    rcases List.mem_append.mp hd with hd | hd
    · exact hm d hd
    · rw [List.mem_singleton.mp hd]
      cases h : c.mentions b with
      | false => rfl
      | true => exact absurd (mentions b h) (Nat.not_lt.mpr hb)
  token b := by
    rw [total_append_singleton, holds b]
    exact inv.token b

private theorem Inv.lt_of_mem_entries (inv : Inv s) (h : a ∈ s.entries) :
    a < s.heap.length := by
  by_contra hn
  exact (inv.bound a (Nat.not_lt.mp hn)).1 h

private theorem Inv.lt_of_findLocked (inv : Inv s) {id : String}
    (h : s.findLocked id = some a) : a < s.heap.length :=
  inv.lt_of_mem_entries (List.mem_of_find?_eq_some h)

private theorem Inv.insert (inv : Inv s) (id : String) (value : Option T) :
    Inv (s.insert id value) := by
  have hnew := inv.bound s.heap.length (Nat.le_refl _)
  have entry : ∀ done b f, (s.heap ++ [({ id, value } : Entry T)])[b]? = some f →
      EntryInv (s.calls ++ [.inserted done]) b f := by
    intro done b f hf
    rcases Nat.lt_trichotomy b s.heap.length with hb | rfl | hb
    · rw [List.getElem?_append_left hb] at hf
      exact (inv.entry b f hf).newCall rfl rfl rfl
    · simp only [List.getElem?_concat_length, Option.some.injEq] at hf
      subst hf
      exact (entryInv_fresh hnew.2 id value).newCall rfl rfl rfl
    · rw [List.getElem?_eq_none (by simp; omega)] at hf
      cases hf
  have bound : ∀ done b, s.heap.length + 1 ≤ b → b ∉ s.entries ∧
      ∀ d ∈ s.calls ++ [.inserted done], d.mentions b = false := by
    intro done b hb
    obtain ⟨hn, hm⟩ := inv.bound b (by omega)
    refine ⟨hn, fun d hd ↦ ?_⟩
    rcases List.mem_append.mp hd with hd | hd
    · exact hm d hd
    · rw [List.mem_singleton.mp hd]
      rfl
  have token : ∀ done b, s.entries.count b +
      total (Call.holds b) (s.calls ++ [.inserted done]) ≤ 1 := by
    intro done b
    rw [total_append_singleton]
    exact inv.token b
  unfold State.insert
  cases s.findLocked id with
  | some _ =>
    exact ⟨entry false, fun b hb ↦ bound false b (by simpa using hb), token false⟩
  | none =>
    refine ⟨entry true, ?_, ?_⟩
    · intro b hb
      have hb : s.heap.length + 1 ≤ b := by simpa using hb
      obtain ⟨hn, hm⟩ := bound true b hb
      refine ⟨?_, hm⟩
      intro h
      rcases List.mem_append.mp h with h | h
      · exact hn h
      · have := List.mem_singleton.mp h
        omega
    · intro b
      have hb := token true b
      rw [List.count_append, List.count_singleton]
      split
      · next h =>
        -- Nothing held a token of the address just allocated.
        have he : s.heap.length = b := by simpa using h
        subst he
        have hz : total (Call.holds s.heap.length) s.calls = 0 :=
          total_eq_zero _ fun d hd ↦ (stands_nowhere (hnew.2 d hd)).2.2.2
        rw [List.count_eq_zero.mpr hnew.1, total_append_singleton, hz]
        exact Nat.le_refl 1
      · omega

private theorem Inv.takeAll (inv : Inv s) : Inv s.takeAll where
  entry b f hf := (inv.entry b f hf).newCall rfl rfl rfl
  bound b hb := by
    obtain ⟨hn, hm⟩ := inv.bound b hb
    refine ⟨List.not_mem_nil, fun d hd ↦ ?_⟩
    rcases List.mem_append.mp hd with hd | hd
    · exact hm d hd
    · rw [List.mem_singleton.mp hd]
      simp [Call.mentions, Call.holds, Call.pending, Call.handed, Call.removed, Call.taken, hn]
  token b := by
    have hb := inv.token b
    have hc : (Call.takeAllAt s.entries {}).holds b = s.entries.count b := by
      simp [Call.holds, Call.pending, Call.handed, Call.removed, Call.taken]
    simp only [State.takeAll, total_append_singleton, hc, List.count_nil]
    omega

private theorem Inv.erase (inv : Inv s) (hc : s.calls[i]? = some (.removeErasing a))
    (ha : a ∈ s.entries) :
    Inv { s with
      entries := s.entries.filter (· ≠ a)
      calls := s.calls.set i (.removeDone .kRemoved (some a)) } where
  entry b f hf := by
    change EntryInv (s.calls.set i (.removeDone .kRemoved (some a))) b f
    refine (inv.entry b f hf).frame hc rfl ?_ ?_ nofun ?_ <;>
      simp [Call.closes, Call.removing, Call.emptied]
  bound b hb := by
    obtain ⟨hn, hm⟩ := inv.bound b hb
    refine ⟨fun h ↦ hn (List.mem_filter.mp h).1, fun d hd ↦ ?_⟩
    rcases List.mem_or_eq_of_mem_set hd with hd | rfl
    · exact hm d hd
    · have hb : b ≠ a := fun h ↦ hn (h ▸ ha)
      simp [Call.mentions, Call.holds, Call.pending, Call.handed, Call.removed, Call.taken, hb]
  token b := by
    have hb := inv.token b
    have ht := total_set (Call.holds b) (.removeDone .kRemoved (some a)) hc
    have h0 : (Call.removeErasing a).holds b = 0 := rfl
    change (s.entries.filter (· ≠ a)).count b +
      total (Call.holds b) (s.calls.set i (.removeDone .kRemoved (some a))) ≤ 1
    by_cases hba : b = a
    · subst hba
      have h1 : (Call.removeDone .kRemoved (some b)).holds b = 1 := by
        simp [Call.holds, Call.pending, Call.handed, Call.removed, Call.taken]
      have hpos := List.count_pos_iff.mpr ha
      have hz : (s.entries.filter (· ≠ b)).count b = 0 := by
        simp [List.count_eq_zero]
      omega
    · have h1 : (Call.removeDone .kRemoved (some a)).holds b = 0 := by
        simp [Call.holds, Call.pending, Call.handed, Call.removed, Call.taken,
          List.count_eq_zero, hba]
      have hz : (s.entries.filter (· ≠ a)).count b = s.entries.count b :=
        List.count_filter (by simpa using hba)
      omega

/-- Where two program counters of one call stand the same to every entry but `a`. -/
private def FrameAt (a : Addr) (c c' : Call) : Prop :=
  (∀ b, b ≠ a → c'.inside b = c.inside b ∧ (c'.closes b → c.closes b) ∧
    (c'.emptied b → c.emptied b) ∧ (c'.retires b → c.retires b) ∧
    (c'.removing b → c.removing b)) ∧
  (∀ b, c'.holds b = c.holds b) ∧ ∀ b, c'.mentions b → c.mentions b

/-- `with` and `forEach` come in: the entry is open, so nobody has seen it empty for good. -/
private theorem Inv.enter (inv : Inv s) (hc : s.calls[i]? = some c)
    (he : s.heap[a]? = some e) (hen : e.enter = some e') (hf : FrameAt a c c')
    (hin : c'.inside a) (hout : c.inside a = false) (hcl : c'.closes a = false)
    (hre : c'.retires a = false) : Inv (s.put a e' i c') := by
  have hopen : e.closing = false := by
    cases h : e.closing with
    | false => rfl
    | true => simp [Entry.enter, h] at hen
  have he' : e' = { e with users := e.users + 1 } := by
    simpa [Entry.enter, hopen, eq_comm] using hen
  subst he'
  refine inv.put hc he ((inv.entry a e he).advance hc ?_ id ?_ id ?_ ?_ ?_ ?_) hf.1 hf.2.1 hf.2.2
  · simp [hin, hout]
  · simp [hcl]
  · simp [hre]
  · simp [hopen]
  · intro h
    rw [closes_of_emptied h] at hcl
    cases hcl
  · intro _ h
    rw [closes_of_removing h] at hcl
    cases hcl

/-- They leave: one call was inside, so nobody has seen the entry empty for good. -/
private theorem Inv.leave (inv : Inv s) (hc : s.calls[i]? = some c)
    (he : s.heap[a]? = some e) (hf : FrameAt a c c') (hin : c.inside a)
    (hout : c'.inside a = false) (hcl : c'.closes a = false) (hre : c'.retires a = false) :
    Inv (s.put a e.leave i c') := by
  have hpos := le_total (fun c ↦ (c.inside a).toNat) (List.mem_of_getElem? hc)
  have hu := (inv.entry a e he).users
  simp only [hin, Bool.toNat_true] at hpos
  refine inv.put hc he ((inv.entry a e he).advance hc ?_ id ?_ id ?_ ?_ ?_ ?_) hf.1 hf.2.1 hf.2.2
  · simp [hin, hout, Entry.leave]
  · simp [hcl]
  · simp [hre]
  · intro _ h
    omega
  · intro h
    rw [closes_of_emptied h] at hcl
    cases hcl
  · intro _ h
    rw [closes_of_removing h] at hcl
    cases hcl

/-- A step between two `close` points: nobody enters or leaves. -/
private theorem Inv.closeStep (inv : Inv s) (hc : s.calls[i]? = some c)
    (he : s.heap[a]? = some e) (hf : FrameAt a c c') (users : e'.users = e.users)
    (closing : e.closing → e'.closing) (retired : e.retired → e'.retired)
    (inside : c'.inside a = c.inside a) (closes : c'.closes a → c.closes a ∨ e'.closing)
    (retires : c'.retires a → c.retires a ∨ e'.retired)
    (emptied : c'.emptied a → c.emptied a ∨ e.users = 0)
    (single : e'.retired = false → c'.removing a → c.removing a ∨ e.closing = false) :
    Inv (s.put a e' i c') := by
  rw [← users] at emptied
  refine inv.put hc he ((inv.entry a e he).advance hc ?_ closing closes retired retires ?_
    emptied single) hf.1 hf.2.1 hf.2.2
  · rw [users, inside]
  · intro _ h
    rw [users, h]

attribute [simp] Call.inside Call.taken Call.pending Call.removed Call.handed Call.removing
  Call.emptied Call.retires Call.closes Call.holds Call.mentions

/-- Listing an entry moves its token from what is pending to what is handed out. -/
private theorem frameAt_takeAllClosed {todo : List Addr} {taken : Taken} {answer : Closed}
    (hc : c = .takeAllRetired a todo taken ∨ c = .takeAllWaiting a todo taken) :
    FrameAt a c (State.takeAllClosed a todo taken answer) := by
  rcases hc with rfl | rfl <;> cases answer <;>
    simp +contextual [FrameAt, State.takeAllClosed, List.count_cons] <;>
    grind

private theorem Inv.proceed (inv : Inv s) {expired : Bool}
    (hg : erasesListed s (.proceed i expired)) (h : s.proceed i expired = some t) : Inv t := by
  obtain ⟨c, hc, h⟩ := Option.bind_eq_some_iff.mp h
  cases c with
  | inserted _ => cases h
  | withDone _ => cases h
  | removeDone _ _ => cases h
  | withFound a =>
    obtain ⟨e, he, h⟩ := Option.bind_eq_some_iff.mp h
    cases hen : e.enter with
    | none =>
      simp only [hen, Option.some.injEq] at h
      subst h
      apply inv.closeStep hc he <;> simp [FrameAt]
    | some entered =>
      simp only [hen, Option.some.injEq] at h
      subst h
      apply inv.enter hc he hen <;> simp +contextual [FrameAt]
  | withInside a =>
    obtain ⟨e, he, h⟩ := Option.bind_eq_some_iff.mp h
    cases h
    apply inv.leave hc he <;> simp +contextual [FrameAt]
  | forEachAt todo =>
    cases todo with
    | nil => cases h
    | cons a todo =>
      obtain ⟨e, he, h⟩ := Option.bind_eq_some_iff.mp h
      have skip : Inv (s.put a e i (.forEachAt todo)) := by
        apply inv.closeStep hc he <;> simp +contextual [FrameAt]
      split at h
      · cases h
        exact skip
      · cases hen : e.enter with
        | none =>
          simp only [hen, Option.some.injEq] at h
          subst h
          exact skip
        | some entered =>
          simp only [hen, Option.some.injEq] at h
          subst h
          apply inv.enter hc he hen <;> simp +contextual [FrameAt]
  | forEachInside a todo =>
    obtain ⟨e, he, h⟩ := Option.bind_eq_some_iff.mp h
    cases h
    apply inv.leave hc he <;> simp +contextual [FrameAt]
  | removeErasing a =>
    cases h
    exact inv.erase hc (by simpa [erasesListed, hc] using hg)
  | removeTimedOut a =>
    obtain ⟨e, he, h⟩ := Option.bind_eq_some_iff.mp h
    cases h
    apply inv.put hc he ((inv.entry a e he).reopen hc) <;> simp
  | removeEmpty a =>
    obtain ⟨e, he, h⟩ := Option.bind_eq_some_iff.mp h
    cases h
    split <;> apply inv.closeStep hc he <;> simp [FrameAt]
  | removeFound a =>
    obtain ⟨e, he, h⟩ := Option.bind_eq_some_iff.mp h
    rcases e.beginClose_cases with ⟨-, -, hb⟩ | ⟨hr, hu, hb⟩ | ⟨hr, -, hb⟩ <;>
      simp only [hb, Option.some.injEq, State.removeClosed] at h <;> subst h <;>
      apply inv.closeStep hc he <;> simp +contextual [FrameAt, *]
  | removeWaiting a =>
    obtain ⟨e, he, h⟩ := Option.bind_eq_some_iff.mp h
    obtain ⟨answer, ha, h⟩ := Option.bind_eq_some_iff.mp h
    cases h
    rcases e.wakeClose_cases ha with ⟨hu, rfl⟩ | ⟨-, rfl⟩ <;>
      apply inv.closeStep hc he <;> simp [FrameAt, State.removeClosed, *]
  | takeAllAt todo taken =>
    cases todo with
    | nil => cases h
    | cons a todo =>
      obtain ⟨e, he, h⟩ := Option.bind_eq_some_iff.mp h
      cases h
      apply inv.closeStep hc he <;> simp +contextual [FrameAt, Entry.retire]
  | takeAllRetired a todo taken =>
    obtain ⟨e, he, h⟩ := Option.bind_eq_some_iff.mp h
    rcases e.beginClose_cases with ⟨-, -, hb⟩ | ⟨-, hu, hb⟩ | ⟨-, -, hb⟩ <;>
      simp only [hb, Option.some.injEq] at h <;> subst h
    · apply inv.closeStep hc he (frameAt_takeAllClosed (Or.inl rfl)) <;>
        simp +contextual [State.takeAllClosed]
    · apply inv.closeStep hc he (frameAt_takeAllClosed (Or.inl rfl)) <;>
        simp +contextual [State.takeAllClosed, hu]
    · apply inv.closeStep hc he <;> simp +contextual [FrameAt]
  | takeAllWaiting a todo taken =>
    obtain ⟨e, he, h⟩ := Option.bind_eq_some_iff.mp h
    obtain ⟨answer, ha, h⟩ := Option.bind_eq_some_iff.mp h
    cases h
    rcases e.wakeClose_cases ha with ⟨hu, rfl⟩ | ⟨-, rfl⟩ <;>
      apply inv.closeStep hc he (frameAt_takeAllClosed (Or.inr rfl)) <;>
      simp +contextual [State.takeAllClosed, *]

private theorem Inv.step (inv : Inv s) {action : Action T} (hg : erasesListed s action)
    (h : s.step action = some t) : Inv t := by
  cases action with
  | insert id value => cases h; exact inv.insert id value
  | takeAll => cases h; exact inv.takeAll
  | proceed call expired => exact inv.proceed hg h
  | «with» id =>
    cases h
    have hlt (a) (hf : s.findLocked id = some a) := inv.lt_of_findLocked hf
    unfold State.with
    cases hf : s.findLocked id with
    | none => apply inv.newCall <;> simp
    | some a =>
      have := hlt a hf
      dsimp only
      split <;> apply inv.newCall <;> simp [this]
  | forEach =>
    cases h
    apply inv.newCall <;> simp +contextual [inv.lt_of_mem_entries]
  | remove id =>
    cases h
    have hlt (a) (hf : s.findLocked id = some a) := inv.lt_of_findLocked hf
    unfold State.remove
    cases hf : s.findLocked id with
    | none => apply inv.newCall <;> simp
    | some a =>
      have := hlt a hf
      apply inv.newCall <;> simp [this]

end Step

private theorem inv_empty : Inv ({} : State T) where
  entry := by simp
  bound := by simp
  token := by simp

private theorem Inv.handedOver {s : State T} (inv : Inv s) : HandedOver s where
  once := by
    rw [List.nodup_iff_count_le_one]
    intro a
    have hle : total (fun c ↦ c.handed.count a) s.calls ≤ total (Call.holds a) s.calls :=
      total_mono s.calls fun c ↦ Nat.le_add_left _ _
    have ht := inv.token a
    rw [List.count_flatMap]
    change total (fun c ↦ c.handed.count a) s.calls ≤ 1
    omega
  quiet a ha := by
    obtain ⟨c, hc, ha⟩ := List.mem_flatMap.mp ha
    have hem : c.emptied a := by
      cases c <;> simp_all [Call.toStop]
      grind
    constructor
    · intro d hd
      cases he : s.heap[a]? with
      | none =>
        exact (stands_nowhere ((inv.bound a (List.getElem?_eq_none_iff.mp he)).2 d hd)).1
      | some e =>
        have hu := (inv.entry a e he).users
        rw [(inv.entry a e he).empty c hc hem] at hu
        have hle := le_total (fun c ↦ (c.inside a).toNat) hd
        cases hi : d.inside a with
        | false => rfl
        | true =>
          simp only [hi, Bool.toNat_true] at hle
          omega
    · intro e he
      simp [Entry.enter, (inv.entry a e he).closing c hc (closes_of_emptied hem)]

/-- In every run whose erases find their entry still listed, whatever the interleaving and
whenever deadlines expire, an entry is handed out at most once, and one handed out as
removed or idle has no call inside it then or later. -/
theorem handedOver_of_erasesListed {s : State T}
    (h : (machine T).ReachableUnder (fun s a ↦ erasesListed s a) s) : HandedOver s := by
  have inv : Inv s := h.invariant (fun _ hs ↦ hs ▸ inv_empty) fun _ _ _ hg hi ht ↦ hi.step hg ht
  exact inv.handedOver

/-- A removal that finishes, then a shutdown. -/
private def removeThenTakeAll : List (Action Nat) :=
  [.insert "a" (some 0), .insert "b" (some 1), .remove "a", .proceed 2 false,
    .proceed 2 false, .proceed 2 false, .takeAll, .proceed 3 false, .proceed 3 false]

/-- A removal and a shutdown in turn share out two entries. -/
theorem handedOver_removeThenTakeAll :
    HandedOver
      { heap := [⟨"a", some 0, 0, true, false⟩, ⟨"b", some 1, 0, true, true⟩]
        entries := []
        calls := [.inserted true, .inserted true, .removeDone .kRemoved (some 0),
          .takeAllAt [] { idle := [1] }] } :=
  handedOver_of_erasesListed
    (.runUnder (.init rfl) removeThenTakeAll (by decide))

/-- `takeAll` swaps the table between a removal's `isRetired` and its erase. -/
private def takeAllBeforeErase : List (Action Nat) :=
  [.insert "a" (some 0), .remove "a", .proceed 1 false, .proceed 1 false, .takeAll,
    .proceed 1 false, .proceed 2 false, .proceed 2 false]

/-- Without that condition one entry can be handed out by a removal and by a shutdown:
both go on to stop it. -/
theorem not_handedOver : ¬ ∀ s : State Nat, (machine Nat).Reachable s → HandedOver s := by
  intro h
  have hr : (machine Nat).Reachable
      { heap := [⟨"a", some 0, 0, true, true⟩]
        entries := []
        calls := [.inserted true, .removeDone .kRemoved (some 0),
          .takeAllAt [] { idle := [0] }] } :=
    Machine.Reachable.run (.init rfl) takeAllBeforeErase (by decide)
  have hn := (h _ hr).once
  simp at hn

end WebLinked.Core.SourceTable
