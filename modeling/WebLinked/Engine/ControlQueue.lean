import Mathlib
import WebLinked.Base.Int32
import WebLinked.Base.Machine

/-!
# The queue of control changes

Changes to one source take turns on a timed mutex, and each caller that waits is an HTTP thread. A
caller counts itself in, and out again if it was one too many: what the counter holds is not the
number that waits.
-/

namespace WebLinked.Engine

open WebLinked.Base

/-- The queue's constants, in milliseconds; `src/core/control_queue.h:33–35`. -/
structure ControlQueue where
  wait : Int
  maxWaiting : Int
  poll : Int := 100

/-- The queue of a source; `src/engine/engine.h:302`. -/
def controlQueue : ControlQueue where
  wait := 30000
  maxWaiting := 4

namespace ControlQueue

/-- `src/core/control_queue.h:31`. -/
inductive Result where
  | held
  | timedOut
  | tooMany
  | holderStuck
  deriving DecidableEq

/-- Where a caller is in `enter`. -/
inductive Stage where
  /-- not in it: the lock was not asked for, or this came of it -/
  | outside (last : Option Result)
  /-- `try_lock` has failed -/
  | busy
  /-- counted, and one too many -/
  | refused
  /-- counted, with `deadline` still to be set -/
  | admitted
  /-- at the head of the loop -/
  | looping (deadline : Int)
  /-- in `try_lock_for`, which gives up at `till` -/
  | locking (deadline till : Int)
  /-- about to count itself out with this result -/
  | leaving (result : Result)
  deriving DecidableEq

namespace Stage

/-- Inside `enter`. -/
def isInside : Stage → Bool
  | .outside _ => false
  | _ => true

/-- In the loop, or about to be. -/
def isWaiting : Stage → Bool
  | .admitted | .looping _ | .locking _ _ => true
  | _ => false

/-- Past the admission test, and not yet counted out. -/
def isAdmitted : Stage → Bool
  | .leaving _ => true
  | p => p.isWaiting

/-- In the counter. -/
def isCounted : Stage → Bool
  | .refused => true
  | p => p.isAdmitted

end Stage

/-- The queue, the time and the callers. `refusals` is where every caller was each time one was
turned away. -/
structure State where
  callers : List Stage
  waiting : Int := 0
  owner : Option ℕ := none
  now : Int := 0
  refusals : List (List Stage) := []
  deriving DecidableEq

/-- A queue and so many callers. -/
def State.start (n : ℕ) : State where
  callers := List.replicate n (.outside none)

/-- A step of one caller, with what it is answered. -/
inductive Move where
  | tryLock (got : Bool)
  | fetchAdd
  | setDeadline
  | look (stuck : Bool)
  | tryLockFor (got : Bool)
  | fetchSub
  | unlock

/-- Time passes, or a caller takes a step. -/
inductive Action where
  | tick (millis : ℕ)
  | caller (i : ℕ) (move : Move)

namespace State

/-- The caller's next stage. -/
def goto (s : State) (i : ℕ) (p : Stage) : State := { s with callers := s.callers.set i p }

/-- A step of `enter`, or of the caller giving the lock back; `src/core/control_queue.h:38–67`. -/
def move (q : ControlQueue) (s : State) (i : ℕ) : Stage → Move → Option State
  | .outside _, .tryLock got =>
    -- a lock that is held is not asked for again
    if s.owner = some i then none
    else if got then
      if s.owner = none then
        some { s.goto i (.outside (some .held)) with owner := some i }
      else none
    else some (s.goto i .busy)
  | .busy, .fetchAdd =>
    if q.maxWaiting ≤ s.waiting then
      some { s.goto i .refused with
        waiting := toInt32 (s.waiting + 1), refusals := s.callers :: s.refusals }
    else some { s.goto i .admitted with waiting := toInt32 (s.waiting + 1) }
  | .refused, .fetchSub =>
    some { s.goto i (.outside (some .tooMany)) with waiting := toInt32 (s.waiting - 1) }
  | .admitted, .setDeadline => some (s.goto i (.looping (s.now + q.wait)))
  | .looping deadline, .look stuck =>
    if deadline ≤ s.now then some (s.goto i (.leaving .timedOut))
    else if stuck then some (s.goto i (.leaving .holderStuck))
    else
      let step := if deadline - s.now < q.poll then deadline - s.now else q.poll
      some (s.goto i (.locking deadline (s.now + step)))
  | .locking deadline till, .tryLockFor got =>
    if got then
      if s.owner = none then
        some { s.goto i (.leaving .held) with owner := some i }
      else none
    else if till ≤ s.now then some (s.goto i (.looping deadline))
    else none
  | .leaving result, .fetchSub =>
    some { s.goto i (.outside (some result)) with waiting := toInt32 (s.waiting - 1) }
  | .outside _, .unlock => if s.owner = some i then some { s with owner := none } else none
  | _, _ => none

/-- One step. -/
def step (q : ControlQueue) (s : State) : Action → Option State
  | .tick millis => some { s with now := s.now + millis }
  | .caller i m => s.callers[i]?.bind fun p ↦ s.move q i p m

/-- So many callers are of this kind. -/
def number (s : State) (p : Stage → Bool) : ℕ := s.callers.countP p

end State

/-- The queue with any number of callers. -/
def machine (q : ControlQueue) : Machine State Action where
  init s := ∃ n, s = .start n
  step := State.step q

/-- What the queue is for: no more than `maxWaiting` are let past the test, the counter is back at
zero when nobody is inside, and whoever was turned away found `maxWaiting` others waiting. -/
structure Admits (q : ControlQueue) (waits : Stage → Bool) (s : State) : Prop where
  bounded : (s.number Stage.isAdmitted : Int) ≤ max 0 q.maxWaiting
  idle : s.number Stage.isInside = 0 → s.waiting = 0
  deserved : ∀ callers ∈ s.refusals, q.maxWaiting ≤ (callers.countP waits : Int)

/-- Whoever counts itself in finds the counter on the same side of `maxWaiting` as those it is
for. -/
def Agrees (q : ControlQueue) (waits : Stage → Bool) (s : State) : Action → Prop
  | .caller _ .fetchAdd =>
    (q.maxWaiting ≤ toInt32 (s.number Stage.isCounted) →
      q.maxWaiting ≤ (s.number waits : Int)) ∧
    (toInt32 (s.number Stage.isCounted) < q.maxWaiting →
      (s.number Stage.isAdmitted : Int) < q.maxWaiting)
  | _ => True

instance (q : ControlQueue) (waits : Stage → Bool) : DecidableRel (Agrees q waits) :=
  fun _ a ↦
    match a with
    | .caller _ .fetchAdd => inferInstanceAs (Decidable (_ ∧ _))
    | .tick _ | .caller _ (.tryLock _) | .caller _ .setDeadline | .caller _ (.look _)
    | .caller _ (.tryLockFor _) | .caller _ .fetchSub | .caller _ .unlock => .isTrue trivial

/-! ### What a step does -/

/-- What a step does to the callers, the counter and the refusals. -/
inductive Change (q : ControlQueue) (s : State) (a : Action) (t : State) : Prop where
  | apart (callers : t.callers = s.callers) (waiting : t.waiting = s.waiting)
      (refusals : t.refusals = s.refusals)
  | within (i : ℕ) (p p' : Stage) (here : s.callers[i]? = some p)
      (callers : t.callers = s.callers.set i p') (counted : p'.isCounted = p.isCounted)
      (admitted : p'.isAdmitted = p.isAdmitted) (waiting : t.waiting = s.waiting)
      (refusals : t.refusals = s.refusals)
  | countedIn (i : ℕ) (action : a = .caller i .fetchAdd) (here : s.callers[i]? = some .busy)
      (admits : s.waiting < q.maxWaiting) (callers : t.callers = s.callers.set i .admitted)
      (waiting : t.waiting = toInt32 (s.waiting + 1)) (refusals : t.refusals = s.refusals)
  | turnedAway (i : ℕ) (action : a = .caller i .fetchAdd) (here : s.callers[i]? = some .busy)
      (refuses : q.maxWaiting ≤ s.waiting) (callers : t.callers = s.callers.set i .refused)
      (waiting : t.waiting = toInt32 (s.waiting + 1))
      (refusals : t.refusals = s.callers :: s.refusals)
  | countedOut (i : ℕ) (p : Stage) (result : Result) (here : s.callers[i]? = some p)
      (counted : p.isCounted = true) (callers : t.callers = s.callers.set i (.outside (some result)))
      (waiting : t.waiting = toInt32 (s.waiting - 1)) (refusals : t.refusals = s.refusals)

namespace State

variable {q : ControlQueue} {s t : State} {i : ℕ}

/-- A caller's step is one of these. -/
theorem change_of_move {p : Stage} {m : Move} (hp : s.callers[i]? = some p)
    (h : s.move q i p m = some t) : Change q s (.caller i m) t := by
  cases p with
  | outside last =>
    cases m with
    | tryLock got =>
      simp only [move] at h
      split at h
      · cases h
      split at h
      · split at h
        · cases h
          exact .within i _ _ hp rfl rfl rfl rfl rfl
        · cases h
      · cases h
        exact .within i _ _ hp rfl rfl rfl rfl rfl
    | unlock =>
      simp only [move] at h
      split at h
      · cases h
        exact .apart rfl rfl rfl
      · cases h
    | _ => cases h
  | busy =>
    cases m with
    | fetchAdd =>
      simp only [move] at h
      split at h
      · next hfull =>
        cases h
        exact .turnedAway i rfl hp hfull rfl rfl rfl
      · next hroom =>
        cases h
        exact .countedIn i rfl hp (by omega) rfl rfl rfl
    | _ => cases h
  | refused =>
    cases m with
    | fetchSub =>
      cases h
      exact .countedOut i _ _ hp rfl rfl rfl rfl
    | _ => cases h
  | admitted =>
    cases m with
    | setDeadline =>
      cases h
      exact .within i _ _ hp rfl rfl rfl rfl rfl
    | _ => cases h
  | looping deadline =>
    cases m with
    | look stuck =>
      simp only [move] at h
      split at h
      · cases h
        exact .within i _ _ hp rfl rfl rfl rfl rfl
      split at h
      · cases h
        exact .within i _ _ hp rfl rfl rfl rfl rfl
      · cases h
        exact .within i _ _ hp rfl rfl rfl rfl rfl
    | _ => cases h
  | locking deadline till =>
    cases m with
    | tryLockFor got =>
      simp only [move] at h
      split at h
      · split at h
        · cases h
          exact .within i _ _ hp rfl rfl rfl rfl rfl
        · cases h
      · split at h
        · cases h
          exact .within i _ _ hp rfl rfl rfl rfl rfl
        · cases h
    | _ => cases h
  | leaving result =>
    cases m with
    | fetchSub =>
      cases h
      exact .countedOut i _ _ hp rfl rfl rfl rfl
    | _ => cases h

/-- Every step is one of these. -/
theorem change_of_step {a : Action} (h : s.step q a = some t) : Change q s a t := by
  cases a with
  | tick millis =>
    cases h
    exact .apart rfl rfl rfl
  | caller i m =>
    obtain ⟨p, hp, hmove⟩ := Option.bind_eq_some_iff.mp h
    exact change_of_move hp hmove

/-- One caller at another stage changes what there is of a kind by at most one. -/
theorem number_of_set {p p' : Stage} (hp : s.callers[i]? = some p)
    (ht : t.callers = s.callers.set i p') (f : Stage → Bool) :
    t.number f + (f p).toNat = s.number f + (f p').toNat := by
  obtain ⟨hlt, hget⟩ := List.getElem?_eq_some_iff.mp hp
  have hpos : f p = true → 0 < s.callers.countP f := by
    intro hf
    exact List.countP_pos_iff.mpr ⟨p, List.mem_of_getElem? hp, hf⟩
  rw [number, ht, List.countP_set hlt, hget, number]
  cases hf : f p with
  | false => cases f p' <;> simp
  | true =>
    have := hpos hf
    cases f p' <;> simp <;> omega

/-- A kind the two stages do not differ in. -/
theorem number_of_set_of_eq {p p' : Stage} (hp : s.callers[i]? = some p)
    (ht : t.callers = s.callers.set i p') {f : Stage → Bool} (hf : f p' = f p) :
    t.number f = s.number f := by
  have h := number_of_set hp ht f
  rw [hf] at h
  exact Nat.add_right_cancel h

/-- What is of one kind and so of another. -/
theorem number_le {f g : Stage → Bool} (hfg : ∀ p, f p = true → g p = true) :
    s.number f ≤ s.number g :=
  List.countP_mono_left fun p _ ↦ hfg p

/-- No caller is counted who is not inside. -/
theorem number_counted_le_inside : s.number Stage.isCounted ≤ s.number Stage.isInside := by
  apply number_le
  intro p hp
  cases p with
  | outside last => cases hp
  | _ => rfl

/-- No caller is past the test who is not counted. -/
theorem number_admitted_le_counted : s.number Stage.isAdmitted ≤ s.number Stage.isCounted := by
  apply number_le
  intro p hp
  cases p with
  | refused => rfl
  | _ => exact hp

/-! ### The counter -/

/-- The counter holds those who counted themselves in and not out, as far as an `int` can. -/
def Counts (s : State) : Prop := s.waiting = toInt32 (s.number Stage.isCounted)

/-- Nobody has come yet. -/
theorem number_start (n : ℕ) {f : Stage → Bool} (hf : f (.outside none) = false) :
    (start n).number f = 0 := by
  rw [number, start, List.countP_replicate, hf]
  rfl

/-- The counter of a fresh queue. -/
theorem counts_start (n : ℕ) : (start n).Counts := by
  rw [Counts, number_start n rfl]
  rfl

/-- One more in the counter. -/
theorem toInt32_add_one (x : Int) : toInt32 (toInt32 x + 1) = toInt32 (x + 1) :=
  Int.bmod_add_bmod ..

/-- One less in the counter. -/
theorem toInt32_sub_one (x : Int) : toInt32 (toInt32 x - 1) = toInt32 (x - 1) :=
  Int.bmod_sub_bmod ..

/-- Every step keeps the counter right. -/
theorem Counts.step (h : s.Counts) {a : Action} (ht : s.step q a = some t) : t.Counts := by
  unfold Counts at h ⊢
  cases change_of_step ht with
  | apart callers waiting refusals => rw [waiting, number, callers, h, number]
  | within i p p' here callers counted admitted waiting refusals =>
    rw [waiting, number_of_set_of_eq here callers counted, h]
  | countedIn i action here admits callers waiting refusals =>
    have hone : t.number Stage.isCounted = s.number Stage.isCounted + 1 :=
      number_of_set here callers Stage.isCounted
    rw [waiting, h, toInt32_add_one, hone, Nat.cast_succ]
  | turnedAway i action here refuses callers waiting refusals =>
    have hone : t.number Stage.isCounted = s.number Stage.isCounted + 1 :=
      number_of_set here callers Stage.isCounted
    rw [waiting, h, toInt32_add_one, hone, Nat.cast_succ]
  | countedOut i p result here counted callers waiting refusals =>
    have hn := number_of_set here callers Stage.isCounted
    rw [counted] at hn
    have hone : t.number Stage.isCounted + 1 = s.number Stage.isCounted := hn
    rw [waiting, h, toInt32_sub_one, ← hone, Nat.cast_succ, add_sub_cancel_right]

/-- A counter that is right is zero when nobody is inside. -/
theorem Counts.idle (h : s.Counts) (hout : s.number Stage.isInside = 0) : s.waiting = 0 := by
  have hnone : s.number Stage.isCounted = 0 :=
    Nat.le_zero.mp (hout ▸ number_counted_le_inside)
  rw [h, hnone]
  rfl

end State

/-! ### Runs -/

variable {q : ControlQueue} {waits : Stage → Bool} {s t : State}

/-- What every step keeps that finds the counter on the right side. -/
structure Kept (q : ControlQueue) (waits : Stage → Bool) (s : State) : Prop where
  counts : s.Counts
  bounded : (s.number Stage.isAdmitted : Int) ≤ max 0 q.maxWaiting
  deserved : ∀ callers ∈ s.refusals, q.maxWaiting ≤ (callers.countP waits : Int)

namespace Kept

/-- A fresh queue. -/
theorem start (n : ℕ) : Kept q waits (.start n) := by
  constructor
  · exact State.counts_start n
  · rw [State.number_start n rfl]
    exact le_max_left ..
  · intro callers hc
    cases hc

/-- What the queue is for. -/
theorem admits (h : Kept q waits s) : Admits q waits s where
  bounded := h.bounded
  idle := h.counts.idle
  deserved := h.deserved

/-- A step that finds the counter on the right side. -/
theorem step (h : Kept q waits s) {a : Action} (ha : Agrees q waits s a)
    (ht : s.step q a = some t) : Kept q waits t := by
  have hcounts : t.Counts := h.counts.step ht
  cases State.change_of_step ht with
  | apart callers waiting refusals =>
    constructor
    · exact hcounts
    · rw [State.number, callers]
      exact h.bounded
    · rw [refusals]
      exact h.deserved
  | within i p p' here callers counted admitted waiting refusals =>
    constructor
    · exact hcounts
    · rw [State.number_of_set_of_eq here callers admitted]
      exact h.bounded
    · rw [refusals]
      exact h.deserved
  | countedIn i action here admits callers waiting refusals =>
    subst action
    have hfew : (s.number Stage.isAdmitted : Int) < q.maxWaiting := by
      apply ha.2
      rw [← h.counts]
      exact admits
    have hone : t.number Stage.isAdmitted = s.number Stage.isAdmitted + 1 :=
      State.number_of_set here callers Stage.isAdmitted
    constructor
    · exact hcounts
    · omega
    · rw [refusals]
      exact h.deserved
  | turnedAway i action here refuses callers waiting refusals =>
    subst action
    have henough : q.maxWaiting ≤ (s.number waits : Int) := by
      apply ha.1
      rw [← h.counts]
      exact refuses
    constructor
    · exact hcounts
    · rw [State.number_of_set_of_eq here callers rfl]
      exact h.bounded
    · intro found hfound
      rw [refusals] at hfound
      cases hfound with
      | head => exact henough
      | tail _ hold => exact h.deserved found hold
  | countedOut i p result here counted callers waiting refusals =>
    have hless : t.number Stage.isAdmitted + (p.isAdmitted).toNat =
        s.number Stage.isAdmitted := State.number_of_set here callers Stage.isAdmitted
    have hbounded := h.bounded
    constructor
    · exact hcounts
    · omega
    · rw [refusals]
      exact h.deserved

/-- A step that finds it on the wrong side lets one too many past or turns one away for
nothing. -/
theorem not_admits (h : Kept q waits s) {a : Action} (ha : ¬ Agrees q waits s a)
    (ht : s.step q a = some t) : ¬ Admits q waits t := by
  intro hadmits
  have hcounts : s.waiting = toInt32 (s.number Stage.isCounted) := h.counts
  apply ha
  cases a with
  | tick millis => trivial
  | caller i m =>
    cases m with
    | fetchAdd =>
      obtain ⟨p, hp, hmove⟩ := Option.bind_eq_some_iff.mp ht
      cases p with
      | busy =>
        simp only [State.move] at hmove
        constructor
        · intro hfull
          rw [if_pos (hcounts ▸ hfull)] at hmove
          cases hmove
          exact hadmits.deserved s.callers List.mem_cons_self
        · intro hroom
          rw [if_neg (not_le.mpr (hcounts ▸ hroom))] at hmove
          cases hmove
          have hone := State.number_of_set (t := s.goto i .admitted) hp rfl Stage.isAdmitted
          have hmore : ((s.goto i .admitted).number Stage.isAdmitted : Int) =
              s.number Stage.isAdmitted + 1 := mod_cast hone
          have hbounded : ((s.goto i .admitted).number Stage.isAdmitted : Int) ≤
              max 0 q.maxWaiting := hadmits.bounded
          omega
      | _ => cases hmove
    | _ => trivial

end Kept

/-- In a run from a fresh queue, with any number of callers, the queue does what it is for
throughout if and only if whoever counts itself in finds the counter on the same side of
`maxWaiting` as those it is for. `waits` says which of the callers past the test still wait. -/
theorem admits_iff (q : ControlQueue) (waits : Stage → Bool) (n : ℕ) (actions : List Action)
    (t : State) (ht : (machine q).run (.start n) actions = some t) :
    (machine q).Always (Admits q waits) (.start n) actions ↔
      (machine q).runUnder (Agrees q waits) (.start n) actions = some t := by
  apply Machine.always_iff_runUnder_of_invariant (I := Kept q waits)
  · exact fun s h ↦ h.admits
  · exact fun s a t ha h ht ↦ h.step ha ht
  · exact fun s a t h ha ht ↦ h.not_admits ha ht
  · exact .start n
  · exact ht

/-- The steps by which a caller comes to wait. -/
def queued (i : ℕ) : List Action :=
  [.caller i (.tryLock false), .caller i .fetchAdd, .caller i .setDeadline, .caller i (.look false)]

/-- Caller 5 finds four waiting and is turned away, and caller 1 gets its turn. -/
def turns : List Action :=
  [.caller 0 (.tryLock true)] ++ queued 1 ++ queued 2 ++ queued 3 ++ queued 4 ++
    [.caller 5 (.tryLock false), .caller 5 .fetchAdd, .caller 5 .fetchSub, .tick 40,
      .caller 0 .unlock, .caller 1 (.tryLockFor true), .caller 1 .fetchSub]

/-- In such a run the queue does what it is for, and turns a caller away. -/
theorem admits_turns :
    ∃ t, (machine controlQueue).run (.start 6) turns = some t ∧
      t.callers[5]? = some (.outside (some .tooMany)) ∧
      t.callers[1]? = some (.outside (some .held)) ∧
      (machine controlQueue).Always (Admits controlQueue Stage.isWaiting) (.start 6) turns := by
  have hseen : ((machine controlQueue).run (.start 6) turns).map
      (fun t ↦ (t.callers[5]?, t.callers[1]?)) =
        some (some (.outside (some .tooMany)), some (.outside (some .held))) := by
    decide +kernel
  obtain ⟨t, ht, hcallers⟩ := Option.map_eq_some_iff.mp hseen
  obtain ⟨hfive, hone⟩ := Prod.mk.inj hcallers
  have hsame : (machine controlQueue).runUnder (Agrees controlQueue Stage.isWaiting) (.start 6)
      turns = (machine controlQueue).run (.start 6) turns := by
    decide +kernel
  exact ⟨t, ht, hfive, hone,
    (admits_iff controlQueue Stage.isWaiting 6 turns t ht).mpr (hsame.trans ht)⟩

/-- Caller 5 finds four waiting. Before it has counted itself out, caller 1 has had its turn and
caller 6 comes. -/
def race : List Action :=
  [.caller 0 (.tryLock true)] ++ queued 1 ++ queued 2 ++ queued 3 ++ queued 4 ++
    [.caller 5 (.tryLock false), .caller 5 .fetchAdd, .caller 0 .unlock,
      .caller 1 (.tryLockFor true), .caller 1 .fetchSub,
      .caller 6 (.tryLock false), .caller 6 .fetchAdd, .caller 6 .fetchSub]

/-- Caller 6 is turned away although three wait, and caller 5 is on its way out. -/
theorem race_refusals :
    ((machine controlQueue).run (.start 7) race).map
      (fun t ↦ (t.callers[6]?, t.refusals.map (·.countP Stage.isAdmitted))) =
      some (some (.outside (some .tooMany)), [3, 4]) := by
  decide +kernel

/-- Not every run of the queue is one in which it does what it is for. -/
theorem not_admits_race :
    ¬ ∀ (q : ControlQueue) (n : ℕ) (actions : List Action) (t : State),
      (machine q).run (.start n) actions = some t → Admits q Stage.isAdmitted t := by
  intro hall
  obtain ⟨t, ht, hseen⟩ := Option.map_eq_some_iff.mp race_refusals
  have hdeserved := (hall controlQueue 7 race t ht).deserved
  have hthree : 3 ∈ t.refusals.map (·.countP Stage.isAdmitted) := by
    rw [show t.refusals.map (·.countP Stage.isAdmitted) = [3, 4] from (Prod.ext_iff.mp hseen).2]
    exact List.mem_cons_self
  obtain ⟨callers, hmem, hcount⟩ := List.mem_map.mp hthree
  have hfour : (4 : Int) ≤ (callers.countP Stage.isAdmitted : Int) := hdeserved callers hmem
  omega

/-! ### Fewer callers than an `int` can count -/

/-- Nobody joins the callers and nobody leaves them. -/
theorem State.length_step {a : Action} (h : s.step q a = some t) :
    t.callers.length = s.callers.length := by
  cases State.change_of_step h with
  | apart callers waiting refusals => rw [callers]
  | within i p p' here callers counted admitted waiting refusals => rw [callers, List.length_set]
  | countedIn i action here admits callers waiting refusals => rw [callers, List.length_set]
  | turnedAway i action here refuses callers waiting refusals => rw [callers, List.length_set]
  | countedOut i p result here counted callers waiting refusals => rw [callers, List.length_set]

/-- A counter that has not run over is the number that is counted. -/
theorem State.toInt32_number (h : s.callers.length < 2147483648) :
    toInt32 (s.number Stage.isCounted) = s.number Stage.isCounted := by
  have hle : s.number Stage.isCounted ≤ s.callers.length := List.countP_le_length
  apply toInt32_of_mem
  constructor <;> omega

/-- The counter is on the wrong side only for those it counts who do not wait: they make up what
is missing to `maxWaiting`. -/
theorem agrees_iff_of_few (h : s.callers.length < 2147483648) (i : ℕ) :
    Agrees q waits s (.caller i .fetchAdd) ↔
      (q.maxWaiting ≤ (s.number Stage.isCounted : Int) → q.maxWaiting ≤ (s.number waits : Int)) := by
  have hle : s.number Stage.isAdmitted ≤ s.number Stage.isCounted :=
    State.number_admitted_le_counted
  rw [Agrees, State.toInt32_number h]
  constructor
  · exact fun hagrees ↦ hagrees.1
  · intro hfull
    constructor
    · exact hfull
    · omega

/-- The counter is never on the wrong side for those that it counts. -/
theorem agrees_of_few (h : s.callers.length < 2147483648) (a : Action) :
    Agrees q Stage.isCounted s a := by
  cases a with
  | tick millis => trivial
  | caller i m =>
    cases m with
    | fetchAdd => exact (agrees_iff_of_few h i).mpr id
    | _ => trivial

/-- With fewer callers than that, no more than `maxWaiting` are ever past the test. -/
theorem bounded_of_few (hs : (machine q).Reachable s) (h : s.callers.length < 2147483648) :
    (s.number Stage.isAdmitted : Int) ≤ max 0 q.maxWaiting := by
  have hkept : s.callers.length < 2147483648 → Kept q Stage.isCounted s := by
    apply hs.invariant (I := fun s ↦ s.callers.length < 2147483648 → Kept q Stage.isCounted s)
    · rintro s ⟨n, rfl⟩ hlen
      exact .start n
    · intro s a t htrue hs ht hlen
      rw [State.length_step ht] at hlen
      exact (hs hlen).step (agrees_of_few hlen a) ht
  exact (hkept h).bounded

/-- The counter is zero whenever nobody is inside. -/
theorem idle_of_reachable (hs : (machine q).Reachable s) (hout : s.number Stage.isInside = 0) :
    s.waiting = 0 := by
  have hcounts : s.Counts := by
    apply hs.invariant
    · rintro s ⟨n, rfl⟩
      exact State.counts_start n
    · exact fun s a t htrue hs ht ↦ hs.step ht
  exact hcounts.idle hout

end ControlQueue
end WebLinked.Engine
