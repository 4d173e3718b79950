import WebLinked.Base.Machine
import WebLinked.Base.Pool
import WebLinked.Core.Json

/-!
# What an output slot reports

`src/outputs/output_slot.h:108–158`, `src/core/call_gate.h:36–57`. A report is made under the gate
and written down under a second lock, after the gate is let go. Between the two, other reports are
made and written down and the output is replaced, so what is written down last need not be the
last that was made, nor be of the output that is there.
-/

namespace WebLinked.Engine.SlotStatus

open WebLinked.Base WebLinked.Core.Json

/-- What an output answered. Not in the code are the object that answered, by the order in which
objects were made, and how many answers there had been. -/
structure Report where
  object : ℕ
  number : ℕ
  value : Value

/-- What is done with a slot: its status is asked, the output in it is called, or replaced. A
status call has a floor, which is not in the code: the answers up to the newest that any finished
status call had returned as it began. -/
inductive Visit where
  | status (floor : ℕ)
  | call
  | replace
  deriving DecidableEq, Repr

/-- What `status` found: what the output answered, that there was none, or that the gate could not
be had. -/
inductive Outcome where
  | fresh (report : Report)
  | empty
  | refused

/-- What `status` returned. Not in the code are all fields but the value: its floor, the object in
the slot where the figures were taken and the objects figures had been returned of, and the report
that the figures are from. -/
structure Answered where
  floor : ℕ
  output : Option ℕ
  known : List ℕ
  report : Option Report
  value : Value

/-- Where a thread stands: before the gate, with it, or with its outcome after it. -/
inductive Phase where
  | waiting (visit : Visit)
  | holding (visit : Visit)
  | leaving (floor : ℕ) (output : Option ℕ) (outcome : Outcome)
  | returned (answered : Answered)
  | ended

/-- The slot, with `lastStatus` for `lastStatus_` and `haveStatus_`, and its threads. Not in the
code are how many objects and answers there have been, the floor of the next status call, and the
objects that figures have been returned of. -/
structure State where
  output : Option ℕ := none
  lastStatus : Option Report := none
  objects : ℕ := 0
  reports : ℕ := 0
  floor : ℕ := 0
  known : List ℕ := []
  threads : List Phase := []

/-- What a thread comes for. -/
inductive Request where
  | status
  | call
  | replace

/-- A thread comes, gets the gate or gives up on it, puts another object or none in the slot, lets go
of the gate, or gets the second lock; the output answers with figures, and the call in the way may
count as stuck after so many milliseconds. -/
inductive Action where
  | enter (request : Request)
  | acquire (thread : ℕ)
  | giveUp (thread : ℕ)
  | put (thread : ℕ) (present : Bool)
  | finish (thread : ℕ) (figures : Value)
  | publish (thread : ℕ) (stuck : Option Int)

/-- Whether a thread has the gate. -/
def Phase.holds : Phase → Bool
  | .holding _ => true
  | _ => false

namespace State

/-- A thread goes on. -/
def goto (s : State) (i : ℕ) (phase : Phase) : State :=
  { s with threads := s.threads.set i phase }

/-- `status` under the gate; `src/outputs/output_slot.h:138–145`. -/
def ask (s : State) (i floor : ℕ) (figures : Value) : State :=
  match s.output with
  | none => s.goto i (.leaving floor none .empty)
  | some object =>
    let report : Report := { object, number := s.reports, value := figures }
    { s with reports := s.reports + 1 }.goto i (.leaving floor (some object) (.fresh report))

/-- A status call returns figures, or none. -/
def answer (s : State) (i floor : ℕ) (output : Option ℕ) (report : Option Report) (value : Value) :
    State :=
  { s with
    floor := max s.floor ((report.map fun r : Report ↦ r.number + 1).getD 0)
    known := (report.map Report.object).toList ++ s.known }.goto i
    (.returned { floor, output, known := s.known, report, value })

/-- `status` under the second lock; `src/outputs/output_slot.h:146–163`. -/
def publish (s : State) (i floor : ℕ) (output : Option ℕ) (stuck : Option Int) : Outcome → State
  | .fresh report =>
    let value := report.value.set "stale" (.bool false)
    { s with lastStatus := some { report with value } }.answer i floor output (some report) value
  | .empty => s.answer i floor output none (.object [])
  | .refused =>
    let value := ((s.lastStatus.map Report.value).getD (.object [])).set "stale" (.bool stuck.isSome)
    s.answer i floor s.output s.lastStatus
      (match stuck with
      | some millis => value.set "driver_busy_ms" (.int millis)
      | none => value)

/-- One step; none where it cannot happen. -/
def step (s : State) : Action → Option State
  | .enter request =>
    let visit := match request with
      | .status => .status s.floor
      | .call => .call
      | .replace => .replace
    some { s with threads := s.threads ++ [.waiting visit] }
  | .acquire i =>
    match s.threads[i]? with
    | some (Phase.waiting visit) =>
      if s.threads.any Phase.holds then none else some (s.goto i (.holding visit))
    | _ => none
  | .giveUp i =>
    match s.threads[i]? with
    | some (Phase.waiting (.status floor)) => some (s.goto i (.leaving floor s.output .refused))
    | some (Phase.waiting _) => some (s.goto i .ended)
    | _ => none
  | .put i present =>
    match s.threads[i]? with
    | some (Phase.holding .replace) =>
      some (if present then { s with output := some s.objects, objects := s.objects + 1 }
        else { s with output := none })
    | _ => none
  | .finish i figures =>
    match s.threads[i]? with
    | some (Phase.holding (.status floor)) => some (s.ask i floor figures)
    | some (Phase.holding _) => some (s.goto i .ended)
    | _ => none
  | .publish i stuck =>
    match s.threads[i]? with
    | some (Phase.leaving floor output outcome) => some (s.publish i floor output stuck outcome)
    | _ => none

end State

/-- A new slot, with an output in it or none. -/
def machine : Machine State Action where
  init s := s = {} ∨ s = { output := some 0, objects := 1 }
  step := State.step

/-- The figures are those of the object in the slot, and of an answer no older than any that a call
returned before this one began; there are none only if none of that object had been returned. -/
def Answered.Sound (a : Answered) : Prop :=
  match a.report with
  | some report => a.output = some report.object ∧ a.floor ≤ report.number + 1 ∧
      ∀ key, key ≠ "stale" → key ≠ "driver_busy_ms" → a.value.get key = report.value.get key
  | none => ∀ object, a.output = some object → object ∉ a.known

/-- Every answer so far is sound. -/
def State.Sound (s : State) : Prop := ∀ a, Phase.returned a ∈ s.threads → a.Sound

/-- A report is written down before any that was made after it, and what was written down is read
while its object is in the slot. -/
def inOrder (s : State) : Action → Bool
  | .publish i _ =>
    match s.threads[i]? with
    | some (Phase.leaving _ _ (.fresh report)) => s.lastStatus.all (·.number < report.number)
    | some (Phase.leaving _ _ .refused) => s.lastStatus.all fun last ↦ s.output = some last.object
    | _ => true
  | _ => true

namespace State

/-- What is so of a thread. -/
def PhaseOk (s : State) : Phase → Prop
  | .waiting (.status floor) | .holding (.status floor) => floor ≤ s.floor
  | .leaving floor output (.fresh report) =>
    output = some report.object ∧ floor ≤ report.number + 1 ∧ report.number < s.reports
  | .leaving _ output .empty => output = none
  | .leaving floor _ .refused => floor ≤ s.floor
  | .returned answered => answered.Sound
  | _ => True

/-- What was written down last is as new as all that was returned. -/
structure Inv (s : State) : Prop where
  newest : ∀ last ∈ s.lastStatus, s.floor ≤ last.number + 1 ∧ last.number < s.reports
  nothing : s.lastStatus = none → s.floor = 0 ∧ s.known = []
  floor : s.floor ≤ s.reports
  threads : ∀ p ∈ s.threads, s.PhaseOk p

variable {s t : State} {i floor : ℕ} {p : Phase} {output : Option ℕ}

/-- What is so of a thread stays so as answers come and are returned. -/
theorem PhaseOk.mono (h : s.PhaseOk p) (hfloor : s.floor ≤ t.floor) (hreports : s.reports ≤ t.reports) :
    t.PhaseOk p := by
  cases p with
  | waiting visit =>
    cases visit with
    | status floor => exact le_trans h hfloor
    | _ => trivial
  | holding visit =>
    cases visit with
    | status floor => exact le_trans h hfloor
    | _ => trivial
  | leaving floor output outcome =>
    cases outcome with
    | fresh report => exact ⟨h.1, h.2.1, lt_of_lt_of_le h.2.2 hreports⟩
    | empty => exact h
    | refused => exact le_trans h hfloor
  | returned answered => exact h
  | ended => trivial

/-- A thread goes on to where it is all right. -/
theorem Inv.goto (h : Inv s) (hp : s.PhaseOk p) : Inv (s.goto i p) := by
  refine ⟨h.newest, h.nothing, h.floor, fun q hq ↦ ?_⟩
  apply PhaseOk.mono (s := s)
  · obtain rfl | ⟨j, -, hj⟩ := Pool.mem_set hq
    · exact hp
    · exact h.threads q (List.mem_of_getElem? hj)
  · exact le_rfl
  · exact le_rfl

/-- The output is asked under the gate. -/
theorem Inv.ask (h : Inv s) (hfloor : floor ≤ s.floor) (figures : Value) :
    Inv (s.ask i floor figures) := by
  rw [State.ask]
  split
  · apply h.goto
    rfl
  · next object _ =>
    have hnext : Inv { s with reports := s.reports + 1 } := by
      refine ⟨fun last hlast ↦ ?_, h.nothing, Nat.le_succ_of_le h.floor, fun q hq ↦ ?_⟩
      · exact ⟨(h.newest last hlast).1, Nat.lt_succ_of_lt (h.newest last hlast).2⟩
      · exact (h.threads q hq).mono le_rfl (Nat.le_succ _)
    apply hnext.goto
    refine ⟨rfl, ?_, Nat.lt_succ_self _⟩
    show floor ≤ s.reports + 1
    have hreports := h.floor
    omega

/-- A status call returns a sound answer, as new as any. -/
theorem Inv.answer (h : Inv s) {report : Option Report} {value : Value}
    (hreport : ∀ r ∈ report, ∃ last ∈ s.lastStatus, r.number = last.number)
    (hsound : Answered.Sound { floor, output, known := s.known, report, value }) :
    Inv (s.answer i floor output report value) := by
  have hfloor (last : Report) (hlast : last ∈ s.lastStatus) :
      max s.floor ((report.map fun r : Report ↦ r.number + 1).getD 0) ≤ last.number + 1 := by
    cases report with
    | none => exact max_le (h.newest last hlast).1 (Nat.zero_le _)
    | some r =>
      obtain ⟨last', hlast', hnumber⟩ := hreport r rfl
      obtain rfl := Option.mem_unique hlast hlast'
      exact max_le (h.newest last hlast).1 (Nat.succ_le_succ hnumber.le)
  have hnext : Inv { s with
      floor := max s.floor ((report.map fun r : Report ↦ r.number + 1).getD 0)
      known := (report.map Report.object).toList ++ s.known } := by
    constructor
    · exact fun last hlast ↦ ⟨hfloor last hlast, (h.newest last hlast).2⟩
    · intro hnone
      cases report with
      | none =>
        obtain ⟨hzero, hknown⟩ := h.nothing hnone
        exact ⟨by simp [hzero], by simp [hknown]⟩
      | some r =>
        obtain ⟨last, hlast, -⟩ := hreport r rfl
        rw [show s.lastStatus = none from hnone] at hlast
        cases hlast
    · cases hlast : s.lastStatus with
      | none =>
        cases report with
        | none => exact max_le h.floor (Nat.zero_le _)
        | some r =>
          obtain ⟨last, hmem, -⟩ := hreport r rfl
          rw [hlast] at hmem
          cases hmem
      | some last => exact le_trans (hfloor last hlast) (h.newest last hlast).2
    · exact fun q hq ↦ (h.threads q hq).mono (le_max_left _ _) le_rfl
  exact hnext.goto hsound

/-- A report is written down and returned. -/
theorem Inv.publish_fresh (h : Inv s) {report : Report} {stuck : Option Int}
    (hp : s.PhaseOk (.leaving floor output (.fresh report)))
    (hnewer : ∀ last ∈ s.lastStatus, last.number < report.number) :
    Inv (s.publish i floor output stuck (.fresh report)) := by
  obtain ⟨houtput, hfloor, hnumber⟩ := hp
  have hnext : Inv { s with
      lastStatus := some { report with value := report.value.set "stale" (.bool false) } } := by
    refine ⟨?_, nofun, h.floor, fun q hq ↦ (h.threads q hq).mono le_rfl le_rfl⟩
    rintro last ⟨⟩
    refine ⟨?_, hnumber⟩
    cases hlast : s.lastStatus with
    | none =>
      show s.floor ≤ report.number + 1
      rw [(h.nothing hlast).1]
      exact Nat.zero_le _
    | some last =>
      have hle := (h.newest last hlast).1
      have hlt := hnewer last hlast
      show s.floor ≤ report.number + 1
      omega
  apply hnext.answer
  · rintro r ⟨⟩
    exact ⟨_, rfl, rfl⟩
  · refine ⟨houtput, hfloor, fun key hstale _ ↦ ?_⟩
    exact Value.get_set_of_ne hstale _ _

/-- What was written down last is returned. -/
theorem Inv.publish_refused (h : Inv s) {stuck : Option Int} (hfloor : floor ≤ s.floor)
    (hthere : ∀ last ∈ s.lastStatus, s.output = some last.object) :
    Inv (s.publish i floor output stuck .refused) := by
  apply h.answer
  · exact fun r hr ↦ ⟨r, hr, rfl⟩
  · cases hlast : s.lastStatus with
    | none =>
      intro object _
      show object ∉ s.known
      rw [(h.nothing hlast).2]
      exact List.not_mem_nil
    | some last =>
      refine ⟨hthere last hlast, le_trans hfloor (h.newest last hlast).1, fun key hstale hbusy ↦ ?_⟩
      cases stuck with
      | none => exact Value.get_set_of_ne hstale _ _
      | some millis => exact (Value.get_set_of_ne hbusy _ _).trans (Value.get_set_of_ne hstale _ _)

/-- Every step that meets the condition keeps the invariant. -/
theorem Inv.step (h : Inv s) {a : Action} (hguard : inOrder s a) (ht : s.step a = some t) : Inv t := by
  cases a with
  | enter request =>
    cases ht
    refine ⟨h.newest, h.nothing, h.floor, fun q hq ↦ ?_⟩
    obtain hq | hq := List.mem_append.mp hq
    · exact (h.threads q hq).mono le_rfl le_rfl
    · obtain rfl := List.mem_singleton.mp hq
      cases request with
      | status => exact le_refl s.floor
      | _ => trivial
  | acquire i =>
    rw [State.step] at ht
    split at ht
    · next visit hi =>
      split at ht
      · cases ht
      · cases ht
        apply h.goto
        have hok := h.threads _ (List.mem_of_getElem? hi)
        cases visit <;> exact hok
    · cases ht
  | giveUp i =>
    rw [State.step] at ht
    split at ht
    · next floor hi =>
      cases ht
      apply h.goto
      exact (h.threads _ (List.mem_of_getElem? hi) : s.PhaseOk (.waiting (.status floor)))
    · cases ht
      apply h.goto
      trivial
    · cases ht
  | put i present =>
    rw [State.step] at ht
    split at ht
    · cases ht
      cases present <;>
        exact ⟨h.newest, h.nothing, h.floor, fun q hq ↦ (h.threads q hq).mono le_rfl le_rfl⟩
    · cases ht
  | finish i figures =>
    rw [State.step] at ht
    split at ht
    · next floor hi =>
      cases ht
      exact h.ask (h.threads _ (List.mem_of_getElem? hi) : floor ≤ s.floor) figures
    · cases ht
      apply h.goto
      trivial
    · cases ht
  | publish i stuck =>
    rw [State.step] at ht
    split at ht
    · next floor output outcome hi =>
      cases ht
      have hok : s.PhaseOk (.leaving floor output outcome) := h.threads _ (List.mem_of_getElem? hi)
      rw [inOrder, hi] at hguard
      cases outcome with
      | fresh report =>
        apply h.publish_fresh hok
        exact fun last hlast ↦ of_decide_eq_true ((Option.all_eq_true _ _).mp hguard last hlast)
      | refused =>
        apply h.publish_refused hok
        exact fun last hlast ↦ of_decide_eq_true ((Option.all_eq_true _ _).mp hguard last hlast)
      | empty =>
        apply h.answer
        · exact nofun
        · intro object ho
          cases (show output = none from hok).symm.trans ho
    · cases ht

end State

/-- Where reports are written down in order and read while their object is in the slot, every
status is sound. -/
theorem sound_of_inOrder {s : State}
    (h : machine.ReachableUnder (fun s a ↦ inOrder s a) s) : s.Sound := by
  have hinv : s.Inv := by
    refine h.invariant ?_ ?_
    · rintro s (rfl | rfl)
      · exact ⟨nofun, fun _ ↦ ⟨rfl, rfl⟩, le_rfl, fun q hq ↦ absurd hq List.not_mem_nil⟩
      · exact ⟨nofun, fun _ ↦ ⟨rfl, rfl⟩, le_rfl, fun q hq ↦ absurd hq List.not_mem_nil⟩
    · exact fun s a t hguard hs ht ↦ hs.step hguard ht
  exact fun a ha ↦ hinv.threads _ ha

/-- Whether a thread has an answer with figures. -/
def Phase.figures : Phase → Bool
  | .returned answered => answered.report.isSome
  | _ => false

/-- Two reports, the second from what the first wrote down while a call has the gate. -/
theorem sound_twice : ∃ s, machine.runUnder (fun s a ↦ inOrder s a)
    ({ output := some 0, objects := 1 } : State)
    [.enter .status, .acquire 0, .finish 0 (.object []), .publish 0 none, .enter .call, .acquire 1,
      .enter .status, .giveUp 2, .publish 2 (some 1200)] = some s ∧
    (s.threads.filter Phase.figures).length = 2 ∧ s.Sound := by
  have hsound (actions : List Action)
      (h : (machine.runUnder (fun s a ↦ inOrder s a) ({ output := some 0, objects := 1 } : State)
        actions).any (fun s ↦ (s.threads.filter Phase.figures).length = 2) = true) :
      ∃ s, machine.runUnder (fun s a ↦ inOrder s a) ({ output := some 0, objects := 1 } : State)
        actions = some s ∧ (s.threads.filter Phase.figures).length = 2 ∧ s.Sound := by
    obtain ⟨s, hs, htwo⟩ := (Option.any_eq_true _ _).mp h
    have hinit : machine.ReachableUnder (fun s a ↦ inOrder s a)
        ({ output := some 0, objects := 1 } : State) := .init (.inr rfl)
    exact ⟨s, hs, of_decide_eq_true htwo, sound_of_inOrder (hinit.runUnder actions hs)⟩
  exact hsound _ (by decide +kernel)

/-- Whether an answer is of an older report than one returned before its call began. -/
def Phase.goesBack : Phase → Bool
  | .returned answered => answered.report.any (·.number + 1 < answered.floor)
  | _ => false

/-- The first report is written down after the second, and a call that cannot have the gate returns
it again. -/
theorem not_sound : ¬ ∀ s, machine.Reachable s → s.Sound := by
  intro hall
  let actions : List Action := [.enter .status, .acquire 0, .finish 0 (.object []), .enter .status,
    .acquire 1, .finish 1 (.object []), .publish 1 none, .publish 0 none, .enter .status, .giveUp 2,
    .publish 2 none]
  have hrun : (machine.run ({ output := some 0, objects := 1 } : State) actions).any
      (fun s ↦ s.threads.any Phase.goesBack) = true := by decide +kernel
  obtain ⟨s, hs, hany⟩ := (Option.any_eq_true _ _).mp hrun
  obtain ⟨p, hp, hback⟩ := List.any_eq_true.mp hany
  have hinit : machine.Reachable ({ output := some 0, objects := 1 } : State) := .init (.inr rfl)
  cases p with
  | returned answered =>
    have hsound := hall s (hinit.run actions hs) answered hp
    rw [Phase.goesBack] at hback
    obtain ⟨report, hreport, hlt⟩ := (Option.any_eq_true _ _).mp hback
    rw [Answered.Sound, hreport] at hsound
    exact absurd hsound.2.1 (not_le_of_gt (of_decide_eq_true hlt))
  | _ => cases hback

end WebLinked.Engine.SlotStatus
