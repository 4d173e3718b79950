import WebLinked.Base.Machine

/-!
# Parking the clock for a raster swap

`src/engine/engine.cpp:178–218,388–432,1233–1397`. A format change asks the clock thread to
stand still, swaps what a tick reads, and lets it go; a shutdown clears `running_` at any
moment. A section that holds `pauseMutex_` is one step up to the wait inside it, and a wait
may end, or be left waiting, whenever its condition allows.
-/

namespace WebLinked.Engine.ClockPause

open WebLinked.Base

/-- Where the clock thread is in `clockLoop`. `leaving` has been woken from the pause wait
by the shutdown and has only the `break` before it. -/
inductive Clock where
  | starting | loopTop | waiting | woken | pauseCheck | parked | afterPause | ticking
  | leaving | left
  deriving DecidableEq, Repr

/-- Where a `setFormat` or a `halt` has got to. -/
inductive Call where
  | queued | checking | stopping | pausing | swapping | unparked | reopening
  | waking | closing (joins : Bool) | closed (joins held : Bool) | joining
  | done
  deriving DecidableEq, Repr

/-- What the threads share, the clock thread, and every call made; `holder` is the call
that has the control queue. -/
structure State where
  running : Bool := true
  pauseRequested : Bool := false
  paused : Bool := false
  clock : Clock := .starting
  holder : Option Nat := none
  calls : List Call := []
  deriving DecidableEq, Repr

/-- The clock thread's next step, a new call, or the next step of one. `same` says the
engine has the requested format already, `choice` that a wait gives up or that the clock is
found stuck. -/
inductive Action where
  | clock
  | setFormat (same : Bool)
  | halt
  | proceed (call : Nat) (choice : Bool)
  deriving DecidableEq, Repr

namespace State

/-- `clockLoop`; `src/engine/engine.cpp:408–432`. -/
def clockLoop (s : State) : Option State :=
  match s.clock with
  | .starting => some { s with clock := .loopTop }
  | .loopTop => some { s with clock := if s.running then .waiting else .left }
  | .waiting => some { s with clock := .woken }
  | .woken => some { s with clock := if s.running then .pauseCheck else .left }
  | .pauseCheck =>
    if !s.pauseRequested then some { s with clock := .afterPause }
    else if s.running then some { s with paused := true, clock := .parked }
    else some { s with paused := false, clock := .leaving }
  | .parked =>
    if s.pauseRequested && s.running then none
    else some { s with paused := false, clock := if s.running then .afterPause else .leaving }
  | .afterPause => some { s with clock := if s.running then .ticking else .left }
  | .ticking => some { s with clock := .loopTop }
  | .leaving => some { s with clock := .left }
  | .left => none

/-- The call at `i` moves on. -/
def goto (s : State) (i : Nat) (c : Call) : State := { s with calls := s.calls.set i c }

/-- The condition of `pauseClock`'s wait; `src/engine/engine.cpp:395`. -/
def pauseAnswered (s : State) : Bool := s.paused || !s.running

/-- The next step of a `setFormat` or a `halt`; none if it has returned or must wait on.
`src/engine/engine.cpp:178–250,388–406,1243–1397`. -/
def proceed (s : State) (i : Nat) (choice : Bool) : Option State := do
  match ← s.calls[i]? with
  | .queued =>
    if choice then some (s.goto i .done)
    else if s.holder = none then some ({ s with holder := some i }.goto i .checking) else none
  | .checking =>
    if choice && s.running then some ({ s with holder := none }.goto i .done)
    else some (s.goto i .stopping)
  | .stopping =>
    some ({ s with pauseRequested := true }.goto i
      (if s.pauseAnswered then .swapping else .pausing))
  | .pausing =>
    if s.pauseAnswered then some (s.goto i .swapping)
    else if choice then some (s.goto i .unparked) else none
  | .swapping | .unparked => some ({ s with pauseRequested := false }.goto i .reopening)
  | .reopening => some ({ s with holder := none }.goto i .done)
  | .waking =>
    if choice || s.clock = .left then some (s.goto i (.closing true)) else none
  | .closing joins =>
    if choice then some (s.goto i (.closed joins false))
    else if s.holder = none then some ({ s with holder := some i }.goto i (.closed joins true))
    else none
  | .closed joins held =>
    some ({ s with holder := if held then none else s.holder }.goto i
      (if joins then .joining else .done))
  | .joining => if s.clock = .left then some (s.goto i .done) else none
  | .done => none

/-- One step of the engine's threads. -/
def step (s : State) : Action → Option State
  | .clock => s.clockLoop
  | .setFormat same => some { s with calls := s.calls ++ [if same then .done else .queued] }
  | .halt =>
    some { s with
      running := false
      calls := s.calls ++ [if s.running then .waking else .closing false] }
  | .proceed call choice => s.proceed call choice

end State

/-- An engine that has just started, under any number of format changes and shutdowns. -/
def machine : Machine State Action where
  init s := s = {}
  step := State.step

/-- The clock thread has left its loop. -/
def Clock.out : Clock → Bool
  | .leaving | .left => true
  | _ => false

/-- The clock thread is parked or has left its loop. -/
def Clock.quiet (c : Clock) : Bool := c = .parked || c.out

/-- The swap runs only while the clock is quiet. -/
def SwapQuiet (s : State) : Prop := ∀ c ∈ s.calls, c = .swapping → s.clock.quiet

/-- The step is no `pauseClock` that finds `running_` clear with the clock thread neither
parked nor out of its loop. -/
def awaitsClock (s : State) : Action → Bool
  | .proceed call _ =>
    match s.calls[call]? with
    | some .stopping | some .pausing => s.running || s.paused || s.clock.out
    | _ => true
  | _ => true

/-! ### The control queue and the pause -/

namespace Call

/-- The call has the control queue. -/
private def holds : Call → Bool
  | .checking | .stopping | .pausing | .swapping | .unparked | .reopening => true
  | .closed _ held => held
  | _ => false

/-- `pauseRequested_` is set on this call's behalf. -/
private def requests : Call → Bool
  | .pausing | .swapping | .unparked => true
  | _ => false

private theorem holds_of_requests {c : Call} (h : c.requests) : c.holds := by
  cases c <;> first | rfl | cases h

end Call

private structure Inv (s : State) : Prop where
  paused : s.paused = true ↔ s.clock = .parked
  holder : ∀ i c, s.calls[i]? = some c → c.holds → s.holder = some i
  requested : ∀ c ∈ s.calls, c.requests → s.pauseRequested
  quiet : SwapQuiet s

section Step

variable {s t : State} {i : Nat} {c c' : Call}

/-- A clock that is not quiet sees no swap begin, and one that is stays so until `resumeClock`. -/
private theorem Inv.clockLoop (inv : Inv s) (h : s.clockLoop = some t) : Inv t := by
  have hswap (hnq : s.clock.quiet = false) (clock : Clock) (paused : Bool) :
      SwapQuiet { s with clock, paused } := by
    intro c hc heq
    have := inv.quiet c hc heq
    rw [hnq] at this
    cases this
  unfold State.clockLoop at h
  cases hclock : s.clock <;> simp only [hclock] at h
  case left => cases h
  case leaving =>
    cases h
    have hp := inv.paused
    rw [hclock] at hp
    exact ⟨by simpa using hp, inv.holder, inv.requested, fun c _ _ ↦ rfl⟩
  case parked =>
    split at h
    · cases h
    · next hwake =>
      cases h
      refine ⟨by split <;> simp, inv.holder, inv.requested, fun c hc heq ↦ ?_⟩
      have hreq := inv.requested c hc (by rw [heq]; rfl)
      have hrun : s.running = false := by simpa [hreq] using hwake
      simp [hrun, Clock.quiet, Clock.out]
  case pauseCheck =>
    have hnq : s.clock.quiet = false := by rw [hclock]; rfl
    split at h
    · cases h
      exact ⟨by simpa [hclock] using inv.paused, inv.holder, inv.requested, hswap hnq _ _⟩
    · split at h <;> cases h <;>
        exact ⟨by simp, inv.holder, inv.requested, hswap hnq _ _⟩
  all_goals
    have hnq : s.clock.quiet = false := by rw [hclock]; rfl
    cases h
    refine ⟨?_, inv.holder, inv.requested, hswap hnq _ _⟩
    have hp : s.paused = false := by simpa [hclock] using inv.paused
    simp [hp]
    try split <;> simp

/-- One call moves on and leaves the clock thread alone. -/
private theorem Inv.goto (inv : Inv s) (hc : s.calls[i]? = some c) {holder : Option Nat}
    {request : Bool}
    (hholder : holder = s.holder ∨ s.holder = none ∨ c.holds) (holds : c'.holds → holder = some i)
    (hrequest : request = s.pauseRequested ∨ request = true ∨ c.holds)
    (requested : c'.requests → request) (swap : c' = .swapping → s.clock.quiet) :
    Inv ({ s with holder, pauseRequested := request }.goto i c') := by
  have hlt := (List.getElem?_eq_some_iff.mp hc).1
  -- A second call that has the queue would be this one.
  have alone : c.holds → ∀ j d, s.calls[j]? = some d → d.holds → j = i := by
    intro hci j d hd hdh
    have hi := inv.holder i c hc hci
    have hj := inv.holder j d hd hdh
    rw [hi] at hj
    exact (Option.some.inj hj).symm
  refine ⟨inv.paused, ?_, ?_, ?_⟩
  · intro j d hd hdh
    change (s.calls.set i c')[j]? = some d at hd
    by_cases hij : i = j
    · subst hij
      rw [List.getElem?_set_self hlt] at hd
      cases hd
      exact holds hdh
    · rw [List.getElem?_set_ne hij] at hd
      have hold := inv.holder j d hd hdh
      rcases hholder with h | h | h
      · exact h.trans hold
      · rw [h] at hold
        cases hold
      · exact absurd (alone h j d hd hdh).symm hij
  · intro d hd hdr
    obtain ⟨j, hj⟩ := List.mem_iff_getElem?.mp hd
    change (s.calls.set i c')[j]? = some d at hj
    by_cases hij : i = j
    · subst hij
      rw [List.getElem?_set_self hlt] at hj
      cases hj
      exact requested hdr
    · rw [List.getElem?_set_ne hij] at hj
      rcases hrequest with h | h | h
      · exact h.trans (inv.requested d (List.mem_of_getElem? hj) hdr)
      · exact h
      · exact absurd (alone h j d hj (Call.holds_of_requests hdr)).symm hij
  · intro d hd heq
    rcases List.mem_or_eq_of_mem_set hd with hd | rfl
    · exact inv.quiet d hd heq
    · exact swap heq

/-- A call that has only just been made. -/
private theorem Inv.newCall (inv : Inv s) (running : Bool) (hh : c.holds = false) :
    Inv { s with running, calls := s.calls ++ [c] } := by
  have hr : c.requests = false := by
    cases h : c.requests with
    | false => rfl
    | true => rw [Call.holds_of_requests h] at hh; cases hh
  refine ⟨inv.paused, fun j d hd hdh ↦ ?_, fun d hd hdr ↦ ?_, fun d hd heq ↦ ?_⟩
  · rw [List.getElem?_append] at hd
    split at hd
    · exact inv.holder j d hd hdh
    · rw [List.mem_singleton.mp (List.mem_of_getElem? hd)] at hdh
      rw [hh] at hdh
      cases hdh
  · rcases List.mem_append.mp hd with hd | hd
    · exact inv.requested d hd hdr
    · rw [List.mem_singleton.mp hd, hr] at hdr
      cases hdr
  · rcases List.mem_append.mp hd with hd | hd
    · exact inv.quiet d hd heq
    · rw [List.mem_singleton.mp hd] at heq
      rw [heq] at hh
      cases hh

/-- What the guard adds: an answered pause means a quiet clock. -/
private theorem Inv.quiet_of_answered (inv : Inv s) (ha : s.pauseAnswered)
    (hg : s.running || s.paused || s.clock.out) : s.clock.quiet := by
  unfold State.pauseAnswered at ha
  cases hp : s.paused with
  | true => simp [inv.paused.mp hp, Clock.quiet]
  | false =>
    have hr : s.running = false := by simpa [hp] using ha
    have hout : s.clock.out := by simpa [hp, hr] using hg
    simp [Clock.quiet, hout]

private theorem Inv.proceed (inv : Inv s) {choice : Bool}
    (hg : awaitsClock s (.proceed i choice)) (h : s.proceed i choice = some t) : Inv t := by
  obtain ⟨c, hc, h⟩ := Option.bind_eq_some_iff.mp h
  have hheld := inv.holder i c hc
  cases c with
  | done => cases h
  | queued =>
    dsimp only at h
    split at h
    · cases h
      apply inv.goto hc <;> simp [Call.holds, Call.requests]
    · split at h
      · next hfree =>
        cases h
        apply inv.goto hc <;> simp [Call.holds, Call.requests, hfree]
      · cases h
  | checking =>
    dsimp only at h
    have := hheld rfl
    split at h <;> cases h <;> apply inv.goto hc <;> simp [Call.holds, Call.requests, this]
  | stopping =>
    cases h
    have hq : s.pauseAnswered → s.clock.quiet := fun ha ↦
      inv.quiet_of_answered ha (by simpa [awaitsClock, hc] using hg)
    apply inv.goto hc
    · exact Or.inl rfl
    · exact fun _ ↦ hheld rfl
    · exact Or.inr (Or.inl rfl)
    · exact fun _ ↦ rfl
    · intro hswap
      split at hswap
      · next ha => exact hq ha
      · cases hswap
  | pausing =>
    dsimp only at h
    have := hheld rfl
    have hreq := inv.requested _ (List.mem_of_getElem? hc) rfl
    split at h
    · next ha =>
      cases h
      have hq := inv.quiet_of_answered ha (by simpa [awaitsClock, hc] using hg)
      apply inv.goto hc <;> simp [Call.holds, this, hreq, hq]
    · split at h <;> cases h
      apply inv.goto hc <;> simp [Call.holds, this, hreq]
  | swapping | unparked =>
    cases h
    have := hheld rfl
    apply inv.goto hc <;> simp [Call.holds, Call.requests, this]
  | reopening =>
    cases h
    apply inv.goto hc <;> simp [Call.holds, Call.requests]
  | waking =>
    dsimp only at h
    split at h <;> cases h
    apply inv.goto hc <;> simp [Call.holds, Call.requests]
  | closing joins =>
    dsimp only at h
    split at h
    · cases h
      apply inv.goto hc <;> simp [Call.holds, Call.requests]
    · split at h
      · next hfree =>
        cases h
        apply inv.goto hc <;> simp [Call.holds, Call.requests, hfree]
      · cases h
  | closed joins had =>
    cases h
    cases had <;> cases joins <;> apply inv.goto hc <;> simp [Call.holds, Call.requests]
  | joining =>
    dsimp only at h
    split at h <;> cases h
    apply inv.goto hc <;> simp [Call.holds, Call.requests]

private theorem Inv.step (inv : Inv s) {a : Action} (hg : awaitsClock s a)
    (h : s.step a = some t) : Inv t := by
  cases a with
  | clock => exact inv.clockLoop h
  | setFormat same => cases h; exact inv.newCall _ (by cases same <;> rfl)
  | halt => cases h; exact inv.newCall _ (by split <;> rfl)
  | proceed call choice => exact inv.proceed hg h

end Step

private theorem inv_of_guarded {s : State}
    (h : machine.ReachableUnder (fun s a ↦ awaitsClock s a) s) : Inv s := by
  refine h.invariant (fun s hs ↦ ?_) fun _ _ _ hg inv ht ↦ inv.step hg ht
  cases hs
  constructor <;> simp [SwapQuiet]

/-- The pause is answered although the clock thread may be anywhere in its loop. -/
private theorem swapping_of_not_awaitsClock {s t : State} {a : Action} (inv : Inv s)
    (hg : ¬ awaitsClock s a) (h : s.step a = some t) :
    s.clock.quiet = false ∧ t.clock = s.clock ∧ .swapping ∈ t.calls := by
  cases a with
  | proceed i choice =>
    obtain ⟨c, hc, h⟩ := Option.bind_eq_some_iff.mp h
    have hlt := (List.getElem?_eq_some_iff.mp hc).1
    have hfree (hn : ¬ (s.running || s.paused || s.clock.out)) :
        s.clock.quiet = false ∧ s.pauseAnswered := by
      simp only [Bool.or_eq_true, not_or, Bool.not_eq_true] at hn
      obtain ⟨⟨hr, hp⟩, hout⟩ := hn
      have hnp : s.clock ≠ .parked := fun heq ↦ by rw [inv.paused.mpr heq] at hp; cases hp
      exact ⟨by simp [Clock.quiet, hnp, hout], by simp [State.pauseAnswered, hr]⟩
    cases c with
    | stopping =>
      obtain ⟨hq, ha⟩ := hfree (by simpa [awaitsClock, hc] using hg)
      cases h
      rw [if_pos ha]
      exact ⟨hq, rfl, List.mem_set hlt _⟩
    | pausing =>
      obtain ⟨hq, ha⟩ := hfree (by simpa [awaitsClock, hc] using hg)
      dsimp only at h
      rw [if_pos ha] at h
      cases h
      exact ⟨hq, rfl, List.mem_set hlt _⟩
    | _ => simp [awaitsClock, hc] at hg
  | _ => exact absurd rfl hg

/-- An engine's run keeps every swap to a parked or departed clock throughout if and only
if no `pauseClock` is answered by a cleared `running_` alone while the clock thread is still
in its loop. -/
theorem swapQuiet_iff_awaitsClock {t : State} (actions : List Action)
    (h : machine.run {} actions = some t) :
    machine.Always SwapQuiet {} actions ↔
      machine.runUnder (fun s a ↦ awaitsClock s a) {} actions = some t := by
  apply (Machine.ReachableUnder.init rfl).always_iff_runUnder ?_ ?_ actions h
  · exact fun s hs ↦ (inv_of_guarded hs).quiet
  · intro s a u hs hg hu hquiet
    obtain ⟨hnq, hclock, hmem⟩ := swapping_of_not_awaitsClock (inv_of_guarded hs) hg hu
    have := hquiet _ hmem rfl
    rw [hclock, hnq] at this
    cases this

/-- A format change parks the clock, and a shutdown comes while it is parked. -/
private def swapThenHalt : List Action :=
  [.clock, .clock, .clock, .setFormat false, .proceed 0 false, .proceed 0 false,
    .proceed 0 false, .clock, .clock, .proceed 0 false, .halt, .clock, .clock]

/-- A shutdown in the middle of a swap only lets the parked clock leave. -/
theorem swapQuiet_swapThenHalt : machine.Always SwapQuiet {} swapThenHalt :=
  (swapQuiet_iff_awaitsClock
    (t := { running := false, pauseRequested := true, clock := .left, holder := some 0,
            calls := [.swapping, .waking] }) swapThenHalt (by decide)).mpr (by decide)

/-- The clock is in a tick when the shutdown clears `running_`. -/
private def haltThenSwap : List Action :=
  [.clock, .clock, .clock, .clock, .clock, .clock, .halt, .setFormat false, .proceed 1 false,
    .proceed 1 false, .proceed 1 false]

/-- A shutdown in the middle of a tick lets a format change swap under it. -/
theorem not_swapQuiet : ¬ ∀ s : State, machine.Reachable s → SwapQuiet s := by
  intro h
  have hr : machine.Reachable
      { running := false, pauseRequested := true, clock := .ticking, holder := some 1,
        calls := [.waking, .swapping] } :=
    Machine.Reachable.run (.init rfl) haltThenSwap (by decide)
  have := h _ hr .swapping (by decide) rfl
  cases this

end WebLinked.Engine.ClockPause
