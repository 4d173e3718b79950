import WebLinked.Control.Connections

/-!
# What `stop` leaves of the HTTP server

`src/control/http_server.cpp:363–397`: what the threads still do once `stop` has begun, and why
its join ends.
-/

namespace WebLinked.Control.Connections

open WebLinked.Base

variable {s t : State} {i : ℕ} {c : Connection}

/-! ## After `stop` -/

/-- How many requests of a connection may still reach the handler, once the server is not
running. -/
def Connection.mayCall (c : Connection) : ℕ :=
  match c.phase with
  | .reading _ => 1
  | _ => 0

/-- The same of the connection with a number, if there is one. -/
def State.mayCall (s : State) (i : ℕ) : ℕ := (s.threads[i]?).elim 0 Connection.mayCall

/-- Nothing of the server goes on, and nothing is left of it. -/
structure Quiet (s : State) : Prop where
  running : s.running = false
  acceptor : s.acceptor = .off
  listener : s.listener = none
  connections : s.connections = ∅
  threads : ∀ c ∈ s.threads, c.phase = .done

/-- Starts the server. -/
def Action.starts : Action → Bool
  | .start _ => true
  | _ => false

/-- A step of the accept thread. -/
def Action.isAcceptors : Action → Bool
  | .accept _ | .acceptFails | .acceptor => true
  | _ => false

/-- What a step other than `start` leaves down, and who moves the accept thread. -/
private structure Down (s : State) (a : Action) (t : State) : Prop where
  running : s.running = false → t.running = false
  listener : s.listener = none → t.listener = none
  shut : s.shut = true → t.shut = true
  acceptor : a.isAcceptors = false → t.acceptor = s.acceptor

/-- To call `accept` changes only where the accept thread stands. -/
theorem exists_call (s : State) (number : Option ℕ) :
    ∃ acceptor, s.call number = { s with acceptor } := by
  cases number with
  | none => exact ⟨_, rfl⟩
  | some n =>
    rw [State.call]
    split
    · exact ⟨_, rfl⟩
    · split <;> exact ⟨_, rfl⟩

private theorem down_acceptorNext (ht : s.acceptorNext = some t) : Down s .acceptor t := by
  cases acceptorNext_cases ht with
  | @call number hacceptor =>
    obtain ⟨acceptor, heq⟩ := exists_call s number
    rw [heq]
    exact ⟨id, id, id, nofun⟩
  | _ => exact ⟨id, id, id, nofun⟩

private theorem down_stopNext {timedOut : Bool} (ht : s.stopNext timedOut = some t) :
    Down s (.stop timedOut) t := by
  rw [State.stopNext] at ht
  split at ht
  · split at ht <;> cases ht
    · exact ⟨fun _ ↦ rfl, id, id, fun _ ↦ rfl⟩
    · exact ⟨id, id, id, fun _ ↦ rfl⟩
  · cases ht
    exact ⟨id, id, fun _ ↦ rfl, fun _ ↦ rfl⟩
  · cases ht
    exact ⟨id, fun _ ↦ rfl, id, fun _ ↦ rfl⟩
  · cases ht
    exact ⟨id, id, id, fun _ ↦ rfl⟩
  · obtain ⟨-, heq⟩ := Option.ite_none_right_eq_some.mp ht
    cases heq
    exact ⟨id, id, id, fun _ ↦ rfl⟩
  · cases ht
    exact ⟨id, id, id, fun _ ↦ rfl⟩
  · obtain ⟨-, heq⟩ := Option.ite_none_right_eq_some.mp ht
    cases heq
    exact ⟨id, id, id, fun _ ↦ rfl⟩

private theorem down_step (a : Action) (ha : a.starts = false) (ht : s.step a = some t) :
    Down s a t := by
  cases a with
  | openOther fd =>
    obtain ⟨-, heq⟩ := Option.ite_none_right_eq_some.mp ht
    cases heq
    exact ⟨id, id, id, fun _ ↦ rfl⟩
  | listenOther fd =>
    obtain ⟨-, heq⟩ := Option.ite_none_right_eq_some.mp ht
    cases heq
    exact ⟨id, id, id, fun _ ↦ rfl⟩
  | closeOther fd =>
    obtain ⟨-, heq⟩ := Option.ite_none_right_eq_some.mp ht
    cases heq
    exact ⟨id, id, id, fun _ ↦ rfl⟩
  | start fd => cases ha
  | accept fd =>
    obtain ⟨-, -, rfl⟩ := accept_cases ht
    exact ⟨id, id, id, nofun⟩
  | acceptFails =>
    obtain ⟨-, rfl⟩ := acceptFails_cases ht
    exact ⟨id, id, id, nofun⟩
  | acceptor => exact down_acceptorNext ht
  | thread i event =>
    obtain ⟨c, -, ht⟩ := Option.bind_eq_some_iff.mp ht
    split at ht <;> cases ht <;> exact ⟨id, id, id, fun _ ↦ rfl⟩
  | stop timedOut => exact down_stopNext ht

/-- One more call of the handler. -/
def Event.calls : Event → ℕ
  | .call => 1
  | _ => 0

/-- A thread goes on, while the server is not running: only a request that was being read is
handed to the handler, and no other one is read. -/
private theorem threadNext_cases {event : Event} (hrunning : s.running = false)
    (ht : s.threadNext i event = some t) :
    t.running = false ∧ t.calls = s.calls + event.calls ∧ ∃ c phase, s.threads[i]? = some c ∧
      t.threads = s.threads.set i { c with phase } ∧
      ({ c with phase } : Connection).mayCall + event.calls ≤ c.mayCall := by
  obtain ⟨c, hc, ht⟩ := Option.bind_eq_some_iff.mp ht
  split at ht
  · cases ht
    refine ⟨hrunning, rfl, c, .ending, hc, ?_, Nat.zero_le _⟩
    rw [if_neg (fun hgo ↦ by rw [hrunning] at hgo; cases hgo.1)]
    rfl
  · cases ht
    exact ⟨hrunning, rfl, c, .ending, hc, rfl, Nat.zero_le _⟩
  · cases ht
    refine ⟨hrunning, rfl, c, _, hc, rfl, ?_⟩
    split <;> exact Nat.zero_le _
  · cases ht
    refine ⟨hrunning, rfl, c, _, hc, rfl, ?_⟩
    split <;> exact Nat.zero_le _
  · next hphase _ =>
    -- the call takes the place of the request that was let in
    cases ht
    refine ⟨hrunning, rfl, c, _, hc, rfl, ?_⟩
    rw [Connection.mayCall, Connection.mayCall, hphase]
    exact Nat.le_refl 1
  · cases ht
    exact ⟨hrunning, rfl, c, _, hc, rfl, Nat.zero_le _⟩
  · cases ht
    exact ⟨hrunning, rfl, c, _, hc, rfl, Nat.zero_le _⟩
  · cases ht
    exact ⟨hrunning, rfl, c, _, hc, rfl, Nat.zero_le _⟩
  · cases ht

/-- What a step leaves to the handler of the server that is not running. -/
private structure Stopped (s : State) (a : Action) (t : State) : Prop where
  running : t.running = false
  calls : t.calls + Pool.total Connection.mayCall t.threads ≤
    s.calls + Pool.total Connection.mayCall s.threads
  each : ∀ i, (if a = .thread i .call then 1 else 0) + t.mayCall i ≤ s.mayCall i

/-- A step that is no thread's: the same connections, or one more that has read nothing. -/
private theorem Stopped.same {a : Action} (ha : ∀ i, a ≠ .thread i .call)
    (hrunning : t.running = false) (hcalls : t.calls = s.calls)
    (hthreads : t.threads = s.threads ∨ ∃ fd : ℕ, t.threads = s.threads ++ [{ fd := fd }]) :
    Stopped s a t where
  running := hrunning
  calls := by
    rcases hthreads with h | ⟨fd, h⟩
    · rw [hcalls, h]
    · rw [hcalls, h, Pool.total_append_singleton]
      exact Nat.le_refl _
  each := by
    intro i
    rw [if_neg (ha i), Nat.zero_add, State.mayCall, State.mayCall]
    rcases hthreads with h | ⟨fd, h⟩
    · rw [h]
    · rw [h, List.getElem?_append]
      split
      · exact Nat.le_refl _
      · next hi =>
        rw [List.getElem?_singleton]
        split <;> exact Nat.zero_le _

private theorem Stopped.thread {event : Event} (hrunning : s.running = false)
    (ht : s.threadNext i event = some t) : Stopped s (.thread i event) t := by
  obtain ⟨hnext, hcalls, c, phase, hc, hthreads, hle⟩ := threadNext_cases hrunning ht
  refine ⟨hnext, ?_, ?_⟩
  · have htotal := Pool.total_set Connection.mayCall { c with phase } hc
    rw [hthreads, hcalls]
    omega
  · intro j
    rw [State.mayCall, State.mayCall, hthreads]
    by_cases hj : i = j
    · subst hj
      have hlt : i < s.threads.length := (List.getElem?_eq_some_iff.mp hc).1
      have hevent : (if Action.thread i event = .thread i .call then 1 else 0) = event.calls := by
        cases event <;> simp [Event.calls]
      rw [List.getElem?_set_self hlt, hc, hevent, Nat.add_comm]
      exact hle
    · rw [List.getElem?_set_ne hj, if_neg, Nat.zero_add]
      intro heq
      cases heq
      exact hj rfl

/-- A step of the accept thread calls no handler, and starts a thread at most. -/
private theorem threads_acceptorNext (ht : s.acceptorNext = some t) :
    t.calls = s.calls ∧
      (t.threads = s.threads ∨ ∃ fd : ℕ, t.threads = s.threads ++ [{ fd := fd }]) := by
  cases acceptorNext_cases ht with
  | @call number hacceptor =>
    obtain ⟨acceptor, heq⟩ := exists_call s number
    rw [heq]
    exact ⟨rfl, .inl rfl⟩
  | @serve fd hacceptor => exact ⟨rfl, .inr ⟨fd, rfl⟩⟩
  | _ => exact ⟨rfl, .inl rfl⟩

/-- Where a step is neither a thread's nor `start`, the handler is not called and no thread goes
on. -/
private theorem threads_step (a : Action) (ha : a.starts = false)
    (hthread : ∀ i event, a ≠ .thread i event) (ht : s.step a = some t) :
    t.calls = s.calls ∧
      (t.threads = s.threads ∨ ∃ fd : ℕ, t.threads = s.threads ++ [{ fd := fd }]) := by
  cases a with
  | openOther fd =>
    obtain ⟨-, heq⟩ := Option.ite_none_right_eq_some.mp ht
    cases heq
    exact ⟨rfl, .inl rfl⟩
  | listenOther fd =>
    obtain ⟨-, heq⟩ := Option.ite_none_right_eq_some.mp ht
    cases heq
    exact ⟨rfl, .inl rfl⟩
  | closeOther fd =>
    obtain ⟨-, heq⟩ := Option.ite_none_right_eq_some.mp ht
    cases heq
    exact ⟨rfl, .inl rfl⟩
  | start fd => cases ha
  | accept fd =>
    obtain ⟨-, -, rfl⟩ := accept_cases ht
    exact ⟨rfl, .inl rfl⟩
  | acceptFails =>
    obtain ⟨-, rfl⟩ := acceptFails_cases ht
    exact ⟨rfl, .inl rfl⟩
  | acceptor => exact threads_acceptorNext ht
  | thread i event => exact absurd rfl (hthread i event)
  | stop timedOut =>
    change s.stopNext timedOut = some t at ht
    rw [State.stopNext] at ht
    split at ht
    · split at ht <;> cases ht <;> exact ⟨rfl, .inl rfl⟩
    · cases ht
      exact ⟨rfl, .inl rfl⟩
    · cases ht
      exact ⟨rfl, .inl rfl⟩
    · cases ht
      exact ⟨rfl, .inl rfl⟩
    · obtain ⟨-, heq⟩ := Option.ite_none_right_eq_some.mp ht
      cases heq
      exact ⟨rfl, .inl rfl⟩
    · cases ht
      exact ⟨rfl, .inl rfl⟩
    · obtain ⟨-, heq⟩ := Option.ite_none_right_eq_some.mp ht
      cases heq
      exact ⟨rfl, .inl rfl⟩

private theorem stopped_step (a : Action) (ha : a.starts = false) (hrunning : s.running = false)
    (ht : s.step a = some t) : Stopped s a t := by
  by_cases hthread : ∃ i event, a = .thread i event
  · obtain ⟨i, event, rfl⟩ := hthread
    exact .thread hrunning ht
  · have hnot : ∀ i event, a ≠ .thread i event := fun i event heq ↦ hthread ⟨i, event, heq⟩
    obtain ⟨hcalls, hthreads⟩ := threads_step a ha hnot ht
    exact .same (fun i ↦ hnot i .call) ((down_step a ha ht).running hrunning) hcalls hthreads

/-- A whole run, as `Stopped` has it of a step. -/
private theorem stopped_run (hrunning : s.running = false) (as : List Action)
    (hno : ∀ a ∈ as, a.starts = false) (ht : machine.run s as = some t) :
    t.running = false ∧
      t.calls + Pool.total Connection.mayCall t.threads ≤
        s.calls + Pool.total Connection.mayCall s.threads ∧
      ∀ i, as.countP (· = .thread i .call) + t.mayCall i ≤ s.mayCall i := by
  induction as generalizing s with
  | nil =>
    cases ht
    exact ⟨hrunning, Nat.le_refl _, fun i ↦ by rw [List.countP_nil, Nat.zero_add]⟩
  | cons a rest ih =>
    obtain ⟨u, hu, hrest⟩ := Option.bind_eq_some_iff.mp ht
    have hfirst := stopped_step a (hno a List.mem_cons_self) hrunning hu
    obtain ⟨hlast, hcalls, heach⟩ :=
      ih hfirst.running (fun b hb ↦ hno b (List.mem_cons_of_mem a hb)) hrest
    refine ⟨hlast, Nat.le_trans hcalls hfirst.calls, fun i ↦ ?_⟩
    have hone := hfirst.each i
    have hmore := heach i
    rw [List.countP_cons]
    simp only [decide_eq_true_eq]
    omega

/-- In quiet nothing goes on until the next `start`. -/
private theorem quiet_step (a : Action) (ha : a.starts = false) (hs : Quiet s)
    (ht : s.step a = some t) : Quiet t ∧ t.calls = s.calls := by
  cases a with
  | openOther fd =>
    obtain ⟨-, heq⟩ := Option.ite_none_right_eq_some.mp ht
    cases heq
    exact ⟨{ hs with }, rfl⟩
  | listenOther fd =>
    obtain ⟨-, heq⟩ := Option.ite_none_right_eq_some.mp ht
    cases heq
    exact ⟨{ hs with }, rfl⟩
  | closeOther fd =>
    obtain ⟨-, heq⟩ := Option.ite_none_right_eq_some.mp ht
    cases heq
    exact ⟨{ hs with }, rfl⟩
  | start fd => cases ha
  | accept fd =>
    have hwaits := (accept_cases ht).1
    simp only [hs.acceptor, reduceCtorEq, false_and, and_false, exists_false, or_false] at hwaits
  | acceptFails =>
    have hwaits := (acceptFails_cases ht).1
    simp only [hs.acceptor, reduceCtorEq, exists_false, or_false] at hwaits
  | acceptor =>
    change s.acceptorNext = some t at ht
    rw [State.acceptorNext, hs.acceptor] at ht
    cases ht
  | thread i event =>
    obtain ⟨c, hc, ht⟩ := Option.bind_eq_some_iff.mp ht
    have hdone := hs.threads c (List.mem_of_getElem? hc)
    rw [hdone] at ht
    cases ht
  | stop timedOut =>
    change s.stopNext timedOut = some t at ht
    rw [State.stopNext] at ht
    split at ht
    · rw [if_neg (by rw [hs.running]; exact Bool.false_ne_true)] at ht
      cases ht
      exact ⟨hs, rfl⟩
    · cases ht
      exact ⟨{ hs with }, rfl⟩
    · cases ht
      exact ⟨{ hs with listener := rfl }, rfl⟩
    · cases ht
      exact ⟨{ hs with }, rfl⟩
    · obtain ⟨-, heq⟩ := Option.ite_none_right_eq_some.mp ht
      cases heq
      exact ⟨{ hs with }, rfl⟩
    · cases ht
      exact ⟨{ hs with }, rfl⟩
    · obtain ⟨-, heq⟩ := Option.ite_none_right_eq_some.mp ht
      cases heq
      exact ⟨{ hs with }, rfl⟩

private theorem quiet_run (hs : Quiet s) (as : List Action) (hno : ∀ a ∈ as, a.starts = false)
    (ht : machine.run s as = some t) : Quiet t ∧ t.calls = s.calls := by
  induction as generalizing s with
  | nil =>
    cases ht
    exact ⟨hs, rfl⟩
  | cons a rest ih =>
    obtain ⟨u, hu, hrest⟩ := Option.bind_eq_some_iff.mp ht
    obtain ⟨hnext, hcalls⟩ := quiet_step a (hno a List.mem_cons_self) hs hu
    obtain ⟨hlast, hsame⟩ := ih hnext (fun b hb ↦ hno b (List.mem_cons_of_mem a hb)) hrest
    exact ⟨hlast, hsame.trans hcalls⟩

/-- Whatever is still open is not the server's. -/
private theorem Quiet.holders (hs : Quiet s) (fd : ℕ) : s.holders fd = s.others.count fd := by
  have hnobody : Pool.total (Connection.holds fd) s.threads = 0 := by
    apply Pool.total_eq_zero
    intro c hc
    apply if_neg
    rintro ⟨-, hopen⟩
    rw [hs.threads c hc] at hopen
    cases hopen
  rw [State.holders, hs.listener, hs.acceptor, hnobody, if_neg nofun, Acceptor.holds]
  omega

/-- `stop` has come to its end and found nothing active. -/
private theorem Inv.quiet (hs : Inv s) (hrunning : s.running = false) (hidle : s.stopper = .idle)
    (hzero : s.active = 0) : Quiet s := by
  have hsettled := hs.settled
  rw [Settled, hidle] at hsettled
  have hactive := hs.active
  have hdone : ∀ c ∈ s.threads, c.phase = .done := by
    intro c hc
    have hone := Pool.le_total Connection.counts hc
    by_contra hne
    rw [Connection.counts, if_neg hne] at hone
    omega
  refine ⟨hrunning, hsettled.2.mp hrunning, ?_, ?_, hdone⟩
  · rw [← Option.not_isSome_iff_eq_none, ← hsettled.1, hrunning]
    exact Bool.false_ne_true
  · apply Finset.eq_empty_of_forall_notMem
    intro fd hfd
    rcases (hs.registry fd).mp hfd with hacceptor | ⟨c, hc, -, hreg⟩
    · rw [hsettled.2.mp hrunning] at hacceptor
      cases hacceptor
    · rw [hdone c hc] at hreg
      cases hreg

/-- Once `stop` has begun, each connection reaches the handler once more at most, and only with a
request that was being read, however long the threads go on; and once `stop` has come to its end
and found nothing active, the handler is not called again, and no thread and no descriptor of
the server is left. -/
theorem calls_after_stop (h : machine.Reachable s) (hrunning : s.running = false)
    (as : List Action) (hno : ∀ a ∈ as, a.starts = false) (ht : machine.run s as = some t) :
    (∀ i, as.countP (· = .thread i .call) ≤ s.mayCall i) ∧
      t.calls ≤ s.calls + Pool.total Connection.mayCall s.threads ∧
      Pool.total Connection.mayCall s.threads ≤ s.maxConnections ∧
      (s.stopper = .idle → s.active = 0 →
        t.calls = s.calls ∧ Quiet t ∧ ∀ fd, t.holders fd = t.others.count fd) := by
  have hs := inv_reachable h
  obtain ⟨-, hcalls, heach⟩ := stopped_run hrunning as hno ht
  have hcounted : Pool.total Connection.mayCall s.threads ≤
      Pool.total Connection.counts s.threads := by
    apply Pool.total_mono
    intro c
    rw [Connection.mayCall, Connection.counts]
    cases c.phase <;> simp
  have hactive := hs.active
  have hcapped := hs.capped
  refine ⟨fun i ↦ ?_, by omega, by omega, fun hidle hzero ↦ ?_⟩
  · have hone := heach i
    omega
  · obtain ⟨hquiet, hsame⟩ := quiet_run (hs.quiet hrunning hidle hzero) as hno ht
    exact ⟨hsame, hquiet, hquiet.holders⟩

/-- The listener is shut and closed, and the accept thread wakes. -/
private def joining : List Action := [.stop false, .stop false, .stop false, .acceptor]

/-- The connection ends before the two seconds are over. -/
private def ending : List Action :=
  [.stop false, .stop false, .thread 0 (.answer true), .thread 0 .next, .thread 0 .next,
    .thread 0 .next, .thread 0 .next, .stop false]

/-- The request that was being handled when `stop` began is the last one, and a second `stop`
finds nothing. -/
theorem calls_after_stop_oneClient :
    ∃ s t u, machine.run server (oneClient ++ joining) = some s ∧ machine.run s ending = some t ∧
      machine.run t [.stop false, .openOther 5] = some u ∧ t.calls ≤ s.calls ∧
      u.calls = t.calls ∧ Quiet u ∧ ∀ fd, u.holders fd = u.others.count fd :=
  have hs := Machine.Reachable.run (.init init_server) (oneClient ++ joining) rfl
  ⟨_, _, _, rfl, rfl, rfl, (calls_after_stop hs rfl ending (by decide) rfl).2.1,
    (calls_after_stop (Machine.Reachable.run hs ending rfl) rfl [.stop false, .openOther 5]
      (by decide) rfl).2.2.2 rfl rfl⟩

/-! ## The join in `stop` -/

/-- How many steps the accept thread has left, once the listener is closed. -/
def Acceptor.left : Acceptor → ℕ
  | .off => 0
  | .top | .accepting => 1
  | .refusing _ | .registered _ => 2
  | .counted _ => 3
  | .accepted _ => 4
  | .straying _ => 5
  | .calling _ => 6
  | .loading => 7

private theorem left_acceptError (hrunning : s.running = false) :
    s.acceptError.acceptor.left = 0 := by
  rw [State.acceptError, hrunning]
  rfl

/-- By itself the accept thread comes nearer its end. -/
private theorem left_acceptorNext (hrunning : s.running = false) (hlistener : s.listener = none)
    (ht : s.acceptorNext = some t) : t.acceptor.left + 1 ≤ s.acceptor.left := by
  cases acceptorNext_cases ht with
  | top hacceptor =>
    rw [hacceptor, hrunning]
    exact Nat.le_refl 1
  | load hacceptor =>
    rw [hacceptor]
    exact Nat.le_refl 7
  | @call number hacceptor =>
    rw [hacceptor]
    cases number with
    | none =>
      show s.acceptError.acceptor.left + 1 ≤ 6
      rw [left_acceptError hrunning]
      decide
    | some n =>
      -- the listener is closed: only another part of the process can have the number
      have hclosed : ¬ (s.listener = some n ∧ ¬ s.shut = true) := by
        rw [hlistener]
        exact fun h ↦ Option.some_ne_none n h.1.symm
      rw [State.call, if_neg hclosed]
      split
      · exact Nat.le_refl 6
      · rw [left_acceptError hrunning]
        show 1 ≤ 6
        decide
  | wake hacceptor =>
    rw [hacceptor, left_acceptError hrunning]
    exact Nat.le_refl 1
  | refuse hacceptor =>
    rw [hacceptor]
    show 2 + 1 ≤ 4
    decide
  | count hacceptor =>
    rw [hacceptor]
    exact Nat.le_refl 4
  | refused hacceptor =>
    rw [hacceptor]
    exact Nat.le_refl 2
  | register hacceptor =>
    rw [hacceptor]
    exact Nat.le_refl 3
  | serve hacceptor =>
    rw [hacceptor]
    exact Nat.le_refl 2

/-- Once the listener is shut and closed, the accept thread comes nearer its end with each of its
steps. -/
private theorem left_step (a : Action) (ha : a.starts = false) (hrunning : s.running = false)
    (hlistener : s.listener = none) (hshut : s.shut = true) (ht : s.step a = some t) :
    t.acceptor.left + (if a.isAcceptors then 1 else 0) ≤ s.acceptor.left := by
  by_cases hacceptors : a.isAcceptors
  · rw [if_pos hacceptors]
    cases a with
    | accept fd =>
      obtain ⟨⟨-, hopen⟩ | ⟨n, -, hacceptor⟩, -, rfl⟩ := accept_cases ht
      · exact absurd hshut hopen
      · rw [hacceptor]
        exact Nat.le_refl 5
    | acceptFails =>
      obtain ⟨hwaits, rfl⟩ := acceptFails_cases ht
      rw [left_acceptError hrunning]
      rcases hwaits with hacceptor | ⟨n, hacceptor⟩
      · rw [hacceptor]
        exact Nat.le_refl 1
      · rw [hacceptor]
        show 1 ≤ 5
        decide
    | acceptor => exact left_acceptorNext hrunning hlistener ht
    | _ => cases hacceptors
  · rw [if_neg hacceptors, (down_step a ha ht).acceptor (Bool.eq_false_iff.mpr hacceptors)]
    exact Nat.le_refl _

private theorem left_run (hrunning : s.running = false) (hlistener : s.listener = none)
    (hshut : s.shut = true) (as : List Action) (hno : ∀ a ∈ as, a.starts = false)
    (ht : machine.run s as = some t) :
    t.shut = true ∧ t.acceptor.left + as.countP (·.isAcceptors) ≤ s.acceptor.left := by
  induction as generalizing s with
  | nil =>
    cases ht
    exact ⟨hshut, Nat.le_refl _⟩
  | cons a rest ih =>
    obtain ⟨u, hu, hrest⟩ := Option.bind_eq_some_iff.mp ht
    have ha := hno a List.mem_cons_self
    have hdown := down_step a ha hu
    have hfirst := left_step a ha hrunning hlistener hshut hu
    obtain ⟨hlast, hleft⟩ := ih (hdown.running hrunning) (hdown.listener hlistener)
      (hdown.shut hshut) (fun b hb ↦ hno b (List.mem_cons_of_mem a hb)) hrest
    refine ⟨hlast, ?_⟩
    rw [List.countP_cons]
    omega

/-- Clients do not keep `stop` in its join. The accept thread has seven steps left at most, and
takes no client at the listener of this server. Until it is gone it goes on by itself, with no
client and no error to wait for, unless it came to `accept` after another part of the process had
begun to listen under the number; and once it is gone `stop` goes on. -/
theorem stop_joins (h : machine.Reachable s) (hstop : s.stopper = .closed) (as : List Action)
    (hno : ∀ a ∈ as, a.starts = false) (ht : machine.run s as = some t) :
    as.countP (·.isAcceptors) ≤ 7 ∧
      (∀ fd, (t.step (.accept fd)).isSome → ∃ n ∈ t.listening, t.acceptor = .straying n) ∧
      (t.acceptor = .off ∨ (t.step .acceptor).isSome ∨ ∃ n, t.acceptor = .straying n) ∧
      (t.stopper = .closed → t.acceptor = .off → (t.step (.stop false)).isSome) := by
  have hsettled := (inv_reachable h).settled
  rw [Settled, hstop] at hsettled
  obtain ⟨hrunning, hlistener, hshut⟩ := hsettled
  obtain ⟨hshut, hleft⟩ := left_run hrunning hlistener hshut as hno ht
  have hmost : s.acceptor.left ≤ 7 := by
    cases s.acceptor <;> simp only [Acceptor.left] <;> omega
  refine ⟨by omega, ?_, ?_, ?_⟩
  · intro fd hsome
    obtain ⟨u, hu⟩ := Option.isSome_iff_exists.mp hsome
    obtain ⟨⟨-, hopen⟩ | hstray, -⟩ := accept_cases hu
    · exact absurd hshut hopen
    · exact hstray
  · rw [State.step, State.acceptorNext]
    cases hacceptor : t.acceptor with
    | off => exact .inl rfl
    | straying n => exact .inr (.inr ⟨n, rfl⟩)
    | accepting =>
      -- it was woken by the `shutdown`
      right; left
      dsimp only
      rw [if_pos hshut]
      rfl
    | accepted fd =>
      right; left
      dsimp only
      split <;> rfl
    | _ => exact .inr (.inl rfl)
  · intro hclosed hoff
    rw [State.step, State.stopNext, hclosed]
    dsimp only
    rw [if_pos hoff]
    rfl

theorem stop_joins_oneClient :
    ∃ s t, machine.run server (oneClient ++ [.stop false, .stop false, .stop false]) = some s ∧
      (s.acceptor = .off ∨ (s.step .acceptor).isSome ∨ ∃ n, s.acceptor = .straying n) ∧
      machine.run s [.acceptor] = some t ∧ (t.step (.stop false)).isSome :=
  have hs := Machine.Reachable.run (.init init_server)
    (oneClient ++ [.stop false, .stop false, .stop false]) rfl
  ⟨_, _, rfl, (stop_joins hs rfl [] nofun rfl).2.2.1, rfl,
    (stop_joins hs rfl [.acceptor] (by decide) rfl).2.2.2 rfl rfl⟩

/-- The number of the closed listener is another part's by the time `accept` is called with it. -/
example : (machine.run server [.start 3, .acceptor, .acceptor, .stop false, .stop false,
    .stop false, .stop false, .openOther 3, .listenOther 3, .acceptor]).map (·.acceptor) =
      some (.straying 3) := rfl

end WebLinked.Control.Connections
