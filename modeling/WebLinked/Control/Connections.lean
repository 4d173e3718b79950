import Mathlib.Data.Finset.Basic
import WebLinked.Base.Machine
import WebLinked.Base.Pool

/-!
# The connections of the HTTP server

`src/control/http_server.cpp:250,338–442,462–512,516,534,597–637`. The accept thread counts a
connection, registers its descriptor and leaves it to a thread of its own; `stop` shuts every
descriptor that is registered. The rest of the process opens and closes descriptors at any point,
and the system hands out any number that is not open. As on Linux, a thread in `accept` is woken
by the `shutdown` of its listener and not by the `close` of its number, and it stays with the
listener it came to, whoever has the number since.
-/

namespace WebLinked.Control.Connections

open WebLinked.Base

/-- Where the accept thread stands in `acceptLoop`; `src/control/http_server.cpp:399–442`. -/
inductive Acceptor where
  /-- There is no accept thread. -/
  | off
  | top
  /-- `running_` was true; `listenSocket_` is still to be read. -/
  | loading
  /-- About to call `accept` with the number that was in `listenSocket_`. -/
  | calling (number : Option ℕ)
  /-- In `accept`, at the listener of this server. -/
  | accepting
  /-- In `accept`, at a listener that another part of the process has under the number. -/
  | straying (number : ℕ)
  | accepted (fd : ℕ)
  | refusing (fd : ℕ)
  | counted (fd : ℕ)
  | registered (fd : ℕ)
  deriving DecidableEq, Repr

/-- Where the thread of a connection stands in `serveConnection`, and after it;
`src/control/http_server.cpp:438–441,534–637`. -/
inductive Phase where
  | top (served : ℕ)
  | reading (served : ℕ)
  | handling (served : ℕ)
  | ending
  /-- The descriptor is no longer in `connections_`. -/
  | erased
  | closed
  | done
  deriving DecidableEq, Repr

/-- A connection and its thread. -/
structure Connection where
  fd : ℕ
  phase : Phase := .top 0
  deriving DecidableEq, Repr

/-- Where the thread that stops the server stands; `src/control/http_server.cpp:363–397`. -/
inductive Stopper where
  | idle
  | exchanged
  | shut
  /-- The listener is closed, and its number is still in `listenSocket_`. -/
  | forgetting
  | closed
  | joined
  | waiting
  deriving DecidableEq, Repr

/-- `HttpServer`, its threads, and the descriptors of the rest of the process. Not in the code: how
often the handler was called. -/
structure State where
  maxConnections : ℕ
  running : Bool := false
  /-- The descriptor of the listener, while it is open. -/
  listener : Option ℕ := none
  listenSocket_ : Option ℕ := none
  /-- `shutdown` was called on the listener. -/
  shut : Bool := false
  active : ℕ := 0
  refused : ℕ := 0
  connections : Finset ℕ := ∅
  acceptor : Acceptor := .off
  threads : List Connection := []
  stopper : Stopper := .idle
  others : List ℕ := []
  /-- Those of the others that are listening. -/
  listening : Finset ℕ := ∅
  calls : ℕ := 0
  deriving DecidableEq

/-- What the thread of a connection meets: it just goes on, what it read is no request, the
handler is called, or an answer has been sent and the connection is kept or not. -/
inductive Event where
  | next
  | fail
  | call
  | answer (keep : Bool)
  deriving DecidableEq, Repr

inductive Action where
  | openOther (fd : ℕ)
  | listenOther (fd : ℕ)
  | closeOther (fd : ℕ)
  /-- `start`, with the descriptor of its listener. -/
  | start (fd : ℕ)
  /-- `accept` returns a client. -/
  | accept (fd : ℕ)
  /-- `accept` returns an error of its own, such as no descriptor left. -/
  | acceptFails
  /-- The accept thread goes on by itself. -/
  | acceptor
  /-- The thread of a connection goes on. -/
  | thread (i : ℕ) (event : Event)
  /-- The thread in `stop` goes on; whether its two seconds are over. -/
  | stop (timedOut : Bool)
  deriving DecidableEq, Repr

/-- How many descriptors of a number the accept thread has. -/
def Acceptor.holds (fd : ℕ) : Acceptor → ℕ
  | .accepted n | .refusing n | .counted n | .registered n => if n = fd then 1 else 0
  | .off | .top | .loading | .calling _ | .accepting | .straying _ => 0

/-- The accept thread has counted a connection that has no thread yet. -/
def Acceptor.counts : Acceptor → ℕ
  | .counted _ | .registered _ => 1
  | .off | .top | .loading | .calling _ | .accepting | .straying _ | .accepted _ | .refusing _ => 0

/-- The thread has not closed its descriptor. -/
def Phase.isOpen : Phase → Bool
  | .top _ | .reading _ | .handling _ | .ending | .erased => true
  | .closed | .done => false

/-- The descriptor is in `connections_`. -/
def Phase.isRegistered : Phase → Bool
  | .top _ | .reading _ | .handling _ | .ending => true
  | .erased | .closed | .done => false

/-- How many descriptors of a number the connection has. -/
def Connection.holds (fd : ℕ) (c : Connection) : ℕ := if c.fd = fd ∧ c.phase.isOpen then 1 else 0

/-- The thread is still counted. -/
def Connection.counts (c : Connection) : ℕ := if c.phase = .done then 0 else 1

namespace State

variable (s : State)

/-- How many holders a descriptor number has in the process. -/
def holders (fd : ℕ) : ℕ :=
  (if s.listener = some fd then 1 else 0) + s.acceptor.holds fd +
    Pool.total (Connection.holds fd) s.threads + s.others.count fd

/-- `start`, once its listener is listening; `src/control/http_server.cpp:293–361`. -/
def start (fd : ℕ) : Option State :=
  if s.running ∨ s.stopper ≠ .idle ∨ s.holders fd ≠ 0 then none
  else
    some { s with
      listener := some fd, listenSocket_ := some fd, shut := false, running := true,
      acceptor := .top }

/-- `accept` has returned an error; `src/control/http_server.cpp:409–414`. -/
def acceptError : State := { s with acceptor := if s.running then .top else .off }

/-- `accept` is called with a number: it waits at the listener of that number, and returns at once
where there is none or it has been shut. -/
def call (number : Option ℕ) : State :=
  match number with
  | none => s.acceptError
  | some n =>
    if s.listener = some n ∧ ¬s.shut then { s with acceptor := .accepting }
    else if n ∈ s.listening then { s with acceptor := .straying n }
    else s.acceptError

/-- The next step of the accept thread; `src/control/http_server.cpp:399`. In `accept` it takes one
by itself only once its listener has been shut. -/
def acceptorNext : Option State :=
  match s.acceptor with
  | .off | .straying _ => none
  | .top => some { s with acceptor := if s.running then .loading else .off }
  | .loading => some { s with acceptor := .calling s.listenSocket_ }
  | .calling number => some (s.call number)
  | .accepting => if s.shut then some s.acceptError else none
  | .accepted fd =>
    if s.maxConnections ≤ s.active then
      some { s with acceptor := .refusing fd, refused := s.refused + 1 }
    else some { s with acceptor := .counted fd, active := s.active + 1 }
  | .refusing _ => some { s with acceptor := .top }
  | .counted fd =>
    some { s with acceptor := .registered fd, connections := insert fd s.connections }
  | .registered fd => some { s with acceptor := .top, threads := s.threads ++ [{ fd }] }

/-- `accept` returns a client, as long as the listener it waits at is listening. -/
def accept (fd : ℕ) : Option State :=
  match s.acceptor with
  | .accepting =>
    if ¬s.shut ∧ s.holders fd = 0 then some { s with acceptor := .accepted fd } else none
  | .straying n =>
    if n ∈ s.listening ∧ s.holders fd = 0 then some { s with acceptor := .accepted fd } else none
  | _ => none

/-- `accept` returns an error of its own. -/
def acceptFails : Option State :=
  match s.acceptor with
  | .accepting | .straying _ => some s.acceptError
  | _ => none

/-- A connection has come to a phase. -/
def setPhase (i : ℕ) (c : Connection) (phase : Phase) : State :=
  { s with threads := s.threads.set i { c with phase } }

/-- The thread of a connection goes on; `src/control/http_server.cpp:516–637`. -/
def threadNext (i : ℕ) (event : Event) : Option State :=
  (s.threads[i]?).bind fun c ↦
    match c.phase, event with
    | .top served, .next =>
      some (s.setPhase i c (if s.running ∧ served < 200 then .reading served else .ending))
    | .reading _, .fail => some (s.setPhase i c .ending)
    | .reading served, .answer keep | .handling served, .answer keep =>
      some (s.setPhase i c (if keep then .top (served + 1) else .ending))
    | .reading served, .call =>
      some { s.setPhase i c (.handling served) with calls := s.calls + 1 }
    | .ending, .next =>
      some { s.setPhase i c .erased with connections := s.connections.erase c.fd }
    | .erased, .next => some (s.setPhase i c .closed)
    | .closed, .next => some { s.setPhase i c .done with active := s.active - 1 }
    | _, _ => none

/-- `stop`, which waits in the join for the accept thread to be gone;
`src/control/http_server.cpp:363–397`. -/
def stopNext (timedOut : Bool) : Option State :=
  match s.stopper with
  | .idle => if s.running then some { s with running := false, stopper := .exchanged } else some s
  | .exchanged => some { s with shut := true, stopper := .shut }
  | .shut => some { s with listener := none, stopper := .forgetting }
  | .forgetting => some { s with listenSocket_ := none, stopper := .closed }
  | .closed => if s.acceptor = .off then some { s with stopper := .joined } else none
  | .joined => some { s with stopper := .waiting }
  | .waiting => if s.active = 0 ∨ timedOut then some { s with stopper := .idle } else none

def step : Action → Option State
  | .openOther fd => if s.holders fd = 0 then some { s with others := fd :: s.others } else none
  | .listenOther fd =>
    if fd ∈ s.others then some { s with listening := insert fd s.listening } else none
  | .closeOther fd =>
    if fd ∈ s.others then
      some { s with others := s.others.erase fd, listening := s.listening.erase fd }
    else none
  | .start fd => s.start fd
  | .accept fd => s.accept fd
  | .acceptFails => s.acceptFails
  | .acceptor => s.acceptorNext
  | .thread i event => s.threadNext i event
  | .stop timedOut => s.stopNext timedOut

end State

/-- A server that has not been started; `setMaxConnections` makes the limit at least one. -/
def machine : Machine State Action where
  init s := ∃ (most : ℕ) (others : List ℕ) (listening : Finset ℕ), others.Nodup ∧
    (∀ fd ∈ listening, fd ∈ others) ∧ s = { maxConnections := max 1 most, others, listening }
  step := State.step

/-- What stands while the thread in `stop` is where it is. -/
def Settled (s : State) : Prop :=
  match s.stopper with
  | .idle => (s.running = s.listener.isSome) ∧ (s.running = false ↔ s.acceptor = .off)
  | .exchanged => s.running = false ∧ s.listener.isSome
  | .shut => s.running = false ∧ s.listener.isSome ∧ s.shut
  | .forgetting | .closed => s.running = false ∧ s.listener = none ∧ s.shut
  | .joined | .waiting => s.running = false ∧ s.listener = none ∧ s.acceptor = .off

structure Inv (s : State) : Prop where
  owned : ∀ fd, s.holders fd ≤ 1
  active : s.active = s.acceptor.counts + Pool.total Connection.counts s.threads
  capped : s.active ≤ s.maxConnections
  registry : ∀ fd, fd ∈ s.connections ↔ s.acceptor = .registered fd ∨
    ∃ c ∈ s.threads, c.fd = fd ∧ c.phase.isRegistered
  settled : Settled s

variable {s t : State} {i fd : ℕ} {c : Connection} {phase : Phase}

/-- A descriptor in `connections_` has not been closed. -/
theorem isOpen_of_isRegistered (h : phase.isRegistered) : phase.isOpen := by
  cases phase <;> first | rfl | cases h

theorem holds_of_isOpen (h : c.phase.isOpen) : c.holds c.fd = 1 := by
  simp only [Connection.holds, h, and_self, if_true]

/-- What is in `connections_` is open, and is a connection of this server. -/
theorem Inv.holds_of_mem (hs : Inv s) (hfd : fd ∈ s.connections) :
    s.acceptor.holds fd + Pool.total (Connection.holds fd) s.threads = 1 := by
  have hone := hs.owned fd
  have hpos : 1 ≤ s.acceptor.holds fd + Pool.total (Connection.holds fd) s.threads := by
    rcases (hs.registry fd).mp hfd with hacceptor | ⟨c, hc, rfl, hregistered⟩
    · rw [hacceptor, Acceptor.holds, if_pos rfl]
      omega
    · have hle := Pool.le_total (Connection.holds c.fd) hc
      rw [holds_of_isOpen (isOpen_of_isRegistered hregistered)] at hle
      omega
  unfold State.holders at hone
  omega

/-- The thread of a connection changes what it holds, and with it the total. -/
private theorem holders_setPhase (hc : s.threads[i]? = some c) (phase : Phase) (fd : ℕ) :
    (s.setPhase i c phase).holders fd + c.holds fd =
      s.holders fd + ({ c with phase } : Connection).holds fd := by
  have htotal := Pool.total_set (Connection.holds fd) { c with phase } hc
  show (if s.listener = some fd then 1 else 0) + s.acceptor.holds fd +
      Pool.total _ (s.threads.set i _) + s.others.count fd + _ =
    (if s.listener = some fd then 1 else 0) + s.acceptor.holds fd + Pool.total _ s.threads +
      s.others.count fd + _
  omega

/-- A thread that goes on holds no more than it did. -/
private theorem owned_setPhase (hs : Inv s) (hc : s.threads[i]? = some c)
    (hopen : phase.isOpen → c.phase.isOpen) (fd : ℕ) : (s.setPhase i c phase).holders fd ≤ 1 := by
  have htotal := holders_setPhase hc phase fd
  have hle : ({ c with phase } : Connection).holds fd ≤ c.holds fd := by
    rw [Connection.holds, Connection.holds]
    split
    · next h => rw [if_pos ⟨h.1, hopen h.2⟩]
    · exact Nat.zero_le _
  have hone := hs.owned fd
  omega

/-- The other threads, and this one as it is now. -/
private theorem mem_setPhase (hc : s.threads[i]? = some c) (d : Connection) :
    d ∈ (s.setPhase i c phase).threads ↔
      d = { c with phase } ∨ ∃ j, j ≠ i ∧ s.threads[j]? = some d := by
  constructor
  · exact Pool.mem_set
  · rintro (rfl | ⟨j, hj, hd⟩)
    · exact List.mem_set (List.getElem?_eq_some_iff.mp hc).1 _
    · apply List.mem_of_getElem? (i := j)
      show (s.threads.set i _)[j]? = some d
      rw [List.getElem?_set_ne hj.symm, hd]

/-- A thread that goes on within the same part of its life keeps the invariant. -/
private theorem inv_setPhase (hs : Inv s) (hc : s.threads[i]? = some c) (phase : Phase)
    (hopen : phase.isOpen → c.phase.isOpen) (hregistered : phase.isRegistered = c.phase.isRegistered)
    (hdone : phase ≠ .done) (hwas : c.phase ≠ .done) (calls : ℕ) :
    Inv { s.setPhase i c phase with calls } where
  owned := fun fd ↦ owned_setPhase hs hc hopen fd
  active := by
    have htotal := Pool.total_set Connection.counts { c with phase } hc
    have hnow : Connection.counts { c with phase } = 1 := if_neg hdone
    have hbefore : c.counts = 1 := if_neg hwas
    rw [hnow, hbefore] at htotal
    have hactive := hs.active
    show s.active = s.acceptor.counts + Pool.total _ (s.threads.set i _)
    omega
  capped := hs.capped
  registry := by
    intro fd
    show fd ∈ s.connections ↔ _
    rw [hs.registry fd]
    apply or_congr Iff.rfl
    constructor
    · rintro ⟨d, hd, hfd, hreg⟩
      obtain ⟨j, hj⟩ := List.mem_iff_getElem?.mp hd
      by_cases hji : j = i
      · rw [hji, hc] at hj
        cases hj
        exact ⟨_, (mem_setPhase hc _).mpr (.inl rfl), hfd, hregistered.trans hreg⟩
      · exact ⟨d, (mem_setPhase hc _).mpr (.inr ⟨j, hji, hj⟩), hfd, hreg⟩
    · rintro ⟨d, hd, hfd, hreg⟩
      rcases (mem_setPhase hc _).mp hd with rfl | ⟨j, -, hj⟩
      · exact ⟨c, List.mem_of_getElem? hc, hfd, hregistered.symm.trans hreg⟩
      · exact ⟨d, List.mem_of_getElem? hj, hfd, hreg⟩
  settled := hs.settled

/-- `connections_.erase`, before the close. -/
private theorem inv_erase (hs : Inv s) (hc : s.threads[i]? = some c) (hphase : c.phase = .ending) :
    Inv { s.setPhase i c .erased with connections := s.connections.erase c.fd } where
  owned := fun fd ↦ owned_setPhase hs hc (fun _ ↦ by rw [hphase]; rfl) fd
  active := by
    have htotal := Pool.total_set Connection.counts { c with phase := .erased } hc
    have hbefore : c.counts = 1 := if_neg (by rw [hphase]; decide)
    have hnow : Connection.counts { c with phase := .erased } = 1 := rfl
    rw [hbefore, hnow] at htotal
    have hactive := hs.active
    show s.active = s.acceptor.counts + Pool.total _ (s.threads.set i _)
    omega
  capped := hs.capped
  registry := by
    intro fd
    have hown : c.holds c.fd = 1 := holds_of_isOpen (by rw [hphase]; rfl)
    have hone := hs.owned c.fd
    show fd ∈ s.connections.erase c.fd ↔ _
    rw [Finset.mem_erase, hs.registry fd]
    constructor
    · rintro ⟨hne, hacceptor | ⟨d, hd, hfd, hreg⟩⟩
      · exact .inl hacceptor
      · obtain ⟨j, hj⟩ := List.mem_iff_getElem?.mp hd
        refine .inr ⟨d, (mem_setPhase hc _).mpr (.inr ⟨j, ?_, hj⟩), hfd, hreg⟩
        rintro rfl
        cases hc.symm.trans hj
        exact hne hfd.symm
    · -- nobody else has the number that this connection has
      rintro (hacceptor | ⟨d, hd, hfd, hreg⟩)
      · refine ⟨?_, .inl hacceptor⟩
        rintro rfl
        have hle := Pool.le_total (Connection.holds c.fd) (List.mem_of_getElem? hc)
        have hregistered : s.acceptor.holds c.fd = 1 := by
          change s.acceptor = _ at hacceptor
          rw [hacceptor, Acceptor.holds, if_pos rfl]
        unfold State.holders at hone
        omega
      · rcases (mem_setPhase hc _).mp hd with rfl | ⟨j, hji, hj⟩
        · cases hreg
        · refine ⟨?_, .inr ⟨d, List.mem_of_getElem? hj, hfd, hreg⟩⟩
          rintro rfl
          have hpair := Pool.pair_le_total (Connection.holds c.fd) hc hj (Ne.symm hji)
          have hother : d.holds c.fd = 1 := by
            rw [← hfd]
            exact holds_of_isOpen (isOpen_of_isRegistered hreg)
          unfold State.holders at hone
          omega
  settled := hs.settled

/-- The thread ends. -/
private theorem inv_done (hs : Inv s) (hc : s.threads[i]? = some c) (hphase : c.phase = .closed) :
    Inv { s.setPhase i c .done with active := s.active - 1 } where
  owned := fun fd ↦ owned_setPhase hs hc (fun h ↦ by cases h) fd
  active := by
    have htotal := Pool.total_set Connection.counts { c with phase := .done } hc
    have hle := Pool.le_total Connection.counts (List.mem_of_getElem? hc)
    have hbefore : c.counts = 1 := if_neg (by rw [hphase]; decide)
    have hnow : Connection.counts { c with phase := .done } = 0 := rfl
    rw [hbefore, hnow] at htotal
    have hactive := hs.active
    show s.active - 1 = s.acceptor.counts + Pool.total _ (s.threads.set i _)
    omega
  capped := Nat.le_trans (Nat.sub_le _ _) hs.capped
  registry := by
    intro fd
    show fd ∈ s.connections ↔ _
    rw [hs.registry fd]
    apply or_congr Iff.rfl
    constructor
    · rintro ⟨d, hd, hfd, hreg⟩
      obtain ⟨j, hj⟩ := List.mem_iff_getElem?.mp hd
      refine ⟨d, (mem_setPhase hc _).mpr (.inr ⟨j, ?_, hj⟩), hfd, hreg⟩
      rintro rfl
      cases hc.symm.trans hj
      rw [hphase] at hreg
      cases hreg
    · rintro ⟨d, hd, hfd, hreg⟩
      rcases (mem_setPhase hc _).mp hd with rfl | ⟨j, -, hj⟩
      · cases hreg
      · exact ⟨d, List.mem_of_getElem? hj, hfd, hreg⟩
  settled := hs.settled

private theorem inv_threadNext {event : Event} (hs : Inv s)
    (ht : s.threadNext i event = some t) : Inv t := by
  obtain ⟨c, hc, ht⟩ := Option.bind_eq_some_iff.mp ht
  -- a step from one registered phase to another
  have hgoes : ∀ (phase : Phase) (calls : ℕ), c.phase.isRegistered → phase.isRegistered →
      Inv { s.setPhase i c phase with calls } := by
    intro phase calls hwas hnow
    apply inv_setPhase hs hc phase (fun _ ↦ isOpen_of_isRegistered hwas) (hnow.trans hwas.symm)
    · rintro rfl
      cases hnow
    · intro heq
      rw [heq] at hwas
      cases hwas
  split at ht
  · next served hphase _ =>
    cases ht
    exact hgoes _ s.calls (by rw [hphase]; rfl) (by split <;> rfl)
  · next hphase _ =>
    cases ht
    exact hgoes .ending s.calls (by rw [hphase]; rfl) rfl
  · next keep hphase _ =>
    cases ht
    exact hgoes _ s.calls (by rw [hphase]; rfl) (by split <;> rfl)
  · next keep hphase _ =>
    cases ht
    exact hgoes _ s.calls (by rw [hphase]; rfl) (by split <;> rfl)
  · next served hphase _ =>
    cases ht
    exact hgoes (.handling served) (s.calls + 1) (by rw [hphase]; rfl) rfl
  · next hphase _ =>
    cases ht
    exact inv_erase hs hc hphase
  · next hphase _ =>
    cases ht
    exact inv_setPhase hs hc .closed (fun h ↦ by cases h) (by rw [hphase]; rfl) nofun
      (by rw [hphase]; nofun) s.calls
  · next hphase _ =>
    cases ht
    exact inv_done hs hc hphase
  · cases ht

/-- The accept thread comes to a point at which it has the descriptors it had. -/
private theorem inv_acceptor (hs : Inv s) {acceptor : Acceptor} {refused : ℕ}
    (hholds : ∀ fd, acceptor.holds fd ≤ s.acceptor.holds fd)
    (hcounts : acceptor.counts = s.acceptor.counts)
    (hregistered : ∀ fd, acceptor ≠ .registered fd ∧ s.acceptor ≠ .registered fd)
    (hsettled : Settled { s with acceptor, refused }) : Inv { s with acceptor, refused } where
  owned := by
    intro fd
    have hone := hs.owned fd
    have hle := hholds fd
    unfold State.holders at hone ⊢
    dsimp only
    omega
  active := by
    show s.active = acceptor.counts + _
    rw [hcounts]
    exact hs.active
  capped := hs.capped
  registry := by
    intro fd
    show fd ∈ s.connections ↔ acceptor = _ ∨ _
    rw [hs.registry fd]
    simp only [(hregistered fd).1, (hregistered fd).2, false_or]
  settled := hsettled

/-- Where the accept thread is does not matter to `stop`, as long as it is there. -/
private theorem settled_acceptor (hs : Settled s) (hon : s.acceptor ≠ .off) (acceptor : Acceptor)
    (hnow : acceptor ≠ .off) (refused : ℕ) :
    Settled { s with acceptor, refused } := by
  unfold Settled at hs ⊢
  cases hstopper : s.stopper with
  | idle =>
    rw [hstopper] at hs
    refine ⟨hs.1, ?_⟩
    show s.running = false ↔ acceptor = .off
    rw [hs.2]
    simp only [hon, hnow]
  | exchanged => rw [hstopper] at hs; exact hs
  | shut => rw [hstopper] at hs; exact hs
  | forgetting => rw [hstopper] at hs; exact hs
  | closed => rw [hstopper] at hs; exact hs
  | joined => rw [hstopper] at hs; exact absurd hs.2.2 hon
  | waiting => rw [hstopper] at hs; exact absurd hs.2.2 hon

/-- The accept thread leaves its loop once the server is not running. -/
private theorem settled_loop (hs : Settled s) (hon : s.acceptor ≠ .off) (acceptor : Acceptor)
    (hnow : acceptor ≠ .off) :
    Settled { s with acceptor := if s.running then acceptor else .off } := by
  by_cases hrunning : s.running
  · rw [if_pos hrunning]
    exact settled_acceptor hs hon acceptor hnow s.refused
  · rw [if_neg hrunning]
    unfold Settled at hs ⊢
    cases hstopper : s.stopper with
    | idle =>
      rw [hstopper] at hs
      exact absurd (hs.2.mp (Bool.eq_false_iff.mpr hrunning)) hon
    | exchanged => rw [hstopper] at hs; exact hs
    | shut => rw [hstopper] at hs; exact hs
    | forgetting => rw [hstopper] at hs; exact hs
    | closed => rw [hstopper] at hs; exact hs
    | joined => rw [hstopper] at hs; exact absurd hs.2.2 hon
    | waiting => rw [hstopper] at hs; exact absurd hs.2.2 hon

/-- Without a descriptor the accept thread has counted nobody. -/
private theorem counts_of_bare {acceptor : Acceptor} (h : ∀ fd, acceptor.holds fd = 0) :
    acceptor.counts = 0 := by
  cases acceptor with
  | counted n => exact absurd (h n) (by rw [Acceptor.holds, if_pos rfl]; decide)
  | registered n => exact absurd (h n) (by rw [Acceptor.holds, if_pos rfl]; decide)
  | _ => rfl

private theorem ne_registered_of_bare {acceptor : Acceptor} (h : ∀ fd, acceptor.holds fd = 0)
    (fd : ℕ) : acceptor ≠ .registered fd := by
  rintro rfl
  have hone := h fd
  rw [Acceptor.holds, if_pos rfl] at hone
  cases hone

/-- The accept thread goes from one point at which it has no client to another. -/
private theorem inv_bare (hs : Inv s) {acceptor : Acceptor} (hwas : ∀ fd, s.acceptor.holds fd = 0)
    (hnow : ∀ fd, acceptor.holds fd = 0) (hsettled : Settled { s with acceptor }) :
    Inv { s with acceptor } := by
  apply inv_acceptor hs _ _ _ hsettled
  · intro fd
    rw [hnow fd]
    exact Nat.zero_le _
  · rw [counts_of_bare hwas, counts_of_bare hnow]
  · exact fun fd ↦ ⟨ne_registered_of_bare hnow fd, ne_registered_of_bare hwas fd⟩

private theorem inv_acceptError (hs : Inv s) (hwas : ∀ fd, s.acceptor.holds fd = 0)
    (hon : s.acceptor ≠ .off) : Inv s.acceptError := by
  apply inv_bare hs hwas
  · intro fd
    split <;> rfl
  · exact settled_loop hs.settled hon .top nofun

private theorem inv_call (hs : Inv s) (hwas : ∀ fd, s.acceptor.holds fd = 0)
    (hon : s.acceptor ≠ .off) (number : Option ℕ) : Inv (s.call number) := by
  cases number with
  | none => exact inv_acceptError hs hwas hon
  | some n =>
    rw [State.call]
    split
    · exact inv_bare hs hwas (fun fd ↦ rfl) (settled_acceptor hs.settled hon .accepting nofun _)
    · split
      · exact inv_bare hs hwas (fun fd ↦ rfl)
          (settled_acceptor hs.settled hon (.straying n) nofun _)
      · exact inv_acceptError hs hwas hon

/-- A step of the accept thread by itself, by where it stood. -/
inductive AcceptorStep (s : State) : State → Prop where
  | top (hacceptor : s.acceptor = .top) :
    AcceptorStep s { s with acceptor := if s.running then .loading else .off }
  | load (hacceptor : s.acceptor = .loading) :
    AcceptorStep s { s with acceptor := .calling s.listenSocket_ }
  | call {number : Option ℕ} (hacceptor : s.acceptor = .calling number) :
    AcceptorStep s (s.call number)
  | wake (hacceptor : s.acceptor = .accepting) : AcceptorStep s s.acceptError
  | refuse {fd : ℕ} (hacceptor : s.acceptor = .accepted fd) :
    AcceptorStep s { s with acceptor := .refusing fd, refused := s.refused + 1 }
  | count {fd : ℕ} (hacceptor : s.acceptor = .accepted fd) (hroom : s.active < s.maxConnections) :
    AcceptorStep s { s with acceptor := .counted fd, active := s.active + 1 }
  | refused {fd : ℕ} (hacceptor : s.acceptor = .refusing fd) :
    AcceptorStep s { s with acceptor := .top }
  | register {fd : ℕ} (hacceptor : s.acceptor = .counted fd) :
    AcceptorStep s { s with acceptor := .registered fd, connections := insert fd s.connections }
  | serve {fd : ℕ} (hacceptor : s.acceptor = .registered fd) :
    AcceptorStep s { s with acceptor := .top, threads := s.threads ++ [{ fd }] }

theorem acceptorNext_cases (ht : s.acceptorNext = some t) : AcceptorStep s t := by
  rw [State.acceptorNext] at ht
  cases hacceptor : s.acceptor with
  | off | straying n =>
    rw [hacceptor] at ht
    cases ht
  | top =>
    rw [hacceptor] at ht
    cases ht
    exact .top hacceptor
  | loading =>
    rw [hacceptor] at ht
    cases ht
    exact .load hacceptor
  | calling number =>
    rw [hacceptor] at ht
    cases ht
    exact .call hacceptor
  | accepting =>
    rw [hacceptor] at ht
    obtain ⟨-, heq⟩ := Option.ite_none_right_eq_some.mp ht
    cases heq
    exact .wake hacceptor
  | accepted fd =>
    rw [hacceptor] at ht
    dsimp only at ht
    split at ht
    · cases ht
      exact .refuse hacceptor
    · next hroom =>
      cases ht
      exact .count hacceptor (Nat.lt_of_not_le hroom)
  | refusing fd =>
    rw [hacceptor] at ht
    cases ht
    exact .refused hacceptor
  | counted fd =>
    rw [hacceptor] at ht
    cases ht
    exact .register hacceptor
  | registered fd =>
    rw [hacceptor] at ht
    cases ht
    exact .serve hacceptor

private theorem inv_acceptorNext (hs : Inv s) (ht : s.acceptorNext = some t) : Inv t := by
  cases acceptorNext_cases ht with
  | top hacceptor =>
    apply inv_bare hs
    · intro fd
      rw [hacceptor]
      rfl
    · intro fd
      split <;> rfl
    · exact settled_loop hs.settled (by rw [hacceptor]; nofun) .loading nofun
  | load hacceptor =>
    apply inv_bare hs
    · intro fd
      rw [hacceptor]
      rfl
    · exact fun fd ↦ rfl
    · exact settled_acceptor hs.settled (by rw [hacceptor]; nofun) (.calling _) nofun _
  | call hacceptor =>
    apply inv_call hs
    · intro fd
      rw [hacceptor]
      rfl
    · rw [hacceptor]
      nofun
  | wake hacceptor =>
    apply inv_acceptError hs
    · intro fd
      rw [hacceptor]
      rfl
    · rw [hacceptor]
      nofun
  | refuse hacceptor =>
    have hon : s.acceptor ≠ .off := by rw [hacceptor]; nofun
    refine inv_acceptor hs ?_ ?_ ?_ (settled_acceptor hs.settled hon _ ?_ _)
    · intro fd'
      rw [hacceptor]
      exact Nat.le_refl _
    · rw [hacceptor]
      rfl
    · intro fd'
      rw [hacceptor]
      exact ⟨nofun, nofun⟩
    · nofun
  | @count fd hacceptor hroom =>
    have hon : s.acceptor ≠ .off := by rw [hacceptor]; nofun
    have hactive := hs.active
    rw [hacceptor] at hactive
    change s.active = 0 + _ at hactive
    refine ⟨?_, ?_, hroom, ?_, ?_⟩
    · intro fd'
      have hone := hs.owned fd'
      unfold State.holders at hone ⊢
      rw [hacceptor] at hone
      exact hone
    · show s.active + 1 = 1 + Pool.total _ s.threads
      omega
    · intro fd'
      show fd' ∈ s.connections ↔ _
      rw [hs.registry fd', hacceptor]
      simp only [reduceCtorEq, false_or]
    · exact settled_acceptor hs.settled hon (.counted fd) nofun s.refused
  | refused hacceptor =>
    have hon : s.acceptor ≠ .off := by rw [hacceptor]; nofun
    refine inv_acceptor hs ?_ ?_ ?_ (settled_acceptor hs.settled hon _ ?_ _)
    · exact fun fd' ↦ Nat.zero_le _
    · rw [hacceptor]
      rfl
    · intro fd'
      rw [hacceptor]
      exact ⟨nofun, nofun⟩
    · nofun
  | @register fd hacceptor =>
    have hon : s.acceptor ≠ .off := by rw [hacceptor]; nofun
    refine ⟨?_, ?_, hs.capped, ?_, settled_acceptor hs.settled hon (.registered fd) nofun s.refused⟩
    · intro fd'
      have hone := hs.owned fd'
      unfold State.holders at hone ⊢
      rw [hacceptor] at hone
      exact hone
    · have hactive := hs.active
      rw [hacceptor] at hactive
      exact hactive
    · intro fd'
      show fd' ∈ insert fd s.connections ↔ Acceptor.registered fd = .registered fd' ∨ _
      rw [Finset.mem_insert, hs.registry fd', hacceptor, Acceptor.registered.injEq, eq_comm]
      simp only [reduceCtorEq, false_or]
  | @serve fd hacceptor =>
    have hon : s.acceptor ≠ .off := by rw [hacceptor]; nofun
    refine ⟨?_, ?_, hs.capped, ?_, settled_acceptor hs.settled hon .top nofun s.refused⟩
    · intro fd'
      have hone := hs.owned fd'
      have hnew : Connection.holds fd' { fd } = if fd = fd' then 1 else 0 := by
        simp only [Connection.holds, Phase.isOpen, and_true]
      unfold State.holders at hone ⊢
      rw [hacceptor] at hone
      dsimp only
      rw [Pool.total_append_singleton, hnew]
      change _ + (if fd = fd' then 1 else 0) + _ + _ ≤ 1 at hone
      show _ + 0 + _ + _ ≤ 1
      omega
    · have hactive := hs.active
      rw [hacceptor] at hactive
      show s.active = 0 + Pool.total _ (s.threads ++ [_])
      rw [Pool.total_append_singleton]
      change s.active = 1 + _ at hactive
      show s.active = 0 + (Pool.total _ s.threads + 1)
      omega
    · intro fd'
      show fd' ∈ s.connections ↔ Acceptor.top = _ ∨ ∃ c ∈ s.threads ++ [_], _
      rw [hs.registry fd', hacceptor, Acceptor.registered.injEq]
      simp only [reduceCtorEq, false_or, List.mem_append, List.mem_singleton]
      constructor
      · rintro (rfl | ⟨c, hc, hrest⟩)
        · exact ⟨_, .inr rfl, rfl, rfl⟩
        · exact ⟨c, .inl hc, hrest⟩
      · rintro ⟨c, hc | rfl, hfd, hreg⟩
        · exact .inr ⟨c, hc, hfd, hreg⟩
        · exact .inl hfd

/-- A client is accepted under a number that nothing in the process has. -/
private theorem inv_accepted (hs : Inv s) (hwas : ∀ fd, s.acceptor.holds fd = 0)
    (hon : s.acceptor ≠ .off) (hfree : s.holders fd = 0) :
    Inv { s with acceptor := .accepted fd } := by
  refine ⟨?_, ?_, hs.capped, ?_, settled_acceptor hs.settled hon (.accepted fd) nofun s.refused⟩
  · intro fd'
    have hone := hs.owned fd'
    unfold State.holders at hone hfree ⊢
    rw [hwas] at hone hfree
    dsimp only [Acceptor.holds] at hone hfree ⊢
    by_cases heq : fd = fd'
    · subst heq
      rw [if_pos rfl]
      omega
    · rw [if_neg heq]
      exact hone
  · have hactive := hs.active
    rw [counts_of_bare hwas] at hactive
    exact hactive
  · intro fd'
    show fd' ∈ s.connections ↔ _
    rw [hs.registry fd']
    simp only [ne_registered_of_bare hwas fd', reduceCtorEq, false_or]

/-- Where `accept` can return a client. -/
theorem accept_cases (ht : s.accept fd = some t) :
    (s.acceptor = .accepting ∧ ¬s.shut = true ∨ ∃ n ∈ s.listening, s.acceptor = .straying n) ∧
      s.holders fd = 0 ∧ t = { s with acceptor := .accepted fd } := by
  rw [State.accept] at ht
  split at ht
  · next hacceptor =>
    obtain ⟨⟨hopen, hfree⟩, heq⟩ := Option.ite_none_right_eq_some.mp ht
    exact ⟨.inl ⟨hacceptor, hopen⟩, hfree, (Option.some.inj heq).symm⟩
  · next n hacceptor =>
    obtain ⟨⟨hlistening, hfree⟩, heq⟩ := Option.ite_none_right_eq_some.mp ht
    exact ⟨.inr ⟨n, hlistening, hacceptor⟩, hfree, (Option.some.inj heq).symm⟩
  · cases ht

theorem acceptFails_cases (ht : s.acceptFails = some t) :
    (s.acceptor = .accepting ∨ ∃ n, s.acceptor = .straying n) ∧ t = s.acceptError := by
  rw [State.acceptFails] at ht
  split at ht
  · next hacceptor => exact ⟨.inl hacceptor, (Option.some.inj ht).symm⟩
  · next n hacceptor => exact ⟨.inr ⟨n, hacceptor⟩, (Option.some.inj ht).symm⟩
  · cases ht

private theorem inv_accept (hs : Inv s) (ht : s.accept fd = some t) : Inv t := by
  obtain ⟨⟨hacceptor, -⟩ | ⟨n, -, hacceptor⟩, hfree, rfl⟩ := accept_cases ht
  · exact inv_accepted hs (fun fd ↦ by rw [hacceptor]; rfl) (by rw [hacceptor]; nofun) hfree
  · exact inv_accepted hs (fun fd ↦ by rw [hacceptor]; rfl) (by rw [hacceptor]; nofun) hfree

private theorem inv_acceptFails (hs : Inv s) (ht : s.acceptFails = some t) : Inv t := by
  obtain ⟨hacceptor | ⟨n, hacceptor⟩, rfl⟩ := acceptFails_cases ht
  · exact inv_acceptError hs (fun fd ↦ by rw [hacceptor]; rfl) (by rw [hacceptor]; nofun)
  · exact inv_acceptError hs (fun fd ↦ by rw [hacceptor]; rfl) (by rw [hacceptor]; nofun)

private theorem inv_startServer (hs : Inv s) (ht : s.start fd = some t) : Inv t := by
  obtain ⟨hgo, heq⟩ := Option.ite_none_left_eq_some.mp ht
  cases heq
  simp only [not_or, not_not, Bool.not_eq_true] at hgo
  obtain ⟨hrunning, hidle, hfree⟩ := hgo
  have hsettled := hs.settled
  rw [Settled, hidle] at hsettled
  have hoff : s.acceptor = .off := hsettled.2.mp hrunning
  have hnone : s.listener = none := by
    rw [← Option.not_isSome_iff_eq_none, ← hsettled.1, hrunning]
    exact Bool.false_ne_true
  refine ⟨?_, ?_, hs.capped, ?_, ?_⟩
  · intro fd'
    have hone := hs.owned fd'
    unfold State.holders at hone hfree ⊢
    rw [hoff, hnone, if_neg nofun] at hone hfree
    dsimp only [Acceptor.holds] at hone hfree ⊢
    by_cases heq : fd = fd'
    · subst heq
      rw [if_pos rfl]
      omega
    · rw [if_neg (fun h ↦ heq (Option.some.inj h))]
      exact hone
  · have hactive := hs.active
    rw [hoff] at hactive
    exact hactive
  · intro fd'
    show fd' ∈ s.connections ↔ _
    rw [hs.registry fd', hoff]
    simp only [reduceCtorEq, false_or]
  · rw [Settled]
    dsimp only
    rw [hidle]
    exact ⟨rfl, nofun, nofun⟩

private theorem inv_stopNext {timedOut : Bool} (hs : Inv s) (ht : s.stopNext timedOut = some t) :
    Inv t := by
  have hsettled := hs.settled
  rw [Settled] at hsettled
  rw [State.stopNext] at ht
  cases hstopper : s.stopper with
  | idle =>
    rw [hstopper] at ht hsettled
    dsimp only at ht
    split at ht
    · next hrunning =>
      cases ht
      refine { hs with settled := ⟨rfl, ?_⟩ }
      rw [← hsettled.1, hrunning]
    · cases ht
      exact hs
  | exchanged =>
    rw [hstopper] at ht hsettled
    cases ht
    exact { hs with settled := ⟨hsettled.1, hsettled.2, rfl⟩ }
  | forgetting =>
    rw [hstopper] at ht hsettled
    cases ht
    exact { hs with settled := hsettled }
  | shut =>
    rw [hstopper] at ht hsettled
    cases ht
    refine { hs with owned := ?_, settled := ⟨hsettled.1, rfl, hsettled.2.2⟩ }
    intro fd
    have hone := hs.owned fd
    unfold State.holders at hone ⊢
    show 0 + _ + _ + _ ≤ 1
    dsimp only
    omega
  | closed =>
    rw [hstopper] at ht hsettled
    obtain ⟨hoff, heq⟩ := Option.ite_none_right_eq_some.mp ht
    cases heq
    exact { hs with settled := ⟨hsettled.1, hsettled.2.1, hoff⟩ }
  | joined =>
    rw [hstopper] at ht hsettled
    cases ht
    exact { hs with settled := hsettled }
  | waiting =>
    rw [hstopper] at ht hsettled
    obtain ⟨-, heq⟩ := Option.ite_none_right_eq_some.mp ht
    cases heq
    refine { hs with settled := ⟨?_, ?_⟩ }
    · show s.running = s.listener.isSome
      rw [hsettled.1, hsettled.2.1]
      rfl
    · exact ⟨fun _ ↦ hsettled.2.2, fun _ ↦ hsettled.1⟩

theorem inv_step (a : Action) (hs : Inv s) (ht : s.step a = some t) : Inv t := by
  cases a with
  | openOther fd =>
    obtain ⟨hfree, heq⟩ := Option.ite_none_right_eq_some.mp ht
    cases heq
    refine { hs with owned := ?_ }
    intro fd'
    have hone := hs.owned fd'
    unfold State.holders at hone hfree ⊢
    dsimp only
    by_cases heq : fd = fd'
    · subst heq
      rw [List.count_cons_self]
      omega
    · rw [List.count_cons_of_ne heq]
      exact hone
  | listenOther fd =>
    obtain ⟨-, heq⟩ := Option.ite_none_right_eq_some.mp ht
    cases heq
    exact { hs with }
  | closeOther fd =>
    obtain ⟨-, heq⟩ := Option.ite_none_right_eq_some.mp ht
    cases heq
    refine { hs with owned := ?_ }
    intro fd'
    have hone := hs.owned fd'
    have hle := (List.erase_sublist (a := fd) (l := s.others)).count_le fd'
    unfold State.holders at hone ⊢
    dsimp only
    omega
  | start fd => exact inv_startServer hs ht
  | accept fd => exact inv_accept hs ht
  | acceptFails => exact inv_acceptFails hs ht
  | acceptor => exact inv_acceptorNext hs ht
  | thread i event => exact inv_threadNext hs ht
  | stop timedOut => exact inv_stopNext hs ht

theorem inv_reachable (h : machine.Reachable s) : Inv s := by
  apply h.invariant
  · rintro s ⟨most, others, listening, hnodup, -, rfl⟩
    refine ⟨?_, rfl, Nat.zero_le _, ?_, ⟨rfl, by simp⟩⟩
    · intro fd
      have hcount := List.nodup_iff_count_le_one.mp hnodup fd
      show 0 + 0 + 0 + others.count fd ≤ 1
      omega
    · intro fd
      simp
  · exact fun s a t _ hs ht ↦ inv_step a hs ht

section Example

/-- A server of one connection at a time: a client is served, a second one refused, and `stop`
begins while the handler has a request. -/
def oneClient : List Action :=
  [.start 3, .acceptor, .acceptor, .acceptor, .openOther 4, .accept 5, .acceptor, .acceptor,
    .acceptor, .acceptor, .acceptor, .acceptor, .thread 0 .next, .accept 6, .acceptor, .acceptor,
    .acceptor, .acceptor, .acceptor, .thread 0 .call, .stop false]

def server : State := { maxConnections := 1, others := [0] }

theorem init_server : machine.init server := ⟨1, [0], ∅, by decide, nofun, rfl⟩

end Example

/-- However clients, the threads and `stop` interleave, and whatever descriptors the rest of the
process opens and closes: no more connections have a thread than are allowed, and each
descriptor that `stop` may shut is held by one connection of the server and by nobody else. -/
theorem connections_owned (h : machine.Reachable s) :
    s.active = s.acceptor.counts + Pool.total Connection.counts s.threads ∧
      s.active ≤ s.maxConnections ∧
      ∀ fd ∈ s.connections, fd ∉ s.others ∧ s.listener ≠ some fd ∧
        s.acceptor.holds fd + Pool.total (Connection.holds fd) s.threads = 1 := by
  have hs := inv_reachable h
  refine ⟨hs.active, hs.capped, fun fd hfd ↦ ?_⟩
  have hone := hs.owned fd
  have hheld := hs.holds_of_mem hfd
  unfold State.holders at hone
  refine ⟨fun hmem ↦ ?_, fun hlistener ↦ ?_, hheld⟩
  · have hpos := List.count_pos_iff.mpr hmem
    omega
  · rw [if_pos hlistener] at hone
    omega

theorem connections_owned_oneClient :
    ∃ s, machine.run server oneClient = some s ∧ s.active ≤ 1 ∧
      ∀ fd ∈ s.connections, fd ∉ s.others ∧ s.listener ≠ some fd ∧
        s.acceptor.holds fd + Pool.total (Connection.holds fd) s.threads = 1 :=
  ⟨_, rfl, (connections_owned (Machine.Reachable.run (.init init_server) oneClient rfl)).2⟩

end WebLinked.Control.Connections
