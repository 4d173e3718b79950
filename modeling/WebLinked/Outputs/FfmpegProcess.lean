import Mathlib.Tactic.ByContra
import WebLinked.Base.Machine

/-!
# The ffmpeg child

`src/outputs/stream_output.cpp:230–443`, the POSIX build. The object makes one call at a
time while its child may exit between any two system calls. A child that has exited stays
a zombie, and its pid its own, until a `waitpid` reaps it; after that the kernel may give
the pid to any process. The log pipe and the last line read from it decide nothing here.
-/

namespace WebLinked.Outputs.FfmpegProcess

open WebLinked.Base

/-- A child as the kernel keeps it for `waitpid`. -/
inductive Life where
  | running | zombie | reaped
  deriving DecidableEq, Repr

/-- A process this object has spawned. -/
structure Child where
  pid : Nat
  life : Life
  deriving DecidableEq, Repr

/-- The signals `terminate` sends. -/
inductive Signal where
  | sigint | sigkill
  deriving DecidableEq, Repr

/-- A call of `kill`, and whether its pid was one of a child not yet reaped. -/
structure Kill where
  pid : Int
  signal : Signal
  own : Bool
  deriving DecidableEq, Repr

/-- The last call that returned, with its answer. -/
inductive Returned where
  | constructed
  | spawn (ok : Bool)
  | running (alive : Bool)
  | waitForExit (exited : Bool)
  | terminate
  | destroyed
  deriving DecidableEq, Repr

/-- Where the current call has got to. `aborted` is `std::terminate`. -/
inductive Pc where
  | returned (last : Returned)
  | waiting (waited milliseconds : Int)
  | polling (i : Nat) (last : Returned)
  | escalating (last : Returned)
  | killing (last : Returned)
  | reaping (last : Returned)
  | joining (last : Returned)
  | aborted
  deriving DecidableEq, Repr

/-- The object's fields, its children in the order spawned, and every signal sent. -/
structure State where
  pid : Int := -1
  logReaderJoinable : Bool := false
  children : List Child := []
  kills : List Kill := []
  pc : Pc := .returned .constructed
  deriving DecidableEq, Repr

/-- A call, the next step of the current one, or a child's exit. `spawn` carries the pid
`posix_spawnp` hands out, or none if it or `pipe` fails. -/
inductive Action where
  | exit (child : Nat)
  | spawn (pid : Option Nat)
  | running
  | waitForExit (milliseconds : Int)
  | terminate
  | destroy
  | proceed
  deriving DecidableEq, Repr

namespace Child

/-- `waitpid` with this pid would find the child. -/
def awaits (pid : Int) (c : Child) : Bool := c.life ≠ .reaped && (c.pid : Int) = pid

/-- The child after a `waitpid` with this pid. -/
def waited (pid : Int) (c : Child) : Child :=
  if c.life = .zombie ∧ (c.pid : Int) = pid then { c with life := .reaped } else c

end Child

namespace State

/-- A child of this pid has not been reaped. -/
def unreaped (s : State) (pid : Int) : Bool := s.children.any (Child.awaits pid)

/-- A child of this pid has not exited. -/
def alive (s : State) (pid : Int) : Bool :=
  s.children.any fun c ↦ c.life = .running && (c.pid : Int) = pid

/-- `waitpid` on `pid_`: reaps the child if it has exited. -/
def waitpid (s : State) : State := { s with children := s.children.map (Child.waited s.pid) }

/-- `kill` on `pid_`. -/
def kill (s : State) (signal : Signal) : State :=
  { s with kills := s.kills ++ [{ pid := s.pid, signal, own := s.unreaped s.pid }] }

/-- `running`: whether the child is alive, reaping it if not;
`src/outputs/stream_output.cpp:318–331`. -/
def running (s : State) : Bool × State :=
  if s.pid ≤ 0 then (false, s) else (s.alive s.pid, s.waitpid)

/-- `spawn`; `src/outputs/stream_output.cpp:234–316`. Assigning `logReader_` while it is
joinable is `std::terminate`. -/
def spawn (s : State) : Option Nat → Option State
  | none => some { s with pc := .returned (.spawn false) }
  | some pid =>
    if pid = 0 ∨ s.unreaped pid then none else
    some { s with
      pid
      logReaderJoinable := true
      children := s.children ++ [{ pid, life := .running }]
      pc := if s.logReaderJoinable then .aborted else .returned (.spawn true) }

/-- `terminate` up to its poll; `src/outputs/stream_output.cpp:348–367`. -/
def terminate (s : State) (last : Returned) : State :=
  if 0 < s.pid then { s.kill .sigint with pc := .polling 0 last }
  else { s with pc := .joining last }

/-- The next step of the current call; none if it waits on.
`src/outputs/stream_output.cpp:338–345,367–384`. -/
def proceed (s : State) : Option State :=
  match s.pc with
  | .waiting waited milliseconds =>
    let (alive, s) := s.running
    some { s with
      pc := if alive ∧ waited < milliseconds then .waiting (waited + 25) milliseconds
        else .returned (.waitForExit !alive) }
  | .polling i last =>
    if i < 40 then
      let (alive, s) := s.running
      some { s with pc := if alive then .polling (i + 1) last else .escalating last }
    else some { s with pc := .escalating last }
  | .escalating last =>
    let (alive, s) := s.running
    some { s with pc := if alive then .killing last else .reaping last }
  | .killing last => some { s.kill .sigkill with pc := .reaping last }
  | .reaping last =>
    if s.alive s.pid then none else some { s.waitpid with pid := -1, pc := .joining last }
  | .joining last => some { s with logReaderJoinable := false, pc := .returned last }
  | _ => none

/-- The step an action takes; none where it cannot happen. -/
def step (s : State) : Action → Option State
  | .exit i =>
    match s.children[i]? with
    | some c =>
      if c.life = .running then
        some { s with children := s.children.set i { c with life := .zombie } }
      else none
    | none => none
  | .proceed => s.proceed
  | call =>
    match s.pc with
    | .returned last =>
      if last = .destroyed then none else
      match call with
      | .spawn pid => s.spawn pid
      | .running => let (alive, s) := s.running; some { s with pc := .returned (.running alive) }
      | .waitForExit milliseconds => some { s with pc := .waiting 0 milliseconds }
      | .terminate => some (s.terminate .terminate)
      | .destroy => some (s.terminate .destroyed)
      | _ => none
    | _ => none

end State

/-- One object from its construction on. -/
def machine : Machine State Action where
  init s := s = {}
  step := State.step

/-- Every signal went to a child not yet reaped, and none is left unreaped when
`terminate` or the destructor returns. -/
structure SignalsOwn (s : State) : Prop where
  signals : ∀ k ∈ s.kills, k.own
  reaped : s.pc = .returned .terminate ∨ s.pc = .returned .destroyed →
    ∀ c ∈ s.children, c.life = .reaped

/-- The step is no `terminate` or destruction after a poll has reaped the child: there the
child `pid_` names is still to be reaped, or `pid_` names none. -/
def findsUnreaped (s : State) : Action → Bool
  | .terminate | .destroy => s.pid ≤ 0 || s.unreaped s.pid
  | _ => true

/-! ### What one step does -/

section Step

variable {s t : State} {a : Action}

/-- A step sends nothing, `terminate`'s SIGINT, or the SIGKILL it escalates to. -/
theorem kills_of_step (h : s.step a = some t) :
    t.kills = s.kills ∨
    (t.kills = (s.kill .sigint).kills ∧ 0 < s.pid ∧ (a = .terminate ∨ a = .destroy)) ∨
    (t.kills = (s.kill .sigkill).kills ∧ ∃ last, s.pc = .killing last) := by
  have hr : s.running.2.kills = s.kills := by unfold State.running; split <;> rfl
  have ht (last : Returned) : (s.terminate last).kills = s.kills ∨
      ((s.terminate last).kills = (s.kill .sigint).kills ∧ 0 < s.pid) := by
    unfold State.terminate
    split
    · next hp => exact Or.inr ⟨rfl, hp⟩
    · exact Or.inl rfl
  cases a with
  | exit i =>
    simp only [State.step] at h
    split at h
    · split at h
      · cases h; exact Or.inl rfl
      · cases h
    · cases h
  | proceed =>
    simp only [State.step, State.proceed] at h
    split at h
    · cases h; exact Or.inl hr
    · split at h
      · cases h; exact Or.inl hr
      · cases h; exact Or.inl rfl
    · cases h; exact Or.inl hr
    · next last hp => cases h; exact Or.inr (Or.inr ⟨rfl, last, hp⟩)
    · split at h
      · cases h
      · cases h; exact Or.inl rfl
    · cases h; exact Or.inl rfl
    · cases h
  | spawn pid =>
    simp only [State.step, State.spawn] at h
    repeat' split at h
    all_goals cases h <;> exact Or.inl rfl
  | running =>
    simp only [State.step] at h
    repeat' split at h
    all_goals cases h <;> exact Or.inl hr
  | waitForExit milliseconds =>
    simp only [State.step] at h
    repeat' split at h
    all_goals cases h <;> exact Or.inl rfl
  | terminate =>
    simp only [State.step] at h
    repeat' split at h
    all_goals cases h
    rcases ht .terminate with h | ⟨h, hp⟩
    · exact Or.inl h
    · exact Or.inr (Or.inl ⟨h, hp, Or.inl rfl⟩)
  | destroy =>
    simp only [State.step] at h
    repeat' split at h
    all_goals cases h
    rcases ht .destroyed with h | ⟨h, hp⟩
    · exact Or.inl h
    · exact Or.inr (Or.inl ⟨h, hp, Or.inr rfl⟩)

/-- `terminate` and the destructor signal a live pid, whoever has it by then. -/
private theorem kills_of_not_findsUnreaped (hg : ¬ findsUnreaped s a)
    (h : s.step a = some t) : t.kills = (s.kill .sigint).kills := by
  have hp (ha : ¬ (s.pid ≤ 0 || s.unreaped s.pid)) : 0 < s.pid := by
    simp only [Bool.or_eq_true, decide_eq_true_eq] at ha
    omega
  cases a with
  | terminate =>
    have := hp hg
    simp only [State.step] at h
    repeat' split at h
    all_goals cases h
    simp [State.terminate, this]
  | destroy =>
    have := hp hg
    simp only [State.step] at h
    repeat' split at h
    all_goals cases h
    simp [State.terminate, this]
  | _ => exact absurd rfl hg

end Step

/-! ### Who may still be unreaped -/

/-- `terminate` past its `pid_ = -1`. -/
private def Pc.finishing : Pc → Bool
  | .joining _ | .returned .terminate | .returned .destroyed => true
  | _ => false

private structure Inv (s : State) : Prop where
  positive : ∀ c ∈ s.children, 0 < c.pid
  joinable : 0 < s.pid → s.logReaderJoinable
  mine : s.pc ≠ .aborted → ∀ c ∈ s.children, c.life ≠ .reaped → (c.pid : Int) = s.pid
  killing : ∀ last, s.pc = .killing last → s.unreaped s.pid
  finished : s.pc.finishing → s.pid ≤ 0

section Inv

variable {s t : State} {pc : Pc}

private theorem waited_pid (pid : Int) (c : Child) : (c.waited pid).pid = c.pid := by
  unfold Child.waited; split <;> rfl

private theorem life_of_waited {pid : Int} {c : Child} (h : (c.waited pid).life ≠ .reaped) :
    c.life ≠ .reaped := by
  unfold Child.waited at h
  split at h
  · exact absurd rfl h
  · exact h

private theorem waited_of_running {pid : Int} {c : Child} (h : c.life = .running) :
    c.waited pid = c := by
  simp [Child.waited, h]

private theorem Inv.reaped (inv : Inv s) (hp : s.pid ≤ 0) (ha : s.pc ≠ .aborted) :
    ∀ c ∈ s.children, c.life = .reaped := by
  intro c hc
  by_contra hl
  have hpid := inv.mine ha c hc hl
  have hpos := inv.positive c hc
  omega

private theorem Inv.setPc (inv : Inv s) (ha : s.pc ≠ .aborted)
    (killing : ∀ last, pc = .killing last → s.unreaped s.pid)
    (finished : pc.finishing → s.pid ≤ 0) : Inv { s with pc } :=
  ⟨inv.positive, inv.joinable, fun _ ↦ inv.mine ha, killing, finished⟩

private theorem Inv.waitpid (inv : Inv s) (ha : s.pc ≠ .aborted)
    (killing : ∀ last, pc = .killing last → s.alive s.pid)
    (finished : pc.finishing → s.pid ≤ 0) : Inv { s.waitpid with pc } where
  positive := by
    intro d hd
    obtain ⟨c, hc, rfl⟩ := List.mem_map.mp hd
    rw [waited_pid]
    exact inv.positive c hc
  joinable := inv.joinable
  mine _ := by
    intro d hd hl
    obtain ⟨c, hc, rfl⟩ := List.mem_map.mp hd
    rw [waited_pid]
    exact inv.mine ha c hc (life_of_waited hl)
  killing last hk := by
    obtain ⟨c, hc, hl⟩ := List.any_eq_true.mp (killing last hk)
    simp only [Bool.and_eq_true, decide_eq_true_eq] at hl
    refine List.any_eq_true.mpr ⟨c, List.mem_map.mpr ⟨c, hc, waited_of_running hl.1⟩, ?_⟩
    simp [Child.awaits, hl.1, hl.2, State.waitpid]
  finished := finished

/-- A poll, whatever the call does with its answer. -/
private theorem Inv.running (inv : Inv s) (ha : s.pc ≠ .aborted)
    (killing : ∀ last, pc = .killing last → s.running.1)
    (finished : pc.finishing → s.pid ≤ 0) : Inv { s.running.2 with pc } := by
  unfold State.running at killing ⊢
  split
  · next hp =>
    rw [if_pos hp] at killing
    exact inv.setPc ha (fun last hk ↦ by cases killing last hk) finished
  · next hp =>
    rw [if_neg hp] at killing
    exact inv.waitpid ha killing finished

private theorem Inv.exit (inv : Inv s) {i : Nat} {c : Child} (hc : s.children[i]? = some c)
    (hl : c.life = .running) :
    Inv { s with children := s.children.set i { c with life := .zombie } } := by
  have hm := List.mem_of_getElem? hc
  refine ⟨?_, inv.joinable, ?_, ?_, inv.finished⟩
  · intro d hd
    rcases List.mem_or_eq_of_mem_set hd with hd | rfl
    · exact inv.positive d hd
    · exact inv.positive c hm
  · intro ha d hd hd'
    rcases List.mem_or_eq_of_mem_set hd with hd | rfl
    · exact inv.mine ha d hd hd'
    · exact inv.mine ha c hm (by simp [hl])
  · intro last hk
    obtain ⟨d, hd, hlive⟩ := List.any_eq_true.mp (inv.killing last hk)
    obtain ⟨j, hj⟩ := List.mem_iff_getElem?.mp hd
    have hi : i < s.children.length := (List.getElem?_eq_some_iff.mp hc).1
    by_cases hij : i = j
    · subst hij
      have hcd : c = d := Option.some.inj (hc.symm.trans hj)
      subst hcd
      refine List.any_eq_true.mpr ⟨_, List.mem_set hi _, ?_⟩
      simp_all [Child.awaits]
    · refine List.any_eq_true.mpr ⟨d, List.mem_of_getElem? (i := j) ?_, hlive⟩
      rw [List.getElem?_set_ne hij, hj]

private theorem Inv.spawn (inv : Inv s) {last : Returned} (hpc : s.pc = .returned last)
    {pid : Option Nat} (h : s.spawn pid = some t) : Inv t := by
  have ha : s.pc ≠ .aborted := by simp [hpc]
  cases pid with
  | none =>
    cases h
    exact inv.setPc ha nofun nofun
  | some pid =>
    simp only [State.spawn] at h
    split at h
    · cases h
    · next hnew =>
      cases h
      refine ⟨?_, fun _ ↦ rfl, ?_, ?_, ?_⟩
      · intro c hc
        rcases List.mem_append.mp hc with hc | hc
        · exact inv.positive c hc
        · rw [List.mem_singleton.mp hc]
          exact Nat.pos_of_ne_zero fun h ↦ hnew (Or.inl h)
      · intro hj c hc hl
        -- Were a child still to be reaped, the log reader would be joinable.
        have hp : s.pid ≤ 0 := by
          by_contra hp
          have := inv.joinable (by omega)
          simp [this] at hj
        rcases List.mem_append.mp hc with hc | hc
        · exact absurd (inv.reaped hp ha c hc) hl
        · rw [List.mem_singleton.mp hc]
      · intro last hk
        dsimp only at hk
        split at hk <;> cases hk
      · intro hf
        dsimp only at hf
        split at hf <;> cases hf

private theorem Inv.terminate (inv : Inv s) {last from_ : Returned}
    (hpc : s.pc = .returned from_) : Inv (s.terminate last) := by
  have ha : s.pc ≠ .aborted := by simp [hpc]
  unfold State.terminate
  split
  · exact ⟨inv.positive, inv.joinable, fun _ ↦ inv.mine ha, nofun, nofun⟩
  · next hp => exact inv.setPc ha nofun fun _ ↦ by omega

private theorem Inv.proceed (inv : Inv s) (h : s.proceed = some t) : Inv t := by
  unfold State.proceed at h
  split at h
  · next hpc =>
    cases h
    apply inv.running (by simp [hpc])
    · intro last hk
      split at hk <;> cases hk
    · intro hf
      split at hf <;> cases hf
  · next i last hpc =>
    split at h
    · cases h
      apply inv.running (by simp [hpc])
      · intro last hk
        split at hk <;> cases hk
      · intro hf
        split at hf <;> cases hf
    · cases h
      exact inv.setPc (by simp [hpc]) nofun nofun
  · next last hpc =>
    cases h
    apply inv.running (by simp [hpc])
    · intro last hk
      split at hk
      · assumption
      · cases hk
    · intro hf
      split at hf <;> cases hf
  · next last hpc =>
    cases h
    exact ⟨inv.positive, inv.joinable, fun _ ↦ inv.mine (by simp [hpc]), nofun, nofun⟩
  · next last hpc =>
    split at h
    · cases h
    · next hdead =>
      cases h
      -- Exited or reaped, so `waitpid` leaves nothing for `mine` to speak of.
      have hall : ∀ c ∈ s.waitpid.children, c.life = .reaped := by
        intro d hd
        obtain ⟨c, hc, rfl⟩ := List.mem_map.mp hd
        by_contra hl
        have hmine := inv.mine (by simp [hpc]) c hc (life_of_waited hl)
        have hrun : c.life = .running := by
          cases hlife : c.life with
          | running => rfl
          | zombie => simp [Child.waited, hlife, hmine] at hl
          | reaped => exact absurd hlife (life_of_waited hl)
        exact hdead (List.any_eq_true.mpr ⟨c, hc, by simp [hrun, hmine]⟩)
      have hw : Inv { s.waitpid with pc := s.pc } :=
        inv.waitpid (by simp [hpc]) (by simp [hpc]) inv.finished
      refine ⟨hw.positive, nofun, ?_, nofun, fun _ ↦ show (-1 : Int) ≤ 0 by decide⟩
      intro _ c hc hl
      exact absurd (hall c hc) hl
  · next last hpc =>
    cases h
    have hp := inv.finished (by simp [hpc, Pc.finishing])
    refine ⟨inv.positive, fun h ↦ ?_, fun _ ↦ inv.mine (by simp [hpc]), nofun, fun _ ↦ hp⟩
    exact absurd h (by dsimp only; omega)
  · cases h

private theorem Inv.step (inv : Inv s) {a : Action} (h : s.step a = some t) : Inv t := by
  cases a with
  | exit i =>
    simp only [State.step] at h
    split at h
    · next c hc =>
      split at h
      · next hl => cases h; exact inv.exit hc hl
      · cases h
    · cases h
  | proceed => exact inv.proceed h
  | spawn pid =>
    simp only [State.step] at h
    split at h
    · next last hpc =>
      split at h
      · cases h
      · exact inv.spawn hpc h
    · cases h
  | running =>
    simp only [State.step] at h
    split at h
    · next last hpc =>
      split at h <;> cases h
      exact inv.running (by simp [hpc]) nofun nofun
    · cases h
  | waitForExit milliseconds =>
    simp only [State.step] at h
    split at h
    · next last hpc =>
      split at h <;> cases h
      exact inv.setPc (by simp [hpc]) nofun nofun
    · cases h
  | terminate =>
    simp only [State.step] at h
    split at h
    · next last hpc =>
      split at h <;> cases h
      exact inv.terminate hpc
    · cases h
  | destroy =>
    simp only [State.step] at h
    split at h
    · next last hpc =>
      split at h <;> cases h
      exact inv.terminate hpc
    · cases h

end Inv

private theorem inv_of_reachable {s : State} (h : machine.Reachable s) : Inv s := by
  refine h.invariant (fun s hs ↦ ?_) fun _ _ _ _ inv ht ↦ inv.step ht
  cases hs
  constructor <;> simp [Pc.finishing]

/-- Whatever the history, no child is left unreaped when `terminate` or the destructor
returns. -/
theorem reaped_of_reachable {s : State} (h : machine.Reachable s)
    (hpc : s.pc = .returned .terminate ∨ s.pc = .returned .destroyed) :
    ∀ c ∈ s.children, c.life = .reaped := by
  have inv := inv_of_reachable h
  rcases hpc with hpc | hpc <;>
    exact inv.reaped (inv.finished (by simp [hpc, Pc.finishing])) (by simp [hpc])

/-- Under the guard the SIGINT finds its child, and so does the SIGKILL after a poll that
found it alive. -/
private theorem signals_of_guarded {s : State}
    (h : machine.ReachableUnder (fun s a ↦ findsUnreaped s a) s) : ∀ k ∈ s.kills, k.own := by
  have hinv : Inv s ∧ ∀ k ∈ s.kills, k.own := by
    apply h.invariant (I := fun s ↦ Inv s ∧ ∀ k ∈ s.kills, k.own)
    · intro s hs
      have inv := inv_of_reachable (.init hs)
      cases hs
      exact ⟨inv, nofun⟩
    · intro s a t hg ⟨inv, own⟩ ht
      refine ⟨inv.step ht, fun k hk ↦ ?_⟩
      rcases kills_of_step ht with h | ⟨h, hp, ha⟩ | ⟨h, last, hpc⟩
      · exact own k (h ▸ hk)
      · rw [h] at hk
        rcases List.mem_append.mp hk with hk | hk
        · exact own k hk
        · rw [List.mem_singleton.mp hk]
          have hn : ¬ s.pid ≤ 0 := by omega
          rcases ha with rfl | rfl <;> simpa [findsUnreaped, hn] using hg
      · rw [h] at hk
        rcases List.mem_append.mp hk with hk | hk
        · exact own k hk
        · rw [List.mem_singleton.mp hk]
          exact inv.killing last hpc
  exact hinv.2

/-- A run signals only the object's own unreaped children if and only if `terminate` and
the destructor never come after a poll has reaped the child. -/
theorem signalsOwn_iff_findsUnreaped {t : State} (actions : List Action)
    (h : machine.run {} actions = some t) :
    SignalsOwn t ↔ machine.runUnder (fun s a ↦ findsUnreaped s a) {} actions = some t := by
  have hinit : machine.Reachable {} := .init rfl
  constructor
  · intro ⟨hs, _⟩
    refine hinit.runUnder_of_not_bad (B := fun s ↦ ∃ k ∈ s.kills, ¬ k.own) ?_ ?_ actions h
      (by push Not; exact hs)
    · intro s a u ⟨k, hk, hn⟩ hu
      refine ⟨k, ?_, hn⟩
      rcases kills_of_step hu with h | ⟨h, -⟩ | ⟨h, -⟩ <;> rw [h] <;> simp [State.kill, hk]
    · intro s a u _ hg hu
      rw [kills_of_not_findsUnreaped hg hu]
      refine ⟨⟨s.pid, .sigint, s.unreaped s.pid⟩, by simp [State.kill], ?_⟩
      intro hn
      cases a <;> simp_all [findsUnreaped]
  · intro hrun
    have hg := (Machine.ReachableUnder.init rfl).runUnder actions hrun
    exact ⟨signals_of_guarded hg, reaped_of_reachable hg.reachable⟩

/-- Started, stopped while it runs, and let go. -/
private def stopWhileAlive : List Action :=
  [.spawn (some 7), .running, .terminate, .proceed, .exit 0, .proceed, .proceed, .proceed,
    .proceed]

/-- A child stopped while it runs gets its SIGINT before a poll reaps it. -/
theorem signalsOwn_stopWhileAlive :
    SignalsOwn
      { pid := -1
        children := [⟨7, .reaped⟩]
        kills := [⟨7, .sigint, true⟩]
        pc := .returned .terminate } :=
  (signalsOwn_iff_findsUnreaped stopWhileAlive (by decide)).mpr (by decide)

/-- What `StreamOutput::stop` does: wait for the child to exit, then `terminate`. -/
private def stopAfterExit : List Action :=
  [.spawn (some 7), .waitForExit 3000, .proceed, .exit 0, .proceed, .terminate]

/-- After an exit that `waitForExit` has seen, `terminate` signals a pid that is no longer
the child's. -/
theorem not_signalsOwn : ¬ ∀ s : State, machine.Reachable s → SignalsOwn s := by
  intro h
  have hr : machine.Reachable
      { pid := 7
        logReaderJoinable := true
        children := [⟨7, .reaped⟩]
        kills := [⟨7, .sigint, false⟩]
        pc := .polling 0 .terminate } :=
    Machine.Reachable.run (.init rfl) stopAfterExit (by decide)
  have hs := (h _ hr).signals
  simp at hs

end WebLinked.Outputs.FfmpegProcess
