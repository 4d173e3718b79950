import WebLinked.Base.Machine
import WebLinked.Plugin.Helper

/-!
# The plugin's instances

`plugin/source/WebLinkedPlugin.cpp:42–124,156–171,229–274`, `plugin/source/Controls.h`. The host
creates and destroys instances, sets their parameters and draws frames of them, one at a time and in
any order. An instance is known by its address. What GL and Syphon do is left out: a frame is
one whose context is ready.
-/

namespace WebLinked.Plugin

open WebLinked.Base

/-! ## One instance -/

/-- `ParamId`; `plugin/source/Controls.h:9`. -/
inductive ParamId where
  | url
  | mode
  | sourceName
  | run

/-- `SourceMode`; `plugin/source/Controls.h:51`. -/
inductive SourceMode where
  | kRun
  | kAttach
  deriving DecidableEq

/-- `value >= 0.5f`. -/
def atLeastHalf (value : Double) : Bool := (Double.ofRat false (1 / 2)).le value

/-- `modeFromParam`; `plugin/source/Controls.h:53`. -/
def modeFromParam (value : Double) : SourceMode := if atLeastHalf value then .kAttach else .kRun

/-- What becomes of an instance's helper: it is started or cannot be, and what may be a cause to: it
was not wanted, was let go of, was found to have ended, had another name, or did not take a URL. -/
inductive Event where
  | started
  | unwanted
  | released
  | ended
  | renamed
  | refused
  deriving DecidableEq

/-- `WebLinkedPlugin`, what it has to do with its helper; `plugin/source/WebLinkedPlugin.h:27`. Not
in the code is `log`, what became of the helper, the last first. -/
structure WebLinkedPlugin where
  mode : Double := .ofInt 0
  run : Double := .ofInt 1
  url : String := ""
  sourceName : String := "WebLinked"
  helper : Helper := {}
  helperUrl : String := ""
  helperName : String := ""
  helperFailed : Bool := false
  helperError : String := ""
  log : List Event := []

/-- What makes a name an instance's own: the end of its address. -/
def suffix (address : ℕ) : List Char := '-' :: Nat.toDigits 16 (address % 2 ^ 24)

namespace WebLinkedPlugin

/-- `instanceSourceName`; `plugin/source/WebLinkedPlugin.cpp:58`. -/
def instanceSourceName (address : ℕ) (p : WebLinkedPlugin) : String :=
  p.sourceName ++ String.ofList (suffix address)

/-- `SetFloatParameter`; `plugin/source/WebLinkedPlugin.cpp:229`. -/
def setFloatParameter (index : ParamId) (value : Double) (p : WebLinkedPlugin) : WebLinkedPlugin :=
  match index with
  | .mode => { p with mode := value }
  | .run => { p with run := value }
  | _ => p

/-- `SetTextParameter`; `plugin/source/WebLinkedPlugin.cpp:254`. -/
def setTextParameter (index : ParamId) (value : Option String) (p : WebLinkedPlugin) :
    WebLinkedPlugin :=
  let text := value.getD ""
  match index with
  | .url => { p with url := text }
  | .sourceName => { p with sourceName := if text = "" then "WebLinked" else text }
  | _ => p

/-- Whether a helper is to run; `plugin/source/WebLinkedPlugin.cpp:70`. -/
def wantHelper (p : WebLinkedPlugin) : Bool :=
  modeFromParam p.mode = .kRun && atLeastHalf p.run && p.url ≠ ""

section

variable (turns : ℕ → Moment)

/-- `helper_.alive()`. -/
def alive (p : WebLinkedPlugin) (w : World) : Bool × WebLinkedPlugin × World :=
  let (runs, helper, w) := p.helper.alive turns w
  let log := if !runs && p.helper.pid ≠ 0 then .ended :: p.log else p.log
  (runs, { p with helper, log }, w)

/-- `helper_.stop()`, and nothing is known of a helper any more. -/
def dismiss (p : WebLinkedPlugin) (w : World) : WebLinkedPlugin × World :=
  let (helper, w) := p.helper.stop turns w
  ({ p with helper, helperUrl := "", helperName := "" }, w)

/-- A helper is started; `plugin/source/WebLinkedPlugin.cpp:114–123`. -/
def restart (p : WebLinkedPlugin) (w : World) (wanted : String) : WebLinkedPlugin × World :=
  let p := { p with log := .started :: p.log }
  match p.helper.start turns w p.url wanted with
  | (some error, helper, w) =>
    ({ p with
        helper, helperFailed := true, helperError := error, helperUrl := "", helperName := "" }, w)
  | (none, helper, w) => ({ p with helper, helperUrl := p.url, helperName := wanted }, w)

/-- The helper is told another URL if it has the name that is wanted;
`plugin/source/WebLinkedPlugin.cpp:99–108`. -/
def repoint (p : WebLinkedPlugin) (w : World) (wanted : String) : Bool × WebLinkedPlugin × World :=
  if p.helperName ≠ wanted then
    (false, { p with log := if p.helper.pid ≠ 0 then .renamed :: p.log else p.log }, w)
  else
    let (runs, p, w) := p.alive turns w
    if !runs then (false, p, w)
    else
      let (taken, w) := p.helper.setUrl turns w p.url
      if taken then (true, { p with helperUrl := p.url }, w)
      else (false, { p with log := .refused :: p.log }, w)

/-- The helper is made the one that is wanted; `plugin/source/WebLinkedPlugin.cpp:95–123`. -/
def settle (p : WebLinkedPlugin) (w : World) (wanted : String) : WebLinkedPlugin × World :=
  if p.helperName = wanted ∧ p.helperUrl = p.url then (p, w)
  else
    let (pointed, p, w) := p.repoint turns w wanted
    -- a binary that is missing is not looked for once a frame
    if pointed ∨ p.helperFailed then (p, w) else p.restart turns w wanted

/-- `reconcileHelper`; `plugin/source/WebLinkedPlugin.cpp:69`. -/
def reconcileHelper (address : ℕ) (p : WebLinkedPlugin) (w : World) : WebLinkedPlugin × World :=
  if !p.wantHelper then
    let (runs, p, w) := if p.helperUrl ≠ "" then (true, p, w) else p.alive turns w
    let (p, w) := if runs then p.dismiss turns w else (p, w)
    ({ p with helperFailed := false, log := .unwanted :: p.log }, w)
  else
    let wanted := p.instanceSourceName address
    let (runs, p, w) := p.alive turns w
    let p := if runs then p else { p with helperUrl := "", helperName := "" }
    p.settle turns w wanted

/-- `DeInitGL`; `plugin/source/WebLinkedPlugin.cpp:156`. -/
def deInitGL (p : WebLinkedPlugin) (w : World) : WebLinkedPlugin × World :=
  let (p, w) := p.dismiss turns w
  ({ p with log := .released :: p.log }, w)

end
end WebLinkedPlugin

/-! ## The host -/

/-- The instances by their addresses, and the processes. -/
structure Host where
  instances : ℕ → Option WebLinkedPlugin := fun _ ↦ none
  world : World := {}

/-- What the host does with an instance. -/
inductive Action where
  | create (address : ℕ)
  | setFloat (address : ℕ) (index : ParamId) (value : Double)
  | setText (address : ℕ) (index : ParamId) (value : Option String)
  | process (address : ℕ)
  | deInit (address : ℕ)
  | destroy (address : ℕ)

namespace Host

/-- An instance is replaced. -/
def set (s : Host) (address : ℕ) (p : Option WebLinkedPlugin) (w : World) : Host :=
  { instances := Function.update s.instances address p, world := w }

/-- One action, where it can be taken. -/
def step (turns : ℕ → Moment) (s : Host) : Action → Option Host
  | .create address =>
    if s.instances address = none then
      some (s.set address (some { helper := { owner := address } }) s.world)
    else none
  | .setFloat address index value =>
    (s.instances address).map fun p ↦
      s.set address (some (p.setFloatParameter index value)) s.world
  | .setText address index value =>
    (s.instances address).map fun p ↦
      s.set address (some (p.setTextParameter index value)) s.world
  | .process address =>
    (s.instances address).map fun p ↦
      let (p, w) := p.reconcileHelper turns address s.world
      s.set address (some p) w
  | .deInit address =>
    (s.instances address).map fun p ↦
      let (p, w) := p.deInitGL turns s.world
      s.set address (some p) w
  | .destroy address =>
    -- `~Helper`
    (s.instances address).map fun p ↦ s.set address none (p.helper.stop turns s.world).2

end Host

/-- No instance and no process at first. -/
def machine (turns : ℕ → Moment) : Machine Host Action where
  init s := s = {}
  step := Host.step turns

/-! ## The names -/

/-- An instance's own name is not empty. -/
theorem named_ne_empty (stem : String) (address : ℕ) :
    stem ++ String.ofList (suffix address) ≠ "" := by
  intro h
  have hlist := congrArg String.toList h
  simp [suffix] at hlist

/-- A hexadecimal digit is not a dash. -/
theorem digitChar_ne_dash {n : ℕ} (hn : n < 16) : n.digitChar ≠ '-' := by
  revert n
  decide

/-- A hexadecimal digit has one value. -/
theorem digitChar_inj {m n : ℕ} (hm : m < 16) (hn : n < 16) (h : m.digitChar = n.digitChar) :
    m = n := by
  revert h
  revert n
  revert m
  decide

theorem dash_notMem_toDigits (n : ℕ) : '-' ∉ Nat.toDigits 16 n := by
  induction n using Nat.strong_induction_on with
  | h n ih =>
    rw [Nat.toDigits_eq_if (by omega)]
    by_cases hn : n < 16
    · rw [if_pos hn, List.mem_singleton]
      exact (digitChar_ne_dash hn).symm
    · rw [if_neg hn, List.mem_append, List.mem_singleton]
      rintro (h | h)
      · exact ih (n / 16) (by omega) h
      · exact digitChar_ne_dash (Nat.mod_lt n (by omega)) h.symm

/-- Hexadecimal digits have one value. -/
theorem toDigits_inj {m n : ℕ} (h : Nat.toDigits 16 m = Nat.toDigits 16 n) : m = n := by
  induction m using Nat.strong_induction_on generalizing n with
  | h m ih =>
    rw [Nat.toDigits_eq_if (by omega), Nat.toDigits_eq_if (n := n) (by omega)] at h
    have hpos (k : ℕ) : 0 < (Nat.toDigits 16 k).length := Nat.length_toDigits_pos
    by_cases hm : m < 16
    · rw [if_pos hm] at h
      by_cases hn : n < 16
      · rw [if_pos hn] at h
        exact digitChar_inj hm hn (List.singleton_inj.mp h)
      · rw [if_neg hn] at h
        have hlength := congrArg List.length h
        have := hpos (n / 16)
        simp only [List.length_append, List.length_singleton] at hlength
        omega
    · rw [if_neg hm] at h
      by_cases hn : n < 16
      · rw [if_pos hn] at h
        have hlength := congrArg List.length h
        have := hpos (m / 16)
        simp only [List.length_append, List.length_singleton] at hlength
        omega
      · rw [if_neg hn] at h
        obtain ⟨hhead, hlast⟩ := List.append_inj' h rfl
        have hdiv := ih (m / 16) (by omega) hhead
        have hmod := digitChar_inj (Nat.mod_lt m (by omega)) (Nat.mod_lt n (by omega))
          (List.singleton_inj.mp hlast)
        omega

/-- Two names are the same only if the ends of the addresses are. -/
theorem suffix_inj {stem stem' : String} {a b : ℕ}
    (h : stem ++ String.ofList (suffix a) = stem' ++ String.ofList (suffix b)) :
    a % 2 ^ 24 = b % 2 ^ 24 := by
  have htail (stem : String) (a : ℕ) :
      (stem ++ String.ofList (suffix a)).toList.rtakeWhile (· ≠ '-') =
        Nat.toDigits 16 (a % 2 ^ 24) := by
    rw [String.toList_append, String.toList_ofList, suffix, List.rtakeWhile]
    rw [List.reverse_append, List.reverse_cons, List.append_assoc, List.takeWhile_append_of_pos]
    · simp
    · intro c hc
      have hdash := dash_notMem_toDigits (a % 2 ^ 24)
      simp only [decide_eq_true_eq]
      rintro rfl
      exact hdash (List.mem_reverse.mp hc)
  have hhex := congrArg (fun name : String ↦ name.toList.rtakeWhile (· ≠ '-')) h
  rw [htail, htail] at hhex
  exact toDigits_inj hhex

/-- The name a command line has. -/
theorem arguments_inj {binary binary' url url' name name' : String} {port port' : ℕ}
    (h : arguments binary url name port = arguments binary' url' name' port') : name = name' := by
  have hname := congrArg (fun arguments : List String ↦ arguments[3]?) h
  exact (String.append_right_inj "--syphon=").mp (Option.some.inj hname)

/-! ## What a frame does -/

namespace WebLinkedPlugin

/-- No start comes right after another. -/
def Spaced (log : List Event) : Prop := log.IsChain fun a b ↦ ¬ (a = .started ∧ b = .started)

/-- A start is not what came last. -/
def Ready (log : List Event) : Prop := log.head? ≠ some .started

/-- What holds of an instance between any two calls, whatever becomes of the processes. -/
structure Settled (address : ℕ) (p : WebLinkedPlugin) : Prop where
  owner : p.helper.owner = address
  url : p.helper.pid = 0 ↔ p.helperUrl = ""
  name : p.helper.pid = 0 ↔ p.helperName = ""
  named : p.helperName ≠ "" → ∃ stem, p.helperName = stem ++ String.ofList (suffix address)
  failed : p.helperFailed = true → p.helper.pid = 0
  spaced : Spaced p.log
  ready : p.helper.pid = 0 → p.helperFailed = false → Ready p.log

/-- The parameters are the same. -/
structure Asks (p p' : WebLinkedPlugin) : Prop where
  mode : p'.mode = p.mode
  run : p'.run = p.run
  url : p'.url = p.url
  sourceName : p'.sourceName = p.sourceName

/-- The helper is what the instance takes it for: a process with the name and the port on its command
line, whose last URL, if no request went astray, is the one it was told. -/
def Shows (p : WebLinkedPlugin) (w : World) : Prop :=
  p.helper.port < 2 ^ 16 ∧ ∃ binary first taken,
    w.told p.helper.pid = some
      { owner := p.helper.owner
        arguments := arguments binary first p.helperName p.helper.port
        taken } ∧
      ∀ last, taken = some last → last.getD first = p.helperUrl

/-- An instance among the others' processes, as long as nobody else waits for the helpers. -/
structure Holds (turns : ℕ → Moment) (others : Pid → Prop) (view : Pid → Option Known)
    (p : WebLinkedPlugin) (w : World) : Prop where
  sole : Sole turns others view p.helper w
  shows : p.helper.pid ≠ 0 → p.Shows w

/-- A call leaves the helper in its place among the processes. -/
def Keeps (turns : ℕ → Moment) (h : Helper) (w : World) (h' : Helper) (w' : World) : Prop :=
  (∀ n, (turns n).reaped = []) → ∀ others view,
    Sole turns others view h w → Sole turns others view h' w'

variable {turns : ℕ → Moment} {p p' : WebLinkedPlugin} {w w' : World} {address : ℕ}
  {wanted : String} {others : Pid → Prop} {view : Pid → Option Known}

/-- Of the processes only the helper counts, and of that not all it took. -/
theorem Shows.worn (h : p.Shows w)
    (hworn : World.Worn (w.told p.helper.pid) (w'.told p.helper.pid)) : p.Shows w' := by
  obtain ⟨hport, binary, first, taken, htold, hlast⟩ := h
  rw [htold] at hworn
  rcases hworn with hsame | hless
  · exact ⟨hport, binary, first, taken, hsame, hlast⟩
  · exact ⟨hport, binary, first, none, hless, nofun⟩

/-- An instance without a helper. -/
theorem settled_of_none (howner : p.helper.owner = address) (hpid : p.helper.pid = 0)
    (hurl : p.helperUrl = "") (hname : p.helperName = "") (hspaced : Spaced p.log)
    (hready : p.helperFailed = false → Ready p.log) : Settled address p where
  owner := howner
  url := ⟨fun _ ↦ hurl, fun _ ↦ hpid⟩
  name := ⟨fun _ ↦ hname, fun _ ↦ hpid⟩
  named := fun hne ↦ absurd hname hne
  failed := fun _ ↦ hpid
  spaced := hspaced
  ready := fun _ ↦ hready

/-- Where there is no helper it shows nothing. -/
theorem holds_of_none (hs : Sole turns others view p.helper w) (hpid : p.helper.pid = 0) :
    Holds turns others view p w :=
  ⟨hs, fun hne ↦ absurd hpid hne⟩

/-- Anything else than a start may come. -/
theorem Spaced.cause {log : List Event} {event : Event} (h : Spaced log)
    (hevent : event ≠ .started) : Spaced (event :: log) :=
  h.cons fun _ _ hstarts ↦ hevent hstarts.1

/-- A start may come after anything else. -/
theorem Spaced.start {log : List Event} (h : Spaced log) (hready : Ready log) :
    Spaced (.started :: log) :=
  h.cons fun _ hlast hstarts ↦ hready (hstarts.2 ▸ hlast)

/-- After anything else than a start a start may come. -/
theorem ready_cons {log : List Event} {event : Event} (hevent : event ≠ .started) :
    Ready (event :: log) :=
  fun h ↦ hevent (Option.some.inj h)

/-- The helper runs and nothing has changed, or it has ended and is not there any more. -/
theorem alive_cases (turns : ℕ → Moment) (p : WebLinkedPlugin) (w : World) :
    (∃ w', p.alive turns w = (true, p, w') ∧ p.helper.pid ≠ 0 ∧
        Keeps turns p.helper w p.helper w' ∧
        ((∀ n, (turns n).reaped = []) → ∀ others view,
          Sole turns others view p.helper w → w.Same w')) ∨
      ∃ helper log w', p.alive turns w = (false, { p with helper, log }, w') ∧
        helper.pid = 0 ∧ helper.owner = p.helper.owner ∧ Keeps turns p.helper w helper w' ∧
        log = if p.helper.pid ≠ 0 then .ended :: p.log else p.log := by
  have htrue := p.helper.alive_true turns w
  have hfalse := p.helper.alive_false turns w
  have howner := p.helper.owner_alive turns w
  have hkeeps : Keeps turns p.helper w (p.helper.alive turns w).2.1 (p.helper.alive turns w).2.2 :=
    fun hreaped _ _ hs ↦ (hs.alive hreaped).1
  have hsame : (p.helper.alive turns w).1 = true → (∀ n, (turns n).reaped = []) →
      ∀ others view, Sole turns others view p.helper w → w.Same (p.helper.alive turns w).2.2 :=
    fun hruns hreaped _ _ hs ↦ (hs.alive hreaped).2 hruns
  rw [WebLinkedPlugin.alive]
  generalize p.helper.alive turns w = result at htrue hfalse howner hkeeps hsame ⊢
  obtain ⟨runs, helper, w'⟩ := result
  cases runs with
  | true =>
    obtain ⟨heq, hpid⟩ := htrue rfl
    dsimp only at heq hkeeps hsame
    rw [heq] at hkeeps ⊢
    exact .inl ⟨w', rfl, hpid, hkeeps, hsame rfl⟩
  | false =>
    refine .inr ⟨helper, _, w', rfl, hfalse rfl, howner, hkeeps, ?_⟩
    rw [Bool.not_false, Bool.true_and]
    by_cases hpid : p.helper.pid = 0
    · simp [hpid]
    · simp [hpid]

/-- The helper is not there any more. -/
theorem dismiss_spec (turns : ℕ → Moment) (p : WebLinkedPlugin) (w : World) :
    ∃ helper w', p.dismiss turns w = ({ p with helper, helperUrl := "", helperName := "" }, w') ∧
      helper.pid = 0 ∧ helper.owner = p.helper.owner ∧ Keeps turns p.helper w helper w' :=
  ⟨_, _, rfl, p.helper.pid_stop turns w, p.helper.owner_stop turns w,
    fun hreaped _ _ hs ↦ hs.stop hreaped⟩

/-- A helper is started as it is wanted, or that fails and there is none. -/
theorem restart_spec (turns : ℕ → Moment) (w : World) (howner : p.helper.owner = address)
    (hfailed : p.helperFailed = false) (hspaced : Spaced p.log) (hready : Ready p.log)
    (hurl : p.url ≠ "")
    (hwanted : ∃ stem, wanted = stem ++ String.ofList (suffix address)) :
    Settled address (p.restart turns w wanted).1 ∧ Asks p (p.restart turns w wanted).1 ∧
      ((p.restart turns w wanted).1.helperFailed = true ∨
        (p.restart turns w wanted).1.helperUrl = p.url ∧
          (p.restart turns w wanted).1.helperName = wanted) ∧
      ((∀ n, (turns n).reaped = []) → ∀ others view, Sole turns others view p.helper w →
        Holds turns others view (p.restart turns w wanted).1 (p.restart turns w wanted).2) := by
  have hpid := p.helper.pid_start turns w p.url wanted
  have hsame := p.helper.owner_start turns w p.url wanted
  have hstart : (∀ n, (turns n).reaped = []) → ∀ others view,
      Sole turns others view p.helper w → _ :=
    fun hreaped _ _ hs ↦ hs.start hreaped p.url wanted
  rw [restart]
  dsimp only
  generalize p.helper.start turns w p.url wanted = result at hpid hsame hstart ⊢
  obtain ⟨error, helper, w'⟩ := result
  cases error with
  | some error =>
    have hnone : helper.pid = 0 := by
      by_contra hne
      exact absurd (hpid.mpr hne) nofun
    exact ⟨settled_of_none (hsame.trans howner) hnone rfl rfl (hspaced.start hready) nofun,
      ⟨rfl, rfl, rfl, rfl⟩, .inl rfl,
      fun hreaped _ _ hs ↦ holds_of_none (hstart hreaped _ _ hs).1 hnone⟩
  | none =>
    have hthere : helper.pid ≠ 0 := hpid.mp rfl
    obtain ⟨stem, rfl⟩ := hwanted
    have hname := named_ne_empty stem address
    refine ⟨⟨hsame.trans howner, ?_, ?_, fun _ ↦ ⟨stem, rfl⟩, ?_, hspaced.start hready, ?_⟩,
      ⟨rfl, rfl, rfl, rfl⟩, .inr ⟨rfl, rfl⟩, ?_⟩
    · exact ⟨fun h ↦ absurd h hthere, fun h ↦ absurd h hurl⟩
    · exact ⟨fun h ↦ absurd h hthere, fun h ↦ absurd h hname⟩
    · intro h
      rw [hfailed] at h
      cases h
    · exact fun h ↦ absurd h hthere
    · intro hreaped others view hs
      obtain ⟨hsole, hnew⟩ := hstart hreaped others view hs
      obtain ⟨hport, binary, htold⟩ := hnew rfl
      dsimp only at hsame
      rw [← hsame] at htold
      refine ⟨hsole, fun _ ↦ ⟨hport, binary, p.url, some none, htold, fun last hlast ↦ ?_⟩⟩
      cases hlast
      rfl

/-- The helper is told the URL, or there is a cause to start one, unless that has failed. -/
theorem repoint_cases (turns : ℕ → Moment) (w : World) (hp : Settled address p)
    (hwanted : wanted ≠ "") (hurl : p.url ≠ "") :
    (∃ p' w', p.repoint turns w wanted = (true, p', w') ∧ Settled address p' ∧ Asks p p' ∧
        p'.helperUrl = p.url ∧ p'.helperName = wanted ∧
        ((∀ n, (turns n).reaped = []) → ∀ others view, Holds turns others view p w →
          Holds turns others view p' w')) ∨
      ∃ p' w', p.repoint turns w wanted = (false, p', w') ∧ Asks p p' ∧
        p'.helper.owner = address ∧ p'.helperFailed = p.helperFailed ∧
        Keeps turns p.helper w p'.helper w' ∧
        (p.helperFailed = true → Settled address p' ∧ p'.helper.pid = 0) ∧
        (p.helperFailed = false → Spaced p'.log ∧ Ready p'.log) := by
  rw [repoint]
  by_cases hname : p.helperName ≠ wanted
  · rw [if_pos hname]
    refine .inr ⟨_, _, rfl, ⟨rfl, rfl, rfl, rfl⟩, hp.owner, rfl, fun _ _ _ ↦ id,
      fun hfailed ↦ ?_, fun hfailed ↦ ?_⟩
    · have hpid := hp.failed hfailed
      refine ⟨?_, hpid⟩
      apply settled_of_none
      · exact hp.owner
      · exact hpid
      · exact hp.url.mp hpid
      · exact hp.name.mp hpid
      · dsimp only
        rw [if_neg (not_not.mpr hpid)]
        exact hp.spaced
      · intro hnot
        rw [hfailed] at hnot
        cases hnot
    · dsimp only
      by_cases hpid : p.helper.pid = 0
      · rw [if_neg (not_not.mpr hpid)]
        exact ⟨hp.spaced, hp.ready hpid hfailed⟩
      · rw [if_pos hpid]
        exact ⟨hp.spaced.cause nofun, ready_cons nofun⟩
  · rw [if_neg hname]
    have hname := not_not.mp hname
    have hpid : p.helper.pid ≠ 0 := fun h ↦ hwanted (hname ▸ hp.name.mp h)
    have hfailed : p.helperFailed = false :=
      Bool.eq_false_of_not_eq_true fun h ↦ hpid (hp.failed h)
    have hfailed' {P : Prop} (h : p.helperFailed = true) : P := by
      rw [hfailed] at h
      cases h
    rcases alive_cases turns p w with ⟨w', halive, -, hkeeps, hsame⟩ |
      ⟨helper, log, w', halive, -, howner, hkeeps, hlog⟩
    · rw [halive]
      have hset : (∀ n, (turns n).reaped = []) → ∀ others view,
          Sole turns others view p.helper w' → _ :=
        fun hreaped _ _ hs ↦ hs.setUrl hreaped p.url
      dsimp only
      rw [Bool.not_true, if_neg Bool.false_ne_true]
      generalize p.helper.setUrl turns w' p.url = result at hset ⊢
      obtain ⟨taken, w''⟩ := result
      cases taken with
      | true =>
        refine .inl ⟨_, _, rfl, ⟨hp.owner, ?_, hp.name, hp.named, hp.failed, hp.spaced, hp.ready⟩,
          ⟨rfl, rfl, rfl, rfl⟩, rfl, hname, fun hreaped others view hholds ↦ ?_⟩
        · exact ⟨fun h ↦ absurd h hpid, fun h ↦ absurd h hurl⟩
        · have hsole := hkeeps hreaped others view hholds.sole
          obtain ⟨hsole', hknown⟩ := hset hreaped others view hsole
          obtain ⟨hport, binary, first, before, htold, -⟩ := hholds.shows hpid
          rw [← (hsame hreaped others view hholds.sole).told] at htold
          obtain ⟨taken', htold', hlast⟩ := hknown _ htold rfl
          refine ⟨hsole', fun _ ↦ ⟨hport, binary, first, taken', htold', fun last heq ↦ ?_⟩⟩
          rw [hlast last heq]
          rfl
      | false =>
        refine .inr ⟨_, _, rfl, ⟨rfl, rfl, rfl, rfl⟩, hp.owner, rfl,
          fun hreaped others view hs ↦ ?_, hfailed',
          fun _ ↦ ⟨hp.spaced.cause nofun, ready_cons nofun⟩⟩
        exact (hset hreaped others view (hkeeps hreaped others view hs)).1
    · rw [halive]
      refine .inr ⟨_, _, rfl, ⟨rfl, rfl, rfl, rfl⟩, howner.trans hp.owner, rfl, hkeeps, hfailed',
        fun _ ↦ ?_⟩
      dsimp only
      rw [hlog, if_pos hpid]
      exact ⟨hp.spaced.cause nofun, ready_cons nofun⟩

/-- The helper is known by the URL and the name that are wanted, or it could not be started. -/
theorem settle_spec (turns : ℕ → Moment) (w : World) (hp : Settled address p) (hurl : p.url ≠ "")
    (hwanted : ∃ stem, wanted = stem ++ String.ofList (suffix address)) :
    Settled address (p.settle turns w wanted).1 ∧ Asks p (p.settle turns w wanted).1 ∧
      ((p.settle turns w wanted).1.helperFailed = true ∨
        (p.settle turns w wanted).1.helperUrl = p.url ∧
          (p.settle turns w wanted).1.helperName = wanted) ∧
      ((∀ n, (turns n).reaped = []) → ∀ others view, Holds turns others view p w →
        Holds turns others view (p.settle turns w wanted).1 (p.settle turns w wanted).2) := by
  have hne : wanted ≠ "" := by
    obtain ⟨stem, rfl⟩ := hwanted
    exact named_ne_empty stem address
  rw [settle]
  by_cases hsame : p.helperName = wanted ∧ p.helperUrl = p.url
  · rw [if_pos hsame]
    exact ⟨hp, ⟨rfl, rfl, rfl, rfl⟩, .inr ⟨hsame.2, hsame.1⟩, fun _ _ _ ↦ id⟩
  · rw [if_neg hsame]
    rcases repoint_cases turns w hp hne hurl with
      ⟨p', w', hpoint, hp', hasks, hurl', hname', hholds⟩ |
      ⟨p', w', hpoint, hasks, howner, hsameFailed, hkeeps, hgiven, hready⟩
    · rw [hpoint]
      exact ⟨hp', hasks, .inr ⟨hurl', hname'⟩, hholds⟩
    · rw [hpoint]
      by_cases hfailed : p.helperFailed = true
      · obtain ⟨hp', hpid⟩ := hgiven hfailed
        rw [hfailed] at hsameFailed
        dsimp only
        rw [if_pos (.inr hsameFailed)]
        exact ⟨hp', hasks, .inl hsameFailed, fun hreaped others view hholds ↦
          holds_of_none (hkeeps hreaped others view hholds.sole) hpid⟩
      · have hfailed := Bool.eq_false_of_not_eq_true hfailed
        rw [hfailed] at hsameFailed
        have hgo : ¬ (false = true ∨ p'.helperFailed = true) := by
          rw [hsameFailed]
          simp
        dsimp only
        rw [if_neg hgo]
        have hurl' : p'.url ≠ "" := by rw [hasks.url]; exact hurl
        obtain ⟨hp', hasks', hknown, hholds⟩ := restart_spec turns w' howner hsameFailed
          (hready hfailed).1 (hready hfailed).2 hurl' hwanted
        rw [hasks.url] at hknown
        exact ⟨hp', ⟨hasks'.mode.trans hasks.mode, hasks'.run.trans hasks.run,
          hasks'.url.trans hasks.url, hasks'.sourceName.trans hasks.sourceName⟩, hknown,
          fun hreaped others view h ↦
            hholds hreaped others view (hkeeps hreaped others view h.sole)⟩

/-- After a frame there is no helper that is not wanted; where one is, it could not be started, or
is known by the URL and the name that are wanted. -/
theorem reconcileHelper_spec (turns : ℕ → Moment) (w : World) (hp : Settled address p) :
    Settled address (p.reconcileHelper turns address w).1 ∧
      Asks p (p.reconcileHelper turns address w).1 ∧
      (p.wantHelper = false → (p.reconcileHelper turns address w).1.helper.pid = 0) ∧
      (p.wantHelper = true → (p.reconcileHelper turns address w).1.helperFailed = true ∨
        (p.reconcileHelper turns address w).1.helperUrl = p.url ∧
          (p.reconcileHelper turns address w).1.helperName = p.instanceSourceName address) ∧
      ((∀ n, (turns n).reaped = []) → ∀ others view, Holds turns others view p w →
        Holds turns others view (p.reconcileHelper turns address w).1
          (p.reconcileHelper turns address w).2) := by
  rw [reconcileHelper]
  by_cases hwant : p.wantHelper = true
  · have hurl : p.url ≠ "" := by
      rw [wantHelper, Bool.and_eq_true, decide_eq_true_eq] at hwant
      exact hwant.2
    rw [hwant, Bool.not_true, if_neg Bool.false_ne_true]
    rcases alive_cases turns p w with ⟨w', halive, -, hkeeps, hsame⟩ |
      ⟨helper, log, w', halive, hnone, howner, hkeeps, hlog⟩
    · rw [halive]
      obtain ⟨hp', hasks, hknown, hholds⟩ :=
        settle_spec turns w' hp hurl ⟨p.sourceName, rfl⟩
      refine ⟨hp', hasks, nofun, fun _ ↦ hknown, fun hreaped others view h ↦ ?_⟩
      have htold := (hsame hreaped others view h.sole).told
      exact hholds hreaped others view ⟨hkeeps hreaped others view h.sole,
        fun hpid ↦ (h.shows hpid).worn (.inl (congrFun htold _))⟩
    · rw [halive]
      have hsettled : Settled address
          { p with helper := helper, log := log, helperUrl := "", helperName := "" } := by
        apply settled_of_none
        · exact howner.trans hp.owner
        · exact hnone
        · rfl
        · rfl
        · dsimp only
          rw [hlog]
          split
          · exact hp.spaced.cause nofun
          · exact hp.spaced
        · intro hfailed
          dsimp only
          rw [hlog]
          split
          · exact ready_cons nofun
          · next hpid => exact hp.ready (not_not.mp hpid) hfailed
      obtain ⟨hp', hasks, hknown, hholds⟩ :=
        settle_spec turns w' hsettled hurl ⟨p.sourceName, rfl⟩
      exact ⟨hp', ⟨hasks.mode, hasks.run, hasks.url, hasks.sourceName⟩, nofun, fun _ ↦ hknown,
        fun hreaped others view h ↦ hholds hreaped others view
          (holds_of_none (hkeeps hreaped others view h.sole) hnone)⟩
  · have hwant := Bool.eq_false_of_not_eq_true hwant
    rw [hwant, Bool.not_false, if_pos rfl]
    by_cases hknown : p.helperUrl ≠ ""
    · rw [if_pos hknown]
      obtain ⟨helper, w', hdismiss, hnone, howner, hkeeps⟩ := dismiss_spec turns p w
      dsimp only
      rw [if_pos rfl, hdismiss]
      exact ⟨settled_of_none (howner.trans hp.owner) hnone rfl rfl (hp.spaced.cause nofun)
        fun _ ↦ ready_cons nofun, ⟨rfl, rfl, rfl, rfl⟩, fun _ ↦ hnone, nofun,
        fun hreaped others view h ↦ holds_of_none (hkeeps hreaped others view h.sole) hnone⟩
    · have hpid := hp.url.mpr (not_not.mp hknown)
      rw [if_neg hknown]
      rcases alive_cases turns p w with ⟨w', -, hne, -, -⟩ |
        ⟨helper, log, w', halive, hnone, howner, hkeeps, hlog⟩
      · exact absurd hpid hne
      · rw [halive]
        rw [if_neg (not_not.mpr hpid)] at hlog
        rw [hlog]
        exact ⟨settled_of_none (howner.trans hp.owner) hnone (not_not.mp hknown) (hp.name.mp hpid)
          (hp.spaced.cause nofun) fun _ ↦ ready_cons nofun, ⟨rfl, rfl, rfl, rfl⟩, fun _ ↦ hnone,
          nofun, fun hreaped others view h ↦
            holds_of_none (hkeeps hreaped others view h.sole) hnone⟩

/-- Let go of, an instance has no helper. -/
theorem deInitGL_spec (turns : ℕ → Moment) (w : World) (hp : Settled address p) :
    Settled address (p.deInitGL turns w).1 ∧ (p.deInitGL turns w).1.helper.pid = 0 ∧
      Keeps turns p.helper w (p.deInitGL turns w).1.helper (p.deInitGL turns w).2 := by
  obtain ⟨helper, w', hdismiss, hnone, howner, hkeeps⟩ := dismiss_spec turns p w
  rw [deInitGL, hdismiss]
  exact ⟨settled_of_none (howner.trans hp.owner) hnone rfl rfl (hp.spaced.cause nofun)
    fun _ ↦ ready_cons nofun, hnone, hkeeps⟩

/-- A parameter does not matter to what was settled before. -/
theorem Settled.of_params (hp : p.Settled address)
    (h : p' =
      { p with mode := p'.mode, run := p'.run, url := p'.url, sourceName := p'.sourceName }) :
    p'.Settled address := by
  rw [h]
  exact ⟨hp.owner, hp.url, hp.name, hp.named, hp.failed, hp.spaced, hp.ready⟩

end WebLinkedPlugin

/-! ## What the host's actions do -/

/-- The numbers of the helpers of other instances. -/
def Host.heldElsewhere (s : Host) (address : ℕ) (pid : Pid) : Prop :=
  pid ≠ 0 ∧ ∃ a p, a ≠ address ∧ s.instances a = some p ∧ p.helper.pid = pid

/-- Each process is one instance's, or was left by a wait that was interrupted. -/
structure Owned (turns : ℕ → Moment) (s : Host) : Prop where
  held : ∀ a p, s.instances a = some p → p.helper.pid ≠ 0 →
    ∃ k, s.world.told p.helper.pid = some k ∧ k.owner = p.helper.owner
  apart : ∀ a b p q, s.instances a = some p → s.instances b = some q → p.helper.pid ≠ 0 →
    p.helper.pid = q.helper.pid → a = b
  left : ∀ pid ∈ s.world.abandoned, s.world.told pid ≠ none ∧
    ∀ a p, s.instances a = some p → p.helper.pid ≠ pid
  kept : ∀ pid, s.world.told pid ≠ none →
    (∃ a p, s.instances a = some p ∧ p.helper.pid = pid) ∨ pid ∈ s.world.abandoned
  zero : s.world.told 0 = none
  clean : s.world.stray = []
  blame : s.world.abandoned ≠ [] → ∃ n, (turns n).interrupted = true

/-- What holds of a host between any two actions while nobody else waits for the helpers. -/
structure Inv (turns : ℕ → Moment) (s : Host) : Prop where
  owned : Owned turns s
  shows : ∀ a p, s.instances a = some p → p.helper.pid ≠ 0 → p.Shows s.world

section Steps

variable {turns : ℕ → Moment} {s : Host} {address : ℕ} {p : WebLinkedPlugin} {w' : World}

/-- No action unsettles an instance, whatever becomes of the processes. -/
theorem settled_step {t : Host} (action : Action)
    (h : ∀ a p, s.instances a = some p → p.Settled a) (ht : s.step turns action = some t) :
    ∀ a p, t.instances a = some p → p.Settled a := by
  -- an action replaces one instance
  have hset : ∀ (o : Option WebLinkedPlugin) (w : World) (address : ℕ),
      (∀ p, o = some p → p.Settled address) →
        ∀ a p, (s.set address o w).instances a = some p → p.Settled a := by
    intro o w address ho a p hp
    have hself : (s.set address o w).instances address = o := Function.update_self ..
    by_cases ha : a = address
    · subst ha
      exact ho p (hself.symm.trans hp)
    · have hother : (s.set address o w).instances a = s.instances a := Function.update_of_ne ha ..
      exact h a p (hother.symm.trans hp)
  cases action with
  | create address =>
    obtain ⟨-, ht⟩ := Option.ite_none_right_eq_some.mp ht
    cases ht
    apply hset
    intro p hp
    cases hp
    exact WebLinkedPlugin.settled_of_none rfl rfl rfl rfl .nil fun _ ↦ nofun
  | setFloat address index value =>
    obtain ⟨p, hp, rfl⟩ := Option.map_eq_some_iff.mp ht
    apply hset
    intro q hq
    cases hq
    apply (h address p hp).of_params
    cases index <;> rfl
  | setText address index value =>
    obtain ⟨p, hp, rfl⟩ := Option.map_eq_some_iff.mp ht
    apply hset
    intro q hq
    cases hq
    apply (h address p hp).of_params
    cases index <;> rfl
  | process address =>
    obtain ⟨p, hp, rfl⟩ := Option.map_eq_some_iff.mp ht
    apply hset
    intro q hq
    cases hq
    exact (p.reconcileHelper_spec turns s.world (h address p hp)).1
  | deInit address =>
    obtain ⟨p, hp, rfl⟩ := Option.map_eq_some_iff.mp ht
    apply hset
    intro q hq
    cases hq
    exact (p.deInitGL_spec turns s.world (h address p hp)).1
  | destroy address =>
    obtain ⟨p, hp, rfl⟩ := Option.map_eq_some_iff.mp ht
    exact hset none _ _ nofun

theorem settled_reachable (h : (machine turns).Reachable s) :
    ∀ a p, s.instances a = some p → p.Settled a := by
  apply h.invariant
  · rintro t rfl a p hp
    cases hp
  · intro t action u _ ht hu
    exact settled_step action ht hu

theorem Owned.told_ne_none (h : Owned turns s) (hp : s.instances address = some p)
    (hpid : p.helper.pid ≠ 0) : s.world.told p.helper.pid ≠ none := by
  obtain ⟨k, hk, -⟩ := h.held address p hp hpid
  rw [hk]
  nofun

/-- An instance and its helper among the others. -/
theorem Owned.sole (h : Owned turns s) (hp : s.instances address = some p) :
    Sole turns (s.heldElsewhere address) s.world.told p.helper s.world where
  held := h.held address p hp
  apart := by
    rintro hpid ⟨-, a, q, ha, hq, heq⟩
    exact ha (h.apart a address q p hq hp (heq ▸ hpid) heq)
  view := by
    rintro pid ⟨hpid, a, q, -, hq, rfl⟩
    exact ⟨.inl rfl, h.told_ne_none hq hpid⟩
  left := by
    intro pid hpid
    obtain ⟨htold, hno⟩ := h.left pid hpid
    refine ⟨htold, ?_, fun heq ↦ hno address p hp heq.symm⟩
    rintro ⟨-, a, q, -, hq, heq⟩
    exact hno a q hq heq
  kept := by
    intro pid htold
    rcases h.kept pid htold with ⟨a, q, hq, rfl⟩ | ha
    · by_cases haddress : a = address
      · rw [haddress, hp] at hq
        cases hq
        exact .inr (.inl rfl)
      · have hpid : q.helper.pid ≠ 0 := fun hz ↦ htold (hz ▸ h.zero)
        exact .inl ⟨hpid, a, q, haddress, hq, rfl⟩
    · exact .inr (.inr ha)
  zero := h.zero
  clean := h.clean
  blame := h.blame

/-- An instance is replaced or taken away after what its helper did among the others. -/
theorem Inv.set (h : Inv turns s) {o : Option WebLinkedPlugin} {helper : Helper}
    (hsole : Sole turns (s.heldElsewhere address) s.world.told helper w')
    (hsome : ∀ p, o = some p → p.helper = helper ∧ (p.helper.pid ≠ 0 → p.Shows w'))
    (hnone : o = none → helper.pid = 0) : Inv turns (s.set address o w') := by
  have hself : (s.set address o w').instances address = o := Function.update_self ..
  have hother {a : ℕ} (ha : a ≠ address) : (s.set address o w').instances a = s.instances a :=
    Function.update_of_ne ha ..
  have helsewhere {a : ℕ} {q : WebLinkedPlugin} (ha : a ≠ address) (hq : s.instances a = some q)
      (hpid : q.helper.pid ≠ 0) : s.heldElsewhere address q.helper.pid := ⟨hpid, a, q, ha, hq, rfl⟩
  refine ⟨⟨?_, ?_, ?_, ?_, hsole.zero, hsole.clean, hsole.blame⟩, ?_⟩
  · intro a q hq hpid
    by_cases ha : a = address
    · rw [ha, hself] at hq
      rw [(hsome q hq).1] at hpid ⊢
      exact hsole.held hpid
    · rw [hother ha] at hq
      -- of another's helper the owner is still known
      obtain ⟨k, hk, howner⟩ := h.owned.held a q hq hpid
      have hworn := (hsole.view _ (helsewhere ha hq hpid)).1
      rw [hk] at hworn
      rcases hworn with hsame | hless
      · exact ⟨k, hsame, howner⟩
      · exact ⟨_, hless, howner⟩
  · intro a b q r hq hr hpid heq
    by_cases ha : a = address
    · by_cases hb : b = address
      · rw [ha, hb]
      · rw [ha, hself] at hq
        rw [hother hb] at hr
        rw [(hsome q hq).1] at hpid heq
        exact absurd (heq ▸ helsewhere hb hr (heq ▸ hpid)) (hsole.apart hpid)
    · rw [hother ha] at hq
      by_cases hb : b = address
      · rw [hb, hself] at hr
        rw [(hsome r hr).1] at heq
        exact absurd (heq ▸ helsewhere ha hq hpid) (hsole.apart (heq ▸ hpid))
      · rw [hother hb] at hr
        exact h.owned.apart a b q r hq hr hpid heq
  · intro pid hp
    obtain ⟨htold, hno, hne⟩ := hsole.left pid hp
    refine ⟨htold, fun a q hq heq ↦ ?_⟩
    by_cases ha : a = address
    · rw [ha, hself] at hq
      rw [(hsome q hq).1] at heq
      exact hne heq.symm
    · rw [hother ha] at hq
      have hpid : q.helper.pid ≠ 0 := fun hz ↦ htold (heq ▸ hz ▸ hsole.zero)
      exact hno (heq ▸ helsewhere ha hq hpid)
  · intro pid htold
    rcases hsole.kept pid htold with ⟨-, a, q, ha, hq, heq⟩ | hpid | habandoned
    · refine .inl ⟨a, q, ?_, heq⟩
      rw [hother ha]
      exact hq
    · cases ho : o with
      | none =>
        rw [hpid, hnone ho] at htold
        exact absurd hsole.zero htold
      | some q =>
        refine .inl ⟨address, q, ?_, ?_⟩
        · rw [← ho]
          exact hself
        · rw [(hsome q ho).1, hpid]
    · exact .inr habandoned
  · intro a q hq hpid
    by_cases ha : a = address
    · rw [ha, hself] at hq
      exact (hsome q hq).2 hpid
    · rw [hother ha] at hq
      exact (h.shows a q hq hpid).worn (hsole.view _ (helsewhere ha hq hpid)).1

/-- No helper among those of the instances there are. -/
theorem Owned.sole_none (h : Owned turns s) (hp : s.instances address = none) :
    Sole turns (s.heldElsewhere address) s.world.told { owner := address } s.world where
  held := fun hne ↦ absurd rfl hne
  apart := fun hne ↦ absurd rfl hne
  view := by
    rintro pid ⟨hpid, a, q, -, hq, rfl⟩
    exact ⟨.inl rfl, h.told_ne_none hq hpid⟩
  left := by
    intro pid hpid
    obtain ⟨htold, hno⟩ := h.left pid hpid
    refine ⟨htold, ?_, fun hz ↦ htold (hz ▸ h.zero)⟩
    rintro ⟨-, a, q, -, hq, heq⟩
    exact hno a q hq heq
  kept := by
    intro pid htold
    rcases h.kept pid htold with ⟨a, q, hq, rfl⟩ | habandoned
    · refine .inl ⟨fun hz ↦ htold (hz ▸ h.zero), a, q, ?_, hq, rfl⟩
      rintro rfl
      rw [hp] at hq
      cases hq
    · exact .inr (.inr habandoned)
  zero := h.zero
  clean := h.clean
  blame := h.blame

/-- An instance and what its helper shows. -/
theorem Inv.holds (h : Inv turns s) (hp : s.instances address = some p) :
    p.Holds turns (s.heldElsewhere address) s.world.told s.world :=
  ⟨h.owned.sole hp, h.shows address p hp⟩

/-- No action breaks what holds of a host. -/
theorem inv_step (hreaped : ∀ n, (turns n).reaped = []) {t : Host} (a : Action)
    (hsettled : ∀ a p, s.instances a = some p → p.Settled a) (h : Inv turns s)
    (ht : s.step turns a = some t) : Inv turns t := by
  cases a with
  | create address =>
    obtain ⟨hp, ht⟩ := Option.ite_none_right_eq_some.mp ht
    cases ht
    refine h.set (h.owned.sole_none hp) ?_ nofun
    intro q hq
    cases hq
    exact ⟨rfl, fun hne ↦ absurd rfl hne⟩
  | setFloat address index value =>
    obtain ⟨p, hp, rfl⟩ := Option.map_eq_some_iff.mp ht
    refine h.set (h.owned.sole hp) ?_ nofun
    intro q hq
    cases hq
    have hshows := h.shows address p hp
    cases index <;> exact ⟨rfl, hshows⟩
  | setText address index value =>
    obtain ⟨p, hp, rfl⟩ := Option.map_eq_some_iff.mp ht
    refine h.set (h.owned.sole hp) ?_ nofun
    intro q hq
    cases hq
    have hshows := h.shows address p hp
    cases index <;> exact ⟨rfl, hshows⟩
  | process address =>
    obtain ⟨p, hp, rfl⟩ := Option.map_eq_some_iff.mp ht
    obtain ⟨-, -, -, -, hholds⟩ :=
      p.reconcileHelper_spec turns s.world (hsettled address p hp)
    have hheld := hholds hreaped _ _ (h.holds hp)
    refine h.set hheld.sole ?_ nofun
    intro q hq
    cases hq
    exact ⟨rfl, hheld.shows⟩
  | deInit address =>
    obtain ⟨p, hp, rfl⟩ := Option.map_eq_some_iff.mp ht
    obtain ⟨-, hnone, hkeeps⟩ := p.deInitGL_spec turns s.world (hsettled address p hp)
    refine h.set (hkeeps hreaped _ _ (h.owned.sole hp)) ?_ nofun
    intro q hq
    cases hq
    exact ⟨rfl, fun hne ↦ absurd hnone hne⟩
  | destroy address =>
    obtain ⟨p, hp, rfl⟩ := Option.map_eq_some_iff.mp ht
    exact h.set ((h.owned.sole hp).stop hreaped) nofun fun _ ↦ p.helper.pid_stop turns s.world

/-- What holds of a host in any run in which nobody else waits for the helpers. -/
theorem inv_reachable (hreaped : ∀ n, (turns n).reaped = [])
    (h : (machine turns).Reachable s) : Inv turns s := by
  have hboth : (∀ a p, s.instances a = some p → p.Settled a) ∧ Inv turns s := by
    apply h.invariant (I := fun s ↦ (∀ a p, s.instances a = some p → p.Settled a) ∧ Inv turns s)
    · rintro t rfl
      have hno (a : ℕ) (p : WebLinkedPlugin) : ({} : Host).instances a ≠ some p :=
        (Option.some_ne_none p).symm
      refine ⟨fun a p hp ↦ absurd hp (hno a p), ⟨?_, ?_, ?_, ?_, rfl, rfl, ?_⟩, ?_⟩
      · exact fun a p hp ↦ absurd hp (hno a p)
      · exact fun a _ p _ hp ↦ absurd hp (hno a p)
      · exact fun pid hp ↦ absurd hp List.not_mem_nil
      · exact fun pid htold ↦ absurd rfl htold
      · exact fun hne ↦ absurd rfl hne
      · exact fun a p hp ↦ absurd hp (hno a p)
    · intro t a u _ ht hu
      exact ⟨settled_step a ht.1 hu, inv_step hreaped a ht.1 ht.2 hu⟩
  exact hboth.2

end Steps

/-! ## What the operator can rely on -/

section Runs

open WebLinked.App WebLinked.App.Arguments

variable {turns : ℕ → Moment} {s t : Host}

/-- Whatever the host does with its instances, every process it has is the helper of one of them and
of no other, unless a wait for it was interrupted; the helper of an instance is a process that it
has started itself, and so is every process it sends a signal to. -/
theorem helpers_owned (hreaped : ∀ n, (turns n).reaped = []) (h : (machine turns).Reachable s) :
    s.world.stray = [] ∧
      (∀ a p, s.instances a = some p → p.helper.pid ≠ 0 →
        ∃ child, s.world.children p.helper.pid = some child ∧ child.owner = a) ∧
      (∀ pid, (s.world.children pid).isSome → pid ∉ s.world.abandoned →
        ∃! a, ∃ p, s.instances a = some p ∧ p.helper.pid = pid) ∧
      (∀ pid ∈ s.world.abandoned, ∀ a p, s.instances a = some p → p.helper.pid ≠ pid) ∧
      ((∀ n, (turns n).interrupted = false) → s.world.abandoned = []) := by
  have howned := (inv_reachable hreaped h).owned
  have hthere (pid : Pid) : (s.world.children pid).isSome ↔ s.world.told pid ≠ none := by
    rw [ne_eq, World.told_eq_none, Option.isSome_iff_ne_none]
  refine ⟨howned.clean, ?_, ?_, ?_, ?_⟩
  · intro a p hp hpid
    obtain ⟨k, hk, howner⟩ := howned.held a p hp hpid
    obtain ⟨child, hchild, rfl⟩ := Option.map_eq_some_iff.mp hk
    exact ⟨child, hchild, howner.trans (settled_reachable h a p hp).owner⟩
  · intro pid hpid hleft
    have htold := (hthere pid).mp hpid
    rcases howned.kept pid htold with ⟨a, p, hp, rfl⟩ | habandoned
    · refine ⟨a, ⟨p, hp, rfl⟩, ?_⟩
      rintro b ⟨q, hq, heq⟩
      have hzero : q.helper.pid ≠ 0 := fun hz ↦ htold (heq ▸ hz ▸ howned.zero)
      exact howned.apart b a q p hq hp hzero heq
    · exact absurd habandoned hleft
  · intro pid hpid
    exact (howned.left pid hpid).2
  · intro hnever
    by_contra hne
    obtain ⟨n, hn⟩ := howned.blame hne
    rw [hnever n] at hn
    cases hn

/-- The helper of one instance that was given a URL. -/
theorem helpers_owned_one :
    ∃ s, (machine fun n ↦ { spawned := .ok (n + 1) }).Reachable s ∧
      (s.instances 16).map (fun p ↦ p.helper.pid) = some 3 ∧
      ∀ pid, (s.world.children pid).isSome →
        ∃! a, ∃ p, s.instances a = some p ∧ p.helper.pid = pid := by
  let turns : ℕ → Moment := fun n ↦ { spawned := .ok (n + 1) }
  let actions : List Action := [.create 16, .setText 16 .url (some "http://a/"), .process 16]
  have hpid : ((machine turns).run {} actions).map
      (fun s ↦ (s.instances 16).map fun p ↦ p.helper.pid) = some (some 3) := by decide +kernel
  obtain ⟨s, hs, hpid⟩ := Option.map_eq_some_iff.mp hpid
  have h := Machine.Reachable.run (.init rfl) actions hs
  obtain ⟨-, -, howned, -, hnone⟩ := helpers_owned (fun _ ↦ rfl) h
  rw [hnone fun _ ↦ rfl] at howned
  exact ⟨s, h, hpid, fun pid hthere ↦ howned pid hthere List.not_mem_nil⟩

/-- Between any two starts of an instance's helper there is a cause: a frame that did not want one,
or one that was let go of, that had ended, had another name, or did not take its URL. -/
theorem starts_spaced (h : (machine turns).Reachable s) {address : ℕ} {p : WebLinkedPlugin}
    (hp : s.instances address = some p) (before after : List Event) :
    p.log ≠ before ++ .started :: .started :: after := by
  intro hlog
  have hspaced := (settled_reachable h address p hp).spaced
  rw [hlog] at hspaced
  exact (List.isChain_append_cons_cons.mp hspaced).2.1 ⟨rfl, rfl⟩

/-- A helper that ended. -/
theorem starts_spaced_ended :
    ∃ s p, (machine fun n ↦ { spawned := .ok (n + 1), exits := [3] }).Reachable s ∧
      s.instances 16 = some p ∧ p.log = [.started, .ended, .started] ∧
      ∀ before after, p.log ≠ before ++ .started :: .started :: after := by
  let turns : ℕ → Moment := fun n ↦ { spawned := .ok (n + 1), exits := [3] }
  let actions : List Action :=
    [.create 16, .setText 16 .url (some "http://a/"), .process 16, .process 16]
  have hlog : ((machine turns).run {} actions).map
      (fun s ↦ (s.instances 16).map fun p ↦ p.log) =
      some (some [.started, .ended, .started]) := by decide +kernel
  obtain ⟨s, hs, hlog⟩ := Option.map_eq_some_iff.mp hlog
  obtain ⟨p, hp, hlog⟩ := Option.map_eq_some_iff.mp hlog
  have h := Machine.Reachable.run (.init rfl) actions hs
  exact ⟨s, p, h, hp, hlog, starts_spaced h hp⟩

/-- Two instances' helpers are started under one name only if the addresses end alike. -/
theorem names_apart (hreaped : ∀ n, (turns n).reaped = []) (h : (machine turns).Reachable s)
    {a b : ℕ} {p q : WebLinkedPlugin} (ha : s.instances a = some p) (hb : s.instances b = some q)
    {binary binary' first first' name : String} {port port' : ℕ}
    (hp : (s.world.children p.helper.pid).map Child.arguments =
      some (arguments binary first name port))
    (hq : (s.world.children q.helper.pid).map Child.arguments =
      some (arguments binary' first' name port')) : a % 2 ^ 24 = b % 2 ^ 24 := by
  have hinv := inv_reachable hreaped h
  have hnamed {a : ℕ} {p : WebLinkedPlugin} (ha : s.instances a = some p) {binary first : String}
      {port : ℕ} (hp : (s.world.children p.helper.pid).map Child.arguments =
        some (arguments binary first name port)) :
      ∃ stem, name = stem ++ String.ofList (suffix a) := by
    have hsettled := settled_reachable h a p ha
    obtain ⟨child, hchild, harguments⟩ := Option.map_eq_some_iff.mp hp
    have hpid : p.helper.pid ≠ 0 := by
      intro hz
      have hzero := hinv.owned.zero
      rw [World.told_eq_none, ← hz, hchild] at hzero
      cases hzero
    obtain ⟨-, binary', first', taken, htold, -⟩ := hinv.shows a p ha hpid
    rw [World.told, hchild] at htold
    have hknown := (Known.mk.inj (Option.some.inj htold)).2.1
    have hname := arguments_inj (hknown.symm.trans harguments)
    rw [← hname]
    exact hsettled.named fun he ↦ hpid (hsettled.name.mpr he)
  obtain ⟨stem, hstem⟩ := hnamed ha hp
  obtain ⟨stem', hstem'⟩ := hnamed hb hq
  exact suffix_inj (hstem.symm.trans hstem')

/-- Two instances whose addresses end alike, and one name. -/
theorem names_apart_alike :
    ∃ s p q, (machine fun n ↦ { spawned := .ok (n + 1) }).Reachable s ∧
      s.instances 16 = some p ∧ s.instances (16 + 2 ^ 24) = some q ∧
      p.helper.pid ≠ q.helper.pid ∧ 16 % 2 ^ 24 = (16 + 2 ^ 24) % 2 ^ 24 := by
  let turns : ℕ → Moment := fun n ↦ { spawned := .ok (n + 1) }
  let actions : List Action := [.create 16, .setText 16 .url (some "http://a/"), .process 16,
    .create (16 + 2 ^ 24), .setText (16 + 2 ^ 24) .url (some "http://b/"), .process (16 + 2 ^ 24)]
  let binary := "/Applications/WebLinked.app/Contents/MacOS/WebLinked"
  let started (s : Host) (address : ℕ) :=
    (s.instances address).map fun p ↦ (s.world.children p.helper.pid).map Child.arguments
  have hstarted : ((machine turns).run {} actions).map
      (fun s ↦ [started s 16, started s (16 + 2 ^ 24)]) =
      some [some (some (arguments binary "http://a/" "WebLinked-10" 0)),
        some (some (arguments binary "http://b/" "WebLinked-10" 0))] := by
    decide +kernel
  obtain ⟨s, hs, hstarted⟩ := Option.map_eq_some_iff.mp hstarted
  obtain ⟨hfirst, hsecond⟩ := List.cons_eq_cons.mp hstarted
  obtain ⟨p, hp, hfirst⟩ := Option.map_eq_some_iff.mp hfirst
  obtain ⟨q, hq, hsecond⟩ := Option.map_eq_some_iff.mp (List.singleton_inj.mp hsecond)
  have h := Machine.Reachable.run (.init rfl) actions hs
  refine ⟨s, p, q, h, hp, hq, fun hpid ↦ ?_, names_apart (fun _ ↦ rfl) h hp hq hfirst hsecond⟩
  rw [hpid, hsecond] at hfirst
  exact absurd hfirst (by decide)

end Runs

end WebLinked.Plugin
