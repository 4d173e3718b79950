import WebLinked.App.Arguments
import WebLinked.Plugin.Request

/-!
# The plugin's helper

`plugin/source/Helper.cpp`. Between any two calls of the host's processes others may exit, and the
host may wait for them behind the plugin's back: what has happened by a call, and what the call
meets, is a moment, and there is one for every call. A request goes to a port, and whoever listens
there takes it.
-/

namespace WebLinked.Plugin

open WebLinked.App.Arguments (toText initial parseArguments)

/-! ## The host's processes -/

/-- `pid_t`. No process has the number 0. -/
abbrev Pid := ℕ

/-- A process the host has started and nobody has waited for. Not in the code are `owner`, the
instance whose helper started it; `taken`, the URL of the last request it took; and `astray`: since
it last took a request of that helper, it took one of another's, or another process accepted one
of that helper's. -/
structure Child where
  owner : ℕ
  arguments : List String
  taken : Option String := none
  astray : Bool := false
  exited : Bool := false

/-- Who listens at a port. -/
inductive Listener where
  | nobody
  /-- A process that is none of the host's. -/
  | stranger
  | process (pid : Pid)

/-- What `findBinary` looks at: `WEBLINKED_BINARY`, `HOME`, and what is executable. -/
structure Files where
  binary : Option String := none
  home : Option String := none
  executable : String → Bool := fun _ ↦ true

/-- What has happened by a call: who has exited and whom the host has waited for. And what the call
meets, if it is about that: the files, the port that was bound, what `posix_spawn` gives, who
listens at the port of a request, what became of it and whether it was taken, and whether a wait was
interrupted. -/
structure Moment where
  exits : List Pid := []
  reaped : List Pid := []
  files : Files := {}
  bound : Option UInt16 := none
  spawned : Except String Pid := .error ""
  listener : Listener := .nobody
  exchanged : Exchanged := {}
  takes : Bool := false
  interrupted : Bool := false

/-- The host's processes by their numbers, and how many calls there were. Not in the code are the
signals that were not for a process which the sender's helper had started, each with its sender, and
the processes that were left by a wait that was interrupted. -/
structure World where
  clock : ℕ := 0
  children : Pid → Option Child := fun _ ↦ none
  stray : List (ℕ × Pid) := []
  abandoned : List Pid := []

/-- The port that a process listens at, by its command line. -/
def portOf (arguments : List String) : Option ℤ :=
  match parseArguments (initial arguments.tail) arguments.tail with
  | .ok command => some command.scan.control.httpPort
  | .error _ => none

/-- A process can answer at a port. -/
def Child.answers (child : Child) (port : ℕ) : Bool :=
  !child.exited && portOf child.arguments == some (port : ℤ)

/-- What an instance can tell of a process: whose it is, its arguments, and the last URL it took,
unless a request went astray since. -/
structure Known where
  owner : ℕ
  arguments : List String
  taken : Option (Option String)

def Child.known (child : Child) : Known :=
  { owner := child.owner, arguments := child.arguments
    taken := if child.astray then none else some child.taken }

/-- What is left of a process by a moment. -/
def Child.after (moment : Moment) (pid : Pid) (child : Child) : Option Child :=
  let child := { child with exited := child.exited || pid ∈ moment.exits }
  if child.exited ∧ pid ∈ moment.reaped then none else some child

namespace World

/-- The processes as a call finds them. -/
def pass (w : World) (moment : Moment) : World :=
  { w with
    clock := w.clock + 1
    children := fun pid ↦ (w.children pid).bind (Child.after moment pid) }

/-- One process is there, or is not any more. -/
def set (w : World) (pid : Pid) (child : Option Child) : World :=
  { w with children := Function.update w.children pid child }

/-- What can be told of a process. -/
def told (w : World) (pid : Pid) : Option Known := (w.children pid).map Child.known

/-- A request of the helper whose process this is has gone astray. -/
def mislead (w : World) (pid : Pid) : World :=
  w.set pid ((w.children pid).map fun child ↦ { child with astray := true })

end World

section Calls

variable (turns : ℕ → Moment)

/-- The processes as the next call finds them. -/
def World.next (w : World) : World := w.pass (turns w.clock)

/-- `kill`, called by the helper of an instance. -/
def World.kill (w : World) (sender : ℕ) (pid : Pid) : World :=
  let w := w.next turns
  if (w.children pid).any (·.owner == sender) then w
  else { w with stray := (sender, pid) :: w.stray }

/-- `waitpid` with `WNOHANG`: 0 while the process runs, its number once, and less where there is no
such process. -/
def World.waitpid (w : World) (pid : Pid) : ℤ × World :=
  let w := w.next turns
  match w.children pid with
  | none => (-1, w)
  | some child => if child.exited then (pid, w.set pid none) else (0, w)

/-- `waitpid` without it, of a process that has been killed. -/
def World.wait (w : World) (pid : Pid) : World :=
  let interrupted := (turns w.clock).interrupted
  let w := w.next turns
  if (w.children pid).isNone then w
  else if interrupted then { w with abandoned := pid :: w.abandoned }
  else w.set pid none

/-- `posix_spawn`, called by the helper of an instance. A number that a process has is not given to
another. -/
def World.posixSpawn (w : World) (owner : ℕ) (arguments : List String) :
    Except String Pid × World :=
  let spawned := (turns w.clock).spawned
  let w := w.next turns
  match spawned with
  | .error text => (.error text, w)
  | .ok pid =>
    if pid = 0 ∨ (w.children pid).isSome then (.error "Resource temporarily unavailable", w)
    else (.ok pid, w.set pid (some { owner, arguments }))

/-- `postLocal` to a port, by the helper whose process has the number. Whoever listens at the port
answers. What a process of the host answers with 200 it has taken; what it does not answer so it may
have taken. -/
def World.post (w : World) (pid : Pid) (port : ℕ) (url : String) : Bool × World :=
  let moment := turns w.clock
  let w := w.next turns
  let ok := postLocal port "/api/url".toList (urlBody url) moment.exchanged
  match moment.listener with
  | .nobody => (false, w)
  | .stranger => (ok, if ok then w.mislead pid else w)
  | .process listener =>
    match w.children listener with
    | none => (false, w)
    | some child =>
      if !child.answers port then (false, w)
      else if !(ok || moment.takes) then (ok, w)
      else
        let own := listener == pid
        let w := w.set listener (some { child with taken := some url, astray := !own })
        (ok, if ok && !own then w.mislead pid else w)

end Calls

/-! ## The helper -/

/-- `fileIsExecutable`; `plugin/source/Helper.cpp:22`. -/
def fileIsExecutable (files : Files) (path : String) : Bool := path ≠ "" && files.executable path

/-- `Helper::findBinary`; `plugin/source/Helper.cpp:129`. -/
def findBinary (files : Files) : String :=
  let installed := "/Applications/WebLinked.app/Contents/MacOS/WebLinked"
  let candidates := files.binary.toList ++ installed :: (files.home.map (· ++ installed)).toList
  (candidates.find? (fileIsExecutable files)).getD ""

/-- `freePort`, 0 where there is none; `plugin/source/Helper.cpp:35`. -/
def freePort (moment : Moment) : ℕ := (moment.bound.map UInt16.toNat).getD 0

/-- A port is one. -/
theorem freePort_lt (moment : Moment) : freePort moment < 2 ^ 16 := by
  rw [freePort]
  cases moment.bound with
  | none => exact Nat.two_pow_pos 16
  | some port => exact port.toNat_lt

/-- The command line of a helper; `plugin/source/Helper.cpp:174–188`. -/
def arguments (binary url sourceName : String) (port : ℕ) : List String :=
  [binary, "--url", url, "--syphon=" ++ sourceName, "--headless", "--no-settings"] ++
    if port ≠ 0 then ["--port", toText port] else []

/-- `Helper`; `plugin/source/Helper.h:27`. Not in the code is `owner`, the address of the instance
it belongs to. -/
structure Helper where
  owner : ℕ := 0
  pid : Pid := 0
  port : ℕ := 0
  sourceName : String := ""

section Functions

variable (turns : ℕ → Moment)

/-- The polls of `stop` that are left, and what comes after the last;
`plugin/source/Helper.cpp:233–243`. -/
def World.reap (sender : ℕ) (pid : Pid) : ℕ → World → World
  | 0, w => (w.kill turns sender pid).wait turns pid
  | attempts + 1, w =>
    let (reaped, w) := w.waitpid turns pid
    if reaped = pid ∨ reaped < 0 then w else World.reap sender pid attempts w

namespace Helper

/-- `stop`; `plugin/source/Helper.cpp:220`. -/
def stop (h : Helper) (w : World) : Helper × World :=
  if h.pid = 0 then (h, w)
  else
    ({ h with pid := 0, port := 0 }, (w.kill turns h.owner h.pid).reap turns h.owner h.pid 100)

/-- `start`, with its error if it fails; `plugin/source/Helper.cpp:158`. -/
def start (h : Helper) (w : World) (url sourceName : String) : Option String × Helper × World :=
  let (h, w) := h.stop turns w
  let binary := findBinary (turns w.clock).files
  let w := w.next turns
  if binary = "" then
    (some ("WebLinked not found. Install it to /Applications, or set " ++
      "WEBLINKED_BINARY to the executable."), h, w)
  else
    let port := freePort (turns w.clock)
    let w := w.next turns
    let h := { h with port, sourceName }
    match w.posixSpawn turns h.owner (arguments binary url sourceName port) with
    | (.error text, w) => (some ("could not start WebLinked: " ++ text), { h with port := 0 }, w)
    | (.ok pid, w) => (none, { h with pid }, w)

/-- `alive`; `plugin/source/Helper.cpp:246`. -/
def alive (h : Helper) (w : World) : Bool × Helper × World :=
  if h.pid = 0 then (false, h, w)
  else
    let (reaped, w) := w.waitpid turns h.pid
    if reaped = 0 then (true, h, w) else (false, { h with pid := 0, port := 0 }, w)

/-- `setUrl`; `plugin/source/Helper.cpp:261`. -/
def setUrl (h : Helper) (w : World) (url : String) : Bool × World :=
  if h.pid = 0 ∨ h.port = 0 then (false, w) else w.post turns h.pid h.port url

end Helper
end Functions

/-! ## What a helper is started as -/

section CommandLine

open WebLinked.App WebLinked.App.Arguments

end CommandLine

/-! ## What a call does to the processes -/

namespace World

/-- Nothing that is seen of the processes has changed. -/
structure Same (w w' : World) : Prop where
  told : w'.told = w.told
  stray : w'.stray = w.stray
  abandoned : w'.abandoned = w.abandoned

/-- A process has been waited for. -/
structure Gone (pid : Pid) (w w' : World) : Prop where
  told : w'.told = Function.update w.told pid none
  stray : w'.stray = w.stray
  abandoned : w'.abandoned = w.abandoned

/-- A wait for a process was interrupted. -/
structure Left (turns : ℕ → Moment) (pid : Pid) (w w' : World) : Prop where
  told : w'.told = w.told
  stray : w'.stray = w.stray
  abandoned : w'.abandoned = pid :: w.abandoned
  interrupted : ∃ n, (turns n).interrupted = true

/-- No more is known of a process than it was, and no less but for what it took. -/
def Worn (x y : Option Known) : Prop := y = x ∨ y = x.map fun k ↦ { k with taken := none }

theorem Worn.ne_none {x y : Option Known} (h : Worn x y) : y ≠ none ↔ x ≠ none := by
  rcases h with rfl | rfl
  · exact Iff.rfl
  · exact Option.map_eq_none_iff.not

theorem Worn.trans {x y z : Option Known} (h : Worn x y) (h' : Worn y z) : Worn x z := by
  rcases h' with rfl | rfl
  · exact h
  · rcases h with rfl | rfl
    · exact .inr rfl
    · rw [Option.map_map]
      exact .inr rfl

variable {turns : ℕ → Moment} {w w' w'' : World} {pid : Pid}

theorem Same.refl (w : World) : Same w w := ⟨rfl, rfl, rfl⟩

theorem Same.trans (h : Same w w') (h' : Same w' w'') : Same w w'' :=
  ⟨h'.told.trans h.told, h'.stray.trans h.stray, h'.abandoned.trans h.abandoned⟩

theorem Same.gone (h : Same w w') (h' : Gone pid w' w'') : Gone pid w w'' :=
  ⟨by rw [h'.told, h.told], h'.stray.trans h.stray, h'.abandoned.trans h.abandoned⟩

theorem Same.left (h : Same w w') (h' : Left turns pid w' w'') : Left turns pid w w'' :=
  ⟨h'.told.trans h.told, h'.stray.trans h.stray, by rw [h'.abandoned, h.abandoned], h'.interrupted⟩

/-- A process is known of as long as it is there. -/
theorem told_eq_none : w.told pid = none ↔ w.children pid = none := Option.map_eq_none_iff

/-- What is known of a process that is put there. -/
theorem told_set (w : World) (pid : Pid) (child : Option Child) :
    (w.set pid child).told =
      Function.update w.told pid (child.map Child.known) := by
  funext q
  show Option.map _ (Function.update w.children pid child q) = _
  by_cases hq : q = pid
  · rw [hq, Function.update_self, Function.update_self]
  · rw [Function.update_of_ne hq, Function.update_of_ne hq, told]

/-- Of a process whose requests went astray it is not known what it took. -/
theorem told_mislead (w : World) (pid : Pid) :
    (w.mislead pid).told =
      Function.update w.told pid ((w.told pid).map fun k ↦ { k with taken := none }) := by
  rw [mislead, told_set, told, Option.map_map, Option.map_map]
  rfl

/-- While the host waits for nobody, time alone changes nothing that is seen. -/
theorem same_next (hreaped : ∀ n, (turns n).reaped = []) (w : World) : Same w (w.next turns) := by
  refine ⟨funext fun pid ↦ ?_, rfl, rfl⟩
  show ((w.children pid).bind (Child.after (turns w.clock) pid)).map _ = (w.children pid).map _
  cases w.children pid with
  | none => rfl
  | some child =>
    rw [Option.bind_some, Child.after, hreaped, if_neg (by simp)]
    rfl

theorem posixSpawn_ne_zero {owner : ℕ} {arguments : List String}
    (h : (w.posixSpawn turns owner arguments).1 = .ok pid) : pid ≠ 0 := by
  rw [posixSpawn] at h
  cases hspawned : (turns w.clock).spawned with
  | error text =>
    rw [hspawned] at h
    cases h
  | ok number =>
    rw [hspawned] at h
    dsimp only at h
    split at h
    · cases h
    · next hfree =>
      cases h
      exact fun hzero ↦ hfree (.inl hzero)

/-- Of the processes of others a request that goes astray is all that happens. The one it is meant
for keeps its arguments; what is known of it once the request has been accepted is that URL. -/
structure Posted (pid : Pid) (url : String) (ok : Bool) (w w' : World) : Prop where
  worn : ∀ q, q ≠ pid → Worn (w.told q) (w'.told q)
  own : ∀ k, w.told pid = some k → ∃ taken, w'.told pid = some { k with taken } ∧
    (ok = true → ∀ last, taken = some last → last = some url)
  stray : w'.stray = w.stray
  abandoned : w'.abandoned = w.abandoned

/-- Nobody took the request, and nobody is believed to have. -/
private theorem Posted.refused (hsame : Same w w') (url : String) : Posted pid url false w w' where
  worn := fun q _ ↦ .inl (congrFun hsame.told q)
  own := fun k hk ↦ ⟨k.taken, (congrFun hsame.told pid).trans hk, nofun⟩
  stray := hsame.stray
  abandoned := hsame.abandoned

/-- A process has taken a request that was not its helper's. -/
private theorem Posted.other (hsame : Same w w') {listener : Pid} (hne : listener ≠ pid)
    {child : Child} (hchild : w'.children listener = some child) (url : String) :
    Posted pid url false w
      (w'.set listener (some { child with taken := some url, astray := true })) where
  worn := by
    intro q _
    rw [told_set, hsame.told]
    by_cases hq : q = listener
    · subst hq
      right
      rw [Function.update_self, ← hsame.told, told, hchild]
      rfl
    · rw [Function.update_of_ne hq]
      exact .inl rfl
  own := by
    intro k hk
    refine ⟨k.taken, ?_, nofun⟩
    rw [told_set, hsame.told, Function.update_of_ne hne.symm]
    exact hk
  stray := hsame.stray
  abandoned := hsame.abandoned

/-- The helper's process has taken the request. -/
private theorem Posted.own_taken (hsame : Same w w') {child : Child}
    (hchild : w'.children pid = some child) (url : String) (ok : Bool) :
    Posted pid url ok w
      (w'.set pid (some { child with taken := some url, astray := false })) where
  worn := by
    intro q hq
    rw [told_set, hsame.told, Function.update_of_ne hq]
    exact .inl rfl
  own := by
    intro k hk
    rw [← hsame.told, told, hchild] at hk
    cases hk
    refine ⟨some (some url), ?_, fun _ last hlast ↦ (Option.some.inj hlast).symm⟩
    rw [told_set, Function.update_self]
    rfl
  stray := hsame.stray
  abandoned := hsame.abandoned

/-- The helper is believed to have taken what it has not. -/
private theorem Posted.mislead {url : String} (h : Posted pid url false w w') (ok : Bool) :
    Posted pid url ok w (w'.mislead pid) where
  worn := by
    intro q hq
    rw [told_mislead, Function.update_of_ne hq]
    exact h.worn q hq
  own := by
    intro k hk
    obtain ⟨taken, htold, -⟩ := h.own k hk
    refine ⟨none, ?_, nofun⟩
    rw [told_mislead, Function.update_self, htold]
    rfl
  stray := h.stray
  abandoned := h.abandoned

variable (hreaped : ∀ n, (turns n).reaped = [])

include hreaped

/-- A signal to a process that the sender started changes nothing that is seen. -/
theorem same_kill {sender : ℕ} {k : Known} (hk : w.told pid = some k) (howner : k.owner = sender) :
    Same w (w.kill turns sender pid) := by
  have hsame := same_next hreaped w
  have hthere : (w.next turns).told pid = some k := by
    rw [hsame.told]
    exact hk
  obtain ⟨child, hchild, rfl⟩ := Option.map_eq_some_iff.mp hthere
  rw [kill, hchild, if_pos]
  · exact hsame
  · rw [Option.any_some, beq_iff_eq]
    exact howner

/-- A poll finds the process running, or the process is waited for. -/
theorem waitpid_cases (hpid : w.told pid ≠ none) :
    ((w.waitpid turns pid).1 = 0 ∧ Same w (w.waitpid turns pid).2) ∨
      ((w.waitpid turns pid).1 = pid ∧ Gone pid w (w.waitpid turns pid).2) := by
  have hsame := same_next hreaped w
  rw [waitpid]
  cases hchild : (w.next turns).children pid with
  | none =>
    rw [← told_eq_none, hsame.told] at hchild
    exact absurd hchild hpid
  | some child =>
    dsimp only
    by_cases hexited : child.exited = true
    · rw [if_pos hexited]
      exact .inr ⟨rfl, by rw [told_set, hsame.told, Option.map_none], hsame.stray, hsame.abandoned⟩
    · rw [if_neg hexited]
      exact .inl ⟨rfl, hsame⟩

/-- A wait ends with the process, unless it is interrupted. -/
theorem wait_cases (hpid : w.told pid ≠ none) :
    Gone pid w (w.wait turns pid) ∨ Left turns pid w (w.wait turns pid) := by
  have hsame := same_next hreaped w
  have hthere : ¬ ((w.next turns).children pid).isNone = true := by
    rw [Option.isNone_iff_eq_none, ← told_eq_none, hsame.told]
    exact hpid
  rw [wait, if_neg hthere]
  by_cases hinterrupted : (turns w.clock).interrupted = true
  · rw [if_pos hinterrupted]
    exact .inr ⟨hsame.told, hsame.stray, congrArg (pid :: ·) hsame.abandoned, _, hinterrupted⟩
  · rw [if_neg hinterrupted]
    exact .inl ⟨by rw [told_set, hsame.told, Option.map_none], hsame.stray, hsame.abandoned⟩

/-- The polls of `stop`, and what comes after them, end with the process, unless the last wait is
interrupted. -/
theorem reap_cases {sender : ℕ} {k : Known} (hk : w.told pid = some k) (howner : k.owner = sender)
    (hzero : pid ≠ 0) (attempts : ℕ) :
    Gone pid w (World.reap turns sender pid attempts w) ∨
      Left turns pid w (World.reap turns sender pid attempts w) := by
  have hpid {w : World} (hk : w.told pid = some k) : w.told pid ≠ none := by
    rw [hk]
    nofun
  induction attempts generalizing w with
  | zero =>
    have hkill := same_kill hreaped hk howner
    rw [World.reap]
    rcases wait_cases hreaped (hpid (hkill.told ▸ hk)) with h | h
    · exact .inl (hkill.gone h)
    · exact .inr (hkill.left h)
  | succ attempts ih =>
    rw [World.reap]
    dsimp only
    rcases waitpid_cases hreaped (hpid hk) with ⟨hpoll, hsame⟩ | ⟨hpoll, hgone⟩
    · have hgo : ¬ ((0 : ℤ) = pid ∨ (0 : ℤ) < 0) := by
        rintro (h | h)
        · exact hzero (Int.natCast_eq_zero.mp h.symm)
        · exact absurd h (lt_irrefl 0)
      rw [hpoll, if_neg hgo]
      rcases ih (w := (w.waitpid turns pid).2) (by rw [hsame.told]; exact hk) with h | h
      · exact .inl (hsame.gone h)
      · exact .inr (hsame.left h)
    · rw [if_pos (.inl hpoll)]
      exact .inl hgone

/-- A process is started under a number that no process has, or nothing changes that is seen. -/
theorem posixSpawn_cases (owner : ℕ) (arguments : List String) :
    (∃ text, (w.posixSpawn turns owner arguments).1 = .error text ∧
        Same w (w.posixSpawn turns owner arguments).2) ∨
      ∃ pid, (w.posixSpawn turns owner arguments).1 = .ok pid ∧ pid ≠ 0 ∧ w.told pid = none ∧
        (w.posixSpawn turns owner arguments).2.told =
          Function.update w.told pid (some { owner, arguments, taken := some none }) ∧
        (w.posixSpawn turns owner arguments).2.stray = w.stray ∧
        (w.posixSpawn turns owner arguments).2.abandoned = w.abandoned := by
  have hsame := same_next hreaped w
  rw [posixSpawn]
  cases (turns w.clock).spawned with
  | error text => exact .inl ⟨text, rfl, hsame⟩
  | ok pid =>
    dsimp only
    by_cases hused : pid = 0 ∨ ((w.next turns).children pid).isSome = true
    · rw [if_pos hused]
      exact .inl ⟨_, rfl, hsame⟩
    · rw [if_neg hused]
      obtain ⟨hzero, hfree⟩ := not_or.mp hused
      refine .inr ⟨pid, rfl, hzero, ?_, ?_, hsame.stray, hsame.abandoned⟩
      · rw [← hsame.told, told_eq_none]
        exact Option.not_isSome_iff_eq_none.mp hfree
      · rw [told_set, hsame.told]
        rfl

/-- What a request does to the processes. -/
theorem posted (pid : Pid) (port : ℕ) (url : String) :
    Posted pid url (w.post turns pid port url).1 w (w.post turns pid port url).2 := by
  have hsame := same_next hreaped w
  have hrefused : Posted pid url false w (w.next turns) := .refused hsame url
  rw [post]
  generalize postLocal port _ _ _ = ok
  cases (turns w.clock).listener with
  | nobody => exact hrefused
  | stranger =>
    cases ok with
    | false => exact hrefused
    | true => exact hrefused.mislead true
  | process listener =>
    dsimp only
    cases hlistener : (w.next turns).children listener with
    | none => exact hrefused
    | some child =>
      dsimp only
      split
      · exact hrefused
      · split
        · next htaken =>
          have hok : ok = false := by
            cases ok with
            | false => rfl
            | true => exact absurd htaken (by simp)
          subst hok
          exact hrefused
        · by_cases hown : listener = pid
          · subst hown
            simp only [beq_self_eq_true, Bool.not_true, Bool.and_false, Bool.false_eq_true,
              if_false]
            exact .own_taken hsame hlistener url ok
          · have hother := Posted.other hsame hown hlistener url
            simp only [beq_eq_false_iff_ne.mpr hown, Bool.not_false, Bool.and_true]
            cases ok with
            | false => exact hother
            | true => exact hother.mislead true

end World

/-! ## What a helper does to the processes -/

namespace Helper

variable (turns : ℕ → Moment) (h : Helper) (w : World)

/-- `stop` leaves no number. -/
theorem pid_stop : (h.stop turns w).1.pid = 0 := by
  rw [stop]
  by_cases hpid : h.pid = 0
  · rw [if_pos hpid]
    exact hpid
  · rw [if_neg hpid]

@[simp] theorem owner_stop : (h.stop turns w).1.owner = h.owner := by
  rw [stop]
  split <;> rfl

@[simp] theorem owner_alive : (h.alive turns w).2.1.owner = h.owner := by
  rw [alive]
  split
  · rfl
  · dsimp only
    split <;> rfl

/-- A helper that runs has a number, and keeps what it has. -/
theorem alive_true (hruns : (h.alive turns w).1 = true) :
    (h.alive turns w).2.1 = h ∧ h.pid ≠ 0 := by
  rw [alive] at hruns ⊢
  by_cases hpid : h.pid = 0
  · rw [if_pos hpid] at hruns
    cases hruns
  · rw [if_neg hpid] at hruns ⊢
    dsimp only at hruns ⊢
    split at hruns
    · next hzero =>
      rw [if_pos hzero]
      exact ⟨rfl, hpid⟩
    · cases hruns

/-- One that does not run has none any more. -/
theorem alive_false (hruns : (h.alive turns w).1 = false) : (h.alive turns w).2.1.pid = 0 := by
  rw [alive] at hruns ⊢
  by_cases hpid : h.pid = 0
  · rw [if_pos hpid]
    exact hpid
  · rw [if_neg hpid] at hruns ⊢
    dsimp only at hruns ⊢
    split at hruns
    · cases hruns
    · next hzero => rw [if_neg hzero]

@[simp] theorem owner_start (url sourceName : String) :
    (h.start turns w url sourceName).2.1.owner = h.owner := by
  rw [start]
  dsimp only
  split
  · exact h.owner_stop turns w
  · split <;> exact h.owner_stop turns w

/-- A helper that was started has a number, and one that was not has none. -/
theorem pid_start (url sourceName : String) :
    (h.start turns w url sourceName).1 = none ↔ (h.start turns w url sourceName).2.1.pid ≠ 0 := by
  have hnone := h.pid_stop turns w
  rw [start]
  dsimp only
  split
  · exact ⟨nofun, fun hpid ↦ absurd hnone hpid⟩
  · split
    · exact ⟨nofun, fun hpid ↦ absurd hnone hpid⟩
    · next hspawned =>
      refine ⟨fun _ ↦ World.posixSpawn_ne_zero (congrArg Prod.fst hspawned), fun _ ↦ rfl⟩

end Helper

/-- Of the host's processes each is one of `others`, or one that the helper has started, or was left
by a wait that was interrupted; of `others` no more is known than `view` says, and all but what they
took; and no signal has gone astray. -/
structure Sole (turns : ℕ → Moment) (others : Pid → Prop) (view : Pid → Option Known) (h : Helper)
    (w : World) : Prop where
  held : h.pid ≠ 0 → ∃ k, w.told h.pid = some k ∧ k.owner = h.owner
  apart : h.pid ≠ 0 → ¬ others h.pid
  view : ∀ pid, others pid → World.Worn (view pid) (w.told pid) ∧ w.told pid ≠ none
  left : ∀ pid ∈ w.abandoned, w.told pid ≠ none ∧ ¬ others pid ∧ pid ≠ h.pid
  kept : ∀ pid, w.told pid ≠ none → others pid ∨ pid = h.pid ∨ pid ∈ w.abandoned
  zero : w.told 0 = none
  clean : w.stray = []
  blame : w.abandoned ≠ [] → ∃ n, (turns n).interrupted = true

namespace Sole

variable {others : Pid → Prop} {view : Pid → Option Known} {turns : ℕ → Moment} {h h' : Helper}
  {w w' : World}

theorem told_ne_none (hs : Sole turns others view h w) (hpid : h.pid ≠ 0) :
    w.told h.pid ≠ none := by
  obtain ⟨k, hk, -⟩ := hs.held hpid
  rw [hk]
  nofun

/-- Only the number of the helper counts, and whose it is. -/
theorem congr (hs : Sole turns others view h w) (hsame : w.Same w') (hpid : h'.pid = h.pid)
    (howner : h'.owner = h.owner) : Sole turns others view h' w' where
  held := by rw [hpid, howner, hsame.told]; exact hs.held
  apart := by rw [hpid]; exact hs.apart
  view := by rw [hsame.told]; exact hs.view
  left := by rw [hsame.abandoned, hsame.told, hpid]; exact hs.left
  kept := by rw [hsame.abandoned, hsame.told, hpid]; exact hs.kept
  zero := by rw [hsame.told]; exact hs.zero
  clean := hsame.stray.trans hs.clean
  blame := by rw [hsame.abandoned]; exact hs.blame

/-- The helper has been waited for. -/
theorem gone (hs : Sole turns others view h w) (hgone : w.Gone h.pid w') (hheld : h.pid ≠ 0)
    (hpid : h'.pid = 0) : Sole turns others view h' w' where
  held := fun hne ↦ absurd hpid hne
  apart := fun hne ↦ absurd hpid hne
  view := by
    intro pid ho
    have hne : pid ≠ h.pid := fun heq ↦ hs.apart hheld (heq ▸ ho)
    rw [hgone.told, Function.update_of_ne hne]
    exact hs.view pid ho
  left := by
    intro pid hp
    rw [hgone.abandoned] at hp
    obtain ⟨htold, ho, hne⟩ := hs.left pid hp
    rw [hgone.told, Function.update_of_ne hne, hpid]
    exact ⟨htold, ho, fun hz ↦ htold (hz ▸ hs.zero)⟩
  kept := by
    intro pid htold
    rw [hgone.told] at htold
    have hne : pid ≠ h.pid := by
      rintro rfl
      exact htold (Function.update_self _ _ _)
    rw [Function.update_of_ne hne] at htold
    rw [hgone.abandoned]
    rcases hs.kept pid htold with ho | hp | ha
    · exact .inl ho
    · exact absurd hp hne
    · exact .inr (.inr ha)
  zero := by
    rw [hgone.told, Function.update_of_ne hheld.symm]
    exact hs.zero
  clean := hgone.stray.trans hs.clean
  blame := by rw [hgone.abandoned]; exact hs.blame

/-- The wait for the helper was interrupted. -/
theorem abandon (hs : Sole turns others view h w) (hleft : World.Left turns h.pid w w')
    (hheld : h.pid ≠ 0) (hpid : h'.pid = 0) : Sole turns others view h' w' where
  held := fun hne ↦ absurd hpid hne
  apart := fun hne ↦ absurd hpid hne
  view := by rw [hleft.told]; exact hs.view
  left := by
    rw [hleft.abandoned, hleft.told, hpid]
    intro pid hp
    rcases List.mem_cons.mp hp with rfl | hp
    · exact ⟨hs.told_ne_none hheld, hs.apart hheld, hheld⟩
    · obtain ⟨htold, ho, -⟩ := hs.left pid hp
      exact ⟨htold, ho, fun hz ↦ htold (hz ▸ hs.zero)⟩
  kept := by
    rw [hleft.abandoned, hleft.told]
    intro pid htold
    rcases hs.kept pid htold with ho | hp | ha
    · exact .inl ho
    · exact .inr (.inr (hp ▸ List.mem_cons_self))
    · exact .inr (.inr (List.mem_cons_of_mem _ ha))
  zero := by rw [hleft.told]; exact hs.zero
  clean := hleft.stray.trans hs.clean
  blame := fun _ ↦ hleft.interrupted

/-- A request was posted for the helper. -/
theorem post {url : String} {ok : Bool} (hs : Sole turns others view h w)
    (hposted : World.Posted h.pid url ok w w') (hheld : h.pid ≠ 0) :
    Sole turns others view h w' := by
  obtain ⟨k, hk, howner⟩ := hs.held hheld
  obtain ⟨taken, hself, -⟩ := hposted.own k hk
  constructor
  · exact fun _ ↦ ⟨_, hself, howner⟩
  · exact hs.apart
  · intro pid ho
    have hworn := hposted.worn pid fun heq ↦ hs.apart hheld (heq ▸ ho)
    obtain ⟨hview, hthere⟩ := hs.view pid ho
    exact ⟨hview.trans hworn, hworn.ne_none.mpr hthere⟩
  · intro pid hp
    rw [hposted.abandoned] at hp
    obtain ⟨hthere, ho, hne⟩ := hs.left pid hp
    exact ⟨(hposted.worn pid hne).ne_none.mpr hthere, ho, hne⟩
  · intro pid hp
    rw [hposted.abandoned]
    by_cases hpid : pid = h.pid
    · exact .inr (.inl hpid)
    · exact hs.kept pid ((hposted.worn pid hpid).ne_none.mp hp)
  · by_contra hzero
    exact (hposted.worn 0 hheld.symm).ne_none.mp hzero hs.zero
  · exact hposted.stray.trans hs.clean
  · rw [hposted.abandoned]
    exact hs.blame

/-- A helper has been started where there was none. -/
theorem spawned (hs : Sole turns others view h w) (hnone : h.pid = 0) (hfree : w.told h'.pid = none)
    (hheld : h'.pid ≠ 0) {k : Known} (howner : k.owner = h'.owner)
    (htold : w'.told = Function.update w.told h'.pid (some k)) (hstray : w'.stray = w.stray)
    (habandoned : w'.abandoned = w.abandoned) : Sole turns others view h' w' := by
  have hother (pid : Pid) (hp : w.told pid ≠ none) : w'.told pid = w.told pid ∧ pid ≠ h'.pid := by
    have hne : pid ≠ h'.pid := fun heq ↦ hp (heq ▸ hfree)
    rw [htold, Function.update_of_ne hne]
    exact ⟨rfl, hne⟩
  constructor
  · intro _
    rw [htold, Function.update_self]
    exact ⟨k, rfl, howner⟩
  · exact fun _ ho ↦ (hs.view _ ho).2 hfree
  · intro pid ho
    rw [(hother pid (hs.view pid ho).2).1]
    exact hs.view pid ho
  · intro pid hp
    rw [habandoned] at hp
    obtain ⟨hp, ho, -⟩ := hs.left pid hp
    obtain ⟨hsame, hne⟩ := hother pid hp
    rw [hsame]
    exact ⟨hp, ho, hne⟩
  · intro pid hp
    rw [habandoned]
    by_cases hpid : pid = h'.pid
    · exact .inr (.inl hpid)
    · rw [htold, Function.update_of_ne hpid] at hp
      rcases hs.kept pid hp with ho | hp' | ha
      · exact .inl ho
      · rw [hp', hnone] at hp
        exact absurd hs.zero hp
      · exact .inr (.inr ha)
  · rw [htold, Function.update_of_ne hheld.symm]
    exact hs.zero
  · exact hstray.trans hs.clean
  · rw [habandoned]
    exact hs.blame

variable (hreaped : ∀ n, (turns n).reaped = [])

include hreaped

/-- `stop` ends the helper. -/
theorem stop (hs : Sole turns others view h w) :
    Sole turns others view (h.stop turns w).1 (h.stop turns w).2 := by
  rw [Helper.stop]
  by_cases hpid : h.pid = 0
  · rw [if_pos hpid]
    exact hs
  · rw [if_neg hpid]
    obtain ⟨k, hk, howner⟩ := hs.held hpid
    have hkill := World.same_kill hreaped hk howner
    rcases World.reap_cases (w := w.kill turns h.owner h.pid) hreaped (hkill.told ▸ hk) howner hpid
      100 with hgone | hleft
    · exact hs.gone (hkill.gone hgone) hpid rfl
    · exact hs.abandon (hkill.left hleft) hpid rfl

/-- `alive` changes nothing while the helper runs. -/
theorem alive (hs : Sole turns others view h w) :
    Sole turns others view (h.alive turns w).2.1 (h.alive turns w).2.2 ∧
      ((h.alive turns w).1 = true → w.Same (h.alive turns w).2.2) := by
  rw [Helper.alive]
  by_cases hpid : h.pid = 0
  · rw [if_pos hpid]
    exact ⟨hs, nofun⟩
  · rw [if_neg hpid]
    have hpoll := World.waitpid_cases hreaped (hs.told_ne_none hpid)
    generalize w.waitpid turns h.pid = polled at hpoll ⊢
    obtain ⟨reaped, w'⟩ := polled
    rcases hpoll with ⟨rfl, hsame⟩ | ⟨rfl, hgone⟩
    · dsimp only
      rw [if_pos rfl]
      exact ⟨hs.congr hsame rfl rfl, fun _ ↦ hsame⟩
    · dsimp only
      rw [if_neg (Int.natCast_eq_zero.not.mpr hpid)]
      exact ⟨hs.gone hgone hpid rfl, nofun⟩

/-- After `setUrl` the helper's arguments are what they were, and of a helper that is believed to
have taken the URL nothing else is known. -/
theorem setUrl (hs : Sole turns others view h w) (url : String) :
    Sole turns others view h (h.setUrl turns w url).2 ∧
      ∀ k, w.told h.pid = some k → (h.setUrl turns w url).1 = true →
        ∃ taken, (h.setUrl turns w url).2.told h.pid = some { k with taken } ∧
          ∀ last, taken = some last → last = some url := by
  rw [Helper.setUrl]
  by_cases hport : h.pid = 0 ∨ h.port = 0
  · rw [if_pos hport]
    exact ⟨hs, nofun⟩
  · rw [if_neg hport]
    have hpid := (not_or.mp hport).1
    have hposted := World.posted (w := w) hreaped h.pid h.port url
    refine ⟨hs.post hposted hpid, fun k hk hok ↦ ?_⟩
    obtain ⟨taken, htold, hlast⟩ := hposted.own k hk
    exact ⟨taken, htold, hlast hok⟩

/-- `start` leaves a helper with its command line, or none. -/
theorem start (hs : Sole turns others view h w) (url sourceName : String) :
    Sole turns others view (h.start turns w url sourceName).2.1
        (h.start turns w url sourceName).2.2 ∧
      ((h.start turns w url sourceName).1 = none →
        (h.start turns w url sourceName).2.1.port < 2 ^ 16 ∧ ∃ binary,
          (h.start turns w url sourceName).2.2.told (h.start turns w url sourceName).2.1.pid =
            some { owner := h.owner
                   arguments := arguments binary url sourceName
                     (h.start turns w url sourceName).2.1.port
                   taken := some none }) := by
  have hstop := hs.stop hreaped
  have hnone := h.pid_stop turns w
  have howner := h.owner_stop turns w
  rw [Helper.start]
  generalize h.stop turns w = stopped at hstop hnone howner ⊢
  obtain ⟨h', w⟩ := stopped
  have hfound : Sole turns others view h' (w.next turns) :=
    hstop.congr (World.same_next hreaped w) rfl rfl
  dsimp only at howner ⊢
  by_cases hbinary : findBinary (turns w.clock).files = ""
  · rw [if_pos hbinary]
    exact ⟨hfound, nofun⟩
  · rw [if_neg hbinary]
    have hbound : Sole turns others view h' ((w.next turns).next turns) :=
      hfound.congr (World.same_next hreaped (w.next turns)) rfl rfl
    have hspawn := World.posixSpawn_cases (w := (w.next turns).next turns) hreaped h'.owner
      (arguments (findBinary (turns w.clock).files) url sourceName
        (freePort (turns (w.next turns).clock)))
    generalize ((w.next turns).next turns).posixSpawn turns _ _ = spawned at hspawn ⊢
    obtain ⟨result, w'⟩ := spawned
    rcases hspawn with ⟨text, rfl, hsame⟩ | ⟨pid, rfl, hpid, hfree, htold, hstray, habandoned⟩
    · exact ⟨hbound.congr hsame rfl rfl, nofun⟩
    · have hself := congrFun htold pid
      rw [Function.update_self, howner] at hself
      exact ⟨hbound.spawned hnone hfree hpid rfl htold hstray habandoned,
        fun _ ↦ ⟨freePort_lt _, _, hself⟩⟩

end Sole

end WebLinked.Plugin
