import WebLinked.Base.AllBut
import WebLinked.Browser.BrowserSource

/-!
# What the UI thread makes of a source

`src/browser/browser_source.cpp:110–150`, `src/browser/render_client.cpp:267–296`. At any time
a source that is left to the UI thread is in one of a few phases, and each of its steps leads
to the same phase or to the next.
-/

namespace WebLinked.Browser.BrowserSource

open WebLinked.Base

variable {s t : State}

/-- The task creates a browser. -/
def Task.reopens : Task → Bool
  | .reopen _ _ _ => true
  | _ => false

/-- What a browser shows once the queued navigations have run. -/
def urlAfter (c : Nat) : String → List Task → String
  | url, [] => url
  | url, .load b url' :: tasks => urlAfter c (if b = c then url' else url) tasks
  | url, _ :: tasks => urlAfter c url tasks

/-- Navigations queued later run later. -/
@[simp] theorem urlAfter_append (c : Nat) (url : String) (tasks rest : List Task) :
    urlAfter c url (tasks ++ rest) = urlAfter c (urlAfter c url tasks) rest := by
  induction tasks generalizing url with
  | nil => rfl
  | cons task tasks ih => cases task <;> simp [urlAfter, ih]

/-- The browser is closing or gone. -/
def CefBrowser.over (b : CefBrowser) : Bool := b.stage = .closing || b.stage = .gone

/-- A browser that is over stays so when it is closed. -/
theorem over_close {x : CefBrowser} (h : x.over) : x.close.over := by
  cases hs : x.stage <;> simp_all [CefBrowser.over, CefBrowser.close]

/-- A live browser is over once it is closed. -/
theorem over_close_of_live {x : CefBrowser} (h : x.stage = .live) : x.close.over := by
  simp [CefBrowser.over, CefBrowser.close, h]

/-- Every browser but one is over. -/
abbrev Alone (browsers : List CefBrowser) (c : Nat) (b : CefBrowser) : Prop :=
  AllBut (fun x ↦ x.over = true) browsers c b

section Phases

variable {browser : Option Nat} {browsers : List CefBrowser} {tasks : List Task} {c : Nat}
  {b : CefBrowser}

/-- Only navigations are queued, in browsers asked for before `bound`. -/
def Loads (bound : Nat) (tasks : List Task) : Prop :=
  ∀ task ∈ tasks, ∃ i url, task = .load i url ∧ i < bound

/-- Not opened. -/
structure Blank (browser : Option Nat) (browsers : List CefBrowser) (tasks : List Task) :
    Prop where
  client : browser = none
  browsers : browsers = []
  tasks : tasks = []

/-- One browser, with nothing but navigations ahead of it. -/
structure Steady (browser : Option Nat) (browsers : List CefBrowser) (tasks : List Task)
    (c : Nat) (b : CefBrowser) : Prop where
  client : browser = some c
  alone : Alone browsers c b
  live : b.stage = .live
  loads : Loads browsers.length tasks

/-- One browser, and the task that closes it and asks for the next one. -/
structure Replacing (s : State) (c : Nat) (b : CefBrowser) : Prop where
  client : s.browser = some c
  alone : Alone s.browsers c b
  live : b.stage = .live
  tasks : ∃ loads, s.tasks = loads ++ [.reopen c s.pacing s.url] ∧ Loads s.browsers.length loads

/-- A browser has been asked for, and only navigations of earlier ones are queued. -/
structure Creating (s : State) (c : Nat) (b : CefBrowser) : Prop where
  client : s.browser ≠ some c
  alone : Alone s.browsers c b
  stage : b.stage = .creating
  loads : Loads c s.tasks
  pacing : b.pacing = s.pacing
  url : b.url = s.url

/-- Every browser is over, or a queued task will close it. -/
structure Shut (browsers : List CefBrowser) (tasks : List Task) : Prop where
  doomed : ∀ i x, browsers[i]? = some x → x.over ∨ x.stage = .live ∧ .close i ∈ tasks
  tasks : ∀ task ∈ tasks, task.reopens = false

/-- What only callers change. -/
structure Framed (s t : State) : Prop where
  pacing : t.pacing = s.pacing
  url : t.url = s.url
  calls : t.calls = s.calls
  opened : t.opened = s.opened
  closed : t.closed = s.closed

/-- A step of the UI thread. -/
inductive Reacts (s t : State) : Prop
  | ran : s.runTask true = some t → Reacts s t
  | created (i : Nat) : s.onAfterCreated i = some t → Reacts s t
  | closed (i : Nat) : s.onBeforeClose i = some t → Reacts s t

/-- The first of some navigations, and the rest. -/
theorem loads_of_cons {bound : Nat} {task : Task} (h : Loads bound (task :: tasks)) :
    (∃ i url, task = .load i url ∧ i < bound) ∧ Loads bound tasks :=
  ⟨h task List.mem_cons_self, fun _ hm ↦ h _ (List.mem_cons_of_mem _ hm)⟩

/-- Nothing queued is no navigation. -/
theorem loads_nil {bound : Nat} : Loads bound [] := nofun

/-- Navigations of earlier browsers leave this one alone. -/
theorem urlAfter_loads {url : String} (h : Loads c tasks) :
    urlAfter c url tasks = url := by
  induction tasks with
  | nil => rfl
  | cons task tasks ih =>
    obtain ⟨⟨i, url', rfl, hi⟩, hrest⟩ := loads_of_cons h
    rw [urlAfter, if_neg (by omega)]
    exact ih hrest

/-- `onAfterCreated` makes a browser that was awaited live, and the client's. -/
theorem created_spec {i : Nat} (h : s.onAfterCreated i = some t) :
    ∃ x, s.browsers[i]? = some x ∧ x.stage = .creating ∧
      t = { s with browser := some i, browsers := s.browsers.set i { x with stage := .live } } := by
  obtain ⟨x, hx, h⟩ := Option.bind_eq_some_iff.mp h
  split at h <;> cases h
  exact ⟨x, hx, by assumption, rfl⟩

/-- `onBeforeClose` takes a closing browser away, and the client's reference to it. -/
theorem closed_spec {i : Nat} (h : s.onBeforeClose i = some t) :
    ∃ x, s.browsers[i]? = some x ∧ x.stage = .closing ∧
      t = { s with
        browser := s.browser.filter (· ≠ i)
        browsers := s.browsers.set i { x with stage := .gone } } := by
  obtain ⟨x, hx, h⟩ := Option.bind_eq_some_iff.mp h
  split at h <;> cases h
  exact ⟨x, hx, by assumption, rfl⟩

/-- `runTask` performs the oldest task. -/
theorem ran_spec (h : s.runTask true = some t) :
    ∃ task tasks, s.tasks = task :: tasks ∧ t = { s with tasks }.perform true task := by
  unfold State.runTask at h
  split at h
  · next task tasks ht =>
    cases h
    exact ⟨task, tasks, ht, rfl⟩
  · cases h

/-- A task leaves alone what only callers change. -/
theorem framed_perform (s : State) (created : Bool) (task : Task) :
    Framed s (s.perform created task) := by
  cases task with
  | reopen => cases created <;> exact ⟨rfl, rfl, rfl, rfl, rfl⟩
  | close | load => exact ⟨rfl, rfl, rfl, rfl, rfl⟩

/-- So does every step of the UI thread. -/
theorem Reacts.framed (h : Reacts s t) : Framed s t := by
  cases h with
  | ran h =>
    obtain ⟨task, tasks, -, rfl⟩ := ran_spec h
    have hf := framed_perform { s with tasks } true task
    exact ⟨hf.pacing, hf.url, hf.calls, hf.opened, hf.closed⟩
  | created i h =>
    obtain ⟨x, -, -, rfl⟩ := created_spec h
    exact ⟨rfl, rfl, rfl, rfl, rfl⟩
  | closed i h =>
    obtain ⟨x, -, -, rfl⟩ := closed_spec h
    exact ⟨rfl, rfl, rfl, rfl, rfl⟩

/-- Before `open` the UI thread has nothing to do. -/
theorem Blank.quiet (h : Blank s.browser s.browsers s.tasks) : ¬ Reacts s t := by
  intro hr
  cases hr with
  | ran hr =>
    obtain ⟨task, tasks, ht, -⟩ := ran_spec hr
    rw [h.tasks] at ht
    cases ht
  | created i hr =>
    obtain ⟨x, hx, -⟩ := created_spec hr
    simp [h.browsers] at hx
  | closed i hr =>
    obtain ⟨x, hx, -⟩ := closed_spec hr
    simp [h.browsers] at hx

/-- A steady source stays so, in the same pacing and on its way to the same URL. -/
theorem Steady.reacts (h : Steady s.browser s.browsers s.tasks c b) (hr : Reacts s t) :
    ∃ b', Steady t.browser t.browsers t.tasks c b' ∧ b'.pacing = b.pacing ∧
      urlAfter c b'.url t.tasks = urlAfter c b.url s.tasks ∧ (s.tasks = [] → t.tasks = []) := by
  cases hr with
  | ran hr =>
    obtain ⟨task, tasks, ht, rfl⟩ := ran_spec hr
    have hloads := h.loads
    rw [ht] at hloads ⊢
    obtain ⟨⟨i, url, rfl, -⟩, hrest⟩ := loads_of_cons hloads
    have halone := h.alone.modify i (f := fun browser ↦ { browser with url }) fun _ hx ↦ hx
    refine ⟨_, ⟨h.client, halone, ?_, ?_⟩, ?_, ?_, nofun⟩
    · split <;> exact h.live
    · rwa [State.perform, State.navigate, List.length_modify]
    · split <;> rfl
    · by_cases hi : i = c <;> simp [urlAfter, hi, State.perform, State.navigate]
  | created i hr =>
    obtain ⟨x, hx, hstage, rfl⟩ := created_spec hr
    obtain ⟨-, rfl⟩ := h.alone.eq_of_not hx (by simp [CefBrowser.over, hstage])
    rw [h.live] at hstage
    cases hstage
  | closed i hr =>
    obtain ⟨x, hx, hstage, rfl⟩ := closed_spec hr
    have hi : i ≠ c := h.alone.ne_of_ne hx (by rintro rfl; simp [h.live] at hstage)
    refine ⟨b, ⟨?_, h.alone.set_other hi rfl, h.live, ?_⟩, rfl, rfl, id⟩
    · simp [h.client, Ne.symm hi]
    · rw [List.length_set]
      exact h.loads

/-- The browser asked for is awaited, or has arrived. -/
theorem Creating.reacts (h : Creating s c b) (hr : Reacts s t) :
    Creating t c b ∨ ∃ b', Steady t.browser t.browsers t.tasks c b' ∧ b'.pacing = t.pacing ∧
      urlAfter c b'.url t.tasks = t.url := by
  cases hr with
  | ran hr =>
    obtain ⟨task, tasks, ht, rfl⟩ := ran_spec hr
    have hloads := h.loads
    rw [ht] at hloads
    obtain ⟨⟨i, url, rfl, hi⟩, hrest⟩ := loads_of_cons hloads
    have halone := h.alone.modify i (f := fun browser ↦ { browser with url }) fun _ hx ↦ hx
    rw [if_neg (by omega)] at halone
    exact Or.inl ⟨h.client, halone, h.stage, hrest, h.pacing, h.url⟩
  | created i hr =>
    obtain ⟨x, hx, hstage, rfl⟩ := created_spec hr
    obtain ⟨rfl, rfl⟩ := h.alone.eq_of_not hx (by simp [CefBrowser.over, hstage])
    have hlt := h.alone.lt_length
    right
    refine ⟨_, ⟨rfl, h.alone.set_self _, rfl, ?_⟩, h.pacing, (urlAfter_loads h.loads).trans h.url⟩
    intro task hm
    obtain ⟨j, url, rfl, hj⟩ := h.loads task hm
    exact ⟨j, url, rfl, by rw [List.length_set]; omega⟩
  | closed i hr =>
    obtain ⟨x, hx, hstage, rfl⟩ := closed_spec hr
    have hi : i ≠ c := h.alone.ne_of_ne hx (by rintro rfl; simp [h.stage] at hstage)
    left
    refine ⟨fun hc ↦ ?_, h.alone.set_other hi rfl, h.stage, h.loads, h.pacing, h.url⟩
    exact h.client (Option.filter_eq_some_iff.mp hc).1

/-- The replacement is queued, or has been asked for. -/
theorem Replacing.reacts (h : Replacing s c b) (hr : Reacts s t) :
    (∃ b', Replacing t c b') ∨ ∃ c' b', Creating t c' b' := by
  obtain ⟨loads, htasks, hloads⟩ := h.tasks
  have hlt := h.alone.lt_length
  cases hr with
  | ran hr =>
    obtain ⟨task, tasks, ht, rfl⟩ := ran_spec hr
    rw [htasks] at ht
    cases loads with
    | nil =>
      cases ht
      right
      have hclosed := h.alone.modify c (f := CefBrowser.close) fun _ ↦ over_close
      rw [if_pos rfl] at hclosed
      refine ⟨_, _, ?_, hclosed.append (over_close_of_live h.live) _, rfl, loads_nil, rfl, rfl⟩
      simp [State.perform, State.createOffscreenBrowser, State.closeBrowser, h.client]
      omega
    | cons first loads =>
      cases ht
      left
      obtain ⟨⟨i, url, rfl, -⟩, hrest⟩ := loads_of_cons hloads
      have halone := h.alone.modify i (f := fun browser ↦ { browser with url }) fun _ hx ↦ hx
      refine ⟨_, h.client, halone, ?_, loads, rfl, ?_⟩
      · split <;> exact h.live
      · rwa [State.perform, State.navigate, List.length_modify]
  | created i hr =>
    obtain ⟨x, hx, hstage, rfl⟩ := created_spec hr
    obtain ⟨-, rfl⟩ := h.alone.eq_of_not hx (by simp [CefBrowser.over, hstage])
    rw [h.live] at hstage
    cases hstage
  | closed i hr =>
    obtain ⟨x, hx, hstage, rfl⟩ := closed_spec hr
    have hi : i ≠ c := h.alone.ne_of_ne hx (by rintro rfl; simp [h.live] at hstage)
    left
    refine ⟨b, ?_, h.alone.set_other hi rfl, h.live, loads, htasks, ?_⟩
    · simp [h.client, Ne.symm hi]
    · rwa [List.length_set]

/-- A task that is due closes what it dooms. -/
theorem Shut.perform {task : Task} (h : Shut s.browsers (task :: s.tasks)) :
    Shut (s.perform true task).browsers (s.perform true task).tasks := by
  have hrest : ∀ task ∈ s.tasks, task.reopens = false :=
    fun task hm ↦ h.tasks task (List.mem_cons_of_mem _ hm)
  cases task with
  | reopen => cases h.tasks _ List.mem_cons_self
  | load i url =>
    refine ⟨fun j x hx ↦ ?_, hrest⟩
    simp only [State.perform, State.navigate, List.getElem?_modify] at hx
    obtain ⟨y, hy, rfl⟩ := Option.map_eq_some_iff.mp hx
    have hj := h.doomed j y hy
    simp only [List.mem_cons, reduceCtorEq, false_or] at hj
    split <;> exact hj
  | close i =>
    refine ⟨fun j x hx ↦ ?_, hrest⟩
    simp only [State.perform, State.closeBrowser, List.getElem?_modify] at hx
    obtain ⟨y, hy, rfl⟩ := Option.map_eq_some_iff.mp hx
    rcases h.doomed j y hy with hj | ⟨hlive, hm⟩
    · split
      · exact Or.inl (over_close hj)
      · exact Or.inl hj
    · split
      · exact Or.inl (over_close_of_live hlive)
      · next hne =>
        simp only [List.mem_cons, Task.close.injEq, Ne.symm hne, false_or] at hm
        exact Or.inr ⟨hlive, hm⟩

/-- Run at once or queued, the task is done in the end. -/
theorem Shut.onUiThread {task : Task} (h : Shut s.browsers (task :: s.tasks)) (ui : Bool) :
    Shut (s.onUiThread ui true task).browsers (s.onUiThread ui true task).tasks := by
  cases ui with
  | true => exact h.perform
  | false =>
    refine ⟨fun i x hx ↦ ?_, fun task' hm ↦ h.tasks task' ?_⟩
    · exact (h.doomed i x hx).imp_right fun ⟨hl, hm⟩ ↦ ⟨hl, by simpa [State.onUiThread, or_comm] using hm⟩
    · simpa [State.onUiThread, or_comm] using hm

/-- A task that creates nothing dooms nothing less. -/
theorem Shut.cons {task : Task} (h : Shut browsers tasks) (ht : task.reopens = false) :
    Shut browsers (task :: tasks) := by
  constructor
  · intro i x hx
    exact (h.doomed i x hx).imp_right fun ⟨hl, hm⟩ ↦ ⟨hl, List.mem_cons_of_mem _ hm⟩
  · intro task' hm
    rcases List.mem_cons.mp hm with rfl | hm
    · exact ht
    · exact h.tasks task' hm

/-- A queued `close` dooms the one browser. -/
theorem Steady.shut (h : Steady browser browsers tasks c b) :
    Shut browsers (.close c :: tasks) := by
  constructor
  · intro i x hx
    by_cases hi : i = c
    · subst hi
      rw [h.alone.here] at hx
      cases hx
      exact Or.inr ⟨h.live, List.mem_cons_self⟩
    · exact Or.inl (h.alone.others i x hx hi)
  · intro task hm
    rcases List.mem_cons.mp hm with rfl | hm
    · rfl
    · obtain ⟨i, url, rfl, -⟩ := h.loads task hm
      rfl

/-- A source that is shut stays so, and without a browser if it has none. -/
theorem Shut.reacts (h : Shut s.browsers s.tasks) (hr : Reacts s t) :
    Shut t.browsers t.tasks ∧ (s.browser = none → t.browser = none) := by
  cases hr with
  | ran hr =>
    obtain ⟨task, tasks, ht, rfl⟩ := ran_spec hr
    rw [ht] at h
    have hp := Shut.perform (s := { s with tasks }) h
    refine ⟨hp, fun hn ↦ ?_⟩
    cases task with
    | reopen => cases h.tasks _ List.mem_cons_self
    | close | load => exact hn
  | created i hr =>
    obtain ⟨x, hx, hstage, rfl⟩ := created_spec hr
    rcases h.doomed i x hx with ho | ⟨hl, -⟩
    · simp [CefBrowser.over, hstage] at ho
    · rw [hstage] at hl
      cases hl
  | closed i hr =>
    obtain ⟨x, hx, hstage, rfl⟩ := closed_spec hr
    refine ⟨⟨fun j y hy ↦ ?_, h.tasks⟩, fun hn ↦ by simp [hn]⟩
    by_cases hij : i = j
    · subst hij
      simp only [List.getElem?_set_self'] at hy
      obtain ⟨_, _, rfl⟩ := Option.map_eq_some_iff.mp hy
      exact Or.inl rfl
    · rw [List.getElem?_set_ne hij] at hy
      exact h.doomed j y hy

/-- Before `open` there is nothing to shut. -/
theorem Blank.shut (h : Blank browser browsers tasks) : Shut browsers tasks := by
  obtain ⟨-, rfl, rfl⟩ := h
  constructor <;> simp

end Phases

end WebLinked.Browser.BrowserSource
