import WebLinked.Browser.Phases

/-!
# A source converges on what it was last told

`src/browser/browser_source.cpp:67–151`. A call acts on the browser it finds. Where it begins
while no other call is under way and no browser is on its way, the browser it finds is the
only one, or the one a task already in the queue is about to close.
-/

namespace WebLinked.Browser.BrowserSource

open WebLinked.Base

variable {s t : State} {a : Action}

/-- In a quiescent state there is one browser between `open` and `close`, in the current pacing
and at the current URL, and none after `close`. -/
structure Converged (s : State) : Prop where
  opened : s.quiescent → s.opened → s.closed = false →
    ∃ b, s.live = [b] ∧ b.pacing = s.pacing ∧ b.url = s.url
  closed : s.quiescent → s.closed → s.live = []

namespace Task

/-- The task navigates. -/
def loads : Task → Bool
  | .load _ _ => true
  | _ => false

end Task

namespace State

/-- A browser has been asked for, or is about to be, and has not arrived. -/
def creating (s : State) : Bool :=
  s.browsers.any (·.stage = .creating) || s.tasks.any Task.reopens

/-- The client's browser is being closed, or is about to be. -/
def closing (s : State) : Bool :=
  s.browser.any fun c ↦
    s.tasks.contains (.close c) || !s.browsers[c]?.any fun b ↦ b.stage = .live

end State

/-- The step is no `CreateBrowser` that fails, no call that begins while another is under way
or a browser is on its way, no pacing change while the browser is closing, and no navigation
on the UI thread ahead of one that is queued. A `setPacing` that changes nothing may come at
any time. -/
def undisturbed (s : State) : Action → Bool
  | .open _ => s.calls.isEmpty
  | .setPacing _ pacing => s.pacing = pacing || s.calls.isEmpty && !s.creating && !s.closing
  | .loadUrl ui _ => s.calls.isEmpty && !s.creating && (!ui || !s.tasks.any Task.loads)
  | .close _ => s.calls.isEmpty && !s.creating
  | .proceed _ created | .runTask created => created
  | .onAfterCreated _ | .onBeforeClose _ => true

section Calls

/-- Between `open` and `close`. -/
private structure Open (s : State) : Prop where
  opened : s.opened
  closed : s.closed = false

/-- Before `open`. -/
private structure Unopened (s : State) : Prop where
  opened : s.opened = false
  closed : s.closed = false
  blank : Blank s.browser s.browsers s.tasks

/-- No call is under way. -/
private inductive Rest (s : State) : Prop
  | unopened : Unopened s → Rest s
  | steady (c : Nat) (b : CefBrowser) : Open s → Steady s.browser s.browsers s.tasks c b →
      b.pacing = s.pacing → urlAfter c b.url s.tasks = s.url → Rest s
  | replacing (c : Nat) (b : CefBrowser) : Open s → Replacing s c b → Rest s
  | creating (c : Nat) (b : CefBrowser) : Open s → Creating s c b → Rest s
  | closed : s.closed → Shut s.browsers s.tasks → Rest s

/-- What a call under way has read is still so, and the browser it found is the one there is. -/
private def During (s : State) : Call → Prop
  | .openSet url => Open s ∧ Blank s.browser s.browsers s.tasks ∧ url = s.url
  | .openPaced url pacing =>
    Open s ∧ Blank s.browser s.browsers s.tasks ∧ url = s.url ∧ pacing = s.pacing
  | .setPacing _ pacing =>
    pacing = s.pacing ∧ (Unopened s ∨
      (s.closed ∧ Shut s.browsers s.tasks ∧ s.browser = none) ∨
      Open s ∧ ∃ c b, Steady s.browser s.browsers s.tasks c b)
  | .setPacingOn _ pacing existing =>
    pacing = s.pacing ∧ Open s ∧ ∃ b, Steady s.browser s.browsers s.tasks existing b
  | .setPacingAt _ pacing existing current =>
    pacing = s.pacing ∧ current = s.url ∧ Open s ∧
      ∃ b, Steady s.browser s.browsers s.tasks existing b
  | .loadUrl ui url =>
    Unopened s ∨ (s.closed ∧ Shut s.browsers s.tasks) ∨
      url = s.url ∧ (ui → s.tasks = []) ∧ Open s ∧
        ∃ c b, Steady s.browser s.browsers s.tasks c b ∧ b.pacing = s.pacing
  | .loadUrlOn ui url browser =>
    (s.closed ∧ Shut s.browsers s.tasks) ∨
      url = s.url ∧ (ui → s.tasks = []) ∧ Open s ∧
        ∃ b, Steady s.browser s.browsers s.tasks browser b ∧ b.pacing = s.pacing
  | .close _ =>
    s.closed ∧ (Shut s.browsers s.tasks ∨ ∃ c b, Steady s.browser s.browsers s.tasks c b)
  | .closeOn _ browser =>
    s.closed ∧ (Shut s.browsers s.tasks ∨ ∃ b, Steady s.browser s.browsers s.tasks browser b)

/-- At most one call is under way. -/
private inductive Phase (s : State) : Prop
  | rest : s.calls = [] → Rest s → Phase s
  | during (c : Call) : s.calls = [c] → During s c → Phase s

private theorem Open.reacts (h : Open s) (hr : Reacts s t) : Open t := by
  have hf := hr.framed
  exact ⟨hf.opened ▸ h.opened, hf.closed ▸ h.closed⟩

private theorem Rest.reacts (h : Rest s) (hr : Reacts s t) : Rest t := by
  have hf := hr.framed
  cases h with
  | unopened h => exact absurd hr h.blank.quiet
  | steady c b ho hs hp hu =>
    obtain ⟨b', hs', hp', hu', -⟩ := hs.reacts hr
    exact .steady c b' (ho.reacts hr) hs' (by rw [hp', hp, hf.pacing]) (by rw [hu', hu, hf.url])
  | replacing c b ho hs =>
    rcases hs.reacts hr with ⟨b', hs'⟩ | ⟨c', b', hs'⟩
    · exact .replacing c b' (ho.reacts hr) hs'
    · exact .creating c' b' (ho.reacts hr) hs'
  | creating c b ho hs =>
    rcases hs.reacts hr with hs' | ⟨b', hs', hp', hu'⟩
    · exact .creating c b (ho.reacts hr) hs'
    · exact .steady c b' (ho.reacts hr) hs' hp' hu'
  | closed hc hs => exact .closed (hf.closed ▸ hc) (hs.reacts hr).1

private theorem During.reacts {c : Call} (h : During s c) (hr : Reacts s t) : During t c := by
  have hf := hr.framed
  cases c with
  | openSet => exact absurd hr h.2.1.quiet
  | openPaced => exact absurd hr h.2.1.quiet
  | setPacing ui pacing =>
    obtain ⟨hp, hu | ⟨hc, hs, hn⟩ | ⟨ho, c, b, hs⟩⟩ := h
    · exact absurd hr hu.blank.quiet
    · obtain ⟨hs', hn'⟩ := hs.reacts hr
      exact ⟨hp.trans hf.pacing.symm, Or.inr (Or.inl ⟨hf.closed ▸ hc, hs', hn' hn⟩)⟩
    · obtain ⟨b', hs', -⟩ := hs.reacts hr
      exact ⟨hp.trans hf.pacing.symm, Or.inr (Or.inr ⟨ho.reacts hr, c, b', hs'⟩)⟩
  | setPacingOn ui pacing existing =>
    obtain ⟨hp, ho, b, hs⟩ := h
    obtain ⟨b', hs', -⟩ := hs.reacts hr
    exact ⟨hp.trans hf.pacing.symm, ho.reacts hr, b', hs'⟩
  | setPacingAt ui pacing existing current =>
    obtain ⟨hp, hu, ho, b, hs⟩ := h
    obtain ⟨b', hs', -⟩ := hs.reacts hr
    exact ⟨hp.trans hf.pacing.symm, hu.trans hf.url.symm, ho.reacts hr, b', hs'⟩
  | loadUrl ui url =>
    obtain hu | ⟨hc, hs⟩ | ⟨hu, hui, ho, c, b, hs, hp⟩ := h
    · exact absurd hr hu.blank.quiet
    · exact Or.inr (Or.inl ⟨hf.closed ▸ hc, (hs.reacts hr).1⟩)
    · obtain ⟨b', hs', hp', -, ht⟩ := hs.reacts hr
      exact Or.inr (Or.inr ⟨hu.trans hf.url.symm, fun h ↦ ht (hui h), ho.reacts hr, c, b', hs',
        hp'.trans (hp.trans hf.pacing.symm)⟩)
  | loadUrlOn ui url browser =>
    obtain ⟨hc, hs⟩ | ⟨hu, hui, ho, b, hs, hp⟩ := h
    · exact Or.inl ⟨hf.closed ▸ hc, (hs.reacts hr).1⟩
    · obtain ⟨b', hs', hp', -, ht⟩ := hs.reacts hr
      exact Or.inr ⟨hu.trans hf.url.symm, fun h ↦ ht (hui h), ho.reacts hr, b', hs',
        hp'.trans (hp.trans hf.pacing.symm)⟩
  | close ui =>
    obtain ⟨hc, hs | ⟨c, b, hs⟩⟩ := h
    · exact ⟨hf.closed ▸ hc, Or.inl (hs.reacts hr).1⟩
    · obtain ⟨b', hs', -⟩ := hs.reacts hr
      exact ⟨hf.closed ▸ hc, Or.inr ⟨c, b', hs'⟩⟩
  | closeOn ui browser =>
    obtain ⟨hc, hs | ⟨b, hs⟩⟩ := h
    · exact ⟨hf.closed ▸ hc, Or.inl (hs.reacts hr).1⟩
    · obtain ⟨b', hs', -⟩ := hs.reacts hr
      exact ⟨hf.closed ▸ hc, Or.inr ⟨b', hs'⟩⟩

private theorem Phase.reacts (h : Phase s) (hr : Reacts s t) : Phase t := by
  have hf := hr.framed
  cases h with
  | rest hc h => exact .rest (hf.calls.trans hc) (h.reacts hr)
  | during c hc h => exact .during c (hf.calls.trans hc) (h.reacts hr)

private theorem begin_spec {c : Call} (h : s.begin c = some t) :
    t = { s with calls := s.calls ++ [c] } := by
  unfold State.begin at h
  split at h <;> cases h
  rfl

private theorem Phase.rest_of_isEmpty (h : Phase s) (hc : s.calls.isEmpty) : Rest s := by
  cases h with
  | rest _ h => exact h
  | during c hcalls => simp [hcalls] at hc

private theorem Replacing.isCreating {c : Nat} {b : CefBrowser} (h : Replacing s c b) :
    s.creating := by
  obtain ⟨loads, ht, -⟩ := h.tasks
  simp [State.creating, ht, Task.reopens]

private theorem Creating.isCreating {c : Nat} {b : CefBrowser} (h : Creating s c b) :
    s.creating := by
  have hm := List.mem_of_getElem? h.alone.here
  simp only [State.creating, Bool.or_eq_true, List.any_eq_true, decide_eq_true_eq]
  exact Or.inl ⟨b, hm, h.stage⟩

/-- A client that is not being closed has no browser once the source is shut. -/
private theorem Shut.client (h : Shut s.browsers s.tasks) (hc : s.closing = false) :
    s.browser = none := by
  cases hb : s.browser with
  | none => rfl
  | some c =>
    simp only [State.closing, hb, Option.any_some, Bool.or_eq_false_iff, Bool.not_eq_false',
      Option.any_eq_true, decide_eq_true_eq] at hc
    obtain ⟨hm, x, hx, hlive⟩ := hc
    rcases h.doomed c x hx with ho | ⟨-, hm'⟩
    · simp [CefBrowser.over, hlive] at ho
    · simp [hm'] at hm

private theorem Phase.setPacing (inv : Phase s) {ui : Bool} {pacing : Pacing}
    (hg : undisturbed s (.setPacing ui pacing)) (h : s.step (.setPacing ui pacing) = some t) :
    Phase t := by
  simp only [State.step] at h
  split at h
  · cases h
    exact inv
  · next hne =>
    simp only [undisturbed, hne, decide_false, Bool.false_or, Bool.and_eq_true,
      Bool.not_eq_true'] at hg
    obtain ⟨⟨hcalls, hcreating⟩, hclosing⟩ := hg
    have hrest := inv.rest_of_isEmpty hcalls
    rw [List.isEmpty_iff] at hcalls
    obtain rfl := begin_spec h
    refine .during (.setPacing ui pacing) (by simp [hcalls]) ⟨rfl, ?_⟩
    cases hrest with
    | unopened h => exact Or.inl ⟨h.opened, h.closed, h.blank⟩
    | steady c b ho hs => exact Or.inr (Or.inr ⟨⟨ho.opened, ho.closed⟩, c, b, hs⟩)
    | replacing c b _ hs => simp [hs.isCreating] at hcreating
    | creating c b _ hs => simp [hs.isCreating] at hcreating
    | closed hc hs => exact Or.inr (Or.inl ⟨hc, hs, hs.client hclosing⟩)

private theorem Phase.loadUrl (inv : Phase s) {ui : Bool} {url : String}
    (hg : undisturbed s (.loadUrl ui url)) (h : s.step (.loadUrl ui url) = some t) :
    Phase t := by
  simp only [undisturbed, Bool.and_eq_true, Bool.not_eq_true', Bool.or_eq_true] at hg
  obtain ⟨⟨hcalls, hcreating⟩, hui⟩ := hg
  have hrest := inv.rest_of_isEmpty hcalls
  rw [List.isEmpty_iff] at hcalls
  obtain rfl := begin_spec h
  refine .during (.loadUrl ui url) (by simp [hcalls]) ?_
  cases hrest with
  | unopened h => exact Or.inl ⟨h.opened, h.closed, h.blank⟩
  | steady c b ho hs hp =>
    refine Or.inr (Or.inr ⟨rfl, fun hu ↦ ?_, ⟨ho.opened, ho.closed⟩, c, b, hs, hp⟩)
    cases ht : s.tasks with
    | nil => rfl
    | cons task tasks =>
      obtain ⟨i, url, rfl, -⟩ := hs.loads task (ht ▸ List.mem_cons_self)
      simp [hu, ht, Task.loads] at hui
  | replacing c b _ hs => simp [hs.isCreating] at hcreating
  | creating c b _ hs => simp [hs.isCreating] at hcreating
  | closed hc hs => exact Or.inr (Or.inl ⟨hc, hs⟩)

private theorem Phase.close (inv : Phase s) {ui : Bool}
    (hg : undisturbed s (.close ui)) (h : s.step (.close ui) = some t) : Phase t := by
  simp only [undisturbed, Bool.and_eq_true, Bool.not_eq_true'] at hg
  obtain ⟨hcalls, hcreating⟩ := hg
  have hrest := inv.rest_of_isEmpty hcalls
  rw [List.isEmpty_iff] at hcalls
  obtain rfl := begin_spec h
  refine .during (.close ui) (by simp [hcalls]) ⟨rfl, ?_⟩
  cases hrest with
  | unopened h => exact Or.inl h.blank.shut
  | steady c b ho hs => exact Or.inr ⟨c, b, hs⟩
  | replacing c b _ hs => simp [hs.isCreating] at hcreating
  | creating c b _ hs => simp [hs.isCreating] at hcreating
  | closed hc hs => exact Or.inl hs

private theorem Phase.open (inv : Phase s) {url : String}
    (hg : undisturbed s (.open url)) (h : s.step (.open url) = some t) : Phase t := by
  have hrest := inv.rest_of_isEmpty hg
  have hcalls := List.isEmpty_iff.mp hg
  simp only [State.step] at h
  split at h
  · cases h
  · next hnew =>
    obtain rfl := begin_spec h
    refine .during (.openSet url) (by simp [hcalls]) ?_
    cases hrest with
    | unopened h => exact ⟨⟨rfl, h.closed⟩, h.blank, rfl⟩
    | steady c b ho => simp [ho.opened] at hnew
    | replacing c b ho => simp [ho.opened] at hnew
    | creating c b ho => simp [ho.opened] at hnew
    | closed hc => simp [hc] at hnew

private theorem Open.finish {call : Nat} (h : Open s) : Open (s.finish call) :=
  ⟨h.opened, h.closed⟩

private theorem Open.advance {call : Nat} {c : Call} (h : Open s) : Open (s.advance call c) :=
  ⟨h.opened, h.closed⟩

private theorem framed_onUiThread (s : State) (ui created : Bool) (task : Task) :
    Framed s (s.onUiThread ui created task) := by
  cases ui with
  | true => exact framed_perform s created task
  | false => exact ⟨rfl, rfl, rfl, rfl, rfl⟩

private theorem Steady.reopen {c : Nat} {b : CefBrowser} {ui : Bool} (ho : Open s)
    (hs : Steady s.browser s.browsers s.tasks c b) :
    Rest (s.onUiThread ui true (.reopen c s.pacing s.url)) := by
  have hlt := hs.alone.lt_length
  cases ui with
  | false =>
    exact .replacing c b ⟨ho.opened, ho.closed⟩ ⟨hs.client, hs.alone, hs.live, s.tasks, rfl, hs.loads⟩
  | true =>
    have hclosed := hs.alone.modify c (f := CefBrowser.close) fun _ ↦ over_close
    rw [if_pos rfl] at hclosed
    refine .creating _ _ ⟨ho.opened, ho.closed⟩
      ⟨?_, hclosed.append (over_close_of_live hs.live) _, rfl, ?_, rfl, rfl⟩
    · simp [State.onUiThread, State.perform, State.createOffscreenBrowser, State.closeBrowser,
        hs.client]
      omega
    · rw [List.length_modify]
      exact hs.loads

private theorem Steady.load {c : Nat} {b : CefBrowser} {ui : Bool} (ho : Open s)
    (hs : Steady s.browser s.browsers s.tasks c b) (hp : b.pacing = s.pacing)
    (hui : ui → s.tasks = []) : Rest (s.onUiThread ui true (.load c s.url)) := by
  have hlt := hs.alone.lt_length
  cases ui with
  | false =>
    refine .steady c b ⟨ho.opened, ho.closed⟩ ⟨hs.client, hs.alone, hs.live, ?_⟩ hp ?_
    · intro task hm
      rcases List.mem_append.mp hm with hm | hm
      · exact hs.loads task hm
      · rw [List.mem_singleton] at hm
        exact ⟨c, s.url, hm, hlt⟩
    · simp [State.onUiThread, urlAfter]
  | true =>
    have halone := hs.alone.modify c (f := fun browser ↦ { browser with url := s.url }) fun _ hx ↦ hx
    rw [if_pos rfl] at halone
    refine .steady c _ ⟨ho.opened, ho.closed⟩ ⟨hs.client, halone, hs.live, ?_⟩ hp ?_
    · simp [State.onUiThread, State.perform, State.navigate, hui rfl, loads_nil]
    · simp [State.onUiThread, State.perform, State.navigate, hui rfl, urlAfter]

private theorem Phase.proceed (inv : Phase s) {call : Nat} (h : s.proceed call true = some t) :
    Phase t := by
  obtain ⟨c, hc, ht⟩ := Option.map_eq_some_iff.mp h
  cases inv with
  | rest hcalls => simp [hcalls] at hc
  | during c' hcalls hd =>
    have hzero : call = 0 := by
      have hlt := (List.getElem?_eq_some_iff.mp hc).1
      simp only [hcalls, List.length_singleton] at hlt
      omega
    subst hzero
    simp only [hcalls, List.getElem?_cons_zero, Option.some.injEq] at hc
    subst hc
    have hset (c : Call) : (s.advance 0 c).calls = [c] := by simp [State.advance, hcalls]
    have hnone : (s.finish 0).calls = [] := by simp [State.finish, hcalls]
    have hpost (ui : Bool) (task : Task) : ((s.finish 0).onUiThread ui true task).calls = [] :=
      (framed_onUiThread _ ui true task).calls.trans hnone
    cases c' with
    | openSet url =>
      obtain ⟨ho, hb, hu⟩ := hd
      cases ht
      exact .during _ (hset _) ⟨ho.advance, hb, hu, rfl⟩
    | openPaced url pacing =>
      obtain ⟨ho, hb, hu, hp⟩ := hd
      obtain rfl : (s.finish 0).createOffscreenBrowser pacing url true = t := ht
      refine .rest hnone (.creating 0 { pacing, url } ⟨ho.opened, ho.closed⟩ ⟨?_, ?_, rfl, ?_, hp, hu⟩)
      · simp [State.createOffscreenBrowser, State.finish, hb.client]
      · simp only [State.createOffscreenBrowser, State.finish, hb.browsers]
        exact .singleton _
      · simp only [State.createOffscreenBrowser, State.finish, hb.tasks]
        exact loads_nil
    | setPacing ui pacing =>
      obtain ⟨hp, hd⟩ := hd
      cases hb : s.browser with
      | none =>
        simp only [hb] at ht
        subst ht
        refine .rest hnone ?_
        obtain hu | ⟨hc, hs, -⟩ | ⟨ho, c, b, hs⟩ := hd
        · exact .unopened ⟨hu.opened, hu.closed, hu.blank⟩
        · exact .closed hc hs
        · simp [hs.client] at hb
      | some existing =>
        simp only [hb] at ht
        subst ht
        refine .during _ (hset _) ?_
        obtain hu | ⟨hc, hs, hn⟩ | ⟨ho, c, b, hs⟩ := hd
        · simp [hu.blank.client] at hb
        · simp [hn] at hb
        · have hce : c = existing := by simpa [hs.client] using hb
          exact ⟨hp, ho.advance, b, hce ▸ hs⟩
    | setPacingOn ui pacing existing =>
      obtain ⟨hp, ho, hs⟩ := hd
      cases ht
      exact .during _ (hset _) ⟨hp, rfl, ho.advance, hs⟩
    | setPacingAt ui pacing existing current =>
      obtain ⟨rfl, rfl, ho, b, hs⟩ := hd
      obtain rfl : (s.finish 0).onUiThread ui true (.reopen existing s.pacing s.url) = t := ht
      exact .rest (hpost ui _) (Steady.reopen ho.finish hs)
    | loadUrl ui url =>
      cases hb : s.browser with
      | none =>
        simp only [hb] at ht
        subst ht
        refine .rest hnone ?_
        obtain hu | ⟨hc, hs⟩ | ⟨-, -, -, c, b, hs, -⟩ := hd
        · exact .unopened ⟨hu.opened, hu.closed, hu.blank⟩
        · exact .closed hc hs
        · simp [hs.client] at hb
      | some browser =>
        simp only [hb] at ht
        subst ht
        refine .during _ (hset _) ?_
        obtain hu | hs | ⟨hu, hui, ho, c, b, hs, hp⟩ := hd
        · simp [hu.blank.client] at hb
        · exact Or.inl hs
        · have hce : c = browser := by simpa [hs.client] using hb
          exact Or.inr ⟨hu, hui, ho.advance, b, hce ▸ hs, hp⟩
    | loadUrlOn ui url browser =>
      obtain rfl : (s.finish 0).onUiThread ui true (.load browser url) = t := ht
      refine .rest (hpost ui _) ?_
      obtain ⟨hc, hs⟩ | ⟨rfl, hui, ho, b, hs, hp⟩ := hd
      · refine .closed ?_ (Shut.onUiThread (s := s.finish 0) (hs.cons rfl) ui)
        rw [(framed_onUiThread _ ui true _).closed]
        exact hc
      · exact Steady.load ho.finish hs hp hui
    | close ui =>
      obtain ⟨hc, hd⟩ := hd
      cases hb : s.browser with
      | none =>
        simp only [hb] at ht
        subst ht
        refine .rest hnone (.closed hc ?_)
        obtain hs | ⟨c, b, hs⟩ := hd
        · exact hs
        · simp [hs.client] at hb
      | some browser =>
        simp only [hb] at ht
        subst ht
        refine .during _ (hset _) ⟨hc, ?_⟩
        obtain hs | ⟨c, b, hs⟩ := hd
        · exact Or.inl hs
        · have hce : c = browser := by simpa [hs.client] using hb
          exact Or.inr ⟨b, hce ▸ hs⟩
    | closeOn ui browser =>
      obtain ⟨hc, hd⟩ := hd
      obtain rfl : (s.finish 0).onUiThread ui true (.close browser) = t := ht
      refine .rest (hpost ui _) (.closed ?_ ?_)
      · rw [(framed_onUiThread _ ui true _).closed]
        exact hc
      · obtain hs | ⟨b, hs⟩ := hd
        · exact Shut.onUiThread (s := s.finish 0) (hs.cons rfl) ui
        · exact Shut.onUiThread (s := s.finish 0) hs.shut ui

private theorem Phase.step (inv : Phase s) (hg : undisturbed s a) (h : s.step a = some t) :
    Phase t := by
  cases a with
  | «open» url => exact inv.open hg h
  | setPacing ui pacing => exact inv.setPacing hg h
  | loadUrl ui url => exact inv.loadUrl hg h
  | close ui => exact inv.close hg h
  | proceed call created =>
    simp only [undisturbed] at hg
    subst hg
    exact inv.proceed h
  | runTask created =>
    simp only [undisturbed] at hg
    subst hg
    simp only [State.step] at h
    split at h
    · exact inv.reacts (.ran h)
    · cases h
  | onAfterCreated b =>
    simp only [State.step] at h
    split at h
    · exact inv.reacts (.created b h)
    · cases h
  | onBeforeClose b =>
    simp only [State.step] at h
    split at h
    · exact inv.reacts (.closed b h)
    · cases h

end Calls

section Quiescent

variable {browsers : List CefBrowser}

private theorem filter_live_eq_nil (h : ∀ x ∈ browsers, x.over) :
    browsers.filter (·.stage = .live) = [] := by
  rw [List.filter_eq_nil_iff]
  intro x hx hlive
  have ho := h x hx
  simp only [decide_eq_true_eq] at hlive
  simp [CefBrowser.over, hlive] at ho

private theorem filter_live {c : Nat} {b : CefBrowser} (h : Alone browsers c b)
    (hb : b.stage = .live) : browsers.filter (·.stage = .live) = [b] := by
  refine h.filter_eq (by simpa using hb) fun x hx ↦ ?_
  cases hs : x.stage <;> simp_all [CefBrowser.over]

private theorem Rest.converged (h : Rest s) (ht : s.tasks = [])
    (hq : ∀ x ∈ s.browsers, x.stage = .live ∨ x.stage = .gone) :
    (s.opened → s.closed = false →
      ∃ b, s.live = [b] ∧ b.pacing = s.pacing ∧ b.url = s.url) ∧ (s.closed → s.live = []) := by
  cases h with
  | unopened h =>
    refine ⟨fun ho ↦ ?_, fun hc ↦ ?_⟩
    · simp [h.opened] at ho
    · simp [h.closed] at hc
  | steady c b ho hs hp hu =>
    rw [ht] at hu
    refine ⟨fun _ _ ↦ ⟨b, filter_live hs.alone hs.live, hp, hu⟩, fun hc ↦ ?_⟩
    simp [ho.closed] at hc
  | replacing c b ho hs =>
    obtain ⟨loads, htasks, -⟩ := hs.tasks
    simp [ht] at htasks
  | creating c b ho hs =>
    have hb := hq b (List.mem_of_getElem? hs.alone.here)
    simp [hs.stage] at hb
  | closed hc hs =>
    refine ⟨fun _ hn ↦ ?_, fun _ ↦ filter_live_eq_nil fun x hx ↦ ?_⟩
    · simp [hc] at hn
    · obtain ⟨i, hi⟩ := List.getElem?_of_mem hx
      rcases hs.doomed i x hi with ho | ⟨-, hm⟩
      · exact ho
      · simp [ht] at hm

private theorem Phase.converged (h : Phase s) : Converged s := by
  have hall (hq : s.quiescent) : (s.opened → s.closed = false →
      ∃ b, s.live = [b] ∧ b.pacing = s.pacing ∧ b.url = s.url) ∧ (s.closed → s.live = []) := by
    simp only [State.quiescent, Bool.and_eq_true, List.isEmpty_iff, List.all_eq_true,
      Bool.or_eq_true, decide_eq_true_eq] at hq
    obtain ⟨⟨hcalls, htasks⟩, hbrowsers⟩ := hq
    exact (h.rest_of_isEmpty (by simp [hcalls])).converged htasks hbrowsers
  exact ⟨fun hq ↦ (hall hq).1, fun hq ↦ (hall hq).2⟩

end Quiescent

private theorem phase_of_undisturbed (h : machine.ReachableUnder (fun s a ↦ undisturbed s a) s) :
    Phase s := by
  induction h with
  | init hs =>
    cases hs
    exact .rest rfl (.unopened ⟨rfl, rfl, rfl, rfl, rfl⟩)
  | step a _ hg ht ih => exact ih.step hg ht

/-- Where every call that changes something begins alone, with no browser on its way, the
source converges. -/
theorem converged_of_undisturbed
    (h : machine.ReachableUnder (fun s a ↦ undisturbed s a) s) : Converged s :=
  (phase_of_undisturbed h).converged

/-- Open, arrive, then one pacing change followed through and one navigation. -/
private def oneAfterAnother : List Action :=
  [.open "https://a", .proceed 0 true, .proceed 0 true, .onAfterCreated 0,
    .setPacing false .kInternalTimer, .proceed 0 true, .proceed 0 true, .proceed 0 true,
    .runTask true, .onBeforeClose 0, .onAfterCreated 1,
    .loadUrl false "https://b", .proceed 0 true, .proceed 0 true, .runTask true]

/-- A configuration with another pacing and another URL, applied to an open source. -/
private def pacingThenUrl : List Action :=
  [.open "https://a", .proceed 0 true, .proceed 0 true, .onAfterCreated 0,
    .setPacing false .kInternalTimer, .proceed 0 true, .proceed 0 true, .proceed 0 true,
    .loadUrl false "https://b", .proceed 0 true, .proceed 0 true,
    .runTask true, .runTask true, .onBeforeClose 0, .onAfterCreated 1]

/-- A pacing change followed through and a navigation after it leave one browser, at the new
URL. -/
theorem converged_oneAfterAnother :
    ∃ s, machine.run {} oneAfterAnother = some s ∧ s.quiescent ∧ Converged s := by
  have hrun : ((machine.runUnder (fun s a ↦ undisturbed s a) {} oneAfterAnother).map fun s ↦
      s.quiescent) = some true := by decide
  have hsame : machine.runUnder (fun s a ↦ undisturbed s a) {} oneAfterAnother =
      machine.run {} oneAfterAnother := by decide
  obtain ⟨s, hs, hq⟩ := Option.map_eq_some_iff.mp hrun
  exact ⟨s, hsame ▸ hs, hq,
    converged_of_undisturbed (Machine.ReachableUnder.runUnder (.init rfl) oneAfterAnother hs)⟩

/-- A navigation that follows a pacing change reaches the browser the change replaces. -/
theorem not_converged : ¬ ∀ s, machine.Reachable s → Converged s := by
  intro h
  have hrun : ((machine.run {} pacingThenUrl).map fun s ↦
      (s.quiescent, s.opened, s.closed, s.url, s.live.map CefBrowser.url)) =
        some (true, true, false, "https://b", ["https://a"]) := by decide
  obtain ⟨s, hs, he⟩ := Option.map_eq_some_iff.mp hrun
  simp only [Prod.mk.injEq] at he
  obtain ⟨hq, ho, hc, hu, hl⟩ := he
  obtain ⟨b, hb, -, hurl⟩ :=
    (h s (Machine.Reachable.run (.init rfl) pacingThenUrl hs)).opened hq ho hc
  simp [hb, hurl, hu] at hl

end WebLinked.Browser.BrowserSource
