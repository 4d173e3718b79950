import Mathlib
import WebLinked.Engine.Generations

/-!
# The steps of calls into outputs

Each stage of a thread with a gate, each request and each thing it writes down keeps what every
thread knows of the slots.
-/

namespace WebLinked.Engine.SlotCalls

open WebLinked.Base WebLinked.Core

namespace State

variable {s t : State} {i : ℕ} {p q : Phase} {slot o : ℕ}

/-- The object that was stopped is destroyed. -/
theorem Inv.stopped (h : Inv s) {path : Path}
    (hp : s.threads[i]? = some (.holding path (.stopped o))) :
    Inv (((s.destroy o).put path.slot none).goto i (.holding path .emptied)) := by
  have hok : s.StageOk path (.stopped o) := h.knows hp
  have hslot := h.slots path.slot
  refine h.hold hp (.inl ⟨_, rfl⟩) rfl rfl rfl (fun _ _ hx ↦ hx) ?_
    (fun slot hne ↦ slots_put_of_ne hne (s.destroy o) none) ?_ ?_ (.inr (if_pos hok.1)) ⟨hok.1, ?_⟩
  · intro o' ho'
    obtain rfl | ho' := List.mem_cons.mp ho'
    · exact .inr (hslot.owned o' hok.2)
    · exact .inl ho'
  · rw [slots_put_self]
    exact .inr ⟨rfl, rfl⟩
  · constructor
    · rw [slots_put_self]
      exact nofun
    · rw [slots_put_self]
      exact hslot.dated
  · rw [slots_put_self]

/-- What replaces the object is made, or the slot is left empty. -/
theorem Inv.emptied (h : Inv s) {path : Path}
    (hp : s.threads[i]? = some (.holding path .emptied)) (a : Answer) :
    Inv (s.hold i a path .emptied) := by
  have hok : s.StageOk path .emptied := h.knows hp
  have hslot := h.slots path.slot
  have hrefresh : Inv ((s.refresh path.slot).goto i (.returned path .replaced)) :=
    h.refresh .replaced hp rfl rfl rfl rfl (fun _ ho ↦ .inl ho) (fun _ _ ↦ rfl) rfl hslot.owned
  cases path with
  | replace update =>
    cases hcreate : a.create with
    | error error =>
      simp only [State.hold, hcreate]
      exact h.stay hp rfl ⟨rfl, hok.2, nofun⟩
    | ok backend =>
      simp only [State.hold, hcreate]
      refine h.hold hp (.inl ⟨_, rfl⟩) rfl rfl rfl (fun _ _ ↦ create_objects backend _)
        (fun _ ho ↦ .inl ho) (fun _ _ ↦ rfl) (.inr ⟨rfl, rfl⟩) ?_ (.inr rfl)
        ⟨rfl, hok.2, h.create_owned backend _⟩
      exact ⟨fun o ho ↦ (hslot.owned o ho).create backend _, hslot.dated⟩
  | _ => exact hrefresh

/-- What replaces the object has started, or has not. -/
theorem Inv.starting (h : Inv s) {path : Path} {r : ℕ}
    (hp : s.threads[i]? = some (.holding path (.starting r))) (a : Answer) :
    Inv (s.hold i a path (.starting r)) := by
  have hok : s.StageOk path (.starting r) := h.knows hp
  cases hstart : a.start with
  | none =>
    simp only [State.hold, hstart]
    refine h.refresh .replaced hp rfl rfl rfl rfl (fun _ ho ↦ .inl ho)
      (fun slot hne ↦ slots_put_of_ne hne s (some r)) ?_ ?_
    · rw [slots_put_self]
    · intro o ho
      rw [slots_put_self] at ho
      cases ho
      exact hok.2.2
  | some error =>
    simp only [State.hold, hstart]
    refine h.stay hp hok.1 ⟨hok.1, hok.2.1, fun o ho ↦ ?_⟩
    cases ho
    exact hok.2.2

/-- What was in the slot before is made again, or is not. -/
theorem Inv.failed (h : Inv s) {path : Path} {r : Option ℕ} {error : String}
    (hp : s.threads[i]? = some (.holding path (.failed r error))) (a : Answer) :
    Inv (s.hold i a path (.failed r error)) := by
  have hok : s.StageOk path (.failed r error) := h.knows hp
  have hslot := h.slots path.slot
  have hdiscard : Inv (s.goto i (.holding path (.discarding r error false))) := by
    refine h.stay hp hok.1 ⟨hok.1, fun o ho ↦ ⟨hok.2.2 o ho, ?_⟩⟩
    rw [hok.2.1]
    exact nofun
  cases hcreate : a.create with
  | error _ =>
    simp only [State.hold, hcreate]
    exact hdiscard
  | ok backend =>
    simp only [State.hold, hcreate]
    cases path with
    | replace update =>
      have hnew := h.create_owned backend update.slot
      have hother : ∀ o ∈ r, s.Owned update.slot o ∧ o ≠ s.objects.length :=
        fun o ho ↦ ⟨hok.2.2 o ho, (hok.2.2 o ho).lt.ne⟩
      have hput := slots_put_self (s.create backend update.slot) update.slot (some s.objects.length)
      refine h.hold hp (.inl (by split <;> exact ⟨_, rfl⟩)) rfl rfl rfl
        (fun _ _ ↦ create_objects backend _) (fun _ ho ↦ .inl ho)
        (fun slot hne ↦ slots_put_of_ne hne (s.create backend update.slot) _) ?_ ?_
        (.inr (by split <;> rfl)) ?_
      · rw [Path.slot, hput]
        exact .inr ⟨rfl, rfl⟩
      · constructor
        · intro o ho
          rw [Path.slot, hput] at ho
          cases ho
          exact hnew
        · rw [Path.slot, hput]
          exact hslot.dated
      · split
        · refine ⟨rfl, ?_, fun o ho ↦ ⟨(hother o ho).1.create backend _, (hother o ho).2⟩⟩
          rw [Path.slot, hput]
        · refine ⟨rfl, fun o ho ↦ ⟨(hother o ho).1.create backend _, ?_⟩⟩
          rw [Path.slot, hput]
          exact fun heq ↦ (hother o ho).2 (Option.some.inj heq).symm
    | _ => exact hdiscard

/-- What did not start is destroyed, and is not what is in the slot. -/
theorem Inv.discarding (h : Inv s) {path : Path} {r : Option ℕ} {error : String} {restored : Bool}
    (hp : s.threads[i]? = some (.holding path (.discarding r error restored))) :
    Inv (((r.elim s s.destroy).refresh path.slot).goto i
      (.returned path (.failed error restored))) := by
  have hok : s.StageOk path (.discarding r error restored) := h.knows hp
  have hslot := h.slots path.slot
  cases r with
  | none =>
    exact h.refresh _ hp rfl rfl rfl rfl (fun _ ho ↦ .inl ho) (fun _ _ ↦ rfl) rfl hslot.owned
  | some r =>
    obtain ⟨hr, hne⟩ := hok.2 r rfl
    refine h.refresh (u := s.destroy r) _ hp rfl rfl rfl rfl ?_ (fun _ _ ↦ rfl) rfl ?_
    · intro o ho
      obtain rfl | ho := List.mem_cons.mp ho
      · exact .inr hr
      · exact .inl ho
    · intro o ho
      refine (hslot.owned o ho).destroy ?_
      rintro rfl
      exact hne ho

/-- Each step of a thread that holds a gate. -/
theorem Inv.advance_hold (h : Inv s) {path : Path} {stage : Stage}
    (hp : s.threads[i]? = some (.holding path stage)) (a : Answer) :
    Inv (s.hold i a path stage) := by
  have hok : s.StageOk path stage := h.knows hp
  cases stage with
  | calling o =>
    have hnone : (Phase.holding path (.calling o)).replaces = none :=
      if_neg (Bool.eq_false_iff.mp hok.1)
    exact h.onwards hp rfl hnone id (fun _ hc ↦ hc) fun _ hu ↦ hu
  | stopping o => exact h.stay hp hok.1 hok
  | stopped o => exact h.stopped hp
  | emptied => exact h.emptied hp a
  | starting r => exact h.starting hp a
  | failed r error => exact h.failed hp a
  | restoring r error previous =>
    refine h.stay hp hok.1 ⟨hok.1, fun o ho ↦ ⟨(hok.2.2 o ho).1, ?_⟩⟩
    rw [hok.2.1]
    exact fun heq ↦ (hok.2.2 o ho).2 (Option.some.inj heq).symm
  | discarding r error restored => exact h.discarding hp

/-- A thread gets the gate it waits for. -/
theorem Inv.acquire (h : Inv s) {path : Path} (hp : s.threads[i]? = some (.waiting path))
    (hfree : s.free path.slot) : Inv (s.goto i (gated (s.slots path.slot) path)) := by
  have hback (result : Result) : Inv (s.goto i (.returned path result)) :=
    h.onwards hp rfl rfl id (fun _ hc ↦ hc) fun _ hu ↦ hu
  have hget {stage : Stage} (hok : s.StageOk path stage) : Inv (s.goto i (.holding path stage)) := by
    refine h.of_still hp rfl rfl rfl rfl ?_ (.inl rfl) (fun _ _ hj ↦ hj)
      (fun hq ↦ h.queue i _ hp hq) (fun _ ↦ .inl rfl) hok
      (fun u hu ↦ h.named _ (List.mem_of_getElem? hp) u hu) (fun _ hc ↦ .inl hc)
      (fun _ hc ↦ .inr (.inl hc))
    intro slot hslot
    cases hslot
    exact .inr hfree
  have hcall (hr : path.replaces = false)
      (hdate : ∀ target rest, path = .submit target rest →
        target.desc.generation = (s.slots path.slot).generation) :
      ∀ p, ((s.slots path.slot).output = none → p = .returned path .empty) →
        (∀ o, (s.slots path.slot).output = some o → p = .holding path (.calling o)) →
        Inv (s.goto i p) := by
    intro p hnone hsome
    cases ho : (s.slots path.slot).output with
    | none =>
      rw [hnone ho]
      exact hback .empty
    | some o =>
      rw [hsome o ho]
      exact hget ⟨hr, ho, hdate⟩
  have hother (hr : path.replaces = false) (hne : ∀ target rest, path ≠ .submit target rest) :=
    hcall hr fun target rest heq ↦ absurd heq (hne target rest)
  have hreplace (hr : path.replaces) :
      Inv (s.goto i (.holding path ((s.slots path.slot).output.elim .emptied .stopping))) := by
    cases ho : (s.slots path.slot).output with
    | none => exact hget ⟨hr, ho⟩
    | some o => exact hget ⟨hr, ho⟩
  cases path with
  | submit target rest =>
    rw [gated]
    split
    · next hgen =>
      refine hcall rfl (fun target' rest' heq ↦ ?_) _ (fun ho ↦ by rw [ho]) fun o ho ↦ by rw [ho]
      cases heq
      exact hgen.symm
    · exact hback .empty
  | probe u =>
    rw [gated]
    split
    · exact hother rfl (by simp) _ (fun ho ↦ by rw [ho]) fun o ho ↦ by rw [ho]
    · exact hback .empty
  | preview slot desc =>
    rw [gated]
    split
    · exact hother rfl (by simp) _ (fun ho ↦ by rw [ho]) fun o ho ↦ by rw [ho]
    · exact hback .empty
  | replace | remove | close =>
    rw [gated]
    exact hreplace rfl
  | enable | stop | reopen | status =>
    rw [gated]
    · exact hother rfl (by simp) _ (fun ho ↦ by rw [ho]) fun o ho ↦ by rw [ho]
    all_goals simp

/-- An update begins with a copy of what it found. -/
theorem Inv.update (h : Inv s) (hp : s.threads[i]? = some p) (replaces : p.replaces = none)
    (queues : p.queues) {u : Update} {e : Entry} (he : find s.entries u.name = some e)
    (hslot : u.slot = e.slot) (hdesc : u.desc = e.desc) (hq : q.holds = none)
    (hcopies : q.copies = [(u.slot, u.desc)]) (hupdate : q.update = some u) :
    Inv (s.goto i q) := by
  refine h.goto hp hq replaces (fun _ ↦ queues) (.inl queues) (fun _ hc ↦ hc) ?_ ?_
  · rw [hcopies, hslot, hdesc]
    exact fun c hc ↦ .inl (List.mem_singleton.mp hc ▸ mem_pairs_of_find he)
  · rw [hupdate]
    rintro _ ⟨⟩ e' he'
    rw [hslot]
    exact congrArg Entry.slot (Option.some.inj (he'.symm.trans he))

/-- A request begins. -/
theorem Inv.enter (h : Inv s) {request : Request} (hp : s.threads[i]? = some (.entered request))
    (a : Answer) : Inv (s.enter i a request) := by
  have hrefuse : Inv (s.leave i s.entries) := h.leave hp rfl (.inr rfl) fun _ hc ↦ .inl hc
  have hgo {q : Phase} {l : List Entry} (hq : q.holds = none)
      (queues : q.queues → State.queued request) (entries : State.queued request ∨ l = s.entries)
      (listed : pairs l = pairs s.entries) (hcopies : q.copies = []) (hupdate : q.update = none) :
      Inv (({ s with entries := l }).goto i q) := by
    refine h.goto hp hq rfl queues (entries.imp_right .inl) (fun c hc ↦ listed ▸ hc) ?_ ?_
    · rw [hcopies]
      exact nofun
    · rw [hupdate]
      intro u hu
      cases hu
  have hfeed (name : String) :
      pairs (modify name (Entry.feed false) s.entries) = pairs s.entries := by
    apply pairs_modify
    exact fun _ ↦ ⟨rfl, rfl⟩
  cases request with
  | setOutputEnabled name enabled =>
    rw [State.enter]
    split
    · exact hrefuse
    · split
      · exact hrefuse
      · refine hgo rfl id (.inl rfl) ?_ rfl rfl
        split
        · rfl
        · exact hfeed name
  | addOutput spec =>
    rw [State.enter]
    split
    · exact hrefuse
    · split
      · exact hrefuse
      · exact hgo rfl id (.inl rfl) rfl rfl rfl
  | updateOutput name spec =>
    rw [State.enter]
    split
    · exact hrefuse
    · next e he =>
      split
      · exact hrefuse
      · split
        · exact hrefuse
        · split
          · exact hrefuse
          · split
            · exact h.update hp rfl rfl he rfl rfl rfl rfl rfl
            · exact h.update hp rfl rfl he rfl rfl rfl rfl rfl
  | removeOutput name =>
    rw [State.enter]
    split
    · exact hrefuse
    · split
      · exact hrefuse
      · exact hgo rfl id (.inl rfl) (hfeed name) rfl rfl
  | setFormat =>
    rw [State.enter]
    split
    · exact hrefuse
    · refine hgo rfl id (.inl rfl) ?_ rfl rfl
      exact List.map_map
  | closeOutputs =>
    rw [State.enter]
    refine h.goto (l := []) hp rfl rfl nofun (.inr (.inr rfl)) ?_ ?_ ?_
    · exact nofun
    · exact nofun
    · intro u hu
      cases hu
  | withPreview =>
    rw [State.enter]
    split
    · exact hrefuse
    · next e he =>
      have hcopy : (e.slot, e.desc) ∈ pairs s.entries :=
        List.mem_map_of_mem (f := fun e : Entry ↦ (e.slot, e.desc)) (List.mem_of_find?_eq_some he)
      refine h.goto hp rfl rfl nofun (.inr (.inl rfl)) (fun _ hc ↦ hc) ?_ ?_
      · exact fun c hc ↦ .inl (List.mem_singleton.mp hc ▸ hcopy)
      · intro u hu
        cases hu
  | state =>
    rw [State.enter]
    exact hgo rfl nofun (.inr rfl) rfl rfl rfl

/-- What a request writes into an entry's own fields. -/
theorem Inv.leave_modify (h : Inv s) (hp : s.threads[i]? = some p) (replaces : p.replaces = none)
    (queues : p.queues) (name : String) {f : Entry → Entry}
    (hf : ∀ e, (f e).slot = e.slot ∧ (f e).desc = e.desc) :
    Inv (s.leave i (modify name f s.entries)) :=
  h.leave hp replaces (.inl queues) fun _ hc ↦ .inl (pairs_modify hf name s.entries ▸ hc)

/-- The entry of an output that was replaced gets the description its slot has now. -/
theorem Inv.leave_describe (h : Inv s) {u : Update} {result : Result}
    (hp : s.threads[i]? = some (.returned (.replace u) result)) {f : Entry → Entry}
    (hf : ∀ e, (f e).slot = e.slot ∧ (f e).desc = (s.slots u.slot).description) :
    Inv (s.leave i (modify u.name f s.entries)) := by
  refine h.leave hp rfl (.inl rfl) fun c hc ↦ ?_
  obtain hc | ⟨e, he, rfl⟩ := mem_pairs_modify hc
  · exact .inl hc
  · have hslot : e.slot = u.slot := h.named _ (List.mem_of_getElem? hp) u rfl e he
    rw [(hf e).1, (hf e).2, hslot]
    exact .inr (h.current u.slot)

/-- A request writes down what came of its call. -/
theorem Inv.commit (h : Inv s) {path : Path} {result : Result}
    (hp : s.threads[i]? = some (.returned path result)) : Inv (s.commit i path result) := by
  cases path with
  | submit target rest =>
    exact h.onwards hp rfl rfl nofun (fun _ hc ↦ List.mem_cons_of_mem _ hc)
      fun _ hu ↦ hu
  | status | close => exact h.onwards hp rfl rfl nofun (fun _ hc ↦ hc) fun _ hu ↦ hu
  | stop | reopen => exact h.onwards hp rfl rfl id (fun _ hc ↦ hc) fun _ hu ↦ hu
  | preview slot desc => exact h.leave hp rfl (.inr rfl) fun _ hc ↦ .inl hc
  | enable name enabled wasEnabled slot =>
    have hwrite := @Inv.leave_modify s i _ h hp rfl rfl name
    cases result with
    | ran running start =>
      rw [State.commit]
      split
      · exact hwrite fun _ ↦ ⟨rfl, rfl⟩
      · split
        · exact hwrite fun _ ↦ ⟨rfl, rfl⟩
        · exact hwrite fun _ ↦ ⟨rfl, rfl⟩
    | _ => exact hwrite fun _ ↦ ⟨rfl, rfl⟩
  | probe u =>
    have hassign : Inv (s.goto i (.assigning u)) :=
      h.onwards hp rfl rfl id (fun _ hc ↦ hc) fun _ hu ↦ hu
    have hdisable : Inv (s.goto i (.disabling u)) :=
      h.onwards hp rfl rfl id (fun _ hc ↦ hc) fun _ hu ↦ hu
    exact iteInduction (fun _ ↦ hassign) fun _ ↦ hdisable
  | replace u =>
    cases result with
    | replaced => exact h.leave_describe hp fun _ ↦ ⟨rfl, rfl⟩
    | failed error restored => exact h.leave_describe hp fun _ ↦ ⟨rfl, rfl⟩
    | _ => exact h.leave_modify hp rfl rfl u.name fun _ ↦ ⟨rfl, rfl⟩
  | remove name wasEnabled slot =>
    have herase : Inv (s.leave i (s.entries.eraseP (·.spec.name = name))) :=
      h.leave hp rfl (.inl rfl) fun c hc ↦ .inl (List.map_subset _ List.eraseP_subset hc)
    cases result with
    | busy => exact h.leave_modify hp rfl rfl name fun _ ↦ ⟨rfl, rfl⟩
    | _ => exact herase

/-- An output is made, for a slot that nobody has. -/
theorem Inv.create (h : Inv s) {spec : OutputList.OutputSpec}
    (hp : s.threads[i]? = some (.creating spec)) (backend : Backend) (hfree : s.free slot) :
    Inv ((s.create backend slot).goto i (.opening spec slot s.objects.length)) := by
  have m : Moves s ((s.create backend slot).goto i (.opening spec slot s.objects.length)) i
      (.creating spec) (.opening spec slot s.objects.length) := {
    here := hp
    threads := rfl
    objects := fun _ _ ↦ create_objects backend slot
    destroyed := fun _ ho ↦ .inl ho
    elsewhere := fun _ _ ↦ rfl
    newer := nofun
    gate := by
      rintro _ ⟨⟩
      exact .inr hfree
    queue := fun _ _ hj ↦ hj
    queues := fun _ ↦ h.queue i _ hp rfl
    entries := fun _ ↦ .inl rfl }
  refine h.of_moves m nofun (h.create_owned backend slot) ?_ (fun _ hc ↦ .inl hc) ?_
  · intro u hu
    cases hu
  · exact nofun

/-- An output that was opened is added, in its slot. -/
theorem Inv.add (h : Inv s) {spec : OutputList.OutputSpec} {start : Option String} {e : Entry}
    (hp : s.threads[i]? = some (.adding spec slot o start)) (hslot : e.slot = slot)
    (hdesc : e.desc = (((s.put slot (some o)).refresh slot).slots slot).description) :
    Inv (((s.put slot (some o)).refresh slot).leave i (s.entries ++ [e])) := by
  have howned : s.Owned slot o := h.knows hp
  have hok : ((s.put slot (some o)).refresh slot).SlotOk slot := by
    apply refresh_slotOk
    intro o' ho'
    rw [slots_put_self] at ho'
    cases ho'
    exact howned
  have m : Moves s (((s.put slot (some o)).refresh slot).leave i (s.entries ++ [e])) i
      (.adding spec slot o start) .ended := by
    constructor
    case here => exact hp
    case threads => rfl
    case objects => exact fun _ _ hx ↦ hx
    case destroyed => exact fun _ ho ↦ .inl ho
    case elsewhere =>
      intro slot' hne
      have hne : slot' ≠ slot := fun heq ↦ hne (congrArg some heq.symm)
      exact (slots_refresh_of_ne hne _).trans (slots_put_of_ne hne s _)
    case newer =>
      rintro slot' ⟨⟩
      have hlt := lt_refresh (s.put slot (some o)) slot
      rw [slots_put_self] at hlt
      exact .inl hlt
    case gate =>
      intro _ hg
      cases hg
    case queue =>
      exact fun j hj hqueue ↦ queue_leave (s := (s.put slot (some o)).refresh slot) hj hqueue _
    case queues =>
      intro hq
      cases hq
    case entries =>
      intro he
      cases he
  refine h.of_moves m ?_ trivial ?_ ?_ ?_
  · rintro slot' ⟨⟩
    exact ⟨⟨hok.owned, hok.dated⟩, .inl (refresh_described _ _)⟩
  · intro u hu
    cases hu
  · intro c hc
    rw [pairs, State.leave, List.map_append, List.mem_append] at hc
    obtain hc | hc := hc
    · exact .inl hc
    · obtain rfl := List.mem_singleton.mp hc
      refine .inr (.inr ?_)
      show State.Current _ (e.slot, e.desc)
      rw [hslot, hdesc]
      exact ⟨hok.dated.le, fun _ ↦ rfl⟩
  · intro _ hx
    cases hx

/-- A thread takes its next step. -/
theorem Inv.advance (h : Inv s) (hp : s.threads[i]? = some p) {a : Answer}
    (ht : s.advance i a p = some t) : Inv t := by
  have hreturn (hr : p.replaces = none) : Inv (s.leave i s.entries) :=
    h.leave hp hr (.inr rfl) fun _ hc ↦ .inl hc
  cases p with
  | ended | waiting => cases ht
  | entered request =>
    cases ht
    exact h.enter hp a
  | ticking targets =>
    cases targets with
    | nil => cases ht
    | cons target rest =>
      cases ht
      exact h.onwards hp rfl rfl nofun (fun _ hc ↦ hc) fun _ hu ↦ hu
  | holding path stage =>
    cases ht
    exact h.advance_hold hp a
  | returned path result =>
    cases ht
    exact h.commit hp
  | assigning u =>
    cases ht
    exact h.leave_modify hp rfl rfl u.name fun _ ↦ ⟨rfl, rfl⟩
  | disabling u =>
    cases ht
    have hnamed : s.Named u := h.named _ (List.mem_of_getElem? hp) u rfl
    refine h.goto hp rfl rfl id (.inl rfl) (fun c hc ↦ ?_) (fun _ hc ↦ .inr hc) ?_
    · exact pairs_modify (f := Entry.feed false) (fun _ ↦ ⟨rfl, rfl⟩) u.name s.entries ▸ hc
    · rintro v ⟨⟩ e he
      obtain ⟨e', he', hslot⟩ := find_modify he fun _ ↦ ⟨rfl, rfl⟩
      exact hslot ▸ hnamed e' he'
  | creating spec =>
    rw [State.advance] at ht
    split at ht
    · cases ht
      exact hreturn rfl
    · next backend _ =>
      split at ht
      · next hguard =>
        cases ht
        exact h.create hp backend (Bool.and_eq_true_iff.mp hguard).1
      · cases ht
  | opening spec slot o =>
    cases ht
    refine h.of_still hp rfl rfl rfl rfl (fun _ hs ↦ .inl hs) (.inl rfl) (fun _ _ hj ↦ hj)
      (fun hq ↦ h.queue i _ hp hq) (fun _ ↦ .inl rfl) (h.knows hp) ?_
      (fun _ hc ↦ .inl hc) fun _ hc ↦ .inr (.inl hc)
    intro u hu
    cases hu
  | adding spec slot o start =>
    cases ht
    exact h.add hp rfl rfl
  | stops before rest =>
    cases rest with
    | nil =>
      cases ht
      exact h.onwards hp rfl rfl id (fun _ hc ↦ hc) fun _ hu ↦ hu
    | cons item rest =>
      cases ht
      exact h.onwards hp rfl rfl id (fun _ hc ↦ hc) fun _ hu ↦ hu
  | reopens before rest =>
    cases rest with
    | nil =>
      cases ht
      exact h.leave hp rfl (.inl rfl) fun c hc ↦ .inl (pairs_foldl_feedOne before s.entries ▸ hc)
    | cons item rest =>
      cases ht
      split
      · exact h.onwards hp rfl rfl id (fun _ hc ↦ hc) fun _ hu ↦ hu
      · exact h.onwards hp rfl rfl id (fun _ hc ↦ hc) fun _ hu ↦ hu
  | closes rest =>
    cases rest with
    | nil =>
      cases ht
      exact hreturn rfl
    | cons slot rest =>
      cases ht
      exact h.onwards hp rfl rfl nofun (fun _ hc ↦ hc) fun _ hu ↦ hu
  | reports rest =>
    cases rest with
    | nil =>
      cases ht
      exact hreturn rfl
    | cons slot rest =>
      cases ht
      exact h.onwards hp rfl rfl nofun (fun _ hc ↦ hc) fun _ hu ↦ hu

/-- The clock plans a tick from the copies in the list. -/
theorem Inv.plan (h : Inv s) (hp : s.threads[i]? = some (.ticking [])) (stale : Bool) :
    Inv (s.goto i (.ticking (if stale then [] else targets s.entries))) := by
  refine h.goto hp rfl rfl nofun (.inr (.inl rfl)) (fun _ hc ↦ hc) (fun c hc ↦ .inl ?_) ?_
  · obtain ⟨target, htarget, rfl⟩ := List.mem_map.mp hc
    split at htarget
    · cases htarget
    · obtain ⟨e, he, rfl⟩ := List.mem_map.mp htarget
      exact List.mem_map_of_mem (f := fun e : Entry ↦ (e.slot, e.desc)) (List.mem_filter.mp he).1
  · intro u hu
    cases hu

/-- A request comes. -/
theorem Inv.request (h : Inv s) (request : Request)
    (hfree : queued request → s.queue = none) : Inv (s.request request) := by
  have hqueue : ∀ j : ℕ, s.queue = some j → (s.request request).queue = some j := by
    intro j hj
    simp only [State.request, hj]
  have hthreads (j : ℕ) (r : Phase) (hj : (s.request request).threads[j]? = some r) :
      s.threads[j]? = some r ∨ j = s.threads.length ∧ r = .entered request := by
    by_cases hlt : j < s.threads.length
    · exact .inl ((List.getElem?_append_left hlt).symm.trans hj)
    · have hlen := (List.getElem?_eq_some_iff.mp hj).1
      simp only [State.request, List.length_append, List.length_singleton] at hlen
      obtain rfl : j = s.threads.length := by omega
      exact .inr ⟨rfl, (Option.some.inj (hj.symm.trans List.getElem?_concat_length))⟩
  have hmem : ∀ r ∈ (s.request request).threads, r ∈ s.threads ∨ r = .entered request := by
    intro r hr
    obtain hr | hr := List.mem_append.mp hr
    · exact .inl hr
    · exact .inr (List.mem_singleton.mp hr)
  constructor
  case exclusive =>
    intro j k p q slot hj hk hp hq
    obtain hj | ⟨-, rfl⟩ := hthreads j p hj
    · obtain hk | ⟨-, rfl⟩ := hthreads k q hk
      · exact h.exclusive j k p q slot hj hk hp hq
      · cases hq
    · cases hp
  case queue =>
    intro j r hj hr
    obtain hj | ⟨rfl, rfl⟩ := hthreads j r hj
    · exact hqueue j (h.queue j r hj hr)
    · have hnone := hfree hr
      cases request <;> cases hr
      all_goals simp only [State.request, hnone]
  case named =>
    intro r hr u hu
    obtain hr | rfl := hmem r hr
    · exact h.named r hr u hu
    · cases hu
  case phases =>
    intro r hr
    obtain hr | rfl := hmem r hr
    · exact h.phases r hr
    · trivial
  case slots => exact fun slot ↦ ⟨(h.slots slot).owned, (h.slots slot).dated⟩
  case described =>
    intro slot
    obtain hd | ⟨r, hr, hs⟩ := h.described slot
    · exact .inl hd
    · exact .inr ⟨r, List.mem_append_left _ hr, hs⟩
  case listed => exact h.listed
  case kept =>
    intro r hr c hc
    obtain hr | rfl := hmem r hr
    · exact h.kept r hr c hc
    · cases hc
  case destroyed => exact h.destroyed

/-- A background changes. -/
theorem Inv.setOutputBackground (h : Inv s) (name : String) (background : OutputBackground) :
    Inv (s.setOutputBackground name background) := by
  constructor
  case listed =>
    have hsame : pairs (s.setOutputBackground name background).entries = pairs s.entries := by
      apply pairs_modify
      exact fun _ ↦ ⟨rfl, rfl⟩
    exact fun c hc ↦ h.listed c (hsame ▸ hc)
  case named =>
    intro r hr u hu e he
    obtain ⟨e', he', hslot⟩ := find_modify he fun _ ↦ ⟨rfl, rfl⟩
    exact hslot ▸ h.named r hr u hu e' he'
  case slots => exact fun slot ↦ ⟨(h.slots slot).owned, (h.slots slot).dated⟩
  case exclusive => exact h.exclusive
  case queue => exact h.queue
  case phases => exact h.phases
  case described => exact h.described
  case kept => exact h.kept
  case destroyed => exact h.destroyed

/-- A path keeps the slot it wants. -/
theorem slot_mem_slots (path : Path) : path.slot ∈ path.slots := by
  cases path with
  | stop before item rest =>
    exact List.mem_map_of_mem (f := Item.slot) (List.mem_append_right _ List.mem_cons_self)
  | reopen before item rest =>
    exact List.mem_map_of_mem (f := Item.slot) (List.mem_append_right _ List.mem_cons_self)
  | _ => exact List.mem_cons_self

/-- A thread keeps the slot whose gate it holds. -/
theorem mem_slots_of_holds (h : p.holds = some slot) : slot ∈ p.slots := by
  cases p with
  | holding path stage =>
    cases h
    exact slot_mem_slots path
  | opening spec slot' o =>
    cases h
    exact List.mem_singleton_self _
  | adding spec slot' o start =>
    cases h
    exact List.mem_singleton_self _
  | _ => cases h

/-- A path keeps the slots it has copies of. -/
theorem mem_path_slots {path : Path} {c : ℕ × Description} (h : c ∈ path.copies) :
    c.1 ∈ path.slots := by
  cases path with
  | submit target rest =>
    obtain ⟨t, ht, rfl⟩ := List.mem_map.mp h
    exact List.mem_map_of_mem ht
  | probe | replace | preview =>
    obtain rfl := List.mem_singleton.mp h
    exact List.mem_singleton_self _
  | _ => cases h

/-- A thread keeps the slots it has copies of. -/
theorem mem_slots_of_copies {c : ℕ × Description} (h : c ∈ p.copies) : c.1 ∈ p.slots := by
  cases p with
  | ticking targets =>
    obtain ⟨t, ht, rfl⟩ := List.mem_map.mp h
    exact List.mem_map_of_mem ht
  | waiting path => exact mem_path_slots h
  | holding path stage => exact mem_path_slots h
  | returned path result => exact mem_path_slots h
  | assigning | disabling =>
    obtain rfl := List.mem_singleton.mp h
    exact List.mem_singleton_self _
  | _ => cases h

/-- The last copy of a slot goes. -/
theorem Inv.reclaim (h : Inv s) (slot : ℕ) (hkept : s.kept slot = false) :
    Inv (s.reclaim slot) := by
  obtain ⟨hentries, hthreads⟩ := Bool.or_eq_false_iff.mp hkept
  rw [List.any_eq_false] at hentries hthreads
  have hslot (slot' : ℕ) (hne : slot' ≠ slot) : (s.reclaim slot).slots slot' = s.slots slot' :=
    Function.update_of_ne hne _ _
  have howned (slot' o : ℕ) (hne : slot' ≠ slot) (ho : s.Owned slot' o) :
      (s.reclaim slot).Owned slot' o := by
    obtain ⟨⟨x, hx, hhome⟩, hnot⟩ := ho
    refine ⟨⟨x, hx, hhome⟩, fun hd ↦ ?_⟩
    obtain hd | hd := List.mem_append.mp hd
    · obtain ⟨⟨y, hy, hhome'⟩, -⟩ := (h.slots slot).owned o (Option.mem_toList.mp hd)
      rw [hx] at hy
      cases hy
      exact hne (hhome.symm.trans hhome')
    · exact hnot hd
  have hcurrent (c : ℕ × Description) (hne : c.1 ≠ slot) (hc : s.Current c) :
      (s.reclaim slot).Current c := by
    rw [Current, hslot c.1 hne]
    exact hc
  have hself : (s.reclaim slot).slots slot = {} := Function.update_self ..
  constructor
  case exclusive => exact h.exclusive
  case queue => exact h.queue
  case named => exact h.named
  case phases =>
    intro r hr
    have hapart (slot' : ℕ) (hs : r.holds = some slot') : slot' ≠ slot := by
      rintro rfl
      exact hthreads r hr (decide_eq_true (mem_slots_of_holds hs))
    exact (h.phases r hr).frame (fun slot' hs ↦ hslot slot' (hapart slot' hs))
      fun slot' o hs ho ↦ howned slot' o (hapart slot' hs) ho
  case slots =>
    intro slot'
    by_cases hne : slot' = slot
    · subst hne
      constructor
      · rw [hself]
        intro _ hx
        cases hx
      · rw [hself]
    · exact (h.slots slot').frame (hslot slot' hne) fun o ho ↦ howned slot' o hne ho
  case described =>
    intro slot'
    by_cases hne : slot' = slot
    · subst hne
      left
      rw [Described, hself]
      rfl
    · rw [Described, hslot slot' hne]
      exact h.described slot'
  case listed =>
    intro c hc
    obtain ⟨e, he, rfl⟩ := List.mem_map.mp hc
    exact hcurrent _ (fun heq ↦ hentries e he (decide_eq_true heq)) (h.listed _ hc)
  case kept =>
    intro r hr c hc
    refine hcurrent c (fun heq ↦ hthreads r hr (decide_eq_true ?_)) (h.kept r hr c hc)
    exact heq ▸ mem_slots_of_copies hc
  case destroyed =>
    intro o ho
    obtain hd | hd := List.mem_append.mp ho
    · exact ((h.slots slot).owned o (Option.mem_toList.mp hd)).lt
    · exact h.destroyed o hd

/-- Every step keeps the invariant. -/
theorem Inv.step (h : Inv s) (a : Action) (ht : s.step a = some t) : Inv t := by
  cases a with
  | plan stale =>
    rw [State.step] at ht
    split at ht
    · next hp =>
      cases ht
      exact h.plan hp stale
    · cases ht
  | request request =>
    rw [State.step] at ht
    split at ht
    · cases ht
    · next hfree =>
      cases ht
      refine h.request request fun hq ↦ ?_
      rw [hq, Bool.true_and, Option.not_isSome_iff_eq_none] at hfree
      exact hfree
  | advance i a =>
    obtain ⟨p, hp, ht⟩ := Option.bind_eq_some_iff.mp ht
    exact h.advance hp ht
  | acquire i =>
    rw [State.step] at ht
    split at ht
    · next hp =>
      split at ht
      · next hfree =>
        cases ht
        exact h.acquire hp hfree
      · cases ht
    · cases ht
  | giveUp i =>
    rw [State.step] at ht
    split at ht
    · next path hp =>
      cases ht
      exact h.onwards hp rfl rfl id (fun _ hc ↦ hc) fun _ hu ↦ hu
    · cases ht
  | setOutputBackground name background =>
    cases ht
    exact h.setOutputBackground name background
  | reclaim slot =>
    rw [State.step] at ht
    split at ht
    · cases ht
    · next hkept =>
      cases ht
      exact h.reclaim slot (Bool.not_eq_true _ ▸ hkept)

end State
end WebLinked.Engine.SlotCalls
