import WebLinked.Engine.GateSteps

/-!
# A payload reaches the object it was made for

From the start of the engine on, whatever its threads do, a frame is submitted to the object whose
description the tick was planned with, and no object is destroyed under a call.
-/

namespace WebLinked.Engine.SlotCalls

open WebLinked.Base WebLinked.Core
open WebLinked.Engine.OutputList (OutputSpec)

namespace State

variable {s t : State} {slot o : ℕ}

/-- One more output is opened before the clock runs. -/
theorem Inv.opened (h : Inv s) (hthreads : s.threads = [.ticking []]) {u : State} {e : Entry}
    (threads : u.threads = s.threads) (destroyed : u.destroyed = s.destroyed)
    (objects : ∀ (o : ℕ) (x : Object), s.objects[o]? = some x → u.objects[o]? = some x)
    (elsewhere : ∀ slot', slot' ≠ slot → u.slots slot' = s.slots slot')
    (generation : (u.slots slot).generation = (s.slots slot).generation)
    (owned : ∀ o, (u.slots slot).output = some o → u.Owned slot o) (hslot : e.slot = slot)
    (hdesc : e.desc = ((u.refresh slot).slots slot).description) :
    Inv { u.refresh slot with entries := s.entries ++ [e] } := by
  have hself := refresh_slotOk owned
  have hother (slot' : ℕ) (hne : slot' ≠ slot) : (u.refresh slot).slots slot' = s.slots slot' :=
    (slots_refresh_of_ne hne u).trans (elsewhere slot' hne)
  have hclock (r : Phase) (hr : r ∈ u.threads) : r = .ticking [] := by
    rw [threads, hthreads] at hr
    exact List.mem_singleton.mp hr
  have hat (j : ℕ) (r : Phase) (hj : u.threads[j]? = some r) : r = .ticking [] :=
    hclock r (List.mem_of_getElem? hj)
  have howned (slot' o : ℕ) (ho : s.Owned slot' o) : (u.refresh slot).Owned slot' o := by
    obtain ⟨⟨x, hx, hhome⟩, hnot⟩ := ho
    exact ⟨⟨x, objects o x hx, hhome⟩, destroyed ▸ hnot⟩
  have hcurrent (c : ℕ × Description) (hc : s.Current c) : (u.refresh slot).Current c := by
    by_cases hne : c.1 = slot
    · have hlt := lt_refresh u slot
      rw [generation, ← hne] at hlt
      have hlt := lt_of_le_of_lt hc.1 hlt
      exact ⟨hne ▸ hlt.le, fun heq ↦ absurd (hne ▸ heq) hlt.ne⟩
    · rw [Current, hother c.1 hne]
      exact hc
  constructor
  case exclusive =>
    intro j k p q slot' hj hk hp hq
    rw [hat j p hj] at hp
    cases hp
  case queue =>
    intro j r hj hr
    rw [hat j r hj] at hr
    cases hr
  case named =>
    intro r hr v hv
    rw [hclock r hr] at hv
    cases hv
  case phases =>
    intro r hr
    rw [hclock r hr]
    trivial
  case slots =>
    intro slot'
    by_cases hne : slot' = slot
    · subst hne
      exact ⟨hself.owned, hself.dated⟩
    · have hok := (h.slots slot').frame (hother slot' hne) (howned slot')
      exact ⟨hok.owned, hok.dated⟩
  case described =>
    intro slot'
    left
    by_cases hne : slot' = slot
    · subst hne
      exact refresh_described u slot'
    · obtain hd | ⟨r, hr, hs⟩ := h.described slot'
      · exact hd.frame (t := u.refresh slot) (h.slots slot') (hother slot' hne) objects
      · rw [← threads] at hr
        rw [hclock r hr] at hs
        cases hs
  case listed =>
    intro c hc
    rw [pairs, List.map_append, List.mem_append] at hc
    obtain hc | hc := hc
    · exact hcurrent c (h.listed c hc)
    · obtain rfl := List.mem_singleton.mp hc
      show State.Current _ (e.slot, e.desc)
      rw [hslot, hdesc]
      exact ⟨hself.dated.le, fun _ ↦ rfl⟩
  case kept =>
    intro r hr c hc
    rw [hclock r hr] at hc
    cases hc
  case destroyed =>
    intro o ho
    obtain ⟨x, hx⟩ : ∃ x, s.objects[o]? = some x :=
      ⟨_, List.getElem?_eq_getElem (h.destroyed o (destroyed ▸ ho))⟩
    exact (List.getElem?_eq_some_iff.mp (objects o x hx)).1

/-- The engine opens one output. -/
theorem Inv.openOutput (h : Inv s) (hthreads : s.threads = [.ticking []])
    (opened : OutputSpec × Except String Backend × Option String) :
    Inv (s.openOutput opened) ∧ (s.openOutput opened).threads = [.ticking []] := by
  obtain ⟨spec, created, start⟩ := opened
  cases created with
  | error message =>
    refine ⟨?_, hthreads⟩
    exact h.opened hthreads rfl rfl (fun _ _ hx ↦ hx) (fun _ _ ↦ rfl) rfl
      (h.slots s.entries.length).owned rfl rfl
  | ok backend =>
    refine ⟨?_, hthreads⟩
    refine h.opened hthreads (u := (s.create backend s.entries.length).put s.entries.length
      (some s.objects.length)) rfl rfl (fun _ _ ↦ create_objects backend _)
      (fun slot hne ↦ slots_put_of_ne hne (s.create backend s.entries.length) _) ?_ ?_ rfl rfl
    · rw [slots_put_self]
      rfl
    · intro o ho
      rw [slots_put_self] at ho
      cases ho
      exact h.create_owned backend _

/-- An engine that has opened nothing. -/
theorem inv_empty : Inv {} where
  exclusive j k p q slot hj hk hp hq := by
    rw [List.mem_singleton.mp (List.mem_of_getElem? hj)] at hp
    cases hp
  queue j r hj hr := by
    rw [List.mem_singleton.mp (List.mem_of_getElem? hj)] at hr
    cases hr
  named r hr v hv := by
    rw [List.mem_singleton.mp hr] at hv
    cases hv
  phases r hr := by
    rw [List.mem_singleton.mp hr]
    trivial
  slots slot := ⟨nofun, rfl⟩
  described slot := .inl rfl
  listed c hc := absurd hc List.not_mem_nil
  kept r hr c hc := by
    rw [List.mem_singleton.mp hr] at hc
    cases hc
  destroyed o ho := absurd ho List.not_mem_nil

/-- An engine that has started. -/
theorem inv_start (outputs : List (OutputSpec × Except String Backend × Option String)) :
    Inv (start outputs) := by
  have hfold (s : State) (h : Inv s) (hthreads : s.threads = [.ticking []]) :
      Inv (outputs.foldl State.openOutput s) := by
    induction outputs generalizing s with
    | nil => exact h
    | cons opened outputs ih =>
      obtain ⟨hinv, hclock⟩ := h.openOutput hthreads opened
      exact ih _ hinv hclock
  exact hfold {} inv_empty rfl

/-- The invariant holds in every run. -/
theorem inv_of_reachable (h : machine.Reachable s) : Inv s := by
  refine h.invariant ?_ ?_
  · rintro s ⟨outputs, rfl⟩
    exact inv_start outputs
  · exact fun s a t _ hs ht ↦ hs.step a ht

/-- The object of a call is in the slot whose gate the caller holds, or on its way there. -/
theorem Inv.calls_owned (h : Inv s) {p : Phase} (hp : p ∈ s.threads) (ho : p.calls = some o) :
    ∃ slot, p.holds = some slot ∧ s.Owned slot o := by
  have hok := h.phases p hp
  cases p with
  | holding path stage =>
    refine ⟨path.slot, rfl, ?_⟩
    cases stage with
    | calling o' =>
      cases ho
      exact (h.slots path.slot).owned o hok.2.1
    | stopping o' =>
      cases ho
      exact (h.slots path.slot).owned o hok.2
    | starting o' =>
      cases ho
      exact hok.2.2
    | restoring r error o' =>
      cases ho
      exact (h.slots path.slot).owned o hok.2.1
    | _ => cases ho
  | opening spec slot o' =>
    cases ho
    exact ⟨slot, rfl, hok⟩
  | _ => cases ho

/-- A request destroys nothing as it begins. -/
theorem destroyed_enter (s : State) (i : ℕ) (a : Answer) (request : Request) :
    (s.enter i a request).destroyed = s.destroyed := by
  cases request <;> simp only [State.enter] <;> repeat' split
  all_goals rfl

/-- Nor as it writes down what came of a call. -/
theorem destroyed_commit (s : State) (i : ℕ) (path : Path) (result : Result) :
    (s.commit i path result).destroyed = s.destroyed := by
  cases path <;> simp only [State.commit] <;> repeat' split
  all_goals rfl

/-- What a thread with a gate destroys is what was in its slot, and it is not calling it. -/
theorem Inv.destroyed_hold (h : Inv s) {i : ℕ} {path : Path} {stage : Stage} {a : Answer}
    (hp : s.threads[i]? = some (.holding path stage)) (ho : o ∈ (s.hold i a path stage).destroyed) :
    o ∈ s.destroyed ∨ s.Owned path.slot o ∧ (Phase.holding path stage).calls = none := by
  have hok : s.StageOk path stage := h.knows hp
  cases stage with
  | stopped o' =>
    obtain rfl | ho := List.mem_cons.mp ho
    · exact .inr ⟨(h.slots path.slot).owned o hok.2, rfl⟩
    · exact .inl ho
  | discarding r error restored =>
    cases r with
    | none => exact .inl ho
    | some r =>
      obtain rfl | ho := List.mem_cons.mp ho
      · exact .inr ⟨(hok.2 o rfl).1, rfl⟩
      · exact .inl ho
  | emptied =>
    left
    cases path with
    | replace u =>
      revert ho
      rw [State.hold]
      split
      · exact id
      · exact id
    | _ => exact ho
  | starting r =>
    left
    revert ho
    rw [State.hold]
    split
    · exact id
    · exact id
  | failed r error =>
    left
    cases hcreate : a.create with
    | error message =>
      simp only [State.hold, hcreate] at ho
      exact ho
    | ok backend =>
      simp only [State.hold, hcreate] at ho
      cases path <;> exact ho
  | calling | stopping | restoring => exact .inl ho

/-- What a step destroys was in the slot of a gate that is held by a thread in no call, or in a slot
that nobody has. -/
theorem Inv.destroyed_step (h : Inv s) {a : Action} (ht : s.step a = some t)
    (ho : o ∈ t.destroyed) :
    o ∈ s.destroyed ∨ ∃ slot, s.Owned slot o ∧
      ∀ p ∈ s.threads, p.holds = some slot → p.calls = none := by
  cases a with
  | plan stale =>
    rw [State.step] at ht
    split at ht
    · cases ht
      exact .inl ho
    · cases ht
  | request request =>
    rw [State.step] at ht
    split at ht
    · cases ht
    · cases ht
      exact .inl ho
  | advance i a =>
    obtain ⟨p, hp, ht⟩ := Option.bind_eq_some_iff.mp ht
    cases p with
    | holding path stage =>
      cases ht
      obtain ho | ⟨howned, hnone⟩ := h.destroyed_hold hp ho
      · exact .inl ho
      · refine .inr ⟨path.slot, howned, fun q hq hs ↦ ?_⟩
        obtain rfl := h.eq_of_holds hp hq rfl hs
        exact hnone
    | entered request =>
      cases ht
      exact .inl (destroyed_enter s i a request ▸ ho)
    | returned path result =>
      cases ht
      exact .inl (destroyed_commit s i path result ▸ ho)
    | creating spec =>
      left
      rw [State.advance] at ht
      split at ht
      · cases ht
        exact ho
      · split at ht
        · cases ht
          exact ho
        · cases ht
    | ticking rest | stops _ rest | reopens _ rest | closes rest | reports rest =>
      left
      cases rest <;> cases ht <;> exact ho
    | _ =>
      left
      cases ht <;> exact ho
  | acquire i =>
    rw [State.step] at ht
    split at ht
    · split at ht
      · cases ht
        exact .inl ho
      · cases ht
    · cases ht
  | giveUp i =>
    rw [State.step] at ht
    split at ht
    · cases ht
      exact .inl ho
    · cases ht
  | setOutputBackground name background =>
    cases ht
    exact .inl ho
  | reclaim slot =>
    rw [State.step] at ht
    split at ht
    · cases ht
    · next hkept =>
      cases ht
      obtain hd | hd := List.mem_append.mp ho
      · refine .inr ⟨slot, (h.slots slot).owned o (Option.mem_toList.mp hd), fun p hp hs ↦ ?_⟩
        refine absurd (Bool.or_eq_true_iff.mpr (.inr ?_)) hkept
        exact List.any_eq_true.mpr ⟨p, hp, decide_eq_true (mem_slots_of_holds hs)⟩
      · exact .inl hd

end State

/-- A frame goes to the object that its plan describes, in that object's form, and an object that
is in a call is not destroyed. -/
structure Sound (s : State) : Prop where
  submits : ∀ target rest o, Phase.holding (.submit target rest) (.calling o) ∈ s.threads →
    target.desc.object = some o ∧ ∃ x, s.objects[o]? = some x ∧
      target.desc.pixelFormat = x.backend.pixelFormat ∧
      target.desc.straightAlpha = x.backend.wantsStraightAlpha ∧
      target.form = x.backend.form target.background
  calls : ∀ p ∈ s.threads, ∀ o, p.calls = some o → o ∉ s.destroyed
  destroys : ∀ a t, s.step a = some t → ∀ o ∈ t.destroyed, o ∉ s.destroyed →
    ∀ p ∈ s.threads, p.calls ≠ some o

/-- The invariant says who is called. -/
theorem State.Inv.submits {s : State} (h : State.Inv s) {target : Target} {rest : List Target}
    {o : ℕ} (hp : Phase.holding (.submit target rest) (.calling o) ∈ s.threads) :
    target.desc.object = some o ∧ ∃ x, s.objects[o]? = some x ∧
      target.desc.pixelFormat = x.backend.pixelFormat ∧
      target.desc.straightAlpha = x.backend.wantsStraightAlpha := by
  obtain ⟨-, ho, hdate⟩ := h.phases _ hp
  obtain ⟨⟨x, hx, -⟩, -⟩ := (h.slots target.slot).owned o ho
  have hcurrent := h.kept _ hp (target.slot, target.desc) List.mem_cons_self
  have hdesc : target.desc = (s.slots target.slot).description := hcurrent.2 (hdate target rest rfl)
  have hdescribed : s.Described target.slot := by
    obtain hd | ⟨q, hq, hs⟩ := h.described target.slot
    · exact hd
    · -- a thread that replaces the object would have the gate that this one has
      obtain ⟨i, hi⟩ := List.getElem?_of_mem hp
      cases h.eq_of_holds hi hq rfl (State.holds_of_replaces hs)
      cases hs
  rw [hdesc, hdescribed, show (s.slots target.slot).output = some o from ho]
  simp only [State.describe, Option.bind_some, hx]
  exact ⟨trivial, x, rfl, rfl, rfl⟩

/-- Whatever its clock and its requests do, an engine is sound. -/
theorem sound_of_reachable {s : State} (h : machine.Reachable s) : Sound s := by
  have hinv := State.inv_of_reachable h
  constructor
  · intro target rest o hp
    obtain ⟨hobject, x, hx, hformat, halpha⟩ := hinv.submits hp
    refine ⟨hobject, x, hx, hformat, halpha, ?_⟩
    rw [Target.form, Backend.form, hformat, halpha]
  · intro p hp o ho
    obtain ⟨slot, -, howned⟩ := hinv.calls_owned hp ho
    exact howned.2
  · intro a t ht o hd hnot p hp ho
    obtain hd | ⟨slot, howned, hidle⟩ := hinv.destroyed_step ht hd
    · exact hnot hd
    · obtain ⟨slot', hs, howned'⟩ := hinv.calls_owned hp ho
      obtain ⟨⟨x, hx, hhome⟩, -⟩ := howned
      obtain ⟨⟨y, hy, hhome'⟩, -⟩ := howned'
      rw [hx] at hy
      cases hy
      rw [hidle p hp (hs.trans (congrArg some (hhome'.symm.trans hhome)))] at ho
      cases ho

/-- A frame is being submitted to this object. -/
def Phase.submits (object : ℕ) : Phase → Bool
  | .holding (.submit _ _) (.calling o) => o = object
  | _ => false

/-- A tick planned for an output that is replaced before its gate is had goes nowhere, and the next
goes to the replacement. -/
theorem sound_replaced : ∃ s, machine.run
    (start [({ kind := "ndi", name := "out" }, .ok ⟨.kBGRA, true, false⟩, none)])
    [.plan false, .advance 0 {}, .request (.updateOutput "out" { kind := "decklink", name := "out" }),
      .advance 1 {}, .giveUp 1, .advance 1 {}, .advance 1 {}, .acquire 1, .advance 1 {},
      .advance 1 {}, .advance 1 { create := .ok ⟨.kUYVY, false, true⟩ }, .advance 1 {}, .acquire 0,
      .advance 0 {}, .advance 1 {}, .plan false, .advance 0 {}, .acquire 0] = some s ∧
    s.threads.any (Phase.submits 1) ∧ Sound s := by
  have hsound (outputs : List (OutputSpec × Except String Backend × Option String))
      (actions : List Action)
      (h : (machine.run (start outputs) actions).any (·.threads.any (Phase.submits 1)) = true) :
      ∃ s, machine.run (start outputs) actions = some s ∧
        s.threads.any (Phase.submits 1) ∧ Sound s := by
    obtain ⟨s, hs, hsubmits⟩ := (Option.any_eq_true _ _).mp h
    have hinit : machine.Reachable (start outputs) := .init ⟨outputs, rfl⟩
    exact ⟨s, hs, hsubmits, sound_of_reachable (hinit.run actions hs)⟩
  exact hsound _ _ (by decide +kernel)

end WebLinked.Engine.SlotCalls
