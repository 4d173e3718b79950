import WebLinked.Engine.OutputRequests

/-!
# A refused change of an output leaves the list as it was

`src/engine/engine.cpp:834–919,995–1231`. Until it returns, a request that changes one output
differs from the list it found in the flag it cleared, and in the slot if a driver call ran.
-/

namespace WebLinked.Engine.OutputRequests

open WebLinked.Base WebLinked.Core Json OutputList

variable {s₀ s t : State} {name : String} {records : List Record}

/-- The record but for its background. -/
def Record.settled (r : Record) : Record := { r with spec := { r.spec with background := {} } }

/-- Name, kind, device and options. -/
def Record.setting (r : Record) : String × String × ℤ × Value :=
  (r.spec.name, r.spec.kind, r.spec.deviceIndex, r.spec.options)

section Modify

variable {f g : Record → Record}

/-- A change of everything but the background, whatever the backgrounds are. -/
private theorem settled_modify (h : ∀ r : Record, (f r).settled = f r.settled) (name : String)
    (records : List Record) :
    (modify name f records).map Record.settled = modify name f (records.map Record.settled) := by
  induction records with
  | nil => rfl
  | cons r records ih =>
    have hname : r.settled.spec.name = r.spec.name := rfl
    rw [modify, List.map_cons, modify, hname]
    split
    · rw [List.map_cons, h]
    · rw [List.map_cons, ih]

/-- The flag goes back to what it was. -/
private theorem modify_feed_feed {r : Record} (hr : find records name = some r) (enabled : Bool) :
    modify name (Record.feed r.enabled) (modify name (Record.feed enabled) records) = records := by
  induction records with
  | nil => cases hr
  | cons x records ih =>
    rw [find, List.find?_cons] at hr
    by_cases hx : x.spec.name = name
    · simp only [hx, decide_true, Option.some.injEq] at hr
      subst hr
      simp [modify, hx, Record.feed]
    · simp only [hx, decide_false] at hr
      simp [modify, hx, ih hr]

private theorem modify_feed_self {r : Record} (hr : find records name = some r) :
    modify name (Record.feed r.enabled) records = records := by
  induction records with
  | nil => cases hr
  | cons x records ih =>
    rw [find, List.find?_cons] at hr
    by_cases hx : x.spec.name = name
    · simp only [hx, decide_true, Option.some.injEq] at hr
      subst hr
      simp [modify, hx, Record.feed]
    · simp only [hx, decide_false] at hr
      simp [modify, hx, ih hr]

private theorem find_settled (records : List Record) (name : String) :
    (find (records.map Record.settled) name).map Record.enabled =
      (find records name).map Record.enabled := by
  rw [find, List.find?_map, Option.map_map]
  rfl

end Modify

/-- The list is this one, whatever the backgrounds are. -/
def Holds (s : State) (records : List Record) : Prop :=
  s.records.map Record.settled = records.map Record.settled

/-- What a request that returned with false has left. -/
def Undone (s₀ s : State) : Outcome → Prop
  | .accepted => True
  | .refused _ => Holds s s₀.records ∧ s.slots = s₀.slots
  | .failed _ => s.records.map Record.setting = s₀.records.map Record.setting

/-- The list while one of its outputs is not fed. -/
def cleared (s₀ : State) (name : String) : List Record :=
  modify name (Record.feed false) s₀.records

/-- A request that changes one output. -/
def Request.changes : Request → Bool
  | .setOutputEnabled _ _ | .updateOutput _ _ | .removeOutput _ => true
  | _ => false

/-- What the request that has the queue has made of the list `s₀` had. -/
def Tracks (s₀ s : State) : Option Phase → Prop
  | none => ∀ outcome, s.ended = some outcome → Undone s₀ s outcome
  | some (.entered request) => request.changes ∧ Holds s s₀.records ∧ s.slots = s₀.slots
  | some (.enabling name enabled wasEnabled _ _) =>
    (find s₀.records name).map Record.enabled = some wasEnabled ∧
      Holds s (if enabled then s₀.records else cleared s₀ name) ∧ s.slots = s₀.slots
  | some (.enabled name enabled wasEnabled result) =>
    (find s₀.records name).map Record.enabled = some wasEnabled ∧
      Holds s (if enabled then s₀.records else cleared s₀ name) ∧
        ((∃ start, result = .ran start) ∨ s.slots = s₀.slots)
  | some (.probing u) | some (.assigning u) | some (.disabling u) =>
    (find s₀.records u.name).map Record.enabled = some u.wasEnabled ∧
      Holds s s₀.records ∧ s.slots = s₀.slots
  | some (.replacing u) =>
    (find s₀.records u.name).map Record.enabled = some u.wasEnabled ∧
      Holds s (cleared s₀ u.name) ∧ s.slots = s₀.slots
  | some (.replaced u result) =>
    (find s₀.records u.name).map Record.enabled = some u.wasEnabled ∧
      Holds s (cleared s₀ u.name) ∧ ((∀ millis, result ≠ .busy millis) ∨ s.slots = s₀.slots)
  | some (.removing name wasEnabled _) =>
    (find s₀.records name).map Record.enabled = some wasEnabled ∧
      Holds s (cleared s₀ name) ∧ s.slots = s₀.slots
  | some (.removed name wasEnabled gate) =>
    (find s₀.records name).map Record.enabled = some wasEnabled ∧
      Holds s (cleared s₀ name) ∧ (gate = .ran ∨ s.slots = s₀.slots)
  | _ => False

section Holds

/-- The flag that is found is the one in the list. -/
private theorem Holds.found (h : Holds s records) (name : String) :
    (find s.records name).map Record.enabled = (find records name).map Record.enabled := by
  rw [← find_settled, h, find_settled]

/-- The names, kinds, devices and options are those in the list. -/
private theorem Holds.settings (h : Holds s records) :
    s.records.map Record.setting = records.map Record.setting := by
  have hsetting (records : List Record) :
      records.map Record.setting = (records.map Record.settled).map Record.setting := by
    rw [List.map_map]
    rfl
  rw [hsetting, h, ← hsetting]

private theorem Holds.modify {f : Record → Record} (h : Holds s records)
    (hf : ∀ r : Record, (f r).settled = f r.settled) (name : String) :
    (modify name f s.records).map Record.settled =
      (OutputRequests.modify name f records).map Record.settled := by
  rw [settled_modify hf, h, settled_modify hf]

private theorem Holds.clear (h : Holds s s₀.records) (name : String) :
    (OutputRequests.modify name (Record.feed false) s.records).map Record.settled =
      (cleared s₀ name).map Record.settled :=
  h.modify (f := Record.feed false) (fun _ ↦ rfl) name

/-- The output is still there. -/
private theorem Holds.ne_none {enabled wasEnabled : Bool}
    (h : Holds s (if enabled then s₀.records else cleared s₀ name))
    (hw : (find s₀.records name).map Record.enabled = some wasEnabled) :
    find s.records name ≠ none := by
  intro hnone
  have hfound := h.found name
  rw [hnone] at hfound
  obtain ⟨r, hr, -⟩ := Option.map_eq_some_iff.mp hw
  cases enabled with
  | true => simp [hr] at hfound
  | false =>
    have hself := find_modify_self (f := Record.feed false) (fun _ ↦ rfl) name s₀.records
    simp [cleared, hself, hr] at hfound

/-- The flag is put back. -/
private theorem Holds.restored {enabled wasEnabled : Bool}
    (h : Holds s (if enabled then s₀.records else cleared s₀ name))
    (hw : (find s₀.records name).map Record.enabled = some wasEnabled) :
    (OutputRequests.modify name (Record.feed wasEnabled) s.records).map Record.settled =
      s₀.records.map Record.settled := by
  obtain ⟨r, hr, rfl⟩ := Option.map_eq_some_iff.mp hw
  rw [h.modify (f := Record.feed r.enabled) fun _ ↦ rfl]
  cases enabled with
  | true => rw [if_pos rfl, modify_feed_self hr]
  | false => rw [if_neg (by simp), cleared, modify_feed_feed hr]

/-- What is written of an output that did not start leaves the settings. -/
private theorem Holds.failed {f : Record → Record} {enabled : Bool}
    (h : Holds s (if enabled then s₀.records else cleared s₀ name))
    (hf : ∀ r : Record, (f r).setting = r.setting) :
    (OutputRequests.modify name f s.records).map Record.setting =
      s₀.records.map Record.setting := by
  rw [map_modify _ hf, h.settings]
  cases enabled with
  | true => rw [if_pos rfl]
  | false =>
    rw [if_neg (by simp), cleared, map_modify (f := Record.feed false) Record.setting fun _ ↦ rfl]

end Holds

/-- Only the list but for its backgrounds, the slots and the outcome count. -/
private theorem Tracks.congr {phase : Option Phase} (h : Tracks s₀ s phase)
    (hr : t.records.map Record.settled = s.records.map Record.settled) (hs : t.slots = s.slots)
    (he : t.ended = s.ended) : Tracks s₀ t phase := by
  have hsetting : t.records.map Record.setting = s.records.map Record.setting :=
    Holds.settings hr
  unfold Tracks Undone Holds at *
  simp only [hr, hs, he, hsetting]
  exact h

private theorem tracks_finish {records' : List Record} {outcome : Outcome}
    (h : Undone s₀ (s.finish records' outcome) outcome) :
    Tracks s₀ (s.finish records' outcome) (s.finish records' outcome).current := by
  intro other hother
  cases hother
  exact h

/-- A request finds its output, or returns with the list as it was. -/
private theorem Tracks.entered {request : Request} (hc : request.changes) (hh : Holds s s₀.records)
    (hs : s.slots = s₀.slots) (a : Answers) :
    Tracks s₀ (s.advance a (.entered request)) (s.advance a (.entered request)).current := by
  have hrefused (message : String) : Undone s₀ (s.finish s.records (.refused message))
      (.refused message) := ⟨hh, hs⟩
  have hfound {name : String} {r : Record} (hr : find s.records name = some r) :
      (find s₀.records name).map Record.enabled = some r.enabled := by
    rw [← hh.found, hr]
    rfl
  cases request with
  | addOutput spec => cases hc
  | setFormat waiting => cases hc
  | setOutputEnabled name enabled =>
    rw [State.advance, State.enterEnable]
    split
    · exact tracks_finish (hrefused _)
    · next r hr =>
      split
      · exact tracks_finish (hrefused _)
      · refine ⟨hfound hr, ?_, hs⟩
        cases enabled with
        | true => exact hh
        | false => exact hh.clear name
  | updateOutput name spec =>
    rw [State.advance, State.enterUpdate]
    split
    · exact tracks_finish (hrefused _)
    · next r hr =>
      split
      · exact tracks_finish (hrefused _)
      · split
        · exact tracks_finish (hrefused _)
        · split
          · exact tracks_finish (hrefused _)
          · exact ⟨hfound hr, hh, hs⟩
  | removeOutput name =>
    rw [State.advance, State.enterRemove]
    split
    · exact tracks_finish (hrefused _)
    · next r hr =>
      split
      · exact tracks_finish (hrefused _)
      · exact ⟨hfound hr, hh.clear name, hs⟩

/-- Every step of a request that changes one output keeps track of the list it found. -/
private theorem Tracks.advance {phase : Phase} (h : Tracks s₀ s (some phase)) (a : Answers) :
    Tracks s₀ (s.advance a phase) (s.advance a phase).current := by
  cases phase with
  | entered request => exact Tracks.entered h.1 h.2.1 h.2.2 a
  | enabling name enabled wasEnabled slot format =>
    obtain ⟨hw, hh, hs⟩ := h
    rw [State.advance, State.driveEnable]
    split
    · exact ⟨hw, hh, Or.inr hs⟩
    · exact ⟨hw, hh, Or.inr hs⟩
    · split
      · split
        · exact ⟨hw, hh, Or.inl ⟨_, rfl⟩⟩
        · exact ⟨hw, hh, Or.inl ⟨_, rfl⟩⟩
      · exact ⟨hw, hh, Or.inl ⟨_, rfl⟩⟩
  | enabled name enabled wasEnabled result =>
    obtain ⟨hw, hh, hs⟩ := h
    have hback (hs : s.slots = s₀.slots) (message : String) :
        Undone s₀ (s.finish (modify name (Record.feed wasEnabled) s.records) (.refused message))
          (.refused message) := ⟨hh.restored hw, hs⟩
    cases result with
    | busy millis => exact tracks_finish (hback (hs.resolve_left nofun) _)
    | empty => exact tracks_finish (hback (hs.resolve_left nofun) _)
    | ran start =>
      rw [State.advance]
      unfold State.commitEnable
      dsimp only
      split
      · next hnone => exact absurd hnone (hh.ne_none hw)
      · split
        · exact tracks_finish trivial
        · split
          · exact tracks_finish (hh.failed fun _ ↦ rfl)
          · exact tracks_finish trivial
  | probing u =>
    have hgo : s.driveProbe u a.update = s.go s.records (.assigning u) ∨
        s.driveProbe u a.update = s.go s.records (.disabling u) := by
      rw [State.driveProbe]
      exact ite_eq_or_eq _ _ _
    rw [State.advance]
    rcases hgo with hgo | hgo <;> rw [hgo] <;> exact h
  | assigning u =>
    obtain ⟨hw, hh, hs⟩ := h
    rw [State.advance, State.commitAssign]
    split
    · exact tracks_finish ⟨hh, hs⟩
    · exact tracks_finish trivial
  | disabling u =>
    obtain ⟨hw, hh, hs⟩ := h
    exact ⟨hw, hh.clear u.name, hs⟩
  | replacing u =>
    obtain ⟨hw, hh, hs⟩ := h
    rw [State.advance, State.driveUpdate]
    split
    · exact ⟨hw, hh, Or.inr hs⟩
    · split
      · exact ⟨hw, hh, Or.inl nofun⟩
      · exact ⟨hw, hh, Or.inl nofun⟩
  | replaced u result =>
    obtain ⟨hw, hh, hs⟩ := h
    have hh' : Holds s (if false then s₀.records else cleared s₀ u.name) := hh
    cases result with
    | busy millis =>
      exact tracks_finish ⟨hh'.restored hw, hs.resolve_left fun hne ↦ hne millis rfl⟩
    | replaced =>
      rw [State.advance, State.commitUpdate]
      split
      · next hnone => exact absurd hnone (hh'.ne_none hw)
      · exact tracks_finish trivial
    | failed error restored =>
      rw [State.advance, State.commitUpdate]
      split
      · next hnone => exact absurd hnone (hh'.ne_none hw)
      · exact tracks_finish (hh'.failed fun _ ↦ rfl)
  | removing name wasEnabled slot =>
    obtain ⟨hw, hh, hs⟩ := h
    cases ha : a.remove with
    | busy millis =>
      rw [State.advance, ha]
      exact ⟨hw, hh, Or.inr hs⟩
    | ran =>
      rw [State.advance, ha]
      exact ⟨hw, hh, Or.inl rfl⟩
  | removed name wasEnabled gate =>
    obtain ⟨hw, hh, hs⟩ := h
    have hh' : Holds s (if false then s₀.records else cleared s₀ name) := hh
    cases gate with
    | busy millis => exact tracks_finish ⟨hh'.restored hw, hs.resolve_left nofun⟩
    | ran => exact tracks_finish trivial
  | creating spec format => exact h.elim
  | adding record start => exact h.elim
  | stopping w items => exact h.elim
  | parking w items => exact h.elim
  | reopening w parked items => exact h.elim
  | feeding w parked items => exact h.elim

/-- What comes between the steps of a request leaves what it tracks. -/
private theorem Tracks.between {a : Action} {phase : Option Phase} (h : Tracks s₀ s phase)
    (hrequest : ∀ request refusal, a ≠ .request request refusal)
    (hadvance : ∀ answers, a ≠ .advance answers) (ht : s.step a = some t) :
    Tracks s₀ t phase := by
  cases a with
  | request request refusal => exact absurd rfl (hrequest request refusal)
  | advance answers => exact absurd rfl (hadvance answers)
  | setOutputBackground name background =>
    cases ht
    refine h.congr ?_ rfl rfl
    exact map_modify (f := fun r ↦ { r with spec := { r.spec with background } }) Record.settled
      (fun _ ↦ rfl) name s.records
  | tick =>
    cases ht
    exact h

private theorem Tracks.step {a : Action} (h : Tracks s₀ s s.current)
    (ha : ∀ request refusal, a ≠ .request request refusal) (ht : s.step a = some t) :
    Tracks s₀ t t.current := by
  by_cases hadvance : ∃ answers, a = .advance answers
  · obtain ⟨answers, rfl⟩ := hadvance
    obtain ⟨phase, hphase, rfl⟩ := Option.map_eq_some_iff.mp ht
    rw [hphase] at h
    exact h.advance answers
  · have hadvance : ∀ answers, a ≠ .advance answers := fun answers h ↦ hadvance ⟨answers, h⟩
    have hcurrent : t.current = s.current := by
      cases a with
      | request request refusal => exact absurd rfl (ha request refusal)
      | advance answers => exact absurd rfl (hadvance answers)
      | setOutputBackground name background =>
        cases ht
        rfl
      | tick =>
        cases ht
        rfl
    rw [hcurrent]
    exact h.between ha hadvance ht

/-- So does a run until the request returns. -/
private theorem Tracks.run {actions : List Action} (h : Tracks s₀ s s.current)
    (ha : ∀ a ∈ actions, ∀ request refusal, a ≠ .request request refusal)
    (ht : machine.run s actions = some t) : Tracks s₀ t t.current := by
  induction actions generalizing s with
  | nil =>
    cases ht
    exact h
  | cons a actions ih =>
    obtain ⟨hfirst, hrest⟩ := List.forall_mem_cons.mp ha
    obtain ⟨u, hu, ht⟩ := Option.bind_eq_some_iff.mp ht
    exact ih (h.step hfirst hu) hrest ht

/-- And whatever else comes while another request has the queue. -/
private theorem Tracks.waits {actions : List Action} {phase : Option Phase}
    (h : Tracks s₀ s phase)
    (hrequest : ∀ a ∈ actions, ∀ request refusal, a ≠ .request request refusal)
    (hadvance : ∀ a ∈ actions, ∀ answers, a ≠ .advance answers)
    (ht : machine.run s actions = some t) : Tracks s₀ t phase := by
  induction actions generalizing s with
  | nil =>
    cases ht
    exact h
  | cons a actions ih =>
    obtain ⟨hfirst, hrest⟩ := List.forall_mem_cons.mp hrequest
    obtain ⟨hfirst', hrest'⟩ := List.forall_mem_cons.mp hadvance
    obtain ⟨u, hu, ht⟩ := Option.bind_eq_some_iff.mp ht
    exact ih (h.between hfirst hfirst' hu) hrest hrest' ht

private theorem Holds.map_eq {β : Type} (h : Holds t s.records) (p : Record → β)
    (hp : ∀ r : Record, p r.settled = p r) : t.records.map p = s.records.map p := by
  have hmap (records : List Record) :
      records.map p = (records.map Record.settled).map p := by
    rw [List.map_map]
    exact List.map_congr_left fun r _ ↦ (hp r).symm
  rw [hmap, h, ← hmap]

/-- A change of one output that returns with false, refused by the queue or later, whatever
backgrounds change and ticks come meanwhile, leaves names, kinds, devices and options as they
were, in their order; and where nothing failed to open, also the flags and the slots. -/
theorem refused_unchanged (s t : State) (request : Request) (hc : request.changes)
    (refusal : Option String) (actions : List Action)
    (ha : ∀ a ∈ actions, ∀ request refusal, a ≠ .request request refusal)
    (ht : machine.run s (.request request refusal :: actions) = some t)
    (hreturned : (refusal = none ∧ t.current = none) ∨
      (refusal ≠ none ∧ ∀ a ∈ actions, ∀ answers, a ≠ .advance answers)) :
    (∀ message, t.ended = some (.refused message) ∨ t.ended = some (.failed message) →
      t.records.map Record.setting = s.records.map Record.setting) ∧
    ∀ message, t.ended = some (.refused message) →
      t.records.map Record.enabled = s.records.map Record.enabled ∧
        (t.records.map fun r ↦ t.slots r.slot) = s.records.map fun r ↦ s.slots r.slot := by
  obtain ⟨u, hu, hrest⟩ := Option.bind_eq_some_iff.mp ht
  have htracks : Tracks s t none := by
    rcases hreturned with ⟨rfl, hcurrent⟩ | ⟨hrefusal, hadvance⟩
    · have hstart : Tracks s u u.current := by
        obtain ⟨-, hu⟩ := Option.ite_none_right_eq_some.mp hu
        cases hu
        exact ⟨hc, rfl, rfl⟩
      rw [← hcurrent]
      exact hstart.run ha hrest
    · obtain ⟨message, rfl⟩ := Option.ne_none_iff_exists'.mp hrefusal
      cases hu
      have hstart : Tracks s { s with ended := some (.refused message) } none := by
        intro outcome houtcome
        cases houtcome
        exact ⟨rfl, rfl⟩
      exact hstart.waits ha hadvance hrest
  refine ⟨fun message h ↦ ?_, fun message h ↦ ?_⟩
  · rcases h with h | h
    · exact (htracks _ h).1.settings
    · exact htracks _ h
  · obtain ⟨hholds, hslots⟩ := htracks _ h
    rw [hslots]
    exact ⟨hholds.map_eq _ fun _ ↦ rfl, hholds.map_eq _ fun _ ↦ rfl⟩

/-- An engine with a preview and an output that is not fed. -/
private def twoOutputs : State :=
  start { outputs := [{ kind := "preview", name := "preview" }, { kind := "ndi", name := "out" }] }
    fun i ↦ if i = 1 then { start := some "no network" } else {}

/-- A rename while the driver does not answer, and a background that changes meanwhile. -/
private def busyRename : List Action :=
  [.advance {}, .advance {}, .setOutputBackground "out" { isOpaque := true }, .advance {}, .tick,
    .advance { update := { probe := none, gate := .busy 1500 } }, .advance {}]

/-- The rename is told that the driver is busy. -/
private theorem run_busyRename : ∃ t : State,
    machine.run twoOutputs
      (.request (.updateOutput "out" { kind := "ndi", name := "new" }) none :: busyRename) = some t ∧
    t.current = none ∧ t.ended = some (.refused (busyMessage "out" 1500)) :=
  ⟨_, rfl, rfl, rfl⟩

/-- A rename that finds the driver busy leaves the list as it was. -/
theorem refused_unchanged_busyRename : ∃ t : State,
    machine.run twoOutputs
      (.request (.updateOutput "out" { kind := "ndi", name := "new" }) none :: busyRename) = some t ∧
    t.records.map Record.setting = twoOutputs.records.map Record.setting := by
  obtain ⟨t, ht, hreturned, hended⟩ := run_busyRename
  have ha : ∀ a ∈ busyRename, ∀ request refusal, a ≠ .request request refusal := by
    simp [busyRename]
  have h := refused_unchanged twoOutputs t _ rfl none busyRename ha ht (Or.inl ⟨rfl, hreturned⟩)
  exact ⟨t, ht, h.1 _ (Or.inl hended)⟩

end WebLinked.Engine.OutputRequests
