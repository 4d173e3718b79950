import Mathlib
import WebLinked.Engine.OutputSpecs

/-!
# What is saved opened when it was last opened

`src/engine/engine.cpp:127–163,672–698,834–1397`, `src/control/control_api.cpp:836`. A save
writes down every output in the list. An output that did not open stays in it, so what is
saved opened last time exactly when every open of an output that stays succeeded.
-/

namespace WebLinked.Engine.SavedOutputs

open WebLinked.Base WebLinked.Core OutputList WebLinked.Engine.Configuration Keyed

variable {s t : OutputList.State} {outputs : List Entry} {entry : Entry} {name : String}

/-- Whether `setOutputEnabled` calls `start`, and whether that succeeds, under the name of the
output; `src/engine/engine.cpp:869–883`. -/
def enableOpens (entry : Entry) (enabled : Bool) (a : EnableAnswers) : List (String × Bool) :=
  if entry.desc.present && a.gate = .ran && entry.slot.output.isSome &&
      enabled && !(enabled = entry.enabled && a.isRunning = enabled) then
    [(entry.spec.name, a.start.isNone)]
  else []

/-- `updateOutput` opens the replacement, or else opens the old output again if it was fed. Old
outputs that were not are created, which may fail, but not started;
`src/engine/engine.cpp:1100–1126`. -/
def updateOpens (entry : Entry) (spec : OutputSpec) (a : UpdateAnswers) : List (String × Bool) :=
  if entry.running a.probe && spec.name = entry.spec.name && spec.kind = entry.spec.kind &&
      spec.deviceIndex = entry.spec.deviceIndex &&
      spec.options.serialize = entry.spec.options.serialize then []
  else
    match a.gate with
    | .busy _ => []
    | .ran =>
      if (a.replacement.create.or a.replacement.start).isNone then [(spec.name, true)]
      else if a.previous.create.isSome then [(entry.spec.name, false)]
      else if entry.enabled then [(entry.spec.name, a.previous.start.isNone)]
      else []

/-- A format change starts what was fed, if it could be stopped and its driver answers;
`src/engine/engine.cpp:1332–1349`. -/
def reopens (entry : Entry) (a : ItemAnswers) : List (String × Bool) :=
  if entry.enabled && a.stop = .ran && a.reopen = .ran && entry.slot.output.isSome then
    [(entry.spec.name, a.start.isNone)]
  else []

/-- The opens of a request, `createOutput` and `start` or `start` alone, of outputs that are in
the list afterwards, by their names then, and whether they succeed. -/
def opens (s : OutputList.State) : Action → List (String × Bool)
  | .setFormat _ | .giveUp _ _ | .setOutputBackground _ _ | .removeOutput _ _ => []
  | .formatChange call a =>
    if s.waiting[call]?.isNone || a.stuck.isSome then []
    else (s.outputs.mapIdx fun i entry ↦ reopens entry (a.item i)).flatten
  | .setOutputEnabled name enabled a =>
    (findEntry s.outputs name).elim [] fun entry ↦ enableOpens entry enabled a
  | .addOutput spec a =>
    if s.outputs.any (·.spec.name = spec.name) ||
        (outputKindIsPermanent spec.kind && s.outputs.any (outputKindIsPermanent ·.spec.kind)) ||
        a.create.isSome then []
    else [(spec.name, a.start.isNone)]
  | .updateOutput name spec a =>
    match findEntry s.outputs name with
    | none => []
    | some entry =>
      if (outputKindIsPermanent entry.spec.kind && spec.kind ≠ entry.spec.kind) ||
          (!outputKindIsPermanent entry.spec.kind && outputKindIsPermanent spec.kind) ||
          (spec.name ≠ name && s.outputs.any (·.spec.name = spec.name)) then []
      else updateOpens entry spec a

/-- An engine, and whether the most recent open of the output listed under a name succeeded. -/
structure Recorded where
  list : OutputList.State
  opened : String → Bool

/-- What is known of the opens after some more of them. -/
def record (opened : String → Bool) (opens : List (String × Bool)) : String → Bool :=
  opens.foldl (fun opened o ↦ Function.update opened o.1 o.2) opened

/-- One request. -/
def Recorded.step (s : Recorded) (a : Action) : Option Recorded :=
  (s.list.step a).map fun list ↦ { list, opened := record s.opened (opens s.list a) }

/-- `Engine::start`, which opens every output; `src/engine/engine.cpp:127–163`. -/
def start (format : VideoFormat) (outputs : List (OutputSpec × OpenAnswers)) : Recorded where
  list := OutputList.start format outputs
  opened := record (fun _ ↦ false) (outputs.map fun (spec, a) ↦
    (spec.name, a.create.isNone && a.start.isNone))

/-- An engine started with outputs of distinct names. -/
def machine : Machine Recorded Action where
  init s := ∃ format outputs, s = start format outputs ∧
    (outputs.map fun (spec, _) ↦ spec.name).Nodup
  step := Recorded.step

/-- Every output that a save writes down opened the last time it was opened. -/
def Saved (s : Recorded) : Prop :=
  ∀ o ∈ (configuration { list := s.list }).outputs, s.opened o.name

/-- Every open of an output that stays in the list succeeds. -/
def opensAll (s : Recorded) (a : Action) : Bool := (opens s.list a).all (·.2)

section Names

variable {opened : List (String × Bool)}

/-- What a request does to the names in the list, and what it opens. -/
private structure Renames (s t : OutputList.State) (opened : List (String × Bool)) : Prop where
  distinct : (names t.outputs).Nodup
  listed : ∀ n ∈ names t.outputs, n ∈ names s.outputs ∨ n ∈ opened.map Prod.fst
  stays : ∀ n ∈ opened.map Prod.fst, n ∈ names t.outputs
  once : (opened.map Prod.fst).Nodup

/-- A request that leaves the names. -/
private theorem Renames.same (hn : (names s.outputs).Nodup) (h : names t.outputs = names s.outputs)
    (ho : (opened.map Prod.fst).Sublist (names s.outputs)) : Renames s t opened :=
  ⟨h ▸ hn, fun _ hm ↦ Or.inl (h ▸ hm), fun _ hm ↦ h ▸ ho.subset hm, hn.sublist ho⟩

private theorem names_eq (s : OutputList.State) :
    names s.outputs = (outputSpecs s).map OutputSpec.name := by
  rw [names, outputSpecs, List.map_map]
  rfl

/-- A format change opens an output at most once. -/
private theorem sublist_reopens (outputs : List Entry) (a : ℕ → ItemAnswers) :
    ((outputs.mapIdx fun i entry ↦ reopens entry (a i)).flatten.map Prod.fst).Sublist
      (names outputs) := by
  induction outputs generalizing a with
  | nil => simp [names]
  | cons entry outputs ih =>
    have hrest := ih fun i ↦ a (i + 1)
    rw [List.mapIdx_cons, List.flatten_cons, List.map_append, names, List.map_cons]
    rw [reopens]
    split
    · exact hrest.cons_cons entry.spec.name
    · exact hrest.cons entry.spec.name

private theorem spec_setEnabled (format : VideoFormat) (enabled : Bool) (a : EnableAnswers) :
    (entry.setEnabled format enabled a).1.spec = entry.spec := by
  unfold Entry.setEnabled
  cases enabled <;> dsimp only <;> split
  · rfl
  · split <;> rfl
  · rfl
  · split
    · rfl
    · rfl
    · split
      · rfl
      · split
        · rfl
        · split <;> rfl

/-- What is found stands under its name. -/
private theorem singleton_sublist (hf : findEntry outputs name = some entry) :
    [entry.spec.name].Sublist (names outputs) :=
  List.singleton_sublist.mpr (List.mem_map_of_mem (findEntry_spec hf).1)

private theorem setOutputEnabled_renames (hn : (names s.outputs).Nodup) (name : String)
    (enabled : Bool) (a : EnableAnswers) :
    Renames s (s.setOutputEnabled name enabled a) (opens s (.setOutputEnabled name enabled a)) := by
  rw [State.setOutputEnabled, opens]
  cases hf : findEntry s.outputs name with
  | none => exact .same hn rfl (List.nil_sublist _)
  | some entry =>
    refine .same hn (names_setEntry ?_) ?_
    · rw [spec_setEnabled, (findEntry_spec hf).2]
    · rw [Option.elim_some, enableOpens]
      split
      · exact singleton_sublist hf
      · exact List.nil_sublist _

private theorem addOutput_renames (hn : (names s.outputs).Nodup) (spec : OutputSpec)
    (a : OpenAnswers) : Renames s (s.addOutput spec a) (opens s (.addOutput spec a)) := by
  rw [State.addOutput, opens]
  cases hname : s.outputs.any (·.spec.name = spec.name) with
  | true => exact .same hn rfl (List.nil_sublist _)
  | false =>
    cases hpermanent : outputKindIsPermanent spec.kind &&
        s.outputs.any (outputKindIsPermanent ·.spec.kind) with
    | true => exact .same hn rfl (List.nil_sublist _)
    | false =>
      cases hcreate : a.create with
      | some error => exact .same hn rfl (List.nil_sublist _)
      | none =>
        have hfresh : spec.name ∉ names s.outputs := by
          simpa [names] using hname
        have happended : names (s.outputs ++ [Entry.opened spec s.format a]) =
            names s.outputs ++ [spec.name] := by simp [names]
        refine ⟨?_, ?_, ?_, List.nodup_singleton _⟩
        · exact happended ▸ hn.append (List.nodup_singleton _) (List.disjoint_singleton.mpr hfresh)
        · intro n hm
          exact List.mem_append.mp (happended ▸ hm)
        · intro n hm
          exact happended ▸ List.mem_append_right _ hm

/-- The entry keeps its name, and is opened under it or not at all; or it gets the new one and
has been opened under that. -/
private theorem update_renames (entry : Entry) (spec : OutputSpec) (format : VideoFormat) (a : UpdateAnswers) :
    ((entry.update spec format a).1.spec.name = entry.spec.name ∧
      ((updateOpens entry spec a).map Prod.fst).Sublist [entry.spec.name]) ∨
    ((entry.update spec format a).1.spec.name = spec.name ∧
      updateOpens entry spec a = [(spec.name, true)]) := by
  have hnone {n : String} : ((List.nil : List (String × Bool)).map Prod.fst).Sublist [n] :=
    List.nil_sublist _
  unfold Entry.update updateOpens
  dsimp only
  split
  · exact Or.inl ⟨rfl, hnone⟩
  · cases a.gate with
    | busy millis => exact Or.inl ⟨rfl, hnone⟩
    | ran =>
      cases a.replacement.create.or a.replacement.start with
      | none => exact Or.inr ⟨rfl, rfl⟩
      | some error =>
        refine Or.inl ⟨rfl, ?_⟩
        cases a.previous.create with
        | some error => exact List.Sublist.refl _
        | none =>
          cases entry.enabled with
          | true => exact List.Sublist.refl _
          | false => exact hnone

private theorem mem_setEntry_self (hf : findEntry outputs name = some entry) (e : Entry) :
    e ∈ setEntry name e outputs := by
  induction outputs with
  | nil => cases hf
  | cons x outputs ih =>
    rw [findEntry, List.find?_cons] at hf
    rw [setEntry]
    split
    · exact List.mem_cons_self
    · next hx =>
      simp only [hx, decide_false] at hf
      exact List.mem_cons_of_mem _ (ih hf)

private theorem updateOutput_renames (hn : (names s.outputs).Nodup) (name : String)
    (spec : OutputSpec) (a : UpdateAnswers) :
    Renames s (s.updateOutput name spec a) (opens s (.updateOutput name spec a)) := by
  rw [State.updateOutput, opens]
  cases hf : findEntry s.outputs name with
  | none => exact .same hn rfl (List.nil_sublist _)
  | some entry =>
    dsimp only
    cases hstays : outputKindIsPermanent entry.spec.kind && decide (spec.kind ≠ entry.spec.kind) with
    | true => exact .same hn rfl (List.nil_sublist _)
    | false =>
      cases hbecomes : !outputKindIsPermanent entry.spec.kind && outputKindIsPermanent spec.kind with
      | true => exact .same hn rfl (List.nil_sublist _)
      | false =>
        cases htaken : decide (spec.name ≠ name) && s.outputs.any (·.spec.name = spec.name) with
        | true => exact .same hn rfl (List.nil_sublist _)
        | false =>
          obtain ⟨hentry, hname⟩ := findEntry_spec hf
          have hfresh : spec.name = name ∨ spec.name ∉ names s.outputs := by
            by_cases hsame : spec.name = name
            · exact Or.inl hsame
            · exact Or.inr (by simpa [hsame, names] using htaken)
          rcases update_renames entry spec s.format a with ⟨hkept, ho⟩ | ⟨hnew, ho⟩
          · exact .same hn (names_setEntry (hkept.trans hname)) (ho.trans (singleton_sublist hf))
          · refine ⟨nodup_setEntry hn (hnew ▸ hfresh), fun n hm ↦ ?_, fun n hm ↦ ?_, ?_⟩
            · obtain ⟨x, hx, rfl⟩ := List.mem_map.mp hm
              rcases mem_setEntry hx with rfl | hx
              · refine Or.inr ?_
                simp [ho, hnew]
              · exact Or.inl (List.mem_map_of_mem hx)
            · have hmem := List.mem_map_of_mem (f := fun x : Entry ↦ x.spec.name)
                (mem_setEntry_self hf (entry.update spec s.format a).1)
              simp only [Bool.or_false, Bool.false_eq_true, if_false, ho,
                List.map_cons, List.map_nil, List.mem_singleton] at hm
              rw [hm, ← hnew]
              exact hmem
            · simp [ho]

/-- Every request keeps names distinct and opens what it lists. -/
private theorem step_renames (hn : (names s.outputs).Nodup) {a : Action} (ht : s.step a = some t) :
    Renames s t (opens s a) := by
  have hsame (t : OutputList.State) (ht : outputSpecs t = outputSpecs s) :
      names t.outputs = names s.outputs := by rw [names_eq, names_eq, ht]
  cases a with
  | setFormat format =>
    cases ht
    refine .same hn ?_ (List.nil_sublist _)
    rw [State.requestFormat]
    split <;> rfl
  | formatChange call a =>
    obtain ⟨w, hw, rfl⟩ := Option.map_eq_some_iff.mp ht
    refine .same hn (hsame _ (outputSpecs_setFormat _ _ _)) ?_
    rw [opens]
    split
    · exact List.nil_sublist _
    · exact sublist_reopens s.outputs a.item
  | giveUp call message =>
    obtain ⟨w, hw, rfl⟩ := Option.map_eq_some_iff.mp ht
    exact .same hn rfl (List.nil_sublist _)
  | setOutputEnabled name enabled a =>
    cases ht
    exact setOutputEnabled_renames hn name enabled a
  | addOutput spec a =>
    cases ht
    exact addOutput_renames hn spec a
  | setOutputBackground name background =>
    cases ht
    refine .same hn ?_ (List.nil_sublist _)
    rw [State.setOutputBackground]
    split
    · rfl
    · next entry hf => exact names_setEntry (findEntry_spec hf).2
  | updateOutput name spec a =>
    cases ht
    exact updateOutput_renames hn name spec a
  | removeOutput name gate =>
    cases ht
    have hsub : (names (s.removeOutput name gate).outputs).Sublist (names s.outputs) := by
      have hn' : Distinct OutputSpec.name (outputSpecs s) := by rwa [names_eq] at hn
      rw [names_eq, names_eq, outputSpecs_removeOutput hn']
      exact List.filter_sublist.map _
    exact ⟨hn.sublist hsub, fun n hm ↦ Or.inl (hsub.subset hm), List.forall_mem_nil _,
      List.nodup_nil⟩

end Names

section Runs

variable {l : List (String × Bool)} {opened : String → Bool} {n : String} {b : Bool}
  {r u : Recorded}

/-- What was not opened is known as before. -/
private theorem record_of_notMem (h : n ∉ l.map Prod.fst) : record opened l n = opened n := by
  induction l generalizing opened with
  | nil => rfl
  | cons o l ih =>
    obtain ⟨hne, hrest⟩ := not_or.mp (List.mem_cons.not.mp h)
    rw [record, List.foldl_cons, ← record, ih hrest, Function.update_of_ne hne]

/-- What was opened once is known from that. -/
private theorem record_of_mem (hl : (l.map Prod.fst).Nodup) (h : (n, b) ∈ l) :
    record opened l n = b := by
  induction l generalizing opened with
  | nil => cases h
  | cons o l ih =>
    obtain ⟨hfresh, hrest⟩ := List.nodup_cons.mp hl
    rw [record, List.foldl_cons, ← record]
    rcases List.mem_cons.mp h with rfl | h
    · rw [record_of_notMem hfresh, Function.update_self]
    · exact ih hrest h

/-- A save writes down the outputs in the list. -/
private theorem saved_iff (s : Recorded) : Saved s ↔ ∀ n ∈ names s.list.outputs, s.opened n := by
  simp [Saved, configuration, names, outputConfigFromSpec]

/-- Where everything opens, what is saved stays opened. -/
private theorem saved_of_opensAll {a : Action} (hn : (names r.list.outputs).Nodup) (hs : Saved r)
    (hg : opensAll r a) (ht : r.step a = some u) : Saved u := by
  obtain ⟨list, hlist, rfl⟩ := Option.map_eq_some_iff.mp ht
  have hrenames := step_renames hn hlist
  rw [saved_iff] at hs ⊢
  intro n hm
  by_cases ho : n ∈ (opens r.list a).map Prod.fst
  · obtain ⟨o, hmem, rfl⟩ := List.mem_map.mp ho
    exact (record_of_mem hrenames.once hmem).trans (List.all_eq_true.mp hg o hmem)
  · exact (record_of_notMem ho).trans (hs n ((hrenames.listed n hm).resolve_right ho))

/-- What stays in the list and did not open is saved all the same. -/
private theorem not_saved_of_not_opensAll {a : Action} (hn : (names r.list.outputs).Nodup)
    (hg : ¬ opensAll r a) (ht : r.step a = some u) : ¬ Saved u := by
  obtain ⟨list, hlist, rfl⟩ := Option.map_eq_some_iff.mp ht
  have hrenames := step_renames hn hlist
  obtain ⟨o, ho, hfalse⟩ : ∃ o ∈ opens r.list a, o.2 = false := by
    simpa [opensAll] using hg
  rw [saved_iff]
  intro hs
  have hopened : record r.opened (opens r.list a) o.1 = true :=
    hs o.1 (hrenames.stays o.1 (List.mem_map_of_mem ho))
  rw [record_of_mem hrenames.once ho, hfalse] at hopened
  cases hopened

private theorem names_start (format : VideoFormat) (outputs : List (OutputSpec × OpenAnswers)) :
    names (OutputList.start format outputs).outputs = outputs.map fun (spec, _) ↦ spec.name := by
  rw [names, OutputList.start, List.map_map]
  exact List.map_congr_left fun p _ ↦ by simp

/-- At the start what is saved opened when every output did. -/
private theorem saved_start {format : VideoFormat} {outputs : List (OutputSpec × OpenAnswers)}
    (hn : (outputs.map fun (spec, _) ↦ spec.name).Nodup) :
    Saved (start format outputs) ↔ ∀ p ∈ outputs, p.2.create = none ∧ p.2.start = none := by
  have hopened (p : OutputSpec × OpenAnswers) (hp : p ∈ outputs) :
      (start format outputs).opened p.1.name = (p.2.create.isNone && p.2.start.isNone) := by
    refine record_of_mem ?_ (List.mem_map.mpr ⟨p, hp, rfl⟩)
    rw [List.map_map]
    exact hn
  rw [saved_iff]
  constructor
  · intro h p hp
    have hsaved := h p.1.name (by
      rw [start, names_start]
      exact List.mem_map.mpr ⟨p, hp, rfl⟩)
    rw [hopened p hp] at hsaved
    simpa using hsaved
  · intro h n hm
    rw [start, names_start] at hm
    obtain ⟨p, hp, rfl⟩ := List.mem_map.mp hm
    rw [hopened p hp]
    simpa using h p hp

/-- In every state of a run each output that a save writes down opened the last time it was
opened, exactly when every output opened at the start and every open of an output that stays in
the list succeeded since. -/
theorem saved_iff_opensAll (format : VideoFormat) (outputs : List (OutputSpec × OpenAnswers))
    (hn : (outputs.map fun (spec, _) ↦ spec.name).Nodup) (actions : List Action) (t : Recorded)
    (ht : machine.run (start format outputs) actions = some t) :
    machine.Always Saved (start format outputs) actions ↔
      (∀ p ∈ outputs, p.2.create = none ∧ p.2.start = none) ∧
        machine.runUnder (fun s a ↦ opensAll s a) (start format outputs) actions = some t := by
  rw [← saved_start hn]
  by_cases hs : Saved (start format outputs)
  · rw [and_iff_right hs]
    refine Machine.always_iff_runUnder_of_invariant
      (I := fun s ↦ (names s.list.outputs).Nodup ∧ Saved s) (fun s h ↦ h.2) ?_ ?_
      ⟨names_start format outputs ▸ hn, hs⟩ actions ht
    · intro s a u hg ⟨hn, hs⟩ hu
      refine ⟨?_, saved_of_opensAll hn hs hg hu⟩
      obtain ⟨list, hlist, rfl⟩ := Option.map_eq_some_iff.mp hu
      exact (step_renames hn hlist).distinct
    · exact fun s a u ⟨hn, _⟩ hg hu ↦ not_saved_of_not_opensAll hn hg hu
  · refine iff_of_false (fun h ↦ hs ?_) (fun h ↦ hs h.1)
    cases actions with
    | nil => exact h
    | cons a actions => exact h.1

/-- A preview and an output whose device is not there. -/
private def missing : List (OutputSpec × OpenAnswers) :=
  [({ kind := "preview", name := "preview" }, {}),
    ({ kind := "decklink", name := "card" }, { create := some "no such device" })]

/-- An output that is not there is saved. -/
theorem not_saved_of_missing : ¬ ∀ s, machine.Reachable s → Saved s := by
  intro h
  have hinit : machine.Reachable (start {} missing) := .init ⟨{}, missing, rfl, by decide⟩
  have hsaved := (saved_iff _).mp (h _ hinit) "card" (by decide)
  exact absurd hsaved (by decide)

/-- The preview alone, which opens. -/
private def preview : List (OutputSpec × OpenAnswers) := [({ kind := "preview", name := "preview" }, {})]

/-- An output that is added, fed no more, fed again and given another device. -/
private def changes : List Action :=
  [.addOutput { kind := "ndi", name := "out" } {},
    .setOutputEnabled "out" false { isRunning := true },
    .setOutputEnabled "out" true { isRunning := false },
    .updateOutput "out" { kind := "ndi", name := "new", deviceIndex := 1 } { probe := some true }]

/-- Where everything opens, what is saved has opened. -/
theorem saved_changes : ∃ t, machine.run (start {} preview) changes = some t ∧
    machine.Always Saved (start {} preview) changes := by
  obtain ⟨t, ht⟩ : ∃ t, machine.run (start {} preview) changes = some t := ⟨_, rfl⟩
  have hguarded : machine.runUnder (fun s a ↦ opensAll s a) (start {} preview) changes =
      machine.run (start {} preview) changes := rfl
  exact ⟨t, ht, (saved_iff_opensAll {} preview (by decide) changes t ht).mpr
    ⟨by decide, hguarded.trans ht⟩⟩

end Runs

end WebLinked.Engine.SavedOutputs
