import WebLinked.Engine.OutputSpecs

/-!
# An applied configuration holds, or an output it does not list was busy

`src/engine/engine.cpp:700–777`. The call reports the first request that was refused, but for a
removal, where a refusal is what keeps the preview. A removal is refused as well while the
driver is busy, and that output stays without a word.
-/

namespace WebLinked.Engine.Configuration

open WebLinked.Base WebLinked.Core Json OutputList Keyed

variable {s : OutputList.State}

section Loops

variable {c : SourceConfig} {a : Answers} {o : OutputConfig} {done : List OutputConfig} {n : String}
  {base specs : List OutputSpec} {acc : OutputList.State × String}

/-- What drivers say when they cannot open an output is not empty. -/
structure Answers.Worded (a : Answers) : Prop where
  add : ∀ name, OpensWorded (a.add name)
  update : ∀ name, OpensWorded (a.update name).replacement

/-- Removing what a list names leaves what is not in it, what the configuration names, the
permanent outputs and what is busy. -/
theorem outputSpecs_removeUnwanted (hn : Distinct OutputSpec.name (outputSpecs s))
    (remove : String → Gate) (specs : List OutputSpec) :
    outputSpecs (specs.foldl (removeUnwanted c remove) s) = (outputSpecs s).filter fun x ↦
      specs.all fun y ↦ wanted c y ∨ x.name ≠ y.name ∨ outputKindIsPermanent x.kind ∨
        remove y.name ≠ .ran := by
  induction specs generalizing s with
  | nil => simp
  | cons y specs ih =>
    have hstep : outputSpecs (removeUnwanted c remove s y) = (outputSpecs s).filter fun x ↦
        wanted c y ∨ x.name ≠ y.name ∨ outputKindIsPermanent x.kind ∨ remove y.name ≠ .ran := by
      rw [removeUnwanted]
      split
      · next hw => simp [hw]
      · next hw => simp [outputSpecs_removeOutput hn, hw]
    have hn' : Distinct OutputSpec.name (outputSpecs (removeUnwanted c remove s y)) := by
      rw [hstep]
      exact List.Nodup.sublist (List.filter_sublist.map _) hn
    rw [List.foldl_cons, ih hn', hstep, List.filter_filter]
    simp [Bool.and_comm]

/-- Of its own outputs the engine keeps what the configuration names, the permanent ones and
what is busy. -/
theorem mem_removeUnwanted (hn : Distinct OutputSpec.name (outputSpecs s)) (remove : String → Gate)
    (x : OutputSpec) :
    x ∈ outputSpecs ((outputSpecs s).foldl (removeUnwanted c remove) s) ↔
      x ∈ outputSpecs s ∧
        (wanted c x ∨ outputKindIsPermanent x.kind ∨ remove x.name ≠ .ran) := by
  rw [outputSpecs_removeUnwanted hn, List.mem_filter]
  refine and_congr_right fun hx ↦ ?_
  simp only [List.all_eq_true, decide_eq_true_eq]
  constructor
  · intro h
    rcases h x hx with h | h | h | h
    · exact Or.inl h
    · exact absurd rfl h
    · exact Or.inr (Or.inl h)
    · exact Or.inr (Or.inr h)
  · intro h y hy
    by_cases hxy : x.name = y.name
    · rw [← hn.eq hx hy hxy]
      rcases h with h | h | h
      · exact Or.inl h
      · exact Or.inr (Or.inr (Or.inl h))
      · exact Or.inr (Or.inr (Or.inr h))
    · exact Or.inr (Or.inl hxy)

/-- Of the configuration's outputs those `done` are as it has them, what has another name is as
before, and the preview, called `n`, is the one permanent output. -/
structure Ensured (n : String) (base : List OutputSpec) (done : List OutputConfig)
    (specs : List OutputSpec) : Prop where
  distinct : Distinct OutputSpec.name specs
  listed : ∀ o ∈ done, ∃ x ∈ specs, x.name = o.name ∧ x.same (outputSpecFromConfig o)
  others : ∀ x, (∀ o ∈ done, o.name ≠ x.name) → (x ∈ specs ↔ x ∈ base)
  preview : ∃ x ∈ specs, x.name = n
  only : ∀ x ∈ specs, outputKindIsPermanent x.kind ↔ x.name = n

/-- An output that is as the configuration has it is left alone. -/
private theorem Ensured.kept (h : Ensured n base done specs)
    (hlisted : ∃ x ∈ specs, x.name = o.name ∧ x.same (outputSpecFromConfig o)) :
    Ensured n base (done ++ [o]) specs := by
  refine ⟨h.distinct, fun o' ho' ↦ ?_, fun x hx ↦ ?_, h.preview, h.only⟩
  · rcases List.mem_append.mp ho' with ho' | ho'
    · exact h.listed o' ho'
    · rw [List.mem_singleton.mp ho']
      exact hlisted
  · exact h.others x fun o' ho' ↦ hx o' (List.mem_append_left _ ho')

/-- An output that is updated. -/
private theorem Ensured.replaced (h : Ensured n base done specs)
    (hfresh : o.name ∉ done.map OutputConfig.name) {old new : OutputSpec} (hold : old ∈ specs)
    (hname : old.name = o.name)
    (hp : outputKindIsPermanent old.kind = outputKindIsPermanent o.kind)
    (hnew : new.name = o.name) (hsame : new.same (outputSpecFromConfig o)) :
    Ensured n base (done ++ [o]) (replace OutputSpec.name o.name new specs) := by
  have hkind : new.kind = o.kind := by
    simp only [OutputSpec.same, Bool.and_eq_true, decide_eq_true_eq] at hsame
    exact hsame.1.1.1
  have hmem : new ∈ replace OutputSpec.name o.name new specs :=
    mem_replace.mpr (Or.inr ⟨rfl, old, hold, hname⟩)
  refine ⟨h.distinct.replace (Or.inl hnew), fun o' ho' ↦ ?_, fun x hx ↦ ?_, ?_, fun x hx ↦ ?_⟩
  · rcases List.mem_append.mp ho' with ho' | ho'
    · obtain ⟨x, hx, hxo, hxs⟩ := h.listed o' ho'
      refine ⟨x, mem_replace.mpr (Or.inl ⟨hx, ?_⟩), hxo, hxs⟩
      rw [hxo]
      rintro heq
      exact hfresh (heq ▸ List.mem_map_of_mem ho')
    · rw [List.mem_singleton.mp ho']
      exact ⟨new, hmem, hnew, hsame⟩
  · have hne : x.name ≠ o.name := fun heq ↦ hx o (by simp) heq.symm
    have hx' := h.others x fun o' ho' ↦ hx o' (List.mem_append_left _ ho')
    rw [← hx', mem_replace]
    constructor
    · rintro (⟨hmem, -⟩ | ⟨rfl, -⟩)
      · exact hmem
      · exact absurd hnew hne
    · exact fun hmem ↦ Or.inl ⟨hmem, hne⟩
  · obtain ⟨x, hx, hxn⟩ := h.preview
    by_cases heq : x.name = o.name
    · exact ⟨new, hmem, hnew.trans (heq.symm.trans hxn)⟩
    · exact ⟨x, mem_replace.mpr (Or.inl ⟨hx, heq⟩), hxn⟩
  · rcases mem_replace.mp hx with ⟨hx, -⟩ | ⟨rfl, -⟩
    · exact h.only x hx
    · rw [hkind, ← hp, h.only old hold, hname, hnew]

/-- An output that is added. -/
private theorem Ensured.added (h : Ensured n base done specs)
    (hname : ∀ x ∈ specs, x.name ≠ o.name)
    (hp : outputKindIsPermanent o.kind → ∀ x ∈ specs, outputKindIsPermanent x.kind = false) :
    Ensured n base (done ++ [o]) (specs ++ [outputSpecFromConfig o]) := by
  obtain ⟨preview, hpreview, hn⟩ := h.preview
  have hpermanent : ¬ outputKindIsPermanent o.kind := by
    intro ho
    have hfalse := hp ho preview hpreview
    rw [(h.only preview hpreview).mpr hn] at hfalse
    cases hfalse
  have hmem : outputSpecFromConfig o ∈ specs ++ [outputSpecFromConfig o] := by simp
  refine ⟨h.distinct.append ?_, fun o' ho' ↦ ?_, fun x hx ↦ ?_, ?_, fun x hx ↦ ?_⟩
  · rintro hm
    obtain ⟨x, hx, heq⟩ := List.mem_map.mp hm
    exact hname x hx heq
  · rcases List.mem_append.mp ho' with ho' | ho'
    · obtain ⟨x, hx, hxo⟩ := h.listed o' ho'
      exact ⟨x, List.mem_append_left _ hx, hxo⟩
    · rw [List.mem_singleton.mp ho']
      exact ⟨_, hmem, rfl, by simp [OutputSpec.same]⟩
  · have hne : x.name ≠ o.name := fun heq ↦ hx o (by simp) heq.symm
    rw [← h.others x fun o' ho' ↦ hx o' (List.mem_append_left _ ho'), List.mem_append,
      List.mem_singleton]
    constructor
    · rintro (hmem | rfl)
      · exact hmem
      · exact absurd rfl hne
    · exact Or.inl
  · exact ⟨preview, List.mem_append_left _ hpreview, hn⟩
  · rcases List.mem_append.mp hx with hx | hx
    · exact h.only x hx
    · rw [List.mem_singleton.mp hx]
      refine iff_of_false hpermanent ?_
      rw [← hn]
      exact fun heq ↦ hname preview hpreview heq.symm

/-- Whether an output of that name is listed. -/
private theorem name_of_findEntry_eq_none {name : String}
    (h : findEntry s.outputs name = none) : ∀ x ∈ outputSpecs s, x.name ≠ name := by
  intro x hx
  obtain ⟨entry, hentry, rfl⟩ := List.mem_map.mp hx
  simpa using List.find?_eq_none.mp h entry hentry

/-- An error that has been noted stays. -/
private theorem eq_empty_of_note {firstError : String} {reply : Reply}
    (h : note firstError reply = "") : firstError = "" := by
  unfold note at h
  split at h
  · exact h
  · split at h
    · next hf => exact hf
    · exact h

/-- An output that nothing is noted about is as the configuration has it. -/
private theorem Ensured.ensure (h : Ensured n base done (outputSpecs acc.1))
    (hfresh : o.name ∉ done.map OutputConfig.name) (ha : a.Worded)
    (hok : (ensure a acc o).2 = "") :
    acc.2 = "" ∧ Ensured n base (done ++ [o]) (outputSpecs (Configuration.ensure a acc o).1) := by
  unfold Configuration.ensure at hok ⊢
  dsimp only at hok ⊢
  cases hf : findEntry acc.1.outputs (outputSpecFromConfig o).name with
  | some same =>
    rw [hf] at hok
    dsimp only at hok ⊢
    obtain ⟨hmem, hname⟩ := findEntry_spec hf
    split at hok
    · next hsame =>
      rw [if_pos hsame]
      exact ⟨hok, h.kept ⟨same.spec, List.mem_map_of_mem hmem, hname, hsame⟩⟩
    · next hsame =>
      rw [if_neg hsame]
      obtain ⟨hworded, hanswer⟩ := updateOutput_answer h.distinct (outputSpecFromConfig o)
        (a.update (outputSpecFromConfig o).name) (ha.update _)
      obtain ⟨hacc, hreply⟩ := (note_eq_empty hworded).mp hok
      rcases hanswer with ⟨-, ⟨old, hold, hold', hp⟩, new, hnew, hsame', hspecs⟩ | ⟨hne, -⟩
      · rw [hspecs]
        exact ⟨hacc, h.replaced hfresh hold hold' hp hnew hsame'⟩
      · exact absurd hreply hne
  | none =>
    rw [hf] at hok
    dsimp only at hok ⊢
    obtain ⟨hworded, hanswer⟩ := addOutput_answer acc.1 (outputSpecFromConfig o)
      (a.add (outputSpecFromConfig o).name) (ha.add _)
    obtain ⟨hacc, hreply⟩ := (note_eq_empty hworded).mp hok
    rcases hanswer with ⟨hname, hp, hspecs⟩ | ⟨hne, -⟩
    · rw [hspecs]
      exact ⟨hacc, h.added hname hp⟩
    · exact absurd hreply hne

private theorem eq_empty_of_ensure (h : (ensure a acc o).2 = "") : acc.2 = "" := by
  unfold ensure at h
  dsimp only at h
  split at h
  · split at h
    · exact h
    · exact eq_empty_of_note h
  · exact eq_empty_of_note h

private theorem eq_empty_of_foldl {outputs : List OutputConfig}
    (h : (outputs.foldl (ensure a) acc).2 = "") : acc.2 = "" := by
  induction outputs generalizing acc with
  | nil => exact h
  | cons o outputs ih => exact eq_empty_of_ensure (ih h)

/-- Outputs that nothing is noted about are as the configuration has them. -/
private theorem Ensured.foldl {outputs : List OutputConfig}
    (h : Ensured n base done (outputSpecs acc.1))
    (hdistinct : Distinct OutputConfig.name (done ++ outputs)) (ha : a.Worded)
    (hok : (outputs.foldl (Configuration.ensure a) acc).2 = "") :
    Ensured n base (done ++ outputs)
      (outputSpecs (outputs.foldl (Configuration.ensure a) acc).1) := by
  induction outputs generalizing acc done with
  | nil => simpa using h
  | cons o outputs ih =>
    have hfresh : o.name ∉ done.map OutputConfig.name := by
      rw [Distinct, List.map_append, List.nodup_append] at hdistinct
      exact fun hm ↦ hdistinct.2.2 _ hm _ (by simp) rfl
    have hstep := (h.ensure hfresh ha (eq_empty_of_foldl hok)).2
    have hrest := ih hstep (by simpa using hdistinct) hok
    simpa using hrest

/-- Where drivers answer and open, an output that is the preview when it has its name is as the
configuration has it. -/
private theorem Ensured.ensure_ok (h : Ensured n base done (outputSpecs acc.1))
    (hacc : acc.2 = "") (ho : outputKindIsPermanent o.kind ↔ o.name = n) (remove : String → Gate) :
    (Configuration.ensure { remove } acc o).2 = "" := by
  unfold Configuration.ensure
  dsimp only
  cases hf : findEntry acc.1.outputs (outputSpecFromConfig o).name with
  | some same =>
    obtain ⟨hmem, hname⟩ := findEntry_spec hf
    have hp : outputKindIsPermanent same.spec.kind = outputKindIsPermanent o.kind := by
      rw [Bool.eq_iff_iff, h.only same.spec (List.mem_map_of_mem hmem), ho, hname]
      rfl
    dsimp only
    split
    · exact hacc
    · rw [updateOutput_ok rfl rfl hf hp]
      exact hacc
  | none =>
    have hname := name_of_findEntry_eq_none hf
    dsimp only
    rw [addOutput_ok hname fun hp ↦ ?_]
    · exact hacc
    · obtain ⟨x, hx, hn⟩ := h.preview
      exact absurd (hn.trans (ho.mp hp).symm) (hname x hx)

private theorem worded_remove {remove : String → Gate} : Answers.Worded { remove } :=
  ⟨fun _ ↦ ⟨nofun, nofun⟩, fun _ ↦ ⟨nofun, nofun⟩⟩

/-- Where drivers answer and open, nothing is noted. -/
private theorem Ensured.foldl_ok {outputs : List OutputConfig}
    (h : Ensured n base done (outputSpecs acc.1)) (hacc : acc.2 = "")
    (hdistinct : Distinct OutputConfig.name (done ++ outputs))
    (ho : ∀ o ∈ outputs, outputKindIsPermanent o.kind ↔ o.name = n) (remove : String → Gate) :
    (outputs.foldl (Configuration.ensure { remove }) acc).2 = "" := by
  induction outputs generalizing acc done with
  | nil => exact hacc
  | cons o outputs ih =>
    have hfresh : o.name ∉ done.map OutputConfig.name := by
      rw [Distinct, List.map_append, List.nodup_append] at hdistinct
      exact fun hm ↦ hdistinct.2.2 _ hm _ (by simp) rfl
    have hstep := h.ensure_ok hacc (ho o List.mem_cons_self) remove
    exact ih (h.ensure hfresh worded_remove hstep).2 hstep (by simpa using hdistinct)
      fun o' ho' ↦ ho o' (List.mem_cons_of_mem _ ho')

end Loops

section Raster

private theorem format_removeOutput (s : OutputList.State) (name : String) (gate : Gate) :
    (s.removeOutput name gate).format = s.format := by
  unfold State.removeOutput
  split
  · rfl
  · split
    · rfl
    · split <;> rfl

private theorem format_addOutput (s : OutputList.State) (spec : OutputSpec) (a : OpenAnswers) :
    (s.addOutput spec a).format = s.format := by
  unfold State.addOutput
  split
  · rfl
  · split
    · rfl
    · split <;> rfl

private theorem format_updateOutput (s : OutputList.State) (name : String) (spec : OutputSpec)
    (a : UpdateAnswers) : (s.updateOutput name spec a).format = s.format := by
  unfold State.updateOutput
  split
  · rfl
  · split
    · rfl
    · split
      · rfl
      · split <;> rfl

/-- Removals leave the raster. -/
private theorem format_removeUnwanted (c : SourceConfig) (remove : String → Gate)
    (s : OutputList.State) (specs : List OutputSpec) :
    (specs.foldl (removeUnwanted c remove) s).format = s.format := by
  induction specs generalizing s with
  | nil => rfl
  | cons spec specs ih =>
    rw [List.foldl_cons, ih, removeUnwanted]
    split
    · rfl
    · exact format_removeOutput s _ _

/-- What is done for the outputs leaves the raster. -/
private theorem format_ensure (a : Answers) (acc : OutputList.State × String)
    (outputs : List OutputConfig) :
    (outputs.foldl (ensure a) acc).1.format = acc.1.format := by
  induction outputs generalizing acc with
  | nil => rfl
  | cons o outputs ih =>
    rw [List.foldl_cons, ih]
    unfold ensure
    dsimp only
    split
    · split
      · rfl
      · exact format_updateOutput _ _ _ _
    · exact format_addOutput _ _ _

/-- Where nothing is noted the raster is the configuration's. -/
private theorem applyFormat_answer (s : OutputList.State) (format : VideoFormat)
    (a : FormatAnswers) :
    outputSpecs (applyFormat s format a).1 = outputSpecs s ∧
      ((applyFormat s format a).2 = "" ↔ format.equal s.format ∨
        (s.setFormat format s.format a).reply = .ok) ∧
      ((applyFormat s format a).2 = "" → format.equal (applyFormat s format a).1.format) := by
  unfold applyFormat setFormat
  split
  · next h => exact ⟨rfl, by simp [h], fun _ ↦ h⟩
  · next h =>
    rw [← VideoFormat.equal_comm, if_neg h]
    have hnote : note "" (s.setFormat format s.format a).reply = "" ↔
        (s.setFormat format s.format a).reply = .ok := by
      rw [note_eq_empty (setFormat_worded format s.format a)]
      exact and_iff_right rfl
    refine ⟨outputSpecs_setFormat format s.format a, ?_, fun hok ↦ ?_⟩
    · rw [hnote]
      exact (or_iff_right h).symm
    · obtain ⟨hstuck, hparked, -⟩ := (setFormat_reply format s.format a).mp (hnote.mp hok)
      have hformat : (s.setFormat format s.format a).format = format := by
        rw [setFormat_eq hstuck]
        exact if_pos hparked
      rw [hformat]
      exact format.equal_refl

end Raster

/-- The outputs are the configuration's, with the preview if it has none, and the rest is as it
says. Options are compared as they print. -/
structure Matches (e : State) (c : SourceConfig) : Prop where
  distinct : ((outputSpecs e.list).map OutputSpec.name).Nodup
  listed : ∀ o ∈ c.outputs, ∃ x ∈ outputSpecs e.list,
    x.name = o.name ∧ x.same (outputSpecFromConfig o)
  only : ∀ x ∈ outputSpecs e.list,
    (∃ o ∈ c.outputs, x.name = o.name ∧ x.same (outputSpecFromConfig o)) ∨
      (outputKindIsPermanent x.kind ∧ ∀ o ∈ c.outputs, ¬ outputKindIsPermanent o.kind)
  preview : ∃ x ∈ outputSpecs e.list, outputKindIsPermanent x.kind
  format : c.format.equal e.list.format
  matrix : (configuration e).matrix = c.matrix
  pacing : (configuration e).externalPacing = c.externalPacing
  popups : (configuration e).popupPolicy = c.popupPolicy
  interactive : (configuration e).interactiveByDefault = c.interactiveByDefault
  url : (configuration e).url = c.url

/-- Of what the configuration does not name, only the preview's driver may be busy. -/
def Answering (s : OutputList.State) (c : SourceConfig) (remove : String → Gate) : Prop :=
  ∀ x ∈ outputSpecs s, wanted c x ∨ outputKindIsPermanent x.kind ∨ remove x.name = .ran

/-- Some request of the call is refused whatever drivers answer: one that would rename the preview,
make something else of it or add another, or a change of the raster while an output is fed that
has no device. -/
def Refused (s : OutputList.State) (c : SourceConfig) : Prop :=
  (∃ o ∈ c.outputs, ∃ x ∈ outputSpecs s, outputKindIsPermanent x.kind ∧
    ¬(outputKindIsPermanent o.kind ↔ o.name = x.name)) ∨
  (¬ c.format.equal s.format ∧ ∃ entry ∈ s.outputs, entry.enabled ∧ entry.slot.output = none)

section Apply

variable {c : SourceConfig} {e : State} {n : String}

/-- Where there is one permanent output, it is known by its name. -/
private theorem exists_preview {specs : List OutputSpec} (hn : Distinct OutputSpec.name specs)
    (hp : specs.countP (outputKindIsPermanent ·.kind) = 1) :
    ∃ x ∈ specs, outputKindIsPermanent x.kind ∧
      ∀ y ∈ specs, outputKindIsPermanent y.kind ↔ y.name = x.name := by
  rw [List.countP_eq_length_filter, List.length_eq_one_iff] at hp
  obtain ⟨x, hx⟩ := hp
  have hmem (y : OutputSpec) : (y ∈ specs ∧ outputKindIsPermanent y.kind) ↔ y = x := by
    have h : y ∈ specs.filter (outputKindIsPermanent ·.kind) ↔ y = x := by
      rw [hx, List.mem_singleton]
    rwa [List.mem_filter] at h
  obtain ⟨hxs, hxp⟩ := (hmem x).mpr rfl
  refine ⟨x, hxs, hxp, fun y hy ↦ ⟨fun hyp ↦ ?_, fun hyn ↦ ?_⟩⟩
  · rw [(hmem y).mp ⟨hy, hyp⟩]
  · rw [hn.eq hy hxs hyn]
    exact hxp

/-- The list after the raster and the removals, and what has been noted until then. -/
private def reduceList (e : State) (c : SourceConfig) (a : Answers) : OutputList.State × String :=
  let formatted := applyFormat e.list c.format a.format
  ((outputSpecs formatted.1).foldl (removeUnwanted c a.remove) formatted.1, formatted.2)

private theorem mem_reduced (hn : Distinct OutputSpec.name (outputSpecs e.list)) (a : Answers)
    (x : OutputSpec) :
    x ∈ outputSpecs (reduceList e c a).1 ↔ x ∈ outputSpecs e.list ∧
      (wanted c x ∨ outputKindIsPermanent x.kind ∨ a.remove x.name ≠ .ran) := by
  obtain ⟨hspecs, -⟩ := applyFormat_answer e.list c.format a.format
  rw [reduceList, mem_removeUnwanted (hspecs ▸ hn), hspecs]

/-- Before the first of its outputs the configuration has a preview and what is not removed. -/
private theorem started (hn : Distinct OutputSpec.name (outputSpecs e.list))
    {preview : OutputSpec} (hmem : preview ∈ outputSpecs e.list)
    (hp : outputKindIsPermanent preview.kind)
    (honly : ∀ x ∈ outputSpecs e.list, outputKindIsPermanent x.kind ↔ x.name = preview.name)
    (a : Answers) :
    Ensured preview.name (outputSpecs (reduceList e c a).1) [] (outputSpecs (reduceList e c a).1) := by
  refine ⟨?_, nofun, fun x _ ↦ Iff.rfl, ⟨preview, ?_, rfl⟩, fun x hx ↦ ?_⟩
  · obtain ⟨hspecs, -⟩ := applyFormat_answer e.list c.format a.format
    rw [reduceList, outputSpecs_removeUnwanted (hspecs ▸ hn), hspecs]
    exact List.Nodup.sublist (List.filter_sublist.map _) hn
  · exact (mem_reduced hn a preview).mpr ⟨hmem, Or.inr (Or.inl hp)⟩
  · exact honly x ((mem_reduced hn a x).mp hx).1

/-- The popup policy comes back as it was, where it is one of the two. -/
private theorem popups_apply (hc : c.Valid) (a : Answers) :
    (configuration (applyConfiguration e c a).1).popupPolicy = c.popupPolicy := by
  rcases hc.popups with h | h <;> simp [configuration, applyConfiguration, h]

/-- Where nothing is noted and what is to go can go, the engine matches. -/
private theorem matches_of_answering (hc : c.Valid) {a : Answers} {base : List OutputSpec}
    (hensured : Ensured n base c.outputs (outputSpecs (applyConfiguration e c a).1.list))
    (hbase : ∀ x ∈ base, wanted c x ∨ outputKindIsPermanent x.kind)
    (hformat : c.format.equal (applyConfiguration e c a).1.list.format) :
    Matches (applyConfiguration e c a).1 c := by
  have hkept (x : OutputSpec) (hx : x ∈ outputSpecs (applyConfiguration e c a).1.list) :
      (∃ o ∈ c.outputs, x.name = o.name) ∨ (x ∈ base ∧ ∀ o ∈ c.outputs, o.name ≠ x.name) := by
    by_cases h : ∃ o ∈ c.outputs, x.name = o.name
    · exact Or.inl h
    · have hne : ∀ o ∈ c.outputs, o.name ≠ x.name := fun o ho heq ↦ h ⟨o, ho, heq.symm⟩
      exact Or.inr ⟨(hensured.others x hne).mp hx, hne⟩
  refine ⟨hensured.distinct, hensured.listed, fun x hx ↦ ?_, ?_, hformat, rfl, ?_, ?_, rfl, ?_⟩
  · rcases hkept x hx with ⟨o, ho, hname⟩ | ⟨hxb, hne⟩
    · obtain ⟨y, hy, hyo, hsame⟩ := hensured.listed o ho
      refine Or.inl ⟨o, ho, hname, ?_⟩
      rwa [hensured.distinct.eq hx hy (hname.trans hyo.symm)]
    · have hnot : wanted c x = false := by simpa [wanted] using hne
      have hperm : outputKindIsPermanent x.kind := by simpa [hnot] using hbase x hxb
      refine Or.inr ⟨hperm, fun o ho hop ↦ ?_⟩
      obtain ⟨y, hy, hyo, hsame⟩ := hensured.listed o ho
      have hkind : y.kind = o.kind := by
        simp only [OutputSpec.same, Bool.and_eq_true, decide_eq_true_eq] at hsame
        exact hsame.1.1.1
      have hyx : y.name = x.name := by
        rw [(hensured.only y hy).mp (hkind ▸ hop), (hensured.only x hx).mp hperm]
      exact hne o ho (hyo.symm.trans hyx)
  · obtain ⟨x, hx, hn⟩ := hensured.preview
    exact ⟨x, hx, (hensured.only x hx).mpr hn⟩
  · cases h : c.externalPacing <;> simp [configuration, applyConfiguration, h]
  · exact popups_apply hc a
  · simp only [configuration, applyConfiguration]
    split
    · rfl
    · next h => exact (not_not.mp h).symm

/-- Whenever a call returns true the engine matches the configuration, unless the driver of an
output that the configuration does not name, the preview apart, is busy; or unless the
configuration is one that the call refuses whatever happens. -/
theorem matches_iff_answering (e : State) (c : SourceConfig) (remove : String → Gate)
    (hn : ((outputSpecs e.list).map OutputSpec.name).Nodup)
    (hp : (outputSpecs e.list).countP (outputKindIsPermanent ·.kind) = 1)
    (hc : c.validate = .ok ()) :
    (∀ a : Answers, a.Worded → a.remove = remove → (applyConfiguration e c a).2 = "" →
      Matches (applyConfiguration e c a).1 c) ↔ Answering e.list c remove ∨ Refused e.list c := by
  have hvalid : c.Valid := SourceConfig.validate_eq_ok.mp hc
  have hdistinct : Distinct OutputConfig.name ([] ++ c.outputs) := hvalid.distinct
  obtain ⟨preview, hmem, hperm, honly⟩ := exists_preview hn hp
  constructor
  · intro h
    by_contra hnot
    obtain ⟨hbusy, hrefused⟩ := not_or.mp hnot
    obtain ⟨hpreview, hraster⟩ := not_or.mp hrefused
    obtain ⟨x, hx, hxc, hxp, hxr⟩ : ∃ x ∈ outputSpecs e.list,
        wanted c x = false ∧ outputKindIsPermanent x.kind = false ∧ remove x.name ≠ .ran := by
      simpa [Answering] using hbusy
    have hkind : ∀ o ∈ c.outputs, outputKindIsPermanent o.kind ↔ o.name = preview.name :=
      fun o ho ↦ by_contra fun hne ↦ hpreview ⟨o, ho, preview, hmem, hperm, hne⟩
    have hformat := (applyFormat_answer e.list c.format { parked := true }).2.1.mpr <| by
      by_cases heq : c.format.equal e.list.format
      · exact Or.inl heq
      · refine Or.inr ((setFormat_reply _ _ _).mpr ⟨rfl, rfl, fun i entry hentry ↦ ?_⟩)
        refine ⟨rfl, fun hen ↦ ⟨rfl, Option.isSome_iff_ne_none.mpr fun hnone ↦ ?_, rfl⟩⟩
        exact hraster ⟨heq, entry, List.mem_of_getElem? hentry, hen, hnone⟩
    have hreduced := started (c := c) hn hmem hperm honly { remove }
    have hok : (applyConfiguration e c { remove }).2 = "" :=
      hreduced.foldl_ok hformat hdistinct hkind remove
    have hensured := hreduced.foldl hdistinct worded_remove hok
    have hxmem : x ∈ outputSpecs (applyConfiguration e c { remove }).1.list := by
      have hxne : ∀ o ∈ [] ++ c.outputs, o.name ≠ x.name := by simpa [wanted] using hxc
      exact (hensured.others x hxne).mpr ((mem_reduced hn _ x).mpr ⟨hx, Or.inr (Or.inr hxr)⟩)
    rcases (h { remove } worded_remove rfl hok).only x hxmem with ⟨o, ho, hname, -⟩ | ⟨hxp', -⟩
    · have hxc' : wanted c x = true := List.any_eq_true.mpr ⟨o, ho, by simp [hname]⟩
      rw [hxc] at hxc'
      cases hxc'
    · rw [hxp] at hxp'
      cases hxp'
  · intro h a ha hremove hok
    obtain ⟨-, hreply, hformat⟩ := applyFormat_answer e.list c.format a.format
    have hensured := (started (c := c) hn hmem hperm honly a).foldl hdistinct ha hok
    have hok' : (reduceList e c a).2 = "" := eq_empty_of_foldl hok
    have hraster : (applyConfiguration e c a).1.list.format =
        (applyFormat e.list c.format a.format).1.format :=
      (format_ensure a _ c.outputs).trans (format_removeUnwanted c a.remove _ _)
    have hformat' : c.format.equal (applyConfiguration e c a).1.list.format := hraster ▸ hformat hok'
    rcases h with hanswering | ⟨o, ho, x, hx, hxp, hne⟩ | ⟨heq, entry, hentry, hen, hnone⟩
    · refine matches_of_answering hvalid hensured (fun x hx ↦ ?_) hformat'
      obtain ⟨hxe, hxr⟩ := (mem_reduced hn a x).mp hx
      rw [hremove] at hxr
      rcases hanswering x hxe with hw | hpx | hr
      · exact Or.inl hw
      · exact Or.inr hpx
      · exact hxr.imp_right fun hpr ↦ hpr.resolve_right fun hne ↦ hne hr
    · obtain ⟨y, hy, hyo, hsame⟩ := hensured.listed o ho
      have hkind : y.kind = o.kind := by
        simp only [OutputSpec.same, Bool.and_eq_true, decide_eq_true_eq] at hsame
        exact hsame.1.1.1
      refine absurd ?_ hne
      rw [← hkind, hensured.only y hy, hyo, (honly x hx).mp hxp]
    · have hset := (hreply.mp hok').resolve_left heq
      obtain ⟨i, hi⟩ := List.getElem?_of_mem hentry
      have hreturns := ((setFormat_reply _ _ _).mp hset).2.2 i entry hi
      rw [Returns, hnone] at hreturns
      cases (hreturns.2 hen).2.1

/-- A preview and an output that is fed. -/
private def twoOutputs : State where
  list := OutputList.start {}
    [({ kind := "preview", name := "preview" }, {}), ({ kind := "ndi", name := "out" }, {})]

/-- A settings file with another output instead. -/
private def another : SourceConfig where
  id := "main"
  format := {}
  outputs := [{ kind := "shared", name := "new" }]

private theorem another_valid : another.validate = .ok () := by decide +kernel

/-- Where the driver of the output that goes is not busy, a call that returns true has made the
engine match. -/
theorem matches_iff_answering_another :
    (applyConfiguration twoOutputs another {}).2 = "" ∧
      Matches (applyConfiguration twoOutputs another {}).1 another := by
  have hok : (applyConfiguration twoOutputs another {}).2 = "" := by decide +kernel
  have h := matches_iff_answering twoOutputs another (fun _ ↦ .ran) (by decide) (by decide)
    another_valid
  exact ⟨hok, h.mpr (Or.inl fun x _ ↦ Or.inr (Or.inr rfl)) {} worded_remove rfl hok⟩

/-- While its driver is busy it stays, and the call returns true all the same. -/
theorem not_matches_of_busy : ¬ ∀ (e : State) (c : SourceConfig) (a : Answers),
    ((outputSpecs e.list).map OutputSpec.name).Nodup →
      (outputSpecs e.list).countP (outputKindIsPermanent ·.kind) = 1 → c.validate = .ok () →
        a.Worded → (applyConfiguration e c a).2 = "" → Matches (applyConfiguration e c a).1 c := by
  intro h
  have hm := h twoOutputs another { remove := fun _ ↦ .busy 1500 } (by decide) (by decide)
    another_valid worded_remove (by decide +kernel)
  have hlisted : ("out", "ndi") ∈ (outputSpecs (applyConfiguration twoOutputs another
      { remove := fun _ ↦ .busy 1500 }).1.list).map fun x ↦ (x.name, x.kind) := by decide +kernel
  obtain ⟨x, hx, hxe⟩ := List.mem_map.mp hlisted
  obtain ⟨hname, hkind⟩ := Prod.mk.inj hxe
  rcases hm.only x hx with ⟨o, ho, hxo, -⟩ | ⟨hp, -⟩
  · rw [List.mem_singleton.mp ho, hname] at hxo
    exact absurd hxo (by decide)
  · rw [hkind] at hp
    exact absurd hp (by decide)

end Apply

end WebLinked.Engine.Configuration
