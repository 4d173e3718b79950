import Mathlib
import WebLinked.Base.Keyed
import WebLinked.Engine.Configuration

/-!
# What requests leave of what the outputs are

`src/engine/engine.cpp:921–1397`. Whether a request was made or refused, and what the outputs
are afterwards, for each request in one law. A request that is refused says why.
-/

namespace WebLinked.Engine.Configuration

open WebLinked.Base WebLinked.Core Json OutputList Keyed

variable {s : OutputList.State} {outputs : List Entry} {name : String} {entry e : Entry}

section FormatChange

/-- What is written back into the entry that was found leaves what the outputs are. -/
theorem specs_setEntry_of_find (hf : findEntry outputs name = some entry)
    (he : e.spec = entry.spec) :
    (setEntry name e outputs).map Entry.spec = outputs.map Entry.spec := by
  induction outputs with
  | nil => rfl
  | cons x outputs ih =>
    rw [findEntry, List.find?_cons] at hf
    rw [setEntry]
    split
    · next hx =>
      simp only [hx, decide_true, Option.some.injEq] at hf
      rw [List.map_cons, List.map_cons, he, hf]
    · next hx =>
      simp only [hx, decide_false] at hf
      rw [List.map_cons, List.map_cons, ih hf]

/-- The output was stopped, and started again if it was fed. -/
def quiet (item : Item) : Prop := item.stop = .ran ∧ (item.wasEnabled → item.started)

/-- Feeding one output again leaves what the outputs are, and keeps silent if it came back. -/
private theorem feed_answer {acc : List Entry × Option String} {item : Item}
    (hm : item.name ∈ acc.1.map (·.spec.name)) :
    (feed acc item).1.map Entry.spec = acc.1.map Entry.spec ∧
      ((feed acc item).2 = none ↔ acc.2 = none ∧ quiet item) := by
  unfold feed quiet
  split
  · next hnone =>
    obtain ⟨x, hx, hname⟩ := List.mem_map.mp hm
    exact absurd hname (by simpa using List.find?_eq_none.mp hnone x hx)
  · next entry hf =>
    split
    · next millis hstop =>
      refine ⟨specs_setEntry_of_find hf rfl, ?_⟩
      simp [hstop]
    · next hstop =>
      split
      · next hw => exact ⟨rfl, by simp_all⟩
      · split
        · next hst => exact ⟨specs_setEntry_of_find hf rfl, by simp_all⟩
        · next hw hst =>
          refine ⟨specs_setEntry_of_find hf rfl, ?_⟩
          simp_all

private theorem foldl_feed_answer (items : List Item) (acc : List Entry × Option String)
    (hm : ∀ item ∈ items, item.name ∈ acc.1.map (·.spec.name)) :
    (items.foldl feed acc).1.map Entry.spec = acc.1.map Entry.spec ∧
      ((items.foldl feed acc).2 = none ↔ acc.2 = none ∧ ∀ item ∈ items, quiet item) := by
  induction items generalizing acc with
  | nil => simp
  | cons item items ih =>
    obtain ⟨hfirst, hrest⟩ := List.forall_mem_cons.mp hm
    obtain ⟨hspecs, hanswer⟩ := feed_answer hfirst
    have hnames : (feed acc item).1.map (·.spec.name) = acc.1.map (·.spec.name) := by
      have h := congrArg (List.map OutputSpec.name) hspecs
      rwa [List.map_map, List.map_map] at h
    obtain ⟨hspecs', hanswer'⟩ := ih (feed acc item) (hnames ▸ hrest)
    refine ⟨hspecs'.trans hspecs, ?_⟩
    rw [List.foldl_cons, hanswer', hanswer, List.forall_mem_cons, and_assoc]

/-- An output comes through a format change: it can be stopped, and opened again if it is fed. -/
def Returns (entry : Entry) (a : ItemAnswers) : Prop :=
  a.stop = .ran ∧ (entry.enabled → a.reopen = .ran ∧ entry.slot.output.isSome ∧ a.start = none)

private theorem cycle_answer (a : FormatAnswers) (openAt : VideoFormat) (i : ℕ) (entry : Entry) :
    (cycle a openAt i entry).1.spec = entry.spec ∧
      (cycle a openAt i entry).2.name = entry.spec.name ∧
      (quiet (cycle a openAt i entry).2 ↔ Returns entry (a.item i)) := by
  unfold cycle Entry.reopen Entry.item quiet Returns Item.stopped
  split
  · next h =>
    refine ⟨rfl, rfl, ?_⟩
    cases hen : entry.enabled with
    | false => simp
    | true =>
      have hstop : (a.item i).stop ≠ .ran := by simpa [hen] using h
      simp [hstop]
  · next h =>
    split <;> refine ⟨rfl, rfl, ?_⟩ <;> simp_all

private theorem mem_items (s : OutputList.State) (a : FormatAnswers) (openAt : VideoFormat) :
    ∀ item ∈ (s.outputs.mapIdx (cycle a openAt)).map Prod.snd,
      item.name ∈ ((s.outputs.mapIdx (cycle a openAt)).map Prod.fst).map (·.spec.name) := by
  intro item hitem
  obtain ⟨p, hp, rfl⟩ := List.mem_map.mp hitem
  obtain ⟨i, hi, rfl⟩ := List.mem_mapIdx.mp hp
  obtain ⟨hspec, hname, -⟩ := cycle_answer a openAt i s.outputs[i]
  rw [hname, ← hspec]
  exact List.mem_map_of_mem (List.mem_map_of_mem hp)

/-- A format change leaves what the outputs are. -/
theorem outputSpecs_setFormat (format previous : VideoFormat) (a : FormatAnswers) :
    outputSpecs (s.setFormat format previous a) = outputSpecs s := by
  cases hs : a.stuck with
  | some millis =>
    rw [State.setFormat, hs]
    rfl
  | none =>
    rw [setFormat_eq hs]
    refine (foldl_feed_answer _ _ (mem_items s a _)).1.trans ?_
    refine List.ext_getElem (by simp [outputSpecs]) fun i hi hi' ↦ ?_
    simp [outputSpecs, (cycle_answer a _ i _).1]

/-- A format change is reported as one when the clock ticks and parks and every output comes
through. -/
theorem setFormat_reply (format previous : VideoFormat) (a : FormatAnswers) :
    (s.setFormat format previous a).reply = .ok ↔ a.stuck = none ∧ a.parked ∧
      ∀ i entry, s.outputs[i]? = some entry → Returns entry (a.item i) := by
  cases hs : a.stuck with
  | some millis =>
    rw [State.setFormat, hs]
    simp
  | none =>
    rw [setFormat_eq hs]
    cases hp : a.parked with
    | false => simp
    | true =>
      have hreply (error : Option String) : reply error = .ok ↔ error = none := by
        cases error <;> simp [reply]
      have hquiet : (∀ item ∈ (s.outputs.mapIdx (cycle a format)).map Prod.snd, quiet item) ↔
          ∀ i entry, s.outputs[i]? = some entry → Returns entry (a.item i) := by
        constructor
        · intro h i entry hentry
          obtain ⟨hi, rfl⟩ := List.getElem?_eq_some_iff.mp hentry
          exact (cycle_answer a format i s.outputs[i]).2.2.mp
            (h _ (List.mem_map_of_mem (List.mem_mapIdx.mpr ⟨i, hi, rfl⟩)))
        · intro h item hitem
          obtain ⟨p, hp, rfl⟩ := List.mem_map.mp hitem
          obtain ⟨i, hi, rfl⟩ := List.mem_mapIdx.mp hp
          exact (cycle_answer a format i s.outputs[i]).2.2.mpr
            (h i _ (List.getElem?_eq_getElem hi))
      have hanswer := (foldl_feed_answer _ (_, none) (mem_items s a format)).2
      simp only [if_true, true_and, hreply, hanswer, hquiet]

end FormatChange

section Messages

/-- A request that is refused says why. -/
def Worded (reply : Reply) : Prop := reply.message = "" → reply = .ok

private theorem append_ne {s t : String} (h : t ≠ "") : s ++ t ≠ "" :=
  fun ht ↦ h (String.append_eq_empty_iff.mp ht).2

private theorem worded_error {text : String} (h : text ≠ "") : Worded (.error text) :=
  fun ht ↦ absurd ht h

private theorem worded_notChanged (format : VideoFormat) : Worded (.notChanged format) := by
  intro ht
  unfold Reply.message at ht
  have hleft := (String.append_eq_empty_iff.mp (String.append_eq_empty_iff.mp ht).1).1
  simp at hleft

private theorem busyMessage_ne (name : String) (millis : Int) : busyMessage name millis ≠ "" :=
  append_ne (by decide)

/-- What is noted is empty when nothing was refused. -/
theorem note_eq_empty {firstError : String} {reply : Reply} (h : Worded reply) :
    note firstError reply = "" ↔ firstError = "" ∧ reply = .ok := by
  have hrefused (hr : reply ≠ .ok) :
      (if firstError = "" then reply.message else firstError) ≠ "" := by
    split
    · exact fun ht ↦ hr (h ht)
    · next hf => exact hf
  cases reply with
  | ok => exact (and_iff_left rfl).symm
  | error text => exact iff_of_false (hrefused (by simp)) (by simp)
  | notChanged reopenedAt => exact iff_of_false (hrefused (by simp)) (by simp)

private theorem or_worded {error : Option String} {text : String} (h : error ≠ some "")
    (ht : text ≠ "") : error.or (some text) ≠ some "" := by
  cases error with
  | none => simpa using ht
  | some first => exact h

private theorem feed_worded {acc : List Entry × Option String} (item : Item)
    (h : acc.2 ≠ some "") : (feed acc item).2 ≠ some "" := by
  unfold feed
  split
  · exact h
  · split
    · exact or_worded h (by simp)
    · split
      · exact h
      · split
        · exact h
        · exact or_worded h (by simp)

/-- A format change that is refused says why. -/
theorem setFormat_worded (format previous : VideoFormat) (a : FormatAnswers) :
    Worded (s.setFormat format previous a).reply := by
  cases hs : a.stuck with
  | some millis =>
    rw [State.setFormat, hs]
    exact worded_error (append_ne (by decide))
  | none =>
    have hfed (items : List Item) (acc : List Entry × Option String) (h : acc.2 ≠ some "") :
        (items.foldl feed acc).2 ≠ some "" := by
      induction items generalizing acc with
      | nil => exact h
      | cons item items ih => exact ih _ (feed_worded item h)
    rw [setFormat_eq hs]
    dsimp only
    split
    · generalize hf : List.foldl feed _ _ = fed
      have hne : fed.2 ≠ some "" := hf ▸ hfed _ _ (by simp)
      cases herror : fed.2 with
      | none => exact fun _ ↦ rfl
      | some text =>
        refine worded_error fun ht ↦ ?_
        rw [ht] at herror
        exact hne herror
    · exact worded_notChanged previous

end Messages

section Requests

variable {spec : OutputSpec}

/-- What drivers say when they cannot open an output is not empty. -/
def OpensWorded (a : OpenAnswers) : Prop := a.create ≠ some "" ∧ a.start ≠ some ""

/-- Where names are distinct, the entry found is all of that name. -/
theorem specs_setEntry (hn : Distinct OutputSpec.name (outputs.map Entry.spec)) :
    (setEntry name e outputs).map Entry.spec =
      replace OutputSpec.name name e.spec (outputs.map Entry.spec) := by
  induction outputs with
  | nil => rfl
  | cons x outputs ih =>
    rw [setEntry, List.map_cons, Keyed.replace, List.map_cons, ← Keyed.replace]
    split
    · next hname =>
      have hothers : ∀ spec ∈ outputs.map Entry.spec, spec.name ≠ name :=
        fun spec hspec h ↦ hn.ne_of_mem_tail hspec (h.trans hname.symm)
      rw [List.map_cons, replace_of_forall_ne hothers]
    · rw [List.map_cons, ih hn.tail]

/-- An update under the same name leaves the entry what was asked for, or leaves it and says
why. -/
private theorem update_answer (format : VideoFormat) (a : UpdateAnswers)
    (ha : OpensWorded a.replacement) (hname : entry.spec.name = spec.name) :
    ((entry.update spec format a).2 = none ∧
      (entry.update spec format a).1.spec.name = spec.name ∧
      (entry.update spec format a).1.spec.same spec) ∨
    ((entry.update spec format a).1.spec = entry.spec ∧
      ∃ error ≠ "", (entry.update spec format a).2 = some error) := by
  unfold Entry.update
  dsimp only
  split
  · next h =>
    refine Or.inl ⟨rfl, hname, ?_⟩
    simp only [Bool.and_eq_true, decide_eq_true_eq] at h
    simp [OutputSpec.same, h]
  · split
    · exact Or.inr ⟨rfl, _, busyMessage_ne _ _, rfl⟩
    · split
      · exact Or.inl ⟨rfl, rfl, by simp [OutputSpec.same]⟩
      · next error herror =>
        refine Or.inr ⟨rfl, error, ?_, rfl⟩
        rintro rfl
        rcases Option.or_eq_some_iff.mp herror with h | ⟨-, h⟩
        · exact ha.1 h
        · exact ha.2 h

/-- An update whose driver answers and whose replacement opens is made. -/
private theorem update_ok (format : VideoFormat) (a : UpdateAnswers) (hgate : a.gate = .ran)
    (ha : a.replacement = {}) : (entry.update spec format a).2 = none := by
  unfold Entry.update
  dsimp only
  split
  · rfl
  · simp [hgate, ha]

/-- What an update of an output under its own name leaves. -/
theorem updateOutput_answer (hn : Distinct OutputSpec.name (outputSpecs s)) (spec : OutputSpec)
    (a : UpdateAnswers) (ha : OpensWorded a.replacement) :
    Worded (s.updateOutput spec.name spec a).reply ∧
      (((s.updateOutput spec.name spec a).reply = .ok ∧
        (∃ old ∈ outputSpecs s, old.name = spec.name ∧
          outputKindIsPermanent old.kind = outputKindIsPermanent spec.kind) ∧
        ∃ new : OutputSpec, new.name = spec.name ∧ new.same spec ∧
          outputSpecs (s.updateOutput spec.name spec a) =
            replace OutputSpec.name spec.name new (outputSpecs s)) ∨
      ((s.updateOutput spec.name spec a).reply ≠ .ok ∧
        outputSpecs (s.updateOutput spec.name spec a) = outputSpecs s)) := by
  unfold State.updateOutput
  split
  · exact ⟨worded_error (by simp), Or.inr ⟨nofun, rfl⟩⟩
  · next entry hf =>
    obtain ⟨hentry, hname⟩ := findEntry_spec hf
    split
    · exact ⟨worded_error (by simp), Or.inr ⟨nofun, rfl⟩⟩
    · next hstays =>
      split
      · exact ⟨worded_error (by simp), Or.inr ⟨nofun, rfl⟩⟩
      · next hbecomes =>
        split
        · exact ⟨worded_error (by simp), Or.inr ⟨nofun, rfl⟩⟩
        · have hanswer := update_answer s.format a ha hname
          generalize entry.update spec s.format a = updated at hanswer
          obtain ⟨new, error⟩ := updated
          have hspecs : outputSpecs { s with outputs := setEntry spec.name new s.outputs } =
              replace OutputSpec.name spec.name new.spec (outputSpecs s) := specs_setEntry hn
          rcases hanswer with ⟨hok, hnew, hsame⟩ | ⟨hspec, text, htext, herror⟩
          · cases hok
            refine ⟨fun _ ↦ rfl, Or.inl ⟨rfl, ⟨entry.spec, List.mem_map_of_mem hentry, hname, ?_⟩,
              new.spec, hnew, hsame, hspecs⟩⟩
            exact permanent_eq hstays hbecomes
          · cases herror
            exact ⟨worded_error htext, Or.inr ⟨nofun, specs_setEntry_of_find hf hspec⟩⟩

/-- An update that agrees with the list, whose driver answers and whose replacement opens. -/
theorem updateOutput_ok {a : UpdateAnswers} (hgate : a.gate = .ran) (ha : a.replacement = {})
    (hf : findEntry s.outputs spec.name = some entry)
    (hp : outputKindIsPermanent entry.spec.kind = outputKindIsPermanent spec.kind) :
    (s.updateOutput spec.name spec a).reply = .ok := by
  have hkind (h : outputKindIsPermanent spec.kind) : spec.kind = entry.spec.kind := by
    rw [outputKindIsPermanent, decide_eq_true_eq] at h
    rw [outputKindIsPermanent, outputKindIsPermanent, h, decide_eq_decide] at hp
    exact h.trans (hp.mpr rfl).symm
  unfold State.updateOutput
  rw [hf]
  dsimp only
  rw [if_neg, if_neg, if_neg]
  · rw [update_ok s.format a hgate ha]
    rfl
  · simp
  · simp [hp]
  · simp only [hp, Bool.and_eq_true, decide_eq_true_eq, not_and, not_not]
    exact hkind

/-- What adding an output leaves. -/
theorem addOutput_answer (s : OutputList.State) (spec : OutputSpec) (a : OpenAnswers)
    (ha : OpensWorded a) :
    Worded (s.addOutput spec a).reply ∧
      (((∀ x ∈ outputSpecs s, x.name ≠ spec.name) ∧
        (outputKindIsPermanent spec.kind → ∀ x ∈ outputSpecs s, outputKindIsPermanent x.kind = false) ∧
        outputSpecs (s.addOutput spec a) = outputSpecs s ++ [spec]) ∨
      ((s.addOutput spec a).reply ≠ .ok ∧ outputSpecs (s.addOutput spec a) = outputSpecs s)) := by
  unfold State.addOutput
  split
  · exact ⟨worded_error (by simp), Or.inr ⟨nofun, rfl⟩⟩
  · next hname =>
    split
    · exact ⟨worded_error (by simp), Or.inr ⟨nofun, rfl⟩⟩
    · next hpermanent =>
      split
      · next error herror =>
        refine ⟨worded_error fun ht ↦ ha.1 (ht ▸ herror), Or.inr ⟨nofun, rfl⟩⟩
      · next hcreate =>
        refine ⟨?_, Or.inl ⟨?_, ?_, ?_⟩⟩
        · cases hstart : a.start with
          | none => exact fun _ ↦ rfl
          | some text => exact worded_error fun ht ↦ ha.2 (ht ▸ hstart)
        · simpa [outputSpecs] using hname
        · intro hk
          simpa [outputSpecs, hk] using hpermanent
        · simp [outputSpecs]

/-- An output of a new name that opens, and is not a second permanent one. -/
theorem addOutput_ok (hname : ∀ x ∈ outputSpecs s, x.name ≠ spec.name)
    (hp : outputKindIsPermanent spec.kind → ∀ x ∈ outputSpecs s, outputKindIsPermanent x.kind = false) :
    (s.addOutput spec {}).reply = .ok := by
  unfold State.addOutput
  rw [if_neg, if_neg]
  · rfl
  · simpa [outputSpecs] using hp
  · simpa [outputSpecs] using hname

/-- What is not removed stays: another name, a permanent output, or one that is busy. -/
theorem outputSpecs_removeOutput (hn : Distinct OutputSpec.name (outputSpecs s)) (name : String)
    (gate : Gate) :
    outputSpecs (s.removeOutput name gate) = (outputSpecs s).filter fun spec ↦
      spec.name ≠ name ∨ outputKindIsPermanent spec.kind ∨ gate ≠ .ran := by
  have hall (h : ∀ spec ∈ outputSpecs s, spec.name = name →
      outputKindIsPermanent spec.kind ∨ gate ≠ .ran) :
      outputSpecs s = (outputSpecs s).filter fun spec ↦
        spec.name ≠ name ∨ outputKindIsPermanent spec.kind ∨ gate ≠ .ran := by
    refine (List.filter_eq_self.mpr fun spec hspec ↦ decide_eq_true ?_).symm
    by_cases hs : spec.name = name
    · exact Or.inr (h spec hspec hs)
    · exact Or.inl hs
  unfold State.removeOutput
  split
  · next hnone =>
    refine hall fun spec hspec hs ↦ absurd hs ?_
    obtain ⟨x, hx, rfl⟩ := List.mem_map.mp hspec
    simpa using List.find?_eq_none.mp hnone x hx
  · next entry hf =>
    obtain ⟨hentry, hname⟩ := findEntry_spec hf
    have hmem : entry.spec ∈ outputSpecs s := List.mem_map_of_mem hentry
    have hfound (spec : OutputSpec) (hspec : spec ∈ outputSpecs s) (hs : spec.name = name) :
        spec = entry.spec := hn.eq hspec hmem (hs.trans hname.symm)
    split
    · next hp => exact hall fun spec hspec hs ↦ Or.inl (hfound spec hspec hs ▸ hp)
    · next hp =>
      split
      · exact hall fun spec hspec hs ↦ Or.inr nofun
      · have herase : outputSpecs { s with outputs := s.outputs.eraseP (·.spec.name = name) } =
            remove OutputSpec.name name (outputSpecs s) := by
          rw [← hn.eraseP_eq, outputSpecs, outputSpecs, List.eraseP_map]
          rfl
        refine herase.trans (List.filter_congr fun spec hspec ↦ ?_)
        by_cases hs : spec.name = name
        · rw [Bool.not_eq_true, ← hfound spec hspec hs] at hp
          simp [hs, hp]
        · simp [hs]

end Requests

end WebLinked.Engine.Configuration
