import WebLinked.Engine.StateReport

/-!
# Engines without their urls

What a url says decides nothing but whether an update finds new options. So every other request does
the same when all urls are blank, and an update does where it answers that the same.
-/

namespace WebLinked.Engine.StateReport

open WebLinked.Base WebLinked.Core Json OutputList

section Blank

/-- The options without what their url says. -/
def blankOptions (options : Value) : Value :=
  match options.get "url" with
  | .string _ => options.set "url" (.string "")
  | _ => options

/-- Options with a url are what they are without it, with it. -/
theorem set_url {options : Value} {url : String} (h : options.get "url" = .string url) :
    (options.set "url" (.string "")).set "url" (.string url) = options := by
  cases options with
  | object members =>
    have hlookup : members.lookup "url" = some (.string url) := by
      rw [Value.get, Value.members] at h
      cases hm : members.lookup "url" with
      | none =>
        rw [hm] at h
        cases h
      | some x =>
        rw [hm] at h
        exact congrArg some h
    rw [Value.set, Value.set, Value.members, Value.members,
      Value.setMember_setMember, Value.setMember_of_lookup hlookup]
  | _ => cases h

/-- Options have a url, which goes, or have none. -/
private theorem blankOptions_cases (options : Value) :
    (∃ url, options.get "url" = .string url ∧
      blankOptions options = options.set "url" (.string "")) ∨
    ((∀ url, options.get "url" ≠ .string url) ∧ blankOptions options = options) := by
  unfold blankOptions
  split
  · next url h => exact .inl ⟨url, h, rfl⟩
  · next h => exact .inr ⟨h, rfl⟩

/-- Options that are the same without their urls are the same with one url. -/
theorem options_eq {options other : Value} (h : blankOptions options = blankOptions other)
    (hurl : (options.get "url").asString = (other.get "url").asString) : options = other := by
  rcases blankOptions_cases options with ⟨url, ho, hb⟩ | ⟨ho, hb⟩ <;>
    rcases blankOptions_cases other with ⟨url', hother, hb'⟩ | ⟨hother, hb'⟩ <;> rw [hb, hb'] at h
  · rw [ho, hother] at hurl
    change url = url' at hurl
    subst hurl
    rw [← set_url ho, h, set_url hother]
  · refine absurd ?_ (hother "")
    rw [← h, Value.get_set_self]
  · refine absurd ?_ (ho "")
    rw [h, Value.get_set_self]
  · exact h

/-- A new url says the same as none. -/
theorem blankOptions_set (options : Value) (url : String) :
    blankOptions (options.set "url" (.string url)) = options.set "url" (.string "") := by
  rw [blankOptions, Value.get_set_self]
  exact congrArg Value.object (Value.setMember_setMember _ _ _ _)

/-- A spec without its url. -/
def blankSpec (spec : OutputSpec) : OutputSpec := { spec with options := blankOptions spec.options }

/-- An object without its url. -/
def blankOutput (output : Output) : Output := { output with spec := blankSpec output.spec }

/-- A slot without the url of its object. -/
def blankSlot (slot : Slot) : Slot := { slot with output := slot.output.map blankOutput }

/-- An entry without its urls. -/
def blankEntry (entry : Entry) : Entry :=
  { entry with spec := blankSpec entry.spec, slot := blankSlot entry.slot }

/-- An engine without urls. -/
def blank (s : OutputList.State) : OutputList.State :=
  { s with outputs := s.outputs.map blankEntry }

/-- A request without its url. -/
def blankAction : Action → Action
  | .addOutput spec answers => .addOutput (blankSpec spec) answers
  | .updateOutput name spec answers => .updateOutput name (blankSpec spec) answers
  | a => a

/-- Two specs that differ in the key are the same without it. -/
theorem blankSpec_keyed (spec : Keyed) : blankSpec spec.left = blankSpec spec.right := by
  cases spec with
  | same spec => rfl
  | stream spec base key other =>
    simp only [Keyed.left, Keyed.right, Keyed.fill, blankSpec, blankOptions_set]

end Blank

section Requests

variable {outputs : List Entry} {entry : Entry} {name : String}

@[simp] theorem findEntry_blank (outputs : List Entry) (name : String) :
    findEntry (outputs.map blankEntry) name = (findEntry outputs name).map blankEntry := by
  rw [findEntry, List.find?_map]
  rfl

@[simp] theorem setEntry_blank (name : String) (entry : Entry) (outputs : List Entry) :
    setEntry name (blankEntry entry) (outputs.map blankEntry) =
      (setEntry name entry outputs).map blankEntry := by
  induction outputs with
  | nil => rfl
  | cons x outputs ih =>
    rw [List.map_cons, setEntry, setEntry]
    by_cases hx : x.spec.name = name
    · rw [if_pos hx, if_pos (show (blankEntry x).spec.name = name from hx), List.map_cons]
    · rw [if_neg hx, if_neg (show ¬ (blankEntry x).spec.name = name from hx), List.map_cons, ih]

@[simp] theorem description_blank (slot : Slot) :
    (blankSlot slot).description = slot.description := by
  simp [Slot.description, blankSlot]

@[simp] theorem start_blank (slot : Slot) (format : VideoFormat) :
    (blankSlot slot).start format = blankSlot (slot.start format) := by
  rw [Slot.start, Slot.start, blankSlot, blankSlot, Option.map_map, Option.map_map]
  rfl

@[simp] theorem replace_blank (slot : Slot) (output : Option Output) :
    (blankSlot slot).replace (output.map blankOutput) = blankSlot (slot.replace output) := rfl

theorem opened_blank (spec : OutputSpec) (format : VideoFormat) (a : OpenAnswers) :
    Entry.opened (blankSpec spec) format a = blankEntry (Entry.opened spec format a) := by
  unfold Entry.opened
  split <;> rfl

theorem setEnabled_blank (entry : Entry) (format : VideoFormat) (enabled : Bool)
    (a : EnableAnswers) :
    (blankEntry entry).setEnabled format enabled a =
      (entry.setEnabled format enabled a).map blankEntry id := by
  obtain ⟨spec, ⟨output, generation⟩, ⟨_, present⟩, fed, lastError⟩ := entry
  obtain ⟨gate, isRunning, start⟩ := a
  cases present with
  | false => rfl
  | true =>
    cases gate with
    | busy millis => cases enabled <;> rfl
    | ran =>
      cases output with
      | none => cases enabled <;> rfl
      | some output =>
        cases enabled with
        | false => rfl
        | true => cases fed <;> cases isRunning <;> cases start <;> rfl

/-- Whether the output runs does not depend on its url. -/
theorem running_blank (entry : Entry) (probe : Option Bool) :
    (blankEntry entry).running probe = entry.running probe := by
  unfold Entry.running blankEntry blankSlot
  rw [Option.isSome_map]

/-- Specs that are the same without their urls are the same in all else. -/
theorem fields_eq {spec spec' : OutputSpec} (h : blankSpec spec = blankSpec spec') :
    spec.kind = spec'.kind ∧ spec.name = spec'.name ∧ spec.deviceIndex = spec'.deviceIndex ∧
      spec.background = spec'.background := by
  simp only [blankSpec, OutputSpec.mk.injEq] at h
  exact ⟨h.1, h.2.1, h.2.2.1, h.2.2.2.2⟩

/-- An update does the same to entries that are the same but for urls, if it sees a change of
options in both or in none. -/
theorem blankEntry_update {entry entry' : Entry} {spec spec' : OutputSpec}
    (hentry : blankEntry entry = blankEntry entry') (hspec : blankSpec spec = blankSpec spec')
    (hsame : decide (spec.options.serialize = entry.spec.options.serialize) =
      decide (spec'.options.serialize = entry'.spec.options.serialize))
    (format : VideoFormat) (a : UpdateAnswers) :
    (entry.update spec format a).map blankEntry id =
      (entry'.update spec' format a).map blankEntry id := by
  have hrunning : entry.running a.probe = entry'.running a.probe := by
    rw [← running_blank, hentry, running_blank]
  obtain ⟨old, ⟨output, generation⟩, desc, fed, lastError⟩ := entry
  obtain ⟨old', ⟨output', generation'⟩, desc', fed', lastError'⟩ := entry'
  simp only [blankEntry, blankSlot, Entry.mk.injEq, OutputList.Slot.mk.injEq] at hentry
  obtain ⟨hold, ⟨houtput, rfl⟩, rfl, rfl, rfl⟩ := hentry
  obtain ⟨hkind, hname, hindex, hbackground⟩ := fields_eq hspec
  obtain ⟨hkind', hname', hindex', -⟩ := fields_eq hold
  unfold Entry.update
  rw [hrunning, hsame, hkind, hkind', hname, hname', hindex, hindex']
  split
  · have hcopied : blankSpec { old with background := spec.background } =
        blankSpec { old' with background := spec'.background } := by
      change { blankSpec old with background := spec.background } =
        { blankSpec old' with background := spec'.background }
      rw [hold, hbackground]
    simp only [Prod.map, blankEntry, blankSlot, houtput]
    exact Prod.ext (congrArg (fun x ↦ Entry.mk x _ _ _ _) hcopied) rfl
  · cases a.gate with
    | busy millis => simp only [Prod.map, blankEntry, blankSlot, houtput, hold, hname']
    | ran =>
      cases a.replacement.create.or a.replacement.start with
      | none =>
        simp only [Prod.map, blankEntry, blankSlot, Slot.replace, Option.map_some, blankOutput,
          hspec, Slot.description, Option.isSome_some]
      | some error =>
        cases a.previous.create with
        | some _ =>
          simp only [Prod.map, blankEntry, blankSlot, Slot.replace, Slot.description, hold,
            Option.isSome_some, if_true, Option.isSome_none, Bool.false_and, Option.map_none,
            Bool.false_eq_true, if_false]
        | none =>
          simp only [Prod.map, blankEntry, blankSlot, Slot.replace, Slot.description, hold,
            Option.isSome_none, Bool.false_eq_true, if_false, Option.isSome_some, Bool.true_and]
          split <;> simp only [Slot.start, Option.map_some, blankOutput, hold, Option.isSome_some]

theorem cycle_blank (a : FormatAnswers) (openAt : VideoFormat) (i : ℕ) (entry : Entry) :
    cycle a openAt i (blankEntry entry) = (cycle a openAt i entry).map blankEntry id := by
  obtain ⟨spec, ⟨output, generation⟩, desc, fed, lastError⟩ := entry
  cases fed with
  | false => rfl
  | true =>
    unfold cycle
    generalize a.item i = answers
    obtain ⟨stop, reopen, start⟩ := answers
    cases stop with
    | busy millis => rfl
    | ran =>
      cases reopen with
      | busy millis => rfl
      | ran =>
        cases output with
        | none => rfl
        | some output => cases start <;> rfl

theorem feed_blank (acc : List Entry × Option String) (item : Item) :
    feed (acc.map (List.map blankEntry) id) item = (feed acc item).map (List.map blankEntry) id := by
  obtain ⟨entries, error⟩ := acc
  unfold feed
  rw [Prod.map_fst, findEntry_blank]
  cases findEntry entries item.name with
  | none => rfl
  | some entry =>
    dsimp only [Option.map_some]
    split
    · next millis hstop =>
      let message := "did not stop for the format change: " ++ busyMessage item.name millis
      exact Prod.ext (setEntry_blank item.name { entry with lastError := message } entries) rfl
    · split
      · rfl
      · split
        · exact Prod.ext
            (setEntry_blank item.name { entry with enabled := true, lastError := "" } entries) rfl
        · exact Prod.ext
            (setEntry_blank item.name { entry with lastError := item.startError } entries) rfl

theorem foldl_feed_blank (items : List Item) (acc : List Entry × Option String) :
    items.foldl feed (acc.map (List.map blankEntry) id) =
      (items.foldl feed acc).map (List.map blankEntry) id := by
  induction items generalizing acc with
  | nil => rfl
  | cons item items ih => rw [List.foldl_cons, List.foldl_cons, feed_blank, ih]

end Requests

section Engines

variable {s : OutputList.State}

theorem setFormat_blank (s : OutputList.State) (format previous : VideoFormat) (a : FormatAnswers) :
    (blank s).setFormat format previous a = blank (s.setFormat format previous a) := by
  cases hs : a.stuck with
  | some millis =>
    rw [State.setFormat, State.setFormat, hs]
    rfl
  | none =>
    have hcycle (openAt : VideoFormat) : (blank s).outputs.mapIdx (cycle a openAt) =
        (s.outputs.mapIdx (cycle a openAt)).map (Prod.map blankEntry id) := by
      refine List.ext_getElem (by simp [blank]) fun i hi hi' ↦ ?_
      simp [blank, cycle_blank]
    have hfed (reopened : List (Entry × Item)) :
        ((reopened.map (Prod.map blankEntry id)).map Prod.snd).foldl feed
            ((reopened.map (Prod.map blankEntry id)).map Prod.fst, none) =
          ((reopened.map Prod.snd).foldl feed (reopened.map Prod.fst, none)).map
            (List.map blankEntry) id := by
      rw [← foldl_feed_blank]
      simp only [List.map_map, Prod.map]
      rfl
    rw [setFormat_eq hs, setFormat_eq hs, hcycle]
    dsimp only
    rw [hfed]
    rfl

theorem setOutputEnabled_blank (s : OutputList.State) (name : String) (enabled : Bool)
    (a : EnableAnswers) :
    (blank s).setOutputEnabled name enabled a = blank (s.setOutputEnabled name enabled a) := by
  unfold State.setOutputEnabled
  rw [show (blank s).outputs = s.outputs.map blankEntry from rfl, findEntry_blank]
  cases findEntry s.outputs name with
  | none => rfl
  | some entry =>
    dsimp only [Option.map_some]
    rw [setEnabled_blank]
    dsimp only [Prod.map]
    rw [setEntry_blank]
    rfl

theorem addOutput_blank (s : OutputList.State) (spec : OutputSpec) (a : OpenAnswers) :
    (blank s).addOutput (blankSpec spec) a = blank (s.addOutput spec a) := by
  unfold State.addOutput
  rw [show (blank s).outputs = s.outputs.map blankEntry from rfl, List.any_map, List.any_map]
  change (if s.outputs.any (·.spec.name = spec.name) then _ else
    if outputKindIsPermanent spec.kind && s.outputs.any (outputKindIsPermanent ·.spec.kind) then _
      else _) = _
  split
  · rfl
  · split
    · rfl
    · cases hcreate : a.create with
      | some error => rfl
      | none =>
        dsimp only
        rw [opened_blank, ← List.map_singleton, ← List.map_append]
        rfl

theorem setOutputBackground_blank (s : OutputList.State) (name : String)
    (background : OutputBackground) :
    (blank s).setOutputBackground name background = blank (s.setOutputBackground name background) := by
  unfold State.setOutputBackground
  rw [show (blank s).outputs = s.outputs.map blankEntry from rfl, findEntry_blank]
  cases findEntry s.outputs name with
  | none => rfl
  | some entry =>
    have hset := setEntry_blank name { entry with spec := { entry.spec with background } } s.outputs
    exact congrArg (fun outputs ↦ { s with outputs, reply := .ok }) hset

theorem removeOutput_blank (s : OutputList.State) (name : String) (gate : Gate) :
    (blank s).removeOutput name gate = blank (s.removeOutput name gate) := by
  unfold State.removeOutput
  rw [show (blank s).outputs = s.outputs.map blankEntry from rfl, findEntry_blank]
  cases findEntry s.outputs name with
  | none => rfl
  | some entry =>
    dsimp only [Option.map_some]
    change (if outputKindIsPermanent entry.spec.kind then _ else _) = _
    split
    · rfl
    · cases gate with
      | busy millis => rfl
      | ran =>
        dsimp only
        rw [List.eraseP_map]
        rfl

/-- A reply is the same in both. -/
theorem blank_reply {s s' : OutputList.State} (hs : blank s = blank s') (reply : Reply) :
    blank { s with reply } = blank { s' with reply } :=
  congrArg (fun s : OutputList.State ↦ { s with reply }) hs

theorem blank_setEntry (s : OutputList.State) (name : String) (entry : Entry) (reply : Reply) :
    blank { s with outputs := setEntry name entry s.outputs, reply } =
      { blank s with outputs := setEntry name (blankEntry entry) (blank s).outputs, reply } := by
  rw [show (blank s).outputs = s.outputs.map blankEntry from rfl, setEntry_blank]
  rfl

/-- The engines do the same in an update that they both see as a change of options or both not. -/
theorem blank_updateOutput {s s' : OutputList.State} {spec spec' : OutputSpec} {name : String}
    {a : UpdateAnswers} (hs : blank s = blank s') (hspec : blankSpec spec = blankSpec spec')
    (hsame : keepsOptions s (.updateOutput name spec a) =
      keepsOptions s' (.updateOutput name spec' a)) :
    blank (s.updateOutput name spec a) = blank (s'.updateOutput name spec' a) := by
  have hfind : (findEntry s.outputs name).map blankEntry =
      (findEntry s'.outputs name).map blankEntry := by
    rw [← findEntry_blank, ← findEntry_blank]
    exact congrArg (fun s ↦ findEntry s.outputs name) hs
  obtain ⟨hkind, hname, -⟩ := fields_eq hspec
  have hformat : (blank s).format = (blank s').format := congrArg OutputList.State.format hs
  have htaken : s.outputs.any (·.spec.name = spec'.name) =
      s'.outputs.any (·.spec.name = spec'.name) := by
    have hany := congrArg (fun s ↦ s.outputs.any (·.spec.name = spec'.name)) hs
    dsimp only [blank] at hany
    rwa [List.any_map, List.any_map] at hany
  unfold State.updateOutput
  rw [keepsOptions, keepsOptions] at hsame
  cases hf : findEntry s.outputs name with
  | none =>
    cases hf' : findEntry s'.outputs name with
    | none => exact blank_reply hs _
    | some entry' =>
      rw [hf, hf'] at hfind
      cases hfind
  | some entry =>
    cases hf' : findEntry s'.outputs name with
    | none =>
      rw [hf, hf'] at hfind
      cases hfind
    | some entry' =>
      rw [hf, hf'] at hfind hsame
      have hentry : blankEntry entry = blankEntry entry' := Option.some.inj hfind
      obtain ⟨hkind', -⟩ := fields_eq (congrArg Entry.spec hentry)
      have hanswer : (entry.update spec s.format a).map blankEntry id =
          (entry'.update spec' s'.format a).map blankEntry id := by
        rw [show s.format = s'.format from hformat]
        exact blankEntry_update hentry hspec hsame s'.format a
      have hnew := congrArg Prod.fst hanswer
      have hreply := congrArg Prod.snd hanswer
      dsimp only [Prod.map, id] at hnew hreply
      dsimp only
      rw [hkind, hkind', hname, htaken]
      split
      · exact blank_reply hs _
      · split
        · exact blank_reply hs _
        · split
          · exact blank_reply hs _
          · rw [blank_setEntry, blank_setEntry, hs, hnew, hreply]

/-- A request that is no update does the same without urls. -/
theorem step_blank (s : OutputList.State) {a : Action}
    (ha : ∀ name spec answers, a ≠ .updateOutput name spec answers) :
    (blank s).step (blankAction a) = (s.step a).map blank := by
  cases a with
  | setFormat format =>
    refine congrArg some ?_
    unfold State.requestFormat
    change (if s.format.equal format then _ else _) = _
    split <;> rfl
  | formatChange call answers =>
    change (s.waiting[call]?).map _ = ((s.waiting[call]?).map _).map blank
    rw [Option.map_map]
    congr 1
    funext w
    exact setFormat_blank { s with waiting := s.waiting.eraseIdx call } w.format w.previous answers
  | giveUp call message =>
    change (s.waiting[call]?).map _ = ((s.waiting[call]?).map _).map blank
    rw [Option.map_map]
    rfl
  | setOutputEnabled name enabled answers =>
    exact congrArg some (setOutputEnabled_blank s name enabled answers)
  | addOutput spec answers => exact congrArg some (addOutput_blank s spec answers)
  | setOutputBackground name background =>
    exact congrArg some (setOutputBackground_blank s name background)
  | updateOutput name spec answers => exact absurd rfl (ha name spec answers)
  | removeOutput name gate => exact congrArg some (removeOutput_blank s name gate)

/-- The requests of an event are the same but for urls. -/
theorem blankAction_eq {event : Event} {a a' : Action} (h : event.actions = some (a, a')) :
    blankAction a = blankAction a' := by
  cases event with
  | request b => cases h; rfl
  | addOutput spec answers =>
    cases h
    exact congrArg (Action.addOutput · answers) (blankSpec_keyed spec)
  | updateOutput name spec answers =>
    cases h
    exact congrArg (Action.updateOutput name · answers) (blankSpec_keyed spec)
  | state reading => cases h

/-- What happens in both histories is the same but for urls. -/
theorem blank_step {s s' : OutputList.State} {a a' : Action} (hs : blank s = blank s')
    (ha : blankAction a = blankAction a') (hsame : keepsOptions s a = keepsOptions s' a') :
    (s.step a).map blank = (s'.step a').map blank := by
  by_cases hupdate : ∃ name spec answers, a = .updateOutput name spec answers
  · obtain ⟨name, spec, answers, rfl⟩ := hupdate
    cases a' with
    | updateOutput name' spec' answers' =>
      simp only [blankAction, Action.updateOutput.injEq] at ha
      obtain ⟨rfl, hspec, rfl⟩ := ha
      exact congrArg some (blank_updateOutput hs hspec hsame)
    | _ => cases ha
  · have hother : ∀ name spec answers, a' ≠ .updateOutput name spec answers := by
      rintro name spec answers rfl
      cases a with
      | updateOutput name' spec' answers' => exact hupdate ⟨name', spec', answers', rfl⟩
      | _ => cases ha
    rw [← step_blank s fun name spec answers h ↦ hupdate ⟨name, spec, answers, h⟩,
      ← step_blank s' hother, hs, ha]

/-- What the outputs said last does not depend on urls. -/
theorem saidLast_blank (a : Action) (s t : OutputList.State) (lastStatus : List (Option Value)) :
    saidLast (blankAction a) (blank s) (blank t) lastStatus = saidLast a s t lastStatus := by
  cases a with
  | addOutput spec answers =>
    simp only [saidLast, blankAction, blank, List.length_map]
  | removeOutput name gate =>
    simp only [saidLast, blankAction, blank, List.length_map, List.findIdx_map]
    rfl
  | _ => rfl

end Engines

end WebLinked.Engine.StateReport
