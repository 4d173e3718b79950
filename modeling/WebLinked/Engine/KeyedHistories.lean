import WebLinked.Engine.WithoutUrls

/-!
# A key is in the report while its output is listed

Two engines whose histories differ in keys do the same things and hold the same outputs, but for the
urls. A report copies the options of every output it lists, so two reports are the same exactly if
all the listed urls are.
-/

namespace WebLinked.Engine.StateReport

open WebLinked.Base WebLinked.Core Json OutputList

section Own

variable {entry e : Entry} {s t : OutputList.State}

/-- The object in the slot has the options of its entry. -/
def Own (entry : Entry) : Prop :=
  ∀ output, entry.slot.output = some output → output.spec.options = entry.spec.options

/-- Starting the object, or leaving it alone, leaves it its options. -/
theorem Own.of_slot (h : Own entry) (hspec : e.spec.options = entry.spec.options)
    (hslot : e.slot = entry.slot ∨ ∃ format, e.slot = entry.slot.start format) : Own e := by
  intro output ho
  rw [hspec]
  rcases hslot with hslot | ⟨format, hslot⟩ <;> rw [hslot] at ho
  · exact h output ho
  · obtain ⟨output', ho', rfl⟩ := Option.map_eq_some_iff.mp ho
    exact h output' ho'

theorem own_opened (spec : OutputSpec) (format : VideoFormat) (a : OpenAnswers) :
    Own (Entry.opened spec format a) := by
  unfold Entry.opened
  split
  · exact fun output ho ↦ nomatch ho
  · intro output ho
    cases ho
    rfl
  · intro output ho
    cases ho
    rfl

theorem Own.setEnabled (h : Own entry) (format : VideoFormat) (enabled : Bool)
    (a : EnableAnswers) : Own (entry.setEnabled format enabled a).1 := by
  unfold Entry.setEnabled
  cases enabled with
  | false =>
    simp only [Bool.false_eq_true, if_false, Bool.not_false, if_true]
    split
    · exact h
    · split <;> exact h.of_slot rfl (Or.inl rfl)
  | true =>
    simp only [if_true, Bool.not_true, Bool.false_eq_true, if_false]
    split
    · exact h
    · split
      · exact h.of_slot rfl (Or.inl rfl)
      · exact h.of_slot rfl (Or.inl rfl)
      · split
        · exact h.of_slot rfl (Or.inl rfl)
        · split
          · exact h.of_slot rfl (Or.inr ⟨format, rfl⟩)
          · exact h.of_slot rfl (Or.inl rfl)

theorem Own.update (h : Own entry) (spec : OutputSpec) (format : VideoFormat)
    (a : UpdateAnswers) : Own (entry.update spec format a).1 := by
  unfold Entry.update
  dsimp only
  split
  · exact h.of_slot rfl (Or.inl rfl)
  · split
    · exact h.of_slot rfl (Or.inl rfl)
    · split
      · intro output ho
        cases ho
        rfl
      · cases a.previous.create with
        | some _ => exact fun output ho ↦ nomatch ho
        | none =>
          have hold : Own { entry with slot := entry.slot.replace (some { spec := entry.spec }) } := by
            intro output ho
            cases ho
            rfl
          simp only [Option.isSome_none, Bool.false_eq_true, if_false, Option.isSome_some,
            Bool.true_and]
          split
          · exact hold.of_slot rfl (Or.inr ⟨format, rfl⟩)
          · exact hold.of_slot rfl (Or.inl rfl)

theorem Own.cycle (h : Own entry) (a : FormatAnswers) (openAt : VideoFormat) (i : ℕ) :
    Own (cycle a openAt i entry).1 := by
  unfold OutputList.cycle Entry.reopen
  split
  · exact h.of_slot rfl (Or.inl rfl)
  · split
    · exact h.of_slot rfl (Or.inl rfl)
    · exact h.of_slot rfl (Or.inl rfl)
    · exact h.of_slot rfl (Or.inr ⟨openAt, rfl⟩)
    · exact h.of_slot rfl (Or.inl rfl)

/-- The entry that is found is one of them. -/
theorem own_find {outputs : List Entry} {name : String} (h : ∀ e ∈ outputs, Own e)
    (hf : findEntry outputs name = some entry) : Own entry :=
  h entry (findEntry_spec hf).1

theorem own_setEntry {outputs : List Entry} {name : String} (h : ∀ e ∈ outputs, Own e)
    (he : Own entry) : ∀ e ∈ setEntry name entry outputs, Own e := by
  intro e hmem
  rcases mem_setEntry hmem with rfl | hmem
  · exact he
  · exact h e hmem

theorem own_feed {acc : List Entry × Option String} (h : ∀ e ∈ acc.1, Own e) (item : Item) :
    ∀ e ∈ (feed acc item).1, Own e := by
  unfold feed
  split
  · exact h
  · next entry hf =>
    have hentry := own_find h hf
    split
    · exact own_setEntry h (hentry.of_slot rfl (Or.inl rfl))
    · split
      · exact h
      · split
        · exact own_setEntry h (hentry.of_slot rfl (Or.inl rfl))
        · exact own_setEntry h (hentry.of_slot rfl (Or.inl rfl))

theorem own_foldl_feed (items : List Item) {acc : List Entry × Option String}
    (h : ∀ e ∈ acc.1, Own e) : ∀ e ∈ (items.foldl feed acc).1, Own e := by
  induction items generalizing acc with
  | nil => exact h
  | cons item items ih => exact ih (own_feed h item)

theorem own_setFormat (h : ∀ e ∈ s.outputs, Own e) (format previous : VideoFormat)
    (a : FormatAnswers) : ∀ e ∈ (s.setFormat format previous a).outputs, Own e := by
  cases hs : a.stuck with
  | some millis =>
    rw [State.setFormat, hs]
    exact h
  | none =>
    rw [setFormat_eq hs]
    refine own_foldl_feed _ fun e he ↦ ?_
    obtain ⟨p, hp, rfl⟩ := List.mem_map.mp he
    obtain ⟨i, hi, rfl⟩ := List.mem_mapIdx.mp hp
    exact (h _ (List.getElem_mem hi)).cycle a _ i

/-- Every request leaves the objects their options. -/
theorem own_step {a : Action} (h : ∀ e ∈ s.outputs, Own e) (ht : s.step a = some t) :
    ∀ e ∈ t.outputs, Own e := by
  cases a with
  | setFormat format =>
    cases ht
    unfold State.requestFormat
    split <;> exact h
  | formatChange call answers =>
    obtain ⟨w, -, rfl⟩ := Option.map_eq_some_iff.mp ht
    exact @own_setFormat { s with waiting := s.waiting.eraseIdx call } h w.format w.previous answers
  | giveUp call message =>
    obtain ⟨w, -, rfl⟩ := Option.map_eq_some_iff.mp ht
    exact h
  | setOutputEnabled name enabled answers =>
    cases ht
    unfold State.setOutputEnabled
    split
    · exact h
    · next entry hf =>
      exact own_setEntry h ((own_find h hf).setEnabled s.format enabled answers)
  | addOutput spec answers =>
    cases ht
    unfold State.addOutput
    split
    · exact h
    · split
      · exact h
      · split
        · exact h
        · intro e he
          rcases List.mem_append.mp he with he | he
          · exact h e he
          · rw [List.mem_singleton.mp he]
            exact own_opened spec s.format answers
  | setOutputBackground name background =>
    cases ht
    unfold State.setOutputBackground
    split
    · exact h
    · next entry hf =>
      exact own_setEntry h ((own_find h hf).of_slot rfl (Or.inl rfl))
  | updateOutput name spec answers =>
    cases ht
    unfold State.updateOutput
    split
    · exact h
    · next entry hf =>
      split
      · exact h
      · split
        · exact h
        · split
          · exact h
          · exact own_setEntry h ((own_find h hf).update spec s.format answers)
  | removeOutput name gate =>
    cases ht
    unfold State.removeOutput
    split
    · exact h
    · split
      · exact h
      · split
        · exact h
        · exact fun e he ↦ h e (List.mem_of_mem_eraseP he)

end Own

section Reports

variable {s t : Twins}

/-- Two engines that have done the same but for urls, and reported the same. -/
structure Matched (s : Twins) : Prop where
  engines : blank s.left.engine = blank s.right.engine
  ownLeft : ∀ e ∈ s.left.engine.outputs, Own e
  ownRight : ∀ e ∈ s.right.engine.outputs, Own e
  lastStatus : s.left.lastStatus = s.right.lastStatus
  lastState : s.left.lastState = s.right.lastState
  reports : s.left.reports = s.right.reports

/-- Specs that are the same without their urls are the same with the same options. -/
theorem spec_eq {spec spec' : OutputSpec} (h : blankSpec spec = blankSpec spec')
    (hoptions : spec.options = spec'.options) : spec = spec' := by
  obtain ⟨hkind, hname, hindex, hbackground⟩ := fields_eq h
  obtain ⟨kind, name, deviceIndex, options, background⟩ := spec
  obtain ⟨kind', name', deviceIndex', options', background'⟩ := spec'
  dsimp only at hkind hname hindex hbackground hoptions
  rw [hkind, hname, hindex, hbackground, hoptions]

/-- Entries that are the same without their urls are the same with one url. -/
theorem entry_eq {entry entry' : Entry} (h : blankEntry entry = blankEntry entry')
    (hown : Own entry) (hown' : Own entry')
    (hurl : (entry.spec.options.get "url").asString = (entry'.spec.options.get "url").asString) :
    entry = entry' := by
  obtain ⟨spec, ⟨output, generation⟩, desc, fed, lastError⟩ := entry
  obtain ⟨spec', ⟨output', generation'⟩, desc', fed', lastError'⟩ := entry'
  simp only [blankEntry, blankSlot, Entry.mk.injEq, OutputList.Slot.mk.injEq] at h
  obtain ⟨hspec, ⟨houtput, rfl⟩, rfl, rfl, rfl⟩ := h
  have hspecs : spec = spec' := spec_eq hspec (options_eq (congrArg OutputSpec.options hspec) hurl)
  subst hspecs
  cases output with
  | none =>
    cases output' with
    | none => rfl
    | some o' => cases houtput
  | some o =>
    cases output' with
    | none => cases houtput
    | some o' =>
      have hblank : blankOutput o = blankOutput o' := Option.some.inj houtput
      have hoptions : o.spec.options = o'.spec.options :=
        (hown o rfl).trans (hown' o' rfl).symm
      have ho : o.spec = o'.spec := spec_eq (congrArg Output.spec hblank) hoptions
      have hstarted : (blankOutput o).started = (blankOutput o').started :=
        congrArg Output.started hblank
      obtain ⟨ospec, started⟩ := o
      obtain ⟨ospec', started'⟩ := o'
      dsimp only [blankOutput] at ho hstarted
      rw [ho, hstarted]

/-- Lists of entries that are the same without their urls are the same with the same urls. -/
theorem entries_eq {entries entries' : List Entry}
    (h : entries.map blankEntry = entries'.map blankEntry) (hown : ∀ e ∈ entries, Own e)
    (hown' : ∀ e ∈ entries', Own e)
    (hurls : entries.map (fun e ↦ (e.spec.options.get "url").asString) =
      entries'.map (fun e ↦ (e.spec.options.get "url").asString)) : entries = entries' := by
  induction entries generalizing entries' with
  | nil =>
    cases entries' with
    | nil => rfl
    | cons e' entries' => cases h
  | cons e entries ih =>
    cases entries' with
    | nil => cases h
    | cons e' entries' =>
      simp only [List.map_cons, List.cons.injEq] at h hurls
      have hhead := entry_eq h.1 (hown e List.mem_cons_self) (hown' e' List.mem_cons_self) hurls.1
      have htail := ih h.2 (fun x hx ↦ hown x (List.mem_cons_of_mem _ hx))
        (fun x hx ↦ hown' x (List.mem_cons_of_mem _ hx)) hurls.2
      rw [hhead, htail]

/-- Other members are found as before. -/
theorem get_setSome_of_ne {k k' : String} (h : k' ≠ k) (v : Value) (x : Option Value) :
    (setSome v k x).get k' = v.get k' := by
  cases x with
  | none => rfl
  | some x => exact Value.get_set_of_ne h v x

/-- A row has the options of its entry. -/
theorem row_options (entry : Entry) (value : Value) :
    (row entry value).get "options" = entry.spec.options := by
  unfold row
  dsimp only
  split <;> simp [Value.get_set_of_ne]

/-- A report has the outputs. -/
theorem report_outputs (format : VideoFormat) (outputs : List Value) (rest : Rest) :
    (report format outputs rest).get "outputs" = .array outputs := by
  unfold report
  simp [Value.get_set_of_ne, get_setSome_of_ne]

/-- The options in the rows are those of the list. -/
theorem rows_options (asked : ℕ → Asked) (entries : List Entry) (lasts : List (Option Value))
    (i : ℕ) :
    ((rows asked entries lasts i).map Prod.fst).map (·.get "options") =
      entries.map (·.spec.options) := by
  induction entries generalizing lasts i with
  | nil => rfl
  | cons entry entries ih =>
    rw [rows]
    dsimp only
    rw [List.map_cons, List.map_cons, List.map_cons, ih, row_options]

/-- A report is put together in both of the same, if the urls are the same. -/
theorem Matched.report (h : Matched s) (hurls : urls s.left = urls s.right) (asked : ℕ → Asked)
    (rest : Rest) :
    Matched { left := s.left.state (.report asked rest), right := s.right.state (.report asked rest) } := by
  have houtputs : s.left.engine.outputs = s.right.engine.outputs :=
    entries_eq (congrArg OutputList.State.outputs h.engines) h.ownLeft h.ownRight hurls
  have hformat : (blank s.left.engine).format = (blank s.right.engine).format :=
    congrArg OutputList.State.format h.engines
  have hrows : rows asked s.left.engine.outputs s.left.lastStatus 0 =
      rows asked s.right.engine.outputs s.right.lastStatus 0 := by rw [houtputs, h.lastStatus]
  have hreport : StateReport.report s.left.engine.format
      ((rows asked s.left.engine.outputs s.left.lastStatus 0).map Prod.fst) rest =
      StateReport.report s.right.engine.format
      ((rows asked s.right.engine.outputs s.right.lastStatus 0).map Prod.fst) rest := by
    rw [hrows, show s.left.engine.format = s.right.engine.format from hformat]
  exact {
    engines := h.engines
    ownLeft := h.ownLeft
    ownRight := h.ownRight
    lastStatus := congrArg (List.map Prod.snd) hrows
    lastState := congrArg some hreport
    reports := by
      change _ :: s.left.reports = _ :: s.right.reports
      rw [hreport, h.reports] }

/-- A report that could not be put together is the last one. -/
theorem Matched.locked (h : Matched s) (id : String) :
    Matched { left := s.left.state (.locked id), right := s.right.state (.locked id) } where
  engines := h.engines
  ownLeft := h.ownLeft
  ownRight := h.ownRight
  lastStatus := h.lastStatus
  lastState := h.lastState
  reports := by
    change _ :: s.left.reports = _ :: s.right.reports
    rw [h.lastState, h.reports]

/-- A request is made in both. -/
theorem Matched.request (h : Matched s) {a a' : Action} {u u' : State}
    (ha : blankAction a = blankAction a')
    (hsame : keepsOptions s.left.engine a = keepsOptions s.right.engine a')
    (hu : s.left.request a = some u) (hu' : s.right.request a' = some u') :
    Matched { left := u, right := u' } := by
  obtain ⟨engine, he, hu⟩ := Option.bind_eq_some_iff.mp hu
  obtain ⟨engine', he', hu'⟩ := Option.bind_eq_some_iff.mp hu'
  cases hu
  cases hu'
  have hengines : blank engine = blank engine' := by
    have hstep := blank_step h.engines ha hsame
    rw [he, he'] at hstep
    exact Option.some.inj hstep
  exact {
    engines := hengines
    ownLeft := own_step h.ownLeft he
    ownRight := own_step h.ownRight he'
    lastStatus := by
      dsimp only
      rw [← saidLast_blank, ← saidLast_blank a', ha, h.engines, hengines, h.lastStatus]
    lastState := h.lastState
    reports := h.reports }

/-- What a step does: the same report is asked for, or a request is made in both. -/
theorem step_cases {event : Event} (ht : machine.step s event = some t) :
    (∃ reading, event = .state reading ∧
      t = { left := s.left.state reading, right := s.right.state reading }) ∨
    ∃ a a' u u', event.actions = some (a, a') ∧
      keepsOptions s.left.engine a = keepsOptions s.right.engine a' ∧
      s.left.request a = some u ∧ s.right.request a' = some u' ∧ t = { left := u, right := u' } := by
  change Twins.step s event = some t at ht
  unfold Twins.step at ht
  split at ht
  · exact Or.inl ⟨_, rfl, (Option.some.inj ht).symm⟩
  · next a a' _ hactions =>
    split at ht
    · next hvalid =>
      obtain ⟨u, hu, ht⟩ := Option.bind_eq_some_iff.mp ht
      obtain ⟨u', hu', ht⟩ := Option.bind_eq_some_iff.mp ht
      rw [Bool.and_eq_true] at hvalid
      exact Or.inr ⟨a, a', u, u', hactions, of_decide_eq_true hvalid.2, hu, hu',
        (Option.some.inj ht).symm⟩
    · cases ht
  · cases ht

/-- Without a report on different urls the engines stay matched. -/
theorem matched_step : machine.Preserves (fun s event ↦ unkeyed s event) Matched := by
  intro s event t hg h ht
  rcases step_cases ht with ⟨reading, rfl, rfl⟩ | ⟨a, a', u, u', hactions, hsame, hu, hu', rfl⟩
  · cases reading with
    | report asked rest => exact h.report (of_decide_eq_true hg) asked rest
    | locked id => exact h.locked id
  · exact h.request (blankAction_eq hactions) hsame hu hu'

/-- Two engines started with the same outputs but for keys are matched. -/
theorem matched_init (hs : machine.init s) : Matched s := by
  obtain ⟨format, outputs, -, rfl⟩ := hs
  have hstart (f : Keyed → OutputSpec) :
      blank (started format (outputs.map fun o ↦ (f o.1, o.2))).engine =
        { format, outputs := outputs.map fun o ↦ Entry.opened (blankSpec (f o.1)) format o.2 } := by
    simp only [started, OutputList.start, blank, List.map_map, opened_blank]
    rfl
  have hown (outputs : List (OutputSpec × OpenAnswers)) :
      ∀ e ∈ (started format outputs).engine.outputs, Own e := by
    intro e he
    obtain ⟨o, -, rfl⟩ := List.mem_map.mp he
    exact own_opened o.1 format o.2
  exact {
    engines := by
      rw [hstart, hstart]
      simp only [blankSpec_keyed]
    ownLeft := hown _
    ownRight := hown _
    lastStatus := by
      change (outputs.map _).map _ = (outputs.map _).map _
      rw [List.map_map, List.map_map]
      rfl
    lastState := rfl
    reports := rfl }

/-- A report on different urls is different. -/
theorem not_sameReports_of_not_unkeyed {event : Event} (hg : ¬ unkeyed s event)
    (ht : machine.step s event = some t) : ¬ SameReports t := by
  cases event with
  | state reading =>
    cases ht
    cases reading with
    | locked id => exact absurd rfl hg
    | report asked rest =>
      intro hsame
      refine hg (decide_eq_true ?_)
      have hreport := (List.cons.inj hsame).1
      have houtputs := congrArg (·.get "outputs") hreport
      rw [report_outputs, report_outputs] at houtputs
      have hrows := congrArg (List.map (·.get "options")) (Value.array.inj houtputs)
      rw [rows_options, rows_options] at hrows
      have hurls := congrArg (List.map fun options ↦ (options.get "url").asString) hrows
      rwa [List.map_map, List.map_map] at hurls
  | _ => exact absurd rfl hg

end Reports

/-- Two engines whose histories differ in keys give the same reports as long as none is put together
while an output is listed whose key differs, and no longer. -/
theorem sameReports_iff_unkeyed (s t : Twins) (hs : machine.init s) (events : List Event)
    (ht : machine.run s events = some t) :
    machine.Always SameReports s events ↔
      machine.runUnder (fun s event ↦ unkeyed s event) s events = some t :=
  Machine.always_iff_runUnder_of_invariant (fun _ h ↦ h.reports) matched_step
    (fun _ _ _ _ hg hu ↦ not_sameReports_of_not_unkeyed hg hu) (matched_init hs) events ht

/-- Two engines with a stream each, to the same place with another key. -/
private def streaming : Twins :=
  let outputs : List (Keyed × OpenAnswers) :=
    [(.stream { kind := "stream", name := "live" } "rtmp://host/live" "AAA" "BBB", {})]
  { left := started {} (outputs.map fun o ↦ (o.1.left, o.2))
    right := started {} (outputs.map fun o ↦ (o.1.right, o.2)) }

private theorem init_streaming : machine.init streaming :=
  ⟨{}, [(.stream { kind := "stream", name := "live" } "rtmp://host/live" "AAA" "BBB", {})],
    by decide, rfl⟩

/-- Reports while no stream is listed, and the last one again while one is. -/
theorem sameReports_afterwards :
    let added : Keyed := .stream { kind := "stream", name := "more" } "srt://host/path" "a" "b"
    let events : List Event :=
      [.request (.removeOutput "live" .ran), .addOutput added {}, .state (.locked "studio"),
        .request (.removeOutput "more" .ran), .state (.report (fun _ ↦ .busy none) {})]
    ∃ t, machine.run streaming events = some t ∧ machine.Always SameReports streaming events := by
  intro added events
  have hrun : (machine.run streaming events).isSome := by decide +kernel
  obtain ⟨t, ht⟩ := Option.isSome_iff_exists.mp hrun
  have hsame : machine.runUnder (fun s event ↦ unkeyed s event) streaming events =
      machine.run streaming events := rfl
  exact ⟨t, ht, (sameReports_iff_unkeyed streaming t init_streaming events ht).mpr
    (hsame.trans ht)⟩

/-- A report on a stream has its key, in the options. -/
theorem not_sameReports : ¬ ∀ s, machine.Reachable s → SameReports s := by
  intro h
  let event : Event := .state (.report (fun _ ↦ .answered {}) {})
  have hkeyed : ¬ unkeyed streaming event = true := by decide +kernel
  obtain ⟨t, ht⟩ : ∃ t, machine.step streaming event = some t := ⟨_, rfl⟩
  exact not_sameReports_of_not_unkeyed hkeyed ht
    (h t (.step event (.init init_streaming) trivial ht))

end WebLinked.Engine.StateReport
