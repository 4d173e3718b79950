import Mathlib
import WebLinked.Engine.OutputList

/-!
# Fed outputs agree with the engine's raster

`src/engine/engine.cpp:834–1397`. Every request leaves the entries it enables started at the
raster then in force. A format change whose clock did not park reopens at the raster it read
before it queued, which another format change may have replaced meanwhile.
-/

namespace WebLinked.Engine.OutputList

open WebLinked.Base WebLinked.Core

variable {s t : State} {a : Action}

/-- If the entry is fed, its output was last started at the raster. -/
def Entry.Agrees (entry : Entry) (format : VideoFormat) : Prop :=
  entry.enabled → ∀ o, entry.slot.output = some o → ∃ f, o.started = some f ∧ f.equal format

/-- Every fed output was last started at the engine's raster, and a format change that reports
that nothing changed names that raster as the one it reopened the outputs at. -/
structure RasterAgreed (s : State) : Prop where
  fed : ∀ entry ∈ s.outputs, entry.Agrees s.format
  reported : ∀ f, s.reply = .notChanged f → f.equal s.format

/-- The step is no format change that finds the clock not parked after another one has
replaced the raster it read before it queued. -/
def knowsFormat (s : State) : Action → Bool
  | .formatChange call answers =>
    match s.waiting[call]? with
    | some w => answers.stuck.isSome || answers.parked || w.previous.equal s.format
    | none => true
  | _ => true

section Entries

variable {entry : Entry} {format : VideoFormat}

private theorem agrees_of_disabled (h : entry.enabled = false) : entry.Agrees format := by
  intro he
  rw [h] at he
  cases he

private theorem started_start {slot : Slot} {o : Output}
    (h : (slot.start format).output = some o) : o.started = some format := by
  obtain ⟨o', -, rfl⟩ := Option.map_eq_some_iff.mp h
  rfl

private theorem agrees_opened (spec : OutputSpec) (a : OpenAnswers) :
    (Entry.opened spec format a).Agrees format := by
  unfold Entry.opened
  split
  · exact agrees_of_disabled rfl
  · exact agrees_of_disabled rfl
  · intro _ o ho
    cases ho
    exact ⟨format, rfl, format.equal_refl⟩

/-- The object is as it was or started at the raster, and the entry is fed only then. -/
private theorem setEnabled_cases (format : VideoFormat) (enabled : Bool) (a : EnableAnswers) {e : Entry}
    (he : (entry.setEnabled format enabled a).1 = e) :
    e.spec = entry.spec ∧ (e.enabled = false ∨
      (e.slot = entry.slot ∧ e.enabled = entry.enabled) ∨ e.slot = entry.slot.start format) := by
  subst he
  unfold Entry.setEnabled
  cases enabled with
  | false =>
    simp only [Bool.false_eq_true, if_false, Bool.not_false, if_true]
    repeat' split
    all_goals first | exact ⟨rfl, Or.inl rfl⟩ | exact ⟨rfl, Or.inr (Or.inl ⟨rfl, rfl⟩)⟩
  | true =>
    split
    · exact ⟨rfl, Or.inr (Or.inl ⟨rfl, rfl⟩)⟩
    · simp only [if_true, Bool.not_true, Bool.false_eq_true, if_false]
      split
      · exact ⟨rfl, Or.inr (Or.inl ⟨rfl, rfl⟩)⟩
      · exact ⟨rfl, Or.inr (Or.inl ⟨rfl, rfl⟩)⟩
      · split
        · next hacted =>
          have hwas : true = entry.enabled := by simp_all
          exact ⟨rfl, Or.inr (Or.inl ⟨rfl, hwas⟩)⟩
        · split
          · exact ⟨rfl, Or.inr (Or.inr rfl)⟩
          · exact ⟨rfl, Or.inl rfl⟩

private theorem Entry.Agrees.setEnabled (h : entry.Agrees format) (enabled : Bool)
    (a : EnableAnswers) : (entry.setEnabled format enabled a).1.Agrees format := by
  obtain ⟨-, he | ⟨hs, he⟩ | hs⟩ := setEnabled_cases format enabled a rfl
  · exact agrees_of_disabled he
  · intro hen o ho
    rw [he] at hen
    rw [hs] at ho
    exact h hen o ho
  · intro _ o ho
    rw [hs] at ho
    exact ⟨format, started_start ho, format.equal_refl⟩

/-- The object is as it was, or a new one that is fed only if it started at the raster. -/
private theorem update_cases (format : VideoFormat) (spec : OutputSpec) (a : UpdateAnswers) {e : Entry}
    (he : (entry.update spec format a).1 = e) :
    (e.spec.name = entry.spec.name ∨ e.spec.name = spec.name) ∧
      ((e.slot = entry.slot ∧ e.enabled = entry.enabled) ∨
        (e.enabled → ∀ o, e.slot.output = some o → o.started = some format)) := by
  subst he
  unfold Entry.update
  dsimp only
  split
  · exact ⟨Or.inl rfl, Or.inl ⟨rfl, rfl⟩⟩
  · split
    · exact ⟨Or.inl rfl, Or.inl ⟨rfl, rfl⟩⟩
    · split
      · refine ⟨Or.inr rfl, Or.inr fun _ o ho ↦ ?_⟩
        cases ho
        rfl
      · refine ⟨Or.inl rfl, Or.inr fun he o ho ↦ ?_⟩
        rw [if_pos he] at ho
        exact started_start ho

private theorem Entry.Agrees.update (h : entry.Agrees format) (spec : OutputSpec)
    (a : UpdateAnswers) : (entry.update spec format a).1.Agrees format := by
  obtain ⟨-, ⟨hs, he⟩ | hs⟩ := update_cases format spec a rfl
  · intro hen o ho
    rw [he] at hen
    rw [hs] at ho
    exact h hen o ho
  · intro hen o ho
    exact ⟨format, hs hen o ho, format.equal_refl⟩

end Entries

section FormatChange

variable {openAt : VideoFormat} {items : List Item} {outputs : List Entry}

/-- If the entry is fed, its output was last started at exactly this raster. -/
private def At (openAt : VideoFormat) (entry : Entry) : Prop :=
  entry.enabled → ∀ o, entry.slot.output = some o → o.started = some openAt

/-- An item that says it started speaks of entries that did. -/
private def Honest (openAt : VideoFormat) (outputs : List Entry) (item : Item) : Prop :=
  item.started → ∀ entry ∈ outputs, entry.spec.name = item.name →
    ∀ o, entry.slot.output = some o → o.started = some openAt

/-- Writing a flag or an error back into the entry that was found. -/
private theorem honest_setEntry {entry e : Entry} {name : String} {item : Item}
    (hf : findEntry outputs name = some entry) (hs : e.spec = entry.spec)
    (ho : e.slot = entry.slot) (h : Honest openAt outputs item) :
    Honest openAt (setEntry name e outputs) item := by
  intro hst x hx hn o hxo
  rcases mem_setEntry hx with rfl | hx
  · rw [hs] at hn
    rw [ho] at hxo
    exact h hst entry (findEntry_spec hf).1 hn o hxo
  · exact h hst x hx hn o hxo

private theorem at_setEntry {e : Entry} {name : String} (h : ∀ entry ∈ outputs, At openAt entry)
    (he : At openAt e) : ∀ entry ∈ setEntry name e outputs, At openAt entry := by
  intro x hx
  rcases mem_setEntry hx with rfl | hx
  · exact he
  · exact h x hx

private theorem feed_spec {acc : List Entry × Option String} {item : Item}
    (hat : ∀ entry ∈ acc.1, At openAt entry) (hh : Honest openAt acc.1 item) :
    names (feed acc item).1 = names acc.1 ∧ (∀ entry ∈ (feed acc item).1, At openAt entry) ∧
      ∀ other, Honest openAt acc.1 other → Honest openAt (feed acc item).1 other := by
  unfold feed
  split
  · exact ⟨rfl, hat, fun _ h ↦ h⟩
  · next entry hf =>
    obtain ⟨hm, hn⟩ := findEntry_spec hf
    split
    · exact ⟨names_setEntry hn, at_setEntry hat (hat entry hm),
        fun _ h ↦ honest_setEntry hf rfl rfl h⟩
    · split
      · exact ⟨rfl, hat, fun _ h ↦ h⟩
      · split
        · next hst =>
          exact ⟨names_setEntry hn, at_setEntry hat fun _ ↦ hh hst entry hm hn,
            fun _ h ↦ honest_setEntry hf rfl rfl h⟩
        · exact ⟨names_setEntry hn, at_setEntry hat (hat entry hm),
            fun _ h ↦ honest_setEntry hf rfl rfl h⟩

private theorem foldl_feed_spec (acc : List Entry × Option String)
    (hat : ∀ entry ∈ acc.1, At openAt entry) (hh : ∀ item ∈ items, Honest openAt acc.1 item) :
    names (items.foldl feed acc).1 = names acc.1 ∧
      ∀ entry ∈ (items.foldl feed acc).1, At openAt entry := by
  induction items generalizing acc with
  | nil => exact ⟨rfl, hat⟩
  | cons item items ih =>
    obtain ⟨hnames, hat', hh'⟩ := feed_spec hat (hh item List.mem_cons_self)
    obtain ⟨hn, ha⟩ := ih _ hat' fun other hm ↦ hh' other (hh other (List.mem_cons_of_mem _ hm))
    exact ⟨hn.trans hnames, ha⟩

private theorem reopen_spec {entry : Entry} {item : Item} (a : ItemAnswers)
    (hi : item.started = false) :
    (entry.reopen item openAt a).1.spec = entry.spec ∧
      (entry.reopen item openAt a).1.enabled = entry.enabled ∧
      (entry.reopen item openAt a).2.name = item.name ∧
      ((entry.reopen item openAt a).2.started →
        ∀ o, (entry.reopen item openAt a).1.slot.output = some o → o.started = some openAt) := by
  unfold Entry.reopen
  split
  · refine ⟨rfl, rfl, rfl, fun h ↦ ?_⟩
    rw [hi] at h
    cases h
  · split
    · exact ⟨rfl, rfl, rfl, fun h ↦ by simp [hi] at h⟩
    · exact ⟨rfl, rfl, rfl, fun h ↦ by simp [hi] at h⟩
    · exact ⟨rfl, rfl, rfl, fun _ o ho ↦ started_start ho⟩
    · exact ⟨rfl, rfl, rfl, fun h ↦ by simp [hi] at h⟩

private theorem cycle_spec (openAt : VideoFormat) (a : FormatAnswers) (i : Nat) (entry : Entry) :
    (cycle a openAt i entry).1.spec = entry.spec ∧ (cycle a openAt i entry).1.enabled = false ∧
      (cycle a openAt i entry).2.name = entry.spec.name ∧
      ((cycle a openAt i entry).2.started → ∀ o,
        (cycle a openAt i entry).1.slot.output = some o → o.started = some openAt) :=
  reopen_spec (a.item i) rfl

private theorem names_cycle (a : FormatAnswers) :
    names ((outputs.mapIdx (cycle a openAt)).map Prod.fst) = names outputs := by
  refine List.ext_getElem (by simp [names]) fun i h₁ h₂ ↦ ?_
  simp [names, (cycle_spec openAt a i _).1]

private theorem at_cycle (openAt : VideoFormat) (a : FormatAnswers) :
    ∀ entry ∈ (outputs.mapIdx (cycle a openAt)).map Prod.fst, At openAt entry := by
  intro entry he
  obtain ⟨p, hp, rfl⟩ := List.mem_map.mp he
  obtain ⟨i, hi, rfl⟩ := List.mem_mapIdx.mp hp
  intro hen
  rw [(cycle_spec openAt a i _).2.1] at hen
  cases hen

private theorem honest_cycle (openAt : VideoFormat) (a : FormatAnswers) (hn : (names outputs).Nodup) :
    ∀ item ∈ (outputs.mapIdx (cycle a openAt)).map Prod.snd,
      Honest openAt ((outputs.mapIdx (cycle a openAt)).map Prod.fst) item := by
  intro item hm hst entry he hname
  obtain ⟨p, hp, rfl⟩ := List.mem_map.mp hm
  have hp₁ : p.1 ∈ (outputs.mapIdx (cycle a openAt)).map Prod.fst := List.mem_map_of_mem hp
  obtain ⟨i, hi, rfl⟩ := List.mem_mapIdx.mp hp
  obtain ⟨hspec, -, hitem, hstarted⟩ := cycle_spec openAt a i outputs[i]
  have heq : entry = (cycle a openAt i outputs[i]).1 := by
    refine eq_of_name_eq (by rwa [names_cycle]) he hp₁ (hname.trans ?_)
    rw [hitem, hspec]
  rw [heq]
  exact hstarted hst

/-- A format change leaves the fed outputs at the raster it settled on. -/
private theorem setFormat_spec {s : State} (hn : (names s.outputs).Nodup) (format previous : VideoFormat)
    {a : FormatAnswers} (hs : a.stuck = none) :
    names (s.setFormat format previous a).outputs = names s.outputs ∧
      ∀ entry ∈ (s.setFormat format previous a).outputs,
        At (if a.parked then format else previous) entry := by
  have hcycle : ∀ openAt : VideoFormat,
      let reopened := s.outputs.mapIdx (cycle a openAt)
      let fed := (reopened.map Prod.snd).foldl feed (reopened.map Prod.fst, none)
      names fed.1 = names s.outputs ∧ ∀ entry ∈ fed.1, At openAt entry := by
    intro openAt
    have hfed := foldl_feed_spec (_, none) (at_cycle openAt a) (honest_cycle openAt a hn)
    rwa [names_cycle] at hfed
  rw [setFormat_eq hs]
  exact hcycle (if a.parked then format else previous)

end FormatChange

section Step

/-- The names are distinct, as `findEntry` relies on, and the rasters agree. -/
private structure Named (s : State) : Prop where
  distinct : (names s.outputs).Nodup
  agreed : RasterAgreed s

private theorem agreed_setEntry {outputs : List Entry} {format : VideoFormat} {name : String}
    {e : Entry} (h : ∀ entry ∈ outputs, entry.Agrees format) (he : e.Agrees format) :
    ∀ entry ∈ setEntry name e outputs, entry.Agrees format := by
  intro x hx
  rcases mem_setEntry hx with rfl | hx
  · exact he
  · exact h x hx

private theorem reply_ne (error : Option String) (f : VideoFormat) :
    reply error ≠ .notChanged f := by
  cases error <;> exact nofun

/-- A request that touches no output. -/
private theorem Named.answered (inv : Named s) (ho : t.outputs = s.outputs)
    (hf : t.format = s.format) (hr : ∀ f, t.reply ≠ .notChanged f) : Named t := by
  refine ⟨ho ▸ inv.distinct, ⟨?_, fun f h ↦ absurd h (hr f)⟩⟩
  rw [ho, hf]
  exact inv.agreed.fed

/-- A request that changes one output. -/
private theorem Named.changed (inv : Named s) {name : String} {e : Entry}
    (ho : t.outputs = setEntry name e s.outputs) (hf : t.format = s.format)
    (hr : ∀ f, t.reply ≠ .notChanged f) (he : e.Agrees s.format)
    (hn : e.spec.name = name ∨ e.spec.name ∉ names s.outputs) : Named t := by
  refine ⟨ho ▸ nodup_setEntry inv.distinct hn, ⟨?_, fun f h ↦ absurd h (hr f)⟩⟩
  rw [ho, hf]
  exact agreed_setEntry inv.agreed.fed he

private theorem Named.setFormat (inv : Named s) {format previous : VideoFormat}
    {a : FormatAnswers} (hg : a.stuck.isSome ∨ a.parked ∨ previous.equal s.format) :
    Named (s.setFormat format previous a) := by
  cases hs : a.stuck with
  | some millis =>
    have ht : s.setFormat format previous a = { s with
      reply := .error
        ("the format was not changed: the clock has not ticked for " ++ toString millis ++
          " ms, which usually means an output's driver is not answering") } := by
      simp only [State.setFormat, hs]
    rw [ht]
    exact inv.answered rfl rfl (by intro _ h; cases h)
  | none =>
    obtain ⟨hnames, hat⟩ := setFormat_spec inv.distinct format previous hs
    have hformat : (s.setFormat format previous a).format =
        if a.parked then format else s.format := by simp only [State.setFormat, hs]
    have hreply : ∀ f, (s.setFormat format previous a).reply = .notChanged f →
        a.parked = false ∧ f = previous := by
      intro f hf
      simp only [State.setFormat, hs] at hf
      cases hp : a.parked with
      | true =>
        rw [hp, if_pos rfl] at hf
        exact absurd hf (reply_ne _ f)
      | false =>
        rw [hp] at hf
        cases hf
        exact ⟨rfl, rfl⟩
    refine ⟨hnames ▸ inv.distinct, ⟨fun entry he hen o ho ↦ ?_, fun f hf ↦ ?_⟩⟩
    · refine ⟨_, hat entry he hen o ho, ?_⟩
      rw [hformat]
      cases hp : a.parked with
      | true => exact VideoFormat.equal_refl _
      | false => simpa [hs, hp] using hg
    · obtain ⟨hp, rfl⟩ := hreply f hf
      rw [hformat, hp]
      simpa [hs, hp] using hg

private theorem Named.setOutputEnabled (inv : Named s) (name : String) (enabled : Bool)
    (a : EnableAnswers) : Named (s.setOutputEnabled name enabled a) := by
  unfold State.setOutputEnabled
  split
  · exact inv.answered rfl rfl (by intro _ h; cases h)
  · next entry hf =>
    obtain ⟨hm, hn⟩ := findEntry_spec hf
    refine inv.changed rfl rfl (reply_ne _) ((inv.agreed.fed entry hm).setEnabled enabled a) ?_
    left
    rw [(setEnabled_cases _ enabled a rfl).1]
    exact hn

private theorem Named.addOutput (inv : Named s) (spec : OutputSpec) (a : OpenAnswers) :
    Named (s.addOutput spec a) := by
  unfold State.addOutput
  split
  · exact inv.answered rfl rfl (by intro _ h; cases h)
  · next hnew =>
    split
    · exact inv.answered rfl rfl (by intro _ h; cases h)
    · split
      · exact inv.answered rfl rfl (by intro _ h; cases h)
      · refine ⟨?_, ⟨fun entry he ↦ ?_, fun f h ↦ absurd h (reply_ne _ f)⟩⟩
        · simp only [names, List.map_append, List.map_cons, List.map_nil, spec_opened]
          refine List.Nodup.append inv.distinct (List.nodup_singleton _) fun n hn hn' ↦ hnew ?_
          rw [List.mem_singleton] at hn'
          obtain ⟨entry, he, rfl⟩ := List.mem_map.mp hn
          exact List.any_eq_true.mpr ⟨entry, he, by simpa using hn'⟩
        · rcases List.mem_append.mp he with he | he
          · exact inv.agreed.fed entry he
          · rw [List.mem_singleton.mp he]
            exact agrees_opened spec a

private theorem Named.updateOutput (inv : Named s) (name : String) (spec : OutputSpec)
    (a : UpdateAnswers) : Named (s.updateOutput name spec a) := by
  unfold State.updateOutput
  split
  · exact inv.answered rfl rfl (by intro _ h; cases h)
  · next entry hf =>
    obtain ⟨hm, hn⟩ := findEntry_spec hf
    split
    · exact inv.answered rfl rfl (by intro _ h; cases h)
    · split
      · exact inv.answered rfl rfl (by intro _ h; cases h)
      · split
        · exact inv.answered rfl rfl (by intro _ h; cases h)
        · next hclash =>
          refine inv.changed rfl rfl (reply_ne _) ((inv.agreed.fed entry hm).update spec a) ?_
          rcases (update_cases s.format spec a rfl).1 with h | h
          · exact Or.inl (h.trans hn)
          · rw [h]
            by_cases hsame : spec.name = name
            · exact Or.inl hsame
            · right
              intro hmem
              obtain ⟨x, hx, hxn⟩ := List.mem_map.mp hmem
              refine hclash ?_
              simp only [ne_eq, hsame, not_false_eq_true, decide_true, Bool.true_and,
                List.any_eq_true, decide_eq_true_eq]
              exact ⟨x, hx, hxn⟩

private theorem Named.removeOutput (inv : Named s) (name : String) (gate : Gate) :
    Named (s.removeOutput name gate) := by
  unfold State.removeOutput
  split
  · exact inv.answered rfl rfl (by intro _ h; cases h)
  · split
    · exact inv.answered rfl rfl (by intro _ h; cases h)
    · split
      · exact inv.answered rfl rfl (by intro _ h; cases h)
      · refine ⟨?_, ⟨fun entry he ↦ ?_, nofun⟩⟩
        · exact inv.distinct.sublist (List.eraseP_sublist.map _)
        · exact inv.agreed.fed entry (List.mem_of_mem_eraseP he)

private theorem Named.setOutputBackground (inv : Named s) (name : String)
    (background : OutputBackground) : Named (s.setOutputBackground name background) := by
  unfold State.setOutputBackground
  split
  · exact inv.answered rfl rfl (by intro _ h; cases h)
  · next entry hf =>
    obtain ⟨hm, hn⟩ := findEntry_spec hf
    exact inv.changed rfl rfl nofun (inv.agreed.fed entry hm) (Or.inl hn)

private theorem Named.step (inv : Named s) (hg : knowsFormat s a) (h : s.step a = some t) :
    Named t := by
  cases a with
  | setFormat format =>
    cases h
    unfold State.requestFormat
    split
    · exact inv.answered rfl rfl (by intro _ h; cases h)
    · exact ⟨inv.distinct, inv.agreed.fed, inv.agreed.reported⟩
  | formatChange call answers =>
    obtain ⟨w, hw, rfl⟩ := Option.map_eq_some_iff.mp h
    have inv' : Named { s with waiting := s.waiting.eraseIdx call } :=
      ⟨inv.distinct, inv.agreed.fed, inv.agreed.reported⟩
    refine inv'.setFormat ?_
    simpa [knowsFormat, hw, or_assoc] using hg
  | giveUp call message =>
    obtain ⟨w, hw, rfl⟩ := Option.map_eq_some_iff.mp h
    exact inv.answered rfl rfl (by intro _ h; cases h)
  | setOutputEnabled name enabled answers =>
    cases h
    exact inv.setOutputEnabled name enabled answers
  | addOutput spec answers =>
    cases h
    exact inv.addOutput spec answers
  | setOutputBackground name background =>
    cases h
    exact inv.setOutputBackground name background
  | updateOutput name spec answers =>
    cases h
    exact inv.updateOutput name spec answers
  | removeOutput name gate =>
    cases h
    exact inv.removeOutput name gate

private theorem named_start (format : VideoFormat) (outputs : List (OutputSpec × OpenAnswers))
    (hn : (outputs.map fun entry ↦ entry.1.name).Nodup) : Named (start format outputs) := by
  refine ⟨?_, ⟨fun entry he ↦ ?_, fun f hf ↦ ?_⟩⟩
  · have hnames : names (start format outputs).outputs = outputs.map fun entry ↦ entry.1.name := by
      rw [names, start, List.map_map]
      exact List.map_congr_left fun entry _ ↦ by simp [spec_opened]
    rwa [hnames]
  · obtain ⟨⟨spec, a⟩, -, rfl⟩ := List.mem_map.mp he
    exact agrees_opened spec a
  · cases hf

end Step

private theorem named_of_knowsFormat
    (h : machine.ReachableUnder (fun s a ↦ knowsFormat s a) s) : Named s := by
  induction h with
  | init hs =>
    obtain ⟨format, outputs, rfl, hn⟩ := hs
    exact named_start format outputs hn
  | step a _ hg ht ih => exact ih.step hg ht

/-- The message names a raster the engine no longer has. -/
private theorem not_rasterAgreed_of_not_knowsFormat (hg : ¬ knowsFormat s a)
    (h : s.step a = some t) : ¬ RasterAgreed t := by
  intro hagreed
  unfold knowsFormat at hg
  split at hg
  · next call answers =>
    split at hg
    · next w hw =>
      obtain ⟨_, hw', rfl⟩ := Option.map_eq_some_iff.mp h
      rw [hw] at hw'
      cases hw'
      simp only [Bool.or_eq_true, Option.isSome_iff_ne_none, not_or, not_not,
        Bool.not_eq_true] at hg
      obtain ⟨⟨hstuck, hparked⟩, hne⟩ := hg
      have hequal := hagreed.reported w.previous (by simp [State.setFormat, hstuck, hparked])
      simp only [State.setFormat, hstuck, hparked, Bool.false_eq_true, if_false] at hequal
      rw [hne] at hequal
      cases hequal
    · exact hg rfl
  · exact hg rfl

/-- A run of requests keeps the fed outputs in agreement with the engine exactly when each
format change whose clock does not park finds the engine still at the raster it read before
it queued. -/
theorem rasterAgreed_iff_knowsFormat (s t : State) (hs : machine.init s) (actions : List Action)
    (ht : machine.run s actions = some t) :
    machine.Always RasterAgreed s actions ↔
      machine.runUnder (fun s a ↦ knowsFormat s a) s actions = some t :=
  Machine.ReachableUnder.always_iff_runUnder (fun _ h ↦ (named_of_knowsFormat h).agreed)
    (fun _ _ _ _ hg h ↦ not_rasterAgreed_of_not_knowsFormat hg h) (.init hs) actions ht

/-- An engine at 1080p25 with one output that opened. -/
private def oneOutput : State := start {} [({ kind := "ndi", name := "out" }, {})]

/-- A format change is made and another, later, finds the clock not parked. -/
private def oneByOne : List Action :=
  [.setFormat { width := 1280, height := 720 }, .formatChange 0 { stuck := none, parked := true },
    .setFormat { width := 3840, height := 2160 }, .formatChange 0 { stuck := none, parked := false }]

/-- Two format changes queue together, and only the first finds the clock parked. -/
private def together : List Action :=
  [.setFormat { width := 1280, height := 720 }, .setFormat { width := 3840, height := 2160 },
    .formatChange 0 { stuck := none, parked := true },
    .formatChange 0 { stuck := none, parked := false }]

private theorem init_oneOutput : machine.init oneOutput :=
  ⟨{}, [({ kind := "ndi", name := "out" }, {})], rfl, by decide⟩

/-- A format change that comes after another one reopens the output at the new raster. -/
theorem rasterAgreed_oneByOne : ∃ t, machine.run oneOutput oneByOne = some t ∧
    machine.Always RasterAgreed oneOutput oneByOne := by
  have hrun : (machine.run oneOutput oneByOne).isSome := by decide
  have hsame : machine.runUnder (fun s a ↦ knowsFormat s a) oneOutput oneByOne =
      machine.run oneOutput oneByOne := rfl
  obtain ⟨t, ht⟩ := Option.isSome_iff_exists.mp hrun
  exact ⟨t, ht, (rasterAgreed_iff_knowsFormat oneOutput t init_oneOutput oneByOne ht).mpr
    (hsame.trans ht)⟩

/-- A format change that waited behind another one reopens the output at a raster the engine
no longer has. -/
theorem not_rasterAgreed : ¬ ∀ s, machine.Reachable s → RasterAgreed s := by
  intro h
  let out : OutputSpec := { kind := "ndi", name := "out" }
  have hrun : ((machine.run oneOutput together).map fun s ↦
      (s.format, s.outputs.map fun entry ↦ (entry.enabled, entry.slot.output))) =
        some ({ width := 1280, height := 720 }, [(true, some { spec := out, started := some {} })]) :=
    rfl
  obtain ⟨s, hs, he⟩ := Option.map_eq_some_iff.mp hrun
  obtain ⟨hf, ho⟩ := Prod.mk.inj he
  obtain ⟨entry, hentry, hout⟩ := List.map_eq_singleton_iff.mp ho
  obtain ⟨hen, hout⟩ := Prod.mk.inj hout
  have hagreed := h s (Machine.Reachable.run (.init init_oneOutput) together hs)
  obtain ⟨f, hstarted, hequal⟩ := hagreed.fed entry (hentry ▸ List.mem_singleton_self _) hen _ hout
  cases hstarted
  rw [hf] at hequal
  exact absurd hequal (by decide)

end WebLinked.Engine.OutputList
