import WebLinked.Core.Recall

/-!
# Recalling a show half by half

`src/core/show_file.cpp:39–250`. Both halves at once are the tabs and then the outputs. The two
ways insert a preview at different times, but a list of outputs that an entry gives replaces what
is there in both.
-/

namespace WebLinked.Core

open WebLinked.Base.Checks Json

namespace SourceConfig

/-- What every recalled source becomes before its check; `src/core/show_file.cpp:243–244`. -/
def settled (c : SourceConfig) : SourceConfig := { c with wantPreview := true }.ensurePreview

/-- A list with a preview, which is put in front where there is none. -/
def withPreview (outputs : List OutputConfig) : List OutputConfig :=
  if outputs.any (·.kind = "preview") then outputs
  else
    { kind := "preview", name := "preview", options := (Value.object []).set "factor" (.int 4) } ::
      outputs

/-- Settling changes the outputs and the wish for a preview. -/
theorem settled_eq (c : SourceConfig) :
    c.settled = { c with wantPreview := true, outputs := withPreview c.outputs } := by
  unfold settled ensurePreview withPreview
  by_cases h : c.outputs.any (·.kind = "preview") = true
  · simp [h]
  · simp [h]

/-- A list with a preview is left alone. -/
theorem withPreview_of_any {outputs : List OutputConfig}
    (h : outputs.any (·.kind = "preview") = true) : withPreview outputs = outputs := by
  rw [withPreview, if_pos h]

/-- Afterwards there is one. -/
theorem any_withPreview (outputs : List OutputConfig) :
    (withPreview outputs).any (·.kind = "preview") = true := by
  unfold withPreview
  split
  · assumption
  · simp

/-- A second time adds nothing. -/
@[simp] theorem withPreview_withPreview (outputs : List OutputConfig) :
    withPreview (withPreview outputs) = withPreview outputs :=
  withPreview_of_any (any_withPreview outputs)

/-- The id stays. -/
@[simp] theorem id_settled (c : SourceConfig) : c.settled.id = c.id := by
  rw [settled_eq]

/-- A second time changes nothing. -/
@[simp] theorem settled_settled (c : SourceConfig) : c.settled.settled = c.settled := by
  rw [settled_eq, settled_eq, withPreview_withPreview]

/-- A source that runs: it passes its check and has a preview. -/
structure Runs (c : SourceConfig) : Prop where
  valid : c.validate = .ok ()
  preview : c.outputs.any (·.kind = "preview") = true

/-- Everything that `validate` checks but the id and the popup policy, once there is a preview. -/
structure Fit (c : SourceConfig) : Prop where
  raster : 0 < c.format.width ∧ 0 < c.format.height ∧ c.format.width.tmod 2 = 0
  rate : 0 < c.format.rate.numerator ∧ 0 < c.format.rate.denominator
  named : ∀ o ∈ withPreview c.outputs, o.name ≠ ""
  distinct : ((withPreview c.outputs).map OutputConfig.name).Nodup

/-- What runs is fit. -/
theorem Runs.fit {c : SourceConfig} (h : c.Runs) : c.Fit := by
  have hv := validate_eq_ok.mp h.valid
  have hw := withPreview_of_any h.preview
  exact ⟨hv.raster, hv.rate, hw.symm ▸ hv.named, hw.symm ▸ hv.distinct⟩

/-- What runs stays valid. -/
theorem Runs.validate_settled {c : SourceConfig} (h : c.Runs) : c.settled.validate = .ok () := by
  have hv := validate_eq_ok.mp h.valid
  rw [validate_eq_ok, settled_eq, withPreview_of_any h.preview]
  exact ⟨hv.id, hv.raster, hv.rate, hv.popups, hv.named, hv.distinct⟩

/-- A source with no outputs is fit when its format is. -/
theorem fit_of_nil {c : SourceConfig} (hc : c.outputs = [])
    (hraster : 0 < c.format.width ∧ 0 < c.format.height ∧ c.format.width.tmod 2 = 0)
    (hrate : 0 < c.format.rate.numerator ∧ 0 < c.format.rate.denominator) : c.Fit :=
  ⟨hraster, hrate, by simp [hc, withPreview], by simp [hc, withPreview]⟩

/-- A fit source with the id and the popup policy of a valid one is valid with its preview. -/
theorem Fit.validate_settled {c d : SourceConfig} (h : c.Fit) (hd : d.settled.validate = .ok ())
    (hid : d.id = c.id) (hpopups : d.popupPolicy = c.popupPolicy) :
    c.settled.validate = .ok () := by
  rw [validate_eq_ok, settled_eq] at hd ⊢
  exact ⟨hid ▸ hd.id, h.raster, h.rate, hpopups ▸ hd.popups, h.named, h.distinct⟩

end SourceConfig

namespace Show

open SourceConfig

variable {running wanted : AppConfig} {document : Value} {parts : Parts}

/-- A configuration of sources that run. -/
def Running (running : AppConfig) : Prop := ∀ source ∈ running.sources, source.Runs

/-- `recall` without its notes and its error. -/
def recalled (running : AppConfig) (document : Value) (parts : Parts) : Option AppConfig :=
  (recallShow running document parts).toOption.map Prod.fst

/-- What a document is checked for before it is read; `src/core/show_file.cpp:150–183`. -/
structure Accepts (document : Value) (parts : Parts) : Prop where
  isShow : document.isObject = true ∧ document.has "weblinked_show" = true
  version : (document.get "weblinked_show").asInt 0 ≤ kFormatVersion
  chosen : parts.tabs = true ∨ parts.outputs = true
  tabs : parts.tabs = true →
    (document.get "tabs").isArray = true ∧ (document.get "tabs").size ≠ 0
  outputs : parts.outputs = true → (document.get "outputs").isArray = true

/-- `finish` settles every source and passes when each is then valid. -/
theorem finish_eq_ok {sources results : List SourceConfig} :
    finish sources = .ok results ↔
      (∀ source ∈ sources.map settled, source.validate = .ok ()) ∧ results = sources.map settled := by
  induction sources generalizing results with
  | nil => simp [finish, eq_comm]
  | cons source sources ih =>
    simp only [finish, bind_eq_ok, ih, List.map_cons, List.forall_mem_cons]
    constructor
    · rintro ⟨valid, hvalid, rest, ⟨hrest, rfl⟩, h⟩
      cases h
      exact ⟨⟨hvalid, hrest⟩, rfl⟩
    · rintro ⟨⟨hvalid, hrest⟩, rfl⟩
      exact ⟨(), hvalid, _, ⟨hrest, rfl⟩, rfl⟩

/-- What a recall that succeeds leaves running. -/
theorem recalled_eq_some : recalled running document parts = some wanted ↔
    Accepts document parts ∧ ∃ tabs sources, wantedTabs running document parts = .ok tabs ∧
      wantedOutputs document parts tabs = .ok sources ∧
      (∀ source ∈ sources.map settled, source.validate = .ok ()) ∧
      wanted = { running with sources := sources.map settled } := by
  have hok : recalled running document parts = some wanted ↔
      ∃ notes, recallShow running document parts = .ok (wanted, notes) := by
    unfold recalled
    cases recallShow running document parts with
    | error message => simp [Except.toOption]
    | ok result =>
      obtain ⟨config, notes⟩ := result
      simp [Except.toOption]
  rw [hok]
  simp only [recallShow, ite_error_eq_ok, bind_eq_ok, finish_eq_ok]
  constructor
  · rintro ⟨notes, hshow, hversion, hchosen, htabs, houtputs, hsize, tabs, ht, sources, hs, results,
      ⟨hvalid, rfl⟩, h⟩
    cases h
    refine ⟨⟨by simpa using hshow, by omega, by simpa [← Bool.not_eq_true, -not_and, not_and_or]
      using hchosen, fun h ↦ ?_, fun h ↦ ?_⟩, tabs, sources, ht, hs, hvalid, rfl⟩
    · exact ⟨by simpa [present, h] using htabs, by simpa [h] using hsize⟩
    · simpa [present, h] using houtputs
  · rintro ⟨h, tabs, sources, ht, hs, hvalid, rfl⟩
    refine ⟨if parts.outputs then skipped (document.get "outputs") tabs else [], ?_, ?_, ?_, ?_, ?_,
      ?_, tabs, ht, sources, hs, _, ⟨hvalid, rfl⟩, rfl⟩
    · simpa using h.isShow
    · have := h.version
      omega
    · rcases h.chosen with h | h <;> simp [h]
    · rintro ⟨ht, hn⟩
      exact absurd (h.tabs ht).1 (by simpa [present] using hn)
    · rintro ⟨ho, hn⟩
      exact absurd (h.outputs ho) (by simpa [present] using hn)
    · rintro ⟨ht, hn⟩
      exact (h.tabs ht).2 hn

/-- What is accepted for both halves is accepted for each. -/
theorem accepts_both : Accepts document ⟨true, true⟩ ↔
    Accepts document ⟨true, false⟩ ∧ Accepts document ⟨false, true⟩ := by
  constructor
  · intro h
    exact ⟨⟨h.isShow, h.version, Or.inl rfl, h.tabs, nofun⟩,
      ⟨h.isShow, h.version, Or.inr rfl, nofun, h.outputs⟩⟩
  · rintro ⟨ht, ho⟩
    exact ⟨ht.isShow, ht.version, Or.inl rfl, ht.tabs, ho.outputs⟩

/-- The outputs an entry gives do not depend on the preview that was there. -/
theorem recallOutput_settled (list : Value) (source : SourceConfig) :
    (recallOutput list source.settled).map settled = (recallOutput list source).map settled := by
  unfold recallOutput
  rw [id_settled]
  cases findOutputs list source.id with
  | none =>
    dsimp only
    rw [Except.map, Except.map, settled_settled]
  | some entry =>
    have hformat : applyFormat entry source.settled = applyFormat entry source := by
      rw [settled_eq]
      rfl
    have hlist : (applyOutputList entry source.settled).map withPreview =
        (applyOutputList entry source).map withPreview := by
      rw [settled_eq]
      unfold applyOutputList
      by_cases h : entry.has "outputs" = true
      · simp [h]
      · simp [h, Except.map]
    unfold applyOutputs
    dsimp only
    rw [hformat]
    cases applyFormat entry source with
    | error message => rfl
    | ok format =>
      change (applyOutputList entry source.settled >>= fun _ ↦ _).map settled =
        (applyOutputList entry source >>= fun _ ↦ _).map settled
      apply map_bind_congr hlist
      intro outputs outputs' hsame
      simp only [Except.map, settled_eq, hsame]

/-- Neither do those of a list of sources. -/
theorem recallOutputs_settled (list : Value) (sources : List SourceConfig) :
    (recallOutputs list (sources.map settled)).map (List.map settled) =
      (recallOutputs list sources).map (List.map settled) := by
  induction sources with
  | nil => rfl
  | cons source sources ih =>
    rw [List.map_cons, recallOutputs, recallOutputs]
    apply map_bind_congr (recallOutput_settled list source)
    intro result result' hresult
    apply map_bind_congr ih
    intro results results' hresults
    simp only [Except.map, List.map_cons, hresult, hresults]

/-- A source keeps its id and its popup policy when its outputs are recalled. -/
theorem recallOutput_keeps {list : Value} {source result : SourceConfig}
    (h : recallOutput list source = .ok result) :
    result.id = source.id ∧ result.popupPolicy = source.popupPolicy := by
  unfold recallOutput at h
  cases hf : findOutputs list source.id with
  | none =>
    rw [hf] at h
    cases h
    exact ⟨rfl, rfl⟩
  | some entry =>
    simp only [hf, applyOutputs, bind_eq_ok] at h
    obtain ⟨format, -, outputs, -, h⟩ := h
    cases h
    exact ⟨rfl, rfl⟩

/-- Fit sources are valid once their outputs, recalled, leave valid ones. -/
theorem validate_of_recallOutputs {list : Value} {sources results : List SourceConfig}
    (hfit : ∀ source ∈ sources, source.Fit) (h : recallOutputs list sources = .ok results)
    (hvalid : ∀ result ∈ results.map settled, result.validate = .ok ()) :
    ∀ source ∈ sources.map settled, source.validate = .ok () := by
  induction sources generalizing results with
  | nil => simp
  | cons source sources ih =>
    simp only [recallOutputs, bind_eq_ok] at h
    obtain ⟨result, hresult, rest, hrest, h⟩ := h
    cases h
    obtain ⟨hsource, hfit⟩ := List.forall_mem_cons.mp hfit
    obtain ⟨hone, hvalid⟩ := List.forall_mem_cons.mp hvalid
    obtain ⟨hid, hpopups⟩ := recallOutput_keeps hresult
    exact List.forall_mem_cons.mpr
      ⟨hsource.validate_settled hone hid hpopups, ih hfit hrest hvalid⟩

/-- A new tab has a raster. -/
theorem fit_templateSource (h : Running running) (id : String) :
    ({ templateSource running with id, outputs := [] } : SourceConfig).Fit := by
  unfold templateSource
  cases hs : running.sources with
  | nil =>
    have hraster : 0 < ({} : SourceConfig).format.width ∧ 0 < ({} : SourceConfig).format.height ∧
        ({} : SourceConfig).format.width.tmod 2 = 0 := by decide +kernel
    have hrate : 0 < ({} : SourceConfig).format.rate.numerator ∧
        0 < ({} : SourceConfig).format.rate.denominator := by decide +kernel
    exact fit_of_nil rfl hraster hrate
  | cons front sources =>
    have hfit := (h front (hs ▸ List.mem_cons_self)).fit
    exact fit_of_nil rfl hfit.raster hfit.rate

/-- The tabs of a show are fit. -/
theorem fit_recallTabs (hrunning : Running running) {i : ℕ} {seen : List String}
    {tabs : List Value} {sources : List SourceConfig}
    (h : recallTabs running i seen tabs = .ok sources) : ∀ source ∈ sources, source.Fit := by
  induction tabs generalizing i seen sources with
  | nil =>
    cases h
    simp
  | cons entry tabs ih =>
    simp only [recallTabs, ite_error_eq_ok, bind_eq_ok] at h
    obtain ⟨-, -, rest, hrest, h⟩ := h
    cases h
    refine List.forall_mem_cons.mpr ⟨?_, ih hrest⟩
    unfold recallTab
    cases hf : findSource running (entry.get "id").asString with
    | none =>
      have hfit := fit_templateSource hrunning (entry.get "id").asString
      exact ⟨hfit.raster, hfit.rate, hfit.named, hfit.distinct⟩
    | some existing =>
      have hfit := (hrunning existing (List.mem_of_find?_eq_some hf)).fit
      exact ⟨hfit.raster, hfit.rate, hfit.named, hfit.distinct⟩

/-- Recalling both halves of a show is recalling its tabs and then its outputs onto them: both
ways fail, or both leave the same configuration. -/
theorem recall_both (hrunning : Running running) (document : Value) :
    recalled running document ⟨true, true⟩ =
      (recalled running document ⟨true, false⟩).bind fun tabs ↦
        recalled tabs document ⟨false, true⟩ := by
  apply Option.ext
  intro wanted
  rw [Option.bind_eq_some_iff]
  simp only [recalled_eq_some, wantedTabs, wantedOutputs, if_true, Bool.false_eq_true, if_false,
    accepts_both, Except.ok.injEq]
  constructor
  · rintro ⟨⟨ht, ho⟩, tabs, sources, htabs, hsources, hvalid, rfl⟩
    have htabsvalid := validate_of_recallOutputs (fit_recallTabs hrunning htabs) hsources hvalid
    have hsettled := recallOutputs_settled (document.get "outputs") tabs
    rw [hsources] at hsettled
    cases hr : recallOutputs (document.get "outputs") (tabs.map settled) with
    | error message =>
      rw [hr] at hsettled
      cases hsettled
    | ok results =>
      rw [hr] at hsettled
      have hsame : results.map settled = sources.map settled := Except.ok.inj hsettled
      refine ⟨_, ⟨ht, tabs, tabs, htabs, rfl, htabsvalid, rfl⟩, ho, _, results, rfl, hr, ?_, ?_⟩
      · rwa [hsame]
      · rw [hsame]
  · rintro ⟨_, ⟨ht, tabs, _, htabs, rfl, -, rfl⟩, ho, _, results, rfl, hr, hvalid, rfl⟩
    have hsettled := recallOutputs_settled (document.get "outputs") tabs
    rw [hr] at hsettled
    cases hs : recallOutputs (document.get "outputs") tabs with
    | error message =>
      rw [hs] at hsettled
      cases hsettled
    | ok sources =>
      rw [hs] at hsettled
      have hsame : results.map settled = sources.map settled := Except.ok.inj hsettled
      refine ⟨⟨ht, ho⟩, tabs, sources, htabs, hs, ?_, ?_⟩
      · rwa [← hsame]
      · rw [hsame]

/-- One tab with nothing but its preview. -/
def oneTab : AppConfig := { sources := [({ id := "main" } : SourceConfig).settled] }

/-- It runs. -/
theorem running_oneTab : Running oneTab :=
  List.forall_mem_singleton.mpr ⟨by decide +kernel, by decide +kernel⟩

/-- A show of another tab and of its outputs. -/
def another : Value :=
  .object [("weblinked_show", .int 1),
    ("tabs", .array [.object [("id", .string "a"), ("url", .string "https://a/")]]),
    ("outputs", .array [.object [("tab", .string "a"), ("matrix", .string "601"),
      ("outputs", .array [.object [("kind", .string "ndi"), ("name", .string "n")]])]])]

/-- Both ways leave the tab of the show, with its outputs, for the one that runs. -/
theorem recall_both_another :
    ∃ config, recalled oneTab another ⟨true, true⟩ = some config ∧
      ((recalled oneTab another ⟨true, false⟩).bind fun tabs ↦
        recalled tabs another ⟨false, true⟩) = some config ∧
      config.sources.map (fun s ↦ (s.id, s.url, s.matrix, s.outputs.map OutputConfig.name)) =
        [("a", "https://a/", .kBt601, ["preview", "n"])] ∧
      oneTab.sources.map SourceConfig.id = ["main"] := by
  have hleft : (recalled oneTab another ⟨true, true⟩).map (fun config ↦ config.sources.map
      fun s ↦ (s.id, s.url, s.matrix, s.outputs.map OutputConfig.name)) =
        some [("a", "https://a/", .kBt601, ["preview", "n"])] := by
    decide +kernel
  obtain ⟨config, hconfig, hsources⟩ := Option.map_eq_some_iff.mp hleft
  have htwice := recall_both running_oneTab another
  exact ⟨config, hconfig, htwice ▸ hconfig, hsources, by decide +kernel⟩

end Show

end WebLinked.Core
