import Mathlib
import WebLinked.Core.RecallLaws
import WebLinked.Core.SettingsRoundTrip

/-!
# What a recalled show leaves as it was

`src/core/show_file.cpp:16–250`. Tabs leave the rig of the sources that run, outputs leave their
pages, and a show that was saved of what runs leaves both. Every recalled source wants a preview
afterwards.
-/

namespace WebLinked.Core.Show

open WebLinked.Base.Checks Json Value SourceConfig

variable {running wanted : AppConfig} {document : Value} {parts : Parts}

/-- A recall with tabs takes those of the document. -/
theorem wantedTabs_of_tabs (h : parts.tabs = true) : wantedTabs running document parts =
    recallTabs running 0 [] (document.get "tabs").elements :=
  if_pos h

/-- One with outputs, likewise. -/
theorem wantedOutputs_of_outputs (h : parts.outputs = true) (sources : List SourceConfig) :
    wantedOutputs document parts sources = recallOutputs (document.get "outputs") sources :=
  if_pos h

/-- What tabs leave of the sources that run, and what they make of a new one. -/
structure TabsKeep (running wanted : AppConfig) : Prop where
  opened : ∀ tab ∈ wanted.sources, ∀ source, findSource running tab.id = some source →
    tab.format = source.format ∧ tab.matrix = source.matrix ∧
      tab.externalPacing = source.externalPacing ∧ tab.outputs = source.outputs
  fresh : ∀ tab ∈ wanted.sources, findSource running tab.id = none →
    ∀ front, running.sources.head? = some front →
      tab = {
        id := tab.id
        url := tab.url
        format := front.format
        matrix := front.matrix
        externalPacing := front.externalPacing
        interactiveByDefault := tab.interactiveByDefault
        popupPolicy := tab.popupPolicy
        outputs := withPreview [] }

/-- What outputs leave of a source. -/
structure OutputsKeep (document : Value) (source result : SourceConfig) : Prop where
  id : result.id = source.id
  url : result.url = source.url
  popups : result.popupPolicy = source.popupPolicy
  interactive : result.interactiveByDefault = source.interactiveByDefault
  unnamed : (∀ entry ∈ (document.get "outputs").elements, (entry.get "tab").asString ≠ source.id) →
    result = { source with wantPreview := true }

section Frame

/-- A recalled tab is what is open, or a new one, with what its entry gives. -/
theorem mem_recallTabs {i : ℕ} {seen : List String} {tabs : List Value}
    {sources : List SourceConfig} (h : recallTabs running i seen tabs = .ok sources) :
    ∀ source ∈ sources, ∃ entry ∈ tabs,
      source = recallTab running entry (entry.get "id").asString := by
  induction tabs generalizing i seen sources with
  | nil =>
    cases h
    simp
  | cons entry tabs ih =>
    simp only [recallTabs, ite_error_eq_ok, bind_eq_ok] at h
    obtain ⟨-, -, rest, hrest, h⟩ := h
    cases h
    intro source hsource
    rcases List.mem_cons.mp hsource with rfl | hsource
    · exact ⟨entry, List.mem_cons_self, rfl⟩
    · obtain ⟨other, hother, heq⟩ := ih hrest source hsource
      exact ⟨other, List.mem_cons_of_mem _ hother, heq⟩

/-- Tabs leave the rig alone. -/
theorem tabsKeep (hrunning : Running running)
    (h : recalled running document ⟨true, false⟩ = some wanted) : TabsKeep running wanted := by
  obtain ⟨-, tabs, _, htabs, hsources, -, rfl⟩ := recalled_eq_some.mp h
  cases hsources
  rw [wantedTabs_of_tabs rfl] at htabs
  constructor
  · intro tab htab source hsource
    obtain ⟨tab, hmem, rfl⟩ := List.mem_map.mp htab
    obtain ⟨entry, -, heq⟩ := mem_recallTabs htabs tab hmem
    have hid : tab.id = (entry.get "id").asString := by rw [heq, id_recallTab]
    rw [id_settled, hid] at hsource
    have htab' : tab = applyTab entry source := by rw [heq, recallTab, hsource]
    have hpreview := (hrunning source (List.mem_of_find?_eq_some hsource)).preview
    rw [settled_eq, htab']
    exact ⟨rfl, rfl, rfl, withPreview_of_any hpreview⟩
  · intro tab htab hnone front hfront
    obtain ⟨tab, hmem, rfl⟩ := List.mem_map.mp htab
    obtain ⟨entry, -, heq⟩ := mem_recallTabs htabs tab hmem
    have hid : tab.id = (entry.get "id").asString := by rw [heq, id_recallTab]
    rw [id_settled, hid] at hnone
    have htemplate : templateSource running =
        { format := front.format, matrix := front.matrix, externalPacing := front.externalPacing } := by
      unfold templateSource
      cases hs : running.sources with
      | nil => simp [hs] at hfront
      | cons source sources =>
        rw [hs] at hfront
        cases hfront
        rfl
    have htab' : tab = applyTab entry
        { templateSource running with id := (entry.get "id").asString, outputs := [] } := by
      rw [heq, recallTab, hnone]
    rw [htemplate] at htab'
    rw [settled_eq, htab']
    rfl

/-- The outputs of an entry leave the page of its source. -/
theorem outputsKeep_recallOutput {source result : SourceConfig}
    (hpreview : source.outputs.any (·.kind = "preview") = true)
    (h : recallOutput (document.get "outputs") source = .ok result) :
    OutputsKeep document source result.settled := by
  unfold recallOutput at h
  cases hf : findOutputs (document.get "outputs") source.id with
  | none =>
    rw [hf] at h
    cases h
    rw [settled_eq]
    refine ⟨rfl, rfl, rfl, rfl, fun _ ↦ ?_⟩
    rw [withPreview_of_any hpreview]
  | some entry =>
    simp only [hf, applyOutputs, bind_eq_ok] at h
    obtain ⟨format, -, outputs, -, h⟩ := h
    cases h
    rw [settled_eq]
    refine ⟨rfl, rfl, rfl, rfl, fun hunnamed ↦ ?_⟩
    have hnamed : (entry.get "tab").asString = source.id := by simpa using List.find?_some hf
    exact absurd hnamed (hunnamed entry (List.mem_of_find?_eq_some hf))

/-- Outputs leave the pages alone, and what they do not name. -/
theorem outputsKeep_recallOutputs {sources results : List SourceConfig}
    (hpreview : ∀ source ∈ sources, source.outputs.any (·.kind = "preview") = true)
    (h : recallOutputs (document.get "outputs") sources = .ok results) :
    List.Forall₂ (OutputsKeep document) sources (results.map settled) := by
  induction sources generalizing results with
  | nil =>
    cases h
    exact .nil
  | cons source sources ih =>
    simp only [recallOutputs, bind_eq_ok] at h
    obtain ⟨result, hresult, rest, hrest, h⟩ := h
    cases h
    obtain ⟨hone, hpreview⟩ := List.forall_mem_cons.mp hpreview
    exact .cons (outputsKeep_recallOutput hone hresult) (ih hpreview hrest)

/-- A recall of outputs keeps the sources in their order. -/
theorem outputsKeep (hrunning : Running running)
    (h : recalled running document ⟨false, true⟩ = some wanted) :
    List.Forall₂ (OutputsKeep document) running.sources wanted.sources := by
  obtain ⟨-, _, sources, htabs, hsources, -, rfl⟩ := recalled_eq_some.mp h
  cases htabs
  exact outputsKeep_recallOutputs (fun source hs ↦ (hrunning source hs).preview) hsources

/-- No recall changes the process-level settings. -/
theorem control_kept (h : recalled running document parts = some wanted) :
    { wanted with sources := running.sources } = running := by
  obtain ⟨-, tabs, sources, -, -, -, rfl⟩ := recalled_eq_some.mp h
  rfl

end Frame

section RoundTrip

variable {source : SourceConfig} {sources : List SourceConfig}

/-- An output that is read of its own text as it was written. -/
def Survives (pretty : Bool) (o : OutputConfig) : Prop :=
  ∃ value, Json.parse (o.toJson.serialize pretty) = .ok value ∧ OutputConfig.fromJson value = .ok o

/-- A value that is read is what was written, read again. -/
theorem reread_of_parse {v value : Value} {pretty : Bool} (hk : v.Keyed)
    (h : Json.parse (v.serialize pretty) = .ok value) :
    v.depth ≤ Parser.kMaxDepth ∧ value = v.reread := by
  have hread := parse_serialize hk pretty
  rw [h] at hread
  by_cases hd : v.depth ≤ Parser.kMaxDepth
  · rw [if_pos hd] at hread
    exact ⟨hd, Option.some.inj hread⟩
  · rw [if_neg hd] at hread
    cases hread

/-- What is not too deep is read. -/
theorem parse_of_depth {v : Value} {pretty : Bool} (hk : v.Keyed)
    (hd : v.depth ≤ Parser.kMaxDepth) : Json.parse (v.serialize pretty) = .ok v.reread := by
  have hread := parse_serialize hk pretty
  rw [if_pos hd] at hread
  cases h : Json.parse (v.serialize pretty) with
  | error message =>
    rw [h] at hread
    cases hread
  | ok value =>
    rw [h] at hread
    rw [Option.some.inj hread]

/-- No key of an output is written twice. -/
theorem keyed_output {o : OutputConfig} (h : o.Typed) : o.toJson.Keyed :=
  OutputConfig.toJson_of_set (by simp [keyed_object]) (fun _ _ _ ↦ keyed_set)
    (fun _ ↦ by simp [Keyed]) (by simp [Value.int, Keyed]) fun _ ↦ h.options

/-- An output that survives is read where it stands in a document. -/
theorem Survives.fromJson {o : OutputConfig} {pretty : Bool} (ht : o.Typed)
    (h : Survives pretty o) : OutputConfig.fromJson o.toJson.reread = .ok o := by
  obtain ⟨value, hparse, hread⟩ := h
  obtain ⟨-, rfl⟩ := reread_of_parse (keyed_output ht) hparse
  exact hread

/-- So is a list of them. -/
theorem readAll_survives {outputs : List OutputConfig}
    (h : ∀ o ∈ outputs, OutputConfig.fromJson o.toJson.reread = .ok o) (place : ℕ → String)
    (i : ℕ) :
    OutputConfig.readAll place i (outputs.map fun o ↦ o.toJson.reread) = .ok outputs := by
  induction outputs generalizing i with
  | nil => rfl
  | cons o outputs ih =>
    obtain ⟨ho, hall⟩ := List.forall_mem_cons.mp h
    rw [List.map_cons, OutputConfig.readAll, ho]
    dsimp only
    rw [ih hall]
    rfl

/-- What is written of a tab. -/
theorem get_tabJson (source : SourceConfig) :
    (tabJson source).get "id" = .string source.id ∧
    (tabJson source).get "url" = .string source.url ∧
    (tabJson source).get "interactive" = .bool source.interactiveByDefault ∧
    (tabJson source).get "popups" = .string source.popupPolicy ∧
    (tabJson source).has "url" ∧ (tabJson source).has "interactive" ∧
    (tabJson source).has "popups" := by
  refine ⟨?_, ?_, ?_, ?_, ?_, ?_, ?_⟩ <;>
    simp (disch := decide) [tabJson, get_set_of_ne]

/-- What is written of the outputs of a tab. -/
theorem get_outputsJson (source : SourceConfig) :
    (outputsJson source).get "tab" = .string source.id ∧
    (outputsJson source).get "format" = .string source.format.toString ∧
    (outputsJson source).get "matrix" = .string (colourMatrixToString source.matrix) ∧
    (outputsJson source).get "pacing" =
      .string (if source.externalPacing then "external" else "internal") ∧
    (outputsJson source).get "outputs" = .array (source.outputs.map OutputConfig.toJson) ∧
    (outputsJson source).has "format" ∧ (outputsJson source).has "matrix" ∧
    (outputsJson source).has "pacing" ∧ (outputsJson source).has "outputs" := by
  refine ⟨?_, ?_, ?_, ?_, ?_, ?_, ?_, ?_, ?_⟩ <;>
    simp (disch := decide) [outputsJson, get_set_of_ne]

/-- What is written of a show. -/
theorem get_capture (running : AppConfig) :
    (capture running {}).isObject ∧ (capture running {}).has "weblinked_show" ∧
    (capture running {}).get "weblinked_show" = .int kFormatVersion ∧
    (capture running {}).get "tabs" = .array (running.sources.map tabJson) ∧
    (capture running {}).get "outputs" = .array (running.sources.map outputsJson) := by
  refine ⟨rfl, ?_, ?_, ?_, ?_⟩ <;> simp (disch := decide) [capture, get_set_of_ne]

/-- No key of a show is written twice. -/
theorem keyed_capture (ht : ∀ source ∈ running.sources, ∀ o ∈ source.outputs, o.Typed) :
    (capture running {}).Keyed := by
  have hempty : (Value.object []).Keyed := by simp [keyed_object]
  have hstring (text : String) : (Value.string text).Keyed := by simp [Keyed]
  have hbool (b : Bool) : (Value.bool b).Keyed := by simp [Keyed]
  have htabs : (Value.array (running.sources.map tabJson)).Keyed := by
    rw [keyed_array, List.forall_mem_map]
    intro source _
    exact keyed_set (keyed_set (keyed_set (keyed_set hempty (hstring _)) (hstring _)) (hbool _))
      (hstring _)
  have houtputs : (Value.array (running.sources.map outputsJson)).Keyed := by
    rw [keyed_array, List.forall_mem_map]
    intro source hsource
    refine keyed_set (keyed_set (keyed_set (keyed_set (keyed_set hempty (hstring _)) (hstring _))
      (hstring _)) (hstring _)) ?_
    rw [keyed_array, List.forall_mem_map]
    exact fun o ho ↦ keyed_output (ht source hsource o ho)
  exact keyed_set (keyed_set (keyed_set hempty (by simp [Value.int, Keyed])) htabs) houtputs

/-- A text is read as it was written. -/
private theorem asString_reread_string (text fallback : String) :
    (Value.string text).reread.asString fallback = text := by
  rw [asString_reread, asString]

/-- A saved tab over itself is the same tab, with a page where it had none. -/
theorem applyTab_tabJson (source : SourceConfig) :
    applyTab (tabJson source).reread source =
      { source with url := if source.url = "" then "about:blank" else source.url } := by
  obtain ⟨-, hurl, hinteractive, hpopups, kurl, kinteractive, kpopups⟩ := get_tabJson source
  simp only [applyTab, has_reread, kurl, kinteractive, kpopups, if_true, get_reread, hurl,
    hinteractive, hpopups, asBool_reread_bool, asString_reread_string]

/-- Saved outputs over their source are the same source. -/
theorem applyOutputs_outputsJson (hf : VideoFormat.parse source.format.toString = some source.format)
    (ho : ∀ o ∈ source.outputs, OutputConfig.fromJson o.toJson.reread = .ok o) :
    applyOutputs (outputsJson source).reread source = .ok source := by
  obtain ⟨-, hformat, hmatrix, hpacing, houtputs, kformat, kmatrix, kpacing, koutputs⟩ :=
    get_outputsJson source
  have happlyFormat : applyFormat (outputsJson source).reread source = .ok source.format := by
    rw [applyFormat, has_reread, kformat, if_pos rfl, get_reread, asString_reread, hformat, asString]
    simp only [hf]
  have happlyList : applyOutputList (outputsJson source).reread source = .ok source.outputs := by
    rw [applyOutputList, has_reread, koutputs, if_pos rfl, get_reread, houtputs, isArray_reread,
      elements_reread]
    simp only [isArray, elements, Bool.true_eq_false, if_false, List.map_map]
    exact readAll_survives ho _ 0
  have hmatrix' : colourMatrixFromString (colourMatrixToString source.matrix) = source.matrix := by
    cases source.matrix <;> decide
  have hpacing' : decide ((if source.externalPacing then "external" else "internal") ≠ "internal") =
      source.externalPacing := by
    cases source.externalPacing <;> decide
  unfold applyOutputs
  rw [happlyFormat, happlyList]
  simp only [has_reread, kmatrix, kpacing, if_true, get_reread, hmatrix, hpacing,
    asString_reread_string, hmatrix', hpacing']
  rfl

/-- The first of distinct keys that is asked for is the one. -/
private theorem find_of_nodup {α : Type} {key : α → String} {list : List α} {x : α} (hx : x ∈ list)
    (hd : (list.map key).Nodup) : list.find? (fun y ↦ key y = key x) = some x := by
  induction list with
  | nil => cases hx
  | cons y list ih =>
    obtain ⟨hy, hrest⟩ := List.nodup_cons.mp hd
    rcases List.mem_cons.mp hx with rfl | hx
    · simp
    · have hne : key y ≠ key x := fun h ↦ hy (h ▸ List.mem_map_of_mem hx)
      rw [List.find?_cons_of_neg (by simpa using hne), ih hx hrest]

/-- Saved tabs are recalled as what runs, with a page where they had none. -/
theorem recallTabs_tabJson (hsub : sources ⊆ running.sources)
    (hids : (running.sources.map SourceConfig.id).Nodup)
    (hd : (sources.map SourceConfig.id).Nodup) (hempty : ∀ source ∈ sources, source.id ≠ "")
    (seen : List String) (hseen : ∀ source ∈ sources, source.id ∉ seen) (i : ℕ) :
    recallTabs running i seen (sources.map fun source ↦ (tabJson source).reread) =
      .ok (sources.map fun source ↦
        { source with url := if source.url = "" then "about:blank" else source.url }) := by
  induction sources generalizing i seen with
  | nil => rfl
  | cons source sources ih =>
    obtain ⟨hsource, hsub⟩ := List.cons_subset.mp hsub
    obtain ⟨hfresh, hd⟩ := List.nodup_cons.mp hd
    obtain ⟨hid, hempty⟩ := List.forall_mem_cons.mp hempty
    obtain ⟨hnot, hseen⟩ := List.forall_mem_cons.mp hseen
    have hread : ((tabJson source).reread.get "id").asString = source.id := by
      rw [get_reread, asString_reread, (get_tabJson source).1]
      rfl
    have hfound : findSource running source.id = some source := find_of_nodup hsource hids
    have hrest := ih hsub hd hempty (source.id :: seen) (fun other hother hm ↦ ?_) (i + 1)
    · rw [List.map_cons, recallTabs]
      rw [hread, if_neg hid, if_neg hnot, hrest, recallTab, hfound]
      dsimp only
      rw [applyTab_tabJson]
      rfl
    · rcases List.mem_cons.mp hm with h | h
      · exact hfresh (h ▸ List.mem_map_of_mem hother)
      · exact hseen other hother h

/-- Saved outputs are recalled as what runs. -/
theorem recallOutputs_outputsJson (hsub : sources ⊆ running.sources)
    (hids : (running.sources.map SourceConfig.id).Nodup)
    (hf : ∀ source ∈ running.sources, VideoFormat.parse source.format.toString = some source.format)
    (ho : ∀ source ∈ running.sources, ∀ o ∈ source.outputs,
      OutputConfig.fromJson o.toJson.reread = .ok o) :
    recallOutputs (.array (running.sources.map fun source ↦ (outputsJson source).reread)) sources =
      .ok sources := by
  induction sources with
  | nil => rfl
  | cons source sources ih =>
    obtain ⟨hsource, hsub⟩ := List.cons_subset.mp hsub
    have hkey (other : SourceConfig) : ((outputsJson other).reread.get "tab").asString = other.id := by
      rw [get_reread, (get_outputsJson other).1, asString_reread_string]
    have hfound : findOutputs (.array (running.sources.map fun source ↦ (outputsJson source).reread))
        source.id = some (outputsJson source).reread := by
      rw [findOutputs, elements, List.find?_map]
      simp only [Function.comp_def, hkey]
      rw [find_of_nodup hsource hids]
      rfl
    rw [recallOutputs, recallOutput, hfound]
    dsimp only
    rw [applyOutputs_outputsJson (hf source hsource) (ho source hsource), ih hsub]
    rfl

end RoundTrip

/-- A show of what runs, written as text and read, is recalled as what runs. -/
def Restores (running : AppConfig) (pretty : Bool) : Prop :=
  ∃ document, Json.parse ((capture running {}).serialize pretty) = .ok document ∧
    recalled running document {} = some running.wantingPreviews

/-- What a configuration needs for that: a tab, ids of their own, a page in each tab, and a show
not nested too deep. -/
structure Restorable (running : AppConfig) : Prop where
  nonempty : running.sources ≠ []
  distinct : (running.sources.map SourceConfig.id).Nodup
  paged : ∀ source ∈ running.sources, source.url ≠ ""
  depth : (capture running {}).depth ≤ Parser.kMaxDepth

/-- A show of what runs is accepted when a tab is open. -/
theorem accepts_capture : Accepts (capture running {}).reread {} ↔ running.sources ≠ [] := by
  obtain ⟨hobject, hhas, hversion, htabs, houtputs⟩ := get_capture running
  have hsize : ((capture running {}).reread.get "tabs").size = running.sources.length := by
    rw [get_reread, htabs, reread_array, size, List.length_map, List.length_map]
  constructor
  · intro h hnil
    exact (h.tabs rfl).2 (by rw [hsize, hnil, List.length_nil])
  · intro h
    refine ⟨⟨by rwa [isObject_reread], by rwa [has_reread]⟩, ?_, Or.inl rfl, fun _ ↦ ⟨?_, ?_⟩,
      fun _ ↦ ?_⟩
    · rw [get_reread, hversion, kFormatVersion, asInt_reread_int (by norm_num) (by norm_num)]
    · rw [get_reread, htabs, isArray_reread]
      rfl
    · rw [hsize]
      exact fun hzero ↦ h (List.eq_nil_of_length_eq_zero hzero)
    · rw [get_reread, houtputs, isArray_reread]
      rfl

/-- The tabs of a show of what runs. -/
theorem wantedTabs_capture (hrunning : Running running)
    (hids : (running.sources.map SourceConfig.id).Nodup) :
    wantedTabs running (capture running {}).reread {} =
      .ok (running.sources.map fun source ↦
        { source with url := if source.url = "" then "about:blank" else source.url }) := by
  rw [wantedTabs_of_tabs rfl, get_reread, (get_capture running).2.2.2.1, elements_reread, elements,
    List.map_map]
  exact recallTabs_tabJson (List.Subset.refl _) hids hids
    (fun source hs ↦ (validate_eq_ok.mp (hrunning source hs).valid).id.1) [] (fun _ _ ↦ by simp) 0

/-- A source that runs only comes to want a preview. -/
theorem map_settled (hrunning : Running running) :
    running.sources.map settled = running.wantingPreviews.sources := by
  apply List.map_congr_left
  intro source hs
  rw [settled_eq, withPreview_of_any (hrunning source hs).preview]

section Restores

variable (hrunning : Running running)
  (ht : ∀ source ∈ running.sources, ∀ o ∈ source.outputs, o.Typed)
  (hf : ∀ source ∈ running.sources, VideoFormat.parse source.format.toString = some source.format)
  {pretty : Bool} (ho : ∀ source ∈ running.sources, ∀ o ∈ source.outputs, Survives pretty o)

include hrunning ht hf ho in
private theorem restores_of_restorable (h : Restorable running) : Restores running pretty := by
  obtain ⟨hne, hids, hpaged, hdepth⟩ := h
  have hfill : (running.sources.map fun source ↦
      { source with url := if source.url = "" then "about:blank" else source.url }) =
        running.sources := by
    conv_rhs => rw [← List.map_id running.sources]
    apply List.map_congr_left
    intro source hs
    rw [if_neg (hpaged source hs)]
    rfl
  have htabs := wantedTabs_capture hrunning hids
  rw [hfill] at htabs
  refine ⟨_, parse_of_depth (keyed_capture ht) hdepth, recalled_eq_some.mpr
    ⟨accepts_capture.mpr hne, running.sources, running.sources, htabs, ?_, ?_, ?_⟩⟩
  · rw [wantedOutputs_of_outputs rfl, get_reread, (get_capture running).2.2.2.2, reread_array,
      List.map_map]
    exact recallOutputs_outputsJson (List.Subset.refl _) hids hf
      fun source hs o hmem ↦ (ho source hs o hmem).fromJson (ht source hs o hmem)
  · rw [List.forall_mem_map]
    intro source hs
    exact (hrunning source hs).validate_settled
  · rw [map_settled hrunning]
    rfl

include hrunning ht in
private theorem restorable_of_restores (h : Restores running pretty) : Restorable running := by
  obtain ⟨document, hparse, hrecalled⟩ := h
  obtain ⟨hdepth, rfl⟩ := reread_of_parse (keyed_capture ht) hparse
  obtain ⟨haccepts, tabs, sources, htabs, hsources, -, heq⟩ := recalled_eq_some.mp hrecalled
  have hwanted : running.wantingPreviews.sources = sources.map settled :=
    congrArg AppConfig.sources heq
  rw [wantedOutputs_of_outputs rfl] at hsources
  have hids : (running.sources.map SourceConfig.id).Nodup := by
    have hnodup := (recallTabs_ok ((wantedTabs_of_tabs rfl).symm.trans htabs)).1
    rw [← (recallOutputs_ok hsources).1] at hnodup
    have hsame := congrArg (List.map SourceConfig.id) hwanted
    simp only [AppConfig.wantingPreviews, List.map_map, Function.comp_def, id_settled] at hsame
    rwa [hsame]
  rw [wantedTabs_capture hrunning hids] at htabs
  cases htabs
  refine ⟨accepts_capture.mp haccepts, hids, fun source hs hempty ↦ ?_, hdepth⟩
  have hkept := @outputsKeep_recallOutputs (capture running {}).reread _ _ ?_ hsources
  · rw [← hwanted, AppConfig.wantingPreviews, List.forall₂_map_left_iff, List.forall₂_map_right_iff,
      List.forall₂_same] at hkept
    have hurl := (hkept source hs).url
    rw [if_pos hempty, hempty] at hurl
    exact absurd hurl (by simp)
  · rw [List.forall_mem_map]
    exact fun source hs ↦ (hrunning source hs).preview

end Restores

/-- Tabs leave the rig of what is open and give a new tab the first one's raster and a preview,
outputs leave the pages, their order and what they do not name, no recall changes the settings of
the process, and a show of what runs is recalled as what runs exactly when that is restorable. -/
theorem recall_frame (hrunning : Running running) :
    (∀ document wanted, recalled running document ⟨true, false⟩ = some wanted →
      TabsKeep running wanted) ∧
    (∀ document wanted, recalled running document ⟨false, true⟩ = some wanted →
      List.Forall₂ (OutputsKeep document) running.sources wanted.sources) ∧
    (∀ document parts wanted, recalled running document parts = some wanted →
      { wanted with sources := running.sources } = running) ∧
    ∀ pretty, (∀ source ∈ running.sources, ∀ o ∈ source.outputs, o.Typed) →
      (∀ source ∈ running.sources,
        VideoFormat.parse source.format.toString = some source.format) →
      (∀ source ∈ running.sources, ∀ o ∈ source.outputs, Survives pretty o) →
      (Restores running pretty ↔ Restorable running) := by
  refine ⟨fun _ _ ↦ tabsKeep hrunning, fun _ _ ↦ outputsKeep hrunning, fun _ _ _ ↦ control_kept, ?_⟩
  intro pretty ht hf ho
  exact ⟨restorable_of_restores hrunning ht, restores_of_restorable hrunning ht hf ho⟩

/-- An output that lasts survives its own text. -/
private theorem survives {o : OutputConfig} (ht : o.Typed) (hkind : o.kind ≠ "")
    (hdepth : o.toJson.depth ≤ Parser.kMaxDepth) (hsaved : o.saved = o) (pretty : Bool) :
    Survives pretty o := by
  refine ⟨_, parse_of_depth (keyed_output ht) hdepth, ?_⟩
  rw [OutputConfig.fromJson_toJson ht, if_neg hkind, hsaved]

/-- So does a preview. -/
private theorem survives_preview (pretty : Bool) :
    ∀ o ∈ withPreview [], o.Typed ∧ Survives pretty o := by
  refine List.forall_mem_singleton.mpr ?_
  have ht : OutputConfig.Typed {
      kind := "preview", name := "preview", options := (Value.object []).set "factor" (.int 4) } := by
    refine ⟨by norm_num, keyed_set (by simp [keyed_object]) (by simp [Value.int, Keyed])⟩
  refine ⟨ht, survives ht (by decide) (by decide +kernel) ?_ pretty⟩
  have hexact : ((Value.object []).set "factor" (.int 4)).Exact :=
    exact_set (exact_object.mpr (List.forall_mem_nil _)) (exact_int (by norm_num))
  have hobject : ((Value.object []).set "factor" (.int 4)).isObject = true := rfl
  simp only [OutputConfig.saved, (reread_eq_iff _).mpr hexact, hobject, if_true]
  rfl

/-- A show of one tab comes back. -/
theorem restores_oneTab : Restores oneTab true := by
  obtain ⟨-, -, -, hiff⟩ := recall_frame running_oneTab
  refine (hiff true ?_ ?_ ?_).mpr ⟨by decide, by decide +kernel, ?_, by decide +kernel⟩
  · exact List.forall_mem_singleton.mpr fun o ho ↦ (survives_preview true o ho).1
  · exact List.forall_mem_singleton.mpr (by decide +kernel)
  · exact List.forall_mem_singleton.mpr fun o ho ↦ (survives_preview true o ho).2
  · exact List.forall_mem_singleton.mpr (by decide)

/-- Objects in one another. -/
def nested : ℕ → Value
  | 0 => .object []
  | n + 1 => .object [("in", nested n)]

private theorem nested_spec (n : ℕ) :
    (nested n).isObject ∧ (nested n).Keyed ∧ (nested n).Exact := by
  induction n with
  | zero => exact ⟨rfl, keyed_object.mpr ⟨List.nodup_nil, nofun⟩, exact_object.mpr nofun⟩
  | succ n ih =>
    exact ⟨rfl, keyed_object.mpr ⟨List.nodup_singleton _, List.forall_mem_singleton.mpr ih.2.1⟩,
      exact_object.mpr (List.forall_mem_singleton.mpr ih.2.2)⟩

/-- Tabs with a page, a preview and these other outputs. -/
def tabsAt (url : String) (ids : List String) (outputs : List OutputConfig) : AppConfig where
  sources := ids.map fun id ↦ { id, url, outputs := withPreview [] ++ outputs }

/-- An output whose options are sixty objects in one another. -/
def deep : OutputConfig := { kind := "ndi", name := "NDI", options := nested 59 }

private theorem survives_deep : deep.Typed ∧ Survives true deep := by
  obtain ⟨hobject, hkeyed, hexact⟩ := nested_spec 59
  have ht : deep.Typed := ⟨by norm_num [deep], hkeyed⟩
  refine ⟨ht, survives ht (by decide) (by decide +kernel) ?_ true⟩
  have hoptions : deep.options.isObject = true := hobject
  have hreread : deep.options.reread = deep.options := (reread_eq_iff _).mpr hexact
  simp only [OutputConfig.saved, hreread, hoptions, if_true]
  rfl

/-- A show of what runs that does not come back as what runs. -/
structure Lost (running : AppConfig) : Prop where
  runs : Running running
  typed : ∀ source ∈ running.sources, ∀ o ∈ source.outputs, o.Typed
  formats : ∀ source ∈ running.sources,
    VideoFormat.parse source.format.toString = some source.format
  outputs : ∀ source ∈ running.sources, ∀ o ∈ source.outputs, Survives true o
  lost : ¬Restores running true

private theorem lost_tabs {url : String} {ids : List String} {outputs : List OutputConfig}
    (hruns : Running (tabsAt url ids outputs)) (ho : ∀ o ∈ outputs, o.Typed ∧ Survives true o)
    (hlost : ¬Restorable (tabsAt url ids outputs)) : Lost (tabsAt url ids outputs) := by
  have hall : ∀ source ∈ (tabsAt url ids outputs).sources, source.format = ({} : SourceConfig).format ∧
      ∀ o ∈ source.outputs, o.Typed ∧ Survives true o := by
    refine List.forall_mem_map.mpr fun id _ ↦ ⟨rfl, fun o hm ↦ ?_⟩
    rcases List.mem_append.mp hm with hm | hm
    · exact survives_preview true o hm
    · exact ho o hm
  have ht : ∀ source ∈ (tabsAt url ids outputs).sources, ∀ o ∈ source.outputs, o.Typed :=
    fun source hs o hm ↦ ((hall source hs).2 o hm).1
  refine ⟨hruns, ht, fun source hs ↦ ?_, fun source hs o hm ↦ ((hall source hs).2 o hm).2,
    fun h ↦ hlost (restorable_of_restores hruns ht h)⟩
  rw [(hall source hs).1]
  decide +kernel

/-- An unnamed source comes to want a preview, and no tab, no page, an id that is there twice and
options nested deep each keep a saved show from coming back. -/
theorem not_recall_frame :
    (∃ running document wanted, Running running ∧
      recalled running document ⟨false, true⟩ = some wanted ∧
      (document.get "outputs").elements = [] ∧ wanted.sources ≠ running.sources) ∧
    Lost {} ∧ Lost (tabsAt "" ["main"] []) ∧ Lost (tabsAt "about:blank" ["main", "main"] []) ∧
    Lost (tabsAt "about:blank" ["main"] [deep]) := by
  have hpreview : (withPreview []).any (·.kind = "preview") = true := any_withPreview []
  refine ⟨?_, ?_, ?_, ?_, ?_⟩
  · let running : AppConfig :=
      { sources := [{ id := "main", outputs := withPreview [], wantPreview := false }] }
    let document := ((Value.object []).set "weblinked_show" (.int 1)).set "outputs" (.array [])
    have hrunning : Running running :=
      List.forall_mem_singleton.mpr ⟨by decide +kernel, hpreview⟩
    have haccepts : Accepts document ⟨false, true⟩ :=
      ⟨by decide, by decide +kernel, Or.inr rfl, nofun, fun _ ↦ by decide⟩
    refine ⟨running, document, _, hrunning, recalled_eq_some.mpr
      ⟨haccepts, running.sources, running.sources, rfl, rfl, ?_, rfl⟩, rfl, fun h ↦ ?_⟩
    · rw [List.forall_mem_map]
      exact fun source hs ↦ (hrunning source hs).validate_settled
    · have hwants := congrArg (List.map SourceConfig.wantPreview) h
      revert hwants
      decide +kernel
  · have hlost : ¬Restorable (tabsAt "" [] []) := fun h ↦ h.nonempty rfl
    have hruns : Running (tabsAt "" [] []) := List.forall_mem_nil _
    exact lost_tabs hruns (List.forall_mem_nil _) hlost
  · have hlost : ¬Restorable (tabsAt "" ["main"] []) :=
      fun h ↦ h.paged _ (List.mem_singleton_self _) rfl
    exact lost_tabs (List.forall_mem_singleton.mpr ⟨by decide +kernel, hpreview⟩)
      (List.forall_mem_nil _) hlost
  · have hlost : ¬Restorable (tabsAt "about:blank" ["main", "main"] []) :=
      fun h ↦ absurd h.distinct (by decide)
    have hruns : (({ id := "main", outputs := withPreview [] } : SourceConfig)).Runs :=
      ⟨by decide +kernel, hpreview⟩
    exact lost_tabs (List.forall_mem_cons.mpr ⟨hruns, List.forall_mem_singleton.mpr hruns⟩)
      (List.forall_mem_nil _) hlost
  · have hlost : ¬Restorable (tabsAt "about:blank" ["main"] [deep]) :=
      fun h ↦ absurd h.depth (by decide +kernel)
    exact lost_tabs (List.forall_mem_singleton.mpr ⟨by decide +kernel, by decide +kernel⟩)
      (List.forall_mem_singleton.mpr survives_deep) hlost

end WebLinked.Core.Show
