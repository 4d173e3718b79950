import WebLinked.Core.ShowFile

/-!
# What a recalled show leaves running

Its sources keep their ids, or take those of the show's tabs, and each passes its check with a
preview added.
-/

namespace WebLinked.Core.Show

open WebLinked.Base.Checks Json SourceConfig

/-- Neither what runs nor a list of the show has two previews in one place. -/
structure FewPreviews (running : AppConfig) (document : Value) : Prop where
  running : ∀ source ∈ running.sources, previews source.outputs ≤ 1
  listed : ∀ entry ∈ (document.get "outputs").elements, ∀ place outputs,
    OutputConfig.readAll place 0 (entry.get "outputs").elements = .ok outputs →
      previews outputs ≤ 1

/-- A recalled tab has the id it is recalled by. -/
theorem id_recallTab (running : AppConfig) (entry : Value) (id : String) :
    (recallTab running entry id).id = id := by
  unfold recallTab applyTab
  cases hf : findSource running id with
  | none => rfl
  | some existing => simpa using List.find?_some hf

/-- A recalled tab has the outputs of the open one, or none. -/
theorem previews_recallTab {running : AppConfig} (entry : Value) (id : String)
    (h : ∀ source ∈ running.sources, previews source.outputs ≤ 1) :
    previews (recallTab running entry id).outputs ≤ 1 := by
  unfold recallTab applyTab
  cases hf : findSource running id with
  | none => simp [previews]
  | some existing => exact h existing (List.mem_of_find?_eq_some hf)

/-- Recalled tabs have ids of their own, and no more previews than what runs. -/
theorem recallTabs_ok {running : AppConfig} {i : ℕ} {seen : List String} {tabs : List Value}
    {sources : List SourceConfig} (h : recallTabs running i seen tabs = .ok sources) :
    (sources.map SourceConfig.id).Nodup ∧ (∀ source ∈ sources, source.id ∉ seen) ∧
      ((∀ source ∈ running.sources, previews source.outputs ≤ 1) →
        ∀ source ∈ sources, previews source.outputs ≤ 1) := by
  induction tabs generalizing i seen sources with
  | nil =>
    cases h
    simp
  | cons entry tabs ih =>
    simp only [recallTabs, ite_error_eq_ok, bind_eq_ok] at h
    obtain ⟨-, hfresh, rest, hrest, h⟩ := h
    cases h
    obtain ⟨hnodup, hout, hfew⟩ := ih hrest
    refine ⟨?_, ?_, fun hr ↦ ?_⟩
    · rw [List.map_cons, List.nodup_cons, id_recallTab]
      refine ⟨?_, hnodup⟩
      intro hm
      obtain ⟨s, hs, heq⟩ := List.mem_map.mp hm
      exact hout s hs (heq ▸ List.mem_cons_self)
    · intro s hs
      rcases List.mem_cons.mp hs with rfl | hs
      · rwa [id_recallTab]
      · exact fun hm ↦ hout s hs (List.mem_cons_of_mem _ hm)
    · exact List.forall_mem_cons.mpr ⟨previews_recallTab _ _ hr, hfew hr⟩

/-- An entry replaces the outputs of a source by those it lists, or leaves them. -/
theorem applyOutputs_ok {entry : Value} {source result : SourceConfig}
    (h : applyOutputs entry source = .ok result) :
    result.id = source.id ∧ (result.outputs = source.outputs ∨
      ∃ place, OutputConfig.readAll place 0 (entry.get "outputs").elements = .ok result.outputs) := by
  simp only [applyOutputs, bind_eq_ok] at h
  obtain ⟨format, -, outputs, houtputs, h⟩ := h
  cases h
  refine ⟨rfl, ?_⟩
  unfold applyOutputList at houtputs
  split at houtputs
  · exact Or.inr ⟨_, (ite_error_eq_ok.mp houtputs).2⟩
  · cases houtputs
    exact Or.inl rfl

/-- Recalled outputs leave the ids alone. -/
theorem recallOutputs_ok {list : Value} {sources results : List SourceConfig}
    (h : recallOutputs list sources = .ok results) :
    results.map SourceConfig.id = sources.map SourceConfig.id ∧
      ((∀ source ∈ sources, previews source.outputs ≤ 1) →
        (∀ entry ∈ list.elements, ∀ place outputs,
          OutputConfig.readAll place 0 (entry.get "outputs").elements = .ok outputs →
            previews outputs ≤ 1) →
        ∀ result ∈ results, previews result.outputs ≤ 1) := by
  induction sources generalizing results with
  | nil =>
    cases h
    simp
  | cons source sources ih =>
    simp only [recallOutputs, bind_eq_ok] at h
    obtain ⟨result, hresult, rest, hrest, h⟩ := h
    cases h
    obtain ⟨hids, hfew⟩ := ih hrest
    rw [List.map_cons, List.map_cons, hids]
    unfold recallOutput at hresult
    cases hf : findOutputs list source.id with
    | none =>
      simp only [hf, Except.ok.injEq] at hresult
      subst hresult
      refine ⟨rfl, fun hs hl ↦ ?_⟩
      obtain ⟨hsource, hs⟩ := List.forall_mem_cons.mp hs
      exact List.forall_mem_cons.mpr ⟨hsource, hfew hs hl⟩
    | some entry =>
      simp only [hf] at hresult
      obtain ⟨hid, houtputs⟩ := applyOutputs_ok hresult
      refine ⟨by rw [hid], fun hs hl ↦ ?_⟩
      obtain ⟨hsource, hs⟩ := List.forall_mem_cons.mp hs
      refine List.forall_mem_cons.mpr ⟨?_, hfew hs hl⟩
      rcases houtputs with heq | ⟨place, hread⟩
      · rwa [heq]
      · exact hl entry (List.mem_of_find?_eq_some hf) place _ hread

/-- What is left running is valid and has a preview. -/
theorem finish_ok {sources results : List SourceConfig} (h : finish sources = .ok results) :
    results.map SourceConfig.id = sources.map SourceConfig.id ∧
      (∀ result ∈ results, result.validate = .ok ()) ∧
      ((∀ source ∈ sources, previews source.outputs ≤ 1) →
        ∀ result ∈ results, previews result.outputs = 1) := by
  induction sources generalizing results with
  | nil =>
    cases h
    simp
  | cons source sources ih =>
    simp only [finish, bind_eq_ok] at h
    obtain ⟨valid, hvalid, rest, hrest, h⟩ := h
    cases h
    obtain ⟨hids, hall, hone⟩ := ih hrest
    refine ⟨by simp [hids], List.forall_mem_cons.mpr ⟨hvalid, hall⟩, fun hs ↦ ?_⟩
    obtain ⟨hsource, hs⟩ := List.forall_mem_cons.mp hs
    refine List.forall_mem_cons.mpr ⟨?_, hone hs⟩
    rw [previews_ensurePreview]
    simp only [true_and]
    split <;> omega

/-- What a recall leaves running has ids of its own, is valid and has a preview. -/
theorem recall_ok {running wanted : AppConfig} {document : Value} {parts : Parts}
    {notes : List String} (hids : (running.sources.map SourceConfig.id).Nodup)
    (h : recallShow running document parts = .ok (wanted, notes)) :
    (wanted.sources.map SourceConfig.id).Nodup ∧
      (∀ source ∈ wanted.sources, source.validate = .ok ()) ∧
      (FewPreviews running document → ∀ source ∈ wanted.sources, previews source.outputs = 1) := by
  simp only [recallShow, ite_error_eq_ok, bind_eq_ok] at h
  obtain ⟨-, -, -, -, -, -, sources, hsources, sources', hsources', results, hresults, h⟩ := h
  cases h
  obtain ⟨hsame, hvalid, hone⟩ := finish_ok hresults
  unfold wantedTabs at hsources
  unfold wantedOutputs at hsources'
  have htabs : (sources.map SourceConfig.id).Nodup ∧ (FewPreviews running document →
      ∀ source ∈ sources, previews source.outputs ≤ 1) := by
    split at hsources
    · obtain ⟨hnodup, -, hfew⟩ := recallTabs_ok hsources
      exact ⟨hnodup, fun hf ↦ hfew hf.running⟩
    · cases hsources
      exact ⟨hids, fun hf ↦ hf.running⟩
  have houtputs : sources'.map SourceConfig.id = sources.map SourceConfig.id ∧
      (FewPreviews running document → ∀ source ∈ sources', previews source.outputs ≤ 1) := by
    split at hsources'
    · obtain ⟨hsame', hfew⟩ := recallOutputs_ok hsources'
      exact ⟨hsame', fun hf ↦ hfew (htabs.2 hf) hf.listed⟩
    · cases hsources'
      exact ⟨rfl, htabs.2⟩
  refine ⟨?_, hvalid, fun hf ↦ hone (houtputs.2 hf)⟩
  rw [hsame, houtputs.1]
  exact htabs.1

/-- Outputs alone leave the ids that run, in their order. -/
theorem ids_of_recall {running wanted : AppConfig} {document : Value} {parts : Parts}
    {notes : List String} (htabs : parts.tabs = false)
    (h : recallShow running document parts = .ok (wanted, notes)) :
    wanted.sources.map SourceConfig.id = running.sources.map SourceConfig.id := by
  simp only [recallShow, ite_error_eq_ok, bind_eq_ok] at h
  obtain ⟨-, -, -, -, -, -, sources, hsources, sources', hsources', results, hresults, h⟩ := h
  cases h
  unfold wantedTabs at hsources
  unfold wantedOutputs at hsources'
  rw [htabs] at hsources
  cases hsources
  rw [(finish_ok hresults).1]
  split at hsources'
  · exact (recallOutputs_ok hsources').1
  · cases hsources'
    rfl

end WebLinked.Core.Show
