import WebLinked.Control.ControlApi
import WebLinked.Core.Recall

/-!
# What an accepted configuration is like

A settings file and a recalled show give sources that pass their check and have a preview. A
file may do without one, and is checked before its preview is added.
-/

namespace WebLinked.Control

open WebLinked.Base.Checks WebLinked.Core Json SourceConfig

/-- What a source is by what its entry of a file lists. -/
structure Runnable (listed source : SourceConfig) : Prop where
  /-- It is valid, unless its preview was added where the name was taken. -/
  valid : ¬(listed.wantPreview ∧ previews listed.outputs = 0 ∧
    ∃ o ∈ listed.outputs, o.name = "preview") → source.validate = .ok ()
  /-- It has a preview, unless none was listed and none is wanted. -/
  preview : previews listed.outputs ≤ 1 → previews source.outputs =
    if listed.wantPreview then 1 else previews listed.outputs

/-- An id that was made up leaves the rest of a source alone. -/
theorem runnable_of_readSource {i : ℕ} {value : Value} {source : SourceConfig}
    (h : AppConfig.readSource i value = .ok source) :
    ∃ listed, SourceConfig.fromJson value = .ok listed ∧ Runnable listed source.ensurePreview := by
  unfold AppConfig.readSource at h
  cases hr : SourceConfig.fromJson value with
  | error message => simp [hr] at h
  | ok listed =>
    simp only [hr] at h
    generalize hs : (if listed.id = "" then _ else listed) = s at h
    cases hv : s.validate with
    | error message => simp [hv] at h
    | ok _ =>
      simp only [hv, Except.ok.injEq] at h
      subst h
      have hvalid := validate_eq_ok.mp hv
      have hsame : s.outputs = listed.outputs ∧ s.wantPreview = listed.wantPreview := by
        rw [← hs]
        split <;> exact ⟨rfl, rfl⟩
      refine ⟨listed, rfl, ?_, ?_⟩
      · intro hclash
        rw [validate_eq_ok]
        apply valid_ensurePreview hvalid
        intro hw hp o ho hname
        rw [hsame.1] at hp ho
        exact hclash ⟨hsame.2 ▸ hw, hp, o, ho, hname⟩
      · intro hle
        rw [previews_ensurePreview, hsame.1, hsame.2]
        cases listed.wantPreview with
        | false => simp
        | true =>
          simp only [true_and, if_true]
          split <;> omega

/-- The sources of a file come from its entries and have ids of their own. -/
theorem runnable_of_readSources {i : ℕ} {ids : List String} {list : List Value}
    {sources : List SourceConfig} (h : AppConfig.readSources i ids list = .ok sources) :
    (sources.map SourceConfig.id).Nodup ∧ (∀ source ∈ sources, source.id ∉ ids) ∧
      List.Forall₂ (fun entry source ↦
        ∃ listed, SourceConfig.fromJson entry = .ok listed ∧ Runnable listed source) list
        sources := by
  induction list generalizing i ids sources with
  | nil =>
    cases h
    simp
  | cons value list ih =>
    unfold AppConfig.readSources at h
    cases hr : AppConfig.readSource i value with
    | error message => simp [hr] at h
    | ok source =>
      simp only [hr, ite_error_eq_ok, bind_eq_ok] at h
      obtain ⟨hfresh, rest, hrest, h⟩ := h
      cases h
      obtain ⟨hnodup, hout, hall⟩ := ih hrest
      refine ⟨?_, ?_, List.Forall₂.cons (runnable_of_readSource hr) hall⟩
      · rw [List.map_cons, List.nodup_cons, id_ensurePreview]
        refine ⟨?_, hnodup⟩
        intro hm
        obtain ⟨s, hs, heq⟩ := List.mem_map.mp hm
        exact hout s hs (heq ▸ List.mem_cons_self)
      · intro s hs
        rcases List.mem_cons.mp hs with rfl | hs
        · rwa [id_ensurePreview]
        · exact fun hm ↦ hout s hs (List.mem_cons_of_mem _ hm)

/-- A source that is accepted with no id to fall back on has the id it was given. -/
theorem id_of_readSourceConfig {value : Value} {config : SourceConfig}
    (h : readSourceConfig value = .ok config) : config.id = (value.get "id").asString := by
  simp only [readSourceConfig, SourceConfig.fromJson, bind_eq_ok, ite_error_eq_ok] at h
  obtain ⟨read, ⟨-, format, -, outputs, -, hread⟩, valid, hvalid, hconfig⟩ := h
  have hread : read.id = (value.get "id").asString := by
    cases hread
    rfl
  by_cases hid : read.id = ""
  · rw [if_pos hid] at hvalid
    exact absurd rfl (validate_eq_ok.mp hvalid).id.1
  · rw [if_neg hid] at hconfig
    cases hconfig
    exact hread

/-- The sources that `/api/sources/apply` wants have the ids it lists. -/
theorem ids_of_readSources {list : List Value} {sources : List SourceConfig}
    (h : readSources list = .ok sources) :
    sources.map SourceConfig.id = list.map fun entry ↦ (entry.get "id").asString := by
  induction list generalizing sources with
  | nil =>
    cases h
    rfl
  | cons value list ih =>
    simp only [readSources, bind_eq_ok] at h
    obtain ⟨config, hconfig, rest, hrest, h⟩ := h
    cases h
    rw [List.map_cons, List.map_cons, ih hrest, id_of_readSourceConfig hconfig]

/-- What the three acceptors leave to run: ids of their own, and sources that are valid and
have a preview. -/
theorem accepted_runnable :
    (∀ document config, AppConfig.fromJson document = .ok config →
      (config.sources.map SourceConfig.id).Nodup ∧
      List.Forall₂ (fun entry source ↦
        ∃ listed, SourceConfig.fromJson entry = .ok listed ∧ Runnable listed source)
        (document.get "sources").elements config.sources) ∧
    (∀ body wanted, sourcesApply body = .ok wanted →
      wanted.sources.map SourceConfig.id =
        (body.get "sources").elements.map fun entry ↦ (entry.get "id").asString) ∧
    (∀ running document parts wanted notes, (running.sources.map SourceConfig.id).Nodup →
      Show.recallShow running document parts = .ok (wanted, notes) →
      (wanted.sources.map SourceConfig.id).Nodup ∧
      (∀ source ∈ wanted.sources, source.validate = .ok ()) ∧
      (Show.FewPreviews running document →
        ∀ source ∈ wanted.sources, previews source.outputs = 1)) := by
  refine ⟨?_, ?_, fun _ _ _ _ _ hids h ↦ Show.recall_ok hids h⟩
  · intro document config h
    simp only [AppConfig.fromJson, ite_error_eq_ok, bind_eq_ok] at h
    obtain ⟨-, -, -, sources, hsources, h⟩ := h
    cases h
    obtain ⟨hnodup, -, hall⟩ := runnable_of_readSources hsources
    exact ⟨hnodup, hall⟩
  · intro body wanted h
    simp only [sourcesApply, ite_error_eq_ok, bind_eq_ok] at h
    obtain ⟨-, sources, hsources, h⟩ := h
    cases h
    exact ids_of_readSources hsources

/-- A settings file, and a list to apply. -/
def twoSources : Value :=
  .object [("version", .int 1), ("sources", .array [
    .object [("id", .string "a"), ("outputs", .array [
      .object [("kind", .string "ndi"), ("name", .string "n")]])],
    .object [("id", .string "b"), ("preview", .bool false)]])]

/-- One source runs. -/
def oneSource : AppConfig := { sources := [{ id := "main" }] }

/-- A show of one tab and its outputs. -/
def oneTabShow : Value :=
  .object [("weblinked_show", .int 1), ("tabs", .array [.object [("id", .string "c")]]),
    ("outputs", .array [.object [("tab", .string "c"), ("outputs", .array [
      .object [("kind", .string "ndi"), ("name", .string "n")]])]])]

/-- Neither the show nor what it is recalled onto has two previews in one place. -/
theorem fewPreviews_oneTabShow : Show.FewPreviews oneSource oneTabShow := by
  refine ⟨by decide +kernel, ?_⟩
  intro entry hentry place outputs houtputs
  obtain rfl := List.mem_singleton.mp hentry
  cases houtputs
  decide +kernel

/-- Each of the three is accepted. -/
theorem accepted_runnable_each :
    (∃ config, AppConfig.fromJson twoSources = .ok config ∧
      config.sources.map (fun s ↦ (s.id, previews s.outputs)) = [("a", 1), ("b", 0)] ∧
      List.Forall₂ (fun entry source ↦
        ∃ listed, SourceConfig.fromJson entry = .ok listed ∧ Runnable listed source)
        (twoSources.get "sources").elements config.sources) ∧
    (∃ wanted, sourcesApply twoSources = .ok wanted ∧
      wanted.sources.map SourceConfig.id = ["a", "b"]) ∧
    (∃ wanted notes, Show.recallShow oneSource oneTabShow ⟨true, true⟩ = .ok (wanted, notes) ∧
      wanted.sources.map SourceConfig.id = ["c"] ∧
      ∀ source ∈ wanted.sources, source.validate = .ok () ∧ previews source.outputs = 1) := by
  obtain ⟨hfile, happly, hrecall⟩ := accepted_runnable
  refine ⟨?_, ?_, ?_⟩
  · have hread : (AppConfig.fromJson twoSources).toOption.map (fun config ↦
        config.sources.map fun s ↦ (s.id, previews s.outputs)) = some [("a", 1), ("b", 0)] := by
      decide +kernel
    cases hc : AppConfig.fromJson twoSources with
    | error message => simp [hc, Except.toOption] at hread
    | ok config =>
      rw [hc] at hread
      exact ⟨config, rfl, Option.some.inj hread, (hfile _ _ hc).2⟩
  · have hread : (sourcesApply twoSources).toOption.isSome = true := by decide +kernel
    cases hc : sourcesApply twoSources with
    | error message => simp [hc, Except.toOption] at hread
    | ok wanted =>
      refine ⟨wanted, rfl, ?_⟩
      rw [happly _ _ hc]
      decide +kernel
  · have hread : (Show.recallShow oneSource oneTabShow ⟨true, true⟩).toOption.map (fun result ↦
        result.1.sources.map SourceConfig.id) = some ["c"] := by
      decide +kernel
    cases hc : Show.recallShow oneSource oneTabShow ⟨true, true⟩ with
    | error message => simp [hc, Except.toOption] at hread
    | ok result =>
      obtain ⟨-, hvalid, hone⟩ := hrecall oneSource _ _ _ _ (List.nodup_singleton _) hc
      rw [hc] at hread
      refine ⟨result.1, result.2, rfl, Option.some.inj hread, fun source hsource ↦ ?_⟩
      exact ⟨hvalid source hsource, hone fewPreviews_oneTabShow source hsource⟩

/-- A settings file that asks for no preview. -/
def withoutPreview : Value :=
  .object [("sources", .array [.object [("id", .string "a"), ("preview", .bool false)]])]

/-- It is accepted, with a source that has none. -/
theorem not_accepted_runnable : ¬∀ document config, AppConfig.fromJson document = .ok config →
    ∀ source ∈ config.sources,
      source.validate = .ok () ∧ previews source.outputs = 1 := by
  intro h
  have hnone : (AppConfig.fromJson withoutPreview).toOption.any (fun config ↦
      config.sources.any fun source ↦ previews source.outputs = 0) := by
    decide +kernel
  cases hc : AppConfig.fromJson withoutPreview with
  | error message => simp [hc, Except.toOption] at hnone
  | ok config =>
    simp only [hc, Except.toOption, Option.any_some, List.any_eq_true, decide_eq_true_eq] at hnone
    obtain ⟨source, hs, hzero⟩ := hnone
    have hone := (h _ config hc source hs).2
    omega

end WebLinked.Control
