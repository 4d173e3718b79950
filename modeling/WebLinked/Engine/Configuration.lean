import WebLinked.Browser.BrowserSource
import WebLinked.Engine.OutputList

/-!
# The configuration of a running engine

`src/engine/engine.cpp:621–777`. What the engine reports as its configuration, and the call
that makes it match another one. While no other request runs, each request the call makes is
one step of the output list.
-/

namespace WebLinked.Engine.Configuration

open WebLinked.Base WebLinked.Core Json OutputList
open WebLinked.Browser.BrowserSource (Pacing)

/-- `RenderClient::PopupPolicy`; `src/browser/render_client.h:41`. -/
inductive PopupPolicy where
  | kNavigateInPlace | kBlock
  deriving DecidableEq, Repr

/-- The engine as its configuration sees it, between requests. -/
structure State where
  id : String := "main"
  list : OutputList.State := {}
  url : String := ""
  audioEnabled : Bool := true
  matrix : ColourMatrix := .kAuto
  pacing : Pacing := .kExternalBeginFrame
  interactiveByDefault : Bool := true
  popupPolicy : PopupPolicy := .kNavigateInPlace

/-- What outputs and the clock answer while a configuration is applied, an output by its name. -/
structure Answers where
  format : FormatAnswers := { parked := true }
  remove : String → Gate := fun _ ↦ .ran
  add : String → OpenAnswers := fun _ ↦ {}
  update : String → UpdateAnswers := fun _ ↦ { probe := none }

/-- `note`, for a request that was refused; `src/engine/engine.cpp:702`. -/
def note (firstError : String) : Reply → String
  | .ok => firstError
  | reply => if firstError = "" then reply.message else firstError

/-- `Engine::outputSpecs`; `src/engine/engine.cpp:662`. -/
def outputSpecs (s : OutputList.State) : List OutputSpec := s.outputs.map Entry.spec

/-- `Engine::configuration`; `src/engine/engine.cpp:672`. -/
def configuration (e : State) : SourceConfig where
  id := e.id
  url := e.url
  format := e.list.format
  outputs := e.list.outputs.map fun entry ↦ outputConfigFromSpec entry.spec
  audioEnabled := e.audioEnabled
  matrix := e.matrix
  externalPacing := e.pacing = .kExternalBeginFrame
  interactiveByDefault := e.interactiveByDefault
  popupPolicy := if e.popupPolicy = .kBlock then "block" else "navigate"
  wantPreview := false

/-- `setFormat` while no other request runs; `src/engine/engine.cpp:1233`. -/
def setFormat (s : OutputList.State) (format : VideoFormat) (a : FormatAnswers) :
    OutputList.State :=
  if s.format.equal format then { s with reply := .ok } else s.setFormat format s.format a

/-- The raster of the configuration; `src/engine/engine.cpp:708–713`. -/
def applyFormat (s : OutputList.State) (format : VideoFormat) (a : FormatAnswers) :
    OutputList.State × String :=
  if format.equal s.format then (s, "")
  else
    let s := setFormat s format a
    (s, note "" s.reply)

/-- Whether an output is one of the configuration by its name; `src/engine/engine.cpp:726`. -/
def wanted (c : SourceConfig) (spec : OutputSpec) : Bool := c.outputs.any (·.name = spec.name)

/-- An output that the configuration does not mention is removed;
`src/engine/engine.cpp:725–734`. -/
def removeUnwanted (c : SourceConfig) (remove : String → Gate) (s : OutputList.State)
    (spec : OutputSpec) : OutputList.State :=
  if wanted c spec then s else s.removeOutput spec.name (remove spec.name)

/-- An output of the configuration is left alone, updated or added;
`src/engine/engine.cpp:736–764`. -/
def ensure (a : Answers) (acc : OutputList.State × String) (o : OutputConfig) :
    OutputList.State × String :=
  let spec := outputSpecFromConfig o
  match findEntry acc.1.outputs spec.name with
  | some same =>
    if same.spec.same spec then acc
    else
      let s := acc.1.updateOutput spec.name spec (a.update spec.name)
      (s, note acc.2 s.reply)
  | none =>
    let s := acc.1.addOutput spec (a.add spec.name)
    (s, note acc.2 s.reply)

/-- `Engine::applyConfiguration` while no other request runs, and the error it returns, which is
empty when it returns true; `src/engine/engine.cpp:700`. -/
def applyConfiguration (e : State) (c : SourceConfig) (a : Answers) : State × String :=
  let formatted := applyFormat e.list c.format a.format
  let removed := (outputSpecs formatted.1).foldl (removeUnwanted c a.remove) formatted.1
  let ensured := c.outputs.foldl (ensure a) (removed, formatted.2)
  ({ e with
      list := ensured.1
      url := if c.url ≠ e.url then c.url else e.url
      matrix := c.matrix
      pacing := if c.externalPacing then .kExternalBeginFrame else .kInternalTimer
      interactiveByDefault := c.interactiveByDefault
      popupPolicy := if c.popupPolicy = "block" then .kBlock else .kNavigateInPlace },
    ensured.2)

section Runs

variable {s t u : OutputList.State}

/-- The list goes from `s` to `t` by requests. -/
def Leads (s t : OutputList.State) : Prop :=
  ∃ actions : List OutputList.Action, OutputList.machine.run s actions = some t

private theorem Leads.refl (s : OutputList.State) : Leads s s := ⟨[], rfl⟩

private theorem Leads.trans (h : Leads s t) (h' : Leads t u) : Leads s u := by
  obtain ⟨actions, hs⟩ := h
  obtain ⟨actions', ht⟩ := h'
  exact ⟨actions ++ actions', by rw [Machine.run_append, hs]; exact ht⟩

private theorem Leads.foldl {α : Type} (f : OutputList.State → α → OutputList.State)
    (h : ∀ s x, Leads s (f s x)) (s : OutputList.State) (l : List α) : Leads s (l.foldl f s) := by
  induction l generalizing s with
  | nil => exact Leads.refl s
  | cons x l ih => exact (h s x).trans (ih (f s x))

private theorem leads_applyFormat (s : OutputList.State) (format : VideoFormat)
    (a : FormatAnswers) : Leads s (applyFormat s format a).1 := by
  unfold applyFormat setFormat
  split
  · exact Leads.refl s
  · split
    · next h =>
      refine ⟨[.setFormat format], ?_⟩
      simp [Machine.run, OutputList.machine, OutputList.State.step,
        OutputList.State.requestFormat, h]
    · next h =>
      have herase (w : Waiting) : (s.waiting ++ [w]).eraseIdx s.waiting.length = s.waiting := by
        rw [List.eraseIdx_append_of_length_le le_rfl]
        simp
      refine ⟨[.setFormat format, .formatChange s.waiting.length a], ?_⟩
      simp [Machine.run, OutputList.machine, OutputList.State.step,
        OutputList.State.requestFormat, h, herase]

private theorem leads_removeUnwanted (c : SourceConfig) (remove : String → Gate)
    (s : OutputList.State) (spec : OutputSpec) : Leads s (removeUnwanted c remove s spec) := by
  rw [removeUnwanted]
  split
  · exact Leads.refl s
  · exact ⟨[.removeOutput spec.name (remove spec.name)], rfl⟩

private theorem leads_ensure (a : Answers) (acc : OutputList.State × String) (o : OutputConfig) :
    Leads acc.1 (ensure a acc o).1 := by
  unfold ensure
  dsimp only
  split
  · split
    · exact Leads.refl acc.1
    · exact ⟨[.updateOutput _ _ _], rfl⟩
  · exact ⟨[.addOutput _ _], rfl⟩

/-- A call of `applyConfiguration` is a run of requests. -/
theorem leads_applyConfiguration (e : State) (c : SourceConfig) (a : Answers) :
    Leads e.list (applyConfiguration e c a).1.list := by
  have hensure (acc : OutputList.State × String) :
      Leads acc.1 (c.outputs.foldl (ensure a) acc).1 := by
    generalize c.outputs = outputs
    induction outputs generalizing acc with
    | nil => exact Leads.refl acc.1
    | cons o outputs ih => exact (leads_ensure a acc o).trans (ih (ensure a acc o))
  exact (leads_applyFormat e.list c.format a.format).trans
    ((Leads.foldl _ (leads_removeUnwanted c a.remove) _ _).trans (hensure (_, _)))

end Runs

end WebLinked.Engine.Configuration
