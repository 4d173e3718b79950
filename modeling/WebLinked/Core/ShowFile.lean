import WebLinked.Core.SourceConfig

/-!
# Shows

`src/core/show_file.h`, `src/core/show_file.cpp`. A show is what tabs are open and where each
goes, recalled onto what is running together or one half alone.
-/

namespace WebLinked.Core.Show

open Json

/-- `kFormatVersion`; `src/core/show_file.h:35`. -/
def kFormatVersion : Int := 1

/-- `Parts`; `src/core/show_file.h:38`. -/
structure Parts where
  tabs : Bool := true
  outputs : Bool := true
  deriving DecidableEq, Repr

/-- `tabJson`; `src/core/show_file.cpp:16`. -/
def tabJson (source : SourceConfig) : Value :=
  let value := (Value.object []).set "id" (.string source.id)
  let value := value.set "url" (.string source.url)
  let value := value.set "interactive" (.bool source.interactiveByDefault)
  value.set "popups" (.string source.popupPolicy)

/-- `outputsJson`; `src/core/show_file.cpp:25`. -/
def outputsJson (source : SourceConfig) : Value :=
  let value := (Value.object []).set "tab" (.string source.id)
  let value := value.set "format" (.string source.format.toString)
  let value := value.set "matrix" (.string (colourMatrixToString source.matrix))
  let value :=
    value.set "pacing" (.string (if source.externalPacing then "external" else "internal"))
  value.set "outputs" (.array (source.outputs.map OutputConfig.toJson))

/-- `applyTab`; `src/core/show_file.cpp:41`. -/
def applyTab (entry : Value) (source : SourceConfig) : SourceConfig :=
  { source with
    url :=
      if entry.has "url" then
        if (entry.get "url").asString = "" then "about:blank" else (entry.get "url").asString
      else source.url
    interactiveByDefault :=
      if entry.has "interactive" then (entry.get "interactive").asBool true
      else source.interactiveByDefault
    popupPolicy :=
      if entry.has "popups" then (entry.get "popups").asString "navigate"
      else source.popupPolicy }

/-- The format an entry gives a source; `src/core/show_file.cpp:61–69`. -/
def applyFormat (entry : Value) (source : SourceConfig) : Except String VideoFormat :=
  if entry.has "format" then
    let text := (entry.get "format").asString
    match VideoFormat.parse text with
    | some parsed => .ok parsed
    | none => .error ("tab '" ++ source.id ++ "': cannot parse format '" ++ text ++ "'")
  else .ok source.format

/-- The output list an entry gives a source; `src/core/show_file.cpp:76–92`. -/
def applyOutputList (entry : Value) (source : SourceConfig) :
    Except String (List OutputConfig) :=
  if entry.has "outputs" then
    if (entry.get "outputs").isArray = false then
      .error ("tab '" ++ source.id ++ "': \"outputs\" must be a list")
    else
      OutputConfig.readAll
        (fun i ↦ "tab '" ++ source.id ++ "' output " ++ toString (i + 1) ++ ": ") 0
        (entry.get "outputs").elements
  else .ok source.outputs

/-- `applyOutputs`; `src/core/show_file.cpp:59`. -/
def applyOutputs (entry : Value) (source : SourceConfig) : Except String SourceConfig := do
  let format ← applyFormat entry source
  let outputs ← applyOutputList entry source
  .ok { source with
    format
    matrix :=
      if entry.has "matrix" then colourMatrixFromString (entry.get "matrix").asString
      else source.matrix
    externalPacing :=
      if entry.has "pacing" then (entry.get "pacing").asString "external" ≠ "internal"
      else source.externalPacing
    outputs }

/-- `findOutputs`; `src/core/show_file.cpp:96`. -/
def findOutputs (list : Value) (id : String) : Option Value :=
  list.elements.find? fun entry ↦ (entry.get "tab").asString = id

/-- `findSource`; `src/core/show_file.cpp:108`. -/
def findSource (config : AppConfig) (id : String) : Option SourceConfig :=
  config.sources.find? (·.id = id)

/-- `capture`; `src/core/show_file.cpp:119`. -/
def capture (running : AppConfig) (parts : Parts) : Value :=
  let document := (Value.object []).set "weblinked_show" (.int kFormatVersion)
  let document :=
    if parts.tabs then document.set "tabs" (.array (running.sources.map tabJson)) else document
  if parts.outputs then document.set "outputs" (.array (running.sources.map outputsJson))
  else document

/-- `present`; `src/core/show_file.cpp:139`. -/
def present (document : Value) : Parts :=
  { tabs := (document.get "tabs").isArray, outputs := (document.get "outputs").isArray }

/-- What a new tab starts from; `src/core/show_file.cpp:185–190`. -/
def templateSource (running : AppConfig) : SourceConfig :=
  match running.sources with
  | [] => {}
  | front :: _ =>
    { format := front.format, matrix := front.matrix, externalPacing := front.externalPacing }

/-- What an open tab is, or a new one; `src/core/show_file.cpp:205–213`. -/
def recallTab (running : AppConfig) (entry : Value) (id : String) : SourceConfig :=
  applyTab entry
    (match findSource running id with
    | some existing => existing
    | none => { templateSource running with id, outputs := [] })

/-- The tabs of a show from its `i`-th on, after those `seen`; `src/core/show_file.cpp:194–215`. -/
def recallTabs (running : AppConfig) :
    ℕ → List String → List Value → Except String (List SourceConfig)
  | _, _, [] => .ok []
  | i, seen, entry :: tabs =>
    let id := (entry.get "id").asString
    if id = "" then .error ("tab " ++ toString (i + 1) ++ " has no id")
    else if id ∈ seen then .error ("two tabs share the id '" ++ id ++ "'")
    else do
      .ok (recallTab running entry id :: (← recallTabs running (i + 1) (id :: seen) tabs))

/-- The outputs of a show over one tab, if it names the tab; `src/core/show_file.cpp:221–227`. -/
def recallOutput (outputList : Value) (source : SourceConfig) : Except String SourceConfig :=
  match findOutputs outputList source.id with
  | some entry => applyOutputs entry source
  | none => .ok source

/-- The outputs of a show over the tabs it names; `src/core/show_file.cpp:220–229`. -/
def recallOutputs (outputList : Value) : List SourceConfig → Except String (List SourceConfig)
  | [] => .ok []
  | source :: sources => do
    let source ← recallOutput outputList source
    .ok (source :: (← recallOutputs outputList sources))

/-- What is said of outputs for tabs that are not open; `src/core/show_file.cpp:230–237`. -/
def skipped (outputList : Value) (sources : List SourceConfig) : List String :=
  let ids := (outputList.elements.map fun entry ↦ (entry.get "tab").asString).filter
    fun id ↦ ¬sources.any (·.id = id)
  ids.map fun id ↦ "no tab '" ++ id ++ "' is open, so its outputs were skipped"

/-- Gives every source a preview and checks it; `src/core/show_file.cpp:240–248`. -/
def finish : List SourceConfig → Except String (List SourceConfig)
  | [] => .ok []
  | source :: sources => do
    let source := { source with wantPreview := true }.ensurePreview
    source.validate
    .ok (source :: (← finish sources))

/-- The tabs half of a recall, or the tabs that run; `src/core/show_file.cpp:175–216`. -/
def wantedTabs (running : AppConfig) (document : Value) (parts : Parts) :
    Except String (List SourceConfig) :=
  if parts.tabs then recallTabs running 0 [] (document.get "tabs").elements
  else .ok running.sources

/-- The outputs half of a recall, or none of it; `src/core/show_file.cpp:218–238`. -/
def wantedOutputs (document : Value) (parts : Parts) (sources : List SourceConfig) :
    Except String (List SourceConfig) :=
  if parts.outputs then recallOutputs (document.get "outputs") sources else .ok sources

/-- `recall`, with its notes; `src/core/show_file.cpp:146`. -/
def recallShow (running : AppConfig) (document : Value) (parts : Parts) :
    Except String (AppConfig × List String) :=
  if document.isObject = false ∨ document.has "weblinked_show" = false then
    .error "not a WebLinked show file"
  else if (document.get "weblinked_show").asInt 0 > kFormatVersion then
    .error "this show was saved by a newer WebLinked"
  else if parts.tabs = false ∧ parts.outputs = false then
    .error "choose tabs, outputs or both"
  else if parts.tabs ∧ (present document).tabs = false then
    .error "this show has no tabs in it"
  else if parts.outputs ∧ (present document).outputs = false then
    .error "this show has no outputs in it"
  else if parts.tabs ∧ (document.get "tabs").size = 0 then
    .error "this show has no tabs in it"
  else do
    let tabs ← wantedTabs running document parts
    let sources ← wantedOutputs document parts tabs
    let sources ← finish sources
    .ok ({ running with sources },
      if parts.outputs then skipped (document.get "outputs") tabs else [])

end WebLinked.Core.Show
