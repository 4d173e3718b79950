import WebLinked.Base.Checks
import WebLinked.Core.FormatText
import WebLinked.Core.JsonText
import WebLinked.Core.PixelConvert

/-!
# Configurations

`src/core/source_config.h`, `src/core/source_config.cpp`. What reads a document answers with
the error it was refused for.
-/

namespace WebLinked.Core

open WebLinked.Base.Checks Json

/-- `colourMatrixToString`; `src/core/source_config.cpp:9`. -/
def colourMatrixToString : ColourMatrix → String
  | .kBt601 => "601"
  | .kBt709 => "709"
  | .kAuto => "auto"

/-- `colourMatrixFromString`; `src/core/source_config.cpp:18`. -/
def colourMatrixFromString (text : String) : ColourMatrix :=
  if text = "601" ∨ text = "bt601" then .kBt601
  else if text = "709" ∨ text = "bt709" then .kBt709
  else .kAuto

/-- `hexDigit`; `src/core/source_config.cpp:28`. -/
def hexDigit (c : Char) : Option ℕ :=
  if '0' ≤ c ∧ c ≤ '9' then some (c.toNat - '0'.toNat)
  else if 'a' ≤ c ∧ c ≤ 'f' then some (c.toNat - 'a'.toNat + 10)
  else if 'A' ≤ c ∧ c ≤ 'F' then some (c.toNat - 'A'.toNat + 10)
  else none

/-- `OutputBackground`; `src/core/source_config.h:24`. -/
structure OutputBackground where
  isOpaque : Bool := false
  red : UInt8 := 0x00
  green : UInt8 := 0xb1
  blue : UInt8 := 0x40
  deriving DecidableEq, Repr

/-- `OutputBackground::packed`; `src/core/source_config.h:45`. -/
def OutputBackground.packed (b : OutputBackground) : UInt32 :=
  b.red.toUInt32 <<< 16 ||| b.green.toUInt32 <<< 8 ||| b.blue.toUInt32

/-- `OutputBackground::toHex`; `src/core/source_config.cpp:37`. -/
def OutputBackground.toHex (b : OutputBackground) : String :=
  String.ofList ('#' :: [b.red, b.green, b.blue].flatMap fun channel : UInt8 ↦
    [(channel >>> 4).toNat.digitChar, (channel &&& 0x0f).toNat.digitChar])

/-- One channel of `OutputBackground::setHex`; `src/core/source_config.cpp:56–61`. -/
def readChannel (high low : Char) : Option UInt8 := do
  some (UInt8.ofNat ((← hexDigit high) * 16 + (← hexDigit low)))

/-- `OutputBackground::setHex`, none where it leaves the colour; `src/core/source_config.cpp:47`. -/
def OutputBackground.setHex (b : OutputBackground) (text : String) : Option OutputBackground :=
  let digits := if text.toList.head? = some '#' then text.toList.drop 1 else text.toList
  match digits with
  | [redHigh, redLow, greenHigh, greenLow, blueHigh, blueLow] => do
    let red ← readChannel redHigh redLow
    let green ← readChannel greenHigh greenLow
    let blue ← readChannel blueHigh blueLow
    some { b with red, green, blue }
  | _ => none

/-- `OutputConfig`; `src/core/source_config.h:65`. -/
structure OutputConfig where
  kind : String
  name : String
  deviceIndex : Int := 0
  options : Value := .object []
  background : OutputBackground := {}

namespace OutputConfig

/-- `OutputConfig::toJson`; `src/core/source_config.cpp:73`. -/
def toJson (o : OutputConfig) : Value :=
  let value := (Value.object []).set "kind" (.string o.kind)
  let value := value.set "name" (.string o.name)
  let value :=
    if o.kind = "decklink" ∨ o.kind = "aja" then value.set "device_index" (.int o.deviceIndex)
    else value
  let value :=
    if o.options.isObject ∧ 0 < o.options.size then value.set "options" o.options else value
  let value := if o.background.isOpaque then value.set "background" (.string "colour") else value
  if o.background.packed ≠ ({} : OutputBackground).packed then
    value.set "background_colour" (.string o.background.toHex)
  else value

/-- The background an output is given; `src/core/source_config.cpp:117–140`. -/
def readBackground (value : Value) : Except String OutputBackground := do
  let colour := (value.get "background_colour").asString
  let background ←
    if colour = "" then .ok {}
    else
      match ({} : OutputBackground).setHex colour with
      | some background => .ok background
      | none => .error ("\"background_colour\" must be #rrggbb, not \"" ++ colour ++ "\"")
  let mode := (value.get "background").asString
  if mode = "" then .ok background
  else if mode = "transparent" then .ok { background with isOpaque := false }
  else if mode = "colour" ∨ mode = "color" then .ok { background with isOpaque := true }
  else
    match background.setHex mode with
    | some background => .ok { background with isOpaque := true }
    | none =>
      .error ("\"background\" must be \"transparent\", \"colour\" or #rrggbb, not \"" ++ mode ++
        "\"")

/-- `OutputConfig::fromJson`; `src/core/source_config.cpp:95`. -/
def fromJson (value : Value) : Except String OutputConfig :=
  if value.isObject = false then .error "an output must be an object"
  else
    let kind := (value.get "kind").asString
    if kind = "" then .error "an output needs a \"kind\""
    else do
      let background ← readBackground value
      .ok {
        kind
        name := (value.get "name").asString kind
        deviceIndex := (value.get "device_index").asInt 0
        options :=
          if (value.get "options").isObject then value.get "options" else .object []
        background }

/-- A list of outputs from its `i`-th on, an error after where it is. -/
def readAll (place : ℕ → String) : ℕ → List Value → Except String (List OutputConfig)
  | _, [] => .ok []
  | i, value :: list =>
    match fromJson value with
    | .ok output => do .ok (output :: (← readAll place (i + 1) list))
    | .error message => .error (place i ++ message)

end OutputConfig

/-- `outputKindIsPermanent`; `src/core/source_config.cpp:286`. -/
def outputKindIsPermanent (kind : String) : Bool := kind = "preview"

/-- `SourceConfig`; `src/core/source_config.h:103`. -/
structure SourceConfig where
  id : String := ""
  url : String := "about:blank"
  format : VideoFormat := (VideoFormat.parse "1080p50").getD {}
  outputs : List OutputConfig := []
  audioEnabled : Bool := true
  matrix : ColourMatrix := .kAuto
  externalPacing : Bool := true
  interactiveByDefault : Bool := true
  popupPolicy : String := "navigate"
  wantPreview : Bool := true

namespace SourceConfig

/-- `SourceConfig::toJson`; `src/core/source_config.cpp:154`. -/
def toJson (c : SourceConfig) : Value :=
  let value := (Value.object []).set "id" (.string c.id)
  let value := value.set "url" (.string c.url)
  let value := value.set "format" (.string c.format.toString)
  let value := value.set "audio" (.bool c.audioEnabled)
  let value := value.set "matrix" (.string (colourMatrixToString c.matrix))
  let value := value.set "pacing" (.string (if c.externalPacing then "external" else "internal"))
  let value := value.set "interactive" (.bool c.interactiveByDefault)
  let value := value.set "popups" (.string c.popupPolicy)
  value.set "outputs" (.array (c.outputs.map OutputConfig.toJson))

/-- A format where there is one; `src/core/source_config.cpp:184–195`. -/
def readFormat (value : Value) : Except String VideoFormat :=
  if value.has "format" then
    let text := (value.get "format").asString
    match VideoFormat.parse text with
    | some parsed => .ok parsed
    | none =>
      .error ("cannot parse format '" ++ text ++
        "' — try 1080p50, 720p59.94 or 1920x1080i25")
  else .ok ({} : SourceConfig).format

/-- The outputs where they are listed; `src/core/source_config.cpp:216–233`. -/
def readOutputs (value : Value) : Except String (List OutputConfig) :=
  if value.has "outputs" then
    if (value.get "outputs").isArray = false then .error "\"outputs\" must be an array"
    else
      OutputConfig.readAll (fun i ↦ "outputs[" ++ toString i ++ "]: ") 0
        (value.get "outputs").elements
  else .ok []

/-- `SourceConfig::fromJson`; `src/core/source_config.cpp:174`. -/
def fromJson (value : Value) : Except String SourceConfig :=
  if value.isObject = false then .error "a source must be an object"
  else do
    let format ← readFormat value
    let outputs ← readOutputs value
    .ok {
      id := (value.get "id").asString
      url := (value.get "url").asString "about:blank"
      format
      outputs
      audioEnabled := if value.has "audio" then (value.get "audio").asBool true else true
      matrix :=
        if value.has "matrix" then colourMatrixFromString (value.get "matrix").asString else .kAuto
      externalPacing :=
        if value.has "pacing" then (value.get "pacing").asString "external" ≠ "internal" else true
      interactiveByDefault :=
        if value.has "interactive" then (value.get "interactive").asBool true else true
      popupPolicy :=
        if value.has "popups" then (value.get "popups").asString "navigate" else "navigate"
      wantPreview := if value.has "preview" then (value.get "preview").asBool true else true }

/-- The check of the names of the outputs; `src/core/source_config.cpp:273–282`. -/
def checkNames (id : String) : List String → List OutputConfig → Except String Unit
  | _, [] => .ok ()
  | names, output :: outputs =>
    if output.name = "" then .error ("source '" ++ id ++ "' has an output with no name")
    else if output.name ∈ names then
      .error ("source '" ++ id ++ "' has two outputs called '" ++ output.name ++ "'")
    else checkNames id (output.name :: names) outputs

/-- `SourceConfig::validate`; `src/core/source_config.cpp:238`. -/
def validate (c : SourceConfig) : Except String Unit :=
  if c.id = "" then .error "a source needs an \"id\""
  else if c.id.toList.any fun ch ↦ !(ch.isAlphanum || ch = '-' || ch = '_' || ch = '.') then
    .error ("source id '" ++ c.id ++ "' may only contain letters, digits, '-', '_' and '.'")
  else if c.format.width ≤ 0 ∨ c.format.height ≤ 0 then
    .error ("source '" ++ c.id ++ "' has an empty raster")
  else if c.format.width.tmod 2 ≠ 0 then
    .error ("source '" ++ c.id ++ "' has an odd width, which 4:2:2 cannot carry")
  else if c.format.rate.numerator ≤ 0 ∨ c.format.rate.denominator ≤ 0 then
    .error ("source '" ++ c.id ++ "' has an invalid frame rate")
  else if c.popupPolicy ≠ "navigate" ∧ c.popupPolicy ≠ "block" then
    .error ("source '" ++ c.id ++ "' has an unknown popup policy '" ++ c.popupPolicy ++
      "' — expected \"navigate\" or \"block\"")
  else checkNames c.id [] c.outputs

/-- `SourceConfig::ensurePreview`; `src/core/source_config.cpp:290`. -/
def ensurePreview (c : SourceConfig) : SourceConfig :=
  if c.wantPreview = false then c
  else if c.outputs.any (·.kind = "preview") then c
  else
    let preview : OutputConfig :=
      { kind := "preview", name := "preview", options := (Value.object []).set "factor" (.int 4) }
    { c with outputs := preview :: c.outputs }

/-- What `validate` checks. -/
structure Valid (c : SourceConfig) : Prop where
  id : c.id ≠ "" ∧ ∀ ch ∈ c.id.toList, ch.isAlphanum ∨ ch = '-' ∨ ch = '_' ∨ ch = '.'
  raster : 0 < c.format.width ∧ 0 < c.format.height ∧ c.format.width.tmod 2 = 0
  rate : 0 < c.format.rate.numerator ∧ 0 < c.format.rate.denominator
  popups : c.popupPolicy = "navigate" ∨ c.popupPolicy = "block"
  named : ∀ o ∈ c.outputs, o.name ≠ ""
  distinct : (c.outputs.map OutputConfig.name).Nodup

/-- The names pass when none is empty, taken or there twice. -/
theorem checkNames_eq_ok {id : String} {names : List String} {outputs : List OutputConfig} :
    checkNames id names outputs = .ok () ↔
      (∀ o ∈ outputs, o.name ≠ "" ∧ o.name ∉ names) ∧ (outputs.map OutputConfig.name).Nodup := by
  induction outputs generalizing names with
  | nil => simp [checkNames]
  | cons o outputs ih =>
    rw [checkNames, ite_error_eq_ok, ite_error_eq_ok, ih, List.forall_mem_cons, List.map_cons,
      List.nodup_cons]
    constructor
    · rintro ⟨he, hm, hall, hnodup⟩
      refine ⟨⟨⟨he, hm⟩, fun o ho ↦ ⟨(hall o ho).1, fun h ↦ ?_⟩⟩, ?_, hnodup⟩
      · exact (hall o ho).2 (List.mem_cons_of_mem _ h)
      · intro h
        obtain ⟨o', ho', heq⟩ := List.mem_map.mp h
        exact (hall o' ho').2 (heq ▸ List.mem_cons_self)
    · rintro ⟨⟨⟨he, hm⟩, hall⟩, hfresh, hnodup⟩
      refine ⟨he, hm, fun o' ho' ↦ ⟨(hall o' ho').1, fun h ↦ ?_⟩, hnodup⟩
      rcases List.mem_cons.mp h with heq | h
      · exact hfresh (heq ▸ List.mem_map_of_mem ho')
      · exact (hall o' ho').2 h

/-- `validate` passes what is valid. -/
theorem validate_eq_ok {c : SourceConfig} : c.validate = .ok () ↔ c.Valid := by
  have hchars : (¬(c.id.toList.any fun ch ↦
      !(ch.isAlphanum || ch = '-' || ch = '_' || ch = '.')) = true) ↔
      ∀ ch ∈ c.id.toList, ch.isAlphanum ∨ ch = '-' ∨ ch = '_' ∨ ch = '.' := by
    simp only [List.any_eq_true, Bool.not_eq_true', Bool.eq_false_iff, not_exists, not_and, ne_eq,
      not_not, Bool.or_eq_true, decide_eq_true_eq, or_assoc]
  simp only [validate, ite_error_eq_ok, hchars, checkNames_eq_ok, not_or, not_le, not_and_or,
    not_not, ne_eq, List.not_mem_nil, not_false_eq_true, and_true]
  constructor
  · rintro ⟨hid, hch, hraster, heven, hrate, hpopups, hnamed, hnodup⟩
    exact ⟨⟨hid, hch⟩, ⟨hraster.1, hraster.2, heven⟩, hrate, hpopups, hnamed, hnodup⟩
  · rintro ⟨⟨hid, hch⟩, ⟨hw, hh, heven⟩, hrate, hpopups, hnamed, hnodup⟩
    exact ⟨hid, hch, ⟨hw, hh⟩, heven, hrate, hpopups, hnamed, hnodup⟩

/-- How many previews a list has. -/
def previews (outputs : List OutputConfig) : ℕ := outputs.countP (·.kind = "preview")

/-- A list has no previews when none of its outputs is one. -/
theorem any_preview (outputs : List OutputConfig) :
    outputs.any (·.kind = "preview") = decide (previews outputs ≠ 0) := by
  rw [Bool.eq_iff_iff, decide_eq_true_iff, List.any_eq_true, previews, ← Nat.pos_iff_ne_zero,
    List.countP_pos_iff]

/-- `ensurePreview` adds a preview where there is none and one is wanted. -/
theorem previews_ensurePreview (c : SourceConfig) : previews c.ensurePreview.outputs =
    if c.wantPreview ∧ previews c.outputs = 0 then 1 else previews c.outputs := by
  unfold ensurePreview
  rw [any_preview]
  by_cases hw : c.wantPreview = false
  · simp [hw]
  by_cases hp : previews c.outputs = 0
  · have hadd (o : OutputConfig) (ho : o.kind = "preview") : previews (o :: c.outputs) = 1 := by
      rw [previews, List.countP_cons, ← previews, hp]
      simp [ho]
    rw [if_neg hw, if_neg (by simp [hp]), if_pos ⟨by simpa using hw, hp⟩]
    exact hadd _ rfl
  · simp [hw, hp]

/-- The id stays. -/
@[simp] theorem id_ensurePreview (c : SourceConfig) : c.ensurePreview.id = c.id := by
  unfold ensurePreview
  split
  · rfl
  split <;> rfl

/-- With its preview a source is as valid as before, unless the name of the preview is taken. -/
theorem valid_ensurePreview {c : SourceConfig} (h : c.Valid)
    (hn : c.wantPreview → previews c.outputs = 0 → ∀ o ∈ c.outputs, o.name ≠ "preview") :
    c.ensurePreview.Valid := by
  unfold ensurePreview
  rw [any_preview]
  by_cases hw : c.wantPreview = false
  · rwa [if_pos hw]
  by_cases hp : previews c.outputs = 0
  · have hfree := hn (by simpa using hw) hp
    rw [if_neg hw, if_neg (by simp [hp])]
    refine ⟨h.id, h.raster, h.rate, h.popups, ?_, ?_⟩
    · intro o ho
      rcases List.mem_cons.mp ho with rfl | ho
      · simp
      · exact h.named o ho
    · refine List.nodup_cons.mpr ⟨?_, h.distinct⟩
      intro hm
      obtain ⟨o, ho, heq⟩ := List.mem_map.mp hm
      exact hfree o ho heq
  · rwa [if_neg hw, if_pos (by simp [hp])]

end SourceConfig

/-- `AppConfig`; `src/core/source_config.h:139`. -/
structure AppConfig where
  sources : List SourceConfig := []
  httpBind : String := "127.0.0.1"
  httpPort : Int := 7654
  httpToken : String := ""
  oscEnabled : Bool := true
  oscBind : String := "0.0.0.0"
  oscPort : Int := 7655
  mdnsEnabled : Bool := true
  instanceName : String := ""

namespace AppConfig

/-- `AppConfig::toJson`; `src/core/source_config.cpp:309`. -/
def toJson (c : AppConfig) : Value :=
  let control := (Value.object []).set "http_bind" (.string c.httpBind)
  let control := control.set "http_port" (.int c.httpPort)
  let control :=
    if c.httpToken ≠ "" then control.set "http_token" (.string c.httpToken) else control
  let control := control.set "osc_enabled" (.bool c.oscEnabled)
  let control := control.set "osc_bind" (.string c.oscBind)
  let control := control.set "osc_port" (.int c.oscPort)
  let control := control.set "mdns_enabled" (.bool c.mdnsEnabled)
  let control :=
    if c.instanceName ≠ "" then control.set "name" (.string c.instanceName) else control
  let value := (Value.object []).set "control" control
  value.set "sources" (.array (c.sources.map SourceConfig.toJson))

/-- The process-level settings; `src/core/source_config.cpp:344–361`. -/
def readControl (value : Value) : AppConfig :=
  if value.has "control" then
    let control := value.get "control"
    { httpBind := (control.get "http_bind").asString "127.0.0.1"
      httpPort := (control.get "http_port").asInt 7654
      httpToken := (control.get "http_token").asString
      oscEnabled :=
        if control.has "osc_enabled" then (control.get "osc_enabled").asBool true else true
      oscBind := (control.get "osc_bind").asString "0.0.0.0"
      oscPort := (control.get "osc_port").asInt 7655
      mdnsEnabled :=
        if control.has "mdns_enabled" then (control.get "mdns_enabled").asBool true else true
      instanceName := (control.get "name").asString }
  else {}

/-- One source of a file, from its `i`-th entry; `src/core/source_config.cpp:376–393`. -/
def readSource (i : ℕ) (value : Value) : Except String SourceConfig :=
  let place := "sources[" ++ toString i ++ "]: "
  match SourceConfig.fromJson value with
  | .error message => .error (place ++ message)
  | .ok source =>
    let source :=
      if source.id = "" then { source with id := "source" ++ toString (i + 1) } else source
    match source.validate with
    | .error message => .error (place ++ message)
    | .ok _ => .ok source

/-- The sources of a file from its `i`-th on, after those with `ids`;
`src/core/source_config.cpp:374–402`. -/
def readSources : ℕ → List String → List Value → Except String (List SourceConfig)
  | _, _, [] => .ok []
  | i, ids, value :: list =>
    match readSource i value with
    | .error message => .error message
    | .ok source =>
      if source.id ∈ ids then .error ("two sources share the id '" ++ source.id ++ "'")
      else do .ok (source.ensurePreview :: (← readSources (i + 1) (source.id :: ids) list))

/-- `AppConfig::fromJson`; `src/core/source_config.cpp:335`. -/
def fromJson (value : Value) : Except String AppConfig :=
  if value.isObject = false then .error "the configuration must be an object"
  else if value.has "sources" = false then
    .error "the configuration needs a \"sources\" array"
  else if (value.get "sources").isArray = false then .error "\"sources\" must be an array"
  else do
    let sources ← readSources 0 [] (value.get "sources").elements
    .ok { readControl value with sources }

/-- `AppConfig::parse`; `src/core/source_config.cpp:407`. -/
def parse (text : String) : Except String AppConfig :=
  match Json.parse text with
  | .error message => .error ("not valid JSON: " ++ message)
  | .ok value => fromJson value

end AppConfig
end WebLinked.Core
