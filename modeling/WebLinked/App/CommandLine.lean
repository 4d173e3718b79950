import Mathlib
import WebLinked.Browser.BrowserSource
import WebLinked.Engine.Configuration
import WebLinked.Engine.OutputList

/-!
# The command line and the configuration file

`src/app/main.cpp:101–156,572–603,641–813,1014–1037`. Which control flags were given is not kept: a
value that is not the built-in one is taken as given.
-/

namespace WebLinked.App

open WebLinked.Core WebLinked.Core.Json WebLinked.Engine.OutputList
open WebLinked.Browser.BrowserSource (Pacing)
open WebLinked.Engine.Configuration (PopupPolicy)

/-- `ControlApi::Config`, with what the command line or a file can set;
`src/control/control_api.h:35`. -/
structure Config where
  httpBind : String := "127.0.0.1"
  httpPort : Int := 7654
  httpToken : String := ""
  oscEnabled : Bool := true
  oscBind : String := "0.0.0.0"
  oscPort : Int := 7655
  mdnsEnabled : Bool := true
  instanceName : String := ""
  deriving DecidableEq

/-- `Options::Given`; `src/app/main.cpp:147`. -/
structure Given where
  url : Bool := false
  format : Bool := false
  matrix : Bool := false
  pacing : Bool := false
  interactive : Bool := false
  popups : Bool := false
  outputs : Bool := false

/-- `Options`, with what is started from; `src/app/main.cpp:101`. -/
structure Options where
  url : String := "about:blank"
  format : VideoFormat := {}
  outputs : List OutputSpec := []
  control : Config := {}
  audio : Bool := true
  matrix : ColourMatrix := .kAuto
  pacing : Pacing := .kExternalBeginFrame
  interactive : Bool := true
  popupPolicy : PopupPolicy := .kNavigateInPlace
  settingsPath : String := ""
  useSavedSettings : Bool := true
  wantPreview : Bool := true
  configPath : String := ""
  sources : AppConfig := {}
  given : Given := {}

/-- A control flag with its value. None sets the address that OSC is bound to. -/
inductive Flag where
  | port (value : Int)
  | bind (value : String)
  | token (value : String)
  | oscPort (value : Int)
  | name (value : String)
  | noOsc
  | noMdns
  deriving DecidableEq

/-- What `parseArguments` does with a control flag; `src/app/main.cpp:488,573–603`. -/
def Flag.parse (control : Config) : Flag → Config
  | .port value => { control with httpPort := value }
  | .bind value => { control with httpBind := value }
  | .token value => { control with httpToken := value }
  | .oscPort value => { control with oscPort := value }
  | .name value => { control with instanceName := value }
  | .noOsc => { control with oscEnabled := false }
  | .noMdns => { control with mdnsEnabled := false }

/-- The control flags of a command line, in order. -/
def parseFlags (flags : List Flag) : Config := flags.foldl Flag.parse {}

/-- The file system: what `settings::load` makes of a path. -/
abbrev Files := String → Except String AppConfig

namespace Options

/-- `ensurePreview`; `src/app/main.cpp:647`. -/
def ensurePreview (o : Options) : Options :=
  if o.wantPreview = false then o
  else if o.outputs.any (·.kind = "preview") then o
  else
    let preview : OutputSpec :=
      { kind := "preview", name := "preview", options := (Value.object []).set "factor" (.int 4) }
    { o with outputs := preview :: o.outputs }

/-- `applySavedSettings`; `src/app/main.cpp:670`. -/
def applySavedSettings (load : Files) (defaultPath : String) (o : Options) : Options :=
  if o.useSavedSettings = false then o
  else
    match load (if o.settingsPath = "" then defaultPath else o.settingsPath) with
    | .error _ => o
    | .ok file =>
      match file.sources with
      | [] => o
      | saved :: _ =>
        { o with
          url := if o.given.url then o.url else saved.url
          format := if o.given.format then o.format else saved.format
          matrix := if o.given.matrix then o.matrix else saved.matrix
          pacing :=
            if o.given.pacing then o.pacing
            else if saved.externalPacing then .kExternalBeginFrame else .kInternalTimer
          interactive := if o.given.interactive then o.interactive else saved.interactiveByDefault
          popupPolicy :=
            if o.given.popups then o.popupPolicy
            else if saved.popupPolicy = "block" then .kBlock else .kNavigateInPlace
          outputs :=
            if o.given.outputs then o.outputs else saved.outputs.map outputSpecFromConfig
          audio := o.audio && saved.audioEnabled }

/-- The source that the flags describe; `src/app/main.cpp:730–749`. -/
def flagSource (o : Options) : SourceConfig where
  id := "main"
  url := o.url
  format := o.format
  audioEnabled := o.audio
  matrix := o.matrix
  externalPacing := o.pacing = .kExternalBeginFrame
  interactiveByDefault := o.interactive
  popupPolicy := if o.popupPolicy = .kBlock then "block" else "navigate"
  wantPreview := false
  outputs := o.outputs.map outputConfigFromSpec

/-- A flag was given that describes a source; `src/app/main.cpp:753–756`. -/
def sourceFlagsGiven (o : Options) : Bool :=
  o.given.url || o.given.format || o.given.matrix || o.given.pacing || o.given.interactive ||
    o.given.popups || o.given.outputs

/-- What is in force of a setting: the file's value if it has the built-in one, which stands for
not given. -/
def orFile {α : Type} [DecidableEq α] (builtIn file value : α) : α :=
  if value = builtIn then file else value

/-- The control surface with the file's values filled in; `src/app/main.cpp:786–811`. -/
def fillIn (control : Config) (file : AppConfig) : Config where
  httpPort := orFile 7654 file.httpPort control.httpPort
  httpBind := orFile "127.0.0.1" file.httpBind control.httpBind
  httpToken := orFile "" file.httpToken control.httpToken
  oscPort := orFile 7655 file.oscPort control.oscPort
  oscBind := orFile "0.0.0.0" file.oscBind control.oscBind
  oscEnabled := control.oscEnabled && file.oscEnabled
  instanceName := orFile "" file.instanceName control.instanceName
  mdnsEnabled := control.mdnsEnabled && file.mdnsEnabled

/-- `resolveSources`; `src/app/main.cpp:728`. -/
def resolveSources (load : Files) (o : Options) : Except String Options :=
  if o.configPath = "" then
    .ok { o with sources := { o.sources with sources := o.sources.sources ++ [o.flagSource] } }
  else if o.sourceFlagsGiven then
    .error ("--config describes the sources, so it cannot be combined with --url, " ++
      "--format, --matrix, --pacing, --interactive, --popups or an output " ++
      "flag. Put those in the file instead.")
  else
    match load o.configPath with
    | .error loadError => .error ("cannot read " ++ o.configPath ++ ": " ++ loadError)
    | .ok file =>
      if file.sources = [] then .error (o.configPath ++ " describes no sources")
      else
        let sources :=
          if o.wantPreview then file.sources.map SourceConfig.ensurePreview else file.sources
        .ok { o with
          sources := { file with sources }
          control := fillIn o.control file }

/-- From the parsed command line to what is started; `src/app/main.cpp:1033–1037`. -/
def startUp (load : Files) (defaultPath : String) (o : Options) : Except String Options :=
  resolveSources load
    (if o.configPath = "" then (o.applySavedSettings load defaultPath).ensurePreview else o)

end Options

/-! ### What was given -/

namespace Flag

/-- The port it gives. -/
def port? : Flag → Option Int
  | .port value => some value
  | _ => none

/-- The address it gives. -/
def bind? : Flag → Option String
  | .bind value => some value
  | _ => none

/-- The token it gives. -/
def token? : Flag → Option String
  | .token value => some value
  | _ => none

/-- The OSC port it gives. -/
def oscPort? : Flag → Option Int
  | .oscPort value => some value
  | _ => none

/-- The name it gives. -/
def name? : Flag → Option String
  | .name value => some value
  | _ => none

/-- Whether it refuses OSC. -/
def osc? : Flag → Option Bool
  | .noOsc => some false
  | _ => none

/-- Whether it refuses to advertise. -/
def mdns? : Flag → Option Bool
  | .noMdns => some false
  | _ => none

end Flag

/-- What a command line gives a setting: the last of its flags counts. -/
def lastGiven {α : Type} (gives : Flag → Option α) (flags : List Flag) : Option α :=
  flags.foldl (fun last flag ↦ (gives flag).or last) none

/-- Each setting has the value that was given, or else the file's. -/
structure CommandLineWins (flags : List Flag) (file : AppConfig) (control : Config) : Prop where
  port : control.httpPort = (lastGiven Flag.port? flags).getD file.httpPort
  bind : control.httpBind = (lastGiven Flag.bind? flags).getD file.httpBind
  token : control.httpToken = (lastGiven Flag.token? flags).getD file.httpToken
  oscPort : control.oscPort = (lastGiven Flag.oscPort? flags).getD file.oscPort
  oscBind : control.oscBind = file.oscBind
  name : control.instanceName = (lastGiven Flag.name? flags).getD file.instanceName
  osc : control.oscEnabled = if .noOsc ∈ flags then false else file.oscEnabled
  mdns : control.mdnsEnabled = if .noMdns ∈ flags then false else file.mdnsEnabled

/-- No setting is given the built-in value, unless the file has it too. -/
structure Distinct (flags : List Flag) (file : AppConfig) : Prop where
  port : lastGiven Flag.port? flags = some 7654 → file.httpPort = 7654
  bind : lastGiven Flag.bind? flags = some "127.0.0.1" → file.httpBind = "127.0.0.1"
  token : lastGiven Flag.token? flags = some "" → file.httpToken = ""
  oscPort : lastGiven Flag.oscPort? flags = some 7655 → file.oscPort = 7655
  name : lastGiven Flag.name? flags = some "" → file.instanceName = ""

section Parsed

variable {α : Type} {setting : Config → α} {gives : Flag → Option α}

/-- A setting that each flag gives or leaves has what was last given, or what it had. -/
theorem setting_foldl (h : ∀ c flag, setting (Flag.parse c flag) = (gives flag).getD (setting c))
    (flags : List Flag) {c : Config} {last : Option α} {builtIn : α}
    (hc : setting c = last.getD builtIn) :
    setting (flags.foldl Flag.parse c) =
      (flags.foldl (fun last flag ↦ (gives flag).or last) last).getD builtIn := by
  induction flags generalizing c last with
  | nil => exact hc
  | cons flag flags ih =>
    rw [List.foldl_cons, List.foldl_cons]
    apply ih
    rw [h, hc]
    cases gives flag <;> rfl

/-- What the flags make of a setting. -/
theorem setting_parseFlags
    (h : ∀ c flag, setting (Flag.parse c flag) = (gives flag).getD (setting c))
    (flags : List Flag) :
    setting (parseFlags flags) = (lastGiven gives flags).getD (setting {}) :=
  setting_foldl h flags rfl

/-- A refusal, once given, is the last of its kind. -/
theorem lastGiven_refusal {gives : Flag → Option Bool} (refusal : Flag)
    (h : ∀ flag, gives flag = if flag = refusal then some false else none) (flags : List Flag)
    (last : Option Bool) :
    flags.foldl (fun last flag ↦ (gives flag).or last) last =
      if refusal ∈ flags then some false else last := by
  induction flags generalizing last with
  | nil => rfl
  | cons flag flags ih =>
    rw [List.foldl_cons, ih, h]
    by_cases hflag : flag = refusal
    · rw [if_pos hflag, hflag, if_pos List.mem_cons_self]
      split <;> rfl
    · rw [if_neg hflag, Option.none_or]
      congr 1
      rw [List.mem_cons, eq_iff_iff]
      constructor
      · exact Or.inr
      · rintro (heq | hmem)
        · exact absurd heq.symm hflag
        · exact hmem

end Parsed

section Settings

variable (flags : List Flag)

theorem httpPort_parseFlags :
    (parseFlags flags).httpPort = (lastGiven Flag.port? flags).getD 7654 :=
  setting_parseFlags (fun c flag ↦ by cases flag <;> rfl) flags

theorem httpBind_parseFlags :
    (parseFlags flags).httpBind = (lastGiven Flag.bind? flags).getD "127.0.0.1" :=
  setting_parseFlags (fun c flag ↦ by cases flag <;> rfl) flags

theorem httpToken_parseFlags :
    (parseFlags flags).httpToken = (lastGiven Flag.token? flags).getD "" :=
  setting_parseFlags (fun c flag ↦ by cases flag <;> rfl) flags

theorem oscPort_parseFlags :
    (parseFlags flags).oscPort = (lastGiven Flag.oscPort? flags).getD 7655 :=
  setting_parseFlags (fun c flag ↦ by cases flag <;> rfl) flags

theorem instanceName_parseFlags :
    (parseFlags flags).instanceName = (lastGiven Flag.name? flags).getD "" :=
  setting_parseFlags (fun c flag ↦ by cases flag <;> rfl) flags

theorem oscEnabled_parseFlags :
    (parseFlags flags).oscEnabled = if .noOsc ∈ flags then false else true := by
  have hset : (parseFlags flags).oscEnabled = (lastGiven Flag.osc? flags).getD true :=
    setting_parseFlags (fun c flag ↦ by cases flag <;> rfl) flags
  rw [hset, lastGiven, lastGiven_refusal .noOsc (fun flag ↦ by cases flag <;> rfl)]
  split <;> rfl

theorem mdnsEnabled_parseFlags :
    (parseFlags flags).mdnsEnabled = if .noMdns ∈ flags then false else true := by
  have hset : (parseFlags flags).mdnsEnabled = (lastGiven Flag.mdns? flags).getD true :=
    setting_parseFlags (fun c flag ↦ by cases flag <;> rfl) flags
  rw [hset, lastGiven, lastGiven_refusal .noMdns (fun flag ↦ by cases flag <;> rfl)]
  split <;> rfl

/-- No flag sets the address that OSC is bound to. -/
theorem oscBind_parseFlags : (parseFlags flags).oscBind = "0.0.0.0" := by
  have hkeep (c : Config) : (flags.foldl Flag.parse c).oscBind = c.oscBind := by
    induction flags generalizing c with
    | nil => rfl
    | cons flag flags ih =>
      rw [List.foldl_cons, ih]
      cases flag <;> rfl
  exact hkeep {}

end Settings

/-- What was given is in force unless it is the built-in value and the file has another. -/
theorem orFile_getD_iff {α : Type} [DecidableEq α] (builtIn file : α) (given : Option α) :
    Options.orFile builtIn file (given.getD builtIn) = given.getD file ↔
      (given = some builtIn → file = builtIn) := by
  cases given with
  | none => simp [Options.orFile]
  | some value =>
    rw [Options.orFile, Option.getD_some, Option.getD_some]
    by_cases h : value = builtIn
    · rw [if_pos h, h]
      simp
    · rw [if_neg h]
      simp [h]

/-! ### What is in force -/

/-- With a configuration file, the control surface is the flags' with the file's values filled
in. -/
theorem control_startUp {load : Files} {defaultPath : String} {o started : Options}
    {file : AppConfig} (hpath : o.configPath ≠ "") (hload : load o.configPath = .ok file)
    (h : o.startUp load defaultPath = .ok started) :
    started.control = Options.fillIn o.control file := by
  rw [Options.startUp, if_neg hpath, Options.resolveSources, if_neg hpath] at h
  split at h
  · cases h
  · rw [hload] at h
    dsimp only at h
    split at h
    · cases h
    · cases h
      rfl

/-- Without one, the control surface is the flags'. -/
theorem control_startUp_of_no_config {load : Files} {defaultPath : String} {o : Options}
    (hpath : o.configPath = "") :
    ∃ started, o.startUp load defaultPath = .ok started ∧ started.control = o.control := by
  have hsaved : (o.applySavedSettings load defaultPath).control = o.control ∧
      (o.applySavedSettings load defaultPath).configPath = o.configPath := by
    unfold Options.applySavedSettings
    split
    · exact ⟨rfl, rfl⟩
    · split
      · exact ⟨rfl, rfl⟩
      · split <;> exact ⟨rfl, rfl⟩
  have hpreview (o : Options) :
      o.ensurePreview.control = o.control ∧ o.ensurePreview.configPath = o.configPath := by
    unfold Options.ensurePreview
    split
    · exact ⟨rfl, rfl⟩
    · split <;> exact ⟨rfl, rfl⟩
  obtain ⟨hcontrol, hconfig⟩ := hpreview (o.applySavedSettings load defaultPath)
  rw [Options.startUp, if_pos hpath, Options.resolveSources,
    if_pos (hconfig.trans (hsaved.2.trans hpath))]
  exact ⟨_, rfl, hcontrol.trans hsaved.1⟩

/-- After `resolveSources`, for any control flags and any configuration file, the command line wins
if and only if no setting is given the built-in value, unless the file has it too. -/
theorem commandLineWins_iff (load : Files) (defaultPath : String) (flags : List Flag)
    (o started : Options) (file : AppConfig) (hpath : o.configPath ≠ "")
    (hload : load o.configPath = .ok file) (hcontrol : o.control = parseFlags flags)
    (hstarted : o.startUp load defaultPath = .ok started) :
    CommandLineWins flags file started.control ↔ Distinct flags file := by
  have hforce : started.control = Options.fillIn (parseFlags flags) file := by
    rw [← hcontrol]
    exact control_startUp hpath hload hstarted
  have hport := orFile_getD_iff 7654 file.httpPort (lastGiven Flag.port? flags)
  have hbind := orFile_getD_iff "127.0.0.1" file.httpBind (lastGiven Flag.bind? flags)
  have htoken := orFile_getD_iff "" file.httpToken (lastGiven Flag.token? flags)
  have hoscPort := orFile_getD_iff 7655 file.oscPort (lastGiven Flag.oscPort? flags)
  have hname := orFile_getD_iff "" file.instanceName (lastGiven Flag.name? flags)
  rw [← httpPort_parseFlags] at hport
  rw [← httpBind_parseFlags] at hbind
  rw [← httpToken_parseFlags] at htoken
  rw [← oscPort_parseFlags] at hoscPort
  rw [← instanceName_parseFlags] at hname
  rw [hforce]
  constructor
  · intro h
    constructor
    · exact hport.mp h.port
    · exact hbind.mp h.bind
    · exact htoken.mp h.token
    · exact hoscPort.mp h.oscPort
    · exact hname.mp h.name
  · intro h
    constructor
    · exact hport.mpr h.port
    · exact hbind.mpr h.bind
    · exact htoken.mpr h.token
    · exact hoscPort.mpr h.oscPort
    · show Options.orFile "0.0.0.0" file.oscBind (parseFlags flags).oscBind = file.oscBind
      rw [oscBind_parseFlags]
      exact if_pos rfl
    · exact hname.mpr h.name
    · show ((parseFlags flags).oscEnabled && file.oscEnabled) = _
      rw [oscEnabled_parseFlags]
      split <;> rfl
    · show ((parseFlags flags).mdnsEnabled && file.mdnsEnabled) = _
      rw [mdnsEnabled_parseFlags]
      split <;> rfl

/-- A file with one source, on a port of its own. -/
def portFile : AppConfig where
  sources := [{ id := "main" }]
  httpPort := 9000

/-- A command line with that file and a port. -/
def withPort (port : Int) : Options where
  configPath := "show.json"
  control := parseFlags [.port port]

/-- What it starts. -/
theorem startUp_withPort (port : Int) :
    ∃ started, (withPort port).startUp (fun _ ↦ .ok portFile) "settings.json" = .ok started := by
  rw [Options.startUp, if_neg (by simp [withPort]), Options.resolveSources,
    if_neg (by simp [withPort]), if_neg (by simp [withPort, Options.sourceFlagsGiven])]
  exact ⟨_, rfl⟩

/-- A port that is not the built-in one wins. -/
theorem commandLineWins_withPort : ∃ started,
    (withPort 8000).startUp (fun _ ↦ .ok portFile) "settings.json" = .ok started ∧
      CommandLineWins [.port 8000] portFile started.control := by
  obtain ⟨started, hstarted⟩ := startUp_withPort 8000
  refine ⟨started, hstarted, ?_⟩
  apply (commandLineWins_iff (fun _ ↦ .ok portFile) "settings.json" [.port 8000] (withPort 8000)
    started portFile (by simp [withPort]) rfl rfl hstarted).mpr
  constructor <;> intro h <;> cases h

/-- The built-in port does not: the file's is in force. -/
theorem not_commandLineWins_withPort :
    ¬ ∀ (load : Files) (defaultPath : String) (flags : List Flag) (o started : Options)
      (file : AppConfig), o.configPath ≠ "" → load o.configPath = .ok file →
        o.control = parseFlags flags → o.startUp load defaultPath = .ok started →
          CommandLineWins flags file started.control := by
  intro hall
  obtain ⟨started, hstarted⟩ := startUp_withPort 7654
  have hwins := hall (fun _ ↦ .ok portFile) "settings.json" [.port 7654] (withPort 7654) started
    portFile (by simp [withPort]) rfl rfl hstarted
  have hforce := control_startUp (by simp [withPort]) rfl hstarted
  have hport : started.control.httpPort = 9000 := by rw [hforce]; rfl
  have hgiven : started.control.httpPort = 7654 := hwins.port
  rw [hport] at hgiven
  cases hgiven

end WebLinked.App
