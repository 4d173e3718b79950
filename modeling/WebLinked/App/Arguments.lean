import WebLinked.App.CommandLine
import WebLinked.Base.Int32

/-!
# The arguments of the command line

`parseArguments`; `src/app/main.cpp:281–296,298–639`. The tests of its loop are a table, in their
order; the first that an argument meets says what is done with it. What is printed on an error is
kept as the error.
-/

namespace WebLinked.App.Arguments

open WebLinked.Base WebLinked.Core WebLinked.Core.Json
open WebLinked.Base.NumberText (takeSign isSpace stoi stoi_toString)
open WebLinked.Engine.OutputList
open WebLinked.Browser.BrowserSource (Pacing)
open WebLinked.Engine.Configuration (PopupPolicy)

/-! ## Numbers in arguments -/

/-- An integer at the front of a text, as `strtol` reads it into a `long` and it is stored in an
`int`; none without a digit. -/
def takeInt (text : List Char) : Option (Int × List Char) :=
  let (neg, rest) := takeSign (text.dropWhile isSpace)
  let digits := rest.takeWhile Char.isDigit
  let n : Int := Nat.ofDigitChars 10 digits 0
  let n := if neg then -n else n
  if digits = [] then none
  else some (toInt32 (max (-2 ^ 63) (min (2 ^ 63 - 1) n)), rest.dropWhile Char.isDigit)

/-- `std::atoi`. -/
def atoi (text : String) : Int := ((takeInt text.toList).map Prod.fst).getD 0

/-- `sscanf` with `%dx%d`, where it converts both. -/
def scanSize (text : String) : Option (Int × Int) :=
  match takeInt text.toList with
  | some (w, 'x' :: rest) => (takeInt rest).map fun (h, _) ↦ (w, h)
  | _ => none

/-- `std::to_string`. -/
def toText (n : Int) : String := String.ofList (NumberText.toString n)

/-- What `stoi` accepts, `atoi` reads alike. -/
theorem fst_takeInt {text : List Char} {n : Int} (h : stoi text = some n) :
    (takeInt text).map Prod.fst = some n := by
  unfold stoi at h
  unfold takeInt
  generalize takeSign (text.dropWhile isSpace) = sign at h ⊢
  dsimp only at h ⊢
  have h := Option.ite_none_left_eq_some.mp h
  obtain ⟨⟨hl, hu⟩, hvalue⟩ := Option.ite_none_right_eq_some.mp h.2
  rw [if_neg h.1, Option.map_some]
  have hvalue := Option.some.inj hvalue
  rw [hvalue] at hl hu ⊢
  rw [min_eq_right (by omega), max_eq_right (by omega), toInt32_of_mem ⟨by omega, by omega⟩]

/-- `atoi` reads what `to_string` prints. -/
theorem atoi_toText {n : Int} (hl : -2 ^ 31 ≤ n) (hu : n < 2 ^ 31) : atoi (toText n) = n := by
  rw [atoi, toText, String.toList_ofList, fst_takeInt (stoi_toString hl hu), Option.getD_some]

/-! ## The table -/

/-- `Options`, with what `main` alone reads; `src/app/main.cpp:101`. -/
structure Command extends Options where
  verbose : Bool := false
  cachePath : String := ""
  openControlPage : Bool := false
  wantTray : Bool := true

/-- The options so far, and what waits for the next output. -/
structure Scan extends Command where
  nextAlpha : Bool := false
  nextKeying : String := ""
  nextBitrate : String := ""
  streamIndex : Nat := 0
  nextScaling : String := ""
  nextRotate : String := ""
  nextKmsMode : String := ""
  keyLevel : Int := 255
  nextKeyPremultiplied : Bool := false

/-- `inlineValue`: what follows the first `=`; `src/app/main.cpp:281`. -/
def inlineValue (argument : List Char) : List Char :=
  (argument.dropWhile (· ≠ '=')).drop 1

/-- What an argument is compared with: the whole of it, or its front. -/
inductive Test where
  | equals (word : String)
  | begins (word : String)

/-- The comparison. -/
def Test.holds (argument : List Char) : Test → Bool
  | equals word => argument == word.toList
  | begins word => word.toList.isPrefixOf argument

/-- What is done: stop for `--help`, change the options, change them by a value that may be the next
argument (`needsValue`), or by the argument itself. -/
inductive Body where
  | help
  | switch (set : Scan → Scan)
  | value (set : Scan → String → Except String Scan)
  | «inline» (set : Scan → List Char → Except String Scan)

/-- One `if` of the loop. -/
structure Rule where
  tests : List Test
  body : Body

/-- A flag that stands for itself. -/
def switch (word : String) (set : Scan → Scan) : Rule := ⟨[.equals word], .switch set⟩

/-- A flag with any value. -/
def text (word : String) (set : Scan → String → Scan) : Rule :=
  ⟨[.begins word], .value fun s value ↦ .ok (set s value)⟩

/-- A flag whose value may be refused. -/
def checked (word : String) (set : Scan → String → Except String Scan) : Rule :=
  ⟨[.begins word], .value set⟩

/-- `options.outputs.push_back(spec)` and `given.outputs`. -/
def Scan.push (s : Scan) (spec : OutputSpec) : Scan :=
  { s with outputs := s.outputs ++ [spec], given := { s.given with outputs := true } }

/-- `spec.options.set(key, json::Value(value))` where there is a value. -/
def setText (key value : String) (options : Value) : Value :=
  if value = "" then options else options.set key (.string value)

/-- The source; `src/app/main.cpp:325–374`. -/
def sourceRules : List Rule :=
  [ ⟨[.equals "--help", .equals "-h"], .help⟩,
    text "--url" fun s value ↦ { s with url := value, given := { s.given with url := true } },
    checked "--format" fun s value ↦
      match VideoFormat.parse value with
      | none => .error ("cannot parse format '" ++ value ++ "'")
      | some parsed =>
        .ok { s with format := parsed, given := { s.given with format := true } },
    text "--matrix" fun s value ↦
      { s with
        matrix := if value = "601" then .kBt601 else if value = "709" then .kBt709 else .kAuto
        given := { s.given with matrix := true } },
    text "--pacing" fun s value ↦
      { s with
        pacing := if value = "internal" then .kInternalTimer else .kExternalBeginFrame
        given := { s.given with pacing := true } },
    text "--cache" fun s value ↦ { s with cachePath := value },
    switch "--no-audio" fun s ↦ { s with audio := false },
    switch "--headless" id,
    switch "--verbose" fun s ↦ { s with verbose := true },
    switch "--no-preview" fun s ↦ { s with wantPreview := false } ]

/-- What waits for an output; `src/app/main.cpp:375–429`. -/
def nextRules : List Rule :=
  [ switch "--alpha" fun s ↦ { s with nextAlpha := true },
    switch "--key-premultiplied" fun s ↦ { s with nextKeyPremultiplied := true },
    text "--key-level" fun s value ↦ { s with keyLevel := atoi value },
    ⟨[.begins "--key"], .inline fun s argument ↦
      let mode := String.ofList (inlineValue argument)
      let mode := if mode = "" then "external" else mode
      if mode ≠ "external" ∧ mode ≠ "internal" then
        .error ("--key must be external or internal, not '" ++ mode ++ "'")
      else .ok { s with nextKeying := mode }⟩,
    checked "--scaling" fun s value ↦
      if value ≠ "fit" ∧ value ≠ "fill" ∧ value ≠ "stretch" then
        .error ("--scaling must be fit, fill or stretch, not '" ++ value ++ "'")
      else .ok { s with nextScaling := value },
    checked "--rotate" fun s value ↦
      if value = "0" ∨ value = "90" ∨ value = "180" ∨ value = "270" then
        .ok { s with nextRotate := value }
      else if value = "-90" then .ok { s with nextRotate := "270" }
      else .error ("--rotate must be 0, 90, 180 or 270, not '" ++ value ++ "'"),
    -- before `--kms`, which is a prefix of it
    checked "--kms-mode" fun s value ↦
      match scanSize value with
      | some (w, h) =>
        if w ≤ 0 ∨ h ≤ 0 then
          .error ("--kms-mode must look like 1920x1080 or 1920x1080@60, not '" ++ value ++ "'")
        else .ok { s with nextKmsMode := value }
      | none =>
        .error ("--kms-mode must look like 1920x1080 or 1920x1080@60, not '" ++ value ++ "'") ]

/-- Displays, and what other programs take a picture from; `src/app/main.cpp:430–486`. -/
def displayRules : List Rule :=
  [ ⟨[.equals "--kms", .begins "--kms="], .inline fun s argument ↦
      let card := String.ofList (inlineValue argument)
      let options := setText "mode" s.nextKmsMode
        (setText "scaling" s.nextScaling
          (setText "rotate" s.nextRotate (setText "card" card (.object []))))
      let spec : OutputSpec :=
        { kind := "kms", name := "kms" ++ if card = "" then "0" else card, options }
      .ok { s.push spec with nextRotate := "", nextScaling := "", nextKmsMode := "" }⟩,
    ⟨[.begins "--screen"], .inline fun s argument ↦
      let index := String.ofList (inlineValue argument)
      let display := if index = "" then 0 else atoi index
      let spec : OutputSpec :=
        { kind := "screen", name := "screen" ++ toText display
          options := setText "scaling" s.nextScaling
            ((Value.object []).set "display" (.int display)) }
      .ok { s.push spec with nextScaling := "" }⟩,
    ⟨[.begins "--syphon", .begins "--spout", .begins "--shared"], .inline fun s argument ↦
      let name := String.ofList (inlineValue argument)
      .ok (s.push { kind := "shared", name := if name = "" then "WebLinked" else name })⟩ ]

/-- Settings; `src/app/main.cpp:488–517`. -/
def settingsRules : List Rule :=
  [ switch "--no-osc" fun s ↦ { s with control := { s.control with oscEnabled := false } },
    switch "--no-interactive" fun s ↦
      { s with interactive := false, given := { s.given with interactive := true } },
    switch "--no-settings" fun s ↦ { s with useSavedSettings := false },
    text "--settings" fun s value ↦ { s with settingsPath := value },
    text "--config" fun s value ↦ { s with configPath := value },
    checked "--popups" fun s value ↦
      if value = "block" then
        .ok { s with popupPolicy := .kBlock, given := { s.given with popups := true } }
      else if value = "navigate" then
        .ok { s with popupPolicy := .kNavigateInPlace, given := { s.given with popups := true } }
      else .error ("--popups must be navigate or block, not '" ++ value ++ "'") ]

/-- A stream. Its URL has a key in it, so its name has not; `src/app/main.cpp:535–551`. -/
def Scan.stream (s : Scan) (url : String) : Scan :=
  let spec : OutputSpec :=
    { kind := "stream", name := "stream" ++ toText s.streamIndex
      options := setText "bitrate" s.nextBitrate ((Value.object []).set "url" (.string url)) }
  { s.push spec with nextBitrate := "", streamIndex := s.streamIndex + 1 }

/-- Senders, streams and cards; `src/app/main.cpp:519–574`. -/
def senderRules : List Rule :=
  [ ⟨[.begins "--ndi", .begins "--omt"], .inline fun s argument ↦
      let name := String.ofList (inlineValue argument)
      let spec : OutputSpec :=
        { kind := if (Test.begins "--ndi").holds argument then "ndi" else "omt"
          name := if name = "" then "WebLinked" else name
          options :=
            if s.nextAlpha then (Value.object []).set "alpha" (.bool true) else .object [] }
      .ok { s.push spec with nextAlpha := false }⟩,
    text "--stream" Scan.stream,
    text "--bitrate" fun s value ↦ { s with nextBitrate := value },
    ⟨[.begins "--decklink", .begins "--aja"], .inline fun s argument ↦
      let index := String.ofList (inlineValue argument)
      let kind := if (Test.begins "--decklink").holds argument then "decklink" else "aja"
      let deviceIndex := if index = "" then 0 else atoi index
      let options : Value :=
        if s.nextKeying = "" then .object []
        else (((Value.object []).set "keying" (.string s.nextKeying)).set "key_level"
          (.int s.keyLevel)).set "premultiplied_fill" (.bool s.nextKeyPremultiplied)
      .ok { s.push { kind, name := kind ++ toText deviceIndex, deviceIndex, options } with
        nextKeying := "", nextKeyPremultiplied := false }⟩ ]

/-- What is done with a control flag. -/
def Scan.setControl (flag : String → Flag) (s : Scan) (value : String) : Scan :=
  { s with control := (flag value).parse s.control }

/-- The control surface; `src/app/main.cpp:576–605`. -/
def controlRules : List Rule :=
  [ text "--port" (Scan.setControl fun value ↦ .port (atoi value)),
    text "--bind" (Scan.setControl .bind),
    text "--token" (Scan.setControl .token),
    text "--osc-port" (Scan.setControl fun value ↦ .oscPort (atoi value)),
    switch "--no-mdns" fun s ↦ { s with control := { s.control with mdnsEnabled := false } },
    text "--name" (Scan.setControl .name) ]

/-- The rest; `src/app/main.cpp:607–632`. -/
def lastRules : List Rule :=
  [ switch "--open" fun s ↦ { s with openControlPage := true },
    switch "--no-open" fun s ↦ { s with openControlPage := false },
    switch "--no-tray" fun s ↦ { s with wantTray := false },
    -- CEF reads its own switches from the command line
    ⟨[.begins "--"], .switch id⟩,
    ⟨[.begins "-psn_"], .switch id⟩ ]

/-- The tests of the loop, in order. -/
def rules : List Rule :=
  sourceRules ++ nextRules ++ displayRules ++ settingsRules ++ senderRules ++ controlRules ++
    lastRules

/-! ## The loop -/

/-- What one pass of the loop comes to: an error, `--help`, or on with the next argument, or with
the one after it. -/
inductive Outcome where
  | failed (message : String)
  | exit
  | kept (s : Scan)
  | consumed (s : Scan)

/-- After a value that may be refused. -/
def Outcome.of (next : Scan → Outcome) : Except String Scan → Outcome
  | .error message => .failed message
  | .ok s => next s

/-- What is done, with the next argument if there is one. -/
def Body.take (s : Scan) (argument : String) (next : Option String) : Body → Outcome
  | help => .exit
  | switch set => .kept (set s)
  | «inline» set => .of .kept (set s argument.toList)
  | value set =>
    if inlineValue argument.toList ≠ [] then
      .of .kept (set s (String.ofList (inlineValue argument.toList)))
    else
      match next with
      | some given => .of .consumed (set s given)
      | none => .failed (argument ++ " needs a value")

/-- The first `if` whose test an argument meets. -/
@[irreducible] def ruleOf (argument : List Char) : Option Rule :=
  rules.find? fun rule ↦ rule.tests.any (Test.holds argument)

/-- One pass; `src/app/main.cpp:309–636`. -/
def take (s : Scan) (argument : String) (next : Option String) : Outcome :=
  match ruleOf argument.toList with
  | none => .failed ("unexpected argument '" ++ argument ++ "' (try --help)")
  | some rule => rule.body.take s argument next

/-- What `parseArguments` comes to: the options, and `shouldExit`. -/
structure Parsed where
  scan : Scan
  shouldExit : Bool := false

/-- The loop; `src/app/main.cpp:309–638`. -/
def scan (s : Scan) : List String → Except String Parsed
  | [] => .ok { scan := s }
  | argument :: rest =>
    match take s argument rest.head? with
    | .failed message => .error message
    | .exit => .ok { scan := s, shouldExit := true }
    | .kept s => scan s rest
    | .consumed s =>
      match rest with
      | [] => .ok { scan := s }
      | _ :: rest => scan s rest

/-- What `main` starts from: whether nobody typed anything decides if a browser is opened;
`src/app/main.cpp:289–296,1004–1007`. -/
def initial (arguments : List String) : Command where
  format := (VideoFormat.parse "1080p50").getD {}
  openControlPage :=
    arguments.all fun argument ↦ (Test.begins "-psn_").holds argument.toList

/-- `parseArguments`, on the arguments after the program's name; `src/app/main.cpp:298`. -/
def parseArguments (command : Command) (arguments : List String) : Except String Parsed :=
  scan { command with } arguments

/-! ## One part of the arguments after another -/

/-- Where the next argument is not a value, it is left alone. -/
theorem Outcome.of_kept_ne (r : Except String Scan) (t : Scan) :
    Outcome.of .kept r ≠ .consumed t := by
  cases r with
  | error message => nofun
  | ok s => nofun

/-- What an argument comes to without a next one, it comes to with any. -/
theorem Body.take_next (s : Scan) (argument : String) (next : Option String) (body : Body)
    (h : ∀ message, body.take s argument none ≠ .failed message) :
    body.take s argument next = body.take s argument none ∧
      ∀ t, body.take s argument none ≠ .consumed t := by
  cases body with
  | help => simp only [Body.take, ne_eq, reduceCtorEq, not_false_eq_true, implies_true, and_self]
  | switch set =>
    simp only [Body.take, ne_eq, reduceCtorEq, not_false_eq_true, implies_true, and_self]
  | «inline» set => exact ⟨rfl, Outcome.of_kept_ne (set s argument.toList)⟩
  | value set =>
    simp only [Body.take] at h ⊢
    by_cases hvalue : inlineValue argument.toList ≠ []
    · rw [if_pos hvalue, if_pos hvalue]
      exact ⟨rfl, fun t ↦ Outcome.of_kept_ne _ t⟩
    · rw [if_neg hvalue] at h
      exact absurd rfl (h _)

/-- What an argument comes to without a next one, it comes to with any. -/
theorem take_next (s : Scan) (argument : String) (next : Option String)
    (h : ∀ message, take s argument none ≠ .failed message) :
    take s argument next = take s argument none ∧ ∀ t, take s argument none ≠ .consumed t := by
  unfold take at h ⊢
  cases hrule : ruleOf argument.toList with
  | none =>
    rw [hrule] at h
    exact absurd rfl (h _)
  | some rule =>
    rw [hrule] at h
    exact rule.body.take_next s argument next h

/-- What is accepted on its own is read alike in front of anything. -/
theorem scan_append {s : Scan} {xs : List String} {p : Parsed} (h : scan s xs = .ok p)
    (hgo : p.shouldExit = false) (ys : List String) : scan s (xs ++ ys) = scan p.scan ys := by
  induction s, xs using scan.induct with
  | case1 s =>
    cases h
    rfl
  | case2 s argument rest message htake =>
    rw [scan, htake] at h
    cases h
  | case3 s argument rest htake =>
    rw [scan, htake] at h
    cases h
    cases hgo
  | case4 s argument rest t htake ih =>
    rw [scan, htake] at h
    have hsame : take s argument (rest ++ ys).head? = .kept t := by
      cases rest with
      | nil =>
        rw [List.head?_nil] at htake
        rw [(take_next s argument _ fun message hfail ↦ by rw [htake] at hfail; cases hfail).1]
        exact htake
      | cons next rest => exact htake
    rw [List.cons_append, scan, hsame]
    exact ih h
  | case5 s argument t htake =>
    -- without a next argument none is consumed
    have hnone := take_next s argument none fun message hfail ↦ by
      rw [List.head?_nil, hfail] at htake
      cases htake
    exact absurd htake (hnone.2 t)
  | case6 s argument t next rest htake ih =>
    rw [scan, htake] at h
    rw [List.head?_cons] at htake
    rw [List.cons_append, List.cons_append, scan, List.head?_cons, htake]
    exact ih h

/-! ## Flags with a value -/

/-- A flag and its value, as two arguments, or as one where it is asked for and there is a value
to put into it. -/
def spell (word value : String) (oneWord : Bool) : List String :=
  if oneWord ∧ value ≠ "" then [word ++ "=" ++ value] else [word, value]

/-- Either way the flag is set to the value. -/
theorem scan_spell {word : String} {set : Scan → String → Except String Scan}
    (hrule : ∀ tail, ruleOf (word.toList ++ tail) = some (checked word set))
    (hword : '=' ∉ word.toList) (s : Scan) (value : String) (oneWord : Bool)
    (rest : List String) :
    scan s (spell word value oneWord ++ rest) = (set s value).bind fun t ↦ scan t rest := by
  have hno : ∀ c ∈ word.toList, decide (c ≠ '=') = true := by
    intro c hc
    apply decide_eq_true
    intro heq
    exact hword (heq ▸ hc)
  rw [spell]
  split
  · next h =>
    have htext : (word ++ "=" ++ value).toList = word.toList ++ '=' :: value.toList := by
      simp
    have hinline : inlineValue (word.toList ++ '=' :: value.toList) = value.toList := by
      rw [inlineValue, List.dropWhile_append_of_pos hno]
      rfl
    have hvalue : value.toList ≠ [] := by simpa using h.2
    rw [List.singleton_append, scan, take, htext, hrule]
    simp only [checked, Body.take, htext, hinline]
    rw [if_pos hvalue, String.ofList_toList]
    cases set s value <;> rfl
  · have hinline : inlineValue word.toList = [] := by
      rw [inlineValue, List.dropWhile_eq_nil_iff.mpr hno]
      rfl
    have hself := hrule []
    rw [List.append_nil] at hself
    rw [List.cons_append, scan, List.singleton_append, List.head?_cons, take, hself]
    simp only [checked, Body.take, hinline, ne_eq, not_true_eq_false, if_false]
    cases set s value <;> rfl

/-- A control flag as it is typed. -/
def spellFlag (oneWord : Bool) : Flag → List String
  | .port value => spell "--port" (toText value) oneWord
  | .bind value => spell "--bind" value oneWord
  | .token value => spell "--token" value oneWord
  | .oscPort value => spell "--osc-port" (toText value) oneWord
  | .name value => spell "--name" value oneWord
  | .noOsc => ["--no-osc"]
  | .noMdns => ["--no-mdns"]

/-- Its number is an `int`. -/
def Fits : Flag → Prop
  | .port value => InInt32 value
  | .oscPort value => InInt32 value
  | _ => True

/-- The options after a control flag. -/
def Scan.afterFlag (s : Scan) (flag : Flag) : Scan := { s with control := flag.parse s.control }

/-- A flag with a value of any kind. -/
theorem scan_text (word : String) {set : Scan → String → Scan}
    (hrule : ∀ tail, ruleOf (word.toList ++ tail) = some (text word set))
    (hword : '=' ∉ word.toList) (s : Scan) (value : String) (oneWord : Bool)
    (rest : List String) :
    scan s (spell word value oneWord ++ rest) = scan (set s value) rest :=
  @scan_spell word (fun s value ↦ .ok (set s value)) hrule hword s value oneWord rest

/-- A flag that stands for itself. -/
theorem scan_switch (word : String) {set : Scan → Scan}
    (hrule : ruleOf word.toList = some (switch word set)) (s : Scan) (rest : List String) :
    scan s (word :: rest) = scan (set s) rest := by
  rw [scan, take, hrule]
  rfl

/-- A control flag does to the options what it stands for, in either spelling. -/
theorem scan_spellFlag (s : Scan) {flag : Flag} (hfits : Fits flag) (oneWord : Bool)
    (rest : List String) :
    scan s (spellFlag oneWord flag ++ rest) = scan (s.afterFlag flag) rest := by
  cases flag with
  | port value =>
    have h := scan_text "--port" (fun tail ↦ by unfold ruleOf; rfl) (by decide) s
      (toText value) oneWord rest
    rw [spellFlag, h, Scan.setControl, atoi_toText hfits.1 (by have := hfits.2; omega)]
    rfl
  | oscPort value =>
    have h := scan_text "--osc-port" (fun tail ↦ by unfold ruleOf; rfl) (by decide) s
      (toText value) oneWord rest
    rw [spellFlag, h, Scan.setControl, atoi_toText hfits.1 (by have := hfits.2; omega)]
    rfl
  | bind value =>
    exact scan_text "--bind" (fun tail ↦ by unfold ruleOf; rfl) (by decide) s value
      oneWord rest
  | token value =>
    exact scan_text "--token" (fun tail ↦ by unfold ruleOf; rfl) (by decide) s value
      oneWord rest
  | name value =>
    exact scan_text "--name" (fun tail ↦ by unfold ruleOf; rfl) (by decide) s value
      oneWord rest
  | noOsc => exact scan_switch "--no-osc" (by unfold ruleOf; rfl) s rest
  | noMdns => exact scan_switch "--no-mdns" (by unfold ruleOf; rfl) s rest

/-- So do any number of them. -/
theorem scan_spellFlags (flags : List (Flag × Bool)) (hfits : ∀ f ∈ flags, Fits f.1) (s : Scan)
    (rest : List String) :
    scan s (flags.flatMap (fun f ↦ spellFlag f.2 f.1) ++ rest) =
      scan { s with control := (flags.map Prod.fst).foldl Flag.parse s.control } rest := by
  induction flags generalizing s with
  | nil => rfl
  | cons f flags ih =>
    rw [List.flatMap_cons, List.append_assoc, scan_spellFlag s (hfits f List.mem_cons_self),
      ih fun g hg ↦ hfits g (List.mem_cons_of_mem _ hg)]
    rfl

/-- Control flags typed in any spelling, before and after `--config`: what is started has the
file's sources, and its control surface is that of the flags with the file's values filled in. -/
theorem startUp_arguments (load : Files) (defaultPath path : String) (file : AppConfig)
    (before after : List (Flag × Bool)) (hpath : path ≠ "") (hload : load path = .ok file)
    (hsources : file.sources ≠ []) (hfits : ∀ f ∈ before ++ after, Fits f.1) :
    ∃ p started, parseArguments {}
        (before.flatMap (fun f ↦ spellFlag f.2 f.1) ++ (["--config", path] ++
          after.flatMap (fun f ↦ spellFlag f.2 f.1))) = .ok p ∧
      p.shouldExit = false ∧ p.scan.startUp load defaultPath = .ok started ∧
      started.control = Options.fillIn (parseFlags ((before ++ after).map Prod.fst)) file ∧
      started.sources.sources = file.sources.map SourceConfig.ensurePreview := by
  have hconfig (s : Scan) (rest : List String) :
      scan s (["--config", path] ++ rest) = scan { s with configPath := path } rest := by
    have h := scan_text "--config" (fun tail ↦ by unfold ruleOf; rfl) (by decide) s
      path false rest
    exact h
  have hafter (s : Scan) : scan s (after.flatMap fun f ↦ spellFlag f.2 f.1) =
      .ok { scan := { s with control := (after.map Prod.fst).foldl Flag.parse s.control } } := by
    have h := scan_spellFlags after (fun f hf ↦ hfits f (List.mem_append_right _ hf)) s []
    rw [List.append_nil] at h
    rw [h, scan]
  have hparsed : (List.map Prod.fst after).foldl Flag.parse
      ((List.map Prod.fst before).foldl Flag.parse {}) =
      parseFlags ((before ++ after).map Prod.fst) := by
    rw [parseFlags, List.map_append, List.foldl_append]
  let o : Scan := { configPath := path, control := parseFlags ((before ++ after).map Prod.fst) }
  have hscan : parseArguments {}
      (before.flatMap (fun f ↦ spellFlag f.2 f.1) ++ (["--config", path] ++
        after.flatMap (fun f ↦ spellFlag f.2 f.1))) = .ok { scan := o } := by
    rw [parseArguments, scan_spellFlags before (fun f hf ↦ hfits f (List.mem_append_left _ hf)),
      hconfig, hafter, hparsed]
  have hstart : o.startUp load defaultPath = .ok { o.toOptions with
      sources := { file with sources := file.sources.map SourceConfig.ensurePreview }
      control := Options.fillIn o.control file } := by
    have hgiven : ¬ o.toOptions.sourceFlagsGiven = true := Bool.false_ne_true
    rw [Options.startUp, if_neg hpath, Options.resolveSources, if_neg hpath, if_neg hgiven]
    dsimp only
    rw [hload]
    dsimp only
    rw [if_neg hsources, if_pos rfl]
  exact ⟨_, _, hscan, rfl, hstart, rfl, rfl⟩

/-- A port in front of the file and OSC refused behind it. -/
theorem startUp_arguments_port :
    ∃ p started, parseArguments {}
        ([(Flag.port 8000, true)].flatMap (fun f ↦ spellFlag f.2 f.1) ++
          (["--config", "show.json"] ++
            [(Flag.noOsc, false)].flatMap (fun f ↦ spellFlag f.2 f.1))) = .ok p ∧
      p.shouldExit = false ∧ p.scan.startUp (fun _ ↦ .ok portFile) "settings.json" = .ok started ∧
      started.control = Options.fillIn (parseFlags [.port 8000, .noOsc]) portFile ∧
      started.sources.sources = portFile.sources.map SourceConfig.ensurePreview :=
  startUp_arguments (fun _ ↦ .ok portFile) "settings.json" "show.json" portFile
    [(.port 8000, true)] [(.noOsc, false)] (by decide) rfl (by simp [portFile])
    (by simp [Fits, InInt32])

/-! ## Stream keys -/

/-- An output, its URL left out if it is a stream. -/
def hide (o : OutputSpec) : OutputSpec :=
  if o.kind = "stream" then { o with options := o.options.set "url" (.string "") } else o

/-- The options, the streams' URLs left out. -/
def Scan.withoutUrls (s : Scan) : Scan := { s with outputs := s.outputs.map hide }

/-- Outcomes of one pass that differ in the streams' URLs alone. -/
inductive Outcome.Alike : Outcome → Outcome → Prop where
  | failed (message : String) : Alike (.failed message) (.failed message)
  | exit : Alike .exit .exit
  | kept {s t : Scan} (h : s.withoutUrls = t.withoutUrls) : Alike (.kept s) (.kept t)
  | consumed {s t : Scan} (h : s.withoutUrls = t.withoutUrls) : Alike (.consumed s) (.consumed t)

/-- What `parseArguments` comes to, the streams' URLs left out. -/
def Parsed.withoutUrls (p : Parsed) : Parsed := { p with scan := p.scan.withoutUrls }

/-- What is left out is left out once. -/
theorem hide_hide (o : OutputSpec) : hide (hide o) = hide o := by
  unfold hide
  by_cases h : o.kind = "stream"
  · rw [if_pos h]
    dsimp only
    rw [if_pos h, Value.set, Value.set, Value.members, Value.setMember_setMember]
  · rw [if_neg h, if_neg h]

/-- What is left out is left out once. -/
theorem withoutUrls_withoutUrls (s : Scan) : s.withoutUrls.withoutUrls = s.withoutUrls := by
  have hmap : (s.outputs.map hide).map hide = s.outputs.map hide := by
    rw [List.map_map]
    exact List.map_congr_left fun o _ ↦ hide_hide o
  exact congrArg (fun outputs ↦ { s with outputs : Scan }) hmap

/-- An output is added to what is seen of the others. -/
theorem withoutUrls_push (s : Scan) (o : OutputSpec) :
    (s.push o).withoutUrls = (s.withoutUrls.push o).withoutUrls := by
  have hmap : (s.outputs ++ [o]).map hide = (s.outputs.map hide ++ [o]).map hide := by
    rw [List.map_append, List.map_append, List.map_map]
    congr 1
    exact List.map_congr_left fun o _ ↦ (hide_hide o).symm
  exact congrArg
    (fun outputs ↦ { s with outputs, given := { s.given with outputs := true } : Scan }) hmap

/-- What is done with an argument does not depend on the streams' URLs. -/
def Body.Blind : Body → Prop
  | help => True
  | switch set => ∀ s, (set s).withoutUrls = (set s.withoutUrls).withoutUrls
  | value set => ∀ s given,
      (set s given).map Scan.withoutUrls = (set s.withoutUrls given).map Scan.withoutUrls
  | «inline» set => ∀ s argument,
      (set s argument).map Scan.withoutUrls = (set s.withoutUrls argument).map Scan.withoutUrls

/-- Where the outputs are not looked at. -/
theorem switch_blind {word : String} {set : Scan → Scan}
    (h : ∀ s, set s.withoutUrls = (set s).withoutUrls) : (switch word set).body.Blind := by
  intro s
  rw [h, withoutUrls_withoutUrls]

/-- Where the outputs are not looked at. -/
theorem checked_blind {word : String} {set : Scan → String → Except String Scan}
    (h : ∀ s given, set s.withoutUrls given = (set s given).map Scan.withoutUrls) :
    (checked word set).body.Blind := by
  intro s given
  rw [h]
  cases set s given with
  | error message => rfl
  | ok t => exact congrArg Except.ok (withoutUrls_withoutUrls t).symm

/-- Where the outputs are not looked at. -/
theorem text_blind {word : String} {set : Scan → String → Scan}
    (h : ∀ s given, set s.withoutUrls given = (set s given).withoutUrls) :
    (text word set).body.Blind :=
  @checked_blind word _ fun s given ↦ congrArg Except.ok (h s given)

theorem sourceRules_blind : ∀ rule ∈ sourceRules, rule.body.Blind := by
  simp only [sourceRules, List.forall_mem_cons]
  refine ⟨trivial, text_blind fun _ _ ↦ rfl, checked_blind fun s given ↦ ?_,
    text_blind fun _ _ ↦ rfl, text_blind fun _ _ ↦ rfl, text_blind fun _ _ ↦ rfl,
    switch_blind fun _ ↦ rfl, switch_blind fun _ ↦ rfl, switch_blind fun _ ↦ rfl,
    switch_blind fun _ ↦ rfl, List.forall_mem_nil _⟩
  cases VideoFormat.parse given <;> rfl

theorem nextRules_blind : ∀ rule ∈ nextRules, rule.body.Blind := by
  simp only [nextRules, List.forall_mem_cons]
  refine ⟨switch_blind fun _ ↦ rfl, switch_blind fun _ ↦ rfl, text_blind fun _ _ ↦ rfl,
    fun s argument ↦ ?_, checked_blind fun s given ↦ ?_, checked_blind fun s given ↦ ?_,
    checked_blind fun s given ↦ ?_, List.forall_mem_nil _⟩
  · dsimp only
    generalize (if String.ofList (inlineValue argument) = "" then _ else _) = mode
    split
    · rfl
    · exact congrArg Except.ok (withoutUrls_withoutUrls { s with nextKeying := mode }).symm
  · split <;> rfl
  · split
    · rfl
    · split <;> rfl
  · cases scanSize given with
    | none => rfl
    | some size =>
      dsimp only
      split <;> rfl

/-- An output is added, and what waited for it is used up. -/
theorem push_blind (s : Scan) (o : OutputSpec) (use : Scan → Scan)
    (h : ∀ s, (use s).withoutUrls = use s.withoutUrls) :
    (use (s.push o)).withoutUrls = (use (s.withoutUrls.push o)).withoutUrls := by
  rw [h, withoutUrls_push, ← h]

theorem displayRules_blind : ∀ rule ∈ displayRules, rule.body.Blind := by
  simp only [displayRules, List.forall_mem_cons]
  refine ⟨fun s argument ↦ ?_, fun s argument ↦ ?_, fun s argument ↦ ?_, List.forall_mem_nil _⟩
  · exact congrArg Except.ok (push_blind s _
      (fun s ↦ { s with nextRotate := "", nextScaling := "", nextKmsMode := "" }) fun _ ↦ rfl)
  · exact congrArg Except.ok (push_blind s _ (fun s ↦ { s with nextScaling := "" }) fun _ ↦ rfl)
  · exact congrArg Except.ok (withoutUrls_push s _)

theorem settingsRules_blind : ∀ rule ∈ settingsRules, rule.body.Blind := by
  simp only [settingsRules, List.forall_mem_cons]
  refine ⟨switch_blind fun _ ↦ rfl, switch_blind fun _ ↦ rfl, switch_blind fun _ ↦ rfl,
    text_blind fun _ _ ↦ rfl, text_blind fun _ _ ↦ rfl, checked_blind fun s given ↦ ?_,
    List.forall_mem_nil _⟩
  split
  · rfl
  · split <;> rfl

theorem senderRules_blind : ∀ rule ∈ senderRules, rule.body.Blind := by
  simp only [senderRules, List.forall_mem_cons]
  refine ⟨fun s argument ↦ ?_, fun s given ↦ ?_, text_blind fun _ _ ↦ rfl,
    fun s argument ↦ ?_, List.forall_mem_nil _⟩
  · exact congrArg Except.ok (push_blind s _ (fun s ↦ { s with nextAlpha := false }) fun _ ↦ rfl)
  · exact congrArg Except.ok (push_blind s _
      (fun t ↦ { t with nextBitrate := "", streamIndex := s.streamIndex + 1 }) fun _ ↦ rfl)
  · exact congrArg Except.ok (push_blind s _
      (fun s ↦ { s with nextKeying := "", nextKeyPremultiplied := false }) fun _ ↦ rfl)

theorem controlRules_blind : ∀ rule ∈ controlRules, rule.body.Blind := by
  simp only [controlRules, List.forall_mem_cons]
  exact ⟨text_blind fun _ _ ↦ rfl, text_blind fun _ _ ↦ rfl, text_blind fun _ _ ↦ rfl,
    text_blind fun _ _ ↦ rfl, switch_blind fun _ ↦ rfl, text_blind fun _ _ ↦ rfl,
    List.forall_mem_nil _⟩

theorem lastRules_blind : ∀ rule ∈ lastRules, rule.body.Blind := by
  simp only [lastRules, List.forall_mem_cons]
  exact ⟨switch_blind fun _ ↦ rfl, switch_blind fun _ ↦ rfl, switch_blind fun _ ↦ rfl,
    @switch_blind "--" _ fun _ ↦ rfl, @switch_blind "-psn_" _ fun _ ↦ rfl,
    List.forall_mem_nil _⟩

/-- No test of the loop looks at the streams' URLs. -/
theorem rules_blind : ∀ rule ∈ rules, rule.body.Blind := by
  intro rule hrule
  simp only [rules, List.mem_append] at hrule
  rcases hrule with (((((h | h) | h) | h) | h) | h) | h
  · exact sourceRules_blind rule h
  · exact nextRules_blind rule h
  · exact displayRules_blind rule h
  · exact settingsRules_blind rule h
  · exact senderRules_blind rule h
  · exact controlRules_blind rule h
  · exact lastRules_blind rule h

/-- What is done with a value, refused or not. -/
theorem Outcome.alike_of {next : Scan → Outcome}
    (hnext : ∀ s t, s.withoutUrls = t.withoutUrls → Alike (next s) (next t))
    {r r' : Except String Scan} (h : r.map Scan.withoutUrls = r'.map Scan.withoutUrls) :
    Alike (Outcome.of next r) (Outcome.of next r') := by
  cases r with
  | error message =>
    cases r' with
    | error message' =>
      cases h
      exact .failed message
    | ok t => cases h
  | ok s =>
    cases r' with
    | error message' => cases h
    | ok t => exact hnext s t (Except.ok.inj h)

/-- What is done with an argument, from options that differ in the streams' URLs alone. -/
theorem Body.Blind.alike {body : Body} (h : body.Blind) {s t : Scan}
    (hst : s.withoutUrls = t.withoutUrls) (argument : String) (next : Option String) :
    (body.take s argument next).Alike (body.take t argument next) := by
  cases body with
  | help => exact .exit
  | switch set =>
    apply Outcome.Alike.kept
    rw [h s, h t, hst]
  | «inline» set =>
    apply Outcome.alike_of fun _ _ ↦ .kept
    rw [h s, h t, hst]
  | value set =>
    have hset (given : String) :
        (set s given).map Scan.withoutUrls = (set t given).map Scan.withoutUrls := by
      rw [h s, h t, hst]
    simp only [Body.take]
    split
    · exact Outcome.alike_of (fun _ _ ↦ .kept) (hset _)
    · cases next with
      | none => exact .failed _
      | some given => exact Outcome.alike_of (fun _ _ ↦ .consumed) (hset given)

/-- One pass, from options that differ in the streams' URLs alone. -/
theorem take_alike {s t : Scan} (hst : s.withoutUrls = t.withoutUrls) (argument : String)
    (next : Option String) : (take s argument next).Alike (take t argument next) := by
  unfold take
  cases hrule : ruleOf argument.toList with
  | none => exact .failed _
  | some rule =>
    have hblind : rule.body.Blind := by
      apply rules_blind
      rw [ruleOf] at hrule
      exact List.mem_of_find?_eq_some hrule
    exact hblind.alike hst argument next

/-- The loop, from options that differ in the streams' URLs alone. -/
theorem scan_withoutUrls {s t : Scan} (hst : s.withoutUrls = t.withoutUrls) (xs : List String) :
    (scan s xs).map Parsed.withoutUrls = (scan t xs).map Parsed.withoutUrls := by
  have hparsed {s t : Scan} (h : s.withoutUrls = t.withoutUrls) (shouldExit : Bool) :
      Parsed.withoutUrls ⟨s, shouldExit⟩ = Parsed.withoutUrls ⟨t, shouldExit⟩ :=
    congrArg (Parsed.mk · shouldExit) h
  induction s, xs using scan.induct generalizing t with
  | case1 s => exact congrArg Except.ok (hparsed hst false)
  | case2 s argument rest message htake =>
    have h := take_alike hst argument rest.head?
    rw [scan, scan, htake]
    rw [htake] at h
    generalize take t argument rest.head? = o at h ⊢
    cases h
    rfl
  | case3 s argument rest htake =>
    have h := take_alike hst argument rest.head?
    rw [scan, scan, htake]
    rw [htake] at h
    generalize take t argument rest.head? = o at h ⊢
    cases h
    exact congrArg Except.ok (hparsed hst true)
  | case4 s argument rest u htake ih =>
    have h := take_alike hst argument rest.head?
    rw [scan, scan, htake]
    rw [htake] at h
    generalize take t argument rest.head? = o at h ⊢
    cases h with
    | kept h => exact ih h
  | case5 s argument u htake =>
    have h := take_alike hst argument ([] : List String).head?
    rw [scan, scan, htake]
    rw [htake] at h
    generalize take t argument ([] : List String).head? = o at h ⊢
    cases h with
    | consumed h => exact congrArg Except.ok (hparsed h false)
  | case6 s argument u next rest htake ih =>
    have h := take_alike hst argument (next :: rest).head?
    rw [scan, scan, htake]
    rw [htake] at h
    generalize take t argument (next :: rest).head? = o at h ⊢
    cases h with
    | consumed h => exact ih h

/-- Nothing of a stream's URL gets into what is printed or into the options, but for that stream's
own: the arguments around `--stream` are read alike whatever it is. -/
theorem parseArguments_stream (command : Command) (xs ys : List String) {p : Parsed}
    (hxs : parseArguments command xs = .ok p) (hgo : p.shouldExit = false) (url url' : String)
    (oneWord oneWord' : Bool) :
    (parseArguments command (xs ++ (spell "--stream" url oneWord ++ ys))).map
        Parsed.withoutUrls =
      (parseArguments command (xs ++ (spell "--stream" url' oneWord' ++ ys))).map
        Parsed.withoutUrls := by
  have hrule (tail : List Char) :
      ruleOf ("--stream".toList ++ tail) = some (text "--stream" Scan.stream) := by
    unfold ruleOf
    rfl
  have hoptions (bitrate : String) : (setText "bitrate" bitrate
      ((Value.object []).set "url" (.string url))).set "url" (.string "") =
        (setText "bitrate" bitrate
          ((Value.object []).set "url" (.string url'))).set "url" (.string "") := by
    unfold setText
    split <;> rfl
  rw [parseArguments] at hxs
  rw [parseArguments, parseArguments, scan_append hxs hgo, scan_append hxs hgo,
    scan_text "--stream" hrule (by decide), scan_text "--stream" hrule (by decide)]
  apply scan_withoutUrls
  simp only [Scan.stream, Scan.withoutUrls, Scan.push, List.map_append, List.map_cons, hide,
    if_true, hoptions]

/-- A stream with a bit rate of its own behind a sender, one URL or another. -/
theorem parseArguments_stream_key :
    (parseArguments {} (["--ndi=Out"] ++ (spell "--stream" "rtmp://a/secret" true ++
        ["--no-audio"]))).map Parsed.withoutUrls =
      (parseArguments {} (["--ndi=Out"] ++ (spell "--stream" "rtmp://b/other" false ++
        ["--no-audio"]))).map Parsed.withoutUrls := by
  obtain ⟨p, hp, hgo⟩ : ∃ p, parseArguments {} ["--ndi=Out"] = .ok p ∧ p.shouldExit = false := by
    rw [parseArguments, scan, take, ruleOf]
    exact ⟨_, rfl, rfl⟩
  exact parseArguments_stream {} ["--ndi=Out"] ["--no-audio"] hp hgo _ _ _ _

end WebLinked.App.Arguments
