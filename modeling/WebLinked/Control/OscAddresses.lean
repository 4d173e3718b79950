import Mathlib
import WebLinked.Control.OscServer
import WebLinked.Core.FormatText
import WebLinked.Core.SourceTable

/-!
# What an OSC address does

`src/control/control_api.cpp:944–1054`. An address is the prefix, a slash and a path, which names a
verb and the source it is for. The slash is taken off if it is there: the path may follow the prefix
at once.
-/

namespace WebLinked.Control.Osc

open WebLinked.Core WebLinked.Core.SourceTable

/-- `'/'`. -/
def slash : UInt8 := 47

namespace Message

/-- `firstString`; `src/control/osc_server.h:36`. -/
def firstString (message : Message) : Bytes := message.stringArgs.headD []

/-- A float that is not zero of either sign. -/
def isNonZero (bits : BitVec 32) : Bool := bits.toNat % 2147483648 ≠ 0

/-- `firstBool`; `src/control/osc_server.h:42`. -/
def firstBool (message : Message) (fallback : Bool) : Bool :=
  match message.intArgs, message.floatArgs with
  | value :: _, _ => value ≠ 0
  | [], bits :: _ => isNonZero bits
  | [], [] => fallback

end Message

/-- What an engine is asked to do. -/
inductive EngineCall where
  | setUrl (url : Bytes)
  | reload (ignoreCache : Bool)
  | runScript (script : Bytes)
  | setAudioMuted (muted : Bool)
  | setFormat (format : VideoFormat)
  | setOutputEnabled (name : Bytes) (enabled : Bool)
  deriving DecidableEq

/-- The sources when a message comes: the first one's id, which is empty if there is none, and
whether the table lets a caller in to one. -/
structure Sources where
  primaryId : Bytes
  withSource : Bytes → Access

/-- `VideoFormat::parse` of an argument. -/
def parseFormat (text : Bytes) : Option VideoFormat :=
  VideoFormat.parse (String.ofList (text.map fun b ↦ Char.ofNat b.toNat))

/-- `handleOscForSource`; `src/control/control_api.cpp:996`. -/
def handleOscForSource (action : Bytes) (message : Message) : Option EngineCall :=
  if action = ascii "url" then
    let url := message.firstString
    if url ≠ [] then some (.setUrl url) else none
  else if action = ascii "reload" then some (.reload (message.firstBool false))
  else if action = ascii "script" then
    let script := message.firstString
    if script ≠ [] then some (.runScript script) else none
  else if action = ascii "mute" then some (.setAudioMuted (message.firstBool true))
  else if action = ascii "format" then (parseFormat message.firstString).map .setFormat
  else if (ascii "output/").isPrefixOf action then
    let name := action.drop (ascii "output/").length
    if name = [] then none else some (.setOutputEnabled name (message.firstBool true))
  else none

/-- What stands behind the prefix, and behind a slash if one follows it;
`src/control/control_api.cpp:945–951`. -/
def oscAction (oscPrefix address : Bytes) : Option Bytes :=
  if oscPrefix.isPrefixOf address then
    let action := address.drop oscPrefix.length
    some (if action.head? = some slash then action.tail else action)
  else none

/-- The source an action is for, and the action without it;
`src/control/control_api.cpp:959–974`. -/
def oscTarget (primaryId action : Bytes) : Option (Bytes × Bytes) :=
  if (ascii "source/").isPrefixOf action then
    let rest := action.drop (ascii "source/").length
    let id := rest.takeWhile (· ≠ slash)
    if id.length = rest.length ∨ id = [] then none
    else some (id, rest.drop (id.length + 1))
  else some (primaryId, action)

/-- `handleOsc`: the call a message leads to and the source it is made on;
`src/control/control_api.cpp:944`. -/
def handleOsc (oscPrefix : Bytes) (sources : Sources) (message : Message) :
    Option (Bytes × EngineCall) :=
  (oscAction oscPrefix message.address).bind fun action ↦
    (oscTarget sources.primaryId action).bind fun (target, action) ↦
      if target = [] then none
      else if sources.withSource target = .kDone then
        (handleOscForSource action message).map fun call ↦ (target, call)
      else none

/-! ### What the documentation says -/

/-- A verb, and of `output` the output's name. -/
inductive Verb where
  | url
  | reload
  | script
  | mute
  | format
  | output (name : { name : Bytes // name ≠ [] })

namespace Verb

/-- How it is written. -/
def text : Verb → Bytes
  | url => ascii "url"
  | reload => ascii "reload"
  | script => ascii "script"
  | mute => ascii "mute"
  | format => ascii "format"
  | output name => ascii "output/" ++ name.val

/-- What it asks of a source, with the arguments of a message: a page, a script or a format must be
there, and a format must be one. -/
def call (message : Message) : Verb → Option EngineCall
  | url => if message.firstString = [] then none else some (.setUrl message.firstString)
  | reload => some (.reload (message.firstBool false))
  | script => if message.firstString = [] then none else some (.runScript message.firstString)
  | mute => some (.setAudioMuted (message.firstBool true))
  | format => (parseFormat message.firstString).map .setFormat
  | output name => some (.setOutputEnabled name.val (message.firstBool true))

end Verb

/-- A path names a verb of the primary source, or of the one whose id it gives. -/
inductive Names (primaryId : Bytes) : Bytes → Bytes → Verb → Prop where
  | primary (verb : Verb) : Names primaryId verb.text primaryId verb
  | source (id : Bytes) (verb : Verb) (nonempty : id ≠ []) (whole : slash ∉ id) :
      Names primaryId (ascii "source/" ++ (id ++ slash :: verb.text)) id verb

/-- An address that is documented, with what it is documented to do. -/
def Documented (oscPrefix primaryId address target : Bytes) (verb : Verb) : Prop :=
  ∃ path, Names primaryId path target verb ∧ address = oscPrefix ++ slash :: path

/-- A source that can be called. -/
def Sources.Runs (sources : Sources) (id : Bytes) : Prop :=
  id ≠ [] ∧ sources.withSource id = .kDone

/-- A message does what its address is documented to do, and nothing if it is not. -/
def ActsAsDocumented (oscPrefix : Bytes) (sources : Sources) (message : Message) : Prop :=
  ∀ target call, handleOsc oscPrefix sources message = some (target, call) ↔
    ∃ verb, Documented oscPrefix sources.primaryId message.address target verb ∧
      sources.Runs target ∧ verb.call message = some call

/-- The address is the prefix with a path right behind it, and the message has what the path's verb
needs. -/
def RunTogether (oscPrefix : Bytes) (sources : Sources) (message : Message) : Prop :=
  ∃ path target verb call, Names sources.primaryId path target verb ∧
    message.address = oscPrefix ++ path ∧ sources.Runs target ∧ verb.call message = some call

/-! ### Verbs -/

theorem ascii_url : ascii "url" = [117, 114, 108] := by decide
theorem ascii_reload : ascii "reload" = [114, 101, 108, 111, 97, 100] := by decide
theorem ascii_script : ascii "script" = [115, 99, 114, 105, 112, 116] := by decide
theorem ascii_mute : ascii "mute" = [109, 117, 116, 101] := by decide
theorem ascii_format : ascii "format" = [102, 111, 114, 109, 97, 116] := by decide
theorem ascii_output : ascii "output/" = [111, 117, 116, 112, 117, 116, 47] := by decide
theorem ascii_source : ascii "source/" = [115, 111, 117, 114, 99, 101, 47] := by decide

namespace Verb

/-- No verb begins as the path of a source does. -/
theorem not_source_text (verb : Verb) : (ascii "source/").isPrefixOf verb.text = false := by
  cases verb with
  | output name => rw [text, ascii_source, ascii_output]; rfl
  | _ => decide

/-- No verb begins with a slash. -/
theorem head_text (verb : Verb) : verb.text.head? ≠ some slash := by
  cases verb with
  | output name => simp [text, ascii_output, slash]
  | _ => decide

/-- Each verb is done as it is documented. -/
theorem handleOscForSource_text (verb : Verb) (message : Message) :
    handleOscForSource verb.text message = verb.call message := by
  cases verb with
  | url => simp [handleOscForSource, text, call]
  | reload => simp [handleOscForSource, text, call, ascii_url, ascii_reload]
  | script => simp [handleOscForSource, text, call, ascii_url, ascii_reload, ascii_script]
  | mute =>
    simp [handleOscForSource, text, call, ascii_url, ascii_reload, ascii_script, ascii_mute]
  | format =>
    simp [handleOscForSource, text, call, ascii_url, ascii_reload, ascii_script, ascii_mute,
      ascii_format]
  | output name =>
    simp [handleOscForSource, text, call, ascii_url, ascii_reload, ascii_script, ascii_mute,
      ascii_format, ascii_output, name.property]

/-- Nothing else is done. -/
theorem eq_text_of_handleOscForSource {action : Bytes} {message : Message} {call : EngineCall}
    (h : handleOscForSource action message = some call) : ∃ verb : Verb, action = verb.text := by
  unfold handleOscForSource at h
  split at h
  · next heq => exact ⟨.url, heq⟩
  split at h
  · next heq => exact ⟨.reload, heq⟩
  split at h
  · next heq => exact ⟨.script, heq⟩
  split at h
  · next heq => exact ⟨.mute, heq⟩
  split at h
  · next heq => exact ⟨.format, heq⟩
  split at h
  · next hout =>
    obtain ⟨name, rfl⟩ := List.isPrefixOf_iff_prefix.mp hout
    rw [List.drop_left] at h
    dsimp only at h
    split at h
    · cases h
    · next hname => exact ⟨.output ⟨name, hname⟩, rfl⟩
  · cases h

end Verb

/-! ### Paths -/

variable {oscPrefix primaryId path target address : Bytes} {verb : Verb}

/-- A text up to its first slash, with the slash and what is behind it. -/
theorem takeWhile_slash {rest : Bytes} (h : (rest.takeWhile (· ≠ slash)).length ≠ rest.length) :
    rest = rest.takeWhile (· ≠ slash) ++
      slash :: rest.drop ((rest.takeWhile (· ≠ slash)).length + 1) := by
  have hsplit : rest.takeWhile (· ≠ slash) ++ rest.dropWhile (· ≠ slash) = rest :=
    List.takeWhile_append_dropWhile
  have hhead := List.head?_dropWhile_not (fun c ↦ decide (c ≠ slash)) rest
  cases hdrop : rest.dropWhile (· ≠ slash) with
  | nil =>
    rw [hdrop, List.append_nil] at hsplit
    exact absurd (congrArg List.length hsplit) h
  | cons c tail =>
    rw [hdrop] at hsplit hhead
    have hc : c = slash := by simpa using hhead
    have htail : rest.drop ((rest.takeWhile (· ≠ slash)).length + 1) = tail := by
      conv_lhs => rw [← hsplit]
      rw [← List.drop_drop, List.drop_left' (by rw [hsplit])]
      rfl
    rw [hc] at hsplit
    rw [htail]
    exact hsplit.symm

/-- The source and the verb of a path are those it names. -/
theorem oscTarget_eq_some_iff :
    oscTarget primaryId path = some (target, verb.text) ↔ Names primaryId path target verb := by
  constructor
  · intro h
    unfold oscTarget at h
    split at h
    · next hsource =>
      obtain ⟨rest, rfl⟩ := List.isPrefixOf_iff_prefix.mp hsource
      rw [List.drop_left] at h
      dsimp only at h
      split at h
      · cases h
      · next hid =>
        obtain ⟨hshort, hnonempty⟩ := not_or.mp hid
        have hrest := takeWhile_slash hshort
        obtain ⟨htarget, hverb⟩ := Prod.mk.inj (Option.some.inj h)
        rw [hverb, htarget] at hrest
        rw [htarget] at hnonempty
        rw [hrest]
        apply Names.source
        · exact hnonempty
        · intro hmem
          rw [← htarget] at hmem
          simpa using List.mem_takeWhile_imp hmem
    · cases h
      exact .primary verb
  · intro h
    cases h with
    | primary => rw [oscTarget, verb.not_source_text]; rfl
    | source _ _ nonempty whole =>
      have htake : (target ++ slash :: verb.text).takeWhile (· ≠ slash) = target := by
        rw [List.takeWhile_append_of_pos, List.takeWhile_cons_of_neg (by simp), List.append_nil]
        intro c hc
        exact decide_eq_true fun heq ↦ whole (heq ▸ hc)
      have hstarts : (ascii "source/").isPrefixOf (ascii "source/" ++ (target ++ slash :: verb.text)) :=
        List.isPrefixOf_iff_prefix.mpr (List.prefix_append ..)
      rw [oscTarget, if_pos hstarts, List.drop_left]
      dsimp only
      rw [htake, if_neg]
      · rw [← List.drop_drop, List.drop_left]
        rfl
      · rw [List.length_append, List.length_cons, not_or]
        exact ⟨by omega, nonempty⟩

/-- No path begins with a slash. -/
theorem Names.head (h : Names primaryId path target verb) : path.head? ≠ some slash := by
  cases h with
  | primary => exact verb.head_text
  | source _ _ nonempty whole => rw [ascii_source]; simp [slash]

/-- What an address gives: a path behind the prefix and a slash, or behind the prefix alone if it
begins with none. -/
theorem oscAction_eq_some_iff : oscAction oscPrefix address = some path ↔
    address = oscPrefix ++ slash :: path ∨
      (address = oscPrefix ++ path ∧ path.head? ≠ some slash) := by
  constructor
  · intro h
    unfold oscAction at h
    split at h
    · next hstarts =>
      obtain ⟨action, rfl⟩ := List.isPrefixOf_iff_prefix.mp hstarts
      rw [List.drop_left] at h
      dsimp only at h
      split at h
      · next hslash =>
        left
        cases action with
        | nil => cases hslash
        | cons c action =>
          cases hslash
          cases h
          rfl
      · next hslash =>
        right
        cases h
        exact ⟨rfl, hslash⟩
    · cases h
  · intro h
    have hstarts : oscPrefix.isPrefixOf address := by
      apply List.isPrefixOf_iff_prefix.mpr
      cases h with
      | inl h => rw [h]; exact List.prefix_append ..
      | inr h => rw [h.1]; exact List.prefix_append ..
    rw [oscAction, if_pos hstarts]
    cases h with
    | inl h =>
      rw [h, List.drop_left]
      rfl
    | inr h =>
      rw [h.1, List.drop_left]
      dsimp only
      rw [if_neg h.2]

/-- A message is for the verb and the source of its path. -/
theorem handleOsc_eq_some_iff {sources : Sources} {message : Message} {call : EngineCall} :
    handleOsc oscPrefix sources message = some (target, call) ↔
      ∃ path verb, oscAction oscPrefix message.address = some path ∧
        Names sources.primaryId path target verb ∧ sources.Runs target ∧
        verb.call message = some call := by
  constructor
  · intro h
    obtain ⟨path, hpath, h⟩ := Option.bind_eq_some_iff.mp h
    obtain ⟨⟨found, action⟩, hfound, h⟩ := Option.bind_eq_some_iff.mp h
    dsimp only at h
    split at h
    · cases h
    · next hid =>
      split at h
      · next hdone =>
        obtain ⟨made, hmade, heq⟩ := Option.map_eq_some_iff.mp h
        cases heq
        obtain ⟨verb, rfl⟩ := Verb.eq_text_of_handleOscForSource hmade
        rw [verb.handleOscForSource_text] at hmade
        exact ⟨path, verb, hpath, oscTarget_eq_some_iff.mp hfound, ⟨hid, hdone⟩, hmade⟩
      · cases h
  · rintro ⟨path, verb, hpath, hnames, ⟨hid, hdone⟩, hcall⟩
    rw [handleOsc, hpath, Option.bind_some, oscTarget_eq_some_iff.mpr hnames, Option.bind_some]
    dsimp only
    rw [if_neg hid, if_pos hdone, verb.handleOscForSource_text, hcall]
    rfl

/-- A message does what its address is documented to do, and nothing if it is not, unless its path
stands right behind the prefix. -/
theorem actsAsDocumented_iff (oscPrefix : Bytes) (sources : Sources) (message : Message) :
    ActsAsDocumented oscPrefix sources message ↔ ¬ RunTogether oscPrefix sources message := by
  constructor
  · rintro hacts ⟨path, target, verb, call, hnames, haddress, hruns, hcall⟩
    have hpath : oscAction oscPrefix message.address = some path :=
      oscAction_eq_some_iff.mpr (.inr ⟨haddress, hnames.head⟩)
    have hdone : handleOsc oscPrefix sources message = some (target, call) :=
      handleOsc_eq_some_iff.mpr ⟨path, verb, hpath, hnames, hruns, hcall⟩
    obtain ⟨verb', ⟨path', hnames', haddress'⟩, hruns', hcall'⟩ := (hacts target call).mp hdone
    have hslash : path = slash :: path' :=
      List.append_cancel_left (haddress.symm.trans haddress')
    exact hnames.head (by rw [hslash]; rfl)
  · intro hapart target call
    rw [handleOsc_eq_some_iff]
    constructor
    · rintro ⟨path, verb, hpath, hnames, hruns, hcall⟩
      cases oscAction_eq_some_iff.mp hpath with
      | inl haddress => exact ⟨verb, ⟨path, hnames, haddress⟩, hruns, hcall⟩
      | inr hbehind =>
        exact absurd ⟨path, target, verb, call, hnames, hbehind.1, hruns, hcall⟩ hapart
    · rintro ⟨verb, ⟨path, hnames, haddress⟩, hruns, hcall⟩
      exact ⟨path, verb, oscAction_eq_some_iff.mpr (.inl haddress), hnames, hruns, hcall⟩

/-- One source, `main`. -/
def oneSource : Sources where
  primaryId := ascii "main"
  withSource id := if id = ascii "main" then .kDone else .kMissing

/-- An address that only begins with the prefix. -/
def urlRunTogether : Message where
  address := ascii "/weblinkedurl"
  stringArgs := [ascii "https://example.com/next"]

/-- It navigates the primary source, and no documented address is like it. -/
theorem not_actsAsDocumented :
    ¬ ∀ (oscPrefix : Bytes) (sources : Sources) (message : Message),
      (∃ target call, handleOsc oscPrefix sources message = some (target, call)) →
        ∃ target verb, Documented oscPrefix sources.primaryId message.address target verb := by
  intro hall
  have hdone : handleOsc (ascii "/weblinked") oneSource urlRunTogether =
      some (ascii "main", .setUrl (ascii "https://example.com/next")) := by
    decide
  obtain ⟨target, verb, path, hnames, haddress⟩ := hall _ _ _ ⟨_, _, hdone⟩
  have hbehind : ascii "/weblinked" ++ ascii "url" = ascii "/weblinked" ++ slash :: path := haddress
  have hpath := List.append_cancel_left hbehind
  rw [ascii_url] at hpath
  cases hpath

end WebLinked.Control.Osc
