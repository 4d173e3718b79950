import Mathlib
import WebLinked.Core.JsonDocument
import WebLinked.Core.SourceConfig

/-!
# Settings come back as they were saved

`src/core/source_config.cpp:73–416`. What an output, a source and a whole configuration are read
as after they were written to a document.
-/

namespace WebLinked.Core

open WebLinked.Base WebLinked.Base.Checks Json Value

section Members

variable {p : Prop} [Decidable p] {key other : String}

/-- What may be set under a key. -/
private theorem get_ite_self (v x : Value) (key : String) :
    (if p then v.set key x else v).get key = if p then x else v.get key := by
  split
  · rw [get_set_self]
  · rfl

private theorem get_ite_of_ne (h : other ≠ key) (v x : Value) :
    (if p then v.set key x else v).get other = v.get other := by
  split
  · rw [get_set_of_ne h]
  · rfl

private theorem get_empty (key : String) : (Value.object []).get key = .null := rfl

end Members

namespace OutputBackground

/-- A channel is read as it was written. -/
private theorem readChannel_digitChar (c : UInt8) :
    readChannel (c >>> 4).toNat.digitChar (c &&& 0x0f).toNat.digitChar = some c := by
  have h : ∀ n < 256, readChannel (UInt8.ofNat n >>> 4).toNat.digitChar
      (UInt8.ofNat n &&& 0x0f).toNat.digitChar = some (UInt8.ofNat n) := by decide +kernel
  have hc := h c.toNat c.toNat_lt
  rwa [UInt8.ofNat_toNat] at hc

/-- A colour is read as it was written. -/
theorem setHex_toHex (b colour : OutputBackground) :
    b.setHex colour.toHex =
      some { b with red := colour.red, green := colour.green, blue := colour.blue } := by
  simp only [setHex, toHex, String.toList_ofList, List.head?_cons, if_true, List.drop_succ_cons,
    List.drop_zero, List.flatMap_cons, List.flatMap_nil, List.cons_append, List.nil_append,
    readChannel_digitChar]
  rfl

/-- A packed colour is its channels one after another. -/
private theorem toNat_packed (b : OutputBackground) :
    b.packed.toNat = (b.red.toNat * 2 ^ 8 + b.green.toNat) * 2 ^ 8 + b.blue.toNat := by
  have hr := b.red.toNat_lt
  have hg := b.green.toNat_lt
  have hb := b.blue.toNat_lt
  have hred : (b.red.toUInt32 <<< 16).toNat = b.red.toNat <<< 16 := by
    simp [UInt32.toNat_shiftLeft, Nat.shiftLeft_eq]
    omega
  have hgreen : (b.green.toUInt32 <<< 8).toNat = b.green.toNat * 2 ^ 8 := by
    simp [UInt32.toNat_shiftLeft, Nat.shiftLeft_eq]
    omega
  have hhigh : b.red.toNat <<< 16 ||| b.green.toNat * 2 ^ 8 =
      (b.red.toNat * 2 ^ 8 + b.green.toNat) <<< 8 := by
    rw [← Nat.shiftLeft_add_eq_or_of_lt (by omega), Nat.shiftLeft_eq, Nat.shiftLeft_eq]
    ring
  have hlow : b.blue.toUInt32.toNat = b.blue.toNat := rfl
  rw [packed, UInt32.toNat_or, UInt32.toNat_or, hred, hgreen, hhigh, hlow,
    ← Nat.shiftLeft_add_eq_or_of_lt hb, Nat.shiftLeft_eq]

/-- Colours that pack alike are alike. -/
theorem eq_of_packed_eq {b colour : OutputBackground} (h : b.packed = colour.packed) :
    b.red = colour.red ∧ b.green = colour.green ∧ b.blue = colour.blue := by
  have hnat := congrArg UInt32.toNat h
  rw [toNat_packed, toNat_packed] at hnat
  have h1 := b.green.toNat_lt
  have h2 := b.blue.toNat_lt
  have h3 := colour.green.toNat_lt
  have h4 := colour.blue.toNat_lt
  refine ⟨UInt8.toNat_inj.mp ?_, UInt8.toNat_inj.mp ?_, UInt8.toNat_inj.mp ?_⟩ <;> omega

end OutputBackground

namespace OutputConfig

/-- What the types of an output hold: an `int`, and options that `set` has put together. -/
structure Typed (o : OutputConfig) : Prop where
  index : -2 ^ 31 ≤ o.deviceIndex ∧ o.deviceIndex < 2 ^ 31
  options : o.options.Keyed

/-- What an output comes back as: its device only where it is written, and its options read again
where they are an object. -/
def saved (o : OutputConfig) : OutputConfig :=
  { o with
    deviceIndex := if o.kind = "decklink" ∨ o.kind = "aja" then o.deviceIndex else 0
    options := if o.options.isObject then o.options.reread else .object [] }

/-- What holds of all that is set of an output. -/
theorem toJson_of_set {o : OutputConfig} {P Q : Value → Prop} (hempty : P (.object []))
    (hset : ∀ v key x, P v → Q x → P (v.set key x)) (hstring : ∀ text, Q (.string text))
    (hint : Q (.int o.deviceIndex)) (hoptions : o.options.isObject → Q o.options) :
    P o.toJson := by
  have hite {p : Prop} [Decidable p] {v x : Value} (key : String) (hv : P v) (hx : p → Q x) :
      P (if p then v.set key x else v) := by
    split
    · next h => exact hset v key x hv (hx h)
    · exact hv
  have hnamed := hset _ "name" _ (hset _ "kind" _ hempty (hstring o.kind)) (hstring o.name)
  exact hite _ (hite _ (hite _ (hite _ hnamed fun _ ↦ hint) fun h ↦ hoptions h.1)
    fun _ ↦ hstring _) fun _ ↦ hstring _

/-- What is written of an output under its keys. -/
private theorem get_toJson (o : OutputConfig) :
    o.toJson.get "kind" = .string o.kind ∧ o.toJson.get "name" = .string o.name ∧
    o.toJson.get "device_index" =
      (if o.kind = "decklink" ∨ o.kind = "aja" then .int o.deviceIndex else .null) ∧
    o.toJson.get "options" =
      (if o.options.isObject ∧ 0 < o.options.size then o.options else .null) ∧
    o.toJson.get "background" = (if o.background.isOpaque then .string "colour" else .null) ∧
    o.toJson.get "background_colour" =
      if o.background.packed ≠ ({} : OutputBackground).packed then .string o.background.toHex
      else .null := by
  refine ⟨?_, ?_, ?_, ?_, ?_, ?_⟩ <;>
    simp (disch := decide) only [toJson, get_ite_self, get_ite_of_ne, get_set_self,
      get_set_of_ne, get_empty]

/-- The background comes back. -/
private theorem readBackground_toJson (o : OutputConfig) :
    readBackground o.toJson.reread = .ok o.background := by
  obtain ⟨-, -, -, -, hmode, hcolour⟩ := o.get_toJson
  have hhex : o.background.toHex ≠ "" := by
    intro h
    have := congrArg String.toList h
    simp [OutputBackground.toHex] at this
  have hcolour' : (o.toJson.reread.get "background_colour").asString =
      if o.background.packed ≠ ({} : OutputBackground).packed then o.background.toHex else "" := by
    rw [get_reread, asString_reread, hcolour]
    split <;> rfl
  have hmode' : (o.toJson.reread.get "background").asString =
      if o.background.isOpaque then "colour" else "" := by
    rw [get_reread, asString_reread, hmode]
    split <;> rfl
  rw [readBackground, hcolour', hmode']
  generalize o.background = b at *
  by_cases hp : b.packed = ({} : OutputBackground).packed
  · obtain ⟨hr, hg, hb⟩ := OutputBackground.eq_of_packed_eq hp
    obtain ⟨isOpaque, red, green, blue⟩ := b
    dsimp only at hr hg hb
    subst hr hg hb
    rw [if_neg (not_not.mpr hp), if_pos rfl]
    cases isOpaque <;> rfl
  · rw [if_pos hp, if_neg hhex, OutputBackground.setHex_toHex]
    obtain ⟨isOpaque, red, green, blue⟩ := b
    cases isOpaque <;> rfl

/-- An output comes back as it was saved, if it has a kind. -/
theorem fromJson_toJson {o : OutputConfig} (ht : o.Typed) :
    fromJson o.toJson.reread =
      if o.kind = "" then .error "an output needs a \"kind\"" else .ok o.saved := by
  obtain ⟨hkind, hname, hindex, hoptions, -, -⟩ := o.get_toJson
  have hobject : o.toJson.isObject := by
    unfold toJson
    dsimp only
    repeat' split
    all_goals rfl
  have hkind' : (o.toJson.reread.get "kind").asString = o.kind := by
    rw [get_reread, asString_reread, hkind]
    rfl
  have hname' (fallback : String) : (o.toJson.reread.get "name").asString fallback = o.name := by
    rw [get_reread, asString_reread, hname]
    rfl
  have hindex' : (o.toJson.reread.get "device_index").asInt 0 =
      if o.kind = "decklink" ∨ o.kind = "aja" then o.deviceIndex else 0 := by
    rw [get_reread, hindex]
    split
    · exact asInt_reread_int ht.index.1 ht.index.2 0
    · rfl
  have hoptions' : (if (o.toJson.reread.get "options").isObject then o.toJson.reread.get "options"
      else .object []) = if o.options.isObject then o.options.reread else .object [] := by
    rw [get_reread, hoptions, isObject_reread]
    cases ho : o.options with
    | object members =>
      cases members with
      | nil => rfl
      | cons m members => rfl
    | _ => rfl
  rw [fromJson, isObject_reread, hobject, if_neg (by simp), hkind']
  dsimp only
  rw [readBackground_toJson, hname', hindex', hoptions']
  rfl

/-- The outputs of a list come back if each has a kind. -/
private theorem readAll_eq_ok {outputs : List OutputConfig}
    (ht : ∀ o ∈ outputs, o.Typed) (place : ℕ → String) (i : ℕ) (r : List OutputConfig) :
    readAll place i (outputs.map fun o ↦ o.toJson.reread) = .ok r ↔
      (∀ o ∈ outputs, o.kind ≠ "") ∧ r = outputs.map saved := by
  induction outputs generalizing i r with
  | nil =>
    simp only [List.map_nil, readAll, Except.ok.injEq, List.not_mem_nil, false_imp_iff,
      implies_true, true_and]
    exact eq_comm
  | cons o outputs ih =>
    obtain ⟨ho, hall⟩ := List.forall_mem_cons.mp ht
    rw [List.map_cons, readAll, fromJson_toJson ho]
    by_cases hk : o.kind = ""
    · simp [hk]
    · rw [if_neg hk]
      dsimp only
      rw [bind_eq_ok]
      simp only [ih hall, Except.ok.injEq, List.forall_mem_cons, hk, not_false_eq_true, ne_eq,
        true_and, List.map_cons]
      constructor
      · rintro ⟨rest, ⟨hkinds, rfl⟩, rfl⟩
        exact ⟨hkinds, rfl⟩
      · rintro ⟨hkinds, rfl⟩
        exact ⟨_, ⟨hkinds, rfl⟩, rfl⟩

end OutputConfig

namespace SourceConfig

/-- What a source comes back as: a preview is wanted whether it was or not. -/
def saved (s : SourceConfig) : SourceConfig :=
  { s with outputs := s.outputs.map OutputConfig.saved, wantPreview := true }

/-- What holds of all that is set of a source. -/
private theorem toJson_of_set {s : SourceConfig} {P Q : Value → Prop} (hempty : P (.object []))
    (hset : ∀ v key x, P v → Q x → P (v.set key x)) (hstring : ∀ text, Q (.string text))
    (hbool : ∀ b, Q (.bool b)) (houtputs : Q (.array (s.outputs.map OutputConfig.toJson))) :
    P s.toJson := by
  unfold toJson
  dsimp only
  repeat' apply hset
  all_goals first | exact hempty | exact hstring _ | exact hbool _ | exact houtputs

/-- What is written of a source under its keys. -/
private theorem get_toJson (s : SourceConfig) :
    s.toJson.get "id" = .string s.id ∧ s.toJson.get "url" = .string s.url ∧
    s.toJson.get "format" = .string s.format.toString ∧
    s.toJson.get "audio" = .bool s.audioEnabled ∧
    s.toJson.get "matrix" = .string (colourMatrixToString s.matrix) ∧
    s.toJson.get "pacing" = .string (if s.externalPacing then "external" else "internal") ∧
    s.toJson.get "interactive" = .bool s.interactiveByDefault ∧
    s.toJson.get "popups" = .string s.popupPolicy ∧
    s.toJson.get "outputs" = .array (s.outputs.map OutputConfig.toJson) := by
  refine ⟨?_, ?_, ?_, ?_, ?_, ?_, ?_, ?_, ?_⟩ <;>
    simp (disch := decide) only [toJson, get_set_self, get_set_of_ne]

/-- The keys of a source. -/
private theorem has_toJson (s : SourceConfig) :
    s.toJson.has "format" ∧ s.toJson.has "audio" ∧ s.toJson.has "matrix" ∧
    s.toJson.has "pacing" ∧ s.toJson.has "interactive" ∧ s.toJson.has "popups" ∧
    s.toJson.has "outputs" ∧ s.toJson.has "preview" = false := by
  refine ⟨?_, ?_, ?_, ?_, ?_, ?_, ?_, ?_⟩ <;> simp only [toJson, has_set] <;> decide

/-- A source comes back as it was saved, if each of its outputs has a kind. -/
private theorem fromJson_eq_ok {s : SourceConfig} (ht : ∀ o ∈ s.outputs, o.Typed)
    (hf : VideoFormat.parse s.format.toString = some s.format) (r : SourceConfig) :
    fromJson s.toJson.reread = .ok r ↔ (∀ o ∈ s.outputs, o.kind ≠ "") ∧ r = s.saved := by
  obtain ⟨hid, hurl, hformat, haudio, hmatrix, hpacing, hinteractive, hpopups, houtputs⟩ :=
    s.get_toJson
  obtain ⟨kformat, kaudio, kmatrix, kpacing, kinteractive, kpopups, koutputs, kpreview⟩ :=
    s.has_toJson
  have hstring {key text : String} (h : s.toJson.get key = .string text) (fallback : String) :
      (s.toJson.reread.get key).asString fallback = text := by
    rw [get_reread, asString_reread, h]
    rfl
  have hbool {key : String} {b : Bool} (h : s.toJson.get key = .bool b) (fallback : Bool) :
      (s.toJson.reread.get key).asBool fallback = b := by
    rw [get_reread, h, asBool_reread_bool]
  have hreadFormat : readFormat s.toJson.reread = .ok s.format := by
    rw [readFormat, has_reread, kformat, if_pos rfl, hstring hformat]
    simp only [hf]
  have hreadOutputs : readOutputs s.toJson.reread =
      OutputConfig.readAll (fun i ↦ "outputs[" ++ toString i ++ "]: ") 0
        (s.outputs.map fun o ↦ o.toJson.reread) := by
    rw [readOutputs, has_reread, koutputs, if_pos rfl, get_reread, houtputs, isArray_reread,
      elements_reread]
    simp [isArray, elements, Function.comp_def]
  have hobject : s.toJson.isObject := rfl
  have hmatrix' : colourMatrixFromString (colourMatrixToString s.matrix) = s.matrix := by
    cases s.matrix <;> decide
  have hpacing' : decide ((if s.externalPacing then "external" else "internal") ≠ "internal") =
      s.externalPacing := by
    cases s.externalPacing <;> decide
  rw [fromJson, isObject_reread, hobject, if_neg (by simp), hreadFormat, hreadOutputs]
  simp only [has_reread, kaudio, kmatrix, kpacing, kinteractive, kpopups, kpreview, if_true,
    Bool.false_eq_true, if_false, hstring hid, hstring hurl, hstring hmatrix, hstring hpacing,
    hstring hpopups, hbool haudio, hbool hinteractive, hmatrix', hpacing', bind_eq_ok,
    Except.ok.injEq, exists_eq_left', OutputConfig.readAll_eq_ok ht]
  constructor
  · rintro ⟨outputs, ⟨hkinds, rfl⟩, rfl⟩
    exact ⟨hkinds, rfl⟩
  · rintro ⟨hkinds, rfl⟩
    exact ⟨_, ⟨hkinds, rfl⟩, rfl⟩

/-- A source that is valid comes back valid. -/
private theorem validate_saved {s : SourceConfig} (h : s.validate = .ok ()) :
    s.saved.validate = .ok () := by
  have hv := validate_eq_ok.mp h
  refine validate_eq_ok.mpr ⟨hv.id, hv.raster, hv.rate, hv.popups, ?_, ?_⟩
  · intro o ho
    obtain ⟨o', ho', rfl⟩ := List.mem_map.mp ho
    exact hv.named o' ho'
  · rw [saved, List.map_map]
    exact hv.distinct

/-- A source with a preview needs no other. -/
private theorem ensurePreview_saved {s : SourceConfig} (h : previews s.outputs = 1) :
    s.saved.ensurePreview = s.saved := by
  have hsaved : previews s.saved.outputs = 1 := by
    rw [← h, previews, previews, saved, List.countP_map]
    rfl
  have hwanted : s.saved.wantPreview = true := rfl
  rw [ensurePreview, any_preview, hsaved, hwanted]
  rfl

end SourceConfig

namespace AppConfig

open SourceConfig

/-- What the types of a configuration hold. -/
structure Typed (c : AppConfig) : Prop where
  httpPort : -2 ^ 31 ≤ c.httpPort ∧ c.httpPort < 2 ^ 31
  oscPort : -2 ^ 31 ≤ c.oscPort ∧ c.oscPort < 2 ^ 31
  outputs : ∀ s ∈ c.sources, ∀ o ∈ s.outputs, o.Typed

/-- What a configuration comes back as. -/
def saved (c : AppConfig) : AppConfig := { c with sources := c.sources.map SourceConfig.saved }

/-- A source of a file comes back if each of its outputs has a kind. -/
private theorem readSource_eq_ok {s : SourceConfig} (ht : ∀ o ∈ s.outputs, o.Typed)
    (hf : VideoFormat.parse s.format.toString = some s.format) (hv : s.validate = .ok ()) (i : ℕ)
    (r : SourceConfig) :
    readSource i s.toJson.reread = .ok r ↔ (∀ o ∈ s.outputs, o.kind ≠ "") ∧ r = s.saved := by
  have hid : s.saved.id ≠ "" := (validate_eq_ok.mp hv).id.1
  unfold readSource
  dsimp only
  by_cases hk : ∀ o ∈ s.outputs, o.kind ≠ ""
  · rw [(fromJson_eq_ok ht hf _).mpr ⟨hk, rfl⟩]
    dsimp only
    rw [if_neg hid, validate_saved hv]
    exact ⟨fun h ↦ ⟨hk, (Except.ok.inj h).symm⟩, fun h ↦ by rw [h.2]⟩
  · cases hs : SourceConfig.fromJson s.toJson.reread with
    | error message => simp [hk]
    | ok source => exact absurd ((fromJson_eq_ok ht hf _).mp hs).1 hk

/-- The sources of a file come back if their outputs have kinds and their ids differ. -/
private theorem readSources_eq_ok {sources : List SourceConfig}
    (hs : ∀ s ∈ sources, (∀ o ∈ s.outputs, o.Typed) ∧ s.validate = .ok () ∧
      previews s.outputs = 1 ∧ VideoFormat.parse s.format.toString = some s.format)
    (i : ℕ) (ids : List String) (r : List SourceConfig) :
    readSources i ids (sources.map fun s ↦ s.toJson.reread) = .ok r ↔
      (∀ s ∈ sources, s.id ∉ ids ∧ ∀ o ∈ s.outputs, o.kind ≠ "") ∧ (sources.map (·.id)).Nodup ∧
        r = sources.map SourceConfig.saved := by
  induction sources generalizing i ids r with
  | nil =>
    simp only [List.map_nil, readSources, Except.ok.injEq, List.not_mem_nil, false_imp_iff,
      implies_true, List.nodup_nil, true_and]
    exact eq_comm
  | cons s sources ih =>
    obtain ⟨⟨ht, hv, hp, hf⟩, hall⟩ := List.forall_mem_cons.mp hs
    rw [List.map_cons, readSources]
    by_cases hk : ∀ o ∈ s.outputs, o.kind ≠ ""
    · rw [(readSource_eq_ok ht hf hv i _).mpr ⟨hk, rfl⟩]
      have hid : s.saved.id = s.id := rfl
      dsimp only
      rw [hid, ite_error_eq_ok, bind_eq_ok]
      simp only [ih hall, Except.ok.injEq, ensurePreview_saved hp, List.forall_mem_cons,
        List.map_cons, List.nodup_cons]
      constructor
      · rintro ⟨hfresh, rest, ⟨hrest, hnodup, rfl⟩, rfl⟩
        refine ⟨⟨⟨hfresh, hk⟩, fun t ht ↦ ⟨fun hm ↦ ?_, (hrest t ht).2⟩⟩, ⟨?_, hnodup⟩, rfl⟩
        · exact (hrest t ht).1 (List.mem_cons_of_mem _ hm)
        · intro hm
          obtain ⟨t, ht, heq⟩ := List.mem_map.mp hm
          exact (hrest t ht).1 (heq ▸ List.mem_cons_self)
      · rintro ⟨⟨⟨hfresh, -⟩, hrest⟩, ⟨hnot, hnodup⟩, rfl⟩
        refine ⟨hfresh, _, ⟨fun t ht ↦ ⟨fun hm ↦ ?_, (hrest t ht).2⟩, hnodup, rfl⟩, rfl⟩
        rcases List.mem_cons.mp hm with heq | hm
        · exact hnot (heq ▸ List.mem_map_of_mem ht)
        · exact (hrest t ht).1 hm
    · cases hr : readSource i s.toJson.reread with
      | error message =>
        simp only [List.forall_mem_cons, hk, and_false, false_and, reduceCtorEq]
      | ok source => exact absurd ((readSource_eq_ok ht hf hv i _).mp hr).1 hk

/-- The process-level settings as they are written. -/
private def control (c : AppConfig) : Value := c.toJson.get "control"

/-- What is written of a configuration under its keys. -/
private theorem get_toJson (c : AppConfig) :
    c.toJson.get "sources" = .array (c.sources.map SourceConfig.toJson) ∧
    c.control.get "http_bind" = .string c.httpBind ∧
    c.control.get "http_port" = .int c.httpPort ∧
    c.control.get "http_token" = (if c.httpToken ≠ "" then .string c.httpToken else .null) ∧
    c.control.get "osc_enabled" = .bool c.oscEnabled ∧
    c.control.get "osc_bind" = .string c.oscBind ∧
    c.control.get "osc_port" = .int c.oscPort ∧
    c.control.get "mdns_enabled" = .bool c.mdnsEnabled ∧
    c.control.get "name" = if c.instanceName ≠ "" then .string c.instanceName else .null := by
  refine ⟨?_, ?_, ?_, ?_, ?_, ?_, ?_, ?_, ?_⟩ <;>
    simp (disch := decide) only [control, toJson, get_ite_self, get_ite_of_ne, get_set_self,
      get_set_of_ne, get_empty]

private theorem has_ite (p : Prop) [Decidable p] (v x : Value) (key other : String) :
    (if p then v.set key x else v).has other = ((decide p && decide (key = other)) || v.has other) := by
  split <;> simp_all

/-- The keys of a configuration. -/
private theorem has_toJson (c : AppConfig) :
    c.toJson.has "control" ∧ c.toJson.has "sources" ∧ c.control.has "osc_enabled" ∧
    c.control.has "mdns_enabled" := by
  refine ⟨?_, ?_, ?_, ?_⟩ <;>
    simp (disch := decide) only [control, toJson, has_ite, has_set, get_set_self, get_set_of_ne] <;>
    simp

/-- The process-level settings come back. -/
private theorem readControl_toJson {c : AppConfig} (ht : c.Typed) :
    readControl c.toJson.reread = { c with sources := [] } := by
  obtain ⟨-, hbind, hport, htoken, hosc, hoscBind, hoscPort, hmdns, hname⟩ := c.get_toJson
  obtain ⟨kcontrol, -, kosc, kmdns⟩ := c.has_toJson
  have hempty {key text : String}
      (h : c.control.get key = if text ≠ "" then .string text else .null) :
      (c.control.get key).asString = text := by
    rw [h]
    by_cases ht : text = ""
    · simp [ht, asString]
    · simp [ht, asString]
  rw [readControl, has_reread, kcontrol, if_pos rfl, get_reread, ← control]
  simp only [get_reread, has_reread, asString_reread, kosc, kmdns, if_true, hempty htoken,
    hempty hname]
  rw [hbind, hport, hosc, hoscBind, hoscPort, hmdns, asBool_reread_bool, asBool_reread_bool,
    asInt_reread_int ht.httpPort.1 ht.httpPort.2, asInt_reread_int ht.oscPort.1 ht.oscPort.2]
  rfl

/-- A configuration comes back as it was saved if its outputs have kinds and its ids differ. -/
private theorem fromJson_eq_ok {c : AppConfig} (ht : c.Typed)
    (hs : ∀ s ∈ c.sources, s.validate = .ok () ∧ previews s.outputs = 1 ∧
      VideoFormat.parse s.format.toString = some s.format) (r : AppConfig) :
    fromJson c.toJson.reread = .ok r ↔
      (∀ s ∈ c.sources, ∀ o ∈ s.outputs, o.kind ≠ "") ∧ (c.sources.map (·.id)).Nodup ∧
        r = c.saved := by
  obtain ⟨hsources, -⟩ := c.get_toJson
  obtain ⟨-, ksources, -⟩ := c.has_toJson
  have hobject : c.toJson.isObject := rfl
  have helements : (c.toJson.reread.get "sources").elements =
      c.sources.map fun s ↦ s.toJson.reread := by
    rw [get_reread, elements_reread, hsources]
    simp [elements, Function.comp_def]
  have harray : (c.toJson.reread.get "sources").isArray := by
    rw [get_reread, isArray_reread, hsources]
    rfl
  rw [fromJson, isObject_reread, hobject, if_neg (by simp), has_reread, ksources,
    if_neg (by simp), harray, if_neg (by simp), helements, bind_eq_ok]
  simp only [readSources_eq_ok fun s hm ↦ ⟨ht.outputs s hm, hs s hm⟩, Except.ok.injEq,
    readControl_toJson ht, List.not_mem_nil, not_false_eq_true, true_and]
  constructor
  · rintro ⟨sources, ⟨hkinds, hnodup, rfl⟩, rfl⟩
    exact ⟨hkinds, hnodup, rfl⟩
  · rintro ⟨hkinds, hnodup, rfl⟩
    exact ⟨_, ⟨hkinds, hnodup, rfl⟩, rfl⟩

/-- What holds of all that is set of a configuration. -/
private theorem toJson_of_set {c : AppConfig} {P Q R : Value → Prop} (hempty : P (.object []))
    (hset : ∀ v key x, P v → Q x → P (v.set key x)) (hempty' : Q (.object []))
    (hset' : ∀ v key x, Q v → R x → Q (v.set key x)) (hstring : ∀ text, R (.string text))
    (hbool : ∀ b, R (.bool b)) (hhttp : R (.int c.httpPort)) (hosc : R (.int c.oscPort))
    (hsources : Q (.array (c.sources.map SourceConfig.toJson))) : P c.toJson := by
  unfold toJson
  dsimp only
  have hite {p : Prop} [Decidable p] {v : Value} (key text : String) (hv : Q v) :
      Q (if p then v.set key (.string text) else v) := by
    split
    · exact hset' v key _ hv (hstring text)
    · exact hv
  refine hset _ _ _ (hset _ _ _ hempty (hite _ _ ?_)) hsources
  refine hset' _ _ _ (hset' _ _ _ (hset' _ _ _ (hset' _ _ _ (hite _ _ ?_) ?_) ?_) ?_) ?_
  · exact hset' _ _ _ (hset' _ _ _ hempty' (hstring _)) hhttp
  · exact hbool _
  · exact hstring _
  · exact hosc
  · exact hbool _

private theorem keyed_int (i : ℤ) : (Value.int i).Keyed := by
  simp [Value.int, Keyed]

/-- No key is written twice. -/
private theorem keyed_toJson {c : AppConfig} (ht : c.Typed) : c.toJson.Keyed := by
  have hempty : (Value.object []).Keyed := by simp [keyed_object]
  have hstring (text : String) : (Value.string text).Keyed := by simp [Keyed]
  have hbool (b : Bool) : (Value.bool b).Keyed := by simp [Keyed]
  have hset (v : Value) (key : String) (x : Value) (hv : v.Keyed) (hx : x.Keyed) :
      (v.set key x).Keyed := keyed_set hv hx
  refine toJson_of_set hempty hset hempty hset hstring hbool (keyed_int _) (keyed_int _) ?_
  rw [keyed_array, List.forall_mem_map]
  intro s hs
  refine SourceConfig.toJson_of_set hempty hset hstring hbool ?_
  rw [keyed_array, List.forall_mem_map]
  intro o ho
  exact OutputConfig.toJson_of_set hempty hset hstring (keyed_int _)
    fun _ ↦ (ht.outputs s hs o ho).options

/-- A document is five levels deeper than the options in it. -/
private theorem depth_toJson_le {c : AppConfig} : c.toJson.depth ≤ Parser.kMaxDepth ↔
    ∀ s ∈ c.sources, ∀ o ∈ s.outputs, o.options.isObject → o.options.depth ≤ 59 := by
  have hne {v : Value} (hv : v.isObject ∨ v.isArray) : v ≠ .null := by
    rintro rfl
    simp [isObject, isArray] at hv
  constructor
  · intro h s hs o ho hobject
    obtain ⟨hsources, -⟩ := c.get_toJson
    obtain ⟨-, -, -, -, -, -, -, -, houtputs⟩ := s.get_toJson
    obtain ⟨-, -, -, hoptions, -, -⟩ := o.get_toJson
    have h1 : (c.toJson.get "sources").depth < c.toJson.depth :=
      depth_get_lt (by rw [hsources]; exact hne (Or.inr rfl))
    have h2 : s.toJson.depth < (c.toJson.get "sources").depth := by
      refine depth_lt_of_mem_elements ?_
      rw [hsources]
      exact List.mem_map_of_mem hs
    have h3 : (s.toJson.get "outputs").depth < s.toJson.depth :=
      depth_get_lt (by rw [houtputs]; exact hne (Or.inr rfl))
    have h4 : o.toJson.depth < (s.toJson.get "outputs").depth := by
      refine depth_lt_of_mem_elements ?_
      rw [houtputs]
      exact List.mem_map_of_mem ho
    have hmax : Parser.kMaxDepth = 64 := rfl
    by_cases hsize : 0 < o.options.size
    · rw [if_pos ⟨hobject, hsize⟩] at hoptions
      have h5 : (o.toJson.get "options").depth < o.toJson.depth :=
        depth_get_lt (by rw [hoptions]; exact hne (Or.inl hobject))
      rw [hoptions] at h5
      omega
    · cases hv : o.options with
      | object members =>
        have hnil : members = [] := by
          rw [hv] at hsize
          simpa [size] using hsize
        rw [hnil]
        decide
      | _ => simp [hv, isObject] at hobject
  · intro h
    have hempty (n : ℕ) : (Value.object []).depth ≤ n + 1 := 
      depth_object_le.mpr (List.forall_mem_nil _)
    have hset (n : ℕ) (v : Value) (key : String) (x : Value) (hv : v.depth ≤ n + 1)
        (hx : x.depth ≤ n) : (v.set key x).depth ≤ n + 1 := depth_set_le hv hx
    have hstring (n : ℕ) (text : String) : (Value.string text).depth ≤ n + 1 := by simp [depth]
    have hbool (n : ℕ) (b : Bool) : (Value.bool b).depth ≤ n + 1 := by simp [depth]
    have hint (n : ℕ) (i : ℤ) : (Value.int i).depth ≤ n + 1 := by simp [Value.int, depth]
    refine toJson_of_set (hempty 63) (hset 63) (hempty 62) (hset 62) (hstring 61) (hbool 61)
      (hint 61 _) (hint 61 _) ?_
    rw [depth_array_le, List.forall_mem_map]
    intro s hs
    refine SourceConfig.toJson_of_set (hempty 61) (hset 61) (hstring 60) (hbool 60) ?_
    rw [depth_array_le, List.forall_mem_map]
    intro o ho
    exact OutputConfig.toJson_of_set (hempty 59) (hset 59) (hstring 58) (hint 58 _) (h s hs o ho)

/-- A configuration with a line end behind it is read as it is alone. -/
theorem parse_line {c : AppConfig} (ht : c.Typed) :
    (parse (c.toJson.serialize true ++ "\n")).toOption =
      (parse (c.toJson.serialize true)).toOption := by
  have hline := parse_serialize_line (keyed_toJson ht) true
  rw [parse, parse]
  generalize Json.parse (c.toJson.serialize true ++ "\n") = first at *
  generalize Json.parse (c.toJson.serialize true) = second at *
  cases first with
  | error e =>
    cases second with
    | error e => rfl
    | ok v => cases hline
  | ok v =>
    cases second with
    | error e => cases hline
    | ok w =>
      cases hline
      rfl

/-- What a configuration comes back as, and when. -/
private theorem parse_eq_ok {c : AppConfig} (ht : c.Typed)
    (hs : ∀ s ∈ c.sources, s.validate = .ok () ∧ previews s.outputs = 1 ∧
      VideoFormat.parse s.format.toString = some s.format) (r : AppConfig) :
    parse (c.toJson.serialize true) = .ok r ↔
      (∀ s ∈ c.sources, ∀ o ∈ s.outputs, o.options.isObject → o.options.depth ≤ 59) ∧
        (∀ s ∈ c.sources, ∀ o ∈ s.outputs, o.kind ≠ "") ∧ (c.sources.map (·.id)).Nodup ∧
          r = c.saved := by
  have hread := parse_serialize (keyed_toJson ht) true
  rw [← depth_toJson_le, ← fromJson_eq_ok ht hs, parse]
  generalize Json.parse (c.toJson.serialize true) = parsed at *
  by_cases hd : c.toJson.depth ≤ Parser.kMaxDepth
  · rw [if_pos hd] at hread
    cases parsed with
    | error e => cases hread
    | ok v =>
      cases hread
      simp [hd]
  · rw [if_neg hd] at hread
    cases parsed with
    | error e => simp [hd]
    | ok v => cases hread

/-- The same configuration, wanting a preview in every source: that is never written, and is the
default of what is read. -/
def wantingPreviews (c : AppConfig) : AppConfig :=
  { c with sources := c.sources.map fun s ↦ { s with wantPreview := true } }

end AppConfig

/-- An output of which everything is written so that it can be read again. -/
structure OutputConfig.Lasting (o : OutputConfig) : Prop where
  kind : o.kind ≠ ""
  index : o.deviceIndex = 0 ∨ o.kind = "decklink" ∨ o.kind = "aja"
  isObject : o.options.isObject
  numbers : o.options.Exact
  depth : o.options.depth ≤ 59

/-- An output comes back as it is when its device is written and its options are read again. -/
private theorem OutputConfig.saved_eq_iff (o : OutputConfig) :
    o.saved = o ↔ (o.deviceIndex = 0 ∨ o.kind = "decklink" ∨ o.kind = "aja") ∧
      o.options.isObject ∧ o.options.Exact := by
  obtain ⟨kind, name, deviceIndex, options, background⟩ := o
  simp only [saved, OutputConfig.mk.injEq, true_and, and_true]
  refine and_congr ?_ ?_
  · by_cases hk : kind = "decklink" ∨ kind = "aja"
    · simp [hk]
    · simp [hk, eq_comm]
  · by_cases ho : options.isObject
    · simp [ho, reread_eq_iff]
    · rw [if_neg ho]
      refine iff_of_false (fun h ↦ ho ?_) (fun h ↦ ho h.1)
      rw [← h]
      rfl

/-- A configuration comes back as it is when its outputs do. -/
private theorem AppConfig.wantingPreviews_eq_saved_iff (c : AppConfig) :
    c.wantingPreviews = c.saved ↔ ∀ s ∈ c.sources, ∀ o ∈ s.outputs, o.saved = o := by
  have houtputs (outputs : List OutputConfig) :
      outputs = outputs.map OutputConfig.saved ↔ ∀ o ∈ outputs, o.saved = o := by
    conv_lhs => lhs; rw [← List.map_id outputs]
    rw [List.map_inj_left]
    exact forall₂_congr fun o _ ↦ eq_comm
  have hsource (s : SourceConfig) :
      ({ s with wantPreview := true } : SourceConfig) = s.saved ↔ ∀ o ∈ s.outputs, o.saved = o := by
    rw [← houtputs, SourceConfig.saved, SourceConfig.mk.injEq]
    simp only [true_and, and_true]
  rw [wantingPreviews, saved, AppConfig.mk.injEq, List.map_inj_left]
  simp only [and_true, hsource]

/-- A saved configuration is read as it was exactly when its ids differ and each output has a
kind, no device that its kind does not write, and options that are an object of numbers with few
digits, not nested too deep. -/
theorem AppConfig.settings_roundTrip_iff (c : AppConfig) (ht : c.Typed)
    (hs : ∀ s ∈ c.sources, s.validate = .ok () ∧ SourceConfig.previews s.outputs = 1 ∧
      VideoFormat.parse s.format.toString = some s.format) :
    AppConfig.parse (c.toJson.serialize true) = .ok c.wantingPreviews ↔
      (c.sources.map (·.id)).Nodup ∧ ∀ s ∈ c.sources, ∀ o ∈ s.outputs, o.Lasting := by
  rw [parse_eq_ok ht hs, wantingPreviews_eq_saved_iff]
  constructor
  · rintro ⟨hdepth, hkind, hids, hsaved⟩
    refine ⟨hids, fun s hs o ho ↦ ?_⟩
    obtain ⟨hindex, hobject, hexact⟩ := o.saved_eq_iff.mp (hsaved s hs o ho)
    exact ⟨hkind s hs o ho, hindex, hobject, hexact, hdepth s hs o ho hobject⟩
  · rintro ⟨hids, hlasting⟩
    refine ⟨fun s hs o ho _ ↦ (hlasting s hs o ho).depth, fun s hs o ho ↦ (hlasting s hs o ho).kind,
      hids, fun s hs o ho ↦ ?_⟩
    have h := hlasting s hs o ho
    exact o.saved_eq_iff.mpr ⟨h.index, h.isObject, h.numbers⟩

/-- A preview with this option and an output, in one source. -/
private def previewBeside (factor : Double) (output : OutputConfig) : AppConfig where
  sources := [{
    id := "main"
    outputs := [
      { kind := "preview", name := "preview", options := .object [("factor", .number factor)] },
      output] }]

private theorem typed_withPreview (factor : Double) {output : OutputConfig} (h : output.Typed) :
    (previewBeside factor output).Typed := by
  have hkeyed : (Value.object [("factor", .number factor)]).Keyed := by
    simp [Keyed, KeyedMembers]
  refine ⟨?_, ?_, List.forall_mem_singleton.mpr
    (List.forall_mem_cons.mpr ⟨⟨?_, hkeyed⟩, List.forall_mem_singleton.mpr h⟩)⟩ <;>
  constructor <;> norm_num [previewBeside]

/-- The second device of a kind. -/
private def second (kind name : String) : OutputConfig := { kind, name, deviceIndex := 1 }

private theorem typed_second (kind name : String) : (second kind name).Typed := by
  refine ⟨?_, by simp [second, Keyed, KeyedMembers]⟩
  constructor <;> norm_num [second]

private theorem printable_tenth : Printable (.ofRat false (1 / 10)) := by
  have hlt : nearest |1 / 10| < overflow := by decide +kernel
  rw [Double.ofRat, dif_pos hlt]
  constructor
  · intro h
    cases h
  · refine Or.inr ⟨1 / 10, ⟨1, -1, by norm_num, by norm_num⟩, ?_⟩
    norm_num [abs_of_pos]

/-- A card and a fraction come back. -/
theorem settings_roundTrip_card :
    AppConfig.parse ((previewBeside (.ofRat false (1 / 10)) (second "decklink" "SDI")).toJson.serialize
      true) = .ok (previewBeside (.ofRat false (1 / 10)) (second "decklink" "SDI")).wantingPreviews := by
  refine (AppConfig.settings_roundTrip_iff _ (typed_withPreview _ (typed_second _ _)) ?_).mpr ?_
  · refine List.forall_mem_singleton.mpr ⟨?_, ?_, ?_⟩ <;> decide +kernel
  · refine ⟨List.nodup_singleton _, List.forall_mem_singleton.mpr ?_⟩
    refine List.forall_mem_cons.mpr ⟨⟨by decide, Or.inl rfl, rfl, ?_, by decide⟩,
      List.forall_mem_singleton.mpr ⟨by decide, Or.inr (Or.inl rfl), rfl, ?_, by decide⟩⟩
    · exact exact_object.mpr (List.forall_mem_singleton.mpr printable_tenth)
    · exact exact_object.mpr nofun

/-- The screen of a window is not written. -/
theorem not_settings_roundTrip : ¬ ∀ c : AppConfig, c.Typed →
    (∀ s ∈ c.sources, s.validate = .ok () ∧ SourceConfig.previews s.outputs = 1 ∧
      VideoFormat.parse s.format.toString = some s.format) →
    AppConfig.parse (c.toJson.serialize true) = .ok c.wantingPreviews := by
  intro h
  let c := previewBeside (.ofInt 4) (second "screen" "LED")
  have htyped : c.Typed := typed_withPreview _ (typed_second _ _)
  have hs : ∀ s ∈ c.sources, s.validate = .ok () ∧ SourceConfig.previews s.outputs = 1 ∧
      VideoFormat.parse s.format.toString = some s.format := by
    refine List.forall_mem_singleton.mpr ⟨?_, ?_, ?_⟩ <;> decide +kernel
  obtain ⟨-, -, -, heq⟩ := (AppConfig.parse_eq_ok htyped hs _).mp (h c htyped hs)
  have hsaved := c.wantingPreviews_eq_saved_iff.mp heq _ (List.mem_singleton_self _)
  have hscreen := hsaved (second "screen" "LED") (List.mem_cons_of_mem _ (List.mem_singleton_self _))
  obtain ⟨hindex, -⟩ := (OutputConfig.saved_eq_iff _).mp hscreen
  revert hindex
  decide

end WebLinked.Core
