import WebLinked.Base.Machine
import WebLinked.Core.SettingsRoundTrip

/-!
# Writing the settings file

`src/core/settings_store.cpp:62–124`. The configuration is written beside the file and renamed
over it. Any call of the system may fail, and the process may end between any two of them; what a
call has done stays. A stream keeps what it likes of what it is given until it is closed, and says
nothing of what it cannot write then. One `save` runs at a time here: it takes no lock, and two
that overlap would write to the one temporary file.
-/

namespace WebLinked.Core.SettingsFile

open WebLinked.Base WebLinked.Core.Json

/-- What `save` writes of a configuration; `src/core/settings_store.cpp:101`. -/
def document (config : AppConfig) : List Char :=
  (config.toJson.serialize true).toList ++ ['\n']

/-- A file: one that somebody else wrote, or as much as was written of a configuration. -/
inductive File where
  | given (text : List Char)
  | written (config : AppConfig) (length : ℕ)

/-- The text of a file. -/
def File.text : File → List Char
  | .given text => text
  | .written config length => (document config).take length

/-- All of it has been written. -/
def File.Whole : File → Prop
  | .given _ => True
  | .written config length => length = (document config).length

/-- Why `save` failed. -/
inductive Failure where
  | createDirectory
  | openTemporary
  | writeTemporary
  | replaceTarget
  deriving DecidableEq, Repr

/-- The text of the error, of the paths and of what the system says;
`src/core/settings_store.cpp:82,97,104,118`. -/
def Failure.message (target parent reason : String) : Failure → String
  | .createDirectory => "cannot create " ++ parent ++ ": " ++ reason
  | .openTemporary => "cannot write " ++ target ++ ".tmp"
  | .writeTemporary => "failed while writing " ++ target ++ ".tmp"
  | .replaceTarget => "cannot replace " ++ target ++ ": " ++ reason

/-- Where `save` stands. -/
inductive Phase where
  | idle
  | creating (config : AppConfig)
  | opening (config : AppConfig)
  | writing (config : AppConfig)
  | closing (config : AppConfig)
  | replacing (config : AppConfig)
  | removing (config : AppConfig)
  | replacingAgain (config : AppConfig)
  /-- The temporary file is removed on the way out. -/
  | givingUp (config : AppConfig)
  | returned (config : AppConfig) (failure : Option Failure)

/-- The two files, where `save` stands, and whether there was ever anything at the target. -/
structure State where
  target : Option File
  temporary : Option File := none
  phase : Phase := .idle
  existed : Bool

/-- What a call of the system does, or that the process ends here. -/
inductive Action where
  | save (config : AppConfig)
  /-- A call succeeds or fails. -/
  | call (ok : Bool)
  /-- A stream writes as much as this, or fails to write more than this. -/
  | write (length : ℕ) (ok : Bool)
  | ends

namespace State

variable (s : State)

/-- The temporary file takes the place of the target. -/
def replace (config : AppConfig) : State :=
  { s with
    target := s.temporary
    temporary := none
    phase := .returned config none
    existed := true }

/-- `save`, which begins once the one before has returned; `src/core/settings_store.cpp:75`. -/
def step : Action → Option State
  | .ends => some { s with phase := .idle }
  | .save config =>
    match s.phase with
    | .idle | .returned _ _ => some { s with phase := .creating config }
    | _ => none
  | .call ok =>
    match s.phase with
    | .creating config =>
      some { s with
        phase := if ok then .opening config else .returned config (some .createDirectory) }
    | .opening config =>
      if ok then some { s with phase := .writing config, temporary := some (.written config 0) }
      else some { s with phase := .returned config (some .openTemporary) }
    | .replacing config =>
      if ok then some (s.replace config) else some { s with phase := .removing config }
    | .removing config =>
      some { s with target := if ok then none else s.target, phase := .replacingAgain config }
    | .replacingAgain config =>
      if ok then some (s.replace config) else some { s with phase := .givingUp config }
    | .givingUp config =>
      some { s with
        temporary := if ok then none else s.temporary
        phase := .returned config (some .replaceTarget) }
    | .idle | .writing _ | .closing _ | .returned _ _ => none
  | .write length ok =>
    match s.phase, s.temporary with
    | .writing config, some (.written _ written) =>
      if written ≤ length ∧ length ≤ (document config).length then
        some { s with
          temporary := some (.written config length)
          phase := if ok then .closing config else .returned config (some .writeTemporary) }
      else none
    | .closing config, some (.written _ written) =>
      -- what the stream still has is written as it is closed, or is lost
      if written ≤ length ∧ length ≤ (document config).length then
        some { s with temporary := some (.written config length), phase := .replacing config }
      else none
    | _, _ => none

end State

/-- A file that somebody wrote, or none. -/
def machine : Machine State Action where
  init s := ∃ text : Option (List Char),
    s = { target := text.map .given, existed := text.isSome }
  step := State.step

/-- `load`; `src/core/settings_store.cpp:62`. -/
def load (path : String) : Option File → Except String AppConfig
  | none => .error ("cannot open " ++ path)
  | some file => AppConfig.parse (String.ofList file.text)

/-- What is at the target is all of something, and something is if ever there was. -/
def Intact (s : State) : Prop :=
  (∀ file, s.target = some file → file.Whole) ∧ (s.existed → s.target.isSome)

instance (file : File) : Decidable file.Whole := by
  cases file <;> unfold File.Whole <;> infer_instance

/-- All that was given to the stream is in the file that takes the target's place, and no target
is removed. -/
def Careful (s : State) (a : Action) : Prop :=
  match a, s.phase with
  | .call true, .replacing _ | .call true, .replacingAgain _ => s.temporary.any (decide ·.Whole)
  | .call true, .removing _ => s.target.isNone
  | _, _ => True

instance : DecidableRel Careful := by
  intro s a
  unfold Careful
  split <;> infer_instance

variable {s t : State} {a : Action} {config : AppConfig}

/-! ## When the settings survive -/

/-- What is at the target is all of it, and is known to be there. -/
structure Kept (s : State) : Prop where
  intact : Intact s
  existed : s.target.isSome → s.existed

private theorem kept_replace (h : s.temporary.any (decide ·.Whole)) (config : AppConfig) :
    Kept (s.replace config) := by
  obtain ⟨file, hfile, hwhole⟩ := (Option.any_eq_true _ _).mp h
  refine ⟨⟨?_, ?_⟩, fun _ ↦ rfl⟩
  · intro file' hfile'
    cases hfile.symm.trans hfile'
    exact of_decide_eq_true hwhole
  · intro _
    show s.temporary.isSome
    rw [hfile]
    rfl

private theorem kept_step (a : Action) (hg : Careful s a) (hs : Kept s)
    (ht : s.step a = some t) : Kept t := by
  cases a with
  | ends =>
    cases ht
    exact ⟨hs.intact, hs.existed⟩
  | save config =>
    rw [State.step] at ht
    split at ht
    · cases ht
      exact ⟨hs.intact, hs.existed⟩
    · cases ht
      exact ⟨hs.intact, hs.existed⟩
    · cases ht
  | write length ok =>
    rw [State.step] at ht
    split at ht
    · obtain ⟨-, heq⟩ := Option.ite_none_right_eq_some.mp ht
      cases heq
      exact ⟨hs.intact, hs.existed⟩
    · obtain ⟨-, heq⟩ := Option.ite_none_right_eq_some.mp ht
      cases heq
      exact ⟨hs.intact, hs.existed⟩
    · cases ht
  | call ok =>
    rw [State.step] at ht
    cases hphase : s.phase with
    | idle => rw [hphase] at ht; cases ht
    | writing config => rw [hphase] at ht; cases ht
    | closing config => rw [hphase] at ht; cases ht
    | returned config failure => rw [hphase] at ht; cases ht
    | creating config =>
      rw [hphase] at ht
      cases ht
      exact ⟨hs.intact, hs.existed⟩
    | opening config =>
      rw [hphase] at ht
      cases ok <;> cases ht <;> exact ⟨hs.intact, hs.existed⟩
    | replacing config =>
      rw [hphase] at ht
      cases ok with
      | false =>
        cases ht
        exact ⟨hs.intact, hs.existed⟩
      | true =>
        cases ht
        simp only [Careful, hphase] at hg
        exact kept_replace hg config
    | removing config =>
      rw [hphase] at ht
      cases ok with
      | false =>
        cases ht
        exact ⟨hs.intact, hs.existed⟩
      | true =>
        cases ht
        simp only [Careful, hphase] at hg
        have hnone : s.target = none := Option.isNone_iff_eq_none.mp hg
        refine ⟨⟨nofun, fun hex ↦ ?_⟩, nofun⟩
        have hsome := hs.intact.2 hex
        rw [hnone] at hsome
        exact hsome
    | replacingAgain config =>
      rw [hphase] at ht
      cases ok with
      | false =>
        cases ht
        exact ⟨hs.intact, hs.existed⟩
      | true =>
        cases ht
        simp only [Careful, hphase] at hg
        exact kept_replace hg config
    | givingUp config =>
      rw [hphase] at ht
      cases ht
      exact ⟨hs.intact, hs.existed⟩

/-- A file that lacks something, or none, has taken the target's place. -/
private theorem not_intact_replace (h : ¬ s.temporary.any (decide ·.Whole)) (config : AppConfig) :
    ¬ Intact (s.replace config) := by
  rintro ⟨hwhole, hsome⟩
  apply h
  change true → s.temporary.isSome at hsome
  obtain ⟨file, hfile⟩ := Option.isSome_iff_exists.mp (hsome rfl)
  rw [hfile, Option.any_some]
  exact decide_eq_true (hwhole file hfile)

private theorem harm_step (a : Action) (hs : Kept s) (hg : ¬ Careful s a)
    (ht : s.step a = some t) : ¬ Intact t := by
  cases a with
  | ends => exact absurd trivial hg
  | save config => exact absurd trivial hg
  | write length ok => exact absurd trivial hg
  | call ok =>
    cases ok with
    | false => exact absurd trivial hg
    | true =>
      unfold Careful at hg
      rw [State.step] at ht
      cases hphase : s.phase with
      | idle => rw [hphase] at hg; exact absurd trivial hg
      | writing config => rw [hphase] at hg; exact absurd trivial hg
      | closing config => rw [hphase] at hg; exact absurd trivial hg
      | returned config failure => rw [hphase] at hg; exact absurd trivial hg
      | creating config => rw [hphase] at hg; exact absurd trivial hg
      | opening config => rw [hphase] at hg; exact absurd trivial hg
      | givingUp config => rw [hphase] at hg; exact absurd trivial hg
      | replacing config =>
        rw [hphase] at hg ht
        cases ht
        exact not_intact_replace hg config
      | replacingAgain config =>
        rw [hphase] at hg ht
        cases ht
        exact not_intact_replace hg config
      | removing config =>
        rw [hphase] at hg ht
        cases ht
        rintro ⟨-, hsome⟩
        have hthere : s.target.isSome := by
          rw [← Option.not_isNone, Bool.not_eq_true']
          exact Bool.eq_false_iff.mpr hg
        exact absurd (hsome (hs.existed hthere)) Bool.false_ne_true

/-- Through any number of saves, failing calls and ends of the process, the settings at the target
are those somebody wrote or all of some configuration, and are there if ever they were, exactly
when no temporary file that lacks something is renamed and no target is removed. -/
theorem settings_survive_iff (text : Option (List Char)) (as : List Action)
    (ht : machine.run { target := text.map .given, existed := text.isSome } as = some t) :
    machine.Always Intact { target := text.map .given, existed := text.isSome } as ↔
      machine.runUnder Careful { target := text.map .given, existed := text.isSome } as =
        some t := by
  have hinit : Kept { target := text.map .given, existed := text.isSome } := by
    cases text with
    | none => exact ⟨⟨nofun, nofun⟩, nofun⟩
    | some text =>
      refine ⟨⟨?_, fun _ ↦ rfl⟩, fun _ ↦ rfl⟩
      intro file hfile
      cases hfile
      trivial
  exact Machine.always_iff_runUnder_of_invariant (m := machine) (fun s hs ↦ hs.intact)
    (fun s a t hg hs ht ↦ kept_step a hg hs ht) (fun s a t hs hg ht ↦ harm_step a hs hg ht) hinit
    as ht

theorem settings_survive_iff_refused :
    ∃ t, machine.run { target := some (.given []), existed := true }
        [.save {}, .call true, .call false] = some t ∧
      (machine.Always Intact { target := some (.given []), existed := true }
          [.save {}, .call true, .call false] ↔
        machine.runUnder Careful { target := some (.given []), existed := true }
          [.save {}, .call true, .call false] = some t) :=
  ⟨_, rfl, settings_survive_iff (some []) [.save {}, .call true, .call false] rfl⟩

/-! ## One save -/

/-- `save` begins. -/
def Action.saves : Action → Bool
  | .save _ => true
  | _ => false

/-- All of a configuration. -/
def whole (config : AppConfig) : File := .written config (document config).length

/-- What `save` has the temporary file filled with. -/
def Fills (s : State) (config : AppConfig) : Prop :=
  ∃ length, s.temporary = some (.written config length)

/-- How far one `save` has come, and what is at the target until it has come to its end. -/
def Saving (old : Option File) (config : AppConfig) (s : State) : Prop :=
  match s.phase with
  | .idle => s.target = old ∨ s.target = some (whole config)
  | .creating c | .opening c | .givingUp c => c = config ∧ s.target = old
  | .writing c | .closing c | .replacing c | .removing c | .replacingAgain c =>
    c = config ∧ s.target = old ∧ Fills s config
  | .returned _ (some _) => s.target = old
  | .returned _ none => s.target = some (whole config)

variable {old : Option File}

/-- The temporary file that takes the target's place is all of the configuration. -/
private theorem saving_replace (hfills : Fills s config)
    (hwhole : s.temporary.any (decide ·.Whole)) : (s.replace config).target = some (whole config) := by
  obtain ⟨length, heq⟩ := hfills
  rw [heq, Option.any_some] at hwhole
  have hlength : length = (document config).length := of_decide_eq_true hwhole
  show s.temporary = _
  rw [heq, hlength]
  rfl

private theorem saving_step (a : Action) (hno : a.saves = false) (hg : Careful s a)
    (hs : Saving old config s) (ht : s.step a = some t) : Saving old config t := by
  unfold Saving at hs
  cases a with
  | save c => cases hno
  | ends =>
    cases ht
    show s.target = old ∨ s.target = some (whole config)
    cases hphase : s.phase with
    | idle => rw [hphase] at hs; exact hs
    | creating c => rw [hphase] at hs; exact .inl hs.2
    | opening c => rw [hphase] at hs; exact .inl hs.2
    | givingUp c => rw [hphase] at hs; exact .inl hs.2
    | writing c => rw [hphase] at hs; exact .inl hs.2.1
    | closing c => rw [hphase] at hs; exact .inl hs.2.1
    | replacing c => rw [hphase] at hs; exact .inl hs.2.1
    | removing c => rw [hphase] at hs; exact .inl hs.2.1
    | replacingAgain c => rw [hphase] at hs; exact .inl hs.2.1
    | returned c failure =>
      rw [hphase] at hs
      cases failure with
      | none => exact .inr hs
      | some f => exact .inl hs
  | write length ok =>
    rw [State.step] at ht
    split at ht
    · next c c' written hphase htemporary =>
      rw [hphase] at hs
      obtain ⟨rfl, htarget, -⟩ := hs
      obtain ⟨-, heq⟩ := Option.ite_none_right_eq_some.mp ht
      cases heq
      cases ok with
      | true => exact ⟨rfl, htarget, length, rfl⟩
      | false => exact htarget
    · next c c' written hphase htemporary =>
      rw [hphase] at hs
      obtain ⟨rfl, htarget, -⟩ := hs
      obtain ⟨-, heq⟩ := Option.ite_none_right_eq_some.mp ht
      cases heq
      exact ⟨rfl, htarget, length, rfl⟩
    · cases ht
  | call ok =>
    rw [State.step] at ht
    cases hphase : s.phase with
    | idle => rw [hphase] at ht; cases ht
    | writing c => rw [hphase] at ht; cases ht
    | closing c => rw [hphase] at ht; cases ht
    | returned c failure => rw [hphase] at ht; cases ht
    | creating c =>
      rw [hphase] at ht hs
      cases ht
      cases ok with
      | true => exact hs
      | false => exact hs.2
    | opening c =>
      rw [hphase] at ht hs
      obtain ⟨rfl, htarget⟩ := hs
      cases ok with
      | true =>
        cases ht
        exact ⟨rfl, htarget, 0, rfl⟩
      | false =>
        cases ht
        exact htarget
    | replacing c =>
      rw [hphase] at ht hs
      obtain ⟨rfl, htarget, hfills⟩ := hs
      cases ok with
      | true =>
        cases ht
        simp only [Careful, hphase] at hg
        exact saving_replace hfills hg
      | false =>
        cases ht
        exact ⟨rfl, htarget, hfills⟩
    | removing c =>
      rw [hphase] at ht hs
      obtain ⟨rfl, htarget, hfills⟩ := hs
      cases ok with
      | true =>
        -- there was nothing to remove
        cases ht
        simp only [Careful, hphase] at hg
        exact ⟨rfl, (Option.isNone_iff_eq_none.mp hg).symm.trans htarget, hfills⟩
      | false =>
        cases ht
        exact ⟨rfl, htarget, hfills⟩
    | replacingAgain c =>
      rw [hphase] at ht hs
      obtain ⟨rfl, htarget, hfills⟩ := hs
      cases ok with
      | true =>
        cases ht
        simp only [Careful, hphase] at hg
        exact saving_replace hfills hg
      | false =>
        cases ht
        exact ⟨rfl, htarget⟩
    | givingUp c =>
      rw [hphase] at ht hs
      cases ht
      exact hs.2

/-- The file that `save` leaves is read as the text of its configuration is. -/
theorem load_whole (path : String) (hc : config.Typed) :
    (load path (some (whole config))).toOption =
      (AppConfig.parse (config.toJson.serialize true)).toOption := by
  have htext : String.ofList (whole config).text = config.toJson.serialize true ++ "\n" := by
    rw [whole, File.text, List.take_length, document, String.ofList_append, String.ofList_toList]
  rw [load, htext, AppConfig.parse_line hc]

/-- `save` begins where none runs. -/
private theorem step_save (ht : s.step (.save config) = some t) :
    t = { s with phase := .creating config } := by
  rw [State.step] at ht
  split at ht <;> cases ht <;> rfl

/-- However far one `save` comes, and wherever the process ends in it, the target is what it was or
all of the new settings: the new ones when `save` says so, which `load` then reads as they were
written, and what it was when it says that it failed. -/
theorem save_atomic (path : String) (as : List Action)
    (hno : ∀ a ∈ as, a.saves = false) (hc : config.Typed)
    (ht : machine.runUnder Careful s (.save config :: as) = some t) :
    (t.target = s.target ∨ t.target = some (whole config)) ∧
      (∀ c, t.phase = .returned c none → (load path t.target).toOption =
        (AppConfig.parse (config.toJson.serialize true)).toOption) ∧
      ∀ c failure, t.phase = .returned c (some failure) → t.target = s.target := by
  have hrun : ∀ (as : List Action) {u : State}, (∀ a ∈ as, a.saves = false) →
      Saving s.target config u → machine.runUnder Careful u as = some t →
      Saving s.target config t := by
    intro as
    induction as with
    | nil =>
      intro u _ hu ht
      cases ht
      exact hu
    | cons a rest ih =>
      intro u hno hu ht
      rw [Machine.runUnder] at ht
      obtain ⟨hg, ht⟩ := Option.ite_none_right_eq_some.mp ht
      obtain ⟨v, hv, hrest⟩ := Option.bind_eq_some_iff.mp ht
      exact ih (fun b hb ↦ hno b (List.mem_cons_of_mem a hb))
        (saving_step a (hno a List.mem_cons_self) hg hu hv) hrest
  rw [Machine.runUnder, if_pos (show Careful s (.save config) from trivial)] at ht
  obtain ⟨u, hu, ht⟩ := Option.bind_eq_some_iff.mp ht
  have hfirst : Saving s.target config u := by
    rw [step_save hu]
    exact ⟨rfl, rfl⟩
  have hsaving := hrun as hno hfirst ht
  unfold Saving at hsaving
  refine ⟨?_, ?_, ?_⟩
  · cases hphase : t.phase with
    | idle => rw [hphase] at hsaving; exact hsaving
    | creating c => rw [hphase] at hsaving; exact .inl hsaving.2
    | opening c => rw [hphase] at hsaving; exact .inl hsaving.2
    | givingUp c => rw [hphase] at hsaving; exact .inl hsaving.2
    | writing c => rw [hphase] at hsaving; exact .inl hsaving.2.1
    | closing c => rw [hphase] at hsaving; exact .inl hsaving.2.1
    | replacing c => rw [hphase] at hsaving; exact .inl hsaving.2.1
    | removing c => rw [hphase] at hsaving; exact .inl hsaving.2.1
    | replacingAgain c => rw [hphase] at hsaving; exact .inl hsaving.2.1
    | returned c failure =>
      rw [hphase] at hsaving
      cases failure with
      | none => exact .inr hsaving
      | some f => exact .inl hsaving
  · intro c hphase
    rw [hphase] at hsaving
    rw [hsaving]
    exact load_whole path hc
  · intro c failure hphase
    rw [hphase] at hsaving
    exact hsaving

/-- The calls of a save that meets no failure. -/
private def smooth (config : AppConfig) : List Action :=
  [.call true, .call true, .write 0 true, .write (document config).length true, .call true]

/-- A save before could not open its temporary file. -/
private def failed (config : AppConfig) : State :=
  { target := some (.given []), phase := .returned config (some .openTemporary), existed := true }

/-- What such a save leaves. -/
private theorem run_smooth (config : AppConfig) :
    machine.runUnder Careful (failed config) (.save config :: smooth config) =
      some { target := some (whole config), phase := .returned config none, existed := true } := by
  simp [failed, smooth, machine, Machine.runUnder, Careful, State.step, State.replace, File.Whole,
    whole]

theorem save_atomic_smooth :
    (load "settings.json" (some (whole {}))).toOption =
      (AppConfig.parse (({} : AppConfig).toJson.serialize true)).toOption :=
  (save_atomic "settings.json" (smooth {}) (by decide)
    ⟨by decide, by decide, by simp⟩ (run_smooth {})).2.1 {} rfl

end WebLinked.Core.SettingsFile
