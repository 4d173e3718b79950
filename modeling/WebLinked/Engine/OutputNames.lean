import WebLinked.Base.Keyed
import WebLinked.Engine.OutputRequests

/-!
# Output names are distinct and a preview stays the only one

`src/engine/engine.cpp:700–777,921–1231`. A request that changes the names or the kinds reads
the list, lets go of the mutex for a driver and changes the list afterwards. Nothing else
changes them meanwhile, so what it checked still holds when it does.
-/

namespace WebLinked.Engine.OutputRequests

open WebLinked.Base WebLinked.Core Json OutputList Keyed

/-- Name and kind. -/
def Record.listed (r : Record) : String × String := (r.spec.name, r.spec.kind)

/-- The names and kinds of the list. -/
def State.listed (s : State) : List (String × String) := s.records.map Record.listed

/-- What a request does to the names and kinds when it is through. -/
inductive Change where
  | add (name kind : String)
  | replace (name newName newKind : String)
  | remove (name : String)

namespace Change

/-- How many of a list are permanent. -/
def permanents (listed : List (String × String)) : ℕ :=
  listed.countP fun output ↦ outputKindIsPermanent output.2

/-- What the checks of a request ask of the list. -/
def Allowed (listed : List (String × String)) : Change → Prop
  | add name kind =>
    name ∉ listed.map Prod.fst ∧ (outputKindIsPermanent kind → permanents listed = 0)
  | replace name newName newKind =>
    (newName = name ∨ newName ∉ listed.map Prod.fst) ∧
      ∀ kind, (name, kind) ∈ listed → outputKindIsPermanent kind = outputKindIsPermanent newKind
  | remove name => ∀ kind, (name, kind) ∈ listed → outputKindIsPermanent kind = false

/-- The list with the change made. -/
def apply (listed : List (String × String)) : Change → List (String × String)
  | add name kind => listed ++ [(name, kind)]
  | replace name newName newKind =>
    Keyed.replace Prod.fst name (newName, newKind) listed
  | remove name => Keyed.remove Prod.fst name listed

variable {listed : List (String × String)} {change : Change}

/-- An allowed change keeps names distinct. -/
theorem Allowed.distinct (h : change.Allowed listed) (hn : Distinct Prod.fst listed) :
    Distinct Prod.fst (change.apply listed) := by
  cases change with
  | add name kind => exact hn.append h.1
  | replace name newName newKind => exact hn.replace h.1
  | remove name => exact hn.remove name

/-- An allowed change takes no permanent output away, and adds one only to none. -/
theorem Allowed.permanents (h : change.Allowed listed) :
    Change.permanents listed ≤ Change.permanents (change.apply listed) ∧
      Change.permanents (change.apply listed) ≤ max 1 (Change.permanents listed) := by
  cases change with
  | add name kind =>
    have hadd : Change.permanents (listed ++ [(name, kind)]) =
        Change.permanents listed + if outputKindIsPermanent kind then 1 else 0 := by
      simp [Change.permanents, List.countP_append, List.countP_singleton]
    rw [apply, hadd]
    split
    · next hk =>
      rw [h.2 hk]
      exact ⟨Nat.zero_le _, le_rfl⟩
    · exact ⟨le_rfl, le_max_right _ _⟩
  | replace name newName newKind =>
    have hsame : Change.permanents (apply listed (replace name newName newKind)) =
        Change.permanents listed :=
      Keyed.countP_replace fun output houtput hname ↦ h.2 output.2 (hname ▸ houtput)
    rw [hsame]
    exact ⟨le_rfl, le_max_right _ _⟩
  | remove name =>
    have hsame : Change.permanents (apply listed (remove name)) = Change.permanents listed :=
      Keyed.countP_remove fun output houtput hname ↦ h output.2 (hname ▸ houtput)
    rw [hsame]
    exact ⟨le_rfl, le_max_right _ _⟩

end Change

/-- What the request will do to the names and kinds, once it has checked that it may. -/
def Phase.change : Phase → Option Change
  | .creating spec _ => some (.add spec.name spec.kind)
  | .adding record _ => some (.add record.spec.name record.spec.kind)
  | .probing u | .assigning u | .disabling u | .replacing u | .replaced u _ =>
    some (.replace u.name u.spec.name u.spec.kind)
  | .removing name _ _ | .removed name _ _ => some (.remove name)
  | _ => none

section Steps

variable {s t : State} {name : String} {f : Record → Record}

/-- Where names are distinct, a change of the entry found is a change of all of that name. -/
private theorem listed_modify {newName newKind : String} (h : ∀ r, (f r).listed = (newName, newKind))
    (records : List Record) (hn : Distinct Prod.fst (records.map Record.listed)) :
    (modify name f records).map Record.listed =
      Change.apply (records.map Record.listed) (.replace name newName newKind) := by
  induction records with
  | nil => rfl
  | cons r records ih =>
    have hfst : r.listed.1 = r.spec.name := rfl
    rw [modify, List.map_cons, Change.apply, Keyed.replace, List.map_cons, hfst, ← Keyed.replace]
    split
    · next hname =>
      have hothers : ∀ output ∈ records.map Record.listed, output.1 ≠ name :=
        fun output houtput h ↦ hn.ne_of_mem_tail houtput (h.trans hname.symm)
      rw [List.map_cons, h, replace_of_forall_ne hothers]
    · rw [List.map_cons, ih hn.tail, Change.apply]

/-- Where names are distinct, the entry found is all of that name. -/
private theorem listed_eraseP (name : String) (records : List Record)
    (hn : Distinct Prod.fst (records.map Record.listed)) :
    (records.eraseP (·.spec.name = name)).map Record.listed =
      Change.apply (records.map Record.listed) (.remove name) := by
  rw [Change.apply, ← hn.eraseP_eq, List.eraseP_map]
  rfl

/-- Every record under the name found is the one found. -/
private theorem kind_of_find {r : Record} (hn : Distinct Prod.fst s.listed)
    (hr : find s.records name = some r) {kind : String} (h : (name, kind) ∈ s.listed) :
    kind = r.spec.kind := by
  have hmem : r.listed ∈ s.listed := List.mem_map_of_mem (List.mem_of_find?_eq_some hr)
  have hname : r.spec.name = name := by simpa using List.find?_some hr
  exact congrArg Prod.snd (hn.eq h hmem hname.symm)

/-- Whether a name is taken. -/
private theorem any_name (records : List Record) (name : String) :
    records.any (·.spec.name = name) = decide (name ∈ (records.map Record.listed).map Prod.fst) := by
  rw [Bool.eq_iff_iff]
  simp [Record.listed]

/-- Whether there is a permanent output. -/
private theorem any_permanent (records : List Record) :
    records.any (outputKindIsPermanent ·.spec.kind) =
      decide (Change.permanents (records.map Record.listed) ≠ 0) := by
  rw [Bool.eq_iff_iff, decide_eq_true_iff, List.any_eq_true, Change.permanents, List.countP_map,
    ← Nat.pos_iff_ne_zero, List.countP_pos_iff]
  rfl

/-- The next phase has the same change to make or none, or has just checked it. -/
def Carries (s : State) (phase : Phase) (t : State) : Prop :=
  t.listed = s.listed ∧ ∀ next, t.current = some next → ∀ change ∈ next.change,
    change ∈ phase.change ∨ change.Allowed s.listed

/-- The phase has made its change. -/
def Makes (s : State) (phase : Phase) (t : State) : Prop :=
  t.current = none ∧ ∃ change ∈ phase.change, t.listed = change.apply s.listed

private theorem carries_finish {phase : Phase} {records : List Record} {outcome : Outcome}
    (h : records.map Record.listed = s.listed) : Carries s phase (s.finish records outcome) := by
  have hnone : (s.finish records outcome).current = none := rfl
  refine ⟨h, fun next hnext ↦ ?_⟩
  rw [hnone] at hnext
  cases hnext

private theorem carries_next {phase next : Phase} (h : t.listed = s.listed)
    (hnext : t.current = some next)
    (hc : ∀ change ∈ next.change, change ∈ phase.change ∨ change.Allowed s.listed) :
    Carries s phase t := by
  refine ⟨h, fun next' hnext' ↦ ?_⟩
  obtain rfl : next = next' := Option.some.inj (hnext.symm.trans hnext')
  exact hc

private theorem listed_kept (h : ∀ r, (f r).listed = r.listed) (name : String) :
    (modify name f s.records).map Record.listed = s.listed :=
  map_modify Record.listed h name s.records

/-- Feeding what came back leaves names and kinds. -/
private theorem listed_feedOne (acc : List Record × Option String) (item : Item) :
    (State.feedOne acc item).1.map Record.listed = acc.1.map Record.listed := by
  unfold State.feedOne
  split
  · rfl
  · split
    · next millis _ =>
      exact map_modify
        (f := fun r ↦ { r with
          lastError := "did not stop for the format change: " ++ busyMessage item.name millis })
        Record.listed (fun _ ↦ rfl) item.name acc.1
    · split
      · rfl
      · split
        · exact map_modify (f := fun r ↦ { r with enabled := true, lastError := "" })
            Record.listed (fun _ ↦ rfl) item.name acc.1
        · exact map_modify (f := fun r ↦ { r with lastError := item.startError })
            Record.listed (fun _ ↦ rfl) item.name acc.1

private theorem listed_foldl_feedOne (items : List Item) (acc : List Record × Option String) :
    (items.foldl State.feedOne acc).1.map Record.listed = acc.1.map Record.listed := by
  induction items generalizing acc with
  | nil => rfl
  | cons item items ih => rw [List.foldl_cons, ih, listed_feedOne]

/-- A request that has got the queue makes its checks. -/
private theorem entered_carries (hn : Distinct Prod.fst s.listed) (request : Request)
    (a : Answers) : Carries s (.entered request) (s.advance a (.entered request)) := by
  have hkind {name : String} {r : Record} (hr : find s.records name = some r) (kind : String)
      (h : (name, kind) ∈ s.listed) : kind = r.spec.kind := kind_of_find hn hr h
  cases request with
  | setOutputEnabled name enabled =>
    rw [State.advance, State.enterEnable]
    split
    · exact carries_finish rfl
    · split
      · exact carries_finish rfl
      · refine carries_next ?_ rfl nofun
        cases enabled with
        | true => rfl
        | false => exact listed_kept (f := Record.feed false) (fun _ ↦ rfl) name
  | addOutput spec =>
    rw [State.advance, State.enterAdd]
    split
    · exact carries_finish rfl
    · next hname =>
      split
      · exact carries_finish rfl
      · next hpermanent =>
        refine carries_next rfl rfl fun change hchange ↦ Or.inr ?_
        cases hchange
        rw [any_name, decide_eq_true_eq] at hname
        rw [any_permanent, Bool.and_eq_true, decide_eq_true_eq, not_and, not_not] at hpermanent
        exact ⟨hname, hpermanent⟩
  | updateOutput name spec =>
    rw [State.advance, State.enterUpdate]
    split
    · exact carries_finish rfl
    · next r hr =>
      split
      · exact carries_finish rfl
      · next hstays =>
        split
        · exact carries_finish rfl
        · next hbecomes =>
          split
          · exact carries_finish rfl
          · next hname =>
            refine carries_next rfl rfl fun change hchange ↦ Or.inr ?_
            cases hchange
            refine ⟨?_, fun kind hmem ↦ ?_⟩
            · rw [any_name, Bool.and_eq_true, decide_eq_true_eq, decide_eq_true_eq, not_and] at hname
              by_cases hsame : spec.name = name
              · exact Or.inl hsame
              · exact Or.inr (hname hsame)
            · rw [hkind hr kind hmem]
              exact permanent_eq hstays hbecomes
  | removeOutput name =>
    rw [State.advance, State.enterRemove]
    split
    · exact carries_finish rfl
    · next r hr =>
      split
      · exact carries_finish rfl
      · next hpermanent =>
        refine carries_next ?_ rfl fun change hchange ↦ Or.inr ?_
        · exact listed_kept (f := Record.feed false) (fun _ ↦ rfl) name
        · cases hchange
          intro kind hmem
          rw [hkind hr kind hmem]
          simpa using hpermanent
  | setFormat waiting =>
    rw [State.advance, State.enterFormat]
    split
    · exact carries_finish rfl
    · refine carries_next ?_ rfl nofun
      exact List.map_map

/-- What an output was enabled with leaves names and kinds. -/
private theorem enabled_carries (name : String) (enabled wasEnabled : Bool)
    (result : Enabling) (a : Answers) : Carries s (.enabled name enabled wasEnabled result)
      (s.advance a (.enabled name enabled wasEnabled result)) := by
  have hback (message : String) : Carries s (.enabled name enabled wasEnabled result)
      (s.finish (modify name (Record.feed wasEnabled) s.records) (.refused message)) :=
    carries_finish (listed_kept (f := Record.feed wasEnabled) (fun _ ↦ rfl) name)
  cases result with
  | busy millis => exact hback _
  | empty => exact hback _
  | ran start =>
    rw [State.advance]
    unfold State.commitEnable
    dsimp only
    split
    · exact carries_finish rfl
    · split
      · exact carries_finish (listed_kept (f := Record.feed false) (fun _ ↦ rfl) name)
      · cases start with
        | some error =>
          exact carries_finish (listed_kept
            (f := fun r ↦ { r with lastError := error, enabled := false }) (fun _ ↦ rfl) name)
        | none =>
          exact carries_finish (listed_kept
            (f := fun r ↦ { r with lastError := "", enabled := true }) (fun _ ↦ rfl) name)

/-- What an output was replaced with leaves them, or makes the change. -/
private theorem replaced_carries (hn : Distinct Prod.fst s.listed) (u : Update)
    (result : Replacing) (a : Answers) :
    Carries s (.replaced u result) (s.advance a (.replaced u result)) ∨
      Makes s (.replaced u result) (s.advance a (.replaced u result)) := by
  cases result with
  | busy millis =>
    exact Or.inl (carries_finish
      (listed_kept (f := Record.feed u.wasEnabled) (fun _ ↦ rfl) u.name))
  | replaced =>
    rw [State.advance, State.commitUpdate]
    split
    · exact Or.inl (carries_finish rfl)
    · refine Or.inr ⟨rfl, _, rfl, ?_⟩
      exact listed_modify
        (f := fun r ↦ { r with
          desc := (s.slots u.slot).description, spec := u.spec, enabled := true, lastError := "" })
        (fun _ ↦ rfl) s.records hn
  | failed error restored =>
    rw [State.advance, State.commitUpdate]
    refine Or.inl ?_
    split
    · exact carries_finish rfl
    · exact carries_finish (listed_kept
        (f := fun r ↦ { r with
          desc := (s.slots u.slot).description, enabled := restored, lastError := error })
        (fun _ ↦ rfl) u.name)

/-- Every step of a request leaves names and kinds, or makes the change it has checked. -/
private theorem advance_carries (hn : Distinct Prod.fst s.listed) (phase : Phase)
    (a : Answers) : Carries s phase (s.advance a phase) ∨ Makes s phase (s.advance a phase) := by
  cases phase with
  | entered request => exact Or.inl (entered_carries hn request a)
  | enabling name enabled wasEnabled slot format =>
    rw [State.advance, State.driveEnable]
    refine Or.inl ?_
    split
    · exact carries_next rfl rfl nofun
    · exact carries_next rfl rfl nofun
    · split
      · split
        · exact carries_next rfl rfl nofun
        · exact carries_next rfl rfl nofun
      · exact carries_next rfl rfl nofun
  | enabled name enabled wasEnabled result =>
    exact Or.inl (enabled_carries name enabled wasEnabled result a)
  | creating spec format =>
    rw [State.advance, State.driveAdd]
    refine Or.inl ?_
    split
    · exact carries_finish rfl
    · refine carries_next rfl rfl fun change hchange ↦ Or.inl ?_
      have hspec : (Record.ofEntry (Entry.opened spec format a.add) s.fresh).spec = spec :=
        spec_opened spec format a.add
      rw [Phase.change, hspec] at hchange
      exact hchange
  | adding record start =>
    exact Or.inr ⟨rfl, _, rfl, List.map_append⟩
  | probing u =>
    have hgo : s.driveProbe u a.update = s.go s.records (.assigning u) ∨
        s.driveProbe u a.update = s.go s.records (.disabling u) := by
      rw [State.driveProbe]
      exact ite_eq_or_eq _ _ _
    rw [State.advance]
    rcases hgo with hgo | hgo <;> rw [hgo] <;>
      exact Or.inl (carries_next rfl rfl fun change hchange ↦ Or.inl hchange)
  | assigning u =>
    rw [State.advance, State.commitAssign]
    refine Or.inl ?_
    split
    · exact carries_finish rfl
    · exact carries_finish (listed_kept
        (f := fun r ↦ { r with spec := { r.spec with background := u.spec.background } })
        (fun _ ↦ rfl) u.name)
  | disabling u =>
    exact Or.inl (carries_next (listed_kept (f := Record.feed false) (fun _ ↦ rfl) u.name) rfl
      fun change hchange ↦ Or.inl hchange)
  | replacing u =>
    rw [State.advance, State.driveUpdate]
    refine Or.inl ?_
    split
    · exact carries_next rfl rfl fun change hchange ↦ Or.inl hchange
    · split
      · exact carries_next rfl rfl fun change hchange ↦ Or.inl hchange
      · exact carries_next rfl rfl fun change hchange ↦ Or.inl hchange
  | replaced u result => exact replaced_carries hn u result a
  | removing name wasEnabled slot =>
    refine Or.inl ?_
    cases ha : a.remove with
    | busy millis =>
      rw [State.advance, ha]
      exact carries_next rfl rfl fun change hchange ↦ Or.inl hchange
    | ran =>
      rw [State.advance, ha]
      exact carries_next rfl rfl fun change hchange ↦ Or.inl hchange
  | removed name wasEnabled gate =>
    cases gate with
    | busy millis =>
      exact Or.inl (carries_finish
        (listed_kept (f := Record.feed wasEnabled) (fun _ ↦ rfl) name))
    | ran => exact Or.inr ⟨rfl, _, rfl, listed_eraseP name s.records hn⟩
  | stopping w items => exact Or.inl (carries_next rfl rfl nofun)
  | parking w items => exact Or.inl (carries_next rfl rfl nofun)
  | reopening w parked items => exact Or.inl (carries_next rfl rfl nofun)
  | feeding w parked items =>
    exact Or.inl (carries_finish (listed_foldl_feedOne (items.map HeldItem.item) (s.records, none)))

end Steps

/-- The names are distinct, what a request is about to do is allowed, and an engine that
started with `count` permanent outputs has got no more than one if it had none. -/
structure Listed (count : ℕ) (s : State) : Prop where
  distinct : Distinct Prod.fst s.listed
  least : count ≤ Change.permanents s.listed
  most : Change.permanents s.listed ≤ max 1 count
  allowed : ∀ phase, s.current = some phase → ∀ change ∈ phase.change, change.Allowed s.listed

section Invariant

variable {s t : State} {count : ℕ}

private theorem Listed.advance (h : Listed count s) {phase : Phase} (hc : s.current = some phase)
    (a : Answers) : Listed count (s.advance a phase) := by
  rcases advance_carries h.distinct phase a with ⟨hlisted, hnext⟩ | ⟨hnone, change, hchange, hlisted⟩
  · refine ⟨hlisted ▸ h.distinct, hlisted ▸ h.least, hlisted ▸ h.most, fun next hn change hc' ↦ ?_⟩
    rw [hlisted]
    rcases hnext next hn change hc' with hmem | hallowed
    · exact h.allowed phase hc change hmem
    · exact hallowed
  · have hallowed := h.allowed phase hc change hchange
    obtain ⟨hleast, hmost⟩ := hallowed.permanents
    refine ⟨hlisted ▸ hallowed.distinct h.distinct, ?_, ?_, fun next hn ↦ ?_⟩
    · rw [hlisted]
      exact h.least.trans hleast
    · rw [hlisted]
      exact hmost.trans (max_le (le_max_left 1 count) h.most)
    · rw [hnone] at hn
      cases hn

private theorem Listed.congr (h : Listed count s) (hl : t.listed = s.listed)
    (hc : t.current = s.current) : Listed count t := by
  refine ⟨hl ▸ h.distinct, hl ▸ h.least, hl ▸ h.most, ?_⟩
  rw [hl, hc]
  exact h.allowed

/-- Every step keeps the names distinct and the preview the only one. -/
theorem Listed.step (h : Listed count s) {a : Action} (ht : s.step a = some t) :
    Listed count t := by
  cases a with
  | request request refusal =>
    cases refusal with
    | some message =>
      cases ht
      exact h.congr rfl rfl
    | none =>
      obtain ⟨-, ht⟩ := Option.ite_none_right_eq_some.mp ht
      cases ht
      refine ⟨h.distinct, h.least, h.most, fun phase hphase change hchange ↦ ?_⟩
      cases hphase
      cases hchange
  | advance answers =>
    obtain ⟨phase, hphase, rfl⟩ := Option.map_eq_some_iff.mp ht
    exact h.advance hphase answers
  | setOutputBackground name background =>
    cases ht
    exact h.congr (listed_kept (f := fun r ↦ { r with spec := { r.spec with background } })
      (fun _ ↦ rfl) name) rfl
  | tick =>
    cases ht
    exact h

/-- An engine lists the outputs of its configuration. -/
private theorem listed_start (c : SourceConfig) (answers : ℕ → OpenAnswers) :
    (start c answers).listed = c.outputs.map fun o ↦ (o.name, o.kind) := by
  have hrecord (i : ℕ) (o : OutputConfig) : (Record.ofEntry
      (Entry.opened (outputSpecFromConfig o) c.format (answers i)) i).listed = (o.name, o.kind) := by
    rw [Record.listed, Record.ofEntry, spec_opened]
    rfl
  refine List.ext_getElem (by simp [State.listed, start]) fun i hi hi' ↦ ?_
  simp [State.listed, start, hrecord]

/-- A started engine is as the configuration has it. -/
private theorem Listed.start {c : SourceConfig} (hc : c.ensurePreview.validate = .ok ())
    (answers : ℕ → OpenAnswers) :
    Listed (SourceConfig.previews c.ensurePreview.outputs) (start c.ensurePreview answers) := by
  have hpermanents : Change.permanents (OutputRequests.start c.ensurePreview answers).listed =
      SourceConfig.previews c.ensurePreview.outputs := by
    rw [listed_start, Change.permanents, List.countP_map]
    rfl
  have hnone : (OutputRequests.start c.ensurePreview answers).current = none := rfl
  refine ⟨?_, hpermanents.ge, hpermanents.le.trans (le_max_right _ _), fun phase hphase ↦ ?_⟩
  · rw [listed_start, Distinct, List.map_map]
    exact (SourceConfig.validate_eq_ok.mp hc).distinct
  · rw [hnone] at hphase
    cases hphase

end Invariant

/-- Where a call of `applyConfiguration` is; `src/engine/engine.cpp:700–777`. -/
inductive Applying where
  | comparing (c : SourceConfig)
  | setFormat (c : SourceConfig)
  | listing (c : SourceConfig)
  | removing (c : SourceConfig) (specs : List OutputSpec)
  | ensuring (outputs : List OutputConfig)

namespace Applying

/-- What an output asks of the list; `src/engine/engine.cpp:739–763`. -/
def ensure (s : State) (o : OutputConfig) : Option Request :=
  let spec := outputSpecFromConfig o
  match find s.records spec.name with
  | none => some (.addOutput spec)
  | some same =>
    if same.spec.same spec then none else some (.updateOutput spec.name spec)

/-- The request a call makes next, if any, and where it goes on. -/
def next (s : State) : Applying → Option Request × Option Applying
  | comparing c => (none, some (if c.format.equal s.format then listing c else setFormat c))
  | setFormat c =>
    (if s.format.equal c.format then none
      else some (.setFormat { format := c.format, previous := s.format }), some (listing c))
  | listing c => (none, some (removing c (s.records.map Record.spec)))
  | removing c [] => (none, some (ensuring c.outputs))
  | removing c (spec :: specs) =>
    (if c.outputs.any (·.name = spec.name) then none else some (.removeOutput spec.name),
      some (removing c specs))
  | ensuring [] => (none, none)
  | ensuring (o :: outputs) => (ensure s o, some (ensuring outputs))

end Applying

/-- An engine and the calls of `applyConfiguration` that are in it. -/
structure Calls where
  engine : State
  applying : List Applying := []

/-- A request or what it does next, or a call of `applyConfiguration` that comes or goes on; when
it makes a request, the queue may refuse it. -/
inductive Called where
  | engine (action : Action)
  | apply (c : SourceConfig)
  | goOn (call : ℕ) (refusal : Option String)

/-- One step. -/
def Calls.step (s : Calls) : Called → Option Calls
  | .engine action => (s.engine.step action).map fun engine ↦ { s with engine }
  | .apply c => some { s with applying := s.applying ++ [.comparing c] }
  | .goOn call refusal => do
    let applying ← s.applying[call]?
    let made := applying.next s.engine
    let engine ← made.1.elim (some s.engine) fun request ↦ s.engine.step (.request request refusal)
    some { engine, applying := made.2.elim (s.applying.eraseIdx call) (s.applying.set call) }

/-- An engine that `SourceManager::add` has started, and calls of `applyConfiguration`. -/
def calls : Machine Calls Called where
  init s := machine.init s.engine ∧ s.applying = []
  step := Calls.step

/-- What every step of the engine keeps, every call keeps. -/
private theorem Listed.called {s t : Calls} {count : ℕ} (h : Listed count s.engine) {a : Called}
    (ht : s.step a = some t) : Listed count t.engine := by
  cases a with
  | engine action =>
    obtain ⟨engine, hengine, rfl⟩ := Option.map_eq_some_iff.mp ht
    exact h.step hengine
  | apply c =>
    cases ht
    exact h
  | goOn call refusal =>
    obtain ⟨applying, -, ht⟩ := Option.bind_eq_some_iff.mp ht
    obtain ⟨engine, hengine, ht⟩ := Option.bind_eq_some_iff.mp ht
    cases ht
    generalize (applying.next s.engine).1 = request at hengine
    cases request with
    | none =>
      cases hengine
      exact h
    | some request => exact h.step hengine

/-- An engine and its calls, whatever is asked and answered. -/
theorem listed_of_run {c : SourceConfig} (hc : c.ensurePreview.validate = .ok ())
    (answers : ℕ → OpenAnswers) {actions : List Called} {s : Calls}
    (hs : calls.run { engine := start c.ensurePreview answers } actions = some s) :
    Listed (SourceConfig.previews c.ensurePreview.outputs) s.engine :=
  Machine.run_persists (B := fun s : Calls ↦
    Listed (SourceConfig.previews c.ensurePreview.outputs) s.engine)
    (fun _ _ _ h ht ↦ h.called ht) actions (Listed.start hc answers) hs

/-- Output names are distinct in every state of every run, and where the configuration does not
list two previews, no second output ever becomes one; and there is always one if the
configuration lists or wants it. -/
theorem distinct_names_one_preview (c : SourceConfig) (hc : c.ensurePreview.validate = .ok ())
    (answers : ℕ → OpenAnswers) (actions : List Called) (s : Calls)
    (hs : calls.run { engine := start c.ensurePreview answers } actions = some s) :
    (s.engine.records.map (·.spec.name)).Nodup ∧
      (SourceConfig.previews c.outputs ≤ 1 →
        s.engine.records.countP (outputKindIsPermanent ·.spec.kind) ≤ 1 ∧
        (c.wantPreview ∨ SourceConfig.previews c.outputs = 1 →
          s.engine.records.countP (outputKindIsPermanent ·.spec.kind) = 1)) := by
  have h := listed_of_run hc answers hs
  have hnames : (s.engine.listed.map Prod.fst) = s.engine.records.map (·.spec.name) := List.map_map
  have hpermanents : Change.permanents s.engine.listed =
      s.engine.records.countP (outputKindIsPermanent ·.spec.kind) := List.countP_map
  rw [← hnames, ← hpermanents]
  refine ⟨h.distinct, fun hone ↦ ?_⟩
  have hleast := h.least
  have hmost := h.most
  rw [SourceConfig.previews_ensurePreview] at hleast hmost
  refine ⟨?_, fun hwant ↦ ?_⟩
  · split at hmost <;> omega
  · split at hleast
    · next hadded =>
      rw [if_pos hadded] at hmost
      omega
    · next hkept =>
      rw [if_neg hkept] at hmost
      have hlists : SourceConfig.previews c.outputs = 1 := by
        rcases hwant with hwant | hlists
        · have hsome : SourceConfig.previews c.outputs ≠ 0 := fun h0 ↦ hkept ⟨hwant, h0⟩
          omega
        · exact hlists
      omega

/-- A source that lists one output and wants a preview. -/
private def oneSource : SourceConfig := { id := "main", outputs := [{ kind := "ndi", name := "out" }] }

private theorem oneSource_valid : oneSource.ensurePreview.validate = .ok () := by decide +kernel

/-- A settings file that has lost the preview and renames the one output is applied while a
request asks for a second preview. -/
private def renamed : List Called :=
  [.apply { id := "main", outputs := [{ kind := "ndi", name := "new" }] }, .goOn 0 none,
    .engine (.request (.addOutput { kind := "preview", name := "second" }) none), .goOn 0 none,
    .engine (.advance {}), .goOn 0 none, .engine (.advance {}), .goOn 0 none,
    .engine (.advance {}), .engine (.advance {}), .engine (.advance {}), .goOn 0 none,
    .goOn 0 none, .engine (.advance {}), .engine (.advance {}), .engine (.advance {})]

private theorem run_renamed :
    (calls.run { engine := start oneSource.ensurePreview fun _ ↦ {} } renamed).map
      (·.engine.listed) = some [("preview", "preview"), ("new", "ndi")] := by decide +kernel

/-- With a preview from the start there is one after a run. -/
theorem distinct_names_one_preview_renamed : ∃ s : Calls,
    calls.run { engine := start oneSource.ensurePreview fun _ ↦ {} } renamed = some s ∧
      s.engine.records.countP (outputKindIsPermanent ·.spec.kind) = 1 := by
  obtain ⟨s, hs, -⟩ := Option.map_eq_some_iff.mp run_renamed
  have h := distinct_names_one_preview oneSource oneSource_valid _ renamed s hs
  exact ⟨s, hs, (h.2 (by decide)).2 (Or.inl rfl)⟩

/-- A source that wants no preview has none. -/
theorem not_one_preview : ¬ ∀ (c : SourceConfig) (answers : ℕ → OpenAnswers)
    (actions : List Called) (s : Calls), c.ensurePreview.validate = .ok () →
      calls.run { engine := start c.ensurePreview answers } actions = some s →
        (s.engine.records.map (·.spec.name)).Nodup ∧
          s.engine.records.countP (outputKindIsPermanent ·.spec.kind) = 1 := by
  intro h
  have hnone := (h { id := "main", wantPreview := false } (fun _ ↦ {}) [] _ (by decide +kernel) rfl).2
  cases hnone

end WebLinked.Engine.OutputRequests
