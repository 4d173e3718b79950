import Mathlib
import WebLinked.Engine.SourceRemovals

/-!
# The order a reconcile leaves sources in

`src/engine/source_manager.cpp:197–246`. Kept sources stay where they were and new ones go to the
end of the table, each in the order it is wanted in.
-/

namespace WebLinked.Engine.SourceManager

open WebLinked.Base WebLinked.Core WebLinked.Core.SourceTable

/-- An error that is noted is empty when neither it nor the one before says anything. -/
theorem note_eq_empty (a : Apply) (message : String) :
    (a.note message).firstError = "" ↔ a.firstError = "" ∧ message = "" := by
  unfold Apply.note
  by_cases h : a.firstError = "" <;> simp [h]

/-- A message that ends in something is not empty. -/
theorem append_ne_empty (s : String) {t : String} (h : t ≠ "") : s ++ t ≠ "" :=
  fun ht ↦ h (String.append_eq_empty_iff.mp ht).2

/-- A refused removal says why. -/
theorem removalError_eq_empty (id : String) (removal : Removal) :
    removalError id removal = "" ↔ removal = .kRemoved := by
  cases removal with
  | kRemoved => exact ⟨fun _ ↦ rfl, fun _ ↦ rfl⟩
  | kMissing => exact ⟨fun h ↦ absurd h (append_ne_empty _ (by decide)), nofun⟩
  | kBusy => exact ⟨fun h ↦ absurd h (append_ne_empty _ (by decide)), nofun⟩
  | kRemoving => exact ⟨fun h ↦ absurd h (append_ne_empty _ (by decide)), nofun⟩

/-- An id that is taken is said to be. -/
theorem existsError_ne_empty (id : String) : existsError id ≠ "" :=
  append_ne_empty _ (by decide)

/-- A configuration that does not pass is told why. -/
theorem validate_error_ne_empty {c : SourceConfig} {message : String}
    (h : c.validate = .error message) : message ≠ "" := by
  have hnames : ∀ names outputs, SourceConfig.checkNames c.id names outputs = .error message →
      message ≠ "" := by
    intro names outputs
    induction outputs generalizing names with
    | nil => intro h; cases h
    | cons o outputs ih =>
      intro h
      unfold SourceConfig.checkNames at h
      split at h
      · cases h
        simp
      · split at h
        · cases h
          simp
        · exact ih _ h
  unfold SourceConfig.validate at h
  split at h
  · cases h
    simp
  split at h
  · cases h
    simp
  split at h
  · cases h
    simp
  split at h
  · cases h
    simp
  split at h
  · cases h
    simp
  split at h
  · cases h
    simp
  · exact hnames _ _ h

/-- How far a reconcile without errors has come from the sources `ids`: it wants `wanted`, has
`removals` to take out, has `todo` to come to, and `now` is open. -/
def Reconciled (ids wanted removals todo : List String) (error : String) (now : List String) :
    Prop :=
  error = "" → ∃ done, wanted = done ++ todo ∧ (removals ≠ [] → done = []) ∧ removals.Nodup ∧
    (∀ id ∈ removals, id ∉ wanted) ∧
    now = ids.filter (fun id ↦ id ∈ wanted ∨ id ∈ removals) ++ done.filter (· ∉ ids)

section Reconciled

variable {ids wanted removals todo now : List String} {error id : String}

/-- Before the first removal. -/
theorem reconciled_start (hids : ids.Nodup) :
    Reconciled ids wanted (ids.filter (· ∉ wanted)) wanted "" ids := by
  rintro -
  refine ⟨[], rfl, fun _ ↦ rfl, hids.filter _, ?_, ?_⟩
  · intro id hid
    simpa using (List.mem_filter.mp hid).2
  · rw [List.filter_nil, List.append_nil]
    symm
    rw [List.filter_eq_self]
    intro id hid
    by_cases hw : id ∈ wanted <;> simp [hw, hid]

/-- After a removal. -/
theorem reconciled_remove (hr : Reconciled ids wanted (id :: removals) todo error now) :
    Reconciled ids wanted removals todo error (now.filter (· ≠ id)) := by
  intro he
  obtain ⟨done, hw, hdone, hnodup, hout, rfl⟩ := hr he
  obtain ⟨hfresh, hnodup⟩ := List.nodup_cons.mp hnodup
  have hd := hdone (List.cons_ne_nil _ _)
  subst hd
  refine ⟨[], hw, fun _ ↦ rfl, hnodup, fun x hx ↦ hout x (List.mem_cons_of_mem _ hx), ?_⟩
  rw [List.filter_nil, List.append_nil, List.append_nil, List.filter_filter]
  refine List.filter_congr fun x _ ↦ ?_
  by_cases hx : x = id
  · subst hx
    have hnot := hout x List.mem_cons_self
    simp [hnot, hfresh]
  · simp [hx]

/-- After a source that was open is reached. -/
theorem reconciled_reach (hn : wanted.Nodup) (hr : Reconciled ids wanted [] (id :: todo) error now)
    (hid : id ∈ now) : Reconciled ids wanted [] todo error now := by
  intro he
  obtain ⟨done, hw, -, -, -, rfl⟩ := hr he
  have hopen : id ∈ ids := by
    rcases List.mem_append.mp hid with hid | hid
    · exact (List.mem_filter.mp hid).1
    · rw [hw, List.nodup_append] at hn
      exact absurd rfl (hn.2.2 id (List.mem_filter.mp hid).1 id List.mem_cons_self)
  refine ⟨done ++ [id], by simp [hw], nofun, List.nodup_nil, nofun, ?_⟩
  simp [List.filter_append, hopen]

/-- After a source that was not open is added. -/
theorem reconciled_add (hr : Reconciled ids wanted [] (id :: todo) error now) (hid : id ∉ now) :
    Reconciled ids wanted [] todo error (now ++ [id]) := by
  intro he
  obtain ⟨done, hw, -, -, -, rfl⟩ := hr he
  have hnew : id ∉ ids := by
    intro hopen
    apply hid
    apply List.mem_append_left
    rw [List.mem_filter]
    refine ⟨hopen, ?_⟩
    simp [hw]
  refine ⟨done ++ [id], by simp [hw], nofun, List.nodup_nil, nofun, ?_⟩
  simp [List.filter_append, hnew]

/-- At its end. -/
theorem reconciled_done (hr : Reconciled ids wanted [] [] "" now) :
    now = ids.filter (· ∈ wanted) ++ wanted.filter (· ∉ ids) := by
  obtain ⟨done, hw, -, -, -, hnow⟩ := hr rfl
  rw [hnow, hw]
  simp

end Reconciled

/-- How far a lone `applyConfiguration` has come. -/
def Phase.Orders (ids wanted : List String) (table : SourceTable.State Unit) : Phase → Prop
  | .applying sources => sources.map SourceConfig.id = wanted ∧ table.ids = ids
  | .reconciling a =>
    Reconciled ids wanted a.removals (a.sources.map SourceConfig.id) a.firstError table.ids
  | .removing id (some a) =>
    Reconciled ids wanted (id :: a.removals) (a.sources.map SourceConfig.id) a.firstError table.ids
  | .awaiting call id (some a) =>
    ∃ c, table.calls[call]? = some c ∧
      (∀ removed, c = .removeDone .kRemoved removed →
        Reconciled ids wanted a.removals (a.sources.map SourceConfig.id) a.firstError table.ids) ∧
      ∀ b, c.target = some b → b ∈ table.entries ∧ table.names[b]? = some id ∧
        Reconciled ids wanted (id :: a.removals) (a.sources.map SourceConfig.id) a.firstError
          table.ids
  | .adding source (some a) | .starting source (some a) | .inserting source (some a) =>
    a.removals = [] ∧ source.id ∉ table.ids ∧
      Reconciled ids wanted [] (source.id :: a.sources.map SourceConfig.id) a.firstError table.ids
  | .found source a =>
    a.removals = [] ∧ source.id ∈ table.ids ∧
      Reconciled ids wanted [] (source.id :: a.sources.map SourceConfig.id) a.firstError table.ids
  | .reaching call source a =>
    (∃ c, table.calls[call]? = some c ∧ c.target = none) ∧ a.removals = [] ∧
      source.id ∈ table.ids ∧
      Reconciled ids wanted [] (source.id :: a.sources.map SourceConfig.id) a.firstError table.ids
  | .done error =>
    error = "" → table.ids = ids.filter (· ∈ wanted) ++ wanted.filter (· ∉ ids)
  | _ => False

section Order

variable {ids wanted : List String} {table t : SourceTable.State Unit} {answer : Answer}
  {p q : Phase}

/-- A reconcile that notes an error is not one without. -/
private theorem orders_note {a : Apply} {message : String} (h : message ≠ "") :
    (finish (some a) message).Orders ids wanted table := by
  intro he
  exact absurd ((note_eq_empty a message).mp he).2 h

/-- A step of a call that takes nothing out keeps the ids. -/
private theorem ids_of_entries {call : ℕ} {c c' : Call} (h : Proceeds table t call c c')
    (he : t.entries = table.entries) : t.ids = table.ids := by
  rw [SourceTable.State.ids, h.names, he, SourceTable.State.ids]

/-- A step of a call lists no more than was made. -/
private theorem listed_proceeds {call : ℕ} {c c' : Call} (hl : table.Listed)
    (h : Proceeds table t call c c') : t.Listed := by
  have hlen : t.heap.length = table.heap.length := by
    have := congrArg List.length h.names
    simpa [SourceTable.State.names] using this
  intro a ha
  rw [hlen]
  rcases h.entries with ⟨b, -, -, he⟩ | ⟨-, -, he⟩
  · rw [he] at ha
    exact hl a (List.mem_filter.mp ha).1
  · exact hl a (he ▸ ha)

/-- A step of a removal takes its id out last. -/
private theorem orders_await {call : ℕ} {id : String} {a : Apply} {expired : Bool}
    (hids : ids.Nodup) (hp : (Phase.awaiting call id (some a)).Orders ids wanted table)
    (h : table.proceed call expired = some t) :
    (Phase.awaiting call id (some a)).Orders ids wanted t := by
  obtain ⟨c, c', hpr⟩ := proceeds_of_proceed h
  obtain ⟨d, hd, -, htarget⟩ := hp
  rw [hpr.call] at hd
  cases hd
  have hc' : t.calls[call]? = some c' := by
    rw [hpr.calls, List.getElem?_set_self (List.getElem?_eq_some_iff.mp hpr.call).1]
  refine ⟨c', hc', ?_, ?_⟩
  · rintro removed rfl
    rcases hpr.entries with ⟨b, rfl, -, he⟩ | ⟨-, hno, -⟩
    · obtain ⟨hb, hname, hr⟩ := htarget b rfl
      intro herror
      have hnodup : table.ids.Nodup := by
        obtain ⟨done, hw, hdone, -, -, hnow⟩ := hr herror
        rw [hnow, hdone (List.cons_ne_nil _ _), List.filter_nil, List.append_nil]
        exact hids.filter _
      have hids' : t.ids = table.ids.filter (· ≠ id) := by
        rw [SourceTable.State.ids, hpr.names, he]
        exact SourceTable.State.ids_erase hnodup hb hname
      rw [hids']
      exact reconciled_remove hr herror
    · exact absurd rfl (hno removed)
  · intro b hb
    rcases hpr.entries with ⟨b', -, rfl, -⟩ | ⟨-, -, he⟩
    · cases hb
    · obtain ⟨hmem, hname, hr⟩ := htarget b (hpr.target b hb)
      rw [ids_of_entries hpr he, hpr.names, he]
      exact ⟨hmem, hname, hr⟩

/-- A step of a call that is no removal keeps the ids. -/
private theorem ids_of_target {call : ℕ} {expired : Bool} {c : Call}
    (hc : table.calls[call]? = some c) (ht : c.target = none)
    (h : table.proceed call expired = some t) :
    t.ids = table.ids ∧ ∃ c', t.calls[call]? = some c' ∧ c'.target = none := by
  obtain ⟨d, c', hpr⟩ := proceeds_of_proceed h
  rw [hpr.call] at hc
  cases hc
  constructor
  · rcases hpr.entries with ⟨b, rfl, -, -⟩ | ⟨-, -, he⟩
    · cases ht
    · exact ids_of_entries hpr he
  · refine ⟨c', ?_, ?_⟩
    · rw [hpr.calls, List.getElem?_set_self (List.getElem?_eq_some_iff.mp hpr.call).1]
    · cases hct : c'.target with
      | none => rfl
      | some b =>
        rw [hpr.target b hct] at ht
        cases ht

/-- No error to note. -/
private theorem note_nothing (a : Apply) : a.note "" = a := by
  obtain ⟨removals, sources, firstError⟩ := a
  unfold Apply.note
  split
  · next he =>
    dsimp only at he
    rw [he]
  · rfl

/-- A removal that is waited for. -/
private theorem orders_awaiting {call : ℕ} {id : String} {a : Apply} (hids : ids.Nodup)
    (hp : (Phase.awaiting call id (some a)).Orders ids wanted table)
    (h : advance table answer (.awaiting call id (some a)) = some (t, q)) :
    q.Orders ids wanted t := by
  simp only [advance] at h
  split at h
  · next removal removed hc =>
    cases h
    by_cases hr : removal = .kRemoved
    · subst hr
      obtain ⟨c, hc', hdone, -⟩ := hp
      rw [hc] at hc'
      cases hc'
      show Phase.Orders ids wanted table (.reconciling (a.note ""))
      rw [note_nothing]
      exact hdone removed rfl
    · exact orders_note fun he ↦ hr ((removalError_eq_empty id removal).mp he)
  · obtain ⟨t', ht, heq⟩ := Option.map_eq_some_iff.mp h
    cases heq
    exact orders_await hids hp ht

/-- A source that is put into the table. -/
private theorem orders_inserting {source : SourceConfig} {a : Apply} (hl : table.Listed)
    (hp : (Phase.inserting source (some a)).Orders ids wanted table)
    (h : advance table answer (.inserting source (some a)) = some (t, q)) :
    q.Orders ids wanted t := by
  obtain ⟨hremovals, hfresh, hr⟩ := hp
  have hhas : table.has source.id = false := by
    rwa [Bool.eq_false_iff, ne_eq, SourceTable.State.has_iff]
  simp only [advance, hhas, Bool.false_eq_true, if_false, Option.some.injEq,
    Prod.mk.injEq] at h
  obtain ⟨rfl, rfl⟩ := h
  have hids' := SourceTable.State.ids_insert hl source.id (some ())
  rw [hhas, if_neg Bool.false_ne_true] at hids'
  intro he
  have he := ((note_eq_empty a "").mp he).1
  have hnext := reconciled_add hr hfresh he
  unfold Apply.note
  rw [if_pos he]
  dsimp only
  rw [hids', hremovals]
  exact hnext

/-- A source that was open and is reached. -/
private theorem orders_reaching {call : ℕ} {source : SourceConfig} {a : Apply}
    (hw : wanted.Nodup) (hp : (Phase.reaching call source a).Orders ids wanted table)
    (h : advance table answer (.reaching call source a) = some (t, q)) :
    q.Orders ids wanted t := by
  obtain ⟨⟨c, hc, htarget⟩, hremovals, hopen, hr⟩ := hp
  simp only [advance] at h
  split at h
  · cases h
    have hnext := reconciled_reach hw hr hopen
    split
    · exact orders_note (append_ne_empty _ (by decide))
    · rw [Phase.Orders, hremovals]
      exact hnext
  · obtain ⟨t', ht, heq⟩ := Option.map_eq_some_iff.mp h
    cases heq
    obtain ⟨hids', hcall⟩ := ids_of_target hc htarget ht
    cases answer.reason with
    | none => exact ⟨hcall, hremovals, by rwa [hids'], by rwa [hids']⟩
    | some reason =>
      refine ⟨hcall, by rwa [removals_note], by rwa [hids'], fun he ↦ ?_⟩
      exact absurd ((note_eq_empty a _).mp he).2 reason.property
  · obtain ⟨t', ht, heq⟩ := Option.map_eq_some_iff.mp h
    cases heq
    obtain ⟨hids', hcall⟩ := ids_of_target hc htarget ht
    refine ⟨hcall, hremovals, by rwa [hids'], by rwa [hids']⟩

/-- A step of the reconcile. -/
theorem orders_advance (hids : ids.Nodup) (hw : wanted.Nodup) (hl : table.Listed)
    (hp : p.Orders ids wanted table) (h : advance table answer p = some (t, q)) :
    q.Orders ids wanted t := by
  cases p with
  | checking id => cases hp
  | loading document parts => cases hp
  | reading call sources document parts => cases hp
  | done error => cases h
  | applying sources =>
    obtain ⟨hsources, hids'⟩ := hp
    cases h
    have hremovals : (table.ids.filter fun id ↦ ¬sources.any (·.id = id)) =
        ids.filter (· ∉ wanted) := by
      rw [hids', ← hsources]
      refine List.filter_congr fun id _ ↦ ?_
      simp
    rw [Phase.Orders, hremovals, hsources, hids']
    exact reconciled_start hids
  | removing id rest =>
    cases rest with
    | none => cases hp
    | some a =>
      cases h
      refine ⟨_, List.getElem?_concat_length .., ?_, ?_⟩
      · intro removed hc
        cases hf : table.findLocked id <;> simp [hf] at hc
      · intro b hb
        cases hf : table.findLocked id with
        | none => simp [hf, Call.target] at hb
        | some b' =>
          simp only [hf, Call.target, Option.some.injEq] at hb
          subst hb
          obtain ⟨hmem, hname⟩ := SourceTable.State.findLocked_eq_some hf
          exact ⟨hmem, hname, hp⟩
  | awaiting call id rest =>
    cases rest with
    | none => cases hp
    | some a => exact orders_awaiting hids hp h
  | adding source rest =>
    cases rest with
    | none => cases hp
    | some a =>
      cases h
      unfold add
      dsimp only
      split
      · next message hv => exact orders_note (validate_error_ne_empty hv)
      · split
        · exact orders_note (existsError_ne_empty _)
        · rw [Phase.Orders, SourceConfig.id_ensurePreview]
          exact hp
  | starting source rest =>
    cases rest with
    | none => cases hp
    | some a =>
      simp only [advance] at h
      split at h
      · next reason _ =>
        cases h
        exact orders_note reason.property
      · cases h
        exact hp
  | inserting source rest =>
    cases rest with
    | none => cases hp
    | some a => exact orders_inserting hl hp h
  | reconciling a =>
    obtain ⟨removals, sources, firstError⟩ := a
    simp only [advance] at h
    split at h
    · cases h
      exact hp
    · next source sources =>
      split at h
      · next hhas =>
        cases h
        exact ⟨rfl, SourceTable.State.has_iff.mp hhas, hp⟩
      · next hhas =>
        cases h
        exact ⟨rfl, fun hm ↦ hhas (SourceTable.State.has_iff.mpr hm), hp⟩
    · cases h
      rintro rfl
      exact reconciled_done hp
  | found source a =>
    obtain ⟨hremovals, hopen, hr⟩ := hp
    cases h
    refine ⟨⟨_, List.getElem?_concat_length .., ?_⟩, hremovals, hopen, hr⟩
    split
    · rfl
    · split <;> rfl
  | reaching call source a => exact orders_reaching hw hp h

/-- A step of the reconcile lists nothing that was not made. -/
private theorem listed_advance (hl : table.Listed) (h : advance table answer p = some (t, q)) :
    t.Listed := by
  cases moves_of_advance h with
  | stay same done => rwa [same]
  | remove id rest before after moved =>
    rw [moved]
    exact hl
  | insert config rest before moved =>
    rw [moved]
    exact hl.insert config.id (some ())
  | call c target idle moved =>
    rw [moved]
    exact hl
  | proceed call expired own stays moved =>
    obtain ⟨c, c', hpr⟩ := proceeds_of_proceed moved
    exact listed_proceeds hl hpr

end Order

/-- The manager with sources `ids` open, about to apply a configuration and nothing else. -/
def alone (ids : List String) (sources : List SourceConfig) : State :=
  { started ids with requests := [{ command := .apply sources, phase := .applying sources }] }

section Run

variable {ids : List String} {sources : List SourceConfig} {answers : List Answer} {s : State}

/-- Only the one request is under way, as far as it has come. -/
private def Alone (ids wanted : List String) (s : State) : Prop :=
  s.table.Listed ∧ ∃ r, s.requests = [r] ∧ r.phase.Orders ids wanted s.table

/-- Every step of the request keeps to the order. -/
private theorem alone_run {wanted : List String} (hids : ids.Nodup) (hw : wanted.Nodup)
    {u : State} (hu : Alone ids wanted u)
    (h : machine.run u (answers.map (.proceed 0 ·)) = some s) : Alone ids wanted s := by
  induction answers generalizing u with
  | nil =>
    cases h
    exact hu
  | cons answer answers ih =>
    obtain ⟨v, hv, h⟩ := Option.bind_eq_some_iff.mp h
    refine ih ?_ h
    obtain ⟨hl, r, hr, hp⟩ := hu
    obtain ⟨r', q, hr', ha, hrequests, -⟩ := step_proceed hv
    rw [hr] at hr' hrequests
    cases hr'
    exact ⟨listed_advance hl ha, _, hrequests, orders_advance hids hw hl hp ha⟩

/-- A lone reconcile that reports no error leaves the kept sources in the order they had, then the
new ones in the order they are wanted in. -/
theorem ids_of_run (hids : ids.Nodup) (hw : (sources.map SourceConfig.id).Nodup)
    (hrun : machine.run (alone ids sources) (answers.map (.proceed 0 ·)) = some s)
    (hdone : s.requests.map (·.phase.error) = [some ""]) :
    s.table.ids = ids.filter (· ∈ sources.map SourceConfig.id) ++
      (sources.map SourceConfig.id).filter (· ∉ ids) := by
  obtain ⟨hl, hids', -⟩ := started_spec hids
  have halone : Alone ids (sources.map SourceConfig.id) (alone ids sources) :=
    ⟨hl, { command := .apply sources, phase := .applying sources }, rfl, ⟨rfl, hids'⟩⟩
  obtain ⟨-, r, hr, hp⟩ := alone_run hids hw halone hrun
  rw [hr, List.map_singleton, List.singleton_inj] at hdone
  cases hphase : r.phase with
  | done error =>
    rw [hphase] at hdone hp
    cases hdone
    exact hp rfl
  | _ =>
    rw [hphase] at hdone
    cases hdone

/-- A lone reconcile that reports no error leaves what is wanted in the order it is wanted in
exactly when that is the sources that were open first, in the order they had, and then the new
ones. -/
theorem order_iff (hids : ids.Nodup) (hw : (sources.map SourceConfig.id).Nodup)
    (hrun : machine.run (alone ids sources) (answers.map (.proceed 0 ·)) = some s)
    (hdone : s.requests.map (·.phase.error) = [some ""]) :
    s.table.ids = sources.map SourceConfig.id ↔
      sources.map SourceConfig.id = ids.filter (· ∈ sources.map SourceConfig.id) ++
        (sources.map SourceConfig.id).filter (· ∉ ids) := by
  rw [ids_of_run hids hw hrun hdone, eq_comm]

/-- One tab is kept and another opened: they are in the order they are wanted in. -/
theorem order_replaced : ∃ s,
    machine.run (alone ["a", "b"] [{ id := "a" }, { id := "c" }])
      ((List.replicate 17 {}).map (.proceed 0 ·)) = some s ∧
    (s.table.ids = ["a", "c"] ↔ ["a", "c"] = ["a"] ++ ["c"]) := by
  have hrun : (machine.run (alone ["a", "b"] [{ id := "a" }, { id := "c" }])
      ((List.replicate 17 {}).map (.proceed 0 ·))).any
      (fun s ↦ s.requests.map (·.phase.error) = [some ""]) := by
    decide +kernel
  obtain ⟨s, hs, hdone⟩ := (Option.any_eq_true _ _).mp hrun
  exact ⟨s, hs, order_iff (by decide) (by decide) hs (of_decide_eq_true hdone)⟩

/-- Two open tabs that are wanted the other way round stay as they were. -/
theorem not_order : ¬∀ (ids : List String) (sources : List SourceConfig) (answers : List Answer)
    (s : State), ids.Nodup → (sources.map SourceConfig.id).Nodup →
    machine.run (alone ids sources) (answers.map (.proceed 0 ·)) = some s →
    s.requests.map (·.phase.error) = [some ""] → s.table.ids = sources.map SourceConfig.id := by
  intro h
  have hrun : (machine.run (alone ["a", "b"] [{ id := "b" }, { id := "a" }])
      ((List.replicate 12 {}).map (.proceed 0 ·))).any (fun s ↦
        s.requests.map (·.phase.error) = [some ""] && s.table.ids = ["a", "b"]) := by
    decide +kernel
  obtain ⟨s, hs, hend⟩ := (Option.any_eq_true _ _).mp hrun
  rw [Bool.and_eq_true, decide_eq_true_eq, decide_eq_true_eq] at hend
  have horder := h _ _ _ s (by decide) (by decide) hs hend.1
  rw [hend.2] at horder
  revert horder
  decide

end Run

end WebLinked.Engine.SourceManager
