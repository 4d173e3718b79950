import Mathlib
import WebLinked.Engine.OutputRequests

/-!
# A request that nothing comes between is one step

`src/engine/engine.cpp:834–1397`. The requests as sequences of locks and driver calls, and the
requests of the output list, are the same code twice. Where the steps of a request follow one
another they agree: the list, the objects in its slots, the raster and the answer.
-/

namespace WebLinked.Engine.OutputRequests

open WebLinked.Base WebLinked.Core OutputList

variable {s : State} {name : String} {records : List Record} {slots : ℕ → Slot}

/-- A record with what is in its slot. -/
def Record.entry (slots : ℕ → Slot) (r : Record) : Entry where
  spec := r.spec
  slot := slots r.slot
  desc := r.desc
  enabled := r.enabled
  lastError := r.lastError

/-- The output list the state stands for. -/
def State.list (s : State) : OutputList.State where
  format := s.format
  outputs := s.records.map (Record.entry s.slots)

/-- Every record has a slot of its own, and the next one has another. -/
structure Separate (s : State) : Prop where
  distinct : (s.records.map Record.slot).Nodup
  fresh : ∀ r ∈ s.records, r.slot < s.fresh

/-- The request that has the queue takes its steps, at most `n` of them. -/
def State.complete (a : Answers) : ℕ → State → State
  | 0, s => s
  | n + 1, s => s.current.elim s fun phase ↦ (s.advance a phase).complete a n

/-- What the request of the output list does. -/
def Request.apply (l : OutputList.State) (a : Answers) : Request → OutputList.State
  | .setOutputEnabled name enabled => l.setOutputEnabled name enabled a.enable
  | .addOutput spec => l.addOutput spec a.add
  | .updateOutput name spec => l.updateOutput name spec a.update
  | .removeOutput name => l.removeOutput name a.remove
  | .setFormat w => l.setFormat w.format w.previous a.format

section Lists

variable {r : Record} {f g : Record → Record}

/-- What is found. -/
theorem findEntry_map (slots : ℕ → Slot) (records : List Record) (name : String) :
    findEntry (records.map (Record.entry slots)) name =
      (find records name).map (Record.entry slots) := by
  rw [findEntry, List.find?_map]
  rfl

/-- One change after another of the same output. -/
theorem modify_modify (h : ∀ r, (f r).spec.name = r.spec.name) (name : String)
    (records : List Record) : modify name g (modify name f records) = modify name (g ∘ f) records := by
  induction records with
  | nil => rfl
  | cons r records ih =>
    by_cases hr : r.spec.name = name
    · simp [modify, hr, h]
    · simp [modify, hr, ih]

/-- A change that leaves what is found. -/
theorem modify_of_find (hr : find records name = some r) (h : f r = r) :
    modify name f records = records := by
  induction records with
  | nil => rfl
  | cons x records ih =>
    rw [find, List.find?_cons] at hr
    by_cases hx : x.spec.name = name
    · simp only [hx, decide_true, Option.some.injEq] at hr
      subst hr
      simp [modify, hx, h]
    · simp only [hx, decide_false] at hr
      simp [modify, hx, ih hr]

/-- Another slot leaves an entry. -/
private theorem entry_update {slot : ℕ} (content : Slot) (h : r.slot ≠ slot) :
    r.entry (Function.update slots slot content) = r.entry slots := by
  rw [Record.entry, Function.update_of_ne h]
  rfl

/-- What is found changes with its slot, and nothing else does. -/
theorem map_modify_entry (hr : find records name = some r)
    (hd : (records.map Record.slot).Nodup) (hf : ∀ r, (f r).slot = r.slot) (content : Slot) :
    (modify name f records).map (Record.entry (Function.update slots r.slot content)) =
      setEntry name { (f r).entry slots with slot := content }
        (records.map (Record.entry slots)) := by
  induction records with
  | nil => rfl
  | cons x records ih =>
    obtain ⟨hx, hrest⟩ := List.nodup_cons.mp hd
    rw [find, List.find?_cons] at hr
    by_cases hname : x.spec.name = name
    · simp only [hname, decide_true, Option.some.injEq] at hr
      subst hr
      have hothers : records.map (Record.entry (Function.update slots x.slot content)) =
          records.map (Record.entry slots) :=
        List.map_congr_left fun y hy ↦ entry_update content fun h ↦ hx (h ▸ List.mem_map_of_mem hy)
      have hentry : (f x).entry (Function.update slots x.slot content) =
          { (f x).entry slots with slot := content } := by
        rw [Record.entry, hf, Function.update_self]
        rfl
      have hname' : (x.entry slots).spec.name = name := hname
      rw [modify, if_pos hname, List.map_cons, List.map_cons, setEntry, if_pos hname', hothers,
        hentry]
    · simp only [hname, decide_false] at hr
      have hne : x.slot ≠ r.slot := fun h ↦ hx (h ▸ List.mem_map_of_mem (List.mem_of_find?_eq_some hr))
      have hname' : ¬(x.entry slots).spec.name = name := hname
      rw [modify, if_neg hname, List.map_cons, List.map_cons, setEntry, if_neg hname',
        entry_update content hne, ih hr hrest]

/-- What is found changes, and no slot does. -/
theorem map_modify_entry_self (hr : find records name = some r) :
    (modify name f records).map (Record.entry slots) =
      setEntry name ((f r).entry slots) (records.map (Record.entry slots)) := by
  induction records with
  | nil => rfl
  | cons x records ih =>
    rw [find, List.find?_cons] at hr
    by_cases hname : x.spec.name = name
    · simp only [hname, decide_true, Option.some.injEq] at hr
      have hname' : (x.entry slots).spec.name = name := hname
      rw [modify, if_pos hname, List.map_cons, List.map_cons, setEntry, if_pos hname', hr]
    · simp only [hname, decide_false] at hr
      have hname' : ¬(x.entry slots).spec.name = name := hname
      rw [modify, if_neg hname, List.map_cons, List.map_cons, setEntry, if_neg hname', ih hr]

/-- Writing back what was found. -/
theorem setEntry_self {outputs : List Entry} {entry : Entry}
    (h : findEntry outputs name = some entry) : setEntry name entry outputs = outputs := by
  induction outputs with
  | nil => rfl
  | cons x outputs ih =>
    rw [findEntry, List.find?_cons] at h
    by_cases hx : x.spec.name = name
    · simp only [hx, decide_true, Option.some.injEq] at h
      rw [setEntry, if_pos hx, h]
    · simp only [hx, decide_false] at h
      rw [setEntry, if_neg hx, ih h]

end Lists

/-- The request has returned, and the state stands for this list, with its answer. -/
structure Answered (t : State) (l : OutputList.State) : Prop where
  idle : t.current = none
  format : t.format = l.format
  outputs : t.records.map (Record.entry t.slots) = l.outputs
  message : t.ended.map Outcome.message = some l.reply.message
  separate : Separate t

section Steps

variable {t : State} {l : OutputList.State} {r : Record} {f : Record → Record} {a : Answers}
  {phase : Phase} {outcome : Outcome} {reply : Reply} {n : ℕ}

theorem complete_some (h : s.current = some phase) :
    s.complete a (n + 1) = (s.advance a phase).complete a n := by
  rw [State.complete, h]
  rfl

theorem complete_none (h : s.current = none) : s.complete a n = s := by
  cases n with
  | zero => rfl
  | succ n =>
    rw [State.complete, h]
    rfl

/-- A request that returns with the list as it was. -/
private theorem answered_same (hs : Separate s) (hm : outcome.message = reply.message) :
    Answered (s.finish s.records outcome) { s.list with reply } :=
  ⟨rfl, rfl, rfl, congrArg some hm, hs.distinct, hs.fresh⟩

/-- Changing what is found leaves the slots where they are. -/
private theorem Separate.modify (hs : Separate s) (hf : ∀ r, (f r).slot = r.slot) (name : String)
    {t : State} (hr : t.records = OutputRequests.modify name f s.records) (hfresh : t.fresh = s.fresh) :
    Separate t := by
  have hslots : t.records.map Record.slot = s.records.map Record.slot := by
    rw [hr, map_modify _ hf]
  refine ⟨hslots ▸ hs.distinct, fun r hr ↦ ?_⟩
  rw [hfresh]
  have hmem : r.slot ∈ s.records.map Record.slot := hslots ▸ List.mem_map_of_mem hr
  obtain ⟨x, hx, hxr⟩ := List.mem_map.mp hmem
  exact hxr ▸ hs.fresh x hx

/-- A request that returns with one output changed. -/
private theorem answered_modify (hs : Separate s) (hr : find s.records name = some r)
    (hf : ∀ r, (f r).slot = r.slot) (content : Slot) (hm : outcome.message = reply.message) :
    Answered
      (({ s with slots := Function.update s.slots r.slot content } : State).finish
        (modify name f s.records) outcome)
      { s.list with
        outputs := setEntry name { (f r).entry s.slots with slot := content } s.list.outputs
        reply } :=
  ⟨rfl, rfl, map_modify_entry hr hs.distinct hf content, congrArg some hm,
    hs.modify hf name rfl rfl⟩

/-- A request that returns with one output changed and its slot as it was. -/
private theorem answered_modify_self (hs : Separate s) (hr : find s.records name = some r)
    (hf : ∀ r, (f r).slot = r.slot) (hm : outcome.message = reply.message) :
    Answered (s.finish (modify name f s.records) outcome)
      { s.list with
        outputs := setEntry name ((f r).entry s.slots) s.list.outputs
        reply } :=
  ⟨rfl, rfl, map_modify_entry_self hr, congrArg some hm, hs.modify hf name rfl rfl⟩

private theorem complete_go (records : List Record) (next : Phase) :
    (s.go records next).complete a (n + 1) = ((s.go records next).advance a next).complete a n := rfl

private theorem complete_drive (slot : ℕ) (content : Slot) (next : Phase) :
    (s.drive slot content next).complete a (n + 1) =
      ((s.drive slot content next).advance a next).complete a n := rfl

private theorem complete_finish (records : List Record) (outcome : Outcome) :
    (s.finish records outcome).complete a n = s.finish records outcome := complete_none rfl

/-- The driver stops the output, and the feed stays off. -/
private theorem answered_disable (hs : Separate s) (hr : find s.records name = some r)
    (hp : r.desc.present = true) (hg : a.enable.gate = .ran)
    (ho : (s.slots r.slot).output.isSome) (next : Phase) :
    Answered
      (((s.go (modify name (Record.feed false) s.records) next).driveEnable name false r.enabled
        r.slot s.format a.enable).complete a (n + 1))
      { s.list with
        outputs :=
          setEntry name ((r.entry s.slots).setEnabled s.format false a.enable).1 s.list.outputs
        reply := OutputList.reply ((r.entry s.slots).setEnabled s.format false a.enable).2 } := by
  obtain ⟨output, ho⟩ := Option.isSome_iff_exists.mp ho
  have hout : (r.entry s.slots).slot.output = some output := ho
  have hpresent : (r.entry s.slots).desc.present = true := hp
  have hset : (r.entry s.slots).setEnabled s.format false a.enable =
      ((Record.feed false r).entry s.slots, none) := by
    simp only [Entry.setEnabled, hpresent, hg, hout, Bool.not_true, Bool.false_eq_true,
      if_false, Bool.not_false, if_true]
    rfl
  have hfound : find (modify name (Record.feed false) s.records) name =
      some (Record.feed false r) := by
    rw [find_modify_self (f := Record.feed false) (fun _ ↦ rfl), hr]
    rfl
  have htwice : modify name (Record.feed false) (modify name (Record.feed false) s.records) =
      modify name (Record.feed false) s.records :=
    modify_modify (f := Record.feed false) (fun _ ↦ rfl) name s.records
  rw [hset, State.driveEnable, hg]
  dsimp only [State.go]
  rw [ho]
  simp only [Bool.false_and, Bool.false_eq_true, if_false]
  rw [complete_some rfl, State.advance]
  simp only [State.commitEnable, hfound, htwice, Bool.not_false, if_true]
  rw [complete_finish]
  exact answered_modify_self (s := s) (f := Record.feed false) hs hr (fun _ ↦ rfl) rfl

/-- The driver starts the output, or finds it running, or fails to. -/
private theorem answered_enable (hs : Separate s) (hr : find s.records name = some r)
    (hp : r.desc.present = true) (hg : a.enable.gate = .ran)
    (ho : (s.slots r.slot).output.isSome) (next : Phase) :
    Answered
      (((s.go s.records next).driveEnable name true r.enabled r.slot s.format
        a.enable).complete a (n + 1))
      { s.list with
        outputs :=
          setEntry name ((r.entry s.slots).setEnabled s.format true a.enable).1 s.list.outputs
        reply := OutputList.reply ((r.entry s.slots).setEnabled s.format true a.enable).2 } := by
  obtain ⟨output, ho⟩ := Option.isSome_iff_exists.mp ho
  have hout : (r.entry s.slots).slot.output = some output := ho
  have hpresent : (r.entry s.slots).desc.present = true := hp
  have hen : (r.entry s.slots).enabled = r.enabled := rfl
  rw [State.driveEnable, hg]
  dsimp only [State.go]
  rw [ho]
  dsimp only
  cases hacted : decide (true = r.enabled) && decide (a.enable.isRunning = true) with
  | true =>
    have hset : (r.entry s.slots).setEnabled s.format true a.enable =
        ({ r with lastError := "", enabled := true : Record }.entry s.slots, none) := by
      simp only [Entry.setEnabled, hpresent, hg, hout, hen, hacted, Bool.not_true,
        Bool.false_eq_true, if_false, if_true]
      rfl
    rw [hset]
    simp only [Bool.not_true, Bool.and_false, Bool.false_eq_true, if_false]
    rw [complete_some rfl, State.advance]
    simp only [State.commitEnable, hr, Bool.not_true, Bool.false_eq_true, if_false]
    rw [complete_finish]
    exact answered_modify_self (s := s) (f := fun r ↦ { r with lastError := "", enabled := true })
      hs hr (fun _ ↦ rfl) rfl
  | false =>
    cases hst : a.enable.start with
    | none =>
      have hset : (r.entry s.slots).setEnabled s.format true a.enable =
          ({ { r with lastError := "", enabled := true : Record }.entry s.slots with
            slot := (s.slots r.slot).start s.format }, none) := by
        simp only [Entry.setEnabled, hpresent, hg, hout, hen, hacted, hst, Bool.not_true,
          Bool.not_false, Bool.false_eq_true, if_false, if_true]
        rfl
      rw [hset]
      simp only [Bool.not_false, Bool.and_true, if_true]
      rw [complete_drive, State.advance]
      simp only [State.commitEnable, State.drive, hr, Bool.not_true, Bool.false_eq_true, if_false]
      rw [complete_finish]
      exact answered_modify (s := s) (f := fun r ↦ { r with lastError := "", enabled := true })
        hs hr (fun _ ↦ rfl) _ rfl
    | some error =>
      have hset : (r.entry s.slots).setEnabled s.format true a.enable =
          ({ r with lastError := error, enabled := false : Record }.entry s.slots,
            some error) := by
        simp only [Entry.setEnabled, hpresent, hg, hout, hen, hacted, hst, Bool.not_true,
          Bool.not_false, Bool.false_eq_true, if_false, if_true]
        rfl
      rw [hset]
      simp only [Bool.not_false, Bool.and_true, if_true]
      rw [complete_some rfl, State.advance]
      simp only [State.commitEnable, hr, Bool.not_true, Bool.false_eq_true, if_false]
      rw [complete_finish]
      exact answered_modify_self (s := s)
        (f := fun r ↦ { r with lastError := error, enabled := false })
        hs hr (fun _ ↦ rfl) rfl

private theorem answered_setOutputEnabled (hs : Separate s) (name : String) (enabled : Bool)
    (a : Answers) (hc : s.current = some (.entered (.setOutputEnabled name enabled))) :
    Answered (s.complete a 6) (s.list.setOutputEnabled name enabled a.enable) := by
  rw [complete_some hc, State.advance]
  cases hr : find s.records name with
  | none =>
    have hf : findEntry s.list.outputs name = none := by
      rw [State.list, findEntry_map, hr]
      rfl
    rw [State.enterEnable, hr, OutputList.State.setOutputEnabled, hf]
    exact answered_same hs rfl
  | some r =>
    have hrname : r.spec.name = name := by simpa using List.find?_some hr
    have hname : (r.entry s.slots).spec.name = name := hrname
    have hf : findEntry s.list.outputs name = some (r.entry s.slots) := by
      rw [State.list, findEntry_map, hr]
      rfl
    have hself : setEntry name (r.entry s.slots) s.list.outputs = s.list.outputs := setEntry_self hf
    rw [State.enterEnable, hr, OutputList.State.setOutputEnabled, hf]
    dsimp only
    cases hp : r.desc.present with
    | false =>
      have hset : (r.entry s.slots).setEnabled s.list.format enabled a.enable = (r.entry s.slots,
          some ("output '" ++ name ++ "' was never created: " ++ r.lastError)) := by
        rw [Entry.setEnabled, hname]
        simp [Record.entry, hp]
      rw [hset]
      dsimp only
      rw [hself]
      exact answered_same hs rfl
    | true =>
      have hpresent : (r.entry s.slots).desc.present = true := hp
      have hback : modify name (Record.feed r.enabled)
          (if enabled then s.records else modify name (Record.feed false) s.records) = s.records := by
        cases enabled with
        | true => exact modify_of_find hr rfl
        | false =>
          have htwice := modify_modify (f := Record.feed false) (g := Record.feed r.enabled)
            (fun _ ↦ rfl) name s.records
          exact htwice.trans (modify_of_find hr rfl)
      rw [Bool.not_true, if_neg (by simp), complete_go, State.advance]
      cases hg : a.enable.gate with
      | busy millis =>
        have hset : (r.entry s.slots).setEnabled s.list.format enabled a.enable =
            (r.entry s.slots, some (busyMessage name millis)) := by
          cases enabled <;> simp [Entry.setEnabled, hpresent, hg, hname]
        rw [State.driveEnable, hg, hset]
        dsimp only
        rw [hself, complete_go, State.advance, State.commitEnable, complete_finish, State.go,
          State.go]
        dsimp only
        rw [hback]
        exact answered_same hs rfl
      | ran =>
        cases ho : (s.slots r.slot).output with
        | none =>
          have hout : (r.entry s.slots).slot.output = none := ho
          have hset : (r.entry s.slots).setEnabled s.list.format enabled a.enable =
              (r.entry s.slots, some ("output '" ++ name ++ "' has no device")) := by
            cases enabled <;> simp [Entry.setEnabled, hpresent, hg, hname, hout]
          rw [State.driveEnable, hg, hset]
          dsimp only [State.go]
          rw [ho]
          dsimp only
          rw [hself, complete_some rfl, State.advance, State.commitEnable, complete_finish]
          dsimp only
          rw [hback]
          exact answered_same hs rfl
        | some output =>
          cases enabled with
          | false => exact answered_disable hs hr hp hg (by rw [ho]; rfl) _
          | true => exact answered_enable hs hr hp hg (by rw [ho]; rfl) _

/-- The answer to what may have failed. -/
private theorem message_elim (error : Option String) :
    (error.elim Outcome.accepted Outcome.failed).message = (OutputList.reply error).message := by
  cases error <;> rfl

private theorem answered_addOutput (hs : Separate s) (spec : OutputSpec) (a : Answers)
    (hc : s.current = some (.entered (.addOutput spec))) :
    Answered (s.complete a 6) (s.list.addOutput spec a.add) := by
  have hname : (s.list.outputs.any (·.spec.name = spec.name)) =
      s.records.any (·.spec.name = spec.name) := List.any_map
  have hpermanent : (s.list.outputs.any (outputKindIsPermanent ·.spec.kind)) =
      s.records.any (outputKindIsPermanent ·.spec.kind) := List.any_map
  rw [complete_some hc, State.advance, State.enterAdd, OutputList.State.addOutput, hname, hpermanent]
  split
  · exact answered_same hs rfl
  · split
    · exact answered_same hs rfl
    · rw [complete_go, State.advance, State.driveAdd]
      cases a.add.create with
      | some error => exact answered_same (s := s) hs rfl
      | none =>
        let entry := Entry.opened spec s.format a.add
        have hold : s.records.map (Record.entry (Function.update s.slots s.fresh entry.slot)) =
            s.records.map (Record.entry s.slots) :=
          List.map_congr_left fun r hr ↦ entry_update entry.slot (hs.fresh r hr).ne
        have hnew : (Record.ofEntry entry s.fresh).entry
            (Function.update s.slots s.fresh entry.slot) = entry := by
          rw [Record.entry, Record.ofEntry, Function.update_self]
        refine ⟨rfl, rfl, ?_, congrArg some (message_elim _), ?_, fun r hr ↦ ?_⟩
        · exact List.map_append.trans (congrArg₂ _ hold (congrArg (fun e ↦ [e]) hnew))
        · have hslots : (s.records ++ [Record.ofEntry entry s.fresh]).map Record.slot =
              s.records.map Record.slot ++ [s.fresh] := List.map_append
          refine hslots.symm ▸ ?_
          refine hs.distinct.append (List.nodup_singleton _) (List.disjoint_singleton.mpr fun hm ↦ ?_)
          obtain ⟨r, hr, hslot⟩ := List.mem_map.mp hm
          exact (hs.fresh r hr).ne hslot
        · rcases List.mem_append.mp hr with hr | hr
          · exact (hs.fresh r hr).trans (Nat.lt_succ_self s.fresh)
          · rw [List.mem_singleton.mp hr]
            exact Nat.lt_succ_self s.fresh

private theorem map_eraseP (records : List Record) (slots : ℕ → Slot) (name : String) :
    (records.map (Record.entry slots)).eraseP (·.spec.name = name) =
      (records.eraseP (·.spec.name = name)).map (Record.entry slots) := by
  rw [List.eraseP_map]
  rfl

/-- The output that is removed may be changed before. -/
private theorem eraseP_modify (hr : find records name = some r) :
    (modify name (Record.feed false) records).eraseP (·.spec.name = name) =
      records.eraseP (·.spec.name = name) := by
  induction records with
  | nil => cases hr
  | cons x records ih =>
    rw [find, List.find?_cons] at hr
    by_cases hx : x.spec.name = name
    · simp [modify, hx, Record.feed]
    · simp only [hx, decide_false] at hr
      simp [modify, hx, ih hr]

/-- What is not the first of a name has another slot. -/
private theorem slot_ne_of_mem_eraseP (hr : find records name = some r)
    (hd : (records.map Record.slot).Nodup) :
    ∀ x ∈ records.eraseP (·.spec.name = name), x.slot ≠ r.slot := by
  induction records with
  | nil => cases hr
  | cons y records ih =>
    obtain ⟨hy, hrest⟩ := List.nodup_cons.mp hd
    rw [find, List.find?_cons] at hr
    intro x hx
    by_cases hname : y.spec.name = name
    · simp only [hname, decide_true, Option.some.injEq] at hr
      subst hr
      rw [List.eraseP_cons_of_pos (by simpa using hname)] at hx
      exact fun h ↦ hy (h ▸ List.mem_map_of_mem hx)
    · simp only [hname, decide_false] at hr
      rw [List.eraseP_cons_of_neg (by simpa using hname)] at hx
      rcases List.mem_cons.mp hx with rfl | hx
      · exact fun h ↦ hy (h ▸ List.mem_map_of_mem (List.mem_of_find?_eq_some hr))
      · exact ih hr hrest x hx

private theorem answered_removeOutput (hs : Separate s) (name : String) (a : Answers)
    (hc : s.current = some (.entered (.removeOutput name))) :
    Answered (s.complete a 6) (s.list.removeOutput name a.remove) := by
  rw [complete_some hc, State.advance]
  unfold OutputList.State.removeOutput
  cases hr : find s.records name with
  | none =>
    have hf : findEntry s.list.outputs name = none := by
      rw [State.list, findEntry_map, hr]
      rfl
    rw [State.enterRemove, hr, hf]
    exact answered_same hs rfl
  | some r =>
    have hf : findEntry s.list.outputs name = some (r.entry s.slots) := by
      rw [State.list, findEntry_map, hr]
      rfl
    rw [State.enterRemove, hr, hf]
    dsimp only
    have hkind : (r.entry s.slots).spec.kind = r.spec.kind := rfl
    rw [hkind]
    split
    · exact answered_same hs rfl
    · rw [complete_go, State.advance]
      unfold State.driveRemove
      cases a.remove with
      | busy millis =>
        have hback : modify name (Record.feed r.enabled) (modify name (Record.feed false) s.records) =
            s.records := by
          rw [modify_modify (f := Record.feed false) fun _ ↦ rfl]
          exact modify_of_find hr rfl
        dsimp only
        rw [complete_go, State.advance, State.commitRemove, complete_finish]
        simp only [State.go, hback]
        exact answered_same (s := s) hs rfl
      | ran =>
        have hfed : (modify name (Record.feed false) s.records).eraseP (·.spec.name = name) =
            s.records.eraseP (·.spec.name = name) := eraseP_modify hr
        have hslots : (s.records.eraseP (·.spec.name = name)).map (Record.entry
            (Function.update s.slots r.slot ((s.slots r.slot).replace none))) =
              (s.records.eraseP (·.spec.name = name)).map (Record.entry s.slots) :=
          List.map_congr_left fun x hx ↦
            entry_update _ (slot_ne_of_mem_eraseP hr hs.distinct x hx)
        dsimp only
        rw [complete_drive, State.advance, State.commitRemove, complete_finish]
        simp only [State.drive, State.go, hfed]
        refine ⟨rfl, rfl, hslots.trans (map_eraseP s.records s.slots name).symm, rfl, ?_, ?_⟩
        · exact hs.distinct.sublist (List.eraseP_sublist.map _)
        · exact fun x hx ↦ hs.fresh x (List.mem_of_mem_eraseP hx)

/-- What an update that has passed its checks keeps. -/
private def Record.update (r : Record) (s : State) (name : String) (spec : OutputSpec) : Update where
  name
  spec
  slot := r.slot
  desc := r.desc
  previous := r.spec
  wasEnabled := r.enabled
  healthy := r.enabled && r.lastError = ""
  format := s.format

/-- An update that has passed its checks. -/
private theorem answered_probing (hs : Separate s) (hr : find s.records name = some r)
    (spec : OutputSpec) (a : Answers) :
    Answered ((s.go s.records (.probing (r.update s name spec))).complete a 5)
      { s.list with
        outputs := setEntry name ((r.entry s.slots).update spec s.format a.update).1 s.list.outputs
        reply := OutputList.reply ((r.entry s.slots).update spec s.format a.update).2 } := by
  have hrname : r.spec.name = name := by simpa using List.find?_some hr
  subst hrname
  have hf : findEntry s.list.outputs r.spec.name = some (r.entry s.slots) := by
    rw [State.list, findEntry_map, hr]
    rfl
  have hself : setEntry r.spec.name (r.entry s.slots) s.list.outputs = s.list.outputs :=
    setEntry_self hf
  have htwice (f : Record → Record) :
      modify r.spec.name f (modify r.spec.name (Record.feed false) s.records) =
        modify r.spec.name (f ∘ Record.feed false) s.records :=
    modify_modify (f := Record.feed false) (fun _ ↦ rfl) r.spec.name s.records
  have hfound : find (modify r.spec.name (Record.feed false) s.records) r.spec.name =
      some (Record.feed false r) := by
    rw [find_modify_self (f := Record.feed false) (fun _ ↦ rfl), hr]
    rfl
  rw [complete_go, State.advance]
  unfold Entry.update
  cases hassign : (r.entry s.slots).running a.update.probe && spec.name = (r.entry s.slots).spec.name &&
      spec.kind = (r.entry s.slots).spec.kind &&
      spec.deviceIndex = (r.entry s.slots).spec.deviceIndex &&
      spec.options.serialize = (r.entry s.slots).spec.options.serialize with
  | true =>
    have hprobe : (s.go s.records (.probing (r.update s r.spec.name spec))).driveProbe
        (r.update s r.spec.name spec) a.update =
          s.go s.records (.assigning (r.update s r.spec.name spec)) := if_pos hassign
    rw [hprobe, complete_go, State.advance, State.commitAssign]
    simp only [State.go, Record.update, hr, if_true]
    rw [complete_finish]
    exact answered_modify_self (s := s)
      (f := fun r ↦ { r with spec := { r.spec with background := spec.background } }) hs hr
      (fun _ ↦ rfl) rfl
  | false =>
    have hprobe : (s.go s.records (.probing (r.update s r.spec.name spec))).driveProbe
        (r.update s r.spec.name spec) a.update =
          s.go s.records (.disabling (r.update s r.spec.name spec)) :=
      if_neg (Bool.eq_false_iff.mp hassign)
    rw [hprobe, complete_go, State.advance, complete_go, State.advance]
    unfold State.driveUpdate
    cases hg : a.update.gate with
    | busy millis =>
      have hback : modify r.spec.name (Record.feed r.enabled)
          (modify r.spec.name (Record.feed false) s.records) = s.records :=
        (htwice _).trans (modify_of_find hr rfl)
      simp only [State.go, Record.update, Bool.false_eq_true, if_false]
      rw [complete_some rfl, State.advance]
      simp only [State.commitUpdate, hback]
      rw [complete_finish]
      exact ⟨rfl, rfl, hself.symm, rfl, hs.distinct, hs.fresh⟩
    | ran =>
      cases ho : a.update.replacement.create.or a.update.replacement.start with
      | none =>
        simp only [State.go, Record.update, Bool.false_eq_true, if_false]
        rw [complete_drive, State.advance]
        simp only [State.commitUpdate, State.drive, hfound, htwice, Function.update_self]
        rw [complete_finish]
        let content := (s.slots r.slot).replace (some { spec, started := some s.format })
        exact answered_modify (s := s)
          (f := fun r ↦ { r with
            desc := content.description, spec, enabled := true, lastError := "" })
          hs hr (fun _ ↦ rfl) content rfl
      | some error =>
        simp only [State.go, Record.update, Bool.false_eq_true, if_false]
        rw [complete_drive, State.advance]
        simp only [State.commitUpdate, State.drive, hfound, htwice, Function.update_self]
        rw [complete_finish]
        let output : Option Output :=
          if a.update.previous.create.isSome then none else some { spec := r.spec }
        let restored := output.isSome && r.enabled && a.update.previous.start.isNone
        let content := if restored then ((s.slots r.slot).replace output).start s.format
          else (s.slots r.slot).replace output
        exact answered_modify (s := s)
          (f := fun r ↦ { r with
            desc := content.description, enabled := restored, lastError := error })
          hs hr (fun _ ↦ rfl) content rfl

private theorem answered_updateOutput (hs : Separate s) (name : String) (spec : OutputSpec)
    (a : Answers) (hc : s.current = some (.entered (.updateOutput name spec))) :
    Answered (s.complete a 6) (s.list.updateOutput name spec a.update) := by
  have hnames : (s.list.outputs.any (·.spec.name = spec.name)) =
      s.records.any (·.spec.name = spec.name) := List.any_map
  rw [complete_some hc, State.advance, State.enterUpdate, OutputList.State.updateOutput, hnames]
  cases hr : find s.records name with
  | none =>
    have hf : findEntry s.list.outputs name = none := by
      rw [State.list, findEntry_map, hr]
      rfl
    rw [hf]
    exact answered_same hs rfl
  | some r =>
    have hf : findEntry s.list.outputs name = some (r.entry s.slots) := by
      rw [State.list, findEntry_map, hr]
      rfl
    have hkind : (r.entry s.slots).spec.kind = r.spec.kind := rfl
    rw [hf]
    dsimp only
    rw [hkind]
    split
    · exact answered_same hs rfl
    · split
      · exact answered_same hs rfl
      · split
        · exact answered_same hs rfl
        · exact answered_probing hs hr spec a

/-- Reopening an output changes its slot alone, as it changes the entry. -/
private theorem reopen_entry (openAt : VideoFormat) (slots : ℕ → Slot) (r : Record) (item : Item)
    (a : ItemAnswers) :
    State.reopen openAt slots ⟨item, r.slot⟩ a =
        (Function.update slots r.slot (((r.feed false).entry slots).reopen item openAt a).1.slot,
          ⟨(((r.feed false).entry slots).reopen item openAt a).2, r.slot⟩) ∧
      (((r.feed false).entry slots).reopen item openAt a).1 =
        { (r.feed false).entry slots with
          slot := (((r.feed false).entry slots).reopen item openAt a).1.slot } := by
  have hout : ((r.feed false).entry slots).slot.output = (slots r.slot).output := rfl
  have hself : Function.update slots r.slot ((r.feed false).entry slots).slot = slots :=
    Function.update_eq_self r.slot slots
  unfold State.reopen Entry.reopen
  dsimp only
  rw [hout]
  split
  · exact ⟨by rw [hself], rfl⟩
  · cases a.reopen with
    | busy millis => exact ⟨by rw [hself], rfl⟩
    | ran =>
      cases (slots r.slot).output with
      | none => exact ⟨by rw [hself], rfl⟩
      | some output =>
        cases a.start with
        | none => exact ⟨rfl, rfl⟩
        | some error => exact ⟨by rw [hself], rfl⟩

/-- What a format change keeps of a record. -/
private def Record.held (a : FormatAnswers) (i : ℕ) (r : Record) : HeldItem where
  item := { name := r.spec.name, wasEnabled := r.enabled, stop := (a.item i).stop }
  slot := r.slot

/-- Reopening the outputs one after another is reopening each. -/
private theorem reopenAll_entries (openAt : VideoFormat) (a : FormatAnswers) (k : ℕ)
    (slots : ℕ → Slot) (records : List Record) (hd : (records.map Record.slot).Nodup) :
    let reopened := State.reopenAll openAt a k slots (records.mapIdx fun i r ↦ r.held a (k + i))
    let cycled := (records.map (Record.entry slots)).mapIdx fun i entry ↦ cycle a openAt (k + i) entry
    reopened.2.map HeldItem.item = cycled.map Prod.snd ∧
      (records.map (Record.feed false)).map (Record.entry reopened.1) = cycled.map Prod.fst ∧
      ∀ slot, slot ∉ records.map Record.slot → reopened.1 slot = slots slot := by
  induction records generalizing k slots with
  | nil => exact ⟨rfl, rfl, fun _ _ ↦ rfl⟩
  | cons r records ih =>
    obtain ⟨hr, hrest⟩ := List.nodup_cons.mp hd
    obtain ⟨hone, hentry⟩ := reopen_entry openAt slots r (r.held a k).item (a.item k)
    let cycled := ((r.feed false).entry slots).reopen (r.held a k).item openAt (a.item k)
    let next := Function.update slots r.slot cycled.1.slot
    have hothers : records.map (Record.entry next) = records.map (Record.entry slots) :=
      List.map_congr_left fun x hx ↦ entry_update _ fun h ↦ hr (h ▸ List.mem_map_of_mem hx)
    obtain ⟨hitems, hentries, hslots⟩ := ih (k + 1) next hrest
    rw [hothers] at hitems hentries
    have hshift (i : ℕ) : k + (i + 1) = k + 1 + i := by omega
    have hheld : (fun i (r : Record) ↦ r.held a (k + (i + 1))) =
        fun i r ↦ r.held a (k + 1 + i) := by
      funext i r
      rw [hshift]
    have hcycle : (fun i entry ↦ cycle a openAt (k + (i + 1)) entry) =
        fun i entry ↦ cycle a openAt (k + 1 + i) entry := by
      funext i entry
      rw [hshift]
    rw [List.mapIdx_cons, List.map_cons, List.mapIdx_cons, hheld, hcycle]
    dsimp only [State.reopenAll, Nat.add_zero]
    rw [show State.reopen openAt slots (r.held a k) (a.item k) = (next, ⟨cycled.2, r.slot⟩) from hone]
    dsimp only
    have hkept : (State.reopenAll openAt a (k + 1) next
        (records.mapIdx fun i r ↦ r.held a (k + 1 + i))).1 r.slot = cycled.1.slot :=
      (hslots r.slot hr).trans (Function.update_self ..)
    refine ⟨congrArg (cycled.2 :: ·) hitems, ?_, fun slot h ↦ ?_⟩
    · refine congrArg₂ List.cons (Eq.trans ?_ hentry.symm) hentries
      exact congrArg (fun content ↦ { (r.feed false).entry slots with slot := content }) hkept
    · have hne : slot ≠ r.slot := fun h' ↦ h (h' ▸ List.mem_cons_self)
      exact (hslots slot fun h' ↦ h (List.mem_cons_of_mem _ h')).trans (Function.update_of_ne hne ..)

/-- Feeding outputs that are under their slots. -/
private theorem foldl_feedOne (items : List Item) (records : List Record) (slots : ℕ → Slot)
    (error : Option String) :
    let fed := items.foldl State.feedOne (records, error)
    items.foldl feed (records.map (Record.entry slots), error) =
        (fed.1.map (Record.entry slots), fed.2) ∧
      fed.1.map Record.slot = records.map Record.slot := by
  induction items generalizing records error with
  | nil => exact ⟨rfl, rfl⟩
  | cons item items ih =>
    suffices h : feed (records.map (Record.entry slots), error) item =
          ((State.feedOne (records, error) item).1.map (Record.entry slots),
            (State.feedOne (records, error) item).2) ∧
        (State.feedOne (records, error) item).1.map Record.slot = records.map Record.slot by
      obtain ⟨hrest, hslots⟩ := ih (State.feedOne (records, error) item).1
        (State.feedOne (records, error) item).2
      exact ⟨by rw [List.foldl_cons, h.1, hrest]; rfl, hslots.trans h.2⟩
    unfold feed State.feedOne
    dsimp only
    rw [findEntry_map]
    cases hr : find records item.name with
    | none => exact ⟨rfl, rfl⟩
    | some r =>
      have hwrite (f : Record → Record) (hf : ∀ r, (f r).slot = r.slot) (error : Option String) :
          (setEntry item.name ((f r).entry slots) (records.map (Record.entry slots)), error) =
              ((modify item.name f records).map (Record.entry slots), error) ∧
            (modify item.name f records).map Record.slot = records.map Record.slot :=
        ⟨by rw [map_modify_entry_self hr], map_modify _ hf _ _⟩
      dsimp only [Option.map_some]
      cases item.stop with
      | busy millis =>
        exact hwrite (fun r ↦ { r with
          lastError := "did not stop for the format change: " ++ busyMessage item.name millis })
          (fun _ ↦ rfl) _
      | ran =>
        dsimp only
        split
        · exact ⟨rfl, rfl⟩
        · split
          · exact hwrite (fun r ↦ { r with enabled := true, lastError := "" }) (fun _ ↦ rfl) _
          · exact hwrite (fun r ↦ { r with lastError := item.startError }) (fun _ ↦ rfl) _

private theorem answered_setFormat (hs : Separate s) (w : Waiting) (a : Answers)
    (hc : s.current = some (.entered (.setFormat w))) :
    Answered (s.complete a 6) (s.list.setFormat w.format w.previous a.format) := by
  rw [complete_some hc, State.advance, State.enterFormat]
  cases hstuck : a.format.stuck with
  | some millis =>
    dsimp only
    rw [complete_finish, OutputList.State.setFormat, hstuck]
    exact answered_same hs rfl
  | none =>
    let openAt := if a.format.parked then w.format else w.previous
    obtain ⟨hitems, hentries, -⟩ := reopenAll_entries openAt a.format 0 s.slots s.records hs.distinct
    simp only [Nat.zero_add] at hitems hentries
    let reopened := State.reopenAll openAt a.format 0 s.slots
      (s.records.mapIdx fun i r ↦ r.held a.format i)
    have hheld : (s.records.map fun r ↦
        (⟨{ name := r.spec.name, wasEnabled := r.enabled }, r.slot⟩ : HeldItem)).mapIdx
          (fun i held ↦ { held with item := { held.item with stop := (a.format.item i).stop } }) =
            s.records.mapIdx fun i r ↦ r.held a.format i := by
      refine List.ext_getElem (by simp) fun i h₁ h₂ ↦ ?_
      simp [Record.held]
    obtain ⟨hfed, hslots⟩ := foldl_feedOne (reopened.2.map HeldItem.item)
      (s.records.map (Record.feed false)) reopened.1 none
    let fed := (reopened.2.map HeldItem.item).foldl State.feedOne
      (s.records.map (Record.feed false), none)
    let cycled := s.list.outputs.mapIdx (cycle a.format openAt)
    have hcycled : (cycled.map Prod.snd).foldl feed (cycled.map Prod.fst, none) =
        (fed.1.map (Record.entry reopened.1), fed.2) := by
      rw [← hfed, hentries, hitems]
      rfl
    rw [setFormat_eq hstuck, complete_go, State.advance, State.driveStop]
    dsimp only
    rw [hheld, complete_go, State.advance, State.drivePark, complete_some rfl, State.advance,
      State.driveReopen, complete_some rfl, State.advance, State.commitFormat, complete_finish]
    dsimp only [State.go, State.finish]
    have hseparate : fed.1.map Record.slot = s.records.map Record.slot := by
      rw [hslots, List.map_map]
      rfl
    refine ⟨rfl, rfl, (congrArg Prod.fst hcycled).symm, congrArg some ?_, hseparate ▸ hs.distinct,
      fun r hr ↦ ?_⟩
    · have hanswer : (if a.format.parked then fed.2.elim Outcome.accepted Outcome.failed else
          .failed ("the format was not changed: the clock did not stop for it, which usually means " ++
            "an output's driver is not answering; the outputs were reopened at " ++
            w.previous.toString)).message =
          (if a.format.parked then OutputList.reply fed.2 else .notChanged w.previous).message := by
        cases a.format.parked with
        | true => exact message_elim fed.2
        | false => rfl
      exact hanswer.trans (congrArg (fun fed : List Entry × Option String ↦
        (if a.format.parked then OutputList.reply fed.2 else .notChanged w.previous).message)
        hcycled.symm)
    · have hmem : r.slot ∈ s.records.map Record.slot := hseparate ▸ List.mem_map_of_mem hr
      obtain ⟨x, hx, hxr⟩ := List.mem_map.mp hmem
      exact hxr ▸ hs.fresh x hx

/-- Nothing comes between the steps of a request that has the queue: it does to the list what the
request of the output list does, and answers as it does. -/
theorem answered_request (hs : Separate s) (request : Request) (a : Answers)
    (ht : s.step (.request request none) = some t) :
    Answered (t.complete a 6) (request.apply s.list a) := by
  rw [State.step] at ht
  split at ht
  · cases ht
    have hs' : Separate { s with current := some (.entered request), ended := none } :=
      ⟨hs.distinct, hs.fresh⟩
    cases request with
    | setOutputEnabled name enabled => exact answered_setOutputEnabled hs' name enabled a rfl
    | addOutput spec => exact answered_addOutput hs' spec a rfl
    | updateOutput name spec => exact answered_updateOutput hs' name spec a rfl
    | removeOutput name => exact answered_removeOutput hs' name a rfl
    | setFormat w => exact answered_setFormat hs' w a rfl
  · cases ht

/-- An engine that has just started keeps its outputs apart, and stands for the list it opened. -/
theorem separate_start (c : SourceConfig) (answers : ℕ → OpenAnswers) :
    Separate (start c answers) ∧
      (start c answers).list = OutputList.start c.format
        (c.outputs.mapIdx fun i o ↦ (outputSpecFromConfig o, answers i)) := by
  let entries := c.outputs.mapIdx fun i o ↦
    Entry.opened (outputSpecFromConfig o) c.format (answers i)
  have hslots : (start c answers).records.map Record.slot = List.range entries.length := by
    refine List.ext_getElem (by simp [start, entries]) fun i h₁ h₂ ↦ ?_
    simp [start, Record.ofEntry]
  have hlist : (start c answers).list.outputs = entries := by
    refine List.ext_getElem (by simp [start, entries, State.list]) fun i h₁ h₂ ↦ ?_
    have hi : i < c.outputs.length := by simpa [entries] using h₂
    simp [start, State.list, Record.ofEntry, Record.entry, entries, hi, -spec_opened]
  refine ⟨⟨hslots ▸ List.nodup_range, fun r hr ↦ ?_⟩, ?_⟩
  · have hmem : r.slot ∈ List.range entries.length := hslots ▸ List.mem_map_of_mem hr
    exact List.mem_range.mp hmem
  · have hopened : (OutputList.start c.format (c.outputs.mapIdx fun i o ↦
        (outputSpecFromConfig o, answers i))).outputs = entries := by
      refine List.ext_getElem (by simp [OutputList.start, entries]) fun i h₁ h₂ ↦ ?_
      simp [OutputList.start, entries]
    rw [OutputList.start] at hopened ⊢
    dsimp only at hopened
    rw [hopened, ← hlist]
    rfl

end Steps

end WebLinked.Engine.OutputRequests
