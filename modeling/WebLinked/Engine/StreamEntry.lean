import WebLinked.Outputs.StreamLifecycle

/-!
# A stream output in an engine's list

`src/engine/engine.cpp:834–919,1087–1397`. Requests that change the output take turns on the
control queue, and reach the object through its slot's gate, which the clock may be holding.
The object may leave the running state by itself at any moment.
-/

namespace WebLinked.Engine.StreamEntry

open WebLinked.Base WebLinked.Core WebLinked.Outputs

/-- Where the request that has the control queue has got to. One with a gate before it holds
what it read of the entry; `openAt` is the raster to reopen at. -/
inductive Request where
  | none
  | adding
  | enabling (enabled wasEnabled : Bool) | starting | stopping
  | formatStopping (format previous : VideoFormat) (wasEnabled : Bool)
  | formatStopped (format previous : VideoFormat) (wasEnabled : Bool)
  | swapping (format previous : VideoFormat) (wasEnabled stopped : Bool)
  | reopening (openAt : VideoFormat) (wasEnabled stopped : Bool) | reopened
  | probing (spec : Option StreamOutput.StreamSettings) (same wasEnabled : Bool)
  | updating (spec : Option StreamOutput.StreamSettings) (wasEnabled : Bool)
  | updateStopped (spec : Option StreamOutput.StreamSettings) (wasEnabled : Bool)
  | replacing (previous : StreamOutput.StreamSettings) (wasEnabled : Bool) | restoring
  | removing (wasEnabled : Bool) | removed
  deriving DecidableEq, Repr

/-- The engine's raster, the entry with the object in its slot, and the request under way. -/
structure State where
  format : VideoFormat := {}
  present : Bool := false
  enabled : Bool := false
  settings : StreamOutput.StreamSettings := {}
  stream : StreamOutput.State := {}
  request : Request := .none
  deriving DecidableEq, Repr

/-- A request that has got the queue, its next step, or a step of the object. `previous` is
the raster a format change read before it queued; an update to another kind of output has no
`spec`. The flags say whether the gate was free, the clock parked, or a create succeeded. -/
inductive Action where
  | addOutput (settings : StreamOutput.StreamSettings)
  | setOutputEnabled (enabled : Bool)
  | setFormat (format previous : VideoFormat)
  | updateOutput (spec : Option StreamOutput.StreamSettings) (same : Bool)
  | removeOutput
  | proceed (first second : Bool)
  | stream (a : StreamOutput.Action)
  deriving DecidableEq, Repr

/-- The request is inside the slot's gate. -/
def Request.inGate : Request → Bool
  | .adding | .starting | .stopping | .formatStopped _ _ _ | .reopened | .updateStopped _ _
  | .replacing _ _ | .restoring | .removed => true
  | _ => false

namespace State

/-- What the object's last call returned; none while it is in one. -/
def returned (s : State) : Option (Option String) :=
  match s.stream.control with
  | .idle error => some error
  | _ => none

/-- The request is done, and leaves the entry fed or not. -/
def finish (s : State) (enabled : Bool) : State := { s with enabled, request := .none }

/-- A fresh object is created and started. -/
def create (s : State) (settings : StreamOutput.StreamSettings) (request : Request) : State :=
  { s with
    present := true
    settings
    stream := StreamOutput.State.start {} settings s.format
    request }

/-- `updateOutput` puts back what was there, if it can be created;
`src/engine/engine.cpp:1118–1121`. -/
def restore (s : State) (previous : StreamOutput.StreamSettings) (wasEnabled created : Bool) :
    State :=
  if !created then { s with present := false, stream := {} }.finish false
  else if wasEnabled then s.create previous .restoring
  else { s with present := true, settings := previous, stream := {} }.finish false

/-- Whether the output runs, or the entry's own record of it when the gate is busy;
`src/engine/engine.cpp:1061–1069`. -/
def probe (s : State) (answered healthy : Bool) : Option Bool :=
  if answered then s.returned.map fun _ ↦ s.stream.running else some healthy

/-- The next step of the request; none if there is none or it must wait on.
`src/engine/engine.cpp:869–919,1052–1064,1095–1159,1202–1225,1273–1391`. -/
def proceed (s : State) (first second : Bool) : Option State :=
  match s.request with
  | .none => none
  | .adding | .starting | .reopened | .restoring => do
    let error ← s.returned
    some (s.finish error.isNone)
  | .enabling enabled wasEnabled =>
    if !first then some (s.finish wasEnabled)
    else do
      let _ ← s.returned
      if enabled = wasEnabled && s.stream.running = enabled then some (s.finish enabled)
      else if enabled then
        some { s with stream := s.stream.start s.settings s.format, request := .starting }
      else some { s with stream := s.stream.stop, request := .stopping }
  | .stopping => do
    let _ ← s.returned
    some (s.finish false)
  | .formatStopping format previous wasEnabled =>
    if !first then some { s with request := .swapping format previous wasEnabled false }
    else do
      let _ ← s.returned
      some { s with
        stream := s.stream.stop, request := .formatStopped format previous wasEnabled }
  | .formatStopped format previous wasEnabled => do
    let _ ← s.returned
    some { s with request := .swapping format previous wasEnabled true }
  | .swapping format previous wasEnabled stopped =>
    if first then some { s with format, request := .reopening format wasEnabled stopped }
    else some { s with request := .reopening previous wasEnabled stopped }
  | .reopening openAt wasEnabled stopped =>
    if !wasEnabled || !stopped || !first then some (s.finish false)
    else do
      let _ ← s.returned
      some { s with stream := s.stream.start s.settings openAt, request := .reopened }
  | .probing spec same wasEnabled => do
    let running ← s.probe first (wasEnabled && second)
    if running && same then some (s.finish wasEnabled)
    else some { s with enabled := false, request := .updating spec wasEnabled }
  | .updating spec wasEnabled =>
    if !first then some (s.finish wasEnabled)
    else do
      let _ ← s.returned
      some { s with stream := s.stream.stop, request := .updateStopped spec wasEnabled }
  | .updateStopped spec wasEnabled => do
    let _ ← s.returned
    match spec with
    | some settings =>
      if first then some (s.create settings (.replacing s.settings wasEnabled))
      else some (s.restore s.settings wasEnabled second)
    | none =>
      if first then some ({ s with present := false, stream := {} }.finish false)
      else some (s.restore s.settings wasEnabled second)
  | .replacing previous wasEnabled => do
    let error ← s.returned
    if error.isNone then some (s.finish true)
    else some (s.restore previous wasEnabled first)
  | .removing wasEnabled =>
    if !first then some (s.finish wasEnabled)
    else do
      let _ ← s.returned
      some { s with stream := s.stream.stop, request := .removed }
  | .removed => do
    let _ ← s.returned
    some ({ s with present := false, stream := {} }.finish false)

/-- One step of the entry; none where it cannot happen. A `start` or a `stop` of the object
comes from a request, and a `submit` finds the gate free. -/
def step (s : State) : Action → Option State
  | .proceed first second => s.proceed first second
  | .stream a =>
    match a with
    | .start _ | .stop => none
    | .submit _ _ =>
      if s.request.inGate then none else do
        let stream ← s.stream.step s.settings a
        some { s with stream }
    | _ => do
      let stream ← s.stream.step s.settings a
      some { s with stream }
  | .addOutput settings =>
    if s.request = .none ∧ !s.present then some (s.create settings .adding) else none
  | .setOutputEnabled enabled =>
    if s.request = .none ∧ s.present then
      some { s with
        enabled := enabled && s.enabled
        request := .enabling enabled s.enabled }
    else none
  | .setFormat format previous =>
    if s.request = .none ∧ s.present then
      some { s with enabled := false, request := .formatStopping format previous s.enabled }
    else none
  | .updateOutput spec same =>
    if s.request = .none ∧ s.present then
      some { s with request := .probing spec same s.enabled }
    else none
  | .removeOutput =>
    if s.request = .none ∧ s.present then
      some { s with enabled := false, request := .removing s.enabled }
    else none

end State

/-- A source with no stream output yet. -/
def machine : Machine State Action where
  init s := s = {}
  step := State.step

/-- The step is no `setOutputEnabled` that turns on an output whose writers are still to be
joined: one that runs although it is disabled, or has failed since it was started. -/
def enablesStopped (s : State) : Action → Bool
  | .proceed true _ =>
    match s.request with
    | .enabling true wasEnabled =>
      wasEnabled && s.stream.running ||
        s.stream.videoWriter = .none && s.stream.audioWriter = .none
    | _ => true
  | _ => true

variable {s t : State} {a : Action}

namespace Request

/-- The gate is held by a request that stops the output. -/
private def stopsIt : Request → Bool
  | .stopping | .formatStopped _ _ _ | .updateStopped _ _ | .removed => true
  | _ => false

/-- A format change that stopped the output has left its gate. -/
private def leftStopped : Request → Bool
  | .swapping _ _ _ stopped | .reopening _ _ stopped => stopped
  | _ => false

end Request

private structure Serialised (s : State) : Prop where
  stream : (StreamOutput.machine s.settings).ReachableUnder
    (fun s a ↦ StreamOutput.startsStopped s a) s.stream
  stops : s.request.stopsIt → s.stream.control.stops ∨ s.stream.halted
  halted : s.request.leftStopped → s.stream.halted

section Step

private theorem idle_of_returned {error : Option String} (h : s.returned = some error) :
    s.stream.control = .idle error := by
  unfold State.returned at h
  split at h
  · next hc =>
    cases h
    exact hc
  · cases h

private theorem halted_of_returned {error : Option String} (h : s.returned = some error)
    (hs : s.stream.control.stops ∨ s.stream.halted) : s.stream.halted := by
  rcases hs with hs | hs
  · rw [idle_of_returned h] at hs
    cases hs
  · exact hs

private theorem writers_of_halted {s : StreamOutput.State} (h : s.halted) :
    s.videoWriter = .none ∧ s.audioWriter = .none := by
  simp only [StreamOutput.State.halted, Bool.and_eq_true, decide_eq_true_eq] at h
  exact ⟨h.1.2, h.2⟩

private theorem stops_or_halted_stop (s : StreamOutput.State) :
    s.stop.control.stops ∨ s.stop.halted := by
  unfold StreamOutput.State.stop
  split
  · next hs =>
    right
    simp_all [StreamOutput.State.halted]
  · exact Or.inl rfl

private theorem Serialised.stream_start {error : Option String} {format : VideoFormat}
    (inv : Serialised s) (hr : s.returned = some error) (hv : s.stream.videoWriter = .none)
    (ha : s.stream.audioWriter = .none) :
    (StreamOutput.machine s.settings).ReachableUnder
      (fun s a ↦ StreamOutput.startsStopped s a) (s.stream.start s.settings format) := by
  refine .step (.start format) inv.stream ?_ ?_
  · simp [StreamOutput.startsStopped, hv, ha]
  · simp [StreamOutput.machine, StreamOutput.State.step, idle_of_returned hr]

private theorem Serialised.stream_stop {error : Option String} (inv : Serialised s)
    (hr : s.returned = some error) :
    (StreamOutput.machine s.settings).ReachableUnder
      (fun s a ↦ StreamOutput.startsStopped s a) s.stream.stop := by
  refine .step .stop inv.stream rfl ?_
  simp [StreamOutput.machine, StreamOutput.State.step, idle_of_returned hr]

/-- A request that stops the output holds the gate until it has. -/
private theorem Serialised.stop {error : Option String} {request : Request} (inv : Serialised s)
    (hr : s.returned = some error) (hl : request.leftStopped = false) :
    Serialised { s with stream := s.stream.stop, request } := by
  refine ⟨inv.stream_stop hr, fun _ ↦ stops_or_halted_stop _, ?_⟩
  simp [hl]

private theorem reachable_fresh (settings : StreamOutput.StreamSettings) :
    (StreamOutput.machine settings).ReachableUnder
      (fun s a ↦ StreamOutput.startsStopped s a) {} :=
  .init rfl

private theorem serialised_create (settings : StreamOutput.StreamSettings) {request : Request}
    (hs : request.stopsIt = false) (hl : request.leftStopped = false) :
    Serialised (s.create settings request) := by
  refine ⟨?_, ?_, ?_⟩
  · exact .step (.start s.format) (reachable_fresh settings) rfl rfl
  · simp [State.create, hs]
  · simp [State.create, hl]

private theorem serialised_finish {enabled : Bool}
    (h : (StreamOutput.machine s.settings).ReachableUnder
      (fun s a ↦ StreamOutput.startsStopped s a) s.stream) : Serialised (s.finish enabled) :=
  ⟨h, nofun, nofun⟩

private theorem serialised_restore (settings : StreamOutput.StreamSettings)
    (wasEnabled created : Bool) : Serialised (s.restore settings wasEnabled created) := by
  unfold State.restore
  split
  · exact serialised_finish (reachable_fresh _)
  · split
    · exact serialised_create settings rfl rfl
    · exact serialised_finish (reachable_fresh _)

private theorem Serialised.proceed (inv : Serialised s) {first second : Bool}
    (hg : enablesStopped s (.proceed first second)) (h : s.proceed first second = some t) :
    Serialised t := by
  unfold State.proceed at h
  cases hq : s.request with
  | none => simp [hq] at h
  | adding | starting | reopened | restoring | stopping =>
    simp only [hq] at h
    obtain ⟨error, hr, h⟩ := Option.bind_eq_some_iff.mp h
    cases h
    exact serialised_finish inv.stream
  | enabling enabled wasEnabled =>
    simp only [hq] at h
    split at h
    · cases h
      exact serialised_finish inv.stream
    · next hf =>
      obtain ⟨error, hr, h⟩ := Option.bind_eq_some_iff.mp h
      split at h
      · cases h
        exact serialised_finish inv.stream
      · next hact =>
        split at h
        · next he =>
          cases h
          subst he
          have hw : s.stream.videoWriter = .none ∧ s.stream.audioWriter = .none := by
            have hrun : (wasEnabled && s.stream.running) = false := by simpa using hact
            cases first with
            | false => exact absurd rfl hf
            | true => simpa [enablesStopped, hq, hrun] using hg
          exact ⟨inv.stream_start hr hw.1 hw.2, nofun, nofun⟩
        · cases h
          exact inv.stop hr rfl
  | formatStopping format previous wasEnabled =>
    simp only [hq] at h
    split at h
    · cases h
      exact ⟨inv.stream, nofun, nofun⟩
    · obtain ⟨error, hr, h⟩ := Option.bind_eq_some_iff.mp h
      cases h
      exact inv.stop hr rfl
  | formatStopped format previous wasEnabled =>
    simp only [hq] at h
    obtain ⟨error, hr, h⟩ := Option.bind_eq_some_iff.mp h
    cases h
    exact ⟨inv.stream, nofun, fun _ ↦ halted_of_returned hr (inv.stops (by rw [hq]; rfl))⟩
  | swapping format previous wasEnabled stopped =>
    have hl := inv.halted
    rw [hq] at hl
    simp only [hq] at h
    split at h <;> cases h <;> exact ⟨inv.stream, nofun, hl⟩
  | reopening openAt wasEnabled stopped =>
    have hl := inv.halted
    rw [hq] at hl
    simp only [hq] at h
    split at h
    · cases h
      exact serialised_finish inv.stream
    · next hc =>
      obtain ⟨error, hr, h⟩ := Option.bind_eq_some_iff.mp h
      cases h
      obtain ⟨hv, ha⟩ := writers_of_halted (hl (by simp_all [Request.leftStopped]))
      exact ⟨inv.stream_start hr hv ha, nofun, nofun⟩
  | probing spec same wasEnabled =>
    simp only [hq] at h
    obtain ⟨_, _, h⟩ := Option.bind_eq_some_iff.mp h
    split at h <;> cases h <;> exact ⟨inv.stream, nofun, nofun⟩
  | updating spec wasEnabled =>
    simp only [hq] at h
    split at h
    · cases h
      exact serialised_finish inv.stream
    · obtain ⟨error, hr, h⟩ := Option.bind_eq_some_iff.mp h
      cases h
      exact inv.stop hr rfl
  | updateStopped spec wasEnabled =>
    simp only [hq] at h
    obtain ⟨error, hr, h⟩ := Option.bind_eq_some_iff.mp h
    split at h
    · split at h <;> cases h
      · exact serialised_create _ rfl rfl
      · exact serialised_restore _ _ _
    · split at h <;> cases h
      · exact serialised_finish (reachable_fresh _)
      · exact serialised_restore _ _ _
  | replacing previous wasEnabled =>
    simp only [hq] at h
    obtain ⟨error, hr, h⟩ := Option.bind_eq_some_iff.mp h
    split at h <;> cases h
    · exact serialised_finish inv.stream
    · exact serialised_restore _ _ _
  | removing wasEnabled =>
    simp only [hq] at h
    split at h
    · cases h
      exact serialised_finish inv.stream
    · obtain ⟨error, hr, h⟩ := Option.bind_eq_some_iff.mp h
      cases h
      exact inv.stop hr rfl
  | removed =>
    simp only [hq] at h
    obtain ⟨error, hr, h⟩ := Option.bind_eq_some_iff.mp h
    cases h
    exact serialised_finish (reachable_fresh _)

private theorem Serialised.own (inv : Serialised s) {b : StreamOutput.Action}
    (hb : ∀ format, b ≠ .start format) {stream : StreamOutput.State}
    (h : s.stream.step s.settings b = some stream) : Serialised { s with stream } := by
  have threads := StreamOutput.threads_of_reachable inv.stream.reachable
  refine ⟨.step b inv.stream ?_ h, fun hq ↦ ?_, fun hq ↦ ?_⟩
  · cases b <;> first | rfl | exact absurd rfl (hb _)
  · exact StreamOutput.stops_or_halted_of_step threads (inv.stops hq) hb h
  · exact StreamOutput.halted_of_step threads (inv.halted hq) hb h

private theorem Serialised.step (inv : Serialised s) (hg : enablesStopped s a)
    (h : s.step a = some t) : Serialised t := by
  cases a with
  | proceed first second => exact inv.proceed hg h
  | stream b =>
    simp only [State.step] at h
    split at h
    · cases h
    · cases h
    · split at h
      · cases h
      · obtain ⟨stream, hs, h⟩ := Option.bind_eq_some_iff.mp h
        cases h
        exact inv.own (fun _ he ↦ StreamOutput.Action.noConfusion he) hs
    · next hstart _ _ =>
      obtain ⟨stream, hs, h⟩ := Option.bind_eq_some_iff.mp h
      cases h
      exact inv.own (fun format he ↦ hstart format he) hs
  | addOutput settings =>
    simp only [State.step] at h
    split at h <;> cases h
    exact serialised_create settings rfl rfl
  | _ =>
    simp only [State.step] at h
    split at h <;> cases h
    exact ⟨inv.stream, nofun, nofun⟩

end Step

private theorem serialised_of_enablesStopped
    (h : machine.ReachableUnder (fun s a ↦ enablesStopped s a) s) : Serialised s := by
  induction h with
  | init hs =>
    cases hs
    exact ⟨reachable_fresh _, nofun, nofun⟩
  | step a _ hg ht ih => exact ih.step hg ht

/-- A `start` that finds a writer joinable is one that finds something unreleased. -/
private theorem overlaps_of_not_enablesStopped (hg : ¬ enablesStopped s a)
    (h : s.step a = some t) : ¬ StreamOutput.NeverOverlaps t.stream := by
  intro hn
  unfold enablesStopped at hg
  split at hg
  · split at hg
    · next hq =>
      simp only [State.step, State.proceed, hq] at h
      obtain ⟨error, hr, h⟩ := Option.bind_eq_some_iff.mp h
      split at h
      · simp_all
      · cases h
        have hrel := hn.released
        simp only [StreamOutput.State.start] at hrel
        split at hrel <;> simp_all [StreamOutput.State.released]
    · exact hg rfl
  · exact hg rfl

/-- A run of the entry keeps the sessions of its output apart exactly when each
`setOutputEnabled` that starts it finds both of its writers joined. -/
theorem neverOverlaps_iff_enablesStopped (actions : List Action) (t : State)
    (ht : machine.run {} actions = some t) :
    machine.Always (fun s ↦ StreamOutput.NeverOverlaps s.stream) {} actions ↔
      machine.runUnder (fun s a ↦ enablesStopped s a) {} actions = some t :=
  Machine.ReachableUnder.always_iff_runUnder
    (fun _ h ↦ StreamOutput.neverOverlaps_of_startsStopped
      (serialised_of_enablesStopped h).stream)
    (fun _ _ _ _ hg h ↦ overlaps_of_not_enablesStopped hg h)
    (.init rfl) actions ht

/-- The output fails while it is enabled and is turned on again without a `stop`. -/
private def failThenEnable : List Action :=
  [.addOutput { url := "rtmp://host/live" }, .stream (.control true true),
    .stream (.control true true), .stream (.control true true), .stream (.control true true),
    .stream (.control true true), .stream (.control true true), .proceed true true,
    .stream (.video true), .stream (.video true), .stream (.video false), .stream (.video true),
    .stream (.video true), .stream (.video true),
    .setOutputEnabled true, .proceed true true]

/-- The output is turned off and on again. -/
private def disableThenEnable : List Action :=
  [.addOutput { url := "rtmp://host/live" }, .stream (.control true true),
    .stream (.control true true), .stream (.control true true), .stream (.control true true),
    .stream (.control true true), .stream (.control true true), .proceed true true,
    .setOutputEnabled false, .proceed true true, .stream (.control true true),
    .stream (.control true true), .stream (.control true true), .stream (.video true),
    .stream (.audio true), .stream (.video true), .stream (.audio true), .stream (.video true),
    .stream (.video true), .stream (.audio true),
    .stream (.control true true), .stream (.control true true), .stream (.control true true),
    .stream (.control true true), .proceed true true,
    .setOutputEnabled true, .proceed true true]

/-- An output that is turned off and on again is stopped in between. -/
theorem neverOverlaps_disableThenEnable : ∃ t, machine.run {} disableThenEnable = some t ∧
    machine.Always (fun s ↦ StreamOutput.NeverOverlaps s.stream) {} disableThenEnable := by
  have hrun : (machine.run {} disableThenEnable).isSome := by decide
  obtain ⟨t, ht⟩ := Option.isSome_iff_exists.mp hrun
  have hunder : machine.runUnder (fun s a ↦ enablesStopped s a) {} disableThenEnable =
      machine.run {} disableThenEnable := by decide
  exact ⟨t, ht, (neverOverlaps_iff_enablesStopped disableThenEnable t ht).mpr (hunder.trans ht)⟩

/-- An output that failed while it was enabled is started again over its last session. -/
theorem not_neverOverlaps :
    ¬ ∀ s, machine.Reachable s → StreamOutput.NeverOverlaps s.stream := by
  intro h
  have hrun : ((machine.run {} failThenEnable).map fun s ↦ s.stream.unreleased) = some true := by
    decide
  obtain ⟨s, hs, hu⟩ := Option.map_eq_some_iff.mp hrun
  have hr : machine.Reachable s := Machine.Reachable.run (.init rfl) failThenEnable hs
  rw [(h s hr).released] at hu
  cases hu

end WebLinked.Engine.StreamEntry
