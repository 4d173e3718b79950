import WebLinked.Outputs.StreamOutput

/-!
# The threads of a stream output

Which of the writer threads are joinable at each point of `start` and `stop`
(`src/outputs/stream_output.cpp:470–545`), whatever the writers, ffmpeg and the callers do.
-/

namespace WebLinked.Outputs.StreamOutput

open WebLinked.Base WebLinked.Core

variable {settings : StreamSettings} {s t : State} {p p' : Pipe} {w w' : Writer} {ok alive : Bool}
  {never : String} {a : Action}

namespace Writer

/-- The thread has been started and not joined. -/
def joinable (w : Writer) : Bool := w ≠ .none

/-- The thread is blocked in `accept`. -/
def blocked : Writer → Bool
  | .parked _ => true
  | _ => false

/-- The thread is where only the video writer goes. -/
def videoOnly : Writer → Bool
  | .handing _ | .draining => true
  | _ => false

end Writer

/-- Between the start of a writer thread and its join, by where the current call is. -/
def Control.writers (video audio : Bool) : Control → Prop
  | .idle _ | .submitting _ | .listening | .spawning => video = audio
  | .resetting | .launchingVideo => video = false ∧ audio = false
  | .launchingAudio => video = true ∧ audio = false
  | .announcing | .signalling | .closingVideo | .closingAudio | .joiningVideo =>
    video = true ∧ audio = true
  | .joiningAudio => video = false ∧ audio = true
  | .closing | .terminating => video = false ∧ audio = false
  | .aborted => True

/-- `stop` has cleared `running_`. -/
def Control.stops : Control → Bool
  | .signalling | .closingVideo | .closingAudio | .joiningVideo | .joiningAudio | .closing
  | .terminating => true
  | _ => false

/-- What holds of the threads in every state of an output. -/
structure Threads (s : State) : Prop where
  writers : s.control.writers s.videoWriter.joinable s.audioWriter.joinable
  logReader : s.videoWriter.joinable ∨ s.control = .resetting ∨ s.control = .launchingVideo →
    s.logReaderJoinable
  running : s.running → s.videoWriter.joinable ∧ s.audioWriter.joinable ∧ s.control.stops = false
  stopping : s.control.stops → s.control = .signalling ∨ s.stopping
  drained : s.videoWriter = .finished ∨ s.control = .joiningAudio → s.videoDrained
  role : s.audioWriter.videoOnly = false

/-! ### What a writer's step leaves alone -/

/-- `accept` ends in a connection or in `fail`, and blocks only on the current listener. -/
theorem accept_cases (h : p.accept alive ok never w = some (w', p')) :
    (w' = .failing never ∨ w' = .accepting ∨ (∃ l, w' = .parked l ∧ p.listener = some l) ∨
      w' = .waiting) ∧
    (p' = p ∨ ∃ l, w = .parked l ∧ p' =
      { p.closeListener with peer := ok, overwrote := p.overwrote || p.peer }) := by
  unfold Pipe.accept at h
  split at h
  · cases h
    refine ⟨?_, Or.inl rfl⟩
    split
    · exact Or.inl rfl
    · exact Or.inr (Or.inl rfl)
  · cases h
    refine ⟨?_, Or.inl rfl⟩
    cases hl : p.listener with
    | none => exact Or.inl rfl
    | some l => exact Or.inr (Or.inr (Or.inl ⟨l, rfl, rfl⟩))
  · next l =>
    split at h
    · cases h
      refine ⟨?_, Or.inr ⟨l, rfl, rfl⟩⟩
      split
      · exact Or.inr (Or.inr (Or.inr rfl))
      · exact Or.inl rfl
    · cases h
  · cases h

/-- What a step of either writer does to the fields both share with the calls. -/
structure WriterStep (s t : State) : Prop where
  control : t.control = s.control
  logReader : t.logReaderJoinable = s.logReaderJoinable
  running : t.running → s.running
  stopping : s.stopping → t.stopping

/-- A step within `accept` leaves the thread joinable and unfinished. -/
private theorem joinable_of_accept (h : p.accept alive ok never w = some (w', p')) :
    w'.joinable ∧ w' ≠ .finished ∧ w'.videoOnly = false := by
  rcases (accept_cases h).1 with rfl | rfl | ⟨l, rfl, -⟩ | rfl <;> exact ⟨rfl, nofun, rfl⟩

/-- A step of the video writer keeps it joinable, and it finishes drained. -/
theorem videoLoop_spec (h : s.videoLoop ok = some t) :
    WriterStep s t ∧ s.videoWriter.joinable ∧ s.videoWriter ≠ .finished ∧
      t.videoWriter.joinable ∧ t.audioWriter = s.audioWriter ∧
      (t.videoWriter = .finished → t.videoDrained) := by
  cases hw : s.videoWriter with
  | none | finished => simp [State.videoLoop, hw] at h
  | entering | accepting | parked l =>
    simp only [State.videoLoop, hw] at h
    obtain ⟨⟨w, p⟩, ha, h⟩ := Option.bind_eq_some_iff.mp h
    cases h
    obtain ⟨hj, hf, -⟩ := joinable_of_accept ha
    exact ⟨⟨rfl, rfl, id, id⟩, rfl, nofun, hj, rfl, fun h ↦ absurd h hf⟩
  | waiting =>
    simp only [State.videoLoop, hw] at h
    repeat' split at h
    all_goals cases h
    all_goals exact ⟨⟨rfl, rfl, id, id⟩, rfl, nofun, rfl, rfl, nofun⟩
  | writing u | handing u =>
    simp only [State.videoLoop, hw] at h
    split at h <;> cases h <;> exact ⟨⟨rfl, rfl, id, id⟩, rfl, nofun, rfl, rfl, nofun⟩
  | failing reason =>
    simp only [State.videoLoop, hw] at h
    cases h
    exact ⟨⟨rfl, rfl, nofun, id⟩, rfl, nofun, rfl, rfl, nofun⟩
  | stopping =>
    simp only [State.videoLoop, hw] at h
    cases h
    exact ⟨⟨rfl, rfl, id, fun _ ↦ rfl⟩, rfl, nofun, rfl, rfl, nofun⟩
  | draining =>
    simp only [State.videoLoop, hw] at h
    cases h
    exact ⟨⟨rfl, rfl, id, id⟩, rfl, nofun, rfl, rfl, fun _ ↦ rfl⟩

/-- A step of the audio writer keeps it joinable and the video writer as it is. -/
theorem audioLoop_spec (h : s.audioLoop ok = some t) :
    WriterStep s t ∧ s.audioWriter.joinable ∧ t.audioWriter.joinable ∧
      t.audioWriter.videoOnly = false ∧ t.videoWriter = s.videoWriter ∧
      t.videoDrained = s.videoDrained := by
  cases hw : s.audioWriter with
  | none | finished | draining => simp [State.audioLoop, hw] at h
  | handing u => simp [State.audioLoop, hw] at h
  | entering | accepting | parked l =>
    simp only [State.audioLoop, hw] at h
    obtain ⟨⟨w, p⟩, ha, h⟩ := Option.bind_eq_some_iff.mp h
    cases h
    obtain ⟨hj, -, hv⟩ := joinable_of_accept ha
    exact ⟨⟨rfl, rfl, id, id⟩, rfl, hj, hv, rfl, rfl⟩
  | waiting =>
    simp only [State.audioLoop, hw] at h
    repeat' split at h
    all_goals cases h
    all_goals exact ⟨⟨rfl, rfl, id, id⟩, rfl, rfl, rfl, rfl, rfl⟩
  | writing u =>
    simp only [State.audioLoop, hw] at h
    split at h <;> cases h <;> exact ⟨⟨rfl, rfl, id, id⟩, rfl, rfl, rfl, rfl, rfl⟩
  | failing reason =>
    simp only [State.audioLoop, hw] at h
    cases h
    exact ⟨⟨rfl, rfl, nofun, id⟩, rfl, rfl, rfl, rfl, rfl⟩
  | stopping =>
    simp only [State.audioLoop, hw] at h
    cases h
    exact ⟨⟨rfl, rfl, id, fun _ ↦ rfl⟩, rfl, rfl, rfl, rfl, rfl⟩

/-! ### What a call leaves behind -/

section Threads

private theorem Threads.video (inv : Threads s) (h : s.videoLoop ok = some t) : Threads t := by
  obtain ⟨hs, hj, hf, hj', ha, hd⟩ := videoLoop_spec h
  constructor
  · rw [hs.control, hj', ha, ← hj]
    exact inv.writers
  · rw [hs.logReader]
    exact fun _ ↦ inv.logReader (Or.inl hj)
  · intro hr
    rw [hs.control, ha]
    exact ⟨hj', (inv.running (hs.running hr)).2⟩
  · rw [hs.control]
    exact fun hc ↦ (inv.stopping hc).imp_right hs.stopping
  · rintro (hfin | hc)
    · exact hd hfin
    · have hwr := inv.writers
      rw [← hs.control, hc] at hwr
      simp [Control.writers, hj] at hwr
  · rw [ha]
    exact inv.role

private theorem Threads.audio (inv : Threads s) (h : s.audioLoop ok = some t) : Threads t := by
  obtain ⟨hs, hj, hj', hrole, hv, hd⟩ := audioLoop_spec h
  constructor
  · rw [hs.control, hj', hv, ← hj]
    exact inv.writers
  · rw [hs.logReader, hv, hs.control]
    exact inv.logReader
  · intro hr
    rw [hs.control, hv]
    obtain ⟨hvj, -, hstop⟩ := inv.running (hs.running hr)
    exact ⟨hvj, hj', hstop⟩
  · rw [hs.control]
    exact fun hc ↦ (inv.stopping hc).imp_right hs.stopping
  · rw [hv, hs.control, hd]
    exact inv.drained
  · exact hrole

private theorem Threads.proceed (inv : Threads s) {first second : Bool}
    (h : s.proceed first second = some t) : Threads t := by
  obtain ⟨hw, hl, hr, hst, hd, hrole⟩ := inv
  cases hc : s.control with
  | idle _ | aborted => simp [State.proceed, hc] at h
  | submitting u =>
    simp only [State.proceed, hc, State.push] at h hw hl hr hst hd
    repeat' split at h
    all_goals
      cases h
      constructor <;> simp_all [Control.writers, Control.stops, Writer.joinable, Writer.videoOnly]
  | joiningVideo | joiningAudio =>
    simp only [State.proceed, hc] at h hw hl hr hst hd
    split at h <;> cases h
    all_goals constructor <;> simp_all [Control.writers, Control.stops, Writer.joinable, Writer.videoOnly]
  | _ =>
    simp only [State.proceed, hc] at h hw hl hr hst hd
    repeat' split at h
    all_goals
      cases h
      constructor <;> simp_all [Control.writers, Control.stops, Writer.joinable, Writer.videoOnly]

private theorem Threads.step (inv : Threads s) (h : s.step settings a = some t) : Threads t := by
  cases a with
  | video ok =>
    simp only [State.step] at h
    split at h
    · cases h
    · exact inv.video h
  | audio ok =>
    simp only [State.step] at h
    split at h
    · cases h
    · exact inv.audio h
  | control first second => exact inv.proceed h
  | exit =>
    simp only [State.step] at h
    split at h <;> cases h
    exact ⟨inv.writers, inv.logReader, inv.running, inv.stopping, inv.drained, inv.role⟩
  | start format =>
    obtain ⟨hw, hl, hr, hst, hd, hrole⟩ := inv
    cases hc : s.control <;> simp only [State.step, hc, reduceCtorEq, Option.some.injEq] at h
    rw [← h, State.start]
    split <;> constructor <;> simp_all [Control.writers, Control.stops]
  | stop =>
    obtain ⟨hw, hl, hr, hst, hd, hrole⟩ := inv
    cases hc : s.control <;> simp only [State.step, hc, reduceCtorEq, Option.some.injEq] at h
    rw [← h, State.stop]
    split
    · constructor <;> simp_all [Control.writers, Control.stops]
    · have hj : s.audioWriter ≠ .none := by
        cases hrun : s.running <;> simp_all [Control.writers, Writer.joinable]
      constructor <;> simp_all [Control.writers, Control.stops, Writer.joinable, Writer.videoOnly]
  | submit video audio =>
    obtain ⟨hw, hl, hr, hst, hd, hrole⟩ := inv
    cases hc : s.control <;> simp only [State.step, hc, reduceCtorEq, Option.some.injEq] at h
    rw [← h, State.submit]
    split <;> constructor <;> simp_all [Control.writers, Control.stops]

end Threads

/-- Every state an output can be in has its threads in order. -/
theorem threads_of_reachable (h : (machine settings).Reachable s) : Threads s := by
  refine h.invariant (fun s hs ↦ ?_) fun _ _ _ _ inv ht ↦ inv.step ht
  cases hs
  constructor <;> simp [Control.writers, Control.stops, Writer.joinable, Writer.videoOnly]

end WebLinked.Outputs.StreamOutput
