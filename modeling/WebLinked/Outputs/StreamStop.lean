import Mathlib
import WebLinked.Outputs.StreamThreads

/-!
# Stopping a stream output

`src/outputs/stream_output.cpp:513–545`. `stop` joins both writers, so each of them must be
able to leave. A condition wait always can by then; a thread blocked in `accept` cannot once
its listener is closed.
-/

namespace WebLinked.Outputs.StreamOutput

open WebLinked.Base

variable {settings : StreamSettings} {s t : State} {ok : Bool} {a : Action}

/-- A writer that `stop` waits to join has finished or can take its next step. -/
structure JoinsEnd (s : State) : Prop where
  video : s.control = .joiningVideo → s.videoWriter = .finished ∨ ∃ ok, (s.videoLoop ok).isSome
  audio : s.control = .joiningAudio → s.audioWriter = .finished ∨ ∃ ok, (s.audioLoop ok).isSome

/-- The step is no close of a listener that its writer is blocked on. -/
def closesIdleListener (s : State) : Action → Bool
  | .control _ _ =>
    match s.control with
    | .closingVideo => !s.videoWriter.blocked
    | .closingAudio => !s.audioWriter.blocked
    | _ => true
  | _ => true

/-- `stop` has closed the listener and not yet joined its writer. -/
private def Control.pastVideoListener : Control → Bool
  | .closingAudio | .joiningVideo => true
  | _ => false

private def Control.pastAudioListener : Control → Bool
  | .joiningVideo | .joiningAudio => true
  | _ => false

private structure Released (s : State) : Prop where
  video : s.control.pastVideoListener → s.videoPipe.listener = none ∧ s.videoWriter.blocked = false
  audio : s.control.pastAudioListener → s.audioPipe.listener = none ∧ s.audioWriter.blocked = false

/-- Nothing can start to block on a listener that is closed. -/
private theorem idle_of_accept {p p' : Pipe} {w w' : Writer} {alive : Bool} {never : String}
    (h : p.accept alive ok never w = some (w', p')) (hl : p.listener = none)
    (hb : w.blocked = false) : p'.listener = none ∧ w'.blocked = false := by
  obtain ⟨hw, hp⟩ := accept_cases h
  constructor
  · rcases hp with rfl | ⟨l, rfl, -⟩
    · exact hl
    · cases hb
  · rcases hw with rfl | rfl | ⟨l, -, hsome⟩ | rfl
    · rfl
    · rfl
    · rw [hl] at hsome
      cases hsome
    · rfl

private theorem idle_of_videoLoop (h : s.videoLoop ok = some t) :
    t.audioPipe = s.audioPipe ∧
      (s.videoPipe.listener = none → s.videoWriter.blocked = false →
        t.videoPipe.listener = none ∧ t.videoWriter.blocked = false) := by
  cases hw : s.videoWriter with
  | entering | accepting | parked l =>
    simp only [State.videoLoop, hw] at h
    obtain ⟨⟨w, p⟩, ha, h⟩ := Option.bind_eq_some_iff.mp h
    cases h
    exact ⟨rfl, idle_of_accept ha⟩
  | _ =>
    simp only [State.videoLoop, hw] at h
    repeat' split at h
    all_goals cases h
    all_goals exact ⟨rfl, fun hl _ ↦ ⟨hl, rfl⟩⟩

private theorem idle_of_audioLoop (h : s.audioLoop ok = some t) :
    t.videoPipe = s.videoPipe ∧
      (s.audioPipe.listener = none → s.audioWriter.blocked = false →
        t.audioPipe.listener = none ∧ t.audioWriter.blocked = false) := by
  cases hw : s.audioWriter with
  | entering | accepting | parked l =>
    simp only [State.audioLoop, hw] at h
    obtain ⟨⟨w, p⟩, ha, h⟩ := Option.bind_eq_some_iff.mp h
    cases h
    exact ⟨rfl, idle_of_accept ha⟩
  | _ =>
    simp only [State.audioLoop, hw] at h
    repeat' split at h
    all_goals cases h
    all_goals exact ⟨rfl, fun hl _ ↦ ⟨hl, rfl⟩⟩

private theorem Released.proceed (inv : Released s) {first second : Bool}
    (hg : closesIdleListener s (.control first second))
    (h : s.proceed first second = some t) : Released t := by
  have closed (p : Pipe) : p.closeListener.listener = none := by
    unfold Pipe.closeListener
    split
    · rfl
    · assumption
  cases hc : s.control with
  | idle _ | aborted => simp [State.proceed, hc] at h
  | closingVideo =>
    simp only [State.proceed, hc] at h
    cases h
    refine ⟨fun _ ↦ ⟨closed _, ?_⟩, fun h ↦ by cases h⟩
    simpa [closesIdleListener, hc] using hg
  | closingAudio =>
    simp only [State.proceed, hc] at h
    cases h
    refine ⟨fun _ ↦ inv.video (by rw [hc]; rfl), fun _ ↦ ⟨closed _, ?_⟩⟩
    simpa [closesIdleListener, hc] using hg
  | joiningVideo =>
    simp only [State.proceed, hc] at h
    split at h <;> cases h
    all_goals
      refine ⟨fun h ↦ ?_, fun _ ↦ inv.audio (by rw [hc]; rfl)⟩
      cases h
  | joiningAudio =>
    simp only [State.proceed, hc] at h
    split at h <;> cases h
    all_goals constructor <;> intro h <;> cases h
  | submitting u =>
    simp only [State.proceed, hc, State.push] at h
    repeat' split at h
    all_goals
      cases h
      constructor <;> intro h <;> cases h
  | _ =>
    simp only [State.proceed, hc] at h
    repeat' split at h
    all_goals
      cases h
      constructor <;> simp [Control.pastVideoListener, Control.pastAudioListener]

private theorem Released.step (inv : Released s) (hg : closesIdleListener s a)
    (h : s.step settings a = some t) : Released t := by
  cases a with
  | video ok =>
    simp only [State.step] at h
    split at h
    · cases h
    · obtain ⟨hs, -, -, -, haw, -⟩ := videoLoop_spec h
      obtain ⟨hap, hidle⟩ := idle_of_videoLoop h
      constructor
      · rw [hs.control]
        exact fun hc ↦ hidle (inv.video hc).1 (inv.video hc).2
      · rw [hs.control, haw, hap]
        exact inv.audio
  | audio ok =>
    simp only [State.step] at h
    split at h
    · cases h
    · obtain ⟨hs, -, -, -, hvw, -⟩ := audioLoop_spec h
      obtain ⟨hvp, hidle⟩ := idle_of_audioLoop h
      constructor
      · rw [hs.control, hvw, hvp]
        exact inv.video
      · rw [hs.control]
        exact fun hc ↦ hidle (inv.audio hc).1 (inv.audio hc).2
  | control first second => exact inv.proceed hg h
  | exit =>
    simp only [State.step] at h
    split at h <;> cases h
    exact ⟨inv.video, inv.audio⟩
  | start format =>
    cases hc : s.control <;> simp only [State.step, hc, reduceCtorEq, Option.some.injEq] at h
    rw [← h, State.start]
    split <;> constructor <;> intro h <;> cases h
  | stop =>
    cases hc : s.control <;> simp only [State.step, hc, reduceCtorEq, Option.some.injEq] at h
    rw [← h, State.stop]
    split <;> constructor <;> intro h <;> cases h
  | submit video audio =>
    cases hc : s.control <;> simp only [State.step, hc, reduceCtorEq, Option.some.injEq] at h
    rw [← h, State.submit]
    split <;> constructor <;> intro h <;> cases h

/-- A video writer that is not blocked can go on once `stopping_` is set. -/
private theorem videoLoop_isSome (hj : s.videoWriter.joinable) (hb : s.videoWriter.blocked = false)
    (hst : s.stopping) : s.videoWriter = .finished ∨ ∃ ok, (s.videoLoop ok).isSome := by
  cases hw : s.videoWriter with
  | none => simp [hw, Writer.joinable] at hj
  | finished => exact Or.inl rfl
  | parked l => simp [hw, Writer.blocked] at hb
  | waiting =>
    refine Or.inr ⟨true, ?_⟩
    simp only [State.videoLoop, hw]
    split
    · rw [if_pos hst]
      rfl
    · rfl
  | writing u | handing u =>
    refine Or.inr ⟨true, ?_⟩
    simp only [State.videoLoop, hw]
    split <;> rfl
  | _ => exact Or.inr ⟨true, by simp [State.videoLoop, hw, Pipe.accept]⟩

/-- Nor does the audio writer wait any more once the video writer has drained. -/
private theorem audioLoop_isSome (hj : s.audioWriter.joinable) (hb : s.audioWriter.blocked = false)
    (hr : s.audioWriter.videoOnly = false) (hst : s.stopping) (hd : s.videoDrained) :
    s.audioWriter = .finished ∨ ∃ ok, (s.audioLoop ok).isSome := by
  cases hw : s.audioWriter with
  | none => simp [hw, Writer.joinable] at hj
  | finished => exact Or.inl rfl
  | parked l => simp [hw, Writer.blocked] at hb
  | handing u | draining => simp [hw, Writer.videoOnly] at hr
  | waiting =>
    refine Or.inr ⟨true, ?_⟩
    simp only [State.audioLoop, hw]
    split
    · simp [hst, hd]
    · rfl
  | writing u =>
    refine Or.inr ⟨true, ?_⟩
    simp only [State.audioLoop, hw]
    split <;> rfl
  | _ => exact Or.inr ⟨true, by simp [State.audioLoop, hw, Pipe.accept]⟩

/-- In every run in which `stop` closes no listener that a writer is blocked on, a writer it
waits to join has finished or can go on, wherever both were when it was called. -/
theorem joinsEnd_of_closesIdleListener
    (h : (machine settings).ReachableUnder (fun s a ↦ closesIdleListener s a) s) :
    JoinsEnd s := by
  have threads := threads_of_reachable h.reachable
  have inv : Released s := by
    refine h.invariant (fun s hs ↦ ?_) fun _ _ _ hg inv ht ↦ inv.step hg ht
    cases hs
    constructor <;> intro h <;> cases h
  have hstops := threads.stopping
  have hwriters := threads.writers
  constructor
  · intro hc
    rw [hc] at hstops hwriters
    have hst : s.stopping := (hstops rfl).resolve_left nofun
    exact videoLoop_isSome hwriters.1 (inv.video (by rw [hc]; rfl)).2 hst
  · intro hc
    rw [hc] at hstops hwriters
    have hst : s.stopping := (hstops rfl).resolve_left nofun
    exact audioLoop_isSome hwriters.2 (inv.audio (by rw [hc]; rfl)).2 threads.role hst
      (threads.drained (Or.inr hc))

private def publishing : StreamSettings := { url := "rtmp://host:1935/live/key" }

/-- Started, with both writers blocked in `accept`. -/
private def startBlocked : List Action :=
  [.start {}, .control true true, .control true true, .control true true, .control true true,
    .control true true, .control true true, .video true, .video true, .audio true, .audio true]

/-- ffmpeg connects to both sockets before `stop`, which waits for the video writer. -/
private def stopConnected : List Action :=
  startBlocked ++
    [.video true, .audio true, .stop, .control true true, .control true true, .control true true]

private def joiningConnected : State :=
  { frameBytes := 4147200
    stopping := true
    videoPipe := { peer := true, opened := 1, closed := [0] }
    audioPipe := { peer := true, opened := 1, closed := [0] }
    videoWriter := .waiting
    audioWriter := .waiting
    ffmpeg := some true
    logReaderJoinable := true
    control := .joiningVideo
    session := 1
    sessionBytes := 4147200 }

/-- Once ffmpeg has connected to both sockets, `stop` gets its writers back. -/
theorem joinsEnd_stopConnected : JoinsEnd joiningConnected := by
  have hr : (machine publishing).ReachableUnder (fun s a ↦ closesIdleListener s a)
      joiningConnected := .runUnder (.init rfl) stopConnected (by decide)
  exact joinsEnd_of_closesIdleListener hr

/-- ffmpeg exits, unable to publish, before it connects to anything. -/
private def stopBlocked : List Action :=
  startBlocked ++ [.exit, .stop, .control true true, .control true true, .control true true]

/-- If ffmpeg never connects, `stop` joins a writer that nothing will release. -/
theorem not_joinsEnd :
    ¬ ∀ (settings : StreamSettings) (s : State), (machine settings).Reachable s → JoinsEnd s := by
  intro h
  have hr : (machine publishing).Reachable
      { joiningConnected with
        videoPipe := { opened := 1, closed := [0] }
        audioPipe := { opened := 1, closed := [0] }
        videoWriter := .parked 0
        audioWriter := .parked 0
        ffmpeg := some false } :=
    Machine.Reachable.run (.init rfl) stopBlocked (by decide)
  rcases (h publishing _ hr).video rfl with hf | ⟨ok, hs⟩
  · cases hf
  · cases hs

end WebLinked.Outputs.StreamOutput
