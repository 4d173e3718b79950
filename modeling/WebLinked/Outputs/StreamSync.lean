import Mathlib
import WebLinked.Outputs.StreamThreads

/-!
# Sound and picture of a stream output

`src/outputs/stream_output.cpp:27–34,547–756`. A tick's picture and sound go to two sockets
that carry no timestamps, so a session stays in sync only if the two streams carry the same
ticks in the same order, and none of an earlier session.
-/

namespace WebLinked.Outputs.StreamOutput

open WebLinked.Base

variable {settings : StreamSettings} {s t : State} {ok : Bool} {a : Action}

/-- The blocks written are those of the frames written, in order; a dropped tick has neither
its frame nor its block written; everything written was submitted in this session and has
its frame size; and once both writers have been joined without a failure, as many blocks as
frames were written. -/
structure InSync (s : State) : Prop where
  paired : ∀ (k : Nat) (u : Tick), s.audioWritten[k]? = some u →
    ∃ v, s.videoWritten[k]? = some v ∧ v.number = u.number
  dropped : ∀ u ∈ s.dropped, ∀ v ∈ s.videoWritten ++ s.audioWritten, v.number ≠ u.number
  own : ∀ u ∈ s.videoWritten ++ s.audioWritten,
    u.session = s.session ∧ u.video.length = s.sessionBytes
  equal : s.videoWriter = .none → s.audioWriter = .none → s.failed = false →
    s.videoWritten.length = s.audioWritten.length

/-- The step is no `start` that finds a writer not joined or ticks of an earlier session in
either queue. -/
def startsEmpty (s : State) : Action → Bool
  | .start _ =>
    s.videoWriter = .none && s.audioWriter = .none && s.queue.isEmpty && s.pendingAudio.isEmpty
  | _ => true

namespace Writer

/-- A tick taken out of the queue and not written. -/
@[simp] private def unwritten : Writer → List Tick
  | .writing t => [t]
  | _ => []

/-- A tick written and not handed over. -/
@[simp] private def unhanded : Writer → List Tick
  | .handing t => [t]
  | _ => []

/-- The thread will write no more. -/
@[simp] private def gone : Writer → Bool
  | .failing _ | .stopping | .draining | .finished | .none => true
  | _ => false

@[simp] private def fails : Writer → Bool
  | .failing _ => true
  | _ => false

end Writer

namespace Control

@[simp] private def submitted : Control → List Tick
  | .submitting t => [t]
  | _ => []

/-- In `start`, before any writer runs. -/
@[simp] private def opens : Control → Bool
  | .listening | .spawning | .resetting | .launchingVideo => true
  | _ => false

/-- In `start`, before `running_` is set. -/
@[simp] private def launches : Control → Bool
  | .launchingVideo | .launchingAudio | .announcing => true
  | _ => false

end Control

/-- The ticks of this session that no stream carries yet. -/
private def State.waiting (s : State) : List Tick :=
  s.videoWriter.unwritten ++ s.queue ++ s.control.submitted

private structure Flow (s : State) : Prop where
  bytes : s.videoWriter.joinable ∨ s.control = .launchingVideo → s.frameBytes = s.sessionBytes
  waits : ∀ u ∈ s.waiting, u.session = s.session ∧ u.video.length = s.sessionBytes
  handed : ∀ u ∈ s.videoWriter.unhanded, u ∈ s.videoWritten
  wrote : ∀ u ∈ s.videoWritten, u.session = s.session ∧ u.video.length = s.sessionBytes
  opens : s.control.opens → s.videoWriter = .none
  empty : s.control.opens ∨ s.control.launches → s.waiting = [] ∧ s.pendingAudio = []
  launches : s.control.launches → s.videoWritten = [] ∧ s.audioWritten = []
  fresh : s.control = .launchingVideo → s.videoDrained = false
  drained : s.videoDrained → s.videoWriter = .finished ∨ s.videoWriter = .none
  pairs : s.audioWriter.gone = false → ∃ lost, s.videoWritten =
    s.audioWritten ++ s.audioWriter.unwritten ++ s.pendingAudio ++ s.videoWriter.unhanded ++ lost ∧
      (lost ≠ [] → s.videoWriter.gone ∧ (s.failed ∨ s.videoWriter.fails))
  ahead : s.audioWritten <+: s.videoWritten
  ended : s.failed = false → s.audioWriter = .finished ∨ s.audioWriter = .none →
    s.videoWritten = s.audioWritten
  emptied : s.failed = false → s.audioWriter = .finished → s.videoDrained
  failed : s.audioWriter = .stopping → s.failed
  once : ((s.dropped ++ s.videoWritten ++ s.waiting).map Tick.number).Nodup
  below : ∀ u ∈ s.dropped ++ s.videoWritten ++ s.waiting, u.number < s.submits

private theorem eq_false_of_imp {b c : Bool} (h : b → c) (hc : c = false) : b = false := by
  cases hb : b with
  | false => rfl
  | true =>
    rw [h hb] at hc
    cases hc

/-- Until the video writer is gone nothing it wrote is lost. -/
private theorem Flow.videoWritten_eq (inv : Flow s) (hg : s.audioWriter.gone = false)
    (hw : s.videoWriter.gone = false) : s.videoWritten =
      s.audioWritten ++ s.audioWriter.unwritten ++ s.pendingAudio ++ s.videoWriter.unhanded := by
  obtain ⟨lost, heq, hlost⟩ := inv.pairs hg
  have hnil : lost = [] := by
    by_contra hne
    have := (hlost hne).1
    rw [hw] at this
    cases this
  rw [heq, hnil, List.append_nil]

/-! ### The video writer -/

section Video

variable {u : Tick}

private theorem gone_of_fails {w : Writer} (h : w.fails) : w.gone := by
  cases w <;> simp_all

/-- A step that writes nothing: the ticks it holds may only be lost, and by `fail`. -/
private theorem Flow.videoQuiet (inv : Flow s) {w : Writer} {queue : List Tick} {videoPipe : Pipe}
    {error : String} {running stopping videoDrained failed : Bool}
    (hn : s.videoWriter ≠ .none) (hf : s.videoWriter ≠ .finished)
    (hw : (w.unwritten ++ queue).Sublist (s.videoWriter.unwritten ++ s.queue))
    (hu : w.unhanded = s.videoWriter.unhanded ∨ w.unhanded = [] ∧ w.fails)
    (hgone : s.videoWriter.gone → w.gone)
    (hfails : s.failed ∨ s.videoWriter.fails → failed ∨ w.fails)
    (hfailed : s.failed → failed) (hdrained : videoDrained → s.videoDrained ∨ w = .finished) :
    Flow { s with videoWriter := w, queue, videoPipe, error, running, stopping, videoDrained,
                  failed } := by
  have hsub : (w.unwritten ++ queue ++ s.control.submitted).Sublist s.waiting :=
    hw.append (List.Sublist.refl _)
  have hall := (List.Sublist.refl (s.dropped ++ s.videoWritten)).append hsub
  constructor
  · exact fun _ ↦ inv.bytes (Or.inl (by simpa [Writer.joinable] using hn))
  · exact fun v hv ↦ inv.waits v (hsub.subset hv)
  · intro v hv
    rcases hu with hu | ⟨hu, -⟩
    · exact inv.handed v (hu ▸ hv)
    · change v ∈ w.unhanded at hv
      rw [hu] at hv
      cases hv
  · exact inv.wrote
  · exact fun hc ↦ absurd (inv.opens hc) hn
  · intro hc
    obtain ⟨hwait, hpend⟩ := inv.empty hc
    rw [hwait] at hsub
    exact ⟨List.sublist_nil.mp hsub, hpend⟩
  · exact inv.launches
  · intro hc
    have hc : s.control = .launchingVideo := hc
    exact absurd (inv.opens (by rw [hc]; rfl)) hn
  · intro hd
    rcases hdrained hd with h | h
    · exact ((inv.drained h).elim hf hn).elim
    · exact Or.inl h
  · intro hg
    obtain ⟨lost, heq, hlost⟩ := inv.pairs hg
    rcases hu with hu | ⟨hu, hwf⟩
    · refine ⟨lost, by rw [hu]; exact heq, fun hne ↦ ?_⟩
      exact ⟨hgone (hlost hne).1, hfails (hlost hne).2⟩
    · refine ⟨s.videoWriter.unhanded ++ lost, ?_, fun _ ↦ ?_⟩
      · change s.videoWritten = _ ++ w.unhanded ++ _
        rw [hu, heq]
        simp only [List.append_nil, List.append_assoc]
      · exact ⟨gone_of_fails hwf, Or.inr hwf⟩
  · exact inv.ahead
  · exact fun hnf ↦ inv.ended (eq_false_of_imp hfailed hnf)
  · intro hnf ha
    rcases inv.drained (inv.emptied (eq_false_of_imp hfailed hnf) ha) with h | h
    · exact absurd h hf
    · exact absurd h hn
  · exact fun ha ↦ hfailed (inv.failed ha)
  · exact inv.once.sublist (hall.map _)
  · exact fun v hv ↦ inv.below v (hall.subset hv)

/-- Until a session is over the audio writer is still to come for what is written. -/
private theorem Flow.audioAwaited (threads : Threads s) (inv : Flow s) (hc : s.control ≠ .aborted)
    (hw : s.videoWriter = .writing u) (hnf : s.failed = false) :
    s.audioWriter ≠ .finished ∧ s.audioWriter ≠ .none := by
  constructor
  · intro ha
    rcases inv.drained (inv.emptied hnf ha) with h | h <;> rw [hw] at h <;> cases h
  · intro ha
    have hwr := threads.writers
    have hwait : s.waiting ≠ [] := by simp [State.waiting, hw]
    cases hctl : s.control <;>
      simp_all [Control.writers, Writer.joinable, (inv.empty (Or.inr _)).1]

private theorem Flow.videoWrite (threads : Threads s) (inv : Flow s) (hc : s.control ≠ .aborted)
    (hw : s.videoWriter = .writing u) :
    Flow { s with videoWritten := s.videoWritten ++ [u], videoWriter := .handing u } := by
  have hwait : s.waiting = u :: (s.queue ++ s.control.submitted) := by simp [State.waiting, hw]
  have hu := inv.waits u (by simp [hwait])
  have hmoved : s.dropped ++ (s.videoWritten ++ [u]) ++ (s.queue ++ s.control.submitted) =
      s.dropped ++ s.videoWritten ++ s.waiting := by simp [hwait]
  have hnw (h : s.control.opens ∨ s.control.launches) : False := by
    have := (inv.empty h).1
    rw [hwait] at this
    cases this
  constructor
  · exact fun _ ↦ inv.bytes (Or.inl (by rw [hw]; rfl))
  · exact fun v hv ↦ inv.waits v (by rw [hwait]; exact List.mem_cons_of_mem _ hv)
  · exact fun v hv ↦ List.mem_append_right _ hv
  · intro v hv
    rcases List.mem_append.mp hv with hv | hv
    · exact inv.wrote v hv
    · rw [List.mem_singleton.mp hv]
      exact hu
  · exact fun h ↦ (hnw (Or.inl h)).elim
  · exact fun h ↦ (hnw h).elim
  · exact fun h ↦ (hnw (Or.inr h)).elim
  · intro h
    have h : s.control = .launchingVideo := h
    exact (hnw (Or.inl (by rw [h]; rfl))).elim
  · intro hd
    rcases inv.drained hd with h | h <;> rw [hw] at h <;> cases h
  · intro hg
    refine ⟨[], ?_, nofun⟩
    simp [inv.videoWritten_eq hg (by rw [hw]; rfl), hw]
  · exact inv.ahead.trans (List.prefix_append _ _)
  · intro hnf ha
    obtain ⟨hfin, hnone⟩ := inv.audioAwaited threads hc hw hnf
    exact (ha.elim hfin hnone).elim
  · intro hnf ha
    exact absurd ha (inv.audioAwaited threads hc hw hnf).1
  · exact inv.failed
  · change ((s.dropped ++ (s.videoWritten ++ [u]) ++ (s.queue ++ s.control.submitted)).map _).Nodup
    rw [hmoved]
    exact inv.once
  · change ∀ v ∈ s.dropped ++ (s.videoWritten ++ [u]) ++ (s.queue ++ s.control.submitted), _
    rw [hmoved]
    exact inv.below

private theorem Flow.handOver (inv : Flow s) (hw : s.videoWriter = .handing u) :
    Flow { s with pendingAudio := s.pendingAudio ++ [u], videoWriter := .waiting } := by
  have hwait : s.waiting = s.queue ++ s.control.submitted := by simp [State.waiting, hw]
  have hn : s.videoWriter ≠ .none := by rw [hw]; nofun
  have hmem : u ∈ s.videoWritten := inv.handed u (by simp [hw])
  have hnw (h : s.control.opens ∨ s.control.launches) : False := by
    rcases h with h | h
    · exact hn (inv.opens h)
    · rw [(inv.launches h).1] at hmem
      cases hmem
  constructor
  · exact fun _ ↦ inv.bytes (Or.inl (by rw [hw]; rfl))
  · exact fun v hv ↦ inv.waits v (by rw [hwait]; exact hv)
  · exact nofun
  · exact inv.wrote
  · exact fun h ↦ absurd (inv.opens h) hn
  · exact fun h ↦ (hnw h).elim
  · exact inv.launches
  · intro h
    have h : s.control = .launchingVideo := h
    exact (hnw (Or.inl (by rw [h]; rfl))).elim
  · intro hd
    rcases inv.drained hd with h | h <;> rw [hw] at h <;> cases h
  · intro hg
    refine ⟨[], ?_, nofun⟩
    simp [inv.videoWritten_eq hg (by rw [hw]; rfl), hw]
  · exact inv.ahead
  · exact inv.ended
  · exact inv.emptied
  · exact inv.failed
  · simpa [State.waiting, hw] using inv.once
  · simpa [State.waiting, hw] using inv.below

private theorem Flow.video (threads : Threads s) (inv : Flow s) (hc : s.control ≠ .aborted)
    (h : s.videoLoop ok = some t) : Flow t := by
  cases hw : s.videoWriter with
  | none | finished => simp [State.videoLoop, hw] at h
  | entering | accepting | parked l =>
    simp only [State.videoLoop, hw] at h
    obtain ⟨⟨w, p⟩, ha, h⟩ := Option.bind_eq_some_iff.mp h
    cases h
    rcases (accept_cases ha).1 with rfl | rfl | ⟨l, rfl, -⟩ | rfl <;>
      apply inv.videoQuiet <;> simp_all
  | waiting =>
    simp only [State.videoLoop, hw] at h
    split at h
    · split at h <;> cases h
      apply inv.videoQuiet <;> simp_all
    · cases h
      apply inv.videoQuiet <;> simp_all
  | writing u =>
    simp only [State.videoLoop, hw] at h
    split at h <;> cases h
    · exact inv.videoWrite threads hc hw
    · apply inv.videoQuiet <;> simp_all
  | handing u =>
    simp only [State.videoLoop, hw] at h
    split at h <;> cases h
    · apply inv.videoQuiet <;> simp_all
    · exact inv.handOver hw
  | failing reason =>
    simp only [State.videoLoop, hw] at h
    cases h
    apply inv.videoQuiet <;> simp_all
  | stopping =>
    simp only [State.videoLoop, hw] at h
    cases h
    apply inv.videoQuiet <;> simp_all
  | draining =>
    simp only [State.videoLoop, hw] at h
    cases h
    apply inv.videoQuiet <;> simp_all

end Video

/-! ### The audio writer -/

section Audio

variable {u : Tick}

/-- A step that writes nothing and takes nothing over. -/
private theorem Flow.audioQuiet (inv : Flow s) {w : Writer} {audioPipe : Pipe} {error : String}
    {running stopping failed : Bool} (hn : w ≠ .none)
    (hgone : w.gone = false → s.audioWriter.gone = false ∧ w.unwritten = s.audioWriter.unwritten)
    (hfailed : s.failed → failed) (hstop : w = .stopping → failed)
    (hend : failed = false → w = .finished →
      s.audioWriter = .waiting ∧ s.pendingAudio = [] ∧ s.videoDrained) :
    Flow { s with audioWriter := w, audioPipe, error, running, stopping, failed } := by
  refine ⟨inv.bytes, inv.waits, inv.handed, inv.wrote, inv.opens, inv.empty, inv.launches,
    inv.fresh, inv.drained, ?_, inv.ahead, ?_, ?_, hstop, inv.once, inv.below⟩
  · intro hg
    obtain ⟨hg', hu⟩ := hgone hg
    obtain ⟨lost, heq, hlost⟩ := inv.pairs hg'
    refine ⟨lost, by rw [hu]; exact heq, fun hne ↦ ?_⟩
    exact ⟨(hlost hne).1, (hlost hne).2.imp_left hfailed⟩
  · intro hf ha
    obtain ⟨hw, hpend, hd⟩ := hend hf (ha.resolve_right hn)
    obtain ⟨lost, heq, hlost⟩ := inv.pairs (by rw [hw]; rfl)
    -- Drained, the video writer holds nothing and has lost nothing.
    have hv : s.videoWriter.unhanded = [] ∧ s.videoWriter.fails = false := by
      rcases inv.drained hd with h | h <;> rw [h] <;> exact ⟨rfl, rfl⟩
    have hnil : lost = [] := by
      by_contra hne
      have := (hlost hne).2
      rw [eq_false_of_imp hfailed hf, hv.2] at this
      simp at this
    change s.videoWritten = s.audioWritten
    rw [heq, hw, hpend, hv.1, hnil]
    simp
  · exact fun hf ha ↦ (hend hf ha).2.2

private theorem Flow.audioTake (inv : Flow s) {pendingAudio : List Tick}
    (hw : s.audioWriter = .waiting) (hpend : s.pendingAudio = u :: pendingAudio) :
    Flow { s with pendingAudio, audioWriter := .writing u } := by
  refine ⟨inv.bytes, inv.waits, inv.handed, inv.wrote, inv.opens, fun h ↦ ?_, inv.launches,
    inv.fresh, inv.drained, fun _ ↦ ?_, inv.ahead, nofun, nofun, nofun, inv.once, inv.below⟩
  · have := (inv.empty h).2
    rw [hpend] at this
    cases this
  · obtain ⟨lost, heq, hlost⟩ := inv.pairs (by rw [hw]; rfl)
    exact ⟨lost, by simpa [hw, hpend] using heq, hlost⟩

private theorem Flow.audioWrite (inv : Flow s) (hw : s.audioWriter = .writing u) :
    Flow { s with audioWritten := s.audioWritten ++ [u], audioWriter := .waiting } := by
  obtain ⟨lost, heq, hlost⟩ := inv.pairs (by rw [hw]; rfl)
  refine ⟨inv.bytes, inv.waits, inv.handed, inv.wrote, inv.opens, inv.empty, fun h ↦ ?_,
    inv.fresh, inv.drained, fun _ ↦ ⟨lost, ?_, hlost⟩, ?_, nofun, nofun, nofun, inv.once,
    inv.below⟩
  · have := (inv.launches h).1
    rw [heq, hw] at this
    simp at this
  · simpa [hw] using heq
  · change s.audioWritten ++ [u] <+: s.videoWritten
    rw [heq, hw]
    simp only [Writer.unwritten, List.append_assoc]
    exact (List.prefix_append_right_inj _).mpr (List.prefix_append _ _)

private theorem Flow.audio (inv : Flow s) (h : s.audioLoop ok = some t) : Flow t := by
  cases hw : s.audioWriter with
  | none | finished | draining => simp [State.audioLoop, hw] at h
  | handing u => simp [State.audioLoop, hw] at h
  | entering | accepting | parked l =>
    simp only [State.audioLoop, hw] at h
    obtain ⟨⟨w, p⟩, ha, h⟩ := Option.bind_eq_some_iff.mp h
    cases h
    rcases (accept_cases ha).1 with rfl | rfl | ⟨l, rfl, -⟩ | rfl <;>
      apply inv.audioQuiet <;> simp_all
  | waiting =>
    simp only [State.audioLoop, hw] at h
    split at h
    · split at h <;> cases h
      apply inv.audioQuiet <;> simp_all
    · next hpend =>
      cases h
      exact inv.audioTake hw hpend
  | writing u =>
    simp only [State.audioLoop, hw] at h
    split at h <;> cases h
    · exact inv.audioWrite hw
    · apply inv.audioQuiet <;> simp_all
  | failing reason =>
    simp only [State.audioLoop, hw] at h
    cases h
    apply inv.audioQuiet <;> simp_all
  | stopping =>
    simp only [State.audioLoop, hw] at h
    cases h
    have := inv.failed hw
    apply inv.audioQuiet <;> simp_all

end Audio

/-! ### The calls -/

section Calls

/-- A step of a call that touches no tick. -/
private theorem Flow.call (inv : Flow s) {control : Control} {format : Core.VideoFormat}
    {running stopping logReaderJoinable unreleased : Bool} {videoPipe audioPipe : Pipe}
    {ffmpeg : Option Bool} (hs : s.control.submitted = []) (hc : control.submitted = [])
    (ho : control.opens → s.control.opens) (hl : control.launches = false) :
    Flow { s with control, format, running, stopping, logReaderJoinable, unreleased, videoPipe,
                  audioPipe, ffmpeg } := by
  have hwait : s.waiting = s.videoWriter.unwritten ++ s.queue ++ control.submitted := by
    rw [State.waiting, hs, hc]
  have hnl : control ≠ .launchingVideo := fun h ↦ by rw [h] at hl; cases hl
  obtain ⟨bytes, waits, handed, wrote, opens, empty, -, -, drained, pairs, ahead, ended, emptied,
    failed, once, below⟩ := inv
  rw [hwait] at waits empty once below
  refine ⟨fun h ↦ ?_, waits, handed, wrote, opens ∘ ho, fun h ↦ ?_, fun h ↦ ?_,
    fun h ↦ absurd h hnl, drained, pairs, ahead, ended, emptied, failed, once, below⟩
  · exact bytes (Or.inl (h.resolve_right hnl))
  · rcases h with h | h
    · exact empty (Or.inl (ho h))
    · exact (Bool.false_ne_true (hl.symm.trans h)).elim
  · exact (Bool.false_ne_true (hl.symm.trans h)).elim

private theorem Flow.push (inv : Flow s) {u : Tick} (hc : s.control = .submitting u) :
    Flow (s.push u) := by
  have hwait : s.waiting = s.videoWriter.unwritten ++ s.queue ++ [u] := by
    rw [State.waiting, hc]
    rfl
  obtain ⟨bytes, waits, handed, wrote, -, -, -, -, drained, pairs, ahead, ended, emptied,
    failed, once, below⟩ := inv
  rw [hwait] at waits once below
  -- Dropped or not, the same ticks are about, and `submitting` is nowhere in `start`.
  have kept {queue dropped : List Tick}
      (hperm : (dropped ++ s.videoWritten ++ (s.videoWriter.unwritten ++ queue)).Perm
        (s.dropped ++ s.videoWritten ++ (s.videoWriter.unwritten ++ s.queue ++ [u])))
      (hsub : queue ⊆ s.queue ++ [u]) :
      Flow { s with queue, dropped, control := .idle none } := by
    refine ⟨fun h ↦ ?_, fun v hv ↦ waits v ?_, handed, wrote, nofun, ?_, nofun, nofun, drained,
      pairs, ahead, ended, emptied, failed, ?_, fun v hv ↦ below v ?_⟩
    · exact bytes (Or.inl (h.resolve_right nofun))
    · have hv : v ∈ s.videoWriter.unwritten ++ queue ++ [] := hv
      simp only [List.append_nil, List.mem_append] at hv
      rw [List.append_assoc]
      exact List.mem_append.mpr (hv.imp_right fun h ↦ hsub h)
    · rintro (h | h) <;> cases h
    · refine (List.Perm.nodup_iff ?_).mp once
      have := (hperm.map Tick.number).symm
      simpa [State.waiting] using this
    · refine hperm.subset ?_
      simpa [State.waiting] using hv
  unfold State.push
  split
  · next oldest queue hq =>
    split
    · refine kept ?_ ?_
      · rw [hq, List.perm_iff_count]
        intro v
        simp only [List.count_append, List.count_cons, List.count_nil]
        omega
      · rw [hq]
        exact fun v hv ↦ List.mem_cons_of_mem _ hv
    · exact kept (by simp) (List.Subset.refl _)
  · next hq =>
    exact kept (by simp [hq]) (by simp)

private theorem Flow.submit (threads : Threads s) (inv : Flow s) {video : List UInt8}
    {audio : AudioBlock} {error : Option String} (hc : s.control = .idle error) :
    Flow (s.submit settings video audio) := by
  unfold State.submit
  split
  · next hgo =>
    simp only [Bool.and_eq_true, decide_eq_true_eq] at hgo
    obtain ⟨hrun, hlen⟩ := hgo
    have hbytes := inv.bytes (Or.inl (threads.running hrun).1)
    have hwait : s.waiting = s.videoWriter.unwritten ++ s.queue := by
      simp [State.waiting, hc]
    obtain ⟨bytes, waits, handed, wrote, -, -, -, -, drained, pairs, ahead, ended, emptied,
      failed, once, below⟩ := inv
    rw [hwait] at waits once below
    refine ⟨fun h ↦ bytes (Or.inl (h.resolve_right nofun)), ?_, handed, wrote, nofun, ?_, nofun,
      nofun, drained, pairs, ahead, ended, emptied, failed, ?_, ?_⟩
    · intro v hv
      rcases List.mem_append.mp hv with hv | hv
      · exact waits v hv
      · rw [List.mem_singleton.mp hv]
        exact ⟨rfl, hlen.trans hbytes⟩
    · rintro (h | h) <;> cases h
    · simp only [State.waiting, Control.submitted]
      rw [← List.append_assoc, List.map_append]
      refine List.nodup_append.mpr ⟨once, List.nodup_singleton _, ?_⟩
      rintro n hn m hm rfl
      obtain ⟨v, hv, rfl⟩ := List.mem_map.mp hn
      have hlt := below v hv
      simp only [List.map_cons, List.map_nil, List.mem_singleton] at hm
      omega
    · intro v hv
      have hv : v ∈ s.dropped ++ s.videoWritten ++ (s.videoWriter.unwritten ++ s.queue ++ [_]) := hv
      rw [← List.append_assoc] at hv
      rcases List.mem_append.mp hv with hv | hv
      · have := below v hv
        exact Nat.lt_succ_of_lt this
      · rw [List.mem_singleton.mp hv]
        exact Nat.lt_succ_self _
  · apply inv.call <;> simp_all

private theorem Flow.reset (threads : Threads s) (inv : Flow s) (hc : s.control = .resetting) :
    Flow { s with
      stopping := false
      videoDrained := false
      session := s.session + 1
      sessionBytes := s.frameBytes
      failed := false
      videoWritten := []
      audioWritten := []
      dropped := []
      control := .launchingVideo } := by
  have hw := threads.writers
  rw [hc] at hw
  have hv : s.videoWriter = .none := by simpa [Writer.joinable] using hw.1
  have ha : s.audioWriter = .none := by simpa [Writer.joinable] using hw.2
  obtain ⟨hwait, hpend⟩ := inv.empty (Or.inl (by rw [hc]; rfl))
  have hnil : s.videoWriter.unwritten ++ s.queue ++ [] = [] := by
    rw [State.waiting, hc] at hwait
    exact hwait
  refine ⟨fun _ ↦ rfl, ?_, ?_, List.forall_mem_nil _, fun _ ↦ hv, fun _ ↦ ⟨hnil, hpend⟩,
    fun _ ↦ ⟨rfl, rfl⟩, fun _ ↦ rfl, fun h ↦ (by cases h), ?_, List.prefix_refl _, fun _ _ ↦ rfl,
    ?_, ?_, ?_, ?_⟩
  · intro v hv
    have hv : v ∈ s.videoWriter.unwritten ++ s.queue ++ [] := hv
    rw [hnil] at hv
    cases hv
  · intro v hv'
    rw [hv] at hv'
    cases hv'
  · intro hg
    rw [ha] at hg
    cases hg
  · intro _ h
    rw [ha] at h
    cases h
  · intro h
    rw [ha] at h
    cases h
  · change (([] ++ [] ++ (s.videoWriter.unwritten ++ s.queue ++ [])).map Tick.number).Nodup
    rw [hnil]
    exact List.nodup_nil
  · intro v hv
    have hv : v ∈ [] ++ [] ++ (s.videoWriter.unwritten ++ s.queue ++ []) := hv
    rw [hnil] at hv
    cases hv

private theorem Flow.launchVideo (inv : Flow s) (hc : s.control = .launchingVideo) :
    Flow { s with videoWriter := .entering, control := .launchingAudio } := by
  have hv := inv.opens (by rw [hc]; rfl)
  have hwait : s.waiting = [] ++ s.queue ++ [] := by rw [State.waiting, hc, hv]; rfl
  have hd := inv.fresh hc
  obtain ⟨bytes, waits, -, wrote, -, empty, launches, -, -, pairs, ahead, ended, emptied, failed,
    once, below⟩ := inv
  rw [hwait] at waits empty once below
  refine ⟨fun _ ↦ bytes (Or.inr hc), waits, nofun, wrote, nofun, fun _ ↦ ?_, fun _ ↦ ?_, nofun,
    fun h ↦ ?_, fun hg ↦ ?_, ahead, ended, emptied, failed, once, below⟩
  · exact empty (Or.inl (by rw [hc]; rfl))
  · exact launches (by rw [hc]; rfl)
  · exact (Bool.false_ne_true (hd.symm.trans h)).elim
  · obtain ⟨lost, heq, hlost⟩ := pairs hg
    have hnil : lost = [] := by
      have := (launches (by rw [hc]; rfl)).1
      rw [heq] at this
      simp only [List.append_eq_nil_iff] at this
      exact this.2
    refine ⟨[], ?_, nofun⟩
    rw [hv, hnil] at heq
    exact heq

private theorem Flow.launchAudio (inv : Flow s) (hc : s.control = .launchingAudio) :
    Flow { s with audioWriter := .entering, control := .announcing } := by
  have hwait : s.waiting = s.videoWriter.unwritten ++ s.queue ++ [] := by rw [State.waiting, hc]; rfl
  have hl := inv.launches (by rw [hc]; rfl)
  obtain ⟨bytes, waits, handed, wrote, -, empty, -, -, drained, -, ahead, -, -, -, once,
    below⟩ := inv
  rw [hwait] at waits empty once below
  refine ⟨fun h ↦ bytes (Or.inl (h.resolve_right nofun)), waits, handed, wrote, nofun, fun _ ↦ ?_,
    fun _ ↦ hl, nofun, drained, fun _ ↦ ⟨[], ?_, nofun⟩, ahead, nofun, nofun, nofun, once, below⟩
  · exact empty (Or.inr (by rw [hc]; rfl))
  · have hpend : s.pendingAudio = [] := (empty (Or.inr (by rw [hc]; rfl))).2
    have hhand : s.videoWriter.unhanded = [] := by
      rw [hl.1] at handed
      exact List.eq_nil_iff_forall_not_mem.mpr fun v hv ↦ by cases handed v hv
    change s.videoWritten = s.audioWritten ++ [] ++ s.pendingAudio ++ s.videoWriter.unhanded ++ []
    rw [hl.1, hl.2, hpend, hhand]
    rfl

private theorem Flow.joinVideo (inv : Flow s) (hc : s.control = .joiningVideo)
    (hv : s.videoWriter = .none ∨ s.videoWriter = .finished) :
    Flow { s with videoWriter := .none, control := .joiningAudio } := by
  have hidle : s.videoWriter.unwritten = [] ∧ s.videoWriter.unhanded = [] ∧
      s.videoWriter.fails = false := by
    rcases hv with h | h <;> rw [h] <;> exact ⟨rfl, rfl, rfl⟩
  have hwait : s.waiting = [] ++ s.queue ++ [] := by rw [State.waiting, hc, hidle.1]; rfl
  obtain ⟨bytes, waits, -, wrote, -, empty, -, -, -, pairs, ahead, ended, emptied, failed,
    once, below⟩ := inv
  rw [hwait] at waits once below
  refine ⟨?_, waits, nofun, wrote, nofun, ?_, nofun, nofun, fun _ ↦ Or.inr rfl, fun hg ↦ ?_,
    ahead, ended, emptied, failed, once, below⟩
  · rintro (h | h) <;> cases h
  · rintro (h | h) <;> cases h
  · obtain ⟨lost, heq, hlost⟩ := pairs hg
    rw [hidle.2.1] at heq
    refine ⟨lost, heq, fun hne ↦ ⟨rfl, Or.inl ?_⟩⟩
    have := (hlost hne).2
    rw [hidle.2.2] at this
    simpa using this

private theorem Flow.joinAudio (inv : Flow s) (hc : s.control = .joiningAudio)
    (ha : s.audioWriter = .none ∨ s.audioWriter = .finished) :
    Flow { s with audioWriter := .none, control := .closing } := by
  have hwait : s.waiting = s.videoWriter.unwritten ++ s.queue ++ [] := by rw [State.waiting, hc]; rfl
  obtain ⟨bytes, waits, handed, wrote, -, empty, -, -, drained, -, ahead, ended, -, -, once,
    below⟩ := inv
  rw [hwait] at waits once below
  refine ⟨fun h ↦ bytes (Or.inl (h.resolve_right nofun)), waits, handed, wrote, nofun, ?_, nofun,
    nofun, drained, nofun, ahead, fun hf _ ↦ ended hf ha.symm, nofun, nofun, once, below⟩
  rintro (h | h) <;> cases h

private theorem Flow.proceed (threads : Threads s) (inv : Flow s) {first second : Bool}
    (h : s.proceed first second = some t) : Flow t := by
  cases hc : s.control with
  | idle _ | aborted => simp [State.proceed, hc] at h
  | submitting u =>
    simp only [State.proceed, hc] at h
    cases h
    exact inv.push hc
  | resetting =>
    simp only [State.proceed, hc] at h
    cases h
    exact inv.reset threads hc
  | launchingVideo =>
    simp only [State.proceed, hc] at h
    split at h <;> cases h
    · exact inv.launchVideo hc
    · apply inv.call <;> simp_all
  | launchingAudio =>
    simp only [State.proceed, hc] at h
    split at h <;> cases h
    · exact inv.launchAudio hc
    · apply inv.call <;> simp_all
  | joiningVideo =>
    simp only [State.proceed, hc] at h
    split at h <;> cases h
    · exact inv.joinVideo hc (Or.inl (by assumption))
    · exact inv.joinVideo hc (Or.inr (by assumption))
  | joiningAudio =>
    simp only [State.proceed, hc] at h
    split at h <;> cases h
    · exact inv.joinAudio hc (Or.inl (by assumption))
    · exact inv.joinAudio hc (Or.inr (by assumption))
  | _ =>
    simp only [State.proceed, hc] at h
    repeat' split at h
    all_goals
      cases h
      apply inv.call <;> simp_all

/-- `start` on an output that is stopped, with nothing left over. -/
private theorem Flow.start (inv : Flow s) {format : Core.VideoFormat} {error : Option String}
    (hc : s.control = .idle error) (hg : startsEmpty s (.start format)) :
    Flow (s.start settings format) := by
  simp only [startsEmpty, Bool.and_eq_true, decide_eq_true_eq, List.isEmpty_iff] at hg
  obtain ⟨⟨⟨hv, ha⟩, hq⟩, hp⟩ := hg
  unfold State.start
  dsimp only
  split
  · apply inv.call <;> simp_all
  · have hwait : s.waiting = s.videoWriter.unwritten ++ s.queue ++ [] := by
      rw [State.waiting, hc]
      rfl
    obtain ⟨-, waits, handed, wrote, -, -, -, -, drained, pairs, ahead, ended, emptied, failed,
      once, below⟩ := inv
    rw [hwait] at waits once below
    refine ⟨?_, waits, handed, wrote, fun _ ↦ hv, fun _ ↦ ⟨?_, hp⟩, nofun, nofun, drained, pairs,
      ahead, ended, emptied, failed, once, below⟩
    · rintro (h | h)
      · have hj : s.videoWriter.joinable = true := h
        rw [hv] at hj
        cases hj
      · cases h
    · change s.videoWriter.unwritten ++ s.queue ++ [] = []
      rw [hv, hq]
      rfl

private theorem Flow.step (threads : Threads s) (inv : Flow s) (hg : startsEmpty s a)
    (h : s.step settings a = some t) : Flow t := by
  cases a with
  | video ok =>
    simp only [State.step] at h
    split at h
    · cases h
    · next hc => exact inv.video threads hc h
  | audio ok =>
    simp only [State.step] at h
    split at h
    · cases h
    · exact inv.audio h
  | control first second => exact inv.proceed threads h
  | exit =>
    simp only [State.step] at h
    split at h <;> cases h
    exact ⟨inv.bytes, inv.waits, inv.handed, inv.wrote, inv.opens, inv.empty, inv.launches,
      inv.fresh, inv.drained, inv.pairs, inv.ahead, inv.ended, inv.emptied, inv.failed, inv.once,
      inv.below⟩
  | start format =>
    cases hc : s.control <;> simp only [State.step, hc, reduceCtorEq, Option.some.injEq] at h
    rw [← h]
    exact inv.start hc hg
  | stop =>
    cases hc : s.control <;> simp only [State.step, hc, reduceCtorEq, Option.some.injEq] at h
    rw [← h, State.stop]
    split <;> apply inv.call <;> simp_all
  | submit video audio =>
    cases hc : s.control <;> simp only [State.step, hc, reduceCtorEq, Option.some.injEq] at h
    rw [← h]
    exact inv.submit threads hc

end Calls

private theorem Flow.inSync (inv : Flow s) : InSync s := by
  have hsub : ∀ u ∈ s.videoWritten ++ s.audioWritten, u ∈ s.videoWritten := by
    intro u hu
    exact (List.mem_append.mp hu).elim id fun h ↦ inv.ahead.subset h
  refine ⟨fun k u hu ↦ ⟨u, ?_, rfl⟩, fun u hu v hv heq ↦ ?_, fun u hu ↦ ?_, fun _ ha hf ↦ ?_⟩
  · obtain ⟨rest, hrest⟩ := inv.ahead
    have hlt := (List.getElem?_eq_some_iff.mp hu).1
    rw [← hrest, List.getElem?_append_left hlt]
    exact hu
  · have hn := inv.once
    rw [List.append_assoc, List.map_append, List.nodup_append] at hn
    refine hn.2.2 _ (List.mem_map_of_mem hu) _ (List.mem_map_of_mem ?_) heq.symm
    exact List.mem_append_left _ (hsub v hv)
  · exact inv.wrote u (hsub u hu)
  · rw [inv.ended hf (Or.inr ha)]

private theorem flow_of_startsEmpty
    (h : (machine settings).ReachableUnder (fun s a ↦ startsEmpty s a) s) : Flow s := by
  induction h with
  | init hs =>
    cases hs
    constructor <;> simp [State.waiting]
  | step a hr hg ht ih => exact ih.step (threads_of_reachable hr.reachable) hg ht

/-- In every run whose starts find the output stopped and both queues empty, whatever the
writers, ffmpeg and the callers do, sound and picture stay in sync within each session. -/
theorem inSync_of_startsEmpty
    (h : (machine settings).ReachableUnder (fun s a ↦ startsEmpty s a) s) : InSync s :=
  (flow_of_startsEmpty h).inSync

private def toServer : StreamSettings := { url := "rtmp://host:1935/live/key" }

private def onePixel : Core.VideoFormat := { width := 1, height := 1 }

private def oneSample : AudioBlock :=
  { interleaved := some [1, 2, 3, 4, 5, 6, 7, 8], frames := 1, channels := 2, sampleRate := 48000 }

private def takes (n : Nat) (a : Action) : List Action := List.replicate n a

/-- Started, with ffmpeg connected to both sockets. -/
private def startConnected : List Action :=
  .start onePixel :: takes 6 (.control true true) ++ takes 3 (.video true) ++ takes 3 (.audio true)

/-- One tick goes out, then `stop` gets both writers back. -/
private def oneTick : List Action :=
  startConnected ++ [.submit [1, 2] oneSample, .control true true] ++ takes 3 (.video true) ++
    takes 2 (.audio true) ++ [.stop, .control true true] ++ takes 2 (.video true) ++
    takes 1 (.audio true) ++ takes 6 (.control true true)

private def firstTick : Tick :=
  { video := [1, 2], audio := [1, 2, 3, 4, 5, 6, 7, 8], number := 0, session := 1 }

private def stoppedAfterOne : State :=
  { format := onePixel
    frameBytes := 2
    stopping := true
    videoDrained := true
    videoPipe := { opened := 1, closed := [0] }
    audioPipe := { opened := 1, closed := [0] }
    session := 1
    sessionBytes := 2
    submits := 1
    videoWritten := [firstTick]
    audioWritten := [firstTick] }

/-- A session of one tick, stopped cleanly. -/
theorem inSync_stoppedAfterOne : InSync stoppedAfterOne := by
  have hr : (machine toServer).ReachableUnder (fun s a ↦ startsEmpty s a) stoppedAfterOne :=
    .runUnder (.init rfl) oneTick (by decide)
  exact inSync_of_startsEmpty hr

/-- The write of the first of two ticks fails, the output is stopped, then started again. -/
private def restartAfterFailure : List Action :=
  startConnected ++
    [.submit [1, 2] oneSample, .control true true, .submit [3, 4] oneSample, .control true true,
      .video true, .video false] ++ takes 3 (.video true) ++ takes 1 (.audio true) ++ [.stop] ++
    takes 7 (.control true true) ++ startConnected ++ takes 2 (.video true)

/-- A tick that a failed session left in the queue goes out in the next one. -/
theorem not_inSync :
    ¬ ∀ (settings : StreamSettings) (s : State), (machine settings).Reachable s → InSync s := by
  intro h
  have hr : (machine toServer).Reachable
      { format := onePixel
        frameBytes := 2
        running := true
        videoPipe := { peer := true, opened := 2, closed := [1, 0] }
        audioPipe := { peer := true, opened := 2, closed := [1, 0] }
        videoWriter := .handing { firstTick with video := [3, 4], number := 1 }
        audioWriter := .waiting
        ffmpeg := some true
        logReaderJoinable := true
        error := "ffmpeg closed the video connection"
        session := 2
        sessionBytes := 2
        submits := 2
        videoWritten := [{ firstTick with video := [3, 4], number := 1 }] } :=
    Machine.Reachable.run (.init rfl) restartAfterFailure (by decide)
  have hown := (h toServer _ hr).own _ (List.mem_append_left _ (List.mem_singleton.mpr rfl))
  cases hown.1

end WebLinked.Outputs.StreamOutput
