import Mathlib
import WebLinked.Outputs.StreamThreads

/-!
# Sessions of a stream output, one after another

`src/outputs/stream_output.cpp:470–545`. A `start` that finds the writers of the session
before it joined finds everything else of it released too.
-/

namespace WebLinked.Outputs.StreamOutput

open WebLinked.Base

variable {settings : StreamSettings} {s t : State} {ok : Bool} {a : Action}

/-- No `start` has found anything of an earlier session, no socket or child was overwritten
while open, and no thread was assigned over a joinable one. -/
structure NeverOverlaps (s : State) : Prop where
  released : s.unreleased = false
  video : s.videoPipe.overwrote = false
  audio : s.audioPipe.overwrote = false
  alive : s.control ≠ .aborted

/-- The step is no `start` with a writer not joined. -/
def startsStopped (s : State) : Action → Bool
  | .start _ => s.videoWriter = .none && s.audioWriter = .none
  | _ => true

/-- The pipe has no socket open. -/
def Pipe.shut (p : Pipe) : Bool := p.listener.isNone && !p.peer

/-- The thread has not come out of `accept`. -/
@[simp] private def Writer.connecting : Writer → Bool
  | .entering | .accepting | .parked _ => true
  | _ => false

namespace Control

/-- In `start`, before the video writer runs. -/
@[simp] private def beforeVideo : Control → Bool
  | .listening | .spawning | .resetting | .launchingVideo => true
  | _ => false

/-- In `start`, before the audio writer runs. -/
@[simp] private def beforeAudio : Control → Bool
  | .launchingAudio => true
  | c => c.beforeVideo

/-- Between sessions, if the writers are joined. -/
@[simp] private def rests : Control → Bool
  | .idle _ | .submitting _ | .listening => true
  | _ => false

end Control

private structure Clean (s : State) : Prop where
  kept : NeverOverlaps s
  video : s.videoWriter.connecting ∨ s.control.beforeVideo → s.videoPipe.peer = false
  audio : s.audioWriter.connecting ∨ s.control.beforeAudio → s.audioPipe.peer = false
  opens : s.control = .listening ∨ s.control = .spawning → s.videoWriter = .none
  rests : s.control.rests → s.videoWriter = .none → s.released
  spawns : s.control = .spawning → s.ffmpeg = none ∧ s.logReaderJoinable = false
  ends : s.control = .terminating → s.videoPipe.shut ∧ s.audioPipe.shut

section Step

@[simp] private theorem shut_close (p : Pipe) : p.close.shut := by
  unfold Pipe.close Pipe.closeListener
  split
  · rfl
  · next hl => simp [Pipe.shut, hl]

@[simp] private theorem overwrote_closeListener (p : Pipe) : p.closeListener.overwrote = p.overwrote := by
  unfold Pipe.closeListener
  split <;> rfl

@[simp] private theorem peer_closeListener (p : Pipe) : p.closeListener.peer = p.peer := by
  unfold Pipe.closeListener
  split <;> rfl

@[simp] private theorem overwrote_close (p : Pipe) : p.close.overwrote = p.overwrote :=
  overwrote_closeListener p

/-- The first connection of a session is the only one. -/
private theorem connect_of_accept {p p' : Pipe} {w w' : Writer} {alive : Bool} {never : String}
    (h : p.accept alive ok never w = some (w', p')) (ho : p.overwrote = false)
    (hp : w.connecting → p.peer = false) :
    p'.overwrote = false ∧ (w'.connecting → p'.peer = false) := by
  unfold Pipe.accept at h
  split at h
  · cases h
    exact ⟨ho, fun _ ↦ hp rfl⟩
  · cases h
    exact ⟨ho, fun _ ↦ hp rfl⟩
  · split at h <;> cases h
    have := hp rfl
    refine ⟨by simp [ho, this], fun hc ↦ ?_⟩
    split at hc <;> cases hc
  · cases h

private theorem videoLoop_pipes (h : s.videoLoop ok = some t) :
    t.audioPipe = s.audioPipe ∧ t.ffmpeg = s.ffmpeg ∧ t.unreleased = s.unreleased ∧
      (s.videoPipe.overwrote = false → (s.videoWriter.connecting → s.videoPipe.peer = false) →
        t.videoPipe.overwrote = false ∧ (t.videoWriter.connecting → t.videoPipe.peer = false)) := by
  cases hw : s.videoWriter with
  | entering | accepting | parked l =>
    simp only [State.videoLoop, hw] at h
    obtain ⟨⟨w, p⟩, ha, h⟩ := Option.bind_eq_some_iff.mp h
    cases h
    exact ⟨rfl, rfl, rfl, connect_of_accept ha⟩
  | _ =>
    simp only [State.videoLoop, hw] at h
    repeat' split at h
    all_goals cases h
    all_goals exact ⟨rfl, rfl, rfl, fun ho _ ↦ ⟨ho, fun h ↦ by cases h⟩⟩

private theorem audioLoop_pipes (h : s.audioLoop ok = some t) :
    t.videoPipe = s.videoPipe ∧ t.ffmpeg = s.ffmpeg ∧ t.unreleased = s.unreleased ∧
      (s.audioPipe.overwrote = false → (s.audioWriter.connecting → s.audioPipe.peer = false) →
        t.audioPipe.overwrote = false ∧ (t.audioWriter.connecting → t.audioPipe.peer = false)) := by
  cases hw : s.audioWriter with
  | entering | accepting | parked l =>
    simp only [State.audioLoop, hw] at h
    obtain ⟨⟨w, p⟩, ha, h⟩ := Option.bind_eq_some_iff.mp h
    cases h
    exact ⟨rfl, rfl, rfl, connect_of_accept ha⟩
  | _ =>
    simp only [State.audioLoop, hw] at h
    repeat' split at h
    all_goals cases h
    all_goals exact ⟨rfl, rfl, rfl, fun ho _ ↦ ⟨ho, fun h ↦ by cases h⟩⟩

private theorem joinable_ne_none {w : Writer} (h : w.joinable) : w ≠ .none := by
  simpa [Writer.joinable] using h

private theorem Clean.videoStep (threads : Threads s) (inv : Clean s)
    (h : s.videoLoop ok = some t) : Clean t := by
  obtain ⟨hs, hj, -, hj', haw, -⟩ := videoLoop_spec h
  obtain ⟨hap, hff, hun, hvp⟩ := videoLoop_pipes h
  obtain ⟨ho, hpeer⟩ := hvp inv.kept.video fun hc ↦ inv.video (Or.inl hc)
  have hn := joinable_ne_none hj
  have hn' := joinable_ne_none hj'
  have hwr := threads.writers
  constructor
  · exact ⟨hun.trans inv.kept.released, ho, hap ▸ inv.kept.audio, hs.control ▸ inv.kept.alive⟩
  · rintro (hc | hc)
    · exact hpeer hc
    · rw [hs.control] at hc
      cases hctl : s.control <;> simp_all [Control.writers, inv.opens]
  · rw [hap, haw, hs.control]
    exact inv.audio
  · rw [hs.control]
    exact fun hc ↦ absurd (inv.opens hc) hn
  · exact fun _ hv ↦ absurd hv hn'
  · rw [hs.control, hff, hs.logReader]
    exact inv.spawns
  · intro hc
    rw [hs.control] at hc
    simp [hc, Control.writers, hj] at hwr

private theorem Clean.audioStep (threads : Threads s) (inv : Clean s)
    (h : s.audioLoop ok = some t) : Clean t := by
  obtain ⟨hs, hj, hj', -, hvw, -⟩ := audioLoop_spec h
  obtain ⟨hvp, hff, hun, hap⟩ := audioLoop_pipes h
  obtain ⟨ho, hpeer⟩ := hap inv.kept.audio fun hc ↦ inv.audio (Or.inl hc)
  have hwr := threads.writers
  constructor
  · exact ⟨hun.trans inv.kept.released, hvp ▸ inv.kept.video, ho, hs.control ▸ inv.kept.alive⟩
  · rw [hvp, hvw, hs.control]
    exact inv.video
  · rintro (hc | hc)
    · exact hpeer hc
    · rw [hs.control] at hc
      cases hctl : s.control <;> simp_all [Control.writers, inv.opens, Writer.joinable]
  · rw [hs.control, hvw]
    exact inv.opens
  · intro hc hv
    rw [hs.control] at hc
    rw [hvw] at hv
    cases hctl : s.control <;> simp_all [Control.writers, Writer.joinable]
  · rw [hs.control, hff, hs.logReader]
    exact inv.spawns
  · intro hc
    rw [hs.control] at hc
    simp [hc, Control.writers, hj] at hwr

private theorem released_iff : s.released ↔ s.videoWriter = .none ∧ s.audioWriter = .none ∧
    s.logReaderJoinable = false ∧ s.ffmpeg = none ∧ s.videoPipe.shut ∧ s.audioPipe.shut := by
  simp [State.released, Pipe.shut, and_assoc]

/-- Of what `Clean` reads, `t` differs from `s` at most in the place of the control thread. -/
private structure Moves (s t : State) : Prop where
  videoWriter : t.videoWriter = s.videoWriter
  audioWriter : t.audioWriter = s.audioWriter
  videoPipe : t.videoPipe = s.videoPipe
  audioPipe : t.audioPipe = s.audioPipe
  ffmpeg : t.ffmpeg = s.ffmpeg
  logReader : t.logReaderJoinable = s.logReaderJoinable
  unreleased : t.unreleased = s.unreleased

/-- Such a step keeps `Clean` where its new place asks for no more than the old one gave. -/
private theorem Clean.moves (inv : Clean s) (hm : Moves s t)
    (hvideo : t.control.beforeVideo → s.control.beforeVideo)
    (haudio : t.control.beforeAudio → s.control.beforeAudio)
    (hrests : t.control.rests → s.videoWriter = .none → s.released)
    (hplace : t.control ≠ .listening ∧ t.control ≠ .spawning ∧ t.control ≠ .terminating ∧
      t.control ≠ .aborted) : Clean t := by
  obtain ⟨hvw, haw, hvp, hap, hff, hlr, hun⟩ := hm
  obtain ⟨hlisten, hspawn, hterm, habort⟩ := hplace
  constructor
  · exact ⟨hun.trans inv.kept.released, hvp ▸ inv.kept.video, hap ▸ inv.kept.audio, habort⟩
  · rw [hvw, hvp]
    exact fun h ↦ inv.video (h.imp_right hvideo)
  · rw [haw, hap]
    exact fun h ↦ inv.audio (h.imp_right haudio)
  · rintro (h | h)
    · exact absurd h hlisten
    · exact absurd h hspawn
  · intro hc hv
    have := hrests hc (hvw ▸ hv)
    rw [released_iff] at this ⊢
    rw [hvw, haw, hlr, hff, hvp, hap]
    exact this
  · exact fun h ↦ absurd h hspawn
  · exact fun h ↦ absurd h hterm

/-- While a session goes on or ends, only its pipes and its writers matter. -/
private theorem Clean.within (hkept : NeverOverlaps t)
    (hvideo : t.videoWriter.connecting → t.videoPipe.peer = false)
    (haudio : t.audioWriter.connecting → t.audioPipe.peer = false)
    (hplace : t.control = .announcing ∨ t.control.stops ∧ t.control ≠ .terminating) : Clean t := by
  constructor
  · exact hkept
  · rintro (h | h)
    · exact hvideo h
    · cases hc : t.control <;> simp_all [Control.stops]
  · rintro (h | h)
    · exact haudio h
    · cases hc : t.control <;> simp_all [Control.stops]
  all_goals
    intro h
    cases hc : t.control <;> simp_all [Control.stops]

/-- The sockets of a session that begins are open, and nothing has connected to them. -/
private theorem listenOnEphemeralPort_of_shut {p : Pipe} (hp : p.shut) (ho : p.overwrote = false)
    (ok : Bool) : (p.listenOnEphemeralPort ok).overwrote = false ∧
      (p.listenOnEphemeralPort ok).peer = false := by
  simp only [Pipe.shut, Bool.and_eq_true, Option.isNone_iff_eq_none, Bool.not_eq_true'] at hp
  cases ok <;> simp [Pipe.listenOnEphemeralPort, hp.1, hp.2, ho]

private theorem Clean.listen (inv : Clean s) (hc : s.control = .listening) {first second : Bool}
    (h : s.proceed first second = some t) : Clean t := by
  have hn := inv.opens (Or.inl hc)
  obtain ⟨-, han, hl, hf, hvs, has⟩ := released_iff.mp (inv.rests (by rw [hc]; rfl) hn)
  obtain ⟨hvo, hvp⟩ := listenOnEphemeralPort_of_shut hvs inv.kept.video first
  obtain ⟨hao, hap⟩ := listenOnEphemeralPort_of_shut has inv.kept.audio second
  simp only [State.proceed, hc] at h
  split at h <;> cases h
  · exact ⟨⟨inv.kept.released, hvo, hao, by simp⟩, fun _ ↦ hvp, fun _ ↦ hap, fun _ ↦ hn, by simp,
      fun _ ↦ ⟨hf, hl⟩, by simp⟩
  · refine ⟨⟨inv.kept.released, ?_, ?_, by simp⟩, by simp [hn], by simp [han], by simp, ?_, by simp,
      by simp⟩
    · exact (overwrote_close _).trans hvo
    · exact (overwrote_close _).trans hao
    · simp [released_iff, hn, han, hl, hf]

private theorem Clean.spawn (threads : Threads s) (inv : Clean s) (hc : s.control = .spawning)
    {first second : Bool} (h : s.proceed first second = some t) : Clean t := by
  have hn := inv.opens (Or.inr hc)
  obtain ⟨hf, hl⟩ := inv.spawns hc
  have han : s.audioWriter = .none := by
    simpa [hc, hn, Control.writers, Writer.joinable] using threads.writers
  have hvp := inv.video (by simp [hc])
  have hap := inv.audio (by simp [hc])
  simp only [State.proceed, hc] at h
  split at h <;> cases h
  · refine ⟨⟨?_, inv.kept.video, inv.kept.audio, by simp [hl]⟩, fun _ ↦ hvp, fun _ ↦ hap,
      by simp [hl], by simp [hl], by simp [hl], by simp [hl]⟩
    simp [inv.kept.released, hf]
  · refine ⟨⟨inv.kept.released, ?_, ?_, by simp⟩, by simp [hn], by simp [han], by simp, ?_, by simp,
      by simp⟩
    · exact (overwrote_close _).trans inv.kept.video
    · exact (overwrote_close _).trans inv.kept.audio
    · simp [released_iff, hn, han, hl, hf]

private theorem Clean.proceed (threads : Threads s) (inv : Clean s) {first second : Bool}
    (h : s.proceed first second = some t) : Clean t := by
  have hwr := threads.writers
  have hvideo : s.videoWriter.connecting → s.videoPipe.peer = false :=
    fun hv ↦ inv.video (Or.inl hv)
  have haudio : s.audioWriter.connecting → s.audioPipe.peer = false :=
    fun ha ↦ inv.audio (Or.inl ha)
  cases hc : s.control with
  | idle _ | aborted => simp [State.proceed, hc] at h
  | listening => exact inv.listen hc h
  | spawning => exact inv.spawn threads hc h
  | resetting =>
    simp only [State.proceed, hc, Option.some.injEq] at h
    cases h
    exact inv.moves ⟨rfl, rfl, rfl, rfl, rfl, rfl, rfl⟩ (by simp [hc]) (by simp [hc]) (by simp)
      (by simp)
  | launchingVideo =>
    have hvp := inv.video (by simp [hc])
    have hap := inv.audio (by simp [hc])
    simp only [hc, Control.writers, Writer.joinable, decide_eq_false_iff_not, not_not] at hwr
    simp only [State.proceed, hc, hwr.1, if_true, Option.some.injEq] at h
    cases h
    exact ⟨⟨inv.kept.released, inv.kept.video, inv.kept.audio, by simp⟩, fun _ ↦ hvp, fun _ ↦ hap,
      by simp, by simp, by simp, by simp⟩
  | launchingAudio =>
    have hap := inv.audio (by simp [hc])
    simp only [hc, Control.writers, Writer.joinable, decide_eq_false_iff_not, not_not] at hwr
    simp only [State.proceed, hc, hwr.2, if_true, Option.some.injEq] at h
    cases h
    exact Clean.within ⟨inv.kept.released, inv.kept.video, inv.kept.audio, by simp⟩ hvideo
      (fun _ ↦ hap) (Or.inl rfl)
  | announcing =>
    simp only [State.proceed, hc, Option.some.injEq] at h
    cases h
    refine inv.moves ⟨rfl, rfl, rfl, rfl, rfl, rfl, rfl⟩ (by simp) (by simp) (fun _ hv ↦ ?_)
      (by simp)
    simp [hc, hv, Control.writers, Writer.joinable] at hwr
  | submitting tick =>
    simp only [State.proceed, hc, Option.some.injEq] at h
    subst h
    obtain ⟨hm, hidle⟩ : Moves s (s.push tick) ∧ (s.push tick).control = .idle none := by
      unfold State.push
      repeat' split
      all_goals exact ⟨⟨rfl, rfl, rfl, rfl, rfl, rfl, rfl⟩, rfl⟩
    exact inv.moves hm (by simp [hidle]) (by simp [hidle])
      (fun _ hv ↦ inv.rests (by rw [hc]; rfl) hv) (by simp [hidle])
  | signalling =>
    simp only [State.proceed, hc, Option.some.injEq] at h
    cases h
    exact Clean.within ⟨inv.kept.released, inv.kept.video, inv.kept.audio, by simp⟩ hvideo haudio
      (by simp [Control.stops])
  | closingVideo =>
    simp only [State.proceed, hc, Option.some.injEq] at h
    cases h
    refine Clean.within ⟨inv.kept.released, ?_, inv.kept.audio, by simp⟩ (fun hv ↦ ?_) haudio
      (by simp [Control.stops])
    · exact (overwrote_closeListener _).trans inv.kept.video
    · exact (peer_closeListener _).trans (hvideo hv)
  | closingAudio =>
    simp only [State.proceed, hc, Option.some.injEq] at h
    cases h
    refine Clean.within ⟨inv.kept.released, inv.kept.video, ?_, by simp⟩ hvideo (fun ha ↦ ?_)
      (by simp [Control.stops])
    · exact (overwrote_closeListener _).trans inv.kept.audio
    · exact (peer_closeListener _).trans (haudio ha)
  | joiningVideo =>
    simp only [State.proceed, hc] at h
    split at h <;> cases h
    all_goals
      exact Clean.within ⟨inv.kept.released, inv.kept.video, inv.kept.audio, by simp⟩ (by simp)
        haudio (by simp [Control.stops])
  | joiningAudio =>
    simp only [State.proceed, hc] at h
    split at h <;> cases h
    all_goals
      exact Clean.within ⟨inv.kept.released, inv.kept.video, inv.kept.audio, by simp⟩ hvideo
        (by simp) (by simp [Control.stops])
  | closing =>
    simp only [State.proceed, hc, Option.some.injEq] at h
    cases h
    refine ⟨⟨inv.kept.released, ?_, ?_, by simp⟩, fun _ ↦ rfl, fun _ ↦ rfl, by simp, by simp,
      by simp, fun _ ↦ ⟨shut_close _, shut_close _⟩⟩
    · exact (overwrote_close _).trans inv.kept.video
    · exact (overwrote_close _).trans inv.kept.audio
  | terminating =>
    obtain ⟨hvs, has⟩ := inv.ends hc
    simp only [hc, Control.writers, Writer.joinable, decide_eq_false_iff_not, not_not] at hwr
    simp only [State.proceed, hc, Option.some.injEq] at h
    cases h
    refine ⟨⟨inv.kept.released, inv.kept.video, inv.kept.audio, by simp⟩,
      by simpa using hvideo, by simpa using haudio, by simp, fun _ _ ↦ ?_, by simp, by simp⟩
    exact released_iff.mpr ⟨hwr.1, hwr.2, rfl, rfl, hvs, has⟩

private theorem Clean.step (threads : Threads s) (inv : Clean s) (hg : startsStopped s a)
    (h : s.step settings a = some t) : Clean t := by
  cases a with
  | video ok =>
    simp only [State.step] at h
    split at h
    · cases h
    · exact inv.videoStep threads h
  | audio ok =>
    simp only [State.step] at h
    split at h
    · cases h
    · exact inv.audioStep threads h
  | control first second => exact inv.proceed threads h
  | exit =>
    simp only [State.step] at h
    split at h
    · next hlive =>
      cases h
      have hff : s.ffmpeg ≠ none := by
        intro hf
        simp [State.ffmpegAlive, hf] at hlive
      refine ⟨⟨inv.kept.released, inv.kept.video, inv.kept.audio, inv.kept.alive⟩, inv.video,
        inv.audio, inv.opens, fun hc hv ↦ ?_, fun hc ↦ ?_, inv.ends⟩
      · exact absurd (released_iff.mp (inv.rests hc hv)).2.2.2.1 hff
      · exact absurd (inv.spawns hc).1 hff
    · cases h
  | start format =>
    cases hc : s.control <;> simp only [State.step, hc, reduceCtorEq, Option.some.injEq] at h
    simp only [startsStopped, Bool.and_eq_true, decide_eq_true_eq] at hg
    have hrel := inv.rests (by rw [hc]; rfl) hg.1
    have hun : (s.unreleased || !s.released) = s.unreleased := by simp [hrel]
    subst h
    rw [State.start]
    dsimp only
    split
    · exact inv.moves ⟨rfl, rfl, rfl, rfl, rfl, rfl, hun⟩ (by simp) (by simp) (fun _ _ ↦ hrel)
        (by simp)
    · obtain ⟨hv, ha, -, -, hvs, has⟩ := released_iff.mp hrel
      simp only [Pipe.shut, Bool.and_eq_true, Bool.not_eq_true'] at hvs has
      exact ⟨⟨hun.trans inv.kept.released, inv.kept.video, inv.kept.audio, by simp⟩,
        fun _ ↦ hvs.2, fun _ ↦ has.2, fun _ ↦ hv, fun _ _ ↦ hrel, by simp, by simp⟩
  | stop =>
    cases hc : s.control <;> simp only [State.step, hc, reduceCtorEq, Option.some.injEq] at h
    subst h
    rw [State.stop]
    split
    · exact inv.moves ⟨rfl, rfl, rfl, rfl, rfl, rfl, rfl⟩ (by simp) (by simp)
        (fun _ hv ↦ inv.rests (by rw [hc]; rfl) hv) (by simp)
    · exact inv.moves ⟨rfl, rfl, rfl, rfl, rfl, rfl, rfl⟩ (by simp) (by simp) (by simp) (by simp)
  | submit picture sound =>
    cases hc : s.control <;> simp only [State.step, hc, reduceCtorEq, Option.some.injEq] at h
    subst h
    rw [State.submit]
    split
    all_goals
      exact inv.moves ⟨rfl, rfl, rfl, rfl, rfl, rfl, rfl⟩ (by simp) (by simp)
        (fun _ hv ↦ inv.rests (by rw [hc]; rfl) hv) (by simp)

end Step

private theorem clean_of_startsStopped
    (h : (machine settings).ReachableUnder (fun s a ↦ startsStopped s a) s) : Clean s := by
  induction h with
  | init hs =>
    cases hs
    refine ⟨⟨?_, ?_, ?_, ?_⟩, ?_, ?_, ?_, ?_, ?_, ?_⟩ <;> simp [released_iff, Pipe.shut]
  | step a hr hg ht ih => exact ih.step (threads_of_reachable hr.reachable) hg ht

/-- Where every `start` finds both writers joined, sessions never overlap. -/
theorem neverOverlaps_of_startsStopped
    (h : (machine settings).ReachableUnder (fun s a ↦ startsStopped s a) s) :
    NeverOverlaps s :=
  (clean_of_startsStopped h).kept

/-- Between calls, with both writers joined. -/
def State.halted (s : State) : Bool :=
  (match s.control with | .idle _ => true | _ => false) &&
    s.videoWriter = .none && s.audioWriter = .none

/-- A call that is not `start` leaves a halted output halted. -/
theorem halted_of_step (threads : Threads s) (hs : s.halted) (ha : ∀ format, a ≠ .start format)
    (h : s.step settings a = some t) : t.halted := by
  have hrun := threads.running
  simp only [State.halted, Bool.and_eq_true, decide_eq_true_eq] at hs
  obtain ⟨⟨hc, hv⟩, hau⟩ := hs
  cases hctl : s.control <;> simp only [hctl, Bool.false_eq_true] at hc
  cases a with
  | video ok => simp [State.step, hctl, State.videoLoop, hv] at h
  | audio ok => simp [State.step, hctl, State.audioLoop, hau] at h
  | control first second => simp [State.step, State.proceed, hctl] at h
  | exit =>
    simp only [State.step] at h
    split at h <;> cases h
    simp [State.halted, hctl, hv, hau]
  | start format => exact absurd rfl (ha format)
  | stop =>
    simp only [State.step, hctl, Option.some.injEq] at h
    rw [← h, State.stop]
    split <;> simp_all [State.halted, Writer.joinable]
  | submit video audio =>
    simp only [State.step, hctl, Option.some.injEq] at h
    rw [← h, State.submit]
    split <;> simp_all [State.halted, Writer.joinable]

/-- `stop` ends with the output halted. -/
theorem stops_or_halted_of_step (threads : Threads s) (hs : s.control.stops ∨ s.halted)
    (ha : ∀ format, a ≠ .start format) (h : s.step settings a = some t) :
    t.control.stops ∨ t.halted := by
  rcases hs with hs | hs
  · have hwr := threads.writers
    cases a with
    | video ok =>
      simp only [State.step] at h
      split at h
      · cases h
      · rw [(videoLoop_spec h).1.control]
        exact Or.inl hs
    | audio ok =>
      simp only [State.step] at h
      split at h
      · cases h
      · rw [(audioLoop_spec h).1.control]
        exact Or.inl hs
    | control first second =>
      cases hc : s.control <;> simp only [hc, Control.stops, Bool.false_eq_true] at hs <;>
        simp only [State.step, State.proceed, hc] at h
      case joiningVideo | joiningAudio => split at h <;> cases h <;> exact Or.inl rfl
      case terminating =>
        cases h
        simp_all [State.halted, Control.writers, Writer.joinable]
      all_goals
        cases h
        exact Or.inl rfl
    | exit =>
      simp only [State.step] at h
      split at h <;> cases h
      exact Or.inl hs
    | start format => exact absurd rfl (ha format)
    | stop | submit video audio =>
      cases hc : s.control <;> simp_all [State.step, Control.stops]
  · exact Or.inr (halted_of_step threads hs ha h)

end WebLinked.Outputs.StreamOutput
