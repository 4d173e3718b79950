import Mathlib
import WebLinked.Outputs.SoundFeed

/-!
# Sound stays locked to picture

The counters of a `Feed` are two of `FloorCounters`: the sound passed on follows the ticks, the
picture the indices. Each step of the output is a step of both, of one, or of none.
-/

namespace WebLinked.Outputs

open WebLinked.Base WebLinked.Base.FloorCounters WebLinked.Core WebLinked.Engine

/-- Where sound and picture were when the sound was passed, after so many frames sent. -/
def Sent.mark (e : Sent) (sound : Int) (earlier : Nat) : Mark where
  first := e.tick
  second := e.index
  counter := sound
  slips := e.tick - earlier + e.reanchors

/-- Of what was sent, each frame with sound is near the next one that has it, and the last of
them is near `m`. -/
def Chained (c d : Int) (m : Mark) : List Sent → Prop
  | [] => True
  | e :: earlier =>
    match e.streamTime with
    | none => Chained c d m earlier
    | some sound =>
      Near c d m (e.mark sound earlier.length) ∧
        Chained c d (e.mark sound earlier.length) earlier

namespace Chained

variable {c d : Int} {m m' : Mark} {sent earlier : List Sent} {e : Sent} {sound : Int}

/-- One more step of the two counters. -/
theorem near (h : Chained c d m sent) (hn : Near c d m' m) : Chained c d m' sent := by
  induction sent with
  | nil => trivial
  | cons e earlier ih =>
    unfold Chained at h ⊢
    split
    · next hnone =>
      rw [hnone] at h
      exact ih h
    · next sound hsome =>
      rw [hsome] at h
      exact ⟨hn.trans h.1, h.2⟩

/-- A frame without sound. -/
theorem of_silent (h : ∀ e ∈ sent, e.streamTime = none) : Chained c d m sent := by
  induction sent with
  | nil => trivial
  | cons e earlier ih =>
    unfold Chained
    rw [h e List.mem_cons_self]
    exact ih fun e he ↦ h e (List.mem_cons_of_mem _ he)

/-- However many frames were sent since. -/
theorem near_of_append {between : List Sent} (h : Chained c d m (between ++ e :: earlier))
    (he : e.streamTime = some sound) : Near c d m (e.mark sound earlier.length) := by
  induction between generalizing m with
  | nil =>
    rw [List.nil_append, Chained, he] at h
    exact h.1
  | cons b between ih =>
    rw [List.cons_append, Chained] at h
    split at h
    · exact ih h
    · exact (h.1.trans (ih h.2))

/-- What the chain says of one of its frames with sound. -/
theorem of_append {newer : List Sent} (h : Chained c d m (newer ++ e :: earlier))
    (he : e.streamTime = some sound) : Chained c d (e.mark sound earlier.length) earlier := by
  induction newer generalizing m with
  | nil =>
    rw [List.nil_append, Chained, he] at h
    exact h.2
  | cons b newer ih =>
    rw [List.cons_append, Chained] at h
    split at h
    · exact ih h
    · exact ih h.2

end Chained

namespace Feed

/-- Where the frame of the last tick is: with the thread, whose block has this sample rate if it is
valid; with the card, but not its sound; or done with. -/
inductive Stage where
  | done
  | offered (audio : Option Int)
  | sounding (sampleRate : Int)
  | elsewhere
  deriving DecidableEq

/-- The stage of a phase; `elsewhere` is `start` and `stop`. -/
def stage {α β : Type} : Phase α β → Stage
  | .idle | .unwritten _ | .refused (.submit _ _) _ => .done
  | .acquiring (.submit _ audio) | .writing (.submit _ audio) _ | .scheduling (.submit _ audio) _ =>
    .offered audio
  | .sounding sampleRate => .sounding sampleRate
  | _ => .elsewhere

/-- Where sound and picture are. A tick is behind both of them when its frame is done with. -/
def markAt (stage : Stage) (nextTick : Int) (p : Playout) (sent : Nat) : Mark :=
  match stage with
  | .offered _ =>
    { first := nextTick - 1
      second := p.schedule.next
      counter := p.scheduledAudioFrames
      slips := nextTick - 1 - sent + p.reanchors }
  | .sounding _ =>
    { first := nextTick - 1
      second := p.schedule.next - 1
      counter := p.scheduledAudioFrames
      slips := nextTick - sent + p.reanchors }
  | _ =>
    { first := nextTick
      second := p.schedule.next
      counter := p.scheduledAudioFrames
      slips := nextTick - sent + p.reanchors }

/-- The stage, and what it says about the last tick. -/
def InStage (rate : FrameRate) (nextTick : Int) (p : Playout) (audioEnabled : Bool)
    (sent : List Sent) : Stage → Prop
  | .done => True
  | .offered audio => 0 < nextTick ∧ (∀ e ∈ sent, e.tick < nextTick - 1) ∧
      ∃ frames, audioFramesForTick rate kAudioTimeScale (nextTick - 1) = some frames ∧
        audio = if frames > 0 then some kAudioTimeScale else none
  | .sounding sampleRate => 0 < nextTick ∧ sampleRate = kAudioTimeScale ∧ audioEnabled = true ∧
      ∃ earlier, sent = ⟨nextTick - 1, p.schedule.next - 1, none, p.reanchors⟩ :: earlier
  | .elsewhere => False

variable {α β : Type} {black : β} {rate : FrameRate} {s t : Feed α β}

/-- What every step keeps. -/
structure Kept (rate : FrameRate) (s : Feed α β) : Prop where
  rates : Matches rate s.output.playout.schedule
  next : 0 ≤ s.output.playout.schedule.next
  nextTick : 0 ≤ s.nextTick
  sorted : s.sent.Pairwise fun e e' ↦ e'.tick < e.tick
  before : ∀ e ∈ s.sent, e.tick < s.nextTick
  index : ∀ e ∈ s.sent, 0 ≤ e.index
  silent : s.output.audioEnabled = false → ∀ e ∈ s.sent, e.streamTime = none
  inStage : InStage rate s.nextTick s.output.playout s.output.audioEnabled s.sent
    (stage s.output.phase)
  chained : Chained (kAudioTimeScale * rate.denominator) rate.numerator
    (markAt (stage s.output.phase) s.nextTick s.output.playout s.sent.length) s.sent

/-- The picture's position is a share of the same ratio as the tick's audio. -/
theorem samplePosition_eq_share {schedule : PlayoutSchedule} (h : Matches rate schedule)
    {index v : Int} (hi : 0 ≤ index)
    (hv : schedule.samplePosition index kAudioTimeScale = some v) :
    v = share (kAudioTimeScale * rate.denominator) rate.numerator index := by
  have hcross : schedule.frameDuration * kAudioTimeScale * rate.numerator =
      kAudioTimeScale * rate.denominator * schedule.timeScale := by
    rw [Int.mul_right_comm, ← h.period]
    ring
  rw [PlayoutSchedule.samplePosition_eq hi (by decide) hv]
  exact share_congr schedule.timeScale_pos h.numerator hcross index

/-- The frame is given up, or nothing happened to it. -/
theorem Kept.move (h : Kept rate s) {output : DeckLink α β}
    (haudio : output.audioEnabled = s.output.audioEnabled)
    (hplayout : ∃ lateSinceCheck, output.playout = { s.output.playout with lateSinceCheck })
    (hstage : stage output.phase = stage s.output.phase ∨
      (∃ audio, stage s.output.phase = .offered audio) ∧ stage output.phase = .done) :
    Kept rate { s with output } := by
  obtain ⟨late, hplayout⟩ := hplayout
  have hrates := h.rates
  have hnext := h.next
  have hin := h.inStage
  have hchained := h.chained
  refine { h with rates := ?_, next := ?_, silent := ?_, inStage := ?_, chained := ?_ }
  · rw [hplayout]
    exact hrates
  · rw [hplayout]
    exact hnext
  · rw [haudio]
    exact h.silent
  · obtain hstage | ⟨-, hstage⟩ := hstage
    · rw [hstage, haudio, hplayout]
      exact hin
    · rw [hstage]
      trivial
  · obtain hstage | ⟨⟨audio, hfrom⟩, hstage⟩ := hstage
    · rw [hstage, hplayout]
      exact hchained
    · rw [hstage, hplayout]
      rw [hfrom] at hchained
      refine hchained.near ?_
      have hgap := near_gap (c := kAudioTimeScale * rate.denominator) h.rates.numerator
        (markAt (.offered audio) s.nextTick s.output.playout s.sent.length) (k := 1) (by decide)
      simp only [markAt] at hgap ⊢
      rw [show s.nextTick - 1 + 1 = s.nextTick by omega,
        show s.nextTick - 1 - s.sent.length + s.output.playout.reanchors + 1 =
          s.nextTick - s.sent.length + s.output.playout.reanchors by omega] at hgap
      exact hgap

/-- A new tick, at any distance from the last. -/
theorem Kept.skip (h : Kept rate s) (hstage : stage s.output.phase = .done) {number : Int}
    (hn : s.nextTick ≤ number) :
    Chained (kAudioTimeScale * rate.denominator) rate.numerator
      (markAt .done number s.output.playout s.sent.length) s.sent := by
  have hchained := h.chained
  rw [hstage] at hchained
  refine hchained.near ?_
  have hgap := near_gap (c := kAudioTimeScale * rate.denominator) h.rates.numerator
    (markAt .done s.nextTick s.output.playout s.sent.length) (k := number - s.nextTick) (by omega)
  simp only [markAt] at hgap ⊢
  rw [show s.nextTick + (number - s.nextTick) = number by omega,
    show s.nextTick - s.sent.length + s.output.playout.reanchors + (number - s.nextTick) =
      number - s.sent.length + s.output.playout.reanchors by omega] at hgap
  exact hgap

/-- The timeline before the frame is offered to the card, where a jump took the sound along. -/
theorem Kept.follow (h : Kept rate s) {audio : Option Int}
    (hstage : stage s.output.phase = .offered audio) {p : Playout}
    (hp : s.output.playout.Follows p) :
    Matches rate p.schedule ∧ 0 ≤ p.schedule.next ∧
      Chained (kAudioTimeScale * rate.denominator) rate.numerator
        (markAt (.offered audio) s.nextTick p s.sent.length) s.sent := by
  have hnext : 0 ≤ p.schedule.next := h.next.trans hp.le
  have hrates : Matches rate p.schedule := by
    refine ⟨h.rates.numerator, h.rates.denominator, ?_⟩
    rw [hp.timeScale, hp.frameDuration]
    exact h.rates.period
  have hchained := h.chained
  rw [hstage] at hchained
  refine ⟨hrates, hnext, ?_⟩
  obtain ⟨hsame, hsound, hre⟩ | ⟨ahead, behind, hahead, hbehind, hsound, hre⟩ := hp.moved
  · simp only [markAt] at hchained ⊢
    rw [hsame, hsound, hre]
    exact hchained
  · refine hchained.near ?_
    have hjump := near_jump (c := kAudioTimeScale * rate.denominator) h.rates.numerator
      (markAt (.offered audio) s.nextTick s.output.playout s.sent.length) p.schedule.next
    rw [samplePosition_eq_share hrates hnext hahead,
      samplePosition_eq_share hrates h.next hbehind] at hsound
    simp only [markAt] at hjump ⊢
    rw [hsound, hre, ← Int.add_assoc]
    exact hjump

/-- The share of a tick without a valid block. -/
theorem share_of_silent (hrates : 0 < rate.numerator ∧ 0 < rate.denominator)
    (hfits : kAudioTimeScale * rate.denominator ≤ 2147483647 * rate.numerator) {tick frames : Int}
    (ht : 0 ≤ tick) (hframes : audioFramesForTick rate kAudioTimeScale tick = some frames)
    (hnot : ¬ frames > 0) :
    share (kAudioTimeScale * rate.denominator) rate.numerator (tick + 1) -
      share (kAudioTimeScale * rate.denominator) rate.numerator tick = 0 := by
  have hc : 0 ≤ kAudioTimeScale * rate.denominator :=
    Int.mul_nonneg (by decide) hrates.2.le
  have hstep := share_step hrates.1 hc hfits tick
  rw [← audioFramesForTick_eq hrates.1 hrates.2.le (by decide) ht hfits hframes] at hstep ⊢
  omega

/-- The card takes the frame. Its sound is next, unless there is none. -/
theorem Kept.accept (h : Kept rate s)
    (hfits : kAudioTimeScale * rate.denominator ≤ 2147483647 * rate.numerator) {p : Playout}
    {audio : Option Int} {output : DeckLink α β} (video : β)
    (hin : InStage rate s.nextTick p s.output.audioEnabled s.sent (.offered audio))
    (hrates : Matches rate p.schedule) (hnext : 0 ≤ p.schedule.next)
    (hchained : Chained (kAudioTimeScale * rate.denominator) rate.numerator
      (markAt (.offered audio) s.nextTick p s.sent.length) s.sent)
    (haudio : output.audioEnabled = s.output.audioEnabled)
    (hplayout : output.playout = { p with
      schedule := { p.schedule with next := p.schedule.next + 1 }
      framesScheduled := p.framesScheduled + 1 })
    (hphase : output.phase = DeckLink.scheduled s.output.audioEnabled (.submit video audio)) :
    Kept rate { s with
      output
      sent := ⟨s.nextTick - 1, p.schedule.next, none, p.reanchors⟩ :: s.sent } := by
  obtain ⟨hpos, hbefore, frames, hframes, hvalid⟩ := hin
  have hsilent : s.output.audioEnabled = false →
      ∀ e ∈ (⟨s.nextTick - 1, p.schedule.next, none, p.reanchors⟩ : Sent) :: s.sent,
        e.streamTime = none := by
    intro hoff e he
    obtain rfl | he := List.mem_cons.mp he
    · rfl
    · exact h.silent hoff e he
  refine ⟨?_, ?_, h.nextTick, List.pairwise_cons.mpr ⟨hbefore, h.sorted⟩, ?_, ?_, ?_, ?_, ?_⟩
  · rw [hplayout]
    exact ⟨hrates.numerator, hrates.denominator, hrates.period⟩
  · rw [hplayout]
    exact Int.le_add_one hnext
  · intro e he
    obtain rfl | he := List.mem_cons.mp he
    · exact Int.sub_one_lt_of_le le_rfl
    · exact h.before e he
  · intro e he
    obtain rfl | he := List.mem_cons.mp he
    · exact hnext
    · exact h.index e he
  · rw [haudio]
    exact hsilent
  · rw [hphase, haudio, hplayout]
    cases audio with
    | none => trivial
    | some sampleRate =>
      rw [DeckLink.scheduled]
      split
      · next hon =>
        split at hvalid
        · cases hvalid
          refine ⟨hpos, rfl, hon, s.sent, ?_⟩
          dsimp only
          rw [Int.add_sub_cancel]
        · cases hvalid
      · trivial
  · rw [hphase, hplayout]
    cases audio with
    | none =>
      have hnone : ¬ frames > 0 := by
        intro hvalid'
        rw [if_pos hvalid'] at hvalid
        cases hvalid
      have hlast : 0 ≤ s.nextTick - 1 := by omega
      have hshare := share_of_silent ⟨hrates.numerator, hrates.denominator⟩ hfits hlast hframes
        hnone
      have hstep := near_advance (c := kAudioTimeScale * rate.denominator) (d := rate.numerator)
        (markAt (.offered none) s.nextTick p s.sent.length)
      refine hchained.near ?_
      simp only [markAt, DeckLink.scheduled, stage, List.length_cons] at hstep ⊢
      rw [hshare, Int.add_zero, Int.sub_add_cancel] at hstep
      push_cast
      rw [show s.nextTick - ((s.sent.length : Int) + 1) + p.reanchors =
        s.nextTick - 1 - s.sent.length + p.reanchors by omega]
      exact hstep
    | some sampleRate =>
      rw [DeckLink.scheduled]
      split
      · refine hchained.near ?_
        simp only [markAt, stage, List.length_cons]
        push_cast
        rw [Int.add_sub_cancel, show s.nextTick - ((s.sent.length : Int) + 1) + p.reanchors =
          s.nextTick - 1 - s.sent.length + p.reanchors by omega]
        exact .refl _
      · next hoff => exact .of_silent (hsilent (Bool.eq_false_of_not_eq_true hoff))

variable [DecidableEq α]

/-- A tick begins: its frame is on offer, or `submit` returned at once. -/
theorem Kept.tick (h : Kept rate s) {number : Int} {video : β} {sameRaster : Bool}
    (ht : s.step black rate (.tick number video sameRaster) = some t) : Kept rate t := by
  simp only [step] at ht
  split at ht
  · next hn =>
    obtain ⟨frames, hframes, ht⟩ := Option.bind_eq_some_iff.mp ht
    obtain ⟨output, hstep, rfl⟩ := Option.map_eq_some_iff.mp ht
    simp only [DeckLink.step] at hstep
    split at hstep
    · next hphase =>
      have hidle : stage s.output.phase = .done := by rw [hphase, stage]
      have hbefore : ∀ e ∈ s.sent, e.tick < number := fun e he ↦ (h.before e he).trans_le hn
      have hnext := h.nextTick
      have hdone : Kept rate { s with nextTick := number + 1 } := by
        refine { h with nextTick := ?_, before := ?_, inStage := ?_, chained := ?_ }
        · dsimp only
          omega
        · exact fun e he ↦ (hbefore e he).trans (lt_add_one number)
        · rw [hidle]
          trivial
        · have hlater : s.nextTick ≤ number + 1 := by omega
          rw [hidle]
          exact h.skip hidle hlater
      split at hstep
      · cases hstep
        exact hdone
      · split at hstep
        · cases hstep
          exact hdone.move rfl ⟨_, rfl⟩ (.inl rfl)
        · cases hstep
          refine { hdone with inStage := ?_, chained := ?_ }
          · refine ⟨Int.lt_add_one_of_le (hnext.trans hn), ?_, frames, ?_, rfl⟩
            · dsimp only
              rw [Int.add_sub_cancel]
              exact hbefore
            · dsimp only
              rw [Int.add_sub_cancel]
              exact hframes
          · have hskip := h.skip hidle hn
            simp only [stage, markAt] at hskip ⊢
            rw [Int.add_sub_cancel]
            exact hskip
    · cases hstep
  · cases ht

/-- A frame for the tick, or a miss. -/
theorem Kept.acquire (h : Kept rate s) (ht : s.step black rate .acquire = some t) :
    Kept rate t := by
  obtain ⟨output, hstep, rfl⟩ := Option.map_eq_some_iff.mp ht
  simp only [DeckLink.step] at hstep
  split at hstep
  · next job ring hphase hring =>
    have hin := h.inStage
    rw [hphase] at hin
    cases job with
    | preroll left => exact hin.elim
    | submit video audio =>
      split at hstep <;> cases hstep
      · exact h.move rfl ⟨_, rfl⟩ (.inl (by rw [hphase]; rfl))
      · exact h.move rfl ⟨_, rfl⟩ (.inr ⟨⟨audio, by rw [hphase]; rfl⟩, rfl⟩)
  · cases hstep

/-- The picture is written, or the frame given up. -/
theorem Kept.write (h : Kept rate s) {accessible : Bool}
    (ht : s.step black rate (.write accessible) = some t) : Kept rate t := by
  obtain ⟨output, hstep, rfl⟩ := Option.map_eq_some_iff.mp ht
  simp only [DeckLink.step] at hstep
  split at hstep
  · next job f hphase =>
    have hin := h.inStage
    rw [hphase] at hin
    cases job with
    | preroll left => exact hin.elim
    | submit video audio =>
      split at hstep <;> cases hstep
      · exact h.move rfl ⟨_, rfl⟩ (.inl (by rw [hphase]; rfl))
      · exact h.move rfl ⟨_, rfl⟩ (.inr ⟨⟨audio, by rw [hphase]; rfl⟩, rfl⟩)
  · cases hstep

/-- What was given up goes back to the ring. -/
theorem Kept.giveBack (h : Kept rate s) (ht : s.step black rate .giveBack = some t) :
    Kept rate t := by
  obtain ⟨output, hstep, rfl⟩ := Option.map_eq_some_iff.mp ht
  simp only [DeckLink.step] at hstep
  split at hstep
  · next f ring hphase hring =>
    cases hstep
    exact h.move rfl ⟨_, rfl⟩ (.inl (by rw [hphase]; rfl))
  · next job f ring hphase hring =>
    have hin := h.inStage
    rw [hphase] at hin
    cases job with
    | preroll left => exact hin.elim
    | submit video audio =>
      cases hstep
      exact h.move rfl ⟨_, rfl⟩ (.inl (by rw [hphase]; rfl))
  · cases hstep

/-- A completion, of a frame that is this output's or not. -/
theorem Kept.completed (h : Kept rate s) {card : List (α × β)} {receiver : Receiver}
    {frame : Option α} {result : CompletionResult} {output : DeckLink α β}
    (hstep : { s.output with card }.scheduledFrameCompleted receiver frame result = some output) :
    Kept rate { s with output } := by
  obtain ⟨hphase, haudio, hplayout⟩ := DeckLink.playout_of_completed hstep
  exact h.move haudio hplayout (.inl (by rw [hphase]))

/-- The frame is scheduled, and its sound is next; or there is none; or the card refuses it. -/
theorem Kept.schedule (h : Kept rate s)
    (hfits : kAudioTimeScale * rate.denominator ≤ 2147483647 * rate.numerator)
    {streamTime : Option Int} {accepted : Bool}
    (ht : s.step black rate (.schedule streamTime accepted) = some t) : Kept rate t := by
  simp only [step] at ht
  obtain ⟨p, hp, ht⟩ := Option.bind_eq_some_iff.mp ht
  obtain ⟨u, hu, ht⟩ := Option.bind_eq_some_iff.mp ht
  obtain ⟨output, hstep, rfl⟩ := Option.map_eq_some_iff.mp hu
  simp only [DeckLink.step] at hstep
  split at hstep
  · next job f hphase =>
    obtain ⟨p', hp', hstep⟩ := Option.bind_eq_some_iff.mp hstep
    obtain rfl := Option.some.inj (hp.symm.trans hp')
    have hin := h.inStage
    rw [hphase] at hin
    cases job with
    | preroll left => exact hin.elim
    | submit video audio =>
      obtain ⟨hpos, hbefore, frames, hframes, haudio⟩ := hin
      obtain ⟨hrates, hnext, hchained⟩ := h.follow (by rw [hphase, stage])
        (Playout.follows_of_beforeSchedule hp)
      cases accepted with
      | true =>
        obtain ⟨q, hq, hstep⟩ := Option.bind_eq_some_iff.mp hstep
        obtain rfl := Playout.eq_of_frameAccepted hq
        cases hstep
        cases ht
        exact h.accept hfits video ⟨hpos, hbefore, frames, hframes, haudio⟩ hrates hnext hchained
          rfl rfl rfl
      | false =>
        obtain ⟨q, hq, hstep⟩ := Option.bind_eq_some_iff.mp hstep
        obtain rfl := Playout.eq_of_frameRefused hq
        cases hstep
        cases ht
        have hoffered : Kept rate { s with output := { s.output with
            playout := { p with scheduleFailures := p.scheduleFailures + 1 } } } := by
          refine { h with rates := hrates, next := hnext, inStage := ?_, chained := ?_ }
          · rw [hphase]
            exact ⟨hpos, hbefore, frames, hframes, haudio⟩
          · rw [hphase]
            exact hchained
        exact hoffered.move rfl ⟨_, rfl⟩ (.inr ⟨⟨audio, by rw [hphase]; rfl⟩, rfl⟩)
  · cases hstep

/-- The sound of the frame that was scheduled. -/
theorem Kept.sound (h : Kept rate s)
    (hfits : kAudioTimeScale * rate.denominator ≤ 2147483647 * rate.numerator)
    (ht : s.step black rate .sound = some t) : Kept rate t := by
  simp only [step] at ht
  obtain ⟨frames, hframes, ht⟩ := Option.bind_eq_some_iff.mp ht
  obtain ⟨⟨streamTime, p⟩, hp, ht⟩ := Option.bind_eq_some_iff.mp ht
  obtain ⟨u, hu, ht⟩ := Option.bind_eq_some_iff.mp ht
  obtain ⟨output, hstep, rfl⟩ := Option.map_eq_some_iff.mp hu
  simp only [DeckLink.step] at hstep
  split at hstep
  · next sampleRate hphase =>
    have hin := h.inStage
    have hchained := h.chained
    rw [hphase] at hin hchained
    obtain ⟨hpos, rfl, hon, earlier, hsent⟩ := hin
    obtain ⟨⟨streamTime', p'⟩, hp', hstep⟩ := Option.bind_eq_some_iff.mp hstep
    cases hp.symm.trans hp'
    obtain ⟨rfl, rfl⟩ := Playout.eq_of_scheduleAudio hp
    cases hstep
    simp only [hsent] at ht
    cases ht
    have hsorted := h.sorted
    have hbefore := h.before
    have hindex := h.index
    rw [hsent] at hsorted hbefore hindex hchained
    have hslot : 0 ≤ s.output.playout.schedule.next - 1 := hindex _ List.mem_cons_self
    have hlast : 0 ≤ s.nextTick - 1 := by omega
    have hshare := audioFramesForTick_eq h.rates.numerator h.rates.denominator.le (by decide)
      hlast hfits hframes
    refine ⟨?_, h.next, h.nextTick, ?_, ?_, ?_, ?_, trivial, ?_⟩
    · exact ⟨h.rates.numerator, h.rates.denominator, h.rates.period⟩
    · exact List.pairwise_cons.mpr (List.pairwise_cons.mp hsorted)
    · intro e he
      obtain rfl | he := List.mem_cons.mp he
      · exact Int.sub_one_lt_of_le le_rfl
      · exact hbefore e (List.mem_cons_of_mem _ he)
    · intro e he
      obtain rfl | he := List.mem_cons.mp he
      · exact hslot
      · exact hindex e (List.mem_cons_of_mem _ he)
    · intro hoff
      rw [hon] at hoff
      cases hoff
    · have hstep := near_advance (c := kAudioTimeScale * rate.denominator) (d := rate.numerator)
        { first := s.nextTick - 1
          second := s.output.playout.schedule.next - 1
          counter := s.output.playout.scheduledAudioFrames
          slips := s.nextTick - 1 - earlier.length + s.output.playout.reanchors }
      simp only [markAt, stage, Chained, Sent.mark, List.length_cons] at hchained ⊢
      push_cast at hchained ⊢
      have hslips : s.nextTick - ((earlier.length : Int) + 1) + s.output.playout.reanchors =
          s.nextTick - 1 - earlier.length + s.output.playout.reanchors := by
        omega
      rw [hslips] at hchained ⊢
      refine ⟨?_, hchained⟩
      dsimp only at hstep
      rw [← hshare, Int.sub_add_cancel, Int.sub_add_cancel] at hstep
      exact hstep
  · cases hstep

/-- Every step. -/
theorem Kept.step (h : Kept rate s)
    (hfits : kAudioTimeScale * rate.denominator ≤ 2147483647 * rate.numerator)
    {a : FeedAction α β} (ht : s.step black rate a = some t) : Kept rate t := by
  cases a with
  | tick number video sameRaster => exact h.tick ht
  | acquire => exact h.acquire ht
  | write accessible => exact h.write ht
  | schedule streamTime accepted => exact h.schedule hfits ht
  | giveBack => exact h.giveBack ht
  | sound => exact h.sound hfits ht
  | complete receiver frame result =>
    obtain ⟨output, hstep, rfl⟩ := Option.map_eq_some_iff.mp ht
    simp only [DeckLink.step] at hstep
    split at hstep
    · exact h.completed hstep
    · cases hstep
  | stray receiver frame result =>
    obtain ⟨output, hstep, rfl⟩ := Option.map_eq_some_iff.mp ht
    simp only [DeckLink.step] at hstep
    split at hstep
    · exact h.completed hstep
    · cases hstep

/-- An output that was started and has been given no tick. -/
theorem kept_of_init (h : (machine black rate).init s) : Kept rate s := by
  obtain ⟨before, hreach, hstart, hrates, hnext, hsent⟩ := h
  have hslot := DeckLink.next_nonneg (hreach.step (.started true) trivial hstart)
  have hidle : stage s.output.phase = .done := by
    simp only [DeckLink.step] at hstart
    split at hstart
    · rw [← Option.some.inj hstart, stage]
    · cases hstart
  refine ⟨hrates, hslot, hnext.ge, ?_, ?_, ?_, ?_, ?_, ?_⟩ <;> rw [hsent]
  · exact List.Pairwise.nil
  · intro _ hq
    cases hq
  · intro _ hq
    cases hq
  · intro _ _ hq
    cases hq
  · rw [hidle]
    trivial
  · trivial

omit [DecidableEq α] in
/-- The ticks that were scheduled between two are those of the frames sent between. -/
theorem length_unscheduled {newer between earlier : List Sent} {e e' : Sent}
    (hsent : s.sent = newer ++ e' :: (between ++ e :: earlier))
    (hsorted : s.sent.Pairwise fun e e' ↦ e'.tick < e.tick) :
    ((s.unscheduled e.tick e'.tick).length : Int) + between.length + 1 = e'.tick - e.tick := by
  rw [hsent] at hsorted
  obtain ⟨-, hlast, hnewer⟩ := List.pairwise_append.mp hsorted
  obtain ⟨hlast, htail⟩ := List.pairwise_cons.mp hlast
  obtain ⟨hbetween, hfirst, hcross⟩ := List.pairwise_append.mp htail
  have hlt := hlast e (List.mem_append_right _ List.mem_cons_self)
  obtain ⟨ticks, hticks⟩ : ∃ ticks : List Int,
      (List.range (e'.tick - e.tick - 1).toNat).map (fun (i : Nat) ↦ e.tick + 1 + i) = ticks :=
    ⟨_, rfl⟩
  have hmem : ∀ x, x ∈ ticks ↔ e.tick < x ∧ x < e'.tick := by
    intro x
    rw [← hticks, List.mem_map]
    constructor
    · rintro ⟨i, hi, rfl⟩
      have := List.mem_range.mp hi
      omega
    · rintro ⟨hlow, hhigh⟩
      exact ⟨(x - e.tick - 1).toNat, List.mem_range.mpr (by omega), by omega⟩
  have hnodup : ticks.Nodup := by
    rw [← hticks]
    exact List.nodup_range.map fun i j hij ↦ by omega
  have hscheduled : (ticks.filter (· ∈ s.sent.map Sent.tick)).Perm (between.map Sent.tick) := by
    apply (List.perm_ext_iff_of_nodup (hnodup.filter _)
      (List.pairwise_map.mpr (hbetween.imp fun hlt ↦ hlt.ne'))).mpr
    intro x
    rw [List.mem_filter, decide_eq_true_eq, hmem, hsent]
    constructor
    · rintro ⟨⟨hlow, hhigh⟩, hx⟩
      obtain ⟨b, hb, rfl⟩ := List.mem_map.mp hx
      obtain hb | hb := List.mem_append.mp hb
      · have := hnewer b hb e' List.mem_cons_self
        omega
      · obtain rfl | hb := List.mem_cons.mp hb
        · omega
        · obtain hb | hb := List.mem_append.mp hb
          · exact List.mem_map_of_mem hb
          · obtain rfl | hb := List.mem_cons.mp hb
            · omega
            · have := (List.pairwise_cons.mp hfirst).1 b hb
              omega
    · intro hx
      obtain ⟨b, hb, rfl⟩ := List.mem_map.mp hx
      have hmem : b ∈ between ++ e :: earlier := List.mem_append_left _ hb
      refine ⟨⟨hcross b hb e List.mem_cons_self, hlast b hmem⟩, List.mem_map_of_mem ?_⟩
      exact List.mem_append_right _ (List.mem_cons_of_mem _ hmem)
  have hcount := List.length_eq_length_filter_add (l := ticks)
    fun x ↦ decide (x ∈ s.sent.map Sent.tick)
  have hlength : ticks.length = (e'.tick - e.tick - 1).toNat := by
    rw [← hticks, List.length_map, List.length_range]
  have hrest : s.unscheduled e.tick e'.tick =
      ticks.filter fun x ↦ !decide (x ∈ s.sent.map Sent.tick) := by
    rw [unscheduled, hticks]
    exact List.filter_congr fun x _ ↦ decide_not
  rw [hscheduled.length_eq, List.length_map, ← hrest] at hcount
  omega

omit [DecidableEq α] in
/-- What was kept says how far sound and picture can have moved. -/
theorem Kept.locked (h : Kept rate s) : s.Locked := by
  intro e he e' he' hlt sound sound' picture picture' hsound hsound' hpicture hpicture'
  have hd := h.rates.numerator
  obtain ⟨newer, rest, hsent⟩ := List.append_of_mem he'
  have hsorted := h.sorted
  have hchained := h.chained
  rw [hsent] at he hsorted hchained
  have hrest : e ∈ rest := by
    obtain he | he := List.mem_append.mp he
    · have := (List.pairwise_append.mp hsorted).2.2 e he e' List.mem_cons_self
      omega
    · obtain rfl | he := List.mem_cons.mp he
      · omega
      · exact he
  obtain ⟨between, earlier, rfl⟩ := List.append_of_mem hrest
  have hnear := (hchained.of_append hsound').near_of_append hsound
  have hbound := hnear.abs_offset_lt hd
  have hslips := hnear.slips_le hd
  have hcount := length_unscheduled hsent h.sorted
  rw [samplePosition_eq_share h.rates (h.index e (by rw [hsent]; exact he)) hpicture,
    samplePosition_eq_share h.rates (h.index e' he') hpicture']
  simp only [Sent.mark, List.length_append, List.length_cons] at hbound hslips
  push_cast at hbound hslips
  apply hbound.trans_le
  omega

/-- In every run in which no value leaves its type, sound stays locked to picture. -/
theorem sound_locked
    (hfits : kAudioTimeScale * rate.denominator ≤ 2147483647 * rate.numerator)
    (h : (machine black rate).Reachable s) : s.Locked :=
  (h.invariant (fun _ ↦ kept_of_init) fun _ _ _ _ hs ht ↦ hs.step hfits ht : Kept rate s).locked

/-- A start with a preroll of two, all of whose calls succeed, up to `StartScheduledPlayback`. -/
def startCalls (frameDuration timeScale : Int) : List (DeckLinkAction Nat Nat) :=
  [.callStart, .stopCard, .releaseRing, .opened true, .create (some 1), .create (some 2),
    .create (some 3), .create (some 4), .installed true true frameDuration timeScale, .acquire,
    .write true, .schedule none true, .acquire, .write true, .schedule none true]

/-- At 29.97: two frames, one that the card refuses, two ticks that the clock skipped, and a frame
after a stall. -/
theorem sound_locked_stall :
    ∃ before started s,
      (DeckLink.machine 0).run (DeckLink.make 2 4 fun _ ↦ 7) (startCalls 1001 30000) =
        some before ∧
      before.step 0 (.started true) = some started ∧
      (machine 0 ⟨30000, 1001⟩).run { output := started }
        [.tick 0 5 true, .acquire, .write true, .schedule (some 0) true, .sound,
          .complete .current 1 .completed, .tick 1 5 true, .acquire, .write true,
          .schedule (some 1001) true, .sound, .tick 2 6 true, .acquire, .write true,
          .schedule (some 2002) false, .giveBack, .tick 5 7 true, .acquire, .write true,
          .schedule (some 10010) true, .sound] = some s ∧
      s.sent = [⟨5, 12, some 16016, 1⟩, ⟨1, 3, some 1601, 0⟩, ⟨0, 2, some 0, 0⟩] ∧ s.Locked := by
  obtain ⟨before, started, s, hbefore, hstarted, hrun, hrates, hsent⟩ : ∃ before started s,
      (DeckLink.machine 0).run (DeckLink.make 2 4 fun _ ↦ 7) (startCalls 1001 30000) =
        some before ∧
      before.step 0 (.started true) = some started ∧
      (machine 0 ⟨30000, 1001⟩).run { output := started }
        [.tick 0 5 true, .acquire, .write true, .schedule (some 0) true, .sound,
          .complete .current 1 .completed, .tick 1 5 true, .acquire, .write true,
          .schedule (some 1001) true, .sound, .tick 2 6 true, .acquire, .write true,
          .schedule (some 2002) false, .giveBack, .tick 5 7 true, .acquire, .write true,
          .schedule (some 10010) true, .sound] = some s ∧
      started.playout.schedule.timeScale * 1001 = started.playout.schedule.frameDuration * 30000 ∧
      s.sent = [⟨5, 12, some 16016, 1⟩, ⟨1, 3, some 1601, 0⟩, ⟨0, 2, some 0, 0⟩] :=
    ⟨_, _, _, rfl, rfl, rfl, rfl, rfl⟩
  have hmake : (DeckLink.machine 0).Reachable (DeckLink.make 2 4 fun _ : Nat ↦ 7) :=
    .init ⟨2, 4, _, rfl⟩
  have hinit : (machine 0 ⟨30000, 1001⟩).Reachable { output := started } :=
    .init ⟨before, hmake.run _ hbefore, hstarted, ⟨by decide, by decide, hrates⟩, rfl, rfl⟩
  exact ⟨before, started, s, hbefore, hstarted, hrun, hsent,
    sound_locked (by decide) (hinit.run _ hrun)⟩

/-- At one frame in 100000 seconds a tick's share is cut to an `int`; and at any rate the card
may say that its playhead is at the last time there is, one unit before which is not ahead. -/
theorem not_locked :
    (∃ s : Feed Nat Nat, (machine 0 ⟨1, 100000⟩).Reachable s ∧ ¬ s.Locked) ∧
      ∃ (s : Feed Nat Nat) (playhead : Int), (machine 0 ⟨25, 1⟩).Reachable s ∧ InInt64 playhead ∧
        (∀ accepted, s.step 0 ⟨25, 1⟩ (.schedule (some 0) accepted) ≠ none) ∧
        ∀ accepted, s.step 0 ⟨25, 1⟩ (.schedule (some playhead) accepted) = none := by
  have hmake : (DeckLink.machine 0).Reachable (DeckLink.make 2 4 fun _ : Nat ↦ 7) :=
    .init ⟨2, 4, _, rfl⟩
  constructor
  · obtain ⟨before, started, s, hbefore, hstarted, hrun, hrates, hsent, hfirst, hlast⟩ :
        ∃ before started s,
          (DeckLink.machine 0).run (DeckLink.make 2 4 fun _ ↦ 7) (startCalls 100000 1) =
            some before ∧
          before.step 0 (.started true) = some started ∧
          (machine 0 ⟨1, 100000⟩).run { output := started }
            [.tick 0 5 true, .acquire, .write true, .schedule none true, .sound, .tick 1 5 true,
              .acquire, .write true, .schedule none true, .sound] = some s ∧
          started.playout.schedule.timeScale * 100000 = started.playout.schedule.frameDuration * 1 ∧
          s.sent = [⟨1, 3, some 505032704, 0⟩, ⟨0, 2, some 0, 0⟩] ∧
          s.output.playout.schedule.samplePosition 2 kAudioTimeScale = some 9600000000 ∧
          s.output.playout.schedule.samplePosition 3 kAudioTimeScale = some 14400000000 :=
      ⟨_, _, _, rfl, rfl, rfl, rfl, rfl, rfl, rfl⟩
    have hinit : (machine 0 ⟨1, 100000⟩).Reachable { output := started } :=
      .init ⟨before, hmake.run _ hbefore, hstarted, ⟨by decide, by decide, hrates⟩, rfl, rfl⟩
    refine ⟨s, hinit.run _ hrun, fun hlocked ↦ ?_⟩
    have hnone : s.unscheduled 0 1 = [] := rfl
    have hbound := hlocked ⟨0, 2, some 0, 0⟩ (by rw [hsent]; simp)
      ⟨1, 3, some 505032704, 0⟩ (by rw [hsent]; simp) (by decide) _ _ _ _ rfl rfl hfirst hlast
    rw [hnone] at hbound
    exact absurd hbound (by decide)
  · obtain ⟨before, started, s, hbefore, hstarted, hrun, hrates, hnow, hlast⟩ :
        ∃ before started s,
          (DeckLink.machine 0).run (DeckLink.make 2 4 fun _ ↦ 7) (startCalls 1 25) =
            some before ∧
          before.step 0 (.started true) = some started ∧
          (machine 0 ⟨25, 1⟩).run { output := started } [.tick 0 5 true, .acquire, .write true] =
            some s ∧
          started.playout.schedule.timeScale * 1 = started.playout.schedule.frameDuration * 25 ∧
          (∀ accepted, s.step 0 ⟨25, 1⟩ (.schedule (some 0) accepted) ≠ none) ∧
          ∀ accepted,
            s.step 0 ⟨25, 1⟩ (.schedule (some 9223372036854775807) accepted) = none :=
      ⟨_, _, _, rfl, rfl, rfl, rfl, fun accepted ↦ by cases accepted <;> nofun,
        fun accepted ↦ by cases accepted <;> rfl⟩
    have hinit : (machine 0 ⟨25, 1⟩).Reachable { output := started } :=
      .init ⟨before, hmake.run _ hbefore, hstarted, ⟨by decide, by decide, hrates⟩, rfl, rfl⟩
    exact ⟨s, 9223372036854775807, hinit.run _ hrun, by decide, hnow, hlast⟩

end Feed
end WebLinked.Outputs
