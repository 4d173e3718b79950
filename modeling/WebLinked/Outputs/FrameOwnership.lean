import Mathlib
import WebLinked.Outputs.DeckLinkOutput

/-!
# Who has a ring frame

The flags of the ring say which frames are in use: the one that the thread in the output has, and
those with the card. Each call on the ring keeps that, whoever makes it and when.
-/

namespace WebLinked.Outputs

open WebLinked.Base WebLinked.Core

/-- An open ring's flags against the frame that is held and those with the card. -/
structure Balanced {α : Type} (ring : RecycleRing α) (held : Option α) (withCard : α → Prop) :
    Prop where
  opened : ring.closed = false
  distinct : ring.Distinct
  inUse : ∀ f ∈ ring.items, ring.Has f false ↔ held = some f ∨ withCard f
  apart : ∀ f, held = some f → f ∈ ring.items ∧ ¬ withCard f

namespace Balanced

variable {α : Type} {ring ring' : RecycleRing α} {held : Option α} {withCard withCard' : α → Prop}
  {f : α}

/-- A flag set does not change which frames there are. -/
theorem distinct_of_items (h : Balanced ring held withCard) (hitems : ring'.items = ring.items) :
    ring'.Distinct := by
  rw [RecycleRing.distinct_iff, hitems]
  exact h.distinct

/-- A call that only counts. -/
theorem sameSlots (h : Balanced ring held withCard) (hsame : ring.SameSlots ring') :
    Balanced ring' held withCard := by
  have hitems := hsame.items
  have hhas : ∀ g b, ring'.Has g b ↔ ring.Has g b := by
    intro g b
    rw [RecycleRing.Has, hsame.slots]
    rfl
  refine ⟨hsame.closed.trans h.opened, h.distinct_of_items hitems, ?_, ?_⟩
  · intro g hg
    rw [hhas]
    exact h.inUse g (hitems ▸ hg)
  · intro g hg
    rw [hitems]
    exact h.apart g hg

/-- A free frame is handed out. -/
theorem acquire (h : Balanced ring none withCard) (hflag : ring.Flagged f false ring') :
    Balanced ring' (some f) withCard := by
  have hfree : ¬ withCard f := by
    intro hcard
    have hmem := hflag.was.mem_items
    exact Bool.noConfusion (h.distinct.free_eq hflag.was ((h.inUse f hmem).mpr (.inr hcard)))
  refine ⟨hflag.closed.trans h.opened, h.distinct_of_items hflag.items, ?_, ?_⟩
  · intro g hg
    rw [hflag.items] at hg
    by_cases hgf : g = f
    · subst hgf
      rw [hflag.now]
      exact ⟨fun _ ↦ .inl rfl, fun _ ↦ rfl⟩
    · rw [hflag.others g _ hgf, h.inUse g hg]
      constructor
      · exact fun hc ↦ .inr (hc.resolve_left nofun)
      · exact fun hc ↦ .inr (hc.resolve_left fun heq ↦ hgf (Option.some.inj heq).symm)
  · intro g hg
    cases hg
    rw [hflag.items]
    exact ⟨hflag.was.mem_items, hfree⟩

/-- The card takes the frame. -/
theorem accept (h : Balanced ring (some f) withCard)
    (hcard : ∀ g, withCard' g ↔ g = f ∨ withCard g) : Balanced ring none withCard' := by
  refine ⟨h.opened, h.distinct, fun g hg ↦ ?_, nofun⟩
  rw [h.inUse g hg, hcard, Option.some.injEq]
  constructor
  · rintro (rfl | hc)
    · exact .inr (.inl rfl)
    · exact .inr (.inr hc)
  · rintro (hc | rfl | hc)
    · cases hc
    · exact .inl rfl
    · exact .inr hc

variable [DecidableEq α]

/-- The frame that is held is given back. -/
theorem giveBack (h : Balanced ring (some f) withCard) :
    Balanced (ring.release f).2 none withCard := by
  obtain ⟨hmem, hnot⟩ := h.apart f rfl
  have hhas := (h.inUse f hmem).mpr (.inl rfl)
  obtain ⟨-, -, hflag⟩ | ⟨-, hno, -⟩ := h.distinct.release_cases f
  · refine ⟨hflag.closed.trans h.opened, h.distinct_of_items hflag.items, ?_, nofun⟩
    intro g hg
    rw [hflag.items] at hg
    by_cases hgf : g = f
    · subst hgf
      rw [hflag.now]
      exact ⟨nofun, fun hc ↦ absurd (hc.resolve_left nofun) hnot⟩
    · rw [hflag.others g _ hgf, h.inUse g hg]
      constructor
      · exact fun hc ↦ .inr (hc.resolve_left fun heq ↦ hgf (Option.some.inj heq).symm)
      · exact fun hc ↦ .inr (hc.resolve_left nofun)
  · rcases hno with hclosed | hno
    · rw [h.opened] at hclosed
      cases hclosed
    · exact absurd hhas hno

/-- The card completes a frame of the ring. -/
theorem complete (h : Balanced ring held withCard) (hmem : f ∈ ring.items) (hcard : withCard f)
    (hcard' : ∀ g, withCard' g ↔ withCard g ∧ g ≠ f) :
    Balanced (ring.release f).2 held withCard' := by
  have hhas := (h.inUse f hmem).mpr (.inr hcard)
  have hheld : held ≠ some f := fun heq ↦ (h.apart f heq).2 hcard
  obtain ⟨-, -, hflag⟩ | ⟨-, hno, -⟩ := h.distinct.release_cases f
  · refine ⟨hflag.closed.trans h.opened, h.distinct_of_items hflag.items, ?_, ?_⟩
    · intro g hg
      rw [hflag.items] at hg
      rw [hcard']
      by_cases hgf : g = f
      · subst hgf
        rw [hflag.now]
        exact ⟨nofun, fun hc ↦ hc.elim (fun heq ↦ absurd heq hheld) fun hc ↦ absurd rfl hc.2⟩
      · rw [hflag.others g _ hgf, h.inUse g hg, and_iff_left hgf]
    · intro g hg
      rw [hflag.items, hcard']
      exact ⟨(h.apart g hg).1, fun hc ↦ (h.apart g hg).2 hc.1⟩
  · rcases hno with hclosed | hno
    · rw [h.opened] at hclosed
      cases hclosed
    · exact absurd hhas hno

/-- A completion of a frame that is not the ring's changes no flag. -/
theorem stray (h : Balanced ring held withCard) (hmem : f ∉ ring.items) :
    Balanced (ring.release f).2 held withCard := by
  obtain ⟨-, -, hflag⟩ | ⟨-, -, hsame⟩ := h.distinct.release_cases f
  · exact absurd hflag.was.mem_items hmem
  · exact h.sameSlots hsame

omit [DecidableEq α] in
/-- What the card does with frames that are not the ring's. -/
theorem congr (h : Balanced ring held withCard)
    (hcard : ∀ g ∈ ring.items, withCard' g ↔ withCard g) : Balanced ring held withCard' := by
  refine ⟨h.opened, h.distinct, fun g hg ↦ ?_, fun g hg ↦ ?_⟩
  · rw [h.inUse g hg, hcard g hg]
  · obtain ⟨hmem, hnot⟩ := h.apart g hg
    rw [hcard g hmem]
    exact ⟨hmem, hnot⟩

end Balanced

namespace DeckLink

variable {α β : Type} {black : β} {s t : DeckLink α β}

/-- The card's frames are different ones and show what they did when they were accepted, the
flags of the ring are balanced, and no earlier ring hands out or takes back anything. -/
structure Owned (s : DeckLink α β) : Prop where
  card : Keyed.Distinct Prod.fst s.card
  shown : ∀ f c, (f, c) ∈ s.card → s.pixels f = c
  retired : ∀ ring ∈ s.retired, ring.closed = true
  ring : ∀ ring, s.ring = some ring →
    Balanced ring s.held s.WithCard ∧ ring.items = s.frameBuffers
  noRing : s.ring = none → s.held = none
  noFrames : s.ring = none → (∀ ring, s.phase ≠ .building ring) → s.frameBuffers = []
  building : ∀ ring, s.phase = .building ring →
    s.ring = none ∧ Balanced ring none s.WithCard ∧ ring.items = s.frameBuffers ∧
      ∀ f ∈ ring.items, ¬ s.WithCard f
  opening : s.phase = .opening → s.ring = none

/-- A step that touches neither frames nor rings, between phases with the same frame. -/
theorem Owned.control (h : Owned s) (hcard : t.card = s.card) (hpixels : t.pixels = s.pixels)
    (hretired : t.retired = s.retired) (hring : t.ring = s.ring)
    (hbuffers : t.frameBuffers = s.frameBuffers) (hheld : t.held = s.held)
    (hfrom : ∀ ring, s.phase ≠ .building ring) (hbuilding : ∀ ring, t.phase ≠ .building ring)
    (hopening : t.phase ≠ .opening) : Owned t where
  card := by rw [hcard]; exact h.card
  shown := by rw [hcard, hpixels]; exact h.shown
  retired := by rw [hretired]; exact h.retired
  ring := by
    unfold WithCard
    rw [hring, hheld, hcard, hbuffers]
    exact h.ring
  noRing := by rw [hring, hheld]; exact h.noRing
  noFrames := by
    rw [hring, hbuffers]
    exact fun hr _ ↦ h.noFrames hr hfrom
  building := fun ring hr ↦ absurd hr (hbuilding ring)
  opening := fun ho ↦ absurd ho hopening

/-- A phase in which no frame is held, no ring is built and none is about to be. -/
structure Plain (phase : Phase α β) : Prop where
  held : ∀ s : DeckLink α β, s.phase = phase → s.held = none
  building : ∀ ring, phase ≠ .building ring
  opening : phase ≠ .opening

theorem plain_of_idle : Plain (.idle : Phase α β) :=
  ⟨fun s hs ↦ by rw [held, hs], fun _ ↦ nofun, nofun⟩

theorem plain_of_stopping (starts : Bool) : Plain (.stopping starts : Phase α β) :=
  ⟨fun s hs ↦ by rw [held, hs], fun _ ↦ nofun, nofun⟩

theorem plain_of_releasing (starts : Bool) : Plain (.releasing starts : Phase α β) :=
  ⟨fun s hs ↦ by rw [held, hs], fun _ ↦ nofun, nofun⟩

theorem plain_of_installing : Plain (.installing : Phase α β) :=
  ⟨fun s hs ↦ by rw [held, hs], fun _ ↦ nofun, nofun⟩

theorem plain_of_acquiring (job : Job β) : Plain (.acquiring job : Phase α β) :=
  ⟨fun s hs ↦ by rw [held, hs], fun _ ↦ nofun, nofun⟩

theorem plain_of_sounding (sampleRate : Int) : Plain (.sounding sampleRate : Phase α β) :=
  ⟨fun s hs ↦ by rw [held, hs], fun _ ↦ nofun, nofun⟩

theorem plain_of_starting : Plain (.starting : Phase α β) :=
  ⟨fun s hs ↦ by rw [held, hs], fun _ ↦ nofun, nofun⟩

/-- No frame is left over when a job is given up. -/
theorem plain_abandoned (job : Job β) : Plain (abandoned job : Phase α β) := by
  cases job with
  | preroll left => exact plain_of_stopping false
  | submit video audio => exact plain_of_idle

/-- Nor when it has been done. -/
theorem plain_scheduled (audioEnabled : Bool) (job : Job β) :
    Plain (scheduled audioEnabled job : Phase α β) := by
  cases job with
  | preroll left =>
    rw [scheduled]
    split
    · exact plain_of_starting
    · exact plain_of_acquiring _
  | submit video audio =>
    cases audio with
    | none => exact plain_of_idle
    | some sampleRate =>
      rw [scheduled]
      split
      · exact plain_of_sounding _
      · exact plain_of_idle

/-- A step between phases without a frame keeps the frames owned. -/
theorem Owned.plain (h : Owned s) {phase next : Phase α β} (hphase : s.phase = phase)
    (hp : Plain phase) (hn : Plain next) {output : DeckLinkOutput α} (hring : output.ring = s.ring)
    (hbuffers : output.frameBuffers = s.frameBuffers) :
    Owned { s with toDeckLinkOutput := output, phase := next } := by
  refine h.control rfl rfl rfl hring hbuffers ?_ (hphase ▸ hp.building) hn.building hn.opening
  rw [hp.held s hphase, hn.held _ rfl]

/-- A state with a ring. -/
theorem Owned.of_ring {ring : RecycleRing α} (hring : t.ring = some ring)
    (hcard : Keyed.Distinct Prod.fst t.card) (hshown : ∀ f c, (f, c) ∈ t.card → t.pixels f = c)
    (hretired : ∀ ring ∈ t.retired, ring.closed = true)
    (hbalanced : Balanced ring t.held t.WithCard) (hitems : ring.items = t.frameBuffers)
    (hbuilding : ∀ ring, t.phase ≠ .building ring) (hopening : t.phase ≠ .opening) : Owned t where
  card := hcard
  shown := hshown
  retired := hretired
  ring := by
    intro ring' hring'
    obtain rfl := Option.some.inj (hring.symm.trans hring')
    exact ⟨hbalanced, hitems⟩
  noRing := fun hnone ↦ by rw [hring] at hnone; cases hnone
  noFrames := fun hnone ↦ by rw [hring] at hnone; cases hnone
  building := fun ring hr ↦ absurd hr (hbuilding ring)
  opening := fun ho ↦ absurd ho hopening

variable [DecidableEq α]

attribute [local simp] step

/-- `acquire` gives the thread a free frame, or none. -/
theorem Owned.acquire (h : Owned s) (ht : s.step black .acquire = some t) : Owned t := by
  simp only [step] at ht
  split at ht
  · next job ring hphase hring =>
    obtain ⟨hbal, hitems⟩ := h.ring ring hring
    have hheld : s.held = none := (plain_of_acquiring job).held s hphase
    rw [hheld] at hbal
    obtain ⟨f, hf, -, hflag⟩ | ⟨hnone, hsame⟩ := hbal.distinct.acquire_cases
    · have hpair : ring.acquire = (some f, ring.acquire.2) := Prod.ext hf rfl
      rw [hpair] at ht
      cases ht
      exact .of_ring rfl h.card h.shown h.retired (hbal.acquire hflag)
        (hflag.items.trans hitems) (fun _ ↦ nofun) nofun
    · have hpair : ring.acquire = (none, ring.acquire.2) := Prod.ext hnone rfl
      rw [hpair] at ht
      cases ht
      have hplain : Plain (abandoned job : Phase α β) := plain_abandoned job
      refine .of_ring rfl h.card h.shown h.retired ?_ ?_ hplain.building hplain.opening
      · rw [hplain.held _ rfl]
        exact hbal.sameSlots hsame
      · exact hsame.items.trans hitems
  · cases ht

/-- `release` takes back the frame that could not be written or scheduled. -/
theorem Owned.giveBack (h : Owned s) (ht : s.step black .giveBack = some t) : Owned t := by
  have hgive : ∀ {f ring} {phase : Phase α β}, s.held = some f → s.ring = some ring →
      Plain phase → Owned { s with ring := some (ring.release f).2, phase } := by
    intro f ring phase hheld hring hplain
    obtain ⟨hbal, hitems⟩ := h.ring ring hring
    rw [hheld] at hbal
    have hback := hbal.giveBack
    refine .of_ring rfl h.card h.shown h.retired ?_ ?_ hplain.building hplain.opening
    · rw [hplain.held _ rfl]
      exact hback
    · exact (hbal.distinct.items_release f).trans hitems
  simp only [step] at ht
  split at ht
  · next f ring hphase hring =>
    cases ht
    exact hgive (by rw [held, hphase]) hring plain_of_idle
  · next job f ring hphase hring =>
    cases ht
    exact hgive (by rw [held, hphase]) hring (plain_abandoned job)
  · cases ht

/-- `ScheduleVideoFrame`: the card takes the frame as it is now, or the thread keeps it. -/
theorem Owned.schedule (h : Owned s) {streamTime : Option Int} {accepted : Bool}
    (ht : s.step black (.schedule streamTime accepted) = some t) : Owned t := by
  simp only [step] at ht
  split at ht
  · next job f hphase =>
    have hheld : s.held = some f := by rw [held, hphase]
    obtain ⟨ring, hring⟩ : ∃ ring, s.ring = some ring := by
      cases hring : s.ring with
      | none =>
        rw [h.noRing hring] at hheld
        cases hheld
      | some ring => exact ⟨ring, rfl⟩
    obtain ⟨hbal, hitems⟩ := h.ring ring hring
    rw [hheld] at hbal
    obtain ⟨playout, -, ht⟩ := Option.bind_eq_some_iff.mp ht
    split at ht
    · obtain ⟨playout', -, ht⟩ := Option.bind_eq_some_iff.mp ht
      cases ht
      have hplain : Plain (scheduled s.audioEnabled job : Phase α β) := plain_scheduled _ job
      have hnew : f ∉ s.card.map Prod.fst := by
        intro hmem
        obtain ⟨⟨g, c⟩, hgc, rfl⟩ := List.mem_map.mp hmem
        exact (hbal.apart g rfl).2 ⟨c, hgc⟩
      refine .of_ring hring (List.nodup_cons.mpr ⟨hnew, h.card⟩) ?_ h.retired ?_ hitems
        hplain.building hplain.opening
      · intro g c hgc
        rcases List.mem_cons.mp hgc with heq | hgc
        · cases heq
          rfl
        · exact h.shown g c hgc
      · rw [hplain.held _ rfl]
        apply hbal.accept
        intro g
        constructor
        · rintro ⟨c, hgc⟩
          rcases List.mem_cons.mp hgc with heq | hgc
          · exact .inl (congrArg Prod.fst heq)
          · exact .inr ⟨c, hgc⟩
        · rintro (rfl | ⟨c, hgc⟩)
          · exact ⟨_, List.mem_cons_self⟩
          · exact ⟨c, List.mem_cons_of_mem _ hgc⟩
    · obtain ⟨playout', -, ht⟩ := Option.bind_eq_some_iff.mp ht
      cases ht
      refine h.control rfl rfl rfl rfl rfl ?_ ?_ (fun _ ↦ nofun) nofun
      · rw [hheld]
        rfl
      · rw [hphase]
        exact fun _ ↦ nofun
  · cases ht

/-- A write changes the pixels of a frame that the card does not have. -/
theorem Owned.write (h : Owned s) {accessible : Bool}
    (ht : s.step black (.write accessible) = some t) : Owned t := by
  simp only [step] at ht
  split at ht
  · next job f hphase =>
    have hheld : s.held = some f := by rw [held, hphase]
    have hfrom : ∀ ring, s.phase ≠ .building ring := by
      rw [hphase]
      exact fun _ ↦ nofun
    have hkeep : ∀ {phase : Phase α β}, phase = .scheduling job f ∨ phase = .unwritten f →
        ∀ accessFailures, Owned { s with accessFailures, phase } := by
      intro phase hto accessFailures
      rcases hto with rfl | rfl
      · exact h.control rfl rfl rfl rfl rfl hheld.symm hfrom (fun _ ↦ nofun) nofun
      · exact h.control rfl rfl rfl rfl rfl hheld.symm hfrom (fun _ ↦ nofun) nofun
    split at ht
    · cases ht
      have hkept := hkeep (.inl rfl) s.accessFailures
      refine ⟨hkept.card, ?_, hkept.retired, hkept.ring, hkept.noRing, hkept.noFrames,
        hkept.building, hkept.opening⟩
      intro g c hgc
      have hne : g ≠ f := by
        rintro rfl
        cases hring : s.ring with
        | none =>
          rw [h.noRing hring] at hheld
          cases hheld
        | some ring =>
          have hbal := (h.ring ring hring).1
          exact (hbal.apart g hheld).2 ⟨c, hgc⟩
      change (if g = f then _ else s.pixels g) = c
      rw [if_neg hne]
      exact h.shown g c hgc
    · split at ht
      · cases ht
        exact hkeep (.inl rfl) s.accessFailures
      · cases ht
        exact hkeep (.inr rfl) _
  · cases ht

/-- What a completion leaves alone, and which ring it gives a frame back to. -/
structure Completed (s : DeckLink α β) (receiver : Receiver) (frame : Option α)
    (t : DeckLink α β) : Prop where
  phase : t.phase = s.phase
  card : t.card = s.card
  pixels : t.pixels = s.pixels
  buffers : t.frameBuffers = s.frameBuffers
  retired : ∀ ring ∈ t.retired, ∃ earlier ∈ s.retired, ring.closed = earlier.closed
  ring : ∀ ring, t.ring = some ring → ∃ earlier, s.ring = some earlier ∧
    ((receiver = .current ∧ ∃ f, frame = some f ∧ ring = (earlier.release f).2) ∨
      ((receiver ≠ .current ∨ frame = none) ∧ ring = earlier))
  noRing : t.ring = none → s.ring = none

theorem completed_of_some {receiver : Receiver} {frame : Option α} {result : CompletionResult}
    (ht : s.scheduledFrameCompleted receiver frame result = some t) :
    Completed s receiver frame t := by
  obtain ⟨ring, hring, ht⟩ := Option.bind_eq_some_iff.mp ht
  cases frame with
  | none =>
    cases ht
    exact ⟨rfl, rfl, rfl, rfl, fun ring hr ↦ ⟨ring, hr, rfl⟩,
      fun ring hr ↦ ⟨ring, hr, .inr ⟨.inr rfl, rfl⟩⟩, id⟩
  | some f =>
    have hfields : ∀ counters playout,
        Completed s receiver (some f)
          { s.setReceiverRing (ring.release f).2 receiver with counters, playout } := by
      intro counters playout
      cases receiver with
      | current =>
        refine ⟨rfl, rfl, rfl, rfl, fun ring hr ↦ ⟨ring, hr, rfl⟩, fun ring' hr ↦ ?_, nofun⟩
        cases hr
        exact ⟨ring, hring, .inl ⟨rfl, f, rfl, rfl⟩⟩
      | retired i =>
        refine ⟨rfl, rfl, rfl, rfl, fun ring' hr ↦ ?_,
          fun ring hr ↦ ⟨ring, hr, .inr ⟨.inl nofun, rfl⟩⟩, id⟩
        rcases List.mem_or_eq_of_mem_set hr with hr | rfl
        · exact ⟨ring', hr, rfl⟩
        · exact ⟨ring, List.mem_of_getElem? hring, RecycleRing.closed_release f⟩
    simp only at ht
    split at ht
    · cases ht
      cases receiver <;> exact hfields _ _
    · cases ht
      cases receiver <;> exact hfields _ _

/-- A completion keeps the frames owned if it keeps the flags balanced. -/
theorem Owned.of_completed (h : Owned s) {card : List (α × β)} {receiver : Receiver}
    {frame : Option α} (hcard : Keyed.Distinct Prod.fst card) (hsub : card ⊆ s.card)
    (hgive : ∀ ring f, s.ring = some ring → receiver = .current → frame = some f →
      Balanced (ring.release f).2 s.held fun g ↦ ∃ c, (g, c) ∈ card)
    (hleave : ∀ ring, s.ring = some ring → receiver ≠ .current ∨ frame = none →
      Balanced ring s.held fun g ↦ ∃ c, (g, c) ∈ card)
    (ht : Completed { s with card } receiver frame t) : Owned t := by
  have hheld : t.held = s.held := by rw [held, held, ht.phase]
  have hwith : t.WithCard = fun g ↦ ∃ c, (g, c) ∈ card := by
    funext g
    rw [WithCard, ht.card]
  refine ⟨?_, ?_, ?_, ?_, ?_, ?_, ?_, ?_⟩
  · rw [ht.card]
    exact hcard
  · rw [ht.card, ht.pixels]
    exact fun f c hfc ↦ h.shown f c (hsub hfc)
  · intro ring hr
    obtain ⟨earlier, hmem, hclosed⟩ := ht.retired ring hr
    rw [hclosed]
    exact h.retired earlier hmem
  · intro ring hr
    rw [hheld, hwith, ht.buffers]
    obtain ⟨earlier, hearlier, ⟨hcur, f, hf, rfl⟩ | ⟨hother, rfl⟩⟩ := ht.ring ring hr
    · obtain ⟨hbal, hitems⟩ := h.ring earlier hearlier
      exact ⟨hgive earlier f hearlier hcur hf, (hbal.distinct.items_release f).trans hitems⟩
    · exact ⟨hleave ring hearlier hother, (h.ring ring hearlier).2⟩
  · intro hnone
    rw [hheld]
    exact h.noRing (ht.noRing hnone)
  · intro hnone hphase
    rw [ht.buffers]
    rw [ht.phase] at hphase
    exact h.noFrames (ht.noRing hnone) hphase
  · intro ring hphase
    rw [ht.phase] at hphase
    obtain ⟨hring, hbal, hitems, hapart⟩ := h.building ring hphase
    have hgone : ∀ g ∈ ring.items, ¬ ∃ c, (g, c) ∈ card :=
      fun g hg ⟨c, hgc⟩ ↦ hapart g hg ⟨c, hsub hgc⟩
    rw [hwith, ht.buffers]
    refine ⟨?_, ?_, hitems, hgone⟩
    · cases htr : t.ring with
      | none => rfl
      | some ring' =>
        obtain ⟨earlier, hearlier, -⟩ := ht.ring ring' htr
        cases hring.symm.trans hearlier
    · apply hbal.congr
      intro g hg
      exact iff_of_false (hgone g hg) (hapart g hg)
  · intro hphase
    rw [ht.phase] at hphase
    cases htr : t.ring with
    | none => rfl
    | some ring' =>
      obtain ⟨earlier, hearlier, -⟩ := ht.ring ring' htr
      cases (h.opening hphase).symm.trans hearlier

/-- The card completes a frame it has. -/
theorem Owned.complete (h : Owned s) {receiver : Receiver} {f : α} {result : CompletionResult}
    (ht : s.step black (.complete receiver f result) = some t) : Owned t := by
  simp only [step] at ht
  split at ht
  · next hguard =>
    obtain ⟨hmem, hown⟩ := hguard
    obtain ⟨⟨g, shown⟩, hf, rfl⟩ := List.mem_map.mp hmem
    have hremove : ∀ g', (∃ c, (g', c) ∈ Keyed.remove Prod.fst g s.card) ↔
        s.WithCard g' ∧ g' ≠ g := by
      intro g'
      simp only [Keyed.mem_remove, WithCard, exists_and_right]
    refine h.of_completed (h.card.remove g) (List.filter_sublist.subset) ?_ ?_
      (completed_of_some ht)
    · intro ring f' hring _ hf'
      cases hf'
      obtain ⟨hbal, -⟩ := h.ring ring hring
      by_cases hin : g ∈ ring.items
      · exact hbal.complete hin ⟨shown, hf⟩ hremove
      · apply (hbal.stray hin).congr
        intro g' hg'
        rw [hremove]
        refine and_iff_left ?_
        rintro rfl
        rw [hbal.distinct.items_release] at hg'
        exact hin hg'
    · intro ring hring hother
      obtain ⟨hbal, -⟩ := h.ring ring hring
      apply hbal.congr
      intro g' hg'
      rw [hremove]
      refine and_iff_left ?_
      rintro rfl
      -- A frame of the ring would have been completed at the ring's own callback.
      rw [hring] at hown
      obtain hne | hnone := hother
      · exact hne (hown hg')
      · cases hnone
  · cases ht

/-- A completion of a frame that the callback's ring does not have. -/
theorem Owned.stray (h : Owned s) {receiver : Receiver} {frame : Option α}
    {result : CompletionResult} (ht : s.step black (.stray receiver frame result) = some t) :
    Owned t := by
  simp only [step] at ht
  split at ht
  · next hguard =>
    refine h.of_completed h.card (List.Subset.refl _) ?_ ?_ (completed_of_some ht)
    · intro ring f hring hcur hf
      have hunknown := (hguard f hf).2
      rw [hcur, receiverRing, hring] at hunknown
      exact (h.ring ring hring).1.stray hunknown
    · intro ring hring _
      exact (h.ring ring hring).1
  · cases ht

/-- A frame is made for the ring, or `buildRing` gives up. -/
theorem Owned.create (h : Owned s) {frame : Option α}
    (ht : s.step black (.create frame) = some t) : Owned t := by
  simp only [step] at ht
  split at ht
  · next ring hphase =>
    obtain ⟨hring, hbal, hitems, hapart⟩ := h.building ring hphase
    cases frame with
    | none =>
      cases ht
      exact ⟨h.card, h.shown, h.retired, fun ring hr ↦ (by rw [hring] at hr; cases hr),
        fun _ ↦ rfl, fun _ _ ↦ rfl, fun _ ↦ nofun, nofun⟩
    | some f =>
      simp only [createFrame] at ht
      split at ht
      · cases ht
      · next hnew =>
        push Not at hnew
        have hcard : ¬ s.WithCard f := fun ⟨c, hc⟩ ↦ hnew.2 (List.mem_map.mpr ⟨_, hc, rfl⟩)
        have hbal' : Balanced (ring.add f) none s.WithCard := by
          refine ⟨hbal.opened, ?_, ?_, nofun⟩
          · exact hbal.distinct.append hnew.1
          · intro g hg
            rw [RecycleRing.has_add]
            rw [RecycleRing.items_add, List.mem_append, List.mem_singleton] at hg
            rcases hg with hg | rfl
            · rw [← hbal.inUse g hg]
              exact ⟨fun hc ↦ hc.resolve_right nofun, Or.inl⟩
            · refine iff_of_false ?_ (fun hc ↦ hc.elim nofun hcard)
              rintro (hc | ⟨-, hc⟩)
              · exact hnew.1 hc.mem_items
              · cases hc
        have hitems' : (ring.add f).items = s.frameBuffers ++ [f] := by
          rw [RecycleRing.items_add, hitems]
        split at ht
        · cases ht
          exact .of_ring rfl h.card h.shown h.retired hbal' hitems' (fun _ ↦ nofun) nofun
        · cases ht
          refine ⟨h.card, h.shown, h.retired, fun ring hr ↦ (by rw [hring] at hr; cases hr),
            fun _ ↦ rfl, fun _ hno ↦ absurd rfl (hno (ring.add f)), ?_, nofun⟩
          intro ring' hr
          cases hr
          refine ⟨hring, hbal', hitems', fun g hg ↦ ?_⟩
          rw [RecycleRing.items_add, List.mem_append, List.mem_singleton] at hg
          rcases hg with hg | rfl
          · exact hapart g hg
          · exact hcard
  · cases ht

/-- `releaseRing` empties the ring, and `stop` ends. -/
theorem Owned.releaseRing (h : Owned s) (ht : s.step black .releaseRing = some t) : Owned t := by
  simp only [step] at ht
  split at ht
  · next starts hphase =>
    have hring : s.releaseRing.ring = none ∧ s.releaseRing.card = s.card ∧
        s.releaseRing.pixels = s.pixels ∧ s.releaseRing.frameBuffers = [] ∧
        ∀ ring ∈ s.releaseRing.retired, ring.closed = true := by
      unfold DeckLink.releaseRing
      split
      · next hnone =>
        refine ⟨hnone, rfl, rfl, h.noFrames hnone ?_, h.retired⟩
        rw [hphase]
        exact fun _ ↦ nofun
      · refine ⟨rfl, rfl, rfl, rfl, fun ring hr ↦ ?_⟩
        rcases List.mem_cons.mp hr with rfl | hr
        · rfl
        · exact h.retired ring hr
    obtain ⟨hring, hcard, hpixels, hbuffers, hretired⟩ := hring
    cases ht
    refine ⟨by rw [hcard]; exact h.card, by rw [hcard, hpixels]; exact h.shown, hretired,
      fun ring hr ↦ ?_, fun _ ↦ ?_, fun _ _ ↦ hbuffers, fun ring hr ↦ ?_, fun _ ↦ hring⟩
    · cases hring.symm.trans hr
    · cases starts <;> rfl
    · cases starts <;> cases hr
  · cases ht

/-- The device is open, and frames are about to be made. -/
theorem Owned.opened (h : Owned s) {ok : Bool} (ht : s.step black (.opened ok) = some t) :
    Owned t := by
  simp only [step] at ht
  split at ht
  · next hphase =>
    have hring := h.opening hphase
    have hfrom : ∀ ring, s.phase ≠ .building ring := by
      rw [hphase]
      exact fun _ ↦ nofun
    have hheld : s.held = none := h.noRing hring
    split at ht
    · cases ht
      refine ⟨h.card, h.shown, h.retired, fun ring hr ↦ (by rw [hring] at hr; cases hr),
        fun _ ↦ rfl, fun _ hno ↦ absurd rfl (hno {}), fun ring hr ↦ ?_, nofun⟩
      cases hr
      exact ⟨hring, ⟨rfl, List.nodup_nil, nofun, nofun⟩, (h.noFrames hring hfrom).symm, nofun⟩
    · cases ht
      exact h.control rfl rfl rfl rfl rfl hheld.symm hfrom (fun _ ↦ nofun) nofun
  · cases ht

/-- Every step keeps the frames owned. -/
theorem Owned.step (h : Owned s) {a : DeckLinkAction α β} (ht : s.step black a = some t) :
    Owned t := by
  cases a with
  | callStart =>
    simp only [DeckLink.step] at ht
    split at ht
    · next hphase =>
      cases ht
      exact h.plain hphase plain_of_idle (plain_of_stopping true) rfl rfl
    · cases ht
  | callStop =>
    simp only [DeckLink.step] at ht
    split at ht
    · next hphase =>
      cases ht
      exact h.plain hphase plain_of_idle (plain_of_stopping false) rfl rfl
    · cases ht
  | callSubmit video audio sameRaster =>
    simp only [DeckLink.step] at ht
    split at ht
    · next hphase =>
      split at ht
      · cases ht
        exact h
      · split at ht
        · cases ht
          exact h.plain hphase plain_of_idle (hphase.symm ▸ plain_of_idle) rfl rfl
        · cases ht
          exact h.plain hphase plain_of_idle (plain_of_acquiring _) rfl rfl
    · cases ht
  | stopCard =>
    simp only [DeckLink.step] at ht
    split at ht
    · next starts hphase =>
      cases ht
      exact h.plain hphase (plain_of_stopping starts) (plain_of_releasing starts) rfl rfl
    · cases ht
  | releaseRing => exact h.releaseRing ht
  | opened ok => exact h.opened ht
  | create frame => exact h.create ht
  | installed ok audio frameDuration timeScale =>
    simp only [DeckLink.step] at ht
    split at ht
    · next hphase =>
      split at ht
      · cases ht
        exact h.plain hphase plain_of_installing (plain_of_acquiring _) rfl rfl
      · cases ht
        exact h.plain hphase plain_of_installing (plain_of_stopping false) rfl rfl
    · cases ht
  | acquire => exact h.acquire ht
  | write accessible => exact h.write ht
  | schedule streamTime accepted => exact h.schedule ht
  | giveBack => exact h.giveBack ht
  | sound written =>
    simp only [DeckLink.step] at ht
    split at ht
    · next sampleRate hphase =>
      obtain ⟨⟨streamTime, playout⟩, -, ht⟩ := Option.bind_eq_some_iff.mp ht
      cases ht
      exact h.plain hphase (plain_of_sounding sampleRate) plain_of_idle rfl rfl
    · cases ht
  | started ok =>
    simp only [DeckLink.step] at ht
    split at ht
    · next hphase =>
      split at ht
      · cases ht
        exact h.plain hphase plain_of_starting plain_of_idle rfl rfl
      · cases ht
        exact h.plain hphase plain_of_starting (plain_of_stopping false) rfl rfl
    · cases ht
  | complete receiver frame result => exact h.complete ht
  | stray receiver frame result => exact h.stray ht

/-- Every frame is owned in every run. -/
theorem owned_of_reachable (h : (machine black).Reachable s) : Owned s := by
  refine h.invariant ?_ fun _ _ _ _ hs ht ↦ hs.step ht
  rintro _ ⟨preroll, ring, pixels, rfl⟩
  exact ⟨List.nodup_nil, nofun, nofun, fun _ ↦ nofun, fun _ ↦ rfl, fun _ _ ↦ rfl, fun _ ↦ nofun,
    nofun⟩

/-- The ring that the output has, or is making. -/
def HasRing (s : DeckLink α β) (ring : RecycleRing α) : Prop :=
  s.ring = some ring ∨ s.phase = .building ring

/-- The ring that `close` is about to be called on: by `stop`, or by `buildRing` giving up. -/
def Closing (s : DeckLink α β) (ring : RecycleRing α) : Prop :=
  (∃ starts, s.phase = .releasing starts) ∧ s.ring = some ring ∨ s.phase = .building ring

/-- In exactly one of the states free, held, and with the card. -/
def HasOneOwner (s : DeckLink α β) (slot : Slot α) : Prop :=
  (slot.free = true ∧ s.held ≠ some slot.item ∧ ¬ s.WithCard slot.item) ∨
  (slot.free = false ∧ s.held = some slot.item ∧ ¬ s.WithCard slot.item) ∨
  (slot.free = false ∧ s.held ≠ some slot.item ∧ s.WithCard slot.item)

/-- The frame is being written or scheduled. -/
def Touches (s : DeckLink α β) (f : α) : Prop :=
  ∃ job, s.phase = .writing job f ∨ s.phase = .scheduling job f

/-- What holds at every moment of a run. -/
structure FrameLaw (s : DeckLink α β) : Prop where
  owner : ∀ ring, s.HasRing ring → ∀ slot ∈ ring.slots, s.HasOneOwner slot
  different : ∀ ring, s.HasRing ring → ring.items.Nodup
  untouched : ∀ f, s.Touches f → ¬ s.WithCard f
  unwritten : ∀ f shown, (f, shown) ∈ s.card → s.pixels f = shown
  once : (s.card.map Prod.fst).Nodup
  closed : ∀ ring, s.Closing ring →
    ring.close.1.items = s.frameBuffers ∧ ring.close.1.items.Nodup ∧
      ring.close.1.outstanding =
        ((s.card.map Prod.fst).filter (· ∈ ring.close.1.items)).length

omit [DecidableEq α] in
/-- The owners of a ring frame. -/
theorem hasOneOwner_of_balanced {ring : RecycleRing α} (h : Balanced ring s.held s.WithCard)
    {slot : Slot α} (hslot : slot ∈ ring.slots) : s.HasOneOwner slot := by
  obtain ⟨f, free⟩ := slot
  have hhas : ring.Has f free := hslot
  cases free with
  | true =>
    have hnot : ¬ (s.held = some f ∨ s.WithCard f) := by
      rw [← h.inUse f hhas.mem_items]
      exact fun hno ↦ Bool.noConfusion (h.distinct.free_eq hhas hno)
    push Not at hnot
    exact .inl ⟨rfl, hnot⟩
  | false =>
    rcases (h.inUse f hhas.mem_items).mp hhas with hheld | hcard
    · exact .inr (.inl ⟨rfl, hheld, (h.apart f hheld).2⟩)
    · exact .inr (.inr ⟨rfl, fun hheld ↦ (h.apart f hheld).2 hcard, hcard⟩)

/-- Nothing is held at a `close`, so what is outstanding is what the card has. -/
theorem outstanding_eq_of_balanced {ring : RecycleRing α} (h : Balanced ring none s.WithCard)
    (hcard : (s.card.map Prod.fst).Nodup) :
    ring.close.1.outstanding =
      ((s.card.map Prod.fst).filter (· ∈ ring.close.1.items)).length := by
  apply h.distinct.outstanding_eq (hcard.filter _)
  intro f
  rw [List.mem_filter, List.mem_map, decide_eq_true_eq]
  constructor
  · rintro ⟨⟨⟨g, c⟩, hgc, rfl⟩, hmem⟩
    exact (h.inUse g hmem).mpr (.inr ⟨c, hgc⟩)
  · intro hhas
    obtain ⟨c, hfc⟩ := ((h.inUse f hhas.mem_items).mp hhas).resolve_left nofun
    exact ⟨⟨(f, c), hfc, rfl⟩, hhas.mem_items⟩

omit [DecidableEq α] in
/-- The ring that the output has or is making is balanced. -/
theorem Owned.balanced (h : Owned s) {ring : RecycleRing α} (hring : s.HasRing ring) :
    Balanced ring s.held s.WithCard ∧ ring.items = s.frameBuffers := by
  rcases hring with hring | hphase
  · exact h.ring ring hring
  · obtain ⟨-, hbal, hitems, -⟩ := h.building ring hphase
    have hheld : s.held = none := by rw [held, hphase]
    rw [hheld]
    exact ⟨hbal, hitems⟩

/-- Whoever calls, whatever the card refuses and whenever it completes a frame, each ring frame
has one owner, what the card has is neither written nor scheduled, and `close` returns every frame
once and counts those with the card. -/
theorem frame_ownership (h : (machine black).Reachable s) : s.FrameLaw := by
  have hown := owned_of_reachable h
  refine ⟨fun ring hring slot hslot ↦ hasOneOwner_of_balanced (hown.balanced hring).1 hslot,
    fun ring hring ↦ (hown.balanced hring).1.distinct, ?_, hown.shown, hown.card, ?_⟩
  · rintro f ⟨job, hphase⟩ hcard
    have hheld : s.held = some f := by
      rcases hphase with hphase | hphase <;> rw [held, hphase]
    cases hring : s.ring with
    | none =>
      rw [hown.noRing hring] at hheld
      cases hheld
    | some ring => exact ((hown.ring ring hring).1.apart f hheld).2 hcard
  · intro ring hclosing
    have hring : s.HasRing ring := hclosing.imp And.right id
    have hheld : s.held = none := by
      rcases hclosing with ⟨⟨starts, hphase⟩, -⟩ | hphase <;> rw [held, hphase]
    obtain ⟨hbal, hitems⟩ := hown.balanced hring
    rw [hheld] at hbal
    exact ⟨hitems, hbal.distinct, outstanding_eq_of_balanced hbal hown.card⟩

/-- A start with a preroll of two, a frame completed at once, one that the card refuses and one it
takes and keeps, and a stop. -/
theorem frame_ownership_kept :
    ∃ s : DeckLink Nat Nat, (machine 0).run
        (make 2 4 fun _ ↦ 7)
        [.callStart, .stopCard, .releaseRing, .opened true, .create (some 1), .create (some 2),
          .create (some 3), .create (some 4), .installed true true 1 25, .acquire, .write true,
          .schedule none true, .acquire, .write false, .schedule none true, .started true,
          .complete .current 1 .completed, .callSubmit 5 none true, .acquire, .write true,
          .schedule (some 0) false, .giveBack, .callSubmit 6 none true, .acquire, .write true,
          .schedule (some 0) true, .stray .current (some 9) .flushed, .callStop, .stopCard] =
        some s ∧
      s.card = [(1, 6), (2, 7)] ∧ s.FrameLaw := by
  obtain ⟨s, hrun, hcard⟩ : ∃ s : DeckLink Nat Nat, (machine 0).run
        (make 2 4 fun _ ↦ 7)
        [.callStart, .stopCard, .releaseRing, .opened true, .create (some 1), .create (some 2),
          .create (some 3), .create (some 4), .installed true true 1 25, .acquire, .write true,
          .schedule none true, .acquire, .write false, .schedule none true, .started true,
          .complete .current 1 .completed, .callSubmit 5 none true, .acquire, .write true,
          .schedule (some 0) false, .giveBack, .callSubmit 6 none true, .acquire, .write true,
          .schedule (some 0) true, .stray .current (some 9) .flushed, .callStop, .stopCard] =
        some s ∧ s.card = [(1, 6), (2, 7)] := ⟨_, rfl, rfl⟩
  have hinit : (machine 0).Reachable (make 2 4 fun _ : Nat ↦ 7) :=
    .init ⟨2, 4, _, rfl⟩
  exact ⟨s, hrun, hcard, frame_ownership (hinit.run _ hrun)⟩

end DeckLink
end WebLinked.Outputs
