import Mathlib
import WebLinked.Core.AudioPriming

/-!
# One read among the steps of the producer

Every call ends after a bounded number of its own steps, whatever the other side does. What a
read delivers is settled when it loads `write_`: it takes all it was asked for unless the level
falls short, or re-centring first brings the level down to a target below that.
-/

namespace WebLinked.Core.AudioRing

open WebLinked.Base

universe u

variable {α : Type u}

/-- The steps a `write` has left, at most. -/
def Producer.left : Producer α → Nat
  | .idle => 0
  | .indexed packet _ => packet.length + 4
  | .copying _ _ _ taken copied => taken - copied + 3
  | .stored _ _ => 2
  | .clearing => 1

/-- The steps a `read` has left, at most. -/
def Consumer.left : Consumer α → Nat
  | .idle => 0
  | .playing frames => frames + 4
  | .indexed frames _ => frames + 3
  | .copying _ _ _ taken dst => taken - dst.length + 2
  | .starved _ _ _ => 1

namespace State

variable [Zero α] {s t u : State α} {n : Nat}

/-- A write that is under way takes a step, and has fewer left. -/
theorem produce_progress (h : s.producer ≠ .idle) :
    ∃ t, s.produce = some t ∧ t.producer.left < s.producer.left ∧ t.consumer = s.consumer := by
  unfold State.produce
  cases hp : s.producer with
  | idle => exact absurd hp h
  | indexed packet write =>
    refine ⟨_, rfl, ?_, rfl⟩
    dsimp only
    split <;> simp only [Producer.left] <;> omega
  | copying packet write buffered taken copied =>
    dsimp only
    split
    · refine ⟨_, rfl, ?_, rfl⟩
      simp only [Producer.left]
      omega
    · refine ⟨_, rfl, ?_, rfl⟩
      simp only [Producer.left]
      omega
  | stored buffered taken =>
    refine ⟨_, rfl, ?_, rfl⟩
    dsimp only
    split <;> simp only [Producer.left] <;> omega
  | clearing => exact ⟨_, rfl, Nat.zero_lt_one, rfl⟩

omit [Zero α] in
/-- A read that is under way takes a step, and has fewer left. -/
theorem consume_progress (h : s.consumer ≠ .idle) :
    ∃ t, s.consume = some t ∧ t.consumer.left < s.consumer.left ∧ t.producer = s.producer := by
  unfold State.consume
  cases hc : s.consumer with
  | idle => exact absurd hc h
  | playing frames =>
    refine ⟨_, rfl, ?_, rfl⟩
    simp only [Consumer.left]
    omega
  | indexed frames read =>
    refine ⟨_, rfl, ?_, rfl⟩
    simp only [Consumer.left, List.length_nil]
    omega
  | copying frames skipped read taken dst =>
    dsimp only
    split
    · refine ⟨_, rfl, ?_, rfl⟩
      simp only [Consumer.left, List.length_append, List.length_singleton]
      omega
    split
    · refine ⟨_, rfl, ?_, rfl⟩
      simp only [Consumer.left]
      omega
    · refine ⟨_, rfl, ?_, rfl⟩
      simp only [Consumer.left]
      omega
  | starved skipped read dst => exact ⟨_, rfl, Nat.zero_lt_one, rfl⟩

/-- A read that is under way can be run to its end alone. -/
theorem consume_ends (s : State α) :
    ∃ k t, machine.run s (List.replicate k .consume) = some t ∧ t.consumer = .idle := by
  induction hn : s.consumer.left using Nat.strong_induction_on generalizing s with
  | _ n ih =>
    by_cases h : s.consumer = .idle
    · exact ⟨0, s, rfl, h⟩
    · obtain ⟨t, ht, hlt, -⟩ := consume_progress h
      obtain ⟨k, v, hrun, hidle⟩ := ih _ (hn ▸ hlt) t rfl
      refine ⟨k + 1, v, ?_, hidle⟩
      rw [List.replicate_succ, Machine.run]
      change (s.consume).bind _ = _
      rw [ht]
      exact hrun

/-- A read of `n` frames from its call in `s`, by its load of `write_` in `u`, to its return by
`t`; the producer takes any steps between. -/
structure ReadRun (n : Nat) (s u t : State α) : Prop where
  loads : ∃ before read, (∀ m, .read m ∉ before) ∧
    machine.run s (.read n :: before) = some u ∧ u.consumer = .indexed n read
  returns : ∃ after, (∀ m, .read m ∉ after) ∧
    machine.run u (.consume :: after) = some t ∧ t.consumer = .idle

/-- The read gave all it was asked for, in one piece of what was written, counted no underrun
and left the ring playing. -/
def Plays (n : Nat) (s t : State α) : Prop :=
  (∃ skipped dst, t.log = s.log ++ [(skipped, dst)] ∧ dst.length = n ∧ dst <:+: t.put) ∧
    t.ring.underruns = s.ring.underruns ∧ t.ring.priming = false

/-- Re-centring brings the level below what the read is asked for. -/
def Shrinks (n : Nat) (s : State α) : Prop :=
  0 < s.ring.target ∧ s.ring.target * 2 < s.ring.bufferedFrames ∧ s.ring.target < n

instance (n : Nat) (s : State α) : Decidable (Shrinks n s) := by
  unfold Shrinks
  infer_instance

/-- What the producer leaves as it is for a read. -/
structure Beside (s t : State α) : Prop where
  consumer : t.consumer = s.consumer
  log : t.log = s.log
  buffered : s.ring.bufferedFrames ≤ t.ring.bufferedFrames
  underruns : t.ring.underruns = s.ring.underruns
  priming : s.ring.priming = false → t.ring.priming = false

omit [Zero α] in
theorem Beside.refl (s : State α) : Beside s s := ⟨rfl, rfl, le_rfl, rfl, id⟩

/-- Each step of a `write` leaves a read alone. -/
theorem Inv.produce_beside (h : s.Inv) (ht : s.produce = some t) : Beside s t := by
  unfold State.produce at ht
  cases hp : s.producer with
  | idle =>
    rw [hp] at ht
    cases ht
  | indexed packet write =>
    rw [hp] at ht
    cases ht
    exact ⟨rfl, rfl, le_rfl, rfl, id⟩
  | copying packet write buffered taken copied =>
    have hok := h.producer
    rw [hp] at ht hok
    obtain ⟨rfl, -⟩ := hok
    dsimp only at ht
    split at ht
    · cases ht
      exact ⟨rfl, rfl, le_rfl, rfl, id⟩
    · cases ht
      refine ⟨rfl, rfl, ?_, rfl, id⟩
      simp only [bufferedFrames]
      omega
  | stored buffered taken =>
    rw [hp] at ht
    cases ht
    exact ⟨rfl, rfl, le_rfl, rfl, id⟩
  | clearing =>
    rw [hp] at ht
    cases ht
    exact ⟨rfl, rfl, le_rfl, rfl, fun _ ↦ rfl⟩

/-- Each step but those of a read leaves a read alone. -/
theorem Inv.step_beside (h : s.Inv) {a : Action α} (hr : ∀ m, a ≠ .read m) (hc : a ≠ .consume)
    (ht : s.step a = some t) : Beside s t := by
  cases a with
  | write packet =>
    rw [State.step] at ht
    split at ht
    · split at ht
      · cases ht
        exact .refl s
      · cases ht
        exact ⟨rfl, rfl, le_rfl, rfl, id⟩
    · cases ht
  | produce => exact h.produce_beside ht
  | read m => exact absurd rfl (hr m)
  | consume => exact absurd rfl hc

/-- A read of `n` frames that began in `s` has not loaded `write_`, or is past that. -/
def Loading (n : Nat) (s t : State α) : Prop :=
  match t.consumer with
  | .playing frames | .indexed frames _ =>
    frames = n ∧ t.log = s.log ∧ s.ring.bufferedFrames ≤ t.ring.bufferedFrames ∧
      t.ring.underruns = s.ring.underruns ∧ t.ring.priming = false
  | _ => True

/-- Until it loads `write_`, the level a read will find only rises. -/
theorem Loading.step (hl : Loading n s t) (h : t.Inv) {a : Action α} (hr : ∀ m, a ≠ .read m)
    (ht : t.step a = some u) : Loading n s u := by
  by_cases hc : a = .consume
  · subst hc
    rw [State.step, State.consume] at ht
    unfold Loading at hl ⊢
    cases hcons : t.consumer with
    | idle =>
      rw [hcons] at ht
      cases ht
    | playing frames =>
      rw [hcons] at ht hl
      cases ht
      exact hl
    | indexed frames read =>
      rw [hcons] at ht
      cases ht
      trivial
    | copying frames skipped read taken dst =>
      rw [hcons] at ht
      dsimp only at ht
      split at ht
      · cases ht
        trivial
      split at ht
      · cases ht
        trivial
      · cases ht
        trivial
    | starved skipped read dst =>
      rw [hcons] at ht
      cases ht
      trivial
  · have hb := h.step_beside hr hc ht
    unfold Loading at hl ⊢
    rw [hb.consumer]
    split at hl
    · exact ⟨hl.1, hb.log.trans hl.2.1, hl.2.2.1.trans hb.buffered, hb.underruns.trans hl.2.2.2.1,
        hb.priming hl.2.2.2.2⟩
    · exact ⟨hl.1, hb.log.trans hl.2.1, hl.2.2.1.trans hb.buffered, hb.underruns.trans hl.2.2.2.1,
        hb.priming hl.2.2.2.2⟩
    · trivial

/-- A read of `n` frames that found `taken`, since `s`, where it was about to load `write_`. -/
def Taking (n taken : Nat) (s t : State α) : Prop :=
  match t.consumer with
  | .copying frames _ _ taken' dst =>
    frames = n ∧ taken' = taken ∧ dst.length ≤ taken ∧ t.log = s.log ∧
      t.ring.underruns = s.ring.underruns ∧ t.ring.priming = false
  | .starved _ _ dst =>
    taken < n ∧ dst.length = taken ∧ t.log = s.log ∧
      t.ring.underruns = s.ring.underruns + 1
  | .idle =>
    (∃ skipped dst, t.log = s.log ++ [(skipped, dst)] ∧ dst.length = taken) ∧
      if taken < n then t.ring.underruns = s.ring.underruns + 1
      else t.ring.underruns = s.ring.underruns ∧ t.ring.priming = false
  | _ => False

/-- From there on the read goes its own way. -/
theorem Taking.step {taken : Nat} (hk : Taking n taken s t) (h : t.Inv) {a : Action α}
    (hr : ∀ m, a ≠ .read m) (ht : t.step a = some u) : Taking n taken s u := by
  by_cases hc : a = .consume
  · subst hc
    rw [State.step, State.consume] at ht
    unfold Taking at hk ⊢
    cases hcons : t.consumer with
    | idle =>
      rw [hcons] at ht
      cases ht
    | playing frames =>
      rw [hcons] at hk
      cases hk
    | indexed frames read =>
      rw [hcons] at hk
      cases hk
    | copying frames skipped read taken dst =>
      rw [hcons] at ht hk
      obtain ⟨rfl, rfl, hlen, hlog, hunder, hplay⟩ := hk
      dsimp only at ht
      split at ht
      · next hlt =>
        cases ht
        refine ⟨rfl, rfl, ?_, hlog, hunder, hplay⟩
        rw [List.length_append]
        exact hlt
      · have hall : dst.length = taken := by omega
        split at ht
        · next hshort =>
          cases ht
          exact ⟨hshort, hall, hlog, congrArg (· + 1) hunder⟩
        · next hfull =>
          cases ht
          refine ⟨⟨_, dst, congrArg (· ++ _) hlog, hall⟩, ?_⟩
          rw [if_neg hfull]
          exact ⟨hunder, hplay⟩
    | starved skipped read dst =>
      rw [hcons] at ht hk
      obtain ⟨hshort, hall, hlog, hunder⟩ := hk
      cases ht
      refine ⟨⟨_, dst, congrArg (· ++ _) hlog, hall⟩, ?_⟩
      rw [if_pos hshort]
      exact hunder
  · have hb := h.step_beside hr hc ht
    unfold Taking at hk ⊢
    rw [hb.consumer]
    split at hk
    · exact ⟨hk.1, hk.2.1, hk.2.2.1, hb.log.trans hk.2.2.2.1, hb.underruns.trans hk.2.2.2.2.1,
        hb.priming hk.2.2.2.2.2⟩
    · exact ⟨hk.1, hk.2.1, hb.log.trans hk.2.2.1, hb.underruns.trans hk.2.2.2⟩
    · obtain ⟨⟨skipped, dst, hlog, hlen⟩, hrest⟩ := hk
      refine ⟨⟨skipped, dst, hb.log.trans hlog, hlen⟩, ?_⟩
      split
      · next hshort =>
        rw [if_pos hshort] at hrest
        exact hb.underruns.trans hrest
      · next hfull =>
        rw [if_neg hfull] at hrest
        exact ⟨hb.underruns.trans hrest.1, hb.priming hrest.2⟩
    · exact hk

/-- What the steps of a read that has begun keep, a run without another read keeps. -/
theorem run_keeps {P : State α → Prop} (hstep : ∀ t u a, P t → t.Inv → (∀ m, a ≠ .read m) →
    t.step a = some u → P u) (as : List (Action α)) (hno : ∀ m, .read m ∉ as) (hp : P t)
    (h : t.Inv) (hrun : machine.run t as = some u) : P u ∧ u.Inv := by
  induction as generalizing t with
  | nil =>
    cases hrun
    exact ⟨hp, h⟩
  | cons a rest ih =>
    obtain ⟨v, hv, hrest⟩ := Option.bind_eq_some_iff.mp hrun
    have ha : ∀ m, a ≠ .read m := fun m heq ↦ hno m (heq ▸ List.mem_cons_self)
    exact ih (fun m hm ↦ hno m (List.mem_cons_of_mem a hm)) (hstep t v a hp h ha hv) (h.step hv)
      hrest

/-- A ring that has frames takes part in calls. -/
theorem usable_of_buffered (h : machine.Reachable s) (hn : 0 < s.ring.bufferedFrames) :
    s.ring.usable = true := by
  have hinv : s.ring.usable = true ∨ (s.producer = .idle ∧ s.ring.write = 0) := by
    refine h.invariant (I := fun s ↦ s.ring.usable = true ∨ (s.producer = .idle ∧ s.ring.write = 0))
      ?_ ?_
    · rintro s ⟨a, channels, sampleRate, capacityMs, targetMs, rfl⟩
      exact .inr ⟨rfl, rfl⟩
    · intro s a t _ hs ht
      rw [usable_step ht]
      obtain huse | ⟨hidle, hzero⟩ := hs
      · exact .inl huse
      by_cases huse : s.ring.usable = true
      · exact .inl huse
      refine .inr ?_
      cases a with
      | write packet =>
        change s.step (.write packet) = some t at ht
        rw [State.step, hidle] at ht
        dsimp only at ht
        rw [if_pos (.inr (by simpa using huse))] at ht
        cases ht
        exact ⟨hidle, hzero⟩
      | produce =>
        change s.produce = some t at ht
        rw [State.produce, hidle] at ht
        cases ht
      | read frames =>
        simp only [machine, State.step] at ht
        split at ht
        · split at ht
          · cases ht
            exact ⟨hidle, hzero⟩
          split at ht <;> cases ht <;> exact ⟨hidle, hzero⟩
        · cases ht
      | consume =>
        simp only [machine, State.step, State.consume] at ht
        split at ht
        · cases ht
        · cases ht
          exact ⟨hidle, hzero⟩
        · cases ht
          exact ⟨hidle, hzero⟩
        · split at ht
          · cases ht
            exact ⟨hidle, hzero⟩
          split at ht <;> cases ht <;> exact ⟨hidle, hzero⟩
        · cases ht
          exact ⟨hidle, hzero⟩
  obtain huse | ⟨-, hzero⟩ := hinv
  · exact huse
  · rw [bufferedFrames, hzero] at hn
    omega

/-- The call of a read of a ring that plays. -/
theorem step_read (huse : s.ring.usable = true) (hidle : s.consumer = .idle)
    (hplay : s.ring.priming = false) (hn : 0 < n) :
    s.step (.read n) = some { s with consumer := .playing n } := by
  have hgo : ¬ ((n : Int) ≤ 0 ∨ (!s.ring.usable) = true) := by
    rw [huse]
    simp
    omega
  rw [State.step, hidle]
  dsimp only
  rw [if_neg hgo, hplay]
  rfl

/-- At its load of `write_` a read settles how much it takes. -/
theorem taking_of_load (h : u.Inv) (hl : Loading n s u) {read : Nat} {v : State α}
    (hat : u.consumer = .indexed n read) (hbuf : n ≤ s.ring.bufferedFrames)
    (hv : u.step .consume = some v) :
    Taking n (if u.Shrinks n then u.ring.target else n) s v := by
  have hok := h.consumer
  rw [hat] at hok
  obtain ⟨-, rfl⟩ := hok
  unfold Loading at hl
  rw [hat] at hl
  obtain ⟨-, hlog, hrise, hunder, hplay⟩ := hl
  rw [State.step, State.consume, hat] at hv
  cases hv
  refine ⟨rfl, ?_, Nat.zero_le _, hlog, hunder, hplay⟩
  have hlevel : n ≤ u.ring.write - u.ring.read := hbuf.trans hrise
  have hiff : u.Shrinks n ↔ 0 < u.ring.target ∧
      u.ring.target * 2 < u.ring.write - u.ring.read ∧ u.ring.target < n := Iff.rfl
  by_cases hshrinks : u.Shrinks n
  · rw [if_pos hshrinks]
    rw [hiff] at hshrinks
    simp only [decide_eq_true_eq]
    split <;> omega
  · rw [if_neg hshrinks]
    rw [hiff] at hshrinks
    simp only [decide_eq_true_eq]
    split <;> omega

/-- Every read of a ring that plays and holds what the read asks for returns, and it gives all
of that, counts no underrun and keeps the ring playing, if and only if re-centring does not
bring the level below what was asked for. -/
theorem read_plays_iff (hs : machine.Reachable s) (hidle : s.consumer = .idle)
    (hplay : s.ring.priming = false) (hn : 0 < n) (hbuf : n ≤ s.ring.bufferedFrames) :
    (∃ u t, ReadRun n s u t) ∧ ∀ u t, ReadRun n s u t → (Plays n s t ↔ ¬ u.Shrinks n) := by
  have huse := usable_of_buffered hs (hn.trans_le hbuf)
  have hcall := step_read huse hidle hplay hn
  have hinv := inv_of_reachable hs
  constructor
  · obtain ⟨k, t, hrun, hend⟩ := consume_ends { s with consumer := .indexed n s.ring.read }
    have hreturns : k ≠ 0 := by
      rintro rfl
      cases hrun
      cases hend
    obtain ⟨k, rfl⟩ := Nat.exists_eq_succ_of_ne_zero hreturns
    refine ⟨_, t, ⟨⟨[.consume], s.ring.read, by simp, ?_, rfl⟩,
      ⟨List.replicate k .consume, by simp, hrun, hend⟩⟩⟩
    rw [Machine.run]
    change (s.step (.read n)).bind _ = _
    rw [hcall]
    rfl
  · rintro u t ⟨⟨before, read, hbefore, hload, hat⟩, ⟨after, hafter, hrun, hend⟩⟩
    obtain ⟨w, hw, hload⟩ := Option.bind_eq_some_iff.mp hload
    rw [show machine.step s (.read n) = s.step (.read n) from rfl, hcall] at hw
    cases hw
    have hbegun : Inv { s with consumer := .playing n } := hinv.step hcall
    have hloading : Loading n s { s with consumer := .playing n } := ⟨rfl, rfl, le_rfl, rfl, hplay⟩
    obtain ⟨hl, hu⟩ := run_keeps (P := Loading n s) (fun _ _ _ hl h hr ht ↦ hl.step h hr ht) before
      hbefore hloading hbegun hload
    obtain ⟨v, hv, hrun⟩ := Option.bind_eq_some_iff.mp hrun
    have hv : u.step .consume = some v := hv
    have hk := taking_of_load hu hl hat hbuf hv
    obtain ⟨hk, ht⟩ := run_keeps (P := Taking n _ s) (fun _ _ _ hk h hr ht ↦ hk.step h hr ht) after
      hafter hk (hu.step hv) hrun
    unfold Taking at hk
    rw [hend] at hk
    obtain ⟨⟨skipped, dst, hlog, hlen⟩, hrest⟩ := hk
    constructor
    · rintro ⟨⟨skipped', dst', hlog', hlen', -⟩, -, -⟩ hshrinks
      have hsame := List.append_cancel_left (hlog.symm.trans hlog')
      rw [if_pos hshrinks] at hlen
      cases hsame
      have := hshrinks.2.2
      omega
    · intro hno
      rw [if_neg hno] at hlen hrest
      rw [if_neg (Nat.lt_irrefl n)] at hrest
      have hpiece := ht.lawful.delivered.2 (skipped, dst) (by rw [hlog]; simp)
      exact ⟨⟨skipped, dst, hlog, hlen, hpiece⟩, hrest⟩

/-- A ring that was filled to twice its target gives a read all of it. -/
theorem read_plays_full : ∃ s u t : State Int,
    machine.run { ring := fresh.configure 1 1000 4 1 }
      [.write [1, 2], .produce, .produce, .produce, .produce, .produce, .produce] = some s ∧
      ReadRun 2 s u t ∧ Plays 2 s t := by
  have hinit : machine.Reachable { ring := fresh.configure 1 1000 4 1 } :=
    .init ⟨fresh, 1, 1000, 4, 1, rfl⟩
  obtain ⟨s, hrun, hidle, hplay, hbuf, u, t, hread, hkeeps⟩ : ∃ s : State Int,
      machine.run { ring := fresh.configure 1 1000 4 1 }
        [.write [1, 2], .produce, .produce, .produce, .produce, .produce, .produce] = some s ∧
        s.consumer = .idle ∧ s.ring.priming = false ∧ 2 ≤ s.ring.bufferedFrames ∧
        ∃ u t, ReadRun 2 s u t ∧ ¬ u.Shrinks 2 := by
    refine ⟨_, rfl, rfl, rfl, by decide, _, _, ⟨⟨[.consume], 0, by simp, rfl, rfl⟩,
      ⟨[.consume, .consume, .consume], by simp, rfl, rfl⟩⟩, by decide⟩
  exact ⟨s, u, t, hrun, hread,
    ((read_plays_iff (hinit.run _ hrun) hidle hplay (by decide) hbuf).2 u t hread).mpr hkeeps⟩

/-- Three frames are there, two are asked for, and one is given. -/
theorem not_read_plays : ¬ ∀ s : State Int, machine.Reachable s → s.consumer = .idle →
    s.ring.priming = false → ∀ n, 0 < n → n ≤ s.ring.bufferedFrames →
      ∀ u t, ReadRun n s u t → Plays n s t := by
  intro h
  have hinit : machine.Reachable { ring := fresh.configure 1 1000 4 1 } :=
    .init ⟨fresh, 1, 1000, 4, 1, rfl⟩
  obtain ⟨s, hrun, hidle, hplay, hbuf, u, t, hread, hlog⟩ : ∃ s : State Int,
      machine.run { ring := fresh.configure 1 1000 4 1 }
        [.write [1, 2, 3], .produce, .produce, .produce, .produce, .produce, .produce,
          .produce] = some s ∧ s.consumer = .idle ∧ s.ring.priming = false ∧
        2 ≤ s.ring.bufferedFrames ∧ ∃ u t, ReadRun 2 s u t ∧ t.log = s.log ++ [([1, 2], [3])] := by
    refine ⟨_, rfl, rfl, rfl, by decide, _, _, ⟨⟨[.consume], 0, by simp, rfl, rfl⟩,
      ⟨[.consume, .consume, .consume], by simp, rfl, rfl⟩⟩, rfl⟩
  obtain ⟨⟨skipped, dst, hlog', hlen, -⟩, -⟩ := h s (hinit.run _ hrun) hidle hplay 2 (by decide) hbuf
    u t hread
  cases List.append_cancel_left (hlog.symm.trans hlog')
  cases hlen

end State
end WebLinked.Core.AudioRing
