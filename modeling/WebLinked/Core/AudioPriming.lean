import Mathlib
import WebLinked.Core.AudioRingRuns

/-!
# When the ring sticks in priming

A read that found the ring empty says so by setting `priming_`, and a write clears it once it
has stored enough. A write that finds no room returns before it looks. So a ring that is
filled between the two steps of such a read, by a write that has already looked, is full and
priming, and no side ever touches it again.
-/

namespace WebLinked.Core.AudioRing

open WebLinked.Base

universe u

variable {α : Type u}

/-- The next step of the read sets `priming_`, and it took nothing. -/
def Consumer.emptyHanded : Consumer α → Bool
  | .copying frames _ _ taken _ => taken = 0 && 0 < frames
  | _ => false

/-- The producer is outside a call, or has not yet looked for room. -/
def Producer.beforeStore : Producer α → Bool
  | .idle | .indexed .. => true
  | _ => false

namespace State

variable [Zero α]

/-- The ring is full, and a read that found it empty is about to set `priming_` after the last
write that would have cleared it. -/
def Jams (s : State α) : Prop :=
  s.consumer.emptyHanded = true ∧ s.producer.beforeStore = true ∧
    s.ring.write = s.ring.read + s.ring.capacity

/-- No read sets `priming_` so late. -/
def Timely (s : State α) : Action α → Prop
  | .consume => ¬ s.Jams
  | _ => True

instance : DecidableRel (Timely (α := α)) := fun s a ↦ by
  cases a <;> unfold Timely <;> unfold Jams <;> infer_instance

/-- A write has stored, and will look at `priming_`. -/
def Pending (s : State α) : Prop :=
  s.producer = .clearing ∨ ∃ buffered taken, s.producer = .stored buffered taken

/-- A read has set `priming_`, and will make room. -/
def Draining (s : State α) : Prop :=
  ∃ skipped read dst, s.consumer = .starved skipped read dst ∧ dst ≠ []

/-- A full ring that is priming has a side that will end that. -/
structure Unstuck (s : State α) : Prop where
  target_le : s.ring.target ≤ s.ring.capacity
  ends : s.ring.priming = true → s.ring.write = s.ring.read + s.ring.capacity →
    s.Pending ∨ s.Draining

variable {s t : State α}

omit [Zero α] in
/-- Half the capacity is no more than it. -/
theorem toNat_clamp_le {value capacityFrames : Int} (h : 0 < capacityFrames) :
    (clamp value 0 (max (capacityFrames.tdiv 2) 0)).toNat ≤ capacityFrames.toNat := by
  rw [Int.tdiv_eq_ediv_of_nonneg (Int.le_of_lt h), clamp]
  split
  · omega
  split <;> omega

/-- A ring that was just configured and has room for a frame. -/
theorem unstuck_init (h : machine.init s) (huse : s.ring.usable = true) : s.Unstuck := by
  obtain ⟨a, channels, sampleRate, capacityMs, targetMs, rfl⟩ := h
  simp only [usable, Bool.and_eq_true, decide_eq_true_eq] at huse
  refine ⟨toNat_clamp_le huse.2, fun _ hfull ↦ ?_⟩
  have hcap : 0 < (a.configure channels sampleRate capacityMs targetMs).capacity := by
    unfold capacity
    omega
  have hzero : 0 = 0 + (a.configure channels sampleRate capacityMs targetMs).capacity := hfull
  omega

/-- A `write` ends the priming of a ring it finds full, or leaves a ring that is not. -/
theorem Unstuck.produce (h : s.Unstuck) (hi : s.Inv) (ht : s.produce = some t) : t.Unstuck := by
  unfold State.produce at ht
  cases hp : s.producer with
  | idle =>
    rw [hp] at ht
    cases ht
  | indexed packet write =>
    rw [hp] at ht
    cases ht
    refine ⟨h.target_le, fun hprime hfull ↦ ?_⟩
    obtain hpend | hdrain := h.ends hprime hfull
    · obtain hpend | ⟨_, _, hpend⟩ := hpend <;>
        · rw [hp] at hpend
          cases hpend
    · exact .inr hdrain
  | copying packet write buffered taken copied =>
    rw [hp] at ht
    dsimp only at ht
    split at ht
    · cases ht
      refine ⟨h.target_le, fun hprime hfull ↦ ?_⟩
      have hok := hi.producer
      rw [hp] at hok
      obtain ⟨-, hpos, -, -, -, -, hroom, -⟩ := hok
      dsimp only [capacity] at hfull hroom
      omega
    · cases ht
      exact ⟨h.target_le, fun _ _ ↦ .inl (.inr ⟨buffered, taken, rfl⟩)⟩
  | stored buffered taken =>
    rw [hp] at ht
    cases ht
    refine ⟨h.target_le, fun hprime hfull ↦ .inl (.inl ?_)⟩
    have hok := hi.producer
    rw [hp] at hok
    have htarget := h.target_le
    dsimp only [ProducerOk] at hok hfull ⊢
    rw [if_pos ⟨hprime, by omega⟩]
  | clearing =>
    rw [hp] at ht
    cases ht
    exact ⟨h.target_le, nofun⟩

/-- So does a `read` that is not late. -/
theorem Unstuck.consume (h : s.Unstuck) (hi : s.Inv) (hg : ¬ s.Jams) (ht : s.consume = some t) :
    t.Unstuck := by
  have hok := hi.consumer
  have hwrite := hi.write_le
  -- A side that has not started to drain leaves it to a write.
  have hpending : (∀ skipped read dst, s.consumer ≠ .starved skipped read dst) →
      s.ring.priming = true → s.ring.write = s.ring.read + s.ring.capacity → s.Pending := by
    intro hnot hprime hfull
    obtain hpend | ⟨skipped, read, dst, hc, -⟩ := h.ends hprime hfull
    · exact hpend
    · exact absurd hc (hnot skipped read dst)
  unfold State.consume at ht
  cases hc : s.consumer with
  | idle =>
    rw [hc] at ht
    cases ht
  | playing frames =>
    rw [hc] at ht
    cases ht
    exact ⟨h.target_le, fun hprime hfull ↦ .inl (hpending (by rw [hc]; nofun) hprime hfull)⟩
  | indexed frames read =>
    rw [hc] at ht
    cases ht
    exact ⟨h.target_le, fun hprime hfull ↦ .inl (hpending (by rw [hc]; nofun) hprime hfull)⟩
  | copying frames skipped read taken dst =>
    rw [hc] at ht hok
    obtain ⟨hframes, hle, hnone, rfl, hto, hdst, -⟩ := hok
    dsimp only at ht
    split at ht
    · cases ht
      exact ⟨h.target_le, fun hprime hfull ↦ .inl (hpending (by rw [hc]; nofun) hprime hfull)⟩
    split at ht
    · cases ht
      refine ⟨h.target_le, fun _ hfull ↦ ?_⟩
      by_cases hempty : taken = 0
      · left
        have hbusy : s.producer.beforeStore ≠ true := by
          refine fun hbefore ↦ hg ⟨?_, hbefore, hfull⟩
          rw [hc]
          simp [Consumer.emptyHanded, hempty, hframes]
        cases hp : s.producer with
        | copying packet write buffered taken' copied =>
          have hpo := hi.producer
          rw [hp] at hpo
          obtain ⟨-, hpos, -, -, -, -, hroom, -⟩ := hpo
          dsimp only [capacity] at hfull hroom
          omega
        | stored buffered taken' => exact .inr ⟨buffered, taken', rfl⟩
        | clearing => exact .inl rfl
        | _ =>
          rw [hp] at hbusy
          exact absurd rfl hbusy
      · right
        refine ⟨skipped, _, dst, rfl, ?_⟩
        rintro rfl
        rw [List.length_nil] at hdst
        dsimp only [List.length_nil] at *
        omega
    · cases ht
      refine ⟨h.target_le, fun _ hfull ↦ ?_⟩
      dsimp only [capacity] at hfull hwrite
      omega
  | starved skipped read dst =>
    rw [hc] at ht hok
    obtain ⟨hnone, rfl, hto, -⟩ := hok
    cases ht
    refine ⟨h.target_le, fun hprime hfull ↦ .inl ?_⟩
    dsimp only [capacity] at hfull hwrite
    obtain rfl : dst = [] := by
      apply List.eq_nil_of_length_eq_zero
      omega
    obtain rfl := hnone rfl
    obtain hpend | ⟨_, _, dst, hdrain, hne⟩ := h.ends hprime hfull
    · exact hpend
    · rw [hc] at hdrain
      cases hdrain
      exact absurd rfl hne

/-- Every timely step keeps a ring unstuck. -/
theorem Unstuck.step (h : s.Unstuck) (hi : s.Inv) {a : Action α} (hg : s.Timely a)
    (ht : s.step a = some t) : t.Unstuck := by
  cases a with
  | write packet =>
    rw [State.step] at ht
    split at ht
    · next hp =>
      split at ht
      · cases ht
        exact h
      · cases ht
        refine ⟨h.target_le, fun hprime hfull ↦ ?_⟩
        obtain hpend | hdrain := h.ends hprime hfull
        · obtain hpend | ⟨_, _, hpend⟩ := hpend <;>
            · rw [hp] at hpend
              cases hpend
        · exact .inr hdrain
    · cases ht
  | produce => exact h.produce hi ht
  | read frames =>
    rw [State.step] at ht
    split at ht
    · next hc =>
      split at ht
      · cases ht
        exact h
      split at ht
      · cases ht
        exact h
      · next hprime =>
        cases ht
        exact ⟨h.target_le, fun hp ↦ absurd hp hprime⟩
    · cases ht
  | consume => exact h.consume hi hg ht

/-- No call configures the ring. -/
theorem usable_step {a : Action α} (ht : s.step a = some t) : t.ring.usable = s.ring.usable := by
  cases a with
  | write packet =>
    rw [State.step] at ht
    split at ht
    · split at ht <;> cases ht <;> rfl
    · cases ht
  | produce =>
    rw [State.step, State.produce] at ht
    split at ht
    · cases ht
    · cases ht
      rfl
    · split at ht <;> cases ht <;> rfl
    · cases ht
      rfl
    · cases ht
      rfl
  | read frames =>
    rw [State.step] at ht
    split at ht
    · split at ht
      · cases ht
        rfl
      split at ht <;> cases ht <;> rfl
    · cases ht
  | consume =>
    rw [State.step, State.consume] at ht
    split at ht
    · cases ht
    · cases ht
      rfl
    · cases ht
      rfl
    · split at ht
      · cases ht
        rfl
      split at ht <;> cases ht <;> rfl
    · cases ht
      rfl

theorem unstuck_of_timely (h : machine.ReachableUnder Timely s) (huse : s.ring.usable = true) :
    s.Unstuck := by
  refine (h.invariant (I := fun s ↦ s.Inv ∧ (s.ring.usable = true → s.Unstuck))
    (fun s hs ↦ ⟨inv_init hs, unstuck_init hs⟩) fun s a t hg hs ht ↦ ⟨hs.1.step ht, fun hu ↦ ?_⟩).2
    huse
  rw [usable_step ht] at hu
  exact (hs.2 hu).step hs.1 hg ht

/-- The copies of a write that none interrupts. -/
theorem run_copies {packet : List α} {write buffered taken copied k : Nat}
    (hp : s.producer = .copying packet write buffered taken copied) (hk : copied + k = taken) :
    ∃ buffer, machine.run s (List.replicate k .produce) =
      some { s with
        ring := { s.ring with buffer }
        producer := .copying packet write buffered taken taken } := by
  induction k generalizing s copied with
  | zero =>
    obtain rfl : copied = taken := hk
    exact ⟨s.ring.buffer, by rw [← hp]; rfl⟩
  | succ k ih =>
    have hstep : machine.step s .produce = some { s with
        ring := { s.ring with
          buffer := Function.update s.ring.buffer (slot s.ring.capacity write taken copied)
            (packet.getD copied 0) }
        producer := .copying packet write buffered taken (copied + 1) } := by
      change s.produce = _
      rw [State.produce, hp]
      exact if_pos (by omega)
    rw [List.replicate_succ, Machine.run, hstep, Option.bind_some]
    exact ih rfl (by omega)

/-- The rest of a write whose frames are all copied in: it stores, looks at `priming_` and
clears it. -/
theorem run_store {packet : List α} {write buffered taken : Nat}
    (hp : s.producer = .copying packet write buffered taken taken)
    (hprime : s.ring.priming = true) (htarget : s.ring.target ≤ buffered + taken) :
    ∃ t, machine.run s (List.replicate 3 .produce) = some t ∧ t.producer = .idle ∧
      t.ring.priming = false := by
  have hstore : machine.step s .produce = some { s with
      ring := { s.ring with
        write := write + taken, framesWritten := s.ring.framesWritten + taken }
      producer := .stored buffered taken
      put := s.put ++ packet.take taken } := by
    change s.produce = _
    rw [State.produce, hp]
    exact if_neg (by omega)
  rw [List.replicate_succ, Machine.run, hstore, Option.bind_some]
  have hlook : machine.step { s with
      ring := { s.ring with
        write := write + taken, framesWritten := s.ring.framesWritten + taken }
      producer := .stored buffered taken
      put := s.put ++ packet.take taken } .produce = some { s with
      ring := { s.ring with
        write := write + taken, framesWritten := s.ring.framesWritten + taken }
      producer := .clearing
      put := s.put ++ packet.take taken } := by
    change some _ = some _
    congr 2
    exact if_pos ⟨hprime, htarget⟩
  rw [List.replicate_succ, Machine.run, hlook, Option.bind_some]
  exact ⟨_, rfl, rfl, rfl⟩

/-- A write of that packet, alone from here on, ends with `priming_` clear. -/
def Clears (s : State α) (packet : List α) : Prop :=
  ∃ n t, machine.run s (.write packet :: List.replicate n .produce) = some t ∧
    t.producer = .idle ∧ t.ring.priming = false

/-- Where there is room, a write to a ring that holds its target clears `priming_`. -/
theorem clears_of_room (huse : s.ring.usable = true) (hrest : s.AtRest)
    (hprime : s.ring.priming = true) (htarget : s.ring.target ≤ s.ring.bufferedFrames)
    (hroom : s.ring.bufferedFrames < s.ring.capacity) {packet : List α} (hne : packet ≠ []) :
    s.Clears packet := by
  have hlen := List.length_pos_iff.mpr hne
  obtain ⟨taken, htaken⟩ :
      ∃ taken, min packet.length (s.ring.capacity - s.ring.bufferedFrames) = taken :=
    ⟨_, rfl⟩
  have hwrite : machine.step s (.write packet) =
      some { s with producer := .indexed packet s.ring.write } := by
    change s.step (.write packet) = _
    rw [State.step, hrest.1]
    exact if_neg (by simp [hne, huse])
  have hlook : machine.step { s with producer := .indexed packet s.ring.write } .produce =
      some { s with
        ring := { s.ring with
          overruns := if taken < packet.length then s.ring.overruns + 1 else s.ring.overruns }
        producer := .copying packet s.ring.write s.ring.bufferedFrames taken 0 } := by
    subst htaken
    have hsome : ¬ min packet.length (s.ring.capacity - s.ring.bufferedFrames) = 0 := by omega
    change some _ = some _
    congr 2
    exact if_neg hsome
  obtain ⟨buffer, hcopies⟩ := run_copies (s := { s with
    ring := { s.ring with
      overruns := if taken < packet.length then s.ring.overruns + 1 else s.ring.overruns }
    producer := .copying packet s.ring.write s.ring.bufferedFrames taken 0 }) rfl
    (Nat.zero_add taken)
  obtain ⟨t, hstore, hidle, hclear⟩ := run_store (s := { s with
    ring := { s.ring with
      overruns := if taken < packet.length then s.ring.overruns + 1 else s.ring.overruns
      buffer }
    producer := .copying packet s.ring.write s.ring.bufferedFrames taken taken }) rfl hprime
    (by dsimp only [AudioRing.target] at htarget ⊢; omega)
  refine ⟨1 + (taken + 3), t, ?_, hidle, hclear⟩
  rw [Machine.run, hwrite, Option.bind_some, List.replicate_add, Machine.run_append,
    List.replicate_one, Machine.run, hlook, Option.bind_some, Machine.run, Option.bind_some,
    List.replicate_add, Machine.run_append, hcopies, Option.bind_some]
  exact hstore

/-- A full ring that is priming with neither side about to end that. -/
structure Jammed (s : State α) : Prop where
  priming : s.ring.priming = true
  full : s.ring.write = s.ring.read + s.ring.capacity
  producer : s.producer.beforeStore = true
  consumer : s.consumer = .idle ∨ s.consumer = .starved 0 s.ring.read []

/-- The step that the condition excludes jams the ring. -/
theorem jammed_of_jams (hi : s.Inv) (hj : s.Jams) (ht : s.consume = some t) : t.Jammed := by
  obtain ⟨hempty, hbefore, hfull⟩ := hj
  have hok := hi.consumer
  cases hc : s.consumer with
  | copying frames skipped read taken dst =>
    rw [hc] at hempty hok
    obtain ⟨hframes, -, hnone, rfl, -, hdst, -⟩ := hok
    simp only [Consumer.emptyHanded, Bool.and_eq_true, decide_eq_true_eq] at hempty
    obtain ⟨rfl, -⟩ := hempty
    obtain rfl := hnone rfl
    obtain rfl : dst = [] := List.eq_nil_of_length_eq_zero (by omega)
    rw [State.consume, hc] at ht
    dsimp only at ht
    rw [if_neg (show ¬ ([] : List α).length < 0 from Nat.lt_irrefl 0), if_pos hframes] at ht
    cases ht
    exact ⟨rfl, hfull, hbefore, .inr rfl⟩
  | _ =>
    rw [hc] at hempty
    cases hempty

/-- Nothing either side does ends a jam. -/
theorem Jammed.step (h : s.Jammed) (hi : s.Inv) {a : Action α} (ht : s.step a = some t) :
    t.Jammed := by
  cases a with
  | write packet =>
    rw [State.step] at ht
    split at ht
    · split at ht
      · cases ht
        exact h
      · cases ht
        exact { h with producer := rfl }
    · cases ht
  | produce =>
    have hok := hi.producer
    have hbefore := h.producer
    rw [State.step, State.produce] at ht
    cases hp : s.producer with
    | idle =>
      rw [hp] at ht
      cases ht
    | indexed packet write =>
      rw [hp] at ht hok
      obtain ⟨-, -, rfl⟩ := hok
      have hfull := h.full
      cases ht
      refine { h with producer := ?_ }
      dsimp only
      rw [if_pos (by omega)]
      rfl
    | _ =>
      rw [hp] at hbefore
      cases hbefore
  | read frames =>
    rw [State.step] at ht
    split at ht
    · split at ht
      · cases ht
        exact h
      · rw [if_pos h.priming] at ht
        cases ht
        exact h
    · cases ht
  | consume =>
    rw [State.step, State.consume] at ht
    obtain hc | hc := h.consumer
    · rw [hc] at ht
      cases ht
    · rw [hc] at ht
      cases ht
      exact ⟨h.priming, h.full, h.producer, .inl rfl⟩

theorem Jammed.run (h : s.Jammed) (hi : s.Inv) (as : List (Action α))
    (ht : machine.run s as = some t) : t.Jammed :=
  (Machine.run_persists (B := fun s ↦ s.Inv ∧ s.Jammed)
    (fun _ _ _ hs hstep ↦ ⟨hs.1.step hstep, hs.2.step hs.1 hstep⟩) as ⟨hi, h⟩ ht).2

/-- In every run whose reads are all timely, one further write clears `priming_` whenever both
sides are at rest and the ring holds its target; and after the first read that is not, the
ring stays full and priming whatever is called. -/
theorem clears_while_timely (h : machine.ReachableUnder Timely s) (huse : s.ring.usable = true) :
    (s.AtRest → s.ring.priming = true → s.ring.target ≤ s.ring.bufferedFrames →
      ∀ packet, packet ≠ [] → s.Clears packet) ∧
    ∀ t, ¬ Timely s .consume → s.step .consume = some t →
      ∀ as u, machine.run t as = some u →
        u.ring.priming = true ∧ u.ring.bufferedFrames = u.ring.capacity := by
  have hi := inv_of_reachable h.reachable
  constructor
  · intro hrest hprime htarget packet hne
    refine clears_of_room huse hrest hprime htarget ?_ hne
    have hread := hi.read_le
    have hwrite := hi.write_le
    have hnot : s.ring.write ≠ s.ring.read + s.ring.capacity := by
      intro hfull
      obtain hpend | ⟨_, _, _, hdrain, -⟩ := (unstuck_of_timely h huse).ends hprime hfull
      · obtain hpend | ⟨_, _, hpend⟩ := hpend <;>
          · rw [hrest.1] at hpend
            cases hpend
      · rw [hrest.2] at hdrain
        cases hdrain
    unfold bufferedFrames
    omega
  · intro t hlate ht as u hu
    have hjam := (jammed_of_jams hi (not_not.mp hlate) ht).run (hi.consume ht) as hu
    have hfull := hjam.full
    refine ⟨hjam.priming, ?_⟩
    unfold bufferedFrames
    omega

/-- A ring of two frames that aims to hold one sticks: a read finds it empty, two frames are
put in by a write that sees it playing, and the read sets `priming_`. -/
theorem not_clears :
    ¬ ∀ s : State Int, machine.Reachable s → s.ring.usable = true → s.AtRest →
      s.ring.priming = true → s.ring.target ≤ s.ring.bufferedFrames →
        ∀ packet, packet ≠ [] → s.Clears packet := by
  intro h
  have hinit : machine.Reachable { ring := fresh.configure 1 1000 2 1 } :=
    .init ⟨fresh, 1, 1000, 2, 1, rfl⟩
  obtain ⟨s, hrun, huse, hp, hc, hprime, hfull, htarget⟩ :
      ∃ s, machine.run { ring := fresh.configure 1 1000 2 1 }
        [.write [1], .produce, .produce, .produce, .produce, .produce, .read 1, .consume,
          .consume, .consume, .consume, .read 1, .consume, .consume, .write [2, 3], .produce,
          .produce, .produce, .produce, .produce, .consume, .consume] = some s ∧
      s.ring.usable = true ∧ s.producer = .idle ∧ s.consumer = .idle ∧
      s.ring.priming = true ∧ s.ring.write = s.ring.read + s.ring.capacity ∧
      s.ring.target ≤ s.ring.bufferedFrames :=
    ⟨_, rfl, rfl, rfl, rfl, rfl, rfl, by decide⟩
  have hreach := hinit.run _ hrun
  obtain ⟨n, t, ht, -, hclear⟩ := h s hreach huse ⟨hp, hc⟩ hprime htarget [4] (by decide)
  have hjam : s.Jammed := ⟨hprime, hfull, by rw [hp]; rfl, .inl hc⟩
  have := (hjam.run (inv_of_reachable hreach) _ ht).priming
  rw [hclear] at this
  cases this

/-- With room for more than the write put in, the next write ends the priming. -/
theorem clears_while_timely_room :
    ∃ s, machine.runUnder Timely { ring := fresh.configure 1 1000 4 1 }
        ([.write [1]] ++ List.replicate 5 .produce ++ [.read 1] ++ List.replicate 4 .consume ++
          [.read 1, .consume, .consume, .write [2, 3]] ++ List.replicate 5 .produce ++
          [.consume, .consume]) = some s ∧ s.ring.priming = true ∧ s.Clears [4] := by
  have hinit : machine.ReachableUnder Timely { ring := fresh.configure 1 1000 4 1 } :=
    .init ⟨fresh, 1, 1000, 4, 1, rfl⟩
  obtain ⟨s, hrun, huse, hp, hc, hprime, htarget⟩ :
      ∃ s, machine.runUnder Timely { ring := fresh.configure 1 1000 4 1 }
        [.write [1], .produce, .produce, .produce, .produce, .produce, .read 1, .consume,
          .consume, .consume, .consume, .read 1, .consume, .consume, .write [2, 3], .produce,
          .produce, .produce, .produce, .produce, .consume, .consume] = some s ∧
      s.ring.usable = true ∧ s.producer = .idle ∧ s.consumer = .idle ∧
      s.ring.priming = true ∧ s.ring.target ≤ s.ring.bufferedFrames :=
    ⟨_, rfl, rfl, rfl, rfl, rfl, by decide⟩
  exact ⟨s, hrun, hprime, (clears_while_timely (hinit.runUnder _ hrun) huse).1 ⟨hp, hc⟩ hprime
    htarget [4] (by decide)⟩

end State
end WebLinked.Core.AudioRing
