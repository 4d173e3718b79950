import Mathlib
import WebLinked.Base.Circular
import WebLinked.Core.AudioRing

/-!
# What the ring keeps at every step

Counter `n` names the frame put in `n`th, and the slot `n` modulo the capacity. The frames
from `read` to `write` are in their slots; the producer fills slots past them, and the
consumer copies among them, each from a copy of the other's counter that is at worst too
small.
-/

namespace WebLinked.Core.AudioRing

open WebLinked.Base

universe u

variable {α : Type u}

/-- The slots of a copy are those of the counters. -/
theorem slot_eq (index : Nat) {capacity taken i : Nat} (hi : i < taken) (ht : taken ≤ capacity) :
    slot capacity index taken i = (index + i) % capacity := by
  have hpos : 0 < capacity := by omega
  have hlt := Nat.mod_lt index hpos
  have hmod : (index + i) % capacity = (index % capacity + i) % capacity := by
    rw [Nat.mod_add_mod]
  rw [hmod, slot]
  split
  · have hsame : (index % capacity + i) % capacity = index % capacity + i :=
      Nat.mod_eq_of_lt (by omega)
    rw [hsame]
  · have hwrap : (index % capacity + i) % capacity = index % capacity + i - capacity := by
      rw [Nat.mod_eq_sub_mod (by omega)]
      exact Nat.mod_eq_of_lt (by omega)
    rw [hwrap]
    omega

namespace State

variable [Zero α]

/-- What a producer between two steps knows. -/
def ProducerOk (ring : AudioRing α) : Producer α → Prop
  | .idle | .clearing => True
  | .indexed packet write => 0 < ring.capacity ∧ packet ≠ [] ∧ write = ring.write
  | .copying packet write buffered taken copied =>
    write = ring.write ∧ 0 < taken ∧ taken ≤ packet.length ∧ copied ≤ taken ∧
      ring.write ≤ ring.read + buffered ∧ buffered + taken ≤ ring.capacity ∧
      ring.write + taken ≤ ring.read + ring.capacity ∧
      ∀ j < copied, ring.buffer ((write + j) % ring.capacity) = packet.getD j 0
  | .stored buffered taken => ring.write ≤ ring.read + (buffered + taken)

/-- What a consumer between two steps knows. -/
def ConsumerOk (ring : AudioRing α) (put : List α) : Consumer α → Prop
  | .idle => True
  | .playing frames => 0 < frames
  | .indexed frames read => 0 < frames ∧ read = ring.read
  | .copying frames skipped read taken dst =>
    0 < frames ∧ taken ≤ frames ∧ (taken = 0 → skipped = 0) ∧ read = ring.read + skipped ∧
      read + taken ≤ ring.write ∧ dst.length ≤ taken ∧ dst = (put.drop read).take dst.length
  | .starved skipped read dst =>
    (dst.length = 0 → skipped = 0) ∧ read = ring.read + skipped ∧
      read + dst.length ≤ ring.write ∧ dst = (put.drop read).take dst.length

/-- The frames counted as read before the read is over. -/
def unlogged : Consumer α → Nat
  | .starved _ _ dst => dst.length
  | _ => 0

/-- What every step of either side keeps. -/
structure Inv (s : State α) : Prop where
  length_put : s.put.length = s.ring.write
  read_le : s.ring.read ≤ s.ring.write
  write_le : s.ring.write ≤ s.ring.read + s.ring.capacity
  holds : ∀ n, s.ring.read ≤ n → n < s.ring.write →
    s.put[n]? = some (s.ring.buffer (n % s.ring.capacity))
  producer : ProducerOk s.ring s.producer
  consumer : ConsumerOk s.ring s.put s.consumer
  log : s.put.take s.ring.read = (s.log.map fun p ↦ p.1 ++ p.2).flatten
  framesWritten : s.ring.framesWritten = s.writtenBefore + s.ring.write
  framesRead : s.ring.framesRead =
    s.readBefore + (s.log.map fun p ↦ p.2.length).sum + unlogged s.consumer

variable {s t : State α}

/-- A ring that was just configured. -/
theorem inv_init (h : machine.init s) : s.Inv := by
  obtain ⟨a, channels, sampleRate, capacityMs, targetMs, rfl⟩ := h
  exact ⟨rfl, le_rfl, Nat.zero_le _, nofun, trivial, trivial, rfl, rfl, rfl⟩

/-- The producer may move on without touching what is shared. -/
theorem Inv.setProducer (h : s.Inv) {p : Producer α} {overruns : Nat}
    (hp : ProducerOk s.ring p) :
    Inv { s with ring := { s.ring with overruns }, producer := p } :=
  { h with producer := hp }

/-- The consumer may move on without touching what is shared. -/
theorem Inv.setConsumer (h : s.Inv) {c : Consumer α} {resyncs : Nat}
    (hc : ConsumerOk s.ring s.put c) (hu : unlogged c = unlogged s.consumer) :
    Inv { s with ring := { s.ring with resyncs }, consumer := c } :=
  { h with
    consumer := hc
    framesRead := by
      dsimp only
      rw [hu]
      exact h.framesRead }

/-- A frame copied in lands past the frames that are there. -/
theorem Inv.copyIn (h : s.Inv) {packet : List α} {write buffered taken copied : Nat}
    (hp : s.producer = .copying packet write buffered taken copied) (hlt : copied < taken) :
    Inv { s with
      ring := { s.ring with
        buffer := Function.update s.ring.buffer (slot s.ring.capacity write taken copied)
          (packet.getD copied 0) }
      producer := .copying packet write buffered taken (copied + 1) } := by
  have hok := h.producer
  rw [hp] at hok
  obtain ⟨rfl, hpos, hlen, hcopied, hbuf, hfit, hroom, hdone⟩ := hok
  have hread := h.read_le
  have hslot := slot_eq s.ring.write hlt (show taken ≤ s.ring.capacity by omega)
  have hother : ∀ n, s.ring.read ≤ n → n < s.ring.write + copied →
      Function.update s.ring.buffer (slot s.ring.capacity s.ring.write taken copied)
        (packet.getD copied 0) (n % s.ring.capacity) = s.ring.buffer (n % s.ring.capacity) := by
    intro n hlo hhi
    apply Function.update_of_ne
    rw [hslot]
    intro heq
    have := Circular.eq_of_mod_eq hlo (by omega) (by omega) (by omega) heq
    omega
  refine { h with holds := ?_, producer := ?_ }
  · intro n hlo hhi
    have hn := hother n hlo (by dsimp only at hhi; omega)
    rw [h.holds n hlo hhi]
    exact congrArg some hn.symm
  · refine ⟨rfl, hpos, hlen, hlt, hbuf, hfit, hroom, fun j hj ↦ ?_⟩
    rcases Nat.lt_succ_iff_lt_or_eq.mp hj with hj | rfl
    · exact (hother (s.ring.write + j) (by omega) (by omega)).trans (hdone j hj)
    · change Function.update s.ring.buffer _ _ ((s.ring.write + j) % s.ring.capacity) = _
      rw [hslot]
      exact Function.update_self ..

/-- Frames that are all copied in become frames that are there. -/
theorem Inv.store (h : s.Inv) {packet : List α} {write buffered taken copied : Nat}
    (hp : s.producer = .copying packet write buffered taken copied) (hall : ¬ copied < taken) :
    Inv { s with
      ring := { s.ring with
        write := write + taken, framesWritten := s.ring.framesWritten + taken }
      producer := .stored buffered taken
      put := s.put ++ packet.take taken } := by
  have hok := h.producer
  rw [hp] at hok
  obtain ⟨rfl, hpos, hlen, hcopied, hbuf, hfit, hroom, hdone⟩ := hok
  have hput := h.length_put
  have hread := h.read_le
  have hkept : ∀ n k, n + k ≤ s.put.length →
      ((s.put ++ packet.take taken).drop n).take k = (s.put.drop n).take k := by
    intro n k hle
    rw [List.drop_append_of_le_length (by omega), List.take_append_of_le_length]
    rw [List.length_drop]
    omega
  refine ⟨?_, ?_, ?_, ?_, ?_, ?_, ?_, ?_, ?_⟩
  · rw [List.length_append, hput, List.length_take, Nat.min_eq_left hlen]
  · dsimp only
    omega
  · exact hroom
  · intro n hlo hhi
    dsimp only at hlo hhi ⊢
    rcases Nat.lt_or_ge n s.ring.write with hn | hn
    · rw [List.getElem?_append_left (by omega)]
      exact h.holds n hlo hn
    · obtain ⟨j, rfl⟩ := Nat.exists_eq_add_of_le hn
      have hj := hdone j (by omega)
      rw [List.getElem?_append_right (by omega), hput, Nat.add_sub_cancel_left,
        List.getElem?_take_of_lt (by omega), List.getElem?_eq_getElem (by omega)]
      rw [List.getD_eq_getElem _ _ (by omega)] at hj
      exact congrArg some hj.symm
  · dsimp only [ProducerOk]
    omega
  · have hc := h.consumer
    dsimp only
    cases hcons : s.consumer with
    | copying frames skipped read taken' dst =>
      rw [hcons] at hc
      obtain ⟨hframes, hle, hnone, hfrom, hto, hdst, heq⟩ := hc
      refine ⟨hframes, hle, hnone, hfrom, by dsimp only; omega, hdst, ?_⟩
      rw [hkept _ _ (by omega)]
      exact heq
    | starved skipped read dst =>
      rw [hcons] at hc
      obtain ⟨hnone, hfrom, hto, heq⟩ := hc
      refine ⟨hnone, hfrom, by dsimp only; omega, ?_⟩
      rw [hkept _ _ (by omega)]
      exact heq
    | _ =>
      rw [hcons] at hc
      exact hc
  · have := hkept 0 s.ring.read (by omega)
    rw [List.drop_zero, List.drop_zero] at this
    exact this.trans h.log
  · have := h.framesWritten
    dsimp only
    omega
  · exact h.framesRead

/-- A frame copied out is the one that was put in. -/
theorem Inv.copyOut (h : s.Inv) {frames skipped read taken : Nat} {dst : List α}
    (hc : s.consumer = .copying frames skipped read taken dst) (hlt : dst.length < taken) :
    Inv { s with
      consumer := .copying frames skipped read taken
        (dst ++ [s.ring.buffer (slot s.ring.capacity read taken dst.length)]) } := by
  have hok := h.consumer
  rw [hc] at hok
  obtain ⟨hframes, hle, hnone, rfl, hto, hdst, heq⟩ := hok
  have hwrite := h.write_le
  have hheld := h.holds (s.ring.read + skipped + dst.length) (by omega) (by omega)
  rw [← slot_eq _ hlt (by omega)] at hheld
  refine { h with consumer := ?_, framesRead := ?_ }
  · refine ⟨hframes, hle, hnone, rfl, hto, ?_, ?_⟩
    · rw [List.length_append]
      exact hlt
    · rw [List.length_append, List.length_singleton, List.take_add_one, ← heq, List.getElem?_drop,
        hheld]
      rfl
  · have := h.framesRead
    rw [hc] at this
    exact this

/-- The end of a read that gave `dst` after `skipped` frames. -/
theorem Inv.finish (h : s.Inv) {skipped : Nat} {dst : List α} {framesRead : Nat}
    (hto : s.ring.read + skipped + dst.length ≤ s.ring.write)
    (heq : dst = (s.put.drop (s.ring.read + skipped)).take dst.length)
    (hcount : framesRead + unlogged s.consumer = s.ring.framesRead + dst.length) :
    Inv { s with
      ring := { s.ring with read := s.ring.read + skipped + dst.length, framesRead }
      consumer := .idle
      log := s.log ++ [(s.skippedFrom skipped, dst)] } := by
  have hput := h.length_put
  have hwrite := h.write_le
  refine ⟨hput, hto, ?_, fun n hlo hhi ↦ h.holds n (by dsimp only at hlo; omega) hhi, ?_, trivial,
    ?_, h.framesWritten, ?_⟩
  · dsimp only [capacity] at hwrite ⊢
    omega
  · have hp := h.producer
    dsimp only
    cases hprod : s.producer with
    | copying packet write buffered taken copied =>
      rw [hprod] at hp
      obtain ⟨hw, hpos, hlen, hcopied, hbuf, hfit, hroom, hdone⟩ := hp
      refine ⟨hw, hpos, hlen, hcopied, ?_, hfit, ?_, hdone⟩
      · dsimp only
        omega
      · dsimp only [capacity] at hroom ⊢
        omega
    | stored buffered taken =>
      rw [hprod] at hp
      unfold ProducerOk at hp ⊢
      dsimp only
      omega
    | _ =>
      rw [hprod] at hp
      exact hp
  · have hsplit : (s.put.drop s.ring.read).take (skipped + dst.length) =
        s.skippedFrom skipped ++ dst := by
      rw [List.take_add, List.drop_drop, ← heq, skippedFrom]
    dsimp only
    rw [List.map_append, List.flatten_append, ← h.log, Nat.add_assoc, List.take_add, hsplit]
    simp
  · have := h.framesRead
    simp only [unlogged, List.map_append, List.sum_append, List.map_cons, List.map_nil,
      List.sum_cons, List.sum_nil]
    omega

/-- Each step of a `write` keeps the invariant. -/
theorem Inv.produce (h : s.Inv) (ht : s.produce = some t) : t.Inv := by
  unfold State.produce at ht
  cases hp : s.producer with
  | idle =>
    rw [hp] at ht
    cases ht
  | indexed packet write =>
    have hok := h.producer
    rw [hp] at hok
    obtain ⟨hcap, hpacket, rfl⟩ := hok
    have hread := h.read_le
    have hwrite := h.write_le
    rw [hp] at ht
    cases ht
    apply h.setProducer
    split
    · trivial
    · exact ⟨rfl, by omega, by omega, Nat.zero_le _, by omega, by omega, by omega, nofun⟩
  | copying packet write buffered taken copied =>
    rw [hp] at ht
    dsimp only at ht
    have hok := h.producer
    rw [hp] at hok
    split at ht
    · next hlt =>
      cases ht
      exact h.copyIn hp hlt
    · next hall =>
      cases ht
      obtain rfl := hok.1
      exact h.store hp hall
  | stored buffered taken =>
    rw [hp] at ht
    cases ht
    refine { h with producer := ?_ }
    dsimp only
    split <;> trivial
  | clearing =>
    rw [hp] at ht
    cases ht
    exact { h with producer := trivial }

/-- Each step of a `read` keeps the invariant. -/
theorem Inv.consume (h : s.Inv) (ht : s.consume = some t) : t.Inv := by
  unfold State.consume at ht
  have hok := h.consumer
  cases hc : s.consumer with
  | idle =>
    rw [hc] at ht
    cases ht
  | playing frames =>
    rw [hc] at ht hok
    cases ht
    exact h.setConsumer ⟨hok, rfl⟩ (by rw [hc]; rfl)
  | indexed frames read =>
    rw [hc] at ht hok
    obtain ⟨hframes, rfl⟩ := hok
    have hread := h.read_le
    cases ht
    refine h.setConsumer ⟨hframes, Nat.min_le_left _ _, ?_, rfl, ?_, Nat.zero_le _, rfl⟩
      (by rw [hc]; rfl)
    · intro hnone
      split at hnone
      · next hdrift =>
        have := of_decide_eq_true hdrift
        omega
      · next hdrift => rw [if_neg hdrift]
    · split
      · next hdrift =>
        have := of_decide_eq_true hdrift
        omega
      · omega
  | copying frames skipped read taken dst =>
    rw [hc] at ht hok
    obtain ⟨hframes, hle, hnone, rfl, hto, hdst, heq⟩ := hok
    dsimp only at ht
    split at ht
    · next hlt =>
      cases ht
      exact h.copyOut hc hlt
    · next hall =>
      obtain rfl : dst.length = taken := by omega
      split at ht
      · cases ht
        refine { h with consumer := ⟨hnone, rfl, hto, heq⟩, framesRead := ?_ }
        have := h.framesRead
        simp only [unlogged, hc] at this ⊢
        omega
      · cases ht
        apply h.finish hto heq
        rw [hc]
        rfl
  | starved skipped read dst =>
    rw [hc] at ht hok
    obtain ⟨hnone, rfl, hto, heq⟩ := hok
    cases ht
    apply h.finish hto heq
    rw [hc]
    rfl

/-- Each step of either side keeps the invariant. -/
theorem Inv.step (h : s.Inv) {a : Action α} (ht : s.step a = some t) : t.Inv := by
  cases a with
  | write packet =>
    rw [State.step] at ht
    split at ht
    · split at ht
      · cases ht
        exact h
      · next huse =>
        cases ht
        simp only [not_or, Bool.not_eq_true', Bool.not_eq_false, usable, Bool.and_eq_true,
          decide_eq_true_eq] at huse
        exact h.setProducer ⟨by dsimp only [capacity]; omega, huse.1, rfl⟩
    · cases ht
  | produce => exact h.produce ht
  | read frames =>
    rw [State.step] at ht
    split at ht
    · next hc =>
      split at ht
      · cases ht
        exact h
      split at ht
      · cases ht
        exact h
      · next hframes _ =>
        cases ht
        refine h.setConsumer (c := .playing frames.toNat) ?_ (by rw [hc]; rfl)
        dsimp only [ConsumerOk]
        omega
    · cases ht
  | consume => exact h.consume ht

/-- The frames that re-centring threw away. -/
def discarded (s : State α) : Nat := (s.log.map fun p ↦ p.1.length).sum

/-- Both sides are between calls. -/
def AtRest (s : State α) : Prop := s.producer = .idle ∧ s.consumer = .idle

/-- What the ring promises in a state. The counters stay within the capacity of each other;
no slot the producer is filling is one the consumer is copying or has yet to read; the frames
put in are, read by read, those skipped and those delivered, and then those buffered, so what
is delivered is a subsequence, each read in one piece; and at rest no frame is uncounted. -/
structure Lawful (s : State α) : Prop where
  bounded : s.ring.read ≤ s.ring.write ∧ s.ring.write ≤ s.ring.read + s.ring.capacity
  apart : ∀ packet write buffered taken copied frames skipped read taken' dst,
    s.producer = .copying packet write buffered taken copied →
    s.consumer = .copying frames skipped read taken' dst →
    ∀ i < taken, ∀ j < taken',
      slot s.ring.capacity write taken i ≠ slot s.ring.capacity read taken' j
  kept : ∀ packet write buffered taken copied,
    s.producer = .copying packet write buffered taken copied →
    ∀ i < taken, ∀ n, s.ring.read ≤ n → n < s.ring.write →
      slot s.ring.capacity write taken i ≠ n % s.ring.capacity
  accounted : ∃ rest, s.put = (s.log.map fun p ↦ p.1 ++ p.2).flatten ++ rest ∧
    rest.length = s.ring.bufferedFrames
  delivered : (s.log.map Prod.snd).flatten.Sublist s.put ∧ ∀ p ∈ s.log, p.2 <:+: s.put
  counted : s.AtRest → s.ring.framesWritten + s.readBefore =
    s.writtenBefore + s.ring.framesRead + s.discarded + s.ring.bufferedFrames

omit [Zero α] in
/-- What a log delivered is a subsequence of it. -/
theorem sublist_log (log : List (List α × List α)) :
    (log.map Prod.snd).flatten.Sublist (log.map fun p ↦ p.1 ++ p.2).flatten := by
  induction log with
  | nil => exact List.Sublist.slnil
  | cons p log ih => exact (List.sublist_append_right _ _).append ih

omit [Zero α] in
/-- Each read of a log is one piece of it. -/
theorem infix_log {log : List (List α × List α)} {p : List α × List α} (h : p ∈ log) :
    p.2 <:+: (log.map fun p ↦ p.1 ++ p.2).flatten := by
  have hwhole : p.1 ++ p.2 ∈ log.map fun p ↦ p.1 ++ p.2 := List.mem_map_of_mem h
  exact (List.suffix_append _ _).isInfix.trans (List.infix_of_mem_flatten hwhole)

omit [Zero α] in
theorem length_log (log : List (List α × List α)) :
    (log.map fun p ↦ p.1 ++ p.2).flatten.length =
      (log.map fun p ↦ p.1.length).sum + (log.map fun p ↦ p.2.length).sum := by
  induction log with
  | nil => rfl
  | cons p log ih =>
    simp only [List.map_cons, List.flatten_cons, List.length_append, ih, List.sum_cons]
    omega

/-- The invariant is enough for the promises. -/
theorem Inv.lawful (h : s.Inv) : s.Lawful := by
  have hput := h.length_put
  have hread := h.read_le
  have hwrite := h.write_le
  have hkept : ∀ packet write buffered taken copied,
      s.producer = .copying packet write buffered taken copied →
      ∀ i < taken, ∀ n, s.ring.read ≤ n → n < s.ring.write →
        slot s.ring.capacity write taken i ≠ n % s.ring.capacity := by
    intro packet write buffered taken copied hp i hi n hlo hhi heq
    have hok := h.producer
    rw [hp] at hok
    obtain ⟨rfl, hpos, hlen, hcopied, hbuf, hfit, hroom, hdone⟩ := hok
    rw [slot_eq _ hi (by omega)] at heq
    have := Circular.eq_of_mod_eq (by omega) (by omega) hlo (by omega) heq
    omega
  have haccounted : s.put = (s.log.map fun p ↦ p.1 ++ p.2).flatten ++ s.put.drop s.ring.read := by
    rw [← h.log, List.take_append_drop]
  have hprefix : (s.log.map fun p ↦ p.1 ++ p.2).flatten <+: s.put := ⟨_, haccounted.symm⟩
  refine ⟨⟨hread, hwrite⟩, ?_, hkept, ⟨_, haccounted, ?_⟩, ⟨?_, fun p hp ↦ ?_⟩, ?_⟩
  · intro packet write buffered taken copied frames skipped read taken' dst hp hc i hi j hj
    have hok := h.consumer
    rw [hc] at hok
    obtain ⟨hframes, hle, hnone, rfl, hto, hdst, heq⟩ := hok
    rw [slot_eq (s.ring.read + skipped) hj (by omega)]
    exact hkept _ _ _ _ _ hp i hi _ (by omega) (by omega)
  · rw [List.length_drop, hput, bufferedFrames]
  · exact (sublist_log s.log).trans hprefix.sublist
  · exact (infix_log hp).trans hprefix.isInfix
  · rintro ⟨-, hc⟩
    have hlog := congrArg List.length h.log
    have hw := h.framesWritten
    have hr := h.framesRead
    rw [List.length_take, hput, length_log] at hlog
    have hnone : unlogged s.consumer = 0 := by
      rw [hc]
      rfl
    unfold discarded bufferedFrames
    omega

theorem inv_of_reachable (h : machine.Reachable s) : s.Inv :=
  h.invariant (fun _ hs ↦ inv_init hs) fun _ _ _ _ hs ht ↦ hs.step ht

/-- In every interleaving of one producer and one consumer after a configuration. -/
theorem ring_lawful (h : machine.Reachable s) : s.Lawful :=
  (inv_of_reachable h).lawful

end State

/-- A ring of four frames that aims to hold one, before it is configured. -/
def fresh : AudioRing Int where
  channels := 0
  sampleRate := 0
  capacityFrames := 0
  targetFrames := 0
  buffer := fun _ ↦ 0

namespace State

/-- A read re-centres and copies while a write that found one free slot fills it. -/
theorem ring_lawful_overlapping :
    ∃ s, machine.run { ring := fresh.configure 1 1000 4 1 }
        ([.write [1, 2, 3]] ++ List.replicate 7 .produce ++
          [.read 2, .consume, .consume, .write [4, 5], .produce, .produce, .consume, .produce,
            .consume, .consume, .produce, .produce]) = some s ∧
      s.log = [([1, 2], [3])] ∧ s.put = [1, 2, 3, 4] ∧ s.Lawful := by
  have hinit : machine.Reachable { ring := fresh.configure 1 1000 4 1 } :=
    .init ⟨fresh, 1, 1000, 4, 1, rfl⟩
  obtain ⟨s, hrun, hlog, hput⟩ : ∃ s, machine.run { ring := fresh.configure 1 1000 4 1 }
      [.write [1, 2, 3], .produce, .produce, .produce, .produce, .produce, .produce, .produce,
        .read 2, .consume, .consume, .write [4, 5], .produce, .produce, .consume, .produce,
        .consume, .consume, .produce, .produce] = some s ∧
      s.log = [([1, 2], [3])] ∧ s.put = [1, 2, 3, 4] :=
    ⟨_, rfl, rfl, rfl⟩
  exact ⟨s, hrun, hlog, hput, ring_lawful (hinit.run _ hrun)⟩

end State
end WebLinked.Core.AudioRing
