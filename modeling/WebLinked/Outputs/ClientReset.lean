import Mathlib
import WebLinked.Base.Int32
import WebLinked.Base.Int64
import WebLinked.Core.AudioPriming

/-!
# Resetting the ring of a running audio device

`src/outputs/audio_device.cpp:258–287`, `src/core/audio_ring.cpp:27–137`. `reset` comes from a
third thread and stores both indices, each of which belongs to a side that may be between
loading and storing it. A step is one atomic access or the copy of one frame. Between the two
stores the counters do not belong together, so the level is the wrapped difference the code
computes.
-/

namespace WebLinked.Outputs.ClientReset

open WebLinked.Base WebLinked.Core

universe u

/-- A frame with the number of resets that had begun when its `write` did. -/
structure Stamped (α : Type u) where
  sample : α
  era : Nat
  deriving DecidableEq, Repr

instance {α : Type u} [Zero α] : Zero (Stamped α) := ⟨⟨0, 0⟩⟩

/-- Where a `write` is between two steps; `era` is the number of resets that had begun. -/
inductive Producer (α : Type u) where
  | idle
  | indexed (packet : List α) (era write : Nat)
  | copying (packet : List α) (era write : Nat) (buffered : Int) (taken copied : Nat)
  | stored (level : Int)
  | clearing
  deriving DecidableEq, Repr

/-- Where a `read` is between two steps. -/
inductive Consumer (α : Type u) where
  | idle
  | playing (frames : Nat)
  | indexed (frames read : Nat)
  | copying (frames read taken : Nat) (dst : List (Stamped α))
  | starved (read : Nat) (dst : List (Stamped α))
  deriving DecidableEq, Repr

/-- Where a `reset` is between two steps. -/
inductive Control where
  | idle
  | writeCleared
  | readCleared
  | filling (slot : Nat)
  deriving DecidableEq, Repr

/-- The ring and the three threads. `resets` have begun and `returned` are over; `opened` were
over when the last read began, and `log` has what each read delivered beside that number. -/
structure State (α : Type u) where
  ring : AudioRing (Stamped α)
  producer : Producer α := .idle
  consumer : Consumer α := .idle
  control : Control := .idle
  resets : Nat := 0
  returned : Nat := 0
  opened : Nat := 0
  log : List (Nat × List (Stamped α)) := []

/-- A call of one of the threads, or its next step. -/
inductive Action (α : Type u) where
  | write (packet : List α)
  | produce
  | read (frames : Int)
  | consume
  | reset
  | clear

/-- The level between two counters, an `int`; `src/core/audio_ring.cpp:38,50,98`. -/
def level (write read : Nat) : Int := toInt32 (write - read)

namespace State

variable {α : Type u} [Zero α] (s : State α)

/-- The next step of a `write`; `src/core/audio_ring.cpp:46–78`. -/
def produce : Option (State α) :=
  match s.producer with
  | .idle => none
  | .indexed packet era write =>
    let buffered := level write s.ring.read
    let taken := min packet.length (s.ring.capacityFrames - buffered).toNat
    let overruns := if taken < packet.length then s.ring.overruns + 1 else s.ring.overruns
    some { s with
      ring := { s.ring with overruns }
      producer := if taken = 0 then .idle else .copying packet era write buffered taken 0 }
  | .copying packet era write buffered taken copied =>
    if copied < taken then
      some { s with
        ring := { s.ring with
          buffer := Function.update s.ring.buffer
            (AudioRing.slot s.ring.capacity write taken copied) ⟨packet.getD copied 0, era⟩ }
        producer := .copying packet era write buffered taken (copied + 1) }
    else
      some { s with
        ring := { s.ring with
          write := write + taken, framesWritten := s.ring.framesWritten + taken }
        producer := .stored (buffered + taken) }
  | .stored level =>
    some { s with
      producer := if s.ring.priming ∧ s.ring.targetFrames ≤ level then .clearing else .idle }
  | .clearing => some { s with ring := { s.ring with priming := false }, producer := .idle }

/-- The next step of a `read`; `src/core/audio_ring.cpp:94–137`. -/
def consume : Option (State α) :=
  match s.consumer with
  | .idle => none
  | .playing frames => some { s with consumer := .indexed frames s.ring.read }
  | .indexed frames read =>
    let buffered := level s.ring.write read
    let drifted : Bool := 0 < s.ring.targetFrames ∧ s.ring.targetFrames * 2 < buffered
    let excess := if drifted then buffered - s.ring.targetFrames else 0
    let resyncs := if drifted then s.ring.resyncs + 1 else s.ring.resyncs
    some { s with
      ring := { s.ring with resyncs }
      consumer := .copying frames (read + excess.toNat) (min frames (buffered - excess).toNat) [] }
  | .copying frames read taken dst =>
    if dst.length < taken then
      some { s with
        consumer := .copying frames read taken
          (dst ++ [s.ring.buffer (AudioRing.slot s.ring.capacity read taken dst.length)]) }
    else if taken < frames then
      some { s with
        ring := { s.ring with
          priming := true
          framesRead := s.ring.framesRead + taken
          underruns := s.ring.underruns + 1 }
        consumer := .starved read dst }
    else
      some { s with
        ring := { s.ring with
          read := read + taken, framesRead := s.ring.framesRead + taken }
        consumer := .idle
        log := s.log ++ [(s.opened, dst)] }
  | .starved read dst =>
    some { s with
      ring := { s.ring with read := read + dst.length }
      consumer := .idle
      log := s.log ++ [(s.opened, dst)] }

/-- The next step of a `reset`; `src/core/audio_ring.cpp:29–32`. -/
def clear : Option (State α) :=
  match s.control with
  | .idle => none
  | .writeCleared => some { s with ring := { s.ring with read := 0 }, control := .readCleared }
  | .readCleared =>
    some { s with ring := { s.ring with priming := true }, control := .filling 0 }
  | .filling slot =>
    if slot < s.ring.capacity then
      some { s with
        ring := { s.ring with buffer := Function.update s.ring.buffer slot ⟨0, s.resets⟩ }
        control := .filling (slot + 1) }
    else some { s with control := .idle, returned := s.returned + 1 }

/-- One step of a thread. A call goes up to and with its first access. -/
def step : Action α → Option (State α)
  | .write packet =>
    match s.producer with
    | .idle =>
      if packet = [] ∨ !s.ring.usable then some s
      else some { s with producer := .indexed packet s.resets s.ring.write }
    | _ => none
  | .produce => s.produce
  | .read frames =>
    match s.consumer with
    | .idle =>
      if frames ≤ 0 ∨ !s.ring.usable then some s
      else if s.ring.priming then some s
      else some { s with consumer := .playing frames.toNat, opened := s.returned }
    | _ => none
  | .consume => s.consume
  | .reset =>
    match s.control with
    | .idle =>
      some { s with
        ring := { s.ring with write := 0 }, control := .writeCleared, resets := s.resets + 1 }
    | _ => none
  | .clear => s.clear

/-- A run starts from any ring that was just configured. -/
def machine : Machine (State α) (Action α) where
  init s := ∃ (a : AudioRing (Stamped α)) (channels sampleRate capacityMs targetMs : Int),
    s = { ring := a.configure channels sampleRate capacityMs targetMs }
  step := step

/-- Each thread is outside a call. -/
def AtRest (s : State α) : Prop :=
  s.producer = .idle ∧ s.consumer = .idle ∧ s.control = .idle

/-- With every thread outside, the counters are within the capacity of each other, and no read
delivered a frame whose `write` began before a reset that was over when the read began. -/
structure Consistent (s : State α) : Prop where
  bounded : s.AtRest → (0 : Int) ≤ s.ring.write - s.ring.read ∧
    (s.ring.write : Int) - s.ring.read ≤ s.ring.capacity
  fresh : ∀ r ∈ s.log, ∀ f ∈ r.2, r.1 ≤ f.era

end State

variable {α : Type u}

/-- The write has loaded its index and not stored it. -/
def Producer.holdsIndex : Producer α → Bool
  | .indexed .. | .copying .. => true
  | _ => false

/-- The read has loaded its index and not stored it. -/
def Consumer.holdsIndex : Consumer α → Bool
  | .indexed .. | .copying .. | .starved .. => true
  | _ => false

/-- The index of a read that has loaded nothing else yet. -/
def Consumer.loaded : Consumer α → Option Nat
  | .indexed _ read => some read
  | _ => none

namespace State

/-- The write index once the copy under way is stored. -/
def due (s : State α) : Nat :=
  match s.producer with
  | .copying _ _ write _ taken _ => write + taken
  | _ => s.ring.write

/-- `reset` clears no index that its side has loaded and not stored; what is written between
its two stores fits the buffer; and a ring without a target, where nothing else bounds a read,
is not read between them at a level past the capacity. -/
def Apart (s : State α) : Action α → Prop
  | .reset => s.producer.holdsIndex = false
  | .clear =>
    s.control = .writeCleared → s.consumer.holdsIndex = false ∧ s.due ≤ s.ring.capacity
  | .consume =>
    s.control = .writeCleared → s.ring.targetFrames = 0 →
      ∀ read ∈ s.consumer.loaded, level s.ring.write read ≤ s.ring.capacity
  | _ => True

instance : DecidableRel (Apart (α := α)) := fun s a ↦ by
  cases a <;> unfold Apart <;> infer_instance

/-- What a producer between two steps knows. Between the two stores of a reset it may be
ahead of `read` by any number of frames. -/
def ProducerOk (s : State α) : Prop :=
  match s.producer with
  | .idle | .stored _ | .clearing => True
  | .indexed _ era write => write = s.ring.write ∧ era = s.resets
  | .copying _ era write _ taken _ =>
    write = s.ring.write ∧ era = s.resets ∧
      (s.control ≠ .writeCleared → write + taken ≤ s.ring.read + s.ring.capacity)

/-- What a consumer between two steps knows. -/
def ConsumerOk (s : State α) : Prop :=
  match s.consumer with
  | .idle | .playing _ => True
  | .indexed _ read => s.control ≠ .writeCleared → read = s.ring.read
  | .copying _ read taken dst =>
    taken ≤ s.ring.capacity ∧
      (s.control ≠ .writeCleared → s.ring.read ≤ read ∧ read + taken ≤ s.ring.write) ∧
      dst.length ≤ taken ∧ ∀ f ∈ dst, s.opened ≤ f.era
  | .starved read dst =>
    (s.control ≠ .writeCleared → s.ring.read ≤ read ∧ read + dst.length ≤ s.ring.write) ∧
      ∀ f ∈ dst, s.opened ≤ f.era

/-- What a reset between two steps has done. -/
def ControlOk (s : State α) : Prop :=
  match s.control with
  | .idle => s.resets = s.returned
  | .writeCleared | .readCleared => s.resets = s.returned + 1
  | .filling slot =>
    s.resets = s.returned + 1 ∧ ∀ i < slot, i < s.ring.capacity → s.resets ≤ (s.ring.buffer i).era

/-- What every step keeps while the threads stay apart. -/
structure Inv (s : State α) : Prop where
  fits : (s.ring.target * 2 ≤ s.ring.capacity ∧ s.ring.capacityFrames < 2 ^ 31) ∧
    0 ≤ s.ring.targetFrames
  counters : s.control ≠ .writeCleared →
    s.ring.read ≤ s.ring.write ∧ s.ring.write ≤ s.ring.read + s.ring.capacity
  eras : ∀ i < s.ring.capacity, s.returned ≤ (s.ring.buffer i).era
  opened : s.opened ≤ s.returned
  producer : s.ProducerOk
  consumer : s.ConsumerOk
  control : s.ControlOk
  fresh : ∀ r ∈ s.log, ∀ f ∈ r.2, r.1 ≤ f.era

/-- Counters that belong together are as far apart as they look. -/
theorem level_eq {write read : Nat} {capacityFrames : Int} (h : read ≤ write)
    (hle : write ≤ read + capacityFrames.toNat) (hcap : capacityFrames < 2 ^ 31) :
    level write read = write - read := by
  apply toInt32_of_mem
  rw [InInt32]
  omega

section Steps

variable {s t : State α}

/-- No more resets are over than have begun. -/
theorem Inv.returned_le (h : s.Inv) : s.returned ≤ s.resets := by
  have hc := h.control
  unfold ControlOk at hc
  split at hc <;> omega

/-- The producer may move on without touching what is shared. -/
theorem Inv.setProducer (h : s.Inv) {p : Producer α} {overruns : Nat}
    (hp : ProducerOk { s with producer := p }) :
    Inv { s with ring := { s.ring with overruns }, producer := p } :=
  { h with producer := hp }

/-- A frame of the current era may be put anywhere. -/
theorem Inv.put (h : s.Inv) (i : Nat) (sample : α) {p : Producer α}
    (hp : ProducerOk { s with producer := p }) :
    Inv { s with
      ring := { s.ring with buffer := Function.update s.ring.buffer i ⟨sample, s.resets⟩ }
      producer := p } := by
  have hera : ∀ era ≤ s.resets, ∀ j, era ≤ (s.ring.buffer j).era →
      era ≤ (Function.update s.ring.buffer i ⟨sample, s.resets⟩ j).era := by
    intro era hle j hj
    rw [Function.update_apply]
    split
    · exact hle
    · exact hj
  have hc := h.control
  refine { h with
    eras := fun j hj ↦ hera _ h.returned_le j (h.eras j hj), producer := hp, control := ?_ }
  unfold ControlOk at hc ⊢
  dsimp only
  split at hc
  · exact hc
  · exact hc
  · exact hc
  · exact ⟨hc.1, fun j hj hcap ↦ hera _ le_rfl j (hc.2 j hj hcap)⟩

/-- Frames that are all copied in become frames that are there. -/
theorem Inv.store (h : s.Inv) {taken framesWritten : Nat} {p : Producer α}
    (hp : ∀ t : State α, t.producer = p → t.ProducerOk)
    (hroom : s.control ≠ .writeCleared → s.ring.write + taken ≤ s.ring.read + s.ring.capacity) :
    Inv { s with
      ring := { s.ring with write := s.ring.write + taken, framesWritten }, producer := p } := by
  have hcons := h.consumer
  refine { h with counters := ?_, producer := hp _ rfl, consumer := ?_ }
  · intro hc
    obtain ⟨hle, -⟩ := h.counters hc
    exact ⟨Nat.le_add_right_of_le hle, hroom hc⟩
  · unfold ConsumerOk at hcons ⊢
    dsimp only
    split at hcons
    · trivial
    · trivial
    · exact hcons
    · obtain ⟨hcap, hidx, hdst⟩ := hcons
      exact ⟨hcap, fun hc ↦ ⟨(hidx hc).1, Nat.le_add_right_of_le (hidx hc).2⟩, hdst⟩
    · obtain ⟨hidx, hdst⟩ := hcons
      exact ⟨fun hc ↦ ⟨(hidx hc).1, Nat.le_add_right_of_le (hidx hc).2⟩, hdst⟩

/-- The consumer may move on without touching what is shared. -/
theorem Inv.setConsumer (h : s.Inv) {c : Consumer α} {resyncs : Nat}
    (hc : ConsumerOk { s with consumer := c }) :
    Inv { s with ring := { s.ring with resyncs }, consumer := c } :=
  { h with consumer := hc }

/-- The end of a read that gave `dst` from `read` on. -/
theorem Inv.finish (h : s.Inv) {read framesRead : Nat} {dst : List (Stamped α)}
    (hidx : s.control ≠ .writeCleared → s.ring.read ≤ read ∧ read + dst.length ≤ s.ring.write)
    (hdst : ∀ f ∈ dst, s.opened ≤ f.era) :
    Inv { s with
      ring := { s.ring with read := read + dst.length, framesRead }
      consumer := .idle
      log := s.log ++ [(s.opened, dst)] } := by
  have hp := h.producer
  refine { h with counters := ?_, producer := ?_, consumer := trivial, fresh := ?_ }
  · intro hc
    obtain ⟨hle, hcap⟩ := h.counters hc
    obtain ⟨hfrom, hto⟩ := hidx hc
    dsimp only [AudioRing.capacity] at hcap ⊢
    omega
  · unfold ProducerOk at hp ⊢
    dsimp only
    split at hp
    · trivial
    · trivial
    · trivial
    · exact hp
    · obtain ⟨hw, hera, hroom⟩ := hp
      refine ⟨hw, hera, fun hc ↦ ?_⟩
      have := hroom hc
      have := hidx hc
      dsimp only [AudioRing.capacity] at *
      omega
  · intro r hr
    obtain hr | hr := List.mem_append.mp hr
    · exact h.fresh r hr
    · rw [List.mem_singleton.mp hr]
      exact hdst

/-- A reset past both of its stores may go on and fill the buffer. -/
theorem Inv.setControl (h : s.Inv) (hne : s.control ≠ .writeCleared) {c : Control}
    {buffer : Nat → Stamped α} {priming : Bool} {returned : Nat} (hle : s.returned ≤ returned)
    (heras : ∀ i < s.ring.capacity, returned ≤ (buffer i).era)
    (hctrl : ControlOk { s with
      ring := { s.ring with buffer, priming }, control := c, returned }) :
    Inv { s with ring := { s.ring with buffer, priming }, control := c, returned } := by
  have hp := h.producer
  have hcons := h.consumer
  refine ⟨h.fits, fun _ ↦ h.counters hne, heras, h.opened.trans hle, ?_, ?_, hctrl, h.fresh⟩
  · unfold ProducerOk at hp ⊢
    dsimp only
    split at hp
    · trivial
    · trivial
    · trivial
    · exact hp
    · exact ⟨hp.1, hp.2.1, fun _ ↦ hp.2.2 hne⟩
  · unfold ConsumerOk at hcons ⊢
    dsimp only
    split at hcons
    · trivial
    · trivial
    · exact fun _ ↦ hcons hne
    · exact ⟨hcons.1, fun _ ↦ hcons.2.1 hne, hcons.2.2⟩
    · exact ⟨fun _ ↦ hcons.1 hne, hcons.2⟩

/-- The frames of a copy are in the buffer. -/
theorem slot_lt {capacity index taken i : Nat} (hi : i < taken) (ht : taken ≤ capacity) :
    AudioRing.slot capacity index taken i < capacity := by
  rw [AudioRing.slot_eq index hi ht]
  exact Nat.mod_lt _ (by omega)

variable [Zero α]

/-- A ring that was just configured. -/
theorem inv_init (h : machine.init s) : s.Inv := by
  obtain ⟨a, channels, sampleRate, capacityMs, targetMs, rfl⟩ := h
  refine ⟨⟨⟨?_, ?_⟩, ?_⟩, fun _ ↦ ⟨le_rfl, Nat.zero_le _⟩, fun _ _ ↦ le_rfl, le_rfl, trivial,
    trivial, rfl, List.forall_mem_nil _⟩
  · dsimp only [AudioRing.target, AudioRing.capacity, AudioRing.configure]
    generalize ((max sampleRate 0 * capacityMs).tdiv 1000).bmod (2 ^ 32) = capacityFrames
    generalize ((max sampleRate 0 * targetMs).tdiv 1000).bmod (2 ^ 32) = targetFrames
    rw [AudioRing.clamp]
    rcases Int.le_total 0 capacityFrames with hc | hc
    · rw [Int.tdiv_eq_ediv_of_nonneg hc]
      split
      · omega
      split <;> omega
    · have hhalf : capacityFrames.tdiv 2 ≤ 0 := tdiv_nonpos_of_nonpos_of_nonneg hc (by decide)
      split
      · omega
      split <;> omega
  · exact Int.bmod_lt (by decide)
  · dsimp only [AudioRing.configure]
    rw [AudioRing.clamp]
    split
    · exact le_rfl
    split
    · exact le_max_right _ _
    · omega

/-- Each step of a `write` keeps the invariant. -/
theorem Inv.produce (h : s.Inv) (ht : s.produce = some t) : t.Inv := by
  unfold State.produce at ht
  have hp := h.producer
  unfold ProducerOk at hp
  cases hprod : s.producer with
  | idle =>
    rw [hprod] at ht
    cases ht
  | indexed packet era write =>
    rw [hprod] at ht hp
    obtain ⟨rfl, rfl⟩ := hp
    cases ht
    apply h.setProducer
    split
    · trivial
    · refine ⟨rfl, rfl, fun hc ↦ ?_⟩
      obtain ⟨hle, hcap⟩ := h.counters hc
      rw [level_eq hle hcap h.fits.1.2]
      dsimp only [AudioRing.capacity] at hcap ⊢
      omega
  | copying packet era write buffered taken copied =>
    rw [hprod] at ht hp
    obtain ⟨rfl, rfl, hroom⟩ := hp
    dsimp only at ht
    split at ht
    · cases ht
      exact h.put _ _ ⟨rfl, rfl, hroom⟩
    · cases ht
      refine h.store (fun t ht ↦ ?_) hroom
      rw [ProducerOk, ht]
      trivial
  | stored level =>
    rw [hprod] at ht
    cases ht
    refine { h with producer := ?_ }
    split <;> trivial
  | clearing =>
    rw [hprod] at ht
    cases ht
    exact { h with producer := trivial }

omit [Zero α] in
/-- Each step of a `read` keeps the invariant. -/
theorem Inv.consume (h : s.Inv) (hg : s.Apart .consume) (ht : s.consume = some t) : t.Inv := by
  unfold State.consume at ht
  have hok := h.consumer
  unfold ConsumerOk at hok
  cases hc : s.consumer with
  | idle =>
    rw [hc] at ht
    cases ht
  | playing frames =>
    rw [hc] at ht
    cases ht
    exact h.setConsumer fun _ ↦ rfl
  | indexed frames read =>
    rw [hc] at ht hok
    cases ht
    apply h.setConsumer
    obtain ⟨⟨hfits, hcap⟩, htarget⟩ := h.fits
    dsimp only [AudioRing.target, AudioRing.capacity] at hfits
    refine ⟨?_, fun hw ↦ ?_, Nat.zero_le _, List.forall_mem_nil _⟩
    · have hle : s.control ≠ .writeCleared → level s.ring.write read ≤ s.ring.capacity := by
        intro hw
        obtain ⟨hle, hroom⟩ := h.counters hw
        rw [hok hw, level_eq hle hroom hcap]
        omega
      dsimp only [AudioRing.capacity] at hle ⊢
      split
      · omega
      · next hdrift =>
        rw [decide_eq_true_eq] at hdrift
        by_cases hw : s.control = .writeCleared
        · have hbound : s.ring.targetFrames = 0 → level s.ring.write read ≤ s.ring.capacity := by
            intro hnone
            exact hg hw hnone read (by rw [hc]; rfl)
          dsimp only [AudioRing.capacity] at hbound
          omega
        · have := hle hw
          omega
    · obtain ⟨hle, hroom⟩ := h.counters hw
      obtain rfl := hok hw
      rw [level_eq hle hroom hcap]
      split
      · next hdrift =>
        rw [decide_eq_true_eq] at hdrift
        dsimp only
        omega
      · dsimp only
        omega
  | copying frames read taken dst =>
    rw [hc] at ht hok
    obtain ⟨hcap, hidx, hlen, hdst⟩ := hok
    dsimp only at ht
    split at ht
    · next hlt =>
      cases ht
      refine { h with consumer := ⟨hcap, hidx, ?_, ?_⟩ }
      · rw [List.length_append]
        exact hlt
      · intro f hf
        obtain hf | hf := List.mem_append.mp hf
        · exact hdst f hf
        · rw [List.mem_singleton.mp hf]
          exact h.opened.trans (h.eras _ (slot_lt hlt hcap))
    · obtain rfl : dst.length = taken := by omega
      split at ht
      · cases ht
        exact { h with consumer := ⟨hidx, hdst⟩ }
      · cases ht
        exact h.finish hidx hdst
  | starved read dst =>
    rw [hc] at ht hok
    cases ht
    exact h.finish hok.1 hok.2

/-- Each step of a `reset` keeps the invariant. -/
theorem Inv.clear (h : s.Inv) (hg : s.Apart .clear) (ht : s.clear = some t) : t.Inv := by
  unfold State.clear at ht
  have hctrl := h.control
  unfold ControlOk at hctrl
  cases hc : s.control with
  | idle =>
    rw [hc] at ht
    cases ht
  | writeCleared =>
    rw [hc] at ht hctrl
    cases ht
    obtain ⟨hholds, hdue⟩ := hg hc
    have hp := h.producer
    have hcons := h.consumer
    refine { h with counters := ?_, producer := ?_, consumer := ?_, control := hctrl }
    · intro _
      refine ⟨Nat.zero_le _, ?_⟩
      dsimp only [AudioRing.capacity]
      unfold due at hdue
      unfold ProducerOk at hp
      split at hdue
      · next hprod =>
        rw [hprod] at hp
        dsimp only [AudioRing.capacity] at hdue
        obtain ⟨rfl, -⟩ := hp
        omega
      · dsimp only [AudioRing.capacity] at hdue
        omega
    · unfold ProducerOk at hp ⊢
      dsimp only
      split at hp
      · trivial
      · trivial
      · trivial
      · exact hp
      · next hprod =>
        obtain ⟨hw, hera, -⟩ := hp
        refine ⟨hw, hera, fun _ ↦ ?_⟩
        rw [due, hprod] at hdue
        rw [Nat.zero_add]
        exact hdue
    · unfold ConsumerOk at hcons ⊢
      dsimp only
      cases hcn : s.consumer with
      | idle => trivial
      | playing frames => trivial
      | _ =>
        rw [hcn] at hholds
        cases hholds
  | readCleared =>
    rw [hc] at ht hctrl
    cases ht
    refine h.setControl (by rw [hc]; decide) le_rfl h.eras ⟨hctrl, fun i hi ↦ ?_⟩
    exact absurd hi (Nat.not_lt_zero i)
  | filling slot =>
    rw [hc] at ht hctrl
    have hne : s.control ≠ .writeCleared := by
      rw [hc]
      exact Control.noConfusion
    obtain ⟨hresets, hfilled⟩ := hctrl
    dsimp only at ht
    split at ht
    · cases ht
      refine h.setControl hne le_rfl (fun i hi ↦ ?_) ⟨hresets, fun i hi hcap ↦ ?_⟩
      · rw [Function.update_apply]
        split
        · dsimp only
          omega
        · exact h.eras i hi
      · dsimp only
        rw [Function.update_apply]
        split
        · exact le_rfl
        · exact hfilled i (by omega) hcap
    · next hend =>
      cases ht
      refine h.setControl hne (Nat.le_succ _) (fun i hi ↦ ?_) hresets
      rw [← hresets]
      exact hfilled i (by omega) hi

/-- Each step of a thread keeps the invariant. -/
theorem Inv.step (h : s.Inv) {a : Action α} (hg : s.Apart a) (ht : s.step a = some t) : t.Inv := by
  cases a with
  | write packet =>
    rw [State.step] at ht
    split at ht
    · split at ht
      · cases ht
        exact h
      · cases ht
        exact h.setProducer ⟨rfl, rfl⟩
    · cases ht
  | produce => exact h.produce ht
  | read frames =>
    rw [State.step] at ht
    split at ht
    · split at ht
      · cases ht
        exact h
      split at ht
      · cases ht
        exact h
      · cases ht
        exact { h with opened := le_rfl, consumer := trivial }
    · cases ht
  | consume => exact h.consume hg ht
  | reset =>
    rw [State.step] at ht
    split at ht
    · next hidle =>
      cases ht
      have hctrl := h.control
      have hp := h.producer
      have hcons := h.consumer
      rw [ControlOk, hidle] at hctrl
      refine { h with counters := ?_, producer := ?_, consumer := ?_, control := ?_ }
      · intro hne
        exact absurd rfl hne
      · unfold Apart at hg
        unfold ProducerOk
        dsimp only
        cases hprod : s.producer with
        | indexed packet era write =>
          rw [hprod] at hg
          cases hg
        | copying packet era write buffered taken copied =>
          rw [hprod] at hg
          cases hg
        | _ => trivial
      · unfold ConsumerOk at hcons ⊢
        dsimp only
        split at hcons
        · trivial
        · trivial
        · exact fun hne ↦ absurd rfl hne
        · exact ⟨hcons.1, fun hne ↦ absurd rfl hne, hcons.2.2⟩
        · exact ⟨fun hne ↦ absurd rfl hne, hcons.2⟩
      · exact congrArg (· + 1) hctrl
    · cases ht
  | clear => exact h.clear hg ht

/-- While no reset clears an index under the side that owns it, the ring stays consistent. -/
theorem reset_consistent (h : machine.ReachableUnder Apart s) : s.Consistent := by
  have hinv : s.Inv := h.invariant (fun _ hs ↦ inv_init hs) fun _ _ _ hg hs ht ↦ hs.step hg ht
  refine ⟨fun hrest ↦ ?_, hinv.fresh⟩
  obtain ⟨-, -, hidle⟩ := hrest
  obtain ⟨hle, hcap⟩ := hinv.counters (by rw [hidle]; decide)
  omega

end Steps

/-- A ring of two frames that aims to hold one, before it is configured. -/
def fresh : AudioRing (Stamped Int) where
  channels := 0
  sampleRate := 0
  capacityFrames := 0
  targetFrames := 0
  buffer := fun _ ↦ 0

/-- A client that was just made for such a ring. -/
theorem reachable_fresh : machine.ReachableUnder Apart
    { ring := fresh.configure 1 1000 2 1 } :=
  .init ⟨fresh, 1, 1000, 2, 1, rfl⟩

/-- A read stores its index between the two stores of a reset. -/
theorem reset_consistent_between : ∃ s : State Int,
    machine.runUnder Apart { ring := fresh.configure 1 1000 2 1 }
      [.write [1], .produce, .produce, .produce, .produce, .produce, .read 1, .consume, .consume,
        .reset, .consume, .consume, .clear, .clear, .clear, .clear, .clear] = some s ∧
      s.AtRest ∧ s.log = [(0, [⟨1, 0⟩])] ∧ s.Consistent := by
  obtain ⟨s, hrun, hrest, hlog⟩ : ∃ s : State Int,
      machine.runUnder Apart { ring := fresh.configure 1 1000 2 1 }
        [.write [1], .produce, .produce, .produce, .produce, .produce, .read 1, .consume, .consume,
          .reset, .consume, .consume, .clear, .clear, .clear, .clear, .clear] = some s ∧
        s.AtRest ∧ s.log = [(0, [⟨1, 0⟩])] := ⟨_, rfl, ⟨rfl, rfl, rfl⟩, rfl⟩
  exact ⟨s, hrun, hrest, hlog, reset_consistent (reachable_fresh.runUnder _ hrun)⟩

/-- A read that loaded its index before a reset stores it afterwards, ahead of `write_`. -/
theorem not_reset_consistent : ¬ ∀ s : State Int, machine.Reachable s → s.Consistent := by
  intro h
  obtain ⟨s, hrun, hrest, hindices⟩ : ∃ s : State Int,
      machine.run { ring := fresh.configure 1 1000 2 1 }
        [.write [1], .produce, .produce, .produce, .produce, .produce, .read 1, .consume, .consume,
          .reset, .clear, .clear, .clear, .clear, .clear, .consume, .consume] = some s ∧
        s.AtRest ∧ (s.ring.write : Int) - s.ring.read = -1 :=
    ⟨_, rfl, ⟨rfl, rfl, rfl⟩, rfl⟩
  have hbounded := (h s (reachable_fresh.reachable.run _ hrun)).bounded hrest
  omega

end State
end WebLinked.Outputs.ClientReset
