import Mathlib.Data.Finset.Card
import Mathlib.Data.Fintype.Option
import Mathlib.Logic.Function.Basic
import WebLinked.Base.Machine

/-!
# The frame ring of a screen window

`src/outputs/screen_frame_ring.h`. The clock thread claims a slot, fills it and publishes
it; the refresh thread acquires the newest slot, draws it and releases it. Each method is
one step, since it holds the ring's lock throughout; filling and drawing happen outside it
and are steps of their own.
-/

namespace WebLinked.Outputs

open WebLinked.Base

/-- `kSlots`; `src/outputs/screen_frame_ring.h:28`. -/
abbrev kSlots : Nat := 3

/-- `ScreenFrameRing`, an index of -1 being none; `src/outputs/screen_frame_ring.h:114–120`. -/
structure ScreenFrameRing where
  isOpen : Bool := false
  newest : Option (Fin kSlots) := none
  inUse : Option (Fin kSlots) := none
  writing : Option (Fin kSlots) := none
  consumed : Bool := true
  presented : Nat := 0
  dropped : Nat := 0
  deriving DecidableEq, Repr

namespace ScreenFrameRing

variable (r : ScreenFrameRing)

/-- `claim`; `src/outputs/screen_frame_ring.h:32–44`. -/
def claim : Option (Fin kSlots) × ScreenFrameRing :=
  if !r.isOpen then (none, r)
  else
    match (List.finRange kSlots).find? fun i ↦
        some i ≠ r.newest ∧ some i ≠ r.inUse ∧ some i ≠ r.writing with
    | some i => (some i, { r with writing := some i })
    | none => (none, r)

/-- `publish`; `src/outputs/screen_frame_ring.h:47–58`. -/
def publish (slot : Fin kSlots) : ScreenFrameRing where
  isOpen := r.isOpen
  newest := some slot
  inUse := r.inUse
  writing := none
  consumed := false
  presented := r.presented
  dropped := if r.consumed then r.dropped else r.dropped + 1

/-- `acquire`; `src/outputs/screen_frame_ring.h:62–70`. -/
def acquire : Option (Fin kSlots) × ScreenFrameRing :=
  if !r.isOpen then (none, r)
  else
    match r.newest with
    | none => (none, r)
    | some i => (some i, { r with inUse := some i, consumed := true })

/-- `release`; `src/outputs/screen_frame_ring.h:74–80`. -/
def release (presented : Bool) : ScreenFrameRing :=
  { r with
    inUse := none
    presented := if presented then r.presented + 1 else r.presented }

/-- `reset`, whatever was there before; `src/outputs/screen_frame_ring.h:93–102`. -/
def reset : ScreenFrameRing := { isOpen := true }

/-- A claimed slot is none of the three in use. -/
theorem claim_eq_some {r : ScreenFrameRing} {i : Fin kSlots} (h : r.claim.1 = some i) :
    some i ≠ r.newest ∧ some i ≠ r.inUse ∧ r.claim.2 = { r with writing := some i } := by
  unfold claim at h ⊢
  split at h
  · cases h
  · next hopen =>
    rw [if_neg hopen]
    split at h
    · next j hfind =>
      cases h
      have hp := List.find?_some hfind
      simp only [decide_eq_true_eq] at hp
      exact ⟨hp.1, hp.2.1, rfl⟩
    · cases h

/-- Of three slots one is free while none is being written. -/
theorem isSome_claim {r : ScreenFrameRing} (hopen : r.isOpen) (hw : r.writing = none) :
    r.claim.1.isSome := by
  obtain ⟨isOpen, newest, inUse, writing, consumed, presented, dropped⟩ := r
  cases hopen
  cases hw
  have hfree : ∀ a b : Option (Fin kSlots), ∃ i ∈ List.finRange kSlots, some i ≠ a ∧ some i ≠ b := by
    decide
  obtain ⟨i, hi, ha, hb⟩ := hfree newest inUse
  have hfind : ((List.finRange kSlots).find? fun i ↦
      some i ≠ newest ∧ some i ≠ inUse ∧ some i ≠ none).isSome := by
    rw [List.find?_isSome]
    exact ⟨i, hi, by simp [ha, hb]⟩
  obtain ⟨j, hj⟩ := Option.isSome_iff_exists.mp hfind
  simp only [claim, hj]
  rfl

/-- An open ring hands out the newest slot. -/
theorem acquire_of_open {r : ScreenFrameRing} (hopen : r.isOpen) :
    r.acquire = (r.newest, if r.newest.isSome then
      { r with inUse := r.newest, consumed := true } else r) := by
  rw [acquire, if_neg (by rw [hopen]; decide)]
  split
  · next h => rw [h]; rfl
  · next i h => rw [h]; rfl

/-- Where the thread that fills slots is. -/
inductive Writer where
  | idle
  | claimed (slot : Fin kSlots)
  | filled (slot : Fin kSlots)
  deriving DecidableEq, Repr

/-- The slot the writer holds. -/
def Writer.slot : Writer → Option (Fin kSlots)
  | .idle => none
  | .claimed i | .filled i => some i

/-- The ring, its two threads and the slots. Publications are numbered from 1; a slot holds
the frame of the publication it shows, or none while it is partly overwritten. `acquired`
and `drawn` are what the slots held when they were acquired and drawn, newest first. -/
structure State where
  ring : ScreenFrameRing
  writer : Writer := .idle
  reader : Option (Fin kSlots) := none
  slots : Fin kSlots → Option Nat
  published : Nat := 0
  acquired : List (Option Nat) := []
  drawn : List (Option Nat) := []

/-- `write` copies a row, `finish` the last one; a draw may read the slot more than once. -/
inductive Action where
  | claim | write | finish | publish
  | acquire | draw | release (presented : Bool)
  deriving DecidableEq, Repr

namespace State

/-- One step of either thread; `src/outputs/screen_window_linux.cpp:198–217,397–422`. -/
def step (s : State) : Action → Option State
  | .claim =>
    match s.writer with
    | .idle =>
      match s.ring.claim with
      | (some i, ring) => some { s with ring, writer := .claimed i }
      | (none, _) => some s
    | _ => none
  | .write =>
    match s.writer with
    | .claimed i => some { s with slots := Function.update s.slots i none }
    | _ => none
  | .finish =>
    match s.writer with
    | .claimed i =>
      some { s with
        slots := Function.update s.slots i (some (s.published + 1)), writer := .filled i }
    | _ => none
  | .publish =>
    match s.writer with
    | .filled i =>
      some { s with
        ring := s.ring.publish i, writer := .idle, published := s.published + 1 }
    | _ => none
  | .acquire =>
    match s.reader with
    | none =>
      match s.ring.acquire with
      | (some i, ring) =>
        some { s with ring, reader := some i, acquired := s.slots i :: s.acquired }
      | (none, _) => some s
    | some _ => none
  | .draw =>
    match s.reader with
    | some i => some { s with drawn := s.slots i :: s.drawn }
    | none => none
  | .release presented =>
    match s.reader with
    | some _ => some { s with ring := s.ring.release presented, reader := none }
    | none => none

/-- A run starts from a reset, with both threads outside the ring. -/
def machine : Machine State Action where
  init s := ∃ slots, s = { ring := reset, slots }
  step := step

/-- Every frame of `frames` is whole and belongs to the first `n` publications. -/
def UpTo (n : Nat) (frames : List (Option Nat)) : Prop :=
  ∀ f ∈ frames, ∃ k, f = some k ∧ k ≤ n

/-- What every step keeps: the ring's indices are the slots its threads hold, which are
apart; the newest slot shows the last publication; what was acquired and drawn was whole. -/
structure Inv (s : State) : Prop where
  opened : s.ring.isOpen
  writing : s.ring.writing = s.writer.slot
  inUse : s.ring.inUse = s.reader
  apart : ∀ i, s.writer.slot = some i → s.reader ≠ some i ∧ s.ring.newest ≠ some i
  filled : ∀ i, s.writer = .filled i → s.slots i = some (s.published + 1)
  newest : ∀ i, s.ring.newest = some i → s.slots i = some s.published
  started : s.ring.newest = none ↔ s.published = 0
  reading : ∀ i, s.reader = some i →
    ∃ k, s.slots i = some k ∧ k ≤ s.published ∧ UpTo k s.drawn
  acquiredUpTo : UpTo s.published s.acquired
  drawnUpTo : UpTo s.published s.drawn
  drawnSorted : s.drawn.Pairwise fun a b ↦ ∃ m n, a = some m ∧ b = some n ∧ n ≤ m
  consumed : s.ring.consumed ↔ s.published = 0 ∨ some s.published ∈ s.acquired
  counted : s.published =
    s.ring.dropped + s.acquired.toFinset.card + if s.ring.consumed then 0 else 1

theorem UpTo.mono {m n : Nat} {frames : List (Option Nat)} (h : UpTo m frames) (hmn : m ≤ n) :
    UpTo n frames := by
  intro f hf
  obtain ⟨k, hk, hle⟩ := h f hf
  exact ⟨k, hk, hle.trans hmn⟩

theorem UpTo.cons {n k : Nat} {frames : List (Option Nat)} (h : UpTo n frames) (hk : k ≤ n) :
    UpTo n (some k :: frames) := by
  intro f hf
  obtain rfl | hf := List.mem_cons.mp hf
  · exact ⟨k, rfl, hk⟩
  · exact h f hf

variable {s t : State}

/-- A reset meets the invariant. -/
theorem inv_init (h : machine.init s) : s.Inv := by
  obtain ⟨slots, rfl⟩ := h
  constructor <;> simp [reset, Writer.slot, UpTo]

theorem Inv.claim (h : s.Inv) {i : Fin kSlots}
    (hi : s.ring.claim.1 = some i) :
    ({ s with ring := s.ring.claim.2, writer := .claimed i } : State).Inv := by
  obtain ⟨hnewest, huse, hring⟩ := claim_eq_some hi
  rw [hring]
  refine { h with writing := rfl, apart := ?_, filled := nofun }
  intro j hj
  cases hj
  rw [h.inUse] at huse
  exact ⟨huse.symm, hnewest.symm⟩

/-- Filling a slot touches neither the one being drawn nor the newest. -/
theorem Inv.fill (h : s.Inv) {i : Fin kSlots} (hw : s.writer = .claimed i) (f : Option Nat)
    {w : Writer} (hslot : w.slot = some i)
    (hf : ∀ j, w = .filled j → i = j ∧ f = some (s.published + 1)) :
    ({ s with slots := Function.update s.slots i f, writer := w } : State).Inv := by
  have hi : s.writer.slot = some i := by rw [hw]; rfl
  refine { h with
    writing := by rw [h.writing, hi, hslot], apart := ?_, filled := ?_, newest := ?_,
    reading := ?_ }
  · intro j hj
    exact h.apart j (by rw [hi, ← hslot, hj])
  · intro j hj
    obtain ⟨rfl, rfl⟩ := hf j hj
    exact Function.update_self ..
  · intro j hj
    have hne : j ≠ i := by
      rintro rfl
      exact (h.apart _ hi).2 hj
    dsimp only
    rw [Function.update_of_ne hne]
    exact h.newest j hj
  · intro j hj
    have hne : j ≠ i := by
      rintro rfl
      exact (h.apart _ hi).1 hj
    dsimp only
    rw [Function.update_of_ne hne]
    exact h.reading j hj

theorem Inv.publish (h : s.Inv) {i : Fin kSlots} (hw : s.writer = .filled i) :
    ({ s with
      ring := s.ring.publish i, writer := .idle, published := s.published + 1 } : State).Inv := by
  have hnew : some (s.published + 1) ∉ s.acquired := by
    intro hmem
    obtain ⟨k, hk, hle⟩ := h.acquiredUpTo _ hmem
    cases hk
    omega
  constructor
  · exact h.opened
  · rfl
  · exact h.inUse
  · exact nofun
  · exact nofun
  · intro j hj
    cases hj
    exact h.filled i hw
  · exact ⟨nofun, nofun⟩
  · intro j hj
    obtain ⟨k, hk, hle, hdrawn⟩ := h.reading j hj
    exact ⟨k, hk, by dsimp only; omega, hdrawn⟩
  · exact h.acquiredUpTo.mono (by dsimp only; omega)
  · exact h.drawnUpTo.mono (by dsimp only; omega)
  · exact h.drawnSorted
  · simp [ScreenFrameRing.publish, hnew]
  · have hcount := h.counted
    cases hc : s.ring.consumed <;>
      simp only [hc, ScreenFrameRing.publish, Bool.false_eq_true, if_true, if_false] at hcount ⊢ <;>
      omega

theorem Inv.acquire (h : s.Inv) {i : Fin kSlots}
    (hi : s.ring.newest = some i) :
    ({ s with
      ring := { s.ring with inUse := s.ring.newest, consumed := true }, reader := some i,
      acquired := s.slots i :: s.acquired } : State).Inv := by
  have hslot := h.newest i hi
  have hpos : s.published ≠ 0 := by
    intro hzero
    rw [h.started.mpr hzero] at hi
    cases hi
  refine { h with
    inUse := hi, apart := ?_, reading := ?_, acquiredUpTo := ?_, consumed := ?_, counted := ?_ }
  · intro j hj
    obtain ⟨-, hnewest⟩ := h.apart j hj
    rw [hi] at hnewest
    exact ⟨hnewest, by dsimp only; rw [hi]; exact hnewest⟩
  · intro j hj
    cases hj
    exact ⟨s.published, hslot, le_rfl, h.drawnUpTo⟩
  · dsimp only
    rw [hslot]
    exact h.acquiredUpTo.cons le_rfl
  · dsimp only
    rw [hslot]
    simp
  · have hcount := h.counted
    have hcons := h.consumed
    dsimp only
    rw [hslot, List.toFinset_cons]
    by_cases hmem : some s.published ∈ s.acquired
    · have hc : s.ring.consumed := hcons.mpr (.inr hmem)
      rw [hc] at hcount
      rwa [Finset.insert_eq_of_mem (List.mem_toFinset.mpr hmem)]
    · have hc : s.ring.consumed = false := by
        rw [Bool.eq_false_iff]
        intro hc
        exact (hcons.mp hc).elim hpos hmem
      rw [hc] at hcount
      rw [Finset.card_insert_of_notMem (by rwa [List.mem_toFinset])]
      simp only [Bool.false_eq_true, if_false, if_true] at hcount ⊢
      omega

theorem Inv.draw (h : s.Inv) {i : Fin kSlots} (hr : s.reader = some i) :
    ({ s with drawn := s.slots i :: s.drawn } : State).Inv := by
  obtain ⟨k, hk, hle, hdrawn⟩ := h.reading i hr
  refine { h with reading := ?_, drawnUpTo := ?_, drawnSorted := ?_ }
  · intro j hj
    rw [hr] at hj
    cases hj
    refine ⟨k, hk, hle, ?_⟩
    dsimp only
    rw [hk]
    exact hdrawn.cons le_rfl
  · dsimp only
    rw [hk]
    exact h.drawnUpTo.cons hle
  · refine List.pairwise_cons.mpr ⟨fun f hf ↦ ?_, h.drawnSorted⟩
    obtain ⟨n, rfl, hn⟩ := hdrawn f hf
    exact ⟨k, n, hk, rfl, hn⟩

theorem Inv.release (h : s.Inv) (presented : Bool) :
    ({ s with ring := s.ring.release presented, reader := none } : State).Inv := by
  refine { h with inUse := rfl, apart := ?_, reading := nofun }
  exact fun j hj ↦ ⟨nofun, (h.apart j hj).2⟩

/-- Every step of either thread keeps the invariant. -/
theorem Inv.step (h : s.Inv) {a : Action} (ht : s.step a = some t) : t.Inv := by
  cases a with
  | claim =>
    rw [State.step] at ht
    split at ht
    · split at ht
      · next i ring hclaim =>
        cases ht
        have hring : ring = s.ring.claim.2 := by rw [hclaim]
        rw [hring]
        exact h.claim (by rw [hclaim])
      · cases ht
        exact h
    · cases ht
  | write =>
    rw [State.step] at ht
    split at ht
    · next i hw =>
      cases ht
      have hfill := h.fill hw none (w := s.writer) (by rw [hw]; rfl) (by rw [hw]; exact nofun)
      exact hfill
    · cases ht
  | finish =>
    rw [State.step] at ht
    split at ht
    · next i hw =>
      cases ht
      exact h.fill hw _ (w := .filled i) rfl fun j hj ↦ ⟨Writer.filled.inj hj, rfl⟩
    · cases ht
  | publish =>
    rw [State.step] at ht
    split at ht
    · next i hw =>
      cases ht
      exact h.publish hw
    · cases ht
  | acquire =>
    rw [State.step, acquire_of_open h.opened] at ht
    split at ht
    · split at ht
      · next i ring hacq =>
        obtain ⟨hi, rfl⟩ := Prod.mk.inj hacq
        cases ht
        rw [if_pos (by rw [hi]; rfl)]
        exact h.acquire hi
      · cases ht
        exact h
    · cases ht
  | draw =>
    rw [State.step] at ht
    split at ht
    · next i hr =>
      cases ht
      exact h.draw hr
    · cases ht
  | release presented =>
    rw [State.step] at ht
    split at ht
    · cases ht
      exact h.release presented
    · cases ht

/-- What the ring promises in a state: an idle writer gets a slot, and the slot it fills is
neither drawn nor newest; an acquire returns the slot of the last publication, if there is
one; only whole frames are drawn and never an earlier one after a later; each publication
was dropped, acquired or is the one still unconsumed. -/
structure Lawful (s : State) : Prop where
  claims : s.writer = .idle → s.ring.claim.1.isSome
  apart : ∀ i, s.writer.slot = some i → s.reader ≠ some i ∧ s.ring.newest ≠ some i
  acquires : (s.ring.acquire.1 = none ↔ s.published = 0) ∧
    ∀ i, s.ring.acquire.1 = some i → s.slots i = some s.published
  whole : none ∉ s.acquired ∧ none ∉ s.drawn
  forward : s.drawn.Pairwise fun a b ↦ ∃ m n, a = some m ∧ b = some n ∧ n ≤ m
  unconsumed : s.ring.consumed = false ↔ 0 < s.published ∧ some s.published ∉ s.acquired
  counted : s.published =
    s.ring.dropped + s.acquired.toFinset.card + if s.ring.consumed then 0 else 1

theorem UpTo.none_notMem {n : Nat} {frames : List (Option Nat)} (h : UpTo n frames) :
    none ∉ frames := by
  intro hmem
  obtain ⟨k, hk, -⟩ := h none hmem
  cases hk

/-- The invariant is enough for the promises. -/
theorem Inv.lawful (h : s.Inv) : s.Lawful where
  claims hw := isSome_claim h.opened (by rw [h.writing, hw]; rfl)
  apart := h.apart
  acquires := by
    rw [acquire_of_open h.opened]
    exact ⟨h.started, h.newest⟩
  whole := ⟨h.acquiredUpTo.none_notMem, h.drawnUpTo.none_notMem⟩
  forward := h.drawnSorted
  unconsumed := by
    rw [← Bool.not_eq_true, h.consumed, not_or, Nat.pos_iff_ne_zero]
  counted := h.counted

/-- In every interleaving of a writer and a reader after a reset. -/
theorem lawful_of_reachable (h : machine.Reachable s) : s.Lawful :=
  (h.invariant (fun _ hs ↦ inv_init hs) fun _ _ _ _ hs ht ↦ hs.step ht).lawful

/-- A frame is published while the one before it is being drawn, and drawn after it. -/
theorem lawful_published_while_drawing :
    ∃ s, machine.run { ring := reset, slots := fun _ ↦ none }
        [.acquire, .claim, .write, .finish, .publish, .acquire, .claim, .draw, .write, .finish,
          .draw, .publish, .release false, .acquire, .draw, .release true, .claim] = some s ∧
      s.drawn = [some 2, some 1, some 1] ∧ s.Lawful := by
  have hinit : machine.Reachable { ring := reset, slots := fun _ ↦ none } := .init ⟨_, rfl⟩
  obtain ⟨s, hrun, hdrawn⟩ : ∃ s, machine.run { ring := reset, slots := fun _ ↦ none }
      [.acquire, .claim, .write, .finish, .publish, .acquire, .claim, .draw, .write, .finish,
        .draw, .publish, .release false, .acquire, .draw, .release true, .claim] = some s ∧
      s.drawn = [some 2, some 1, some 1] :=
    ⟨_, rfl, rfl⟩
  exact ⟨s, hrun, hdrawn, lawful_of_reachable (hinit.run _ hrun)⟩

end State
end ScreenFrameRing
end WebLinked.Outputs
