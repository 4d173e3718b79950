import WebLinked.Base.FloorCounters
import WebLinked.Base.Int64
import WebLinked.Base.Machine
import WebLinked.Core.AudioQueue
import WebLinked.Core.VideoFormat

/-!
# A tick's audio while the page's stream restarts

`src/engine/engine.cpp:262–277,466–496`. The tick takes the buffer's lock four times: for the
sample rate that says how much audio it wants, for the channel count it allocates planes
for, for the read, and for the sample rate it publishes. The browser's calls fall anywhere
between. Every sample is kept with the read that wrote it.
-/

namespace WebLinked.Engine

open WebLinked.Base WebLinked.Core

universe u

/-- `Engine::audioFramesForTick`, none where an `int64_t` overflows;
`src/engine/engine.cpp:262–277`. -/
def audioFramesForTick (rate : FrameRate) (sampleRate tick : Int) : Option Int :=
  if sampleRate ≤ 0 then some 0
  else if rate.numerator ≤ 0 then some 0
  else do
    let samples ← mul64 tick sampleRate
    let scaled ← mul64 samples rate.denominator
    let first ← div64 scaled rate.numerator
    let following ← add64 tick 1
    let samples ← mul64 following sampleRate
    let scaled ← mul64 samples rate.denominator
    let last ← div64 scaled rate.numerator
    let frames ← sub64 last first
    return frames.bmod 4294967296

/-- Where one tick's share fits an `int`, each gets the difference of two whole shares. -/
theorem audioFramesForTick_eq {rate : FrameRate} {sampleRate tick frames : Int}
    (hn : 0 < rate.numerator) (hd : 0 ≤ rate.denominator) (hr : 0 < sampleRate) (ht : 0 ≤ tick)
    (hfits : sampleRate * rate.denominator ≤ 2147483647 * rate.numerator)
    (h : audioFramesForTick rate sampleRate tick = some frames) :
    frames = FloorCounters.share (sampleRate * rate.denominator) rate.numerator (tick + 1) -
      FloorCounters.share (sampleRate * rate.denominator) rate.numerator tick := by
  have hc : 0 ≤ sampleRate * rate.denominator := Int.mul_nonneg hr.le hd
  rw [audioFramesForTick, if_neg (by omega), if_neg (by omega)] at h
  simp only [bind, Option.bind_eq_some_iff, mul64_eq_some_iff, div64_eq_some_iff,
    add64_eq_some_iff, sub64_eq_some_iff] at h
  obtain ⟨_, ⟨-, rfl⟩, _, ⟨-, rfl⟩, _, ⟨-, rfl⟩, _, ⟨-, rfl⟩, _, ⟨-, rfl⟩, _, ⟨-, rfl⟩, _, ⟨-, rfl⟩,
    _, ⟨-, rfl⟩, h⟩ := h
  rw [Int.mul_assoc, Int.mul_assoc, Int.tdiv_eq_ediv_of_nonneg (Int.mul_nonneg ht hc),
    Int.tdiv_eq_ediv_of_nonneg (Int.mul_nonneg (by omega) hc)] at h
  have hstep := FloorCounters.share_step hn hc hfits tick
  rw [FloorCounters.share, FloorCounters.share] at hstep ⊢
  rw [Int.bmod_eq_of_le (by omega) (by omega)] at h
  exact (Option.some.inj h).symm

namespace AudioTick

/-- A sample in the tick's planes, and the `readPlanar` that wrote it, counted from 1. -/
structure Cell (α : Type u) where
  sample : α
  read : Option Nat
  deriving DecidableEq, Repr

/-- `AudioBlock`, with the number of the read it was made from; `src/core/audio_block.h:15`. -/
structure Block (α : Type u) where
  planes : List (List (Cell α))
  interleaved : List (Cell α)
  frames : Nat
  channels : Nat
  sampleRate : Nat
  read : Nat
  deriving DecidableEq, Repr

/-- Where a tick is between two times it takes the buffer's lock. -/
inductive Phase where
  | idle
  | counted (wanted : Int)
  | sized (wanted channels : Nat)
  | filled (wanted channels : Nat)
  deriving DecidableEq, Repr

/-- The buffer, the planes that `audioPlanePointers_` points to, the tick, and what it
handed to the outputs. `outOfBounds` says that a read used a pointer past those. -/
structure State (α : Type u) where
  fifo : AudioFifo α := {}
  planes : List (List (Cell α)) := []
  phase : Phase := .idle
  reads : Nat := 0
  outOfBounds : Bool := false
  blocks : List (Block α) := []
  deriving DecidableEq, Repr

/-- The browser's calls on the buffer, and the steps of a tick. -/
inductive Action (α : Type u) where
  | configure (channels sampleRate capacityFrames : Int)
  | write (planes : Nat → Nat → α) (frames : Int)
  | reset
  | count (enabled : Bool) (rate : FrameRate) (tick : Int)
  | allocate
  | read
  | publish (stale : Bool)

variable {α : Type u} [Zero α]

/-- `std::vector::resize`. -/
def resize {β : Type u} (fill : β) (n : Nat) (xs : List β) : List β :=
  xs.take n ++ List.replicate (n - xs.length) fill

/-- What is written through the plane pointers replaces what was there. -/
def store (planes : List (List (Cell α))) (dst : List (List α)) (read : Nat) :
    List (List (Cell α)) :=
  planes.mapIdx fun c plane ↦
    match dst[c]? with
    | some samples => samples.map fun x ↦ ⟨x, some read⟩
    | none => plane

namespace State

/-- One step. A tick whose frame is `stale` ends before the outputs are called. -/
def step (s : State α) : Action α → Option (State α)
  | .configure channels sampleRate capacityFrames =>
    some { s with fifo := AudioFifo.configure channels sampleRate capacityFrames }
  | .write planes frames => some { s with fifo := s.fifo.write planes frames }
  | .reset => some { s with fifo := s.fifo.reset }
  | .count enabled rate tick =>
    match s.phase with
    | .idle =>
      (if enabled then audioFramesForTick rate s.fifo.sampleRate tick else some 0).map
        fun wanted ↦ { s with phase := .counted wanted }
    | _ => none
  | .allocate =>
    match s.phase with
    | .counted wanted =>
      if wanted > 0 ∧ s.fifo.channels > 0 then
        some { s with
          planes := (resize [] s.fifo.channels s.planes).map
            (resize ⟨0, none⟩ wanted.toNat)
          phase := .sized wanted.toNat s.fifo.channels }
      else some { s with phase := .idle }
    | _ => none
  | .read =>
    match s.phase with
    | .sized wanted channels =>
      match s.fifo.readPlanar wanted with
      | ((_, dst), fifo) =>
        some { s with
          fifo
          planes := store s.planes dst (s.reads + 1)
          reads := s.reads + 1
          outOfBounds := s.outOfBounds || decide (s.planes.length < dst.length)
          phase := .filled wanted channels }
    | _ => none
  | .publish stale =>
    match s.phase with
    | .filled wanted channels =>
      if stale then some { s with phase := .idle }
      else
        some { s with
          phase := .idle
          blocks :=
            { planes := s.planes
              interleaved := (List.range wanted).flatMap fun f ↦
                (List.range channels).map fun c ↦
                  (s.planes.getD c []).getD f ⟨0, none⟩
              frames := wanted
              channels := channels
              sampleRate := s.fifo.sampleRate
              read := s.reads } :: s.blocks }
    | _ => none

/-- An engine before its first tick. -/
def machine : Machine (State α) (Action α) where
  init s := s = {}
  step := step

end State

/-- Every sample of every channel of the block was written by the block's read. -/
structure Block.Written (b : Block α) : Prop where
  planes : b.planes.length = b.channels ∧ ∀ plane ∈ b.planes,
    plane.length = b.frames ∧ ∀ cell ∈ plane, cell.read = some b.read
  interleaved : b.interleaved.length = b.frames * b.channels ∧
    ∀ cell ∈ b.interleaved, cell.read = some b.read

/-- No read left the planes, and every block handed out was written by its read. -/
def State.Safe (s : State α) : Prop :=
  s.outOfBounds = false ∧ ∀ b ∈ s.blocks, b.Written

/-- The channels that planes are allocated for and not yet read into. -/
def Phase.allocated : Phase → Option Nat
  | .sized _ channels => some channels
  | _ => none

/-- Each read finds the channel count the tick allocated planes for. -/
def Agreed (s : State α) : Action α → Prop
  | .read => ∀ channels ∈ s.phase.allocated, s.fifo.channels = channels
  | _ => True

instance : DecidableRel (Agreed (α := α)) := fun s a ↦ by
  cases a <;> unfold Agreed <;> infer_instance

/-- What every step keeps where the reads agree: the planes are as allocated, nothing in them
is newer than the last read, and after a read all of it is from that read. -/
structure Inv (s : State α) : Prop where
  refines : ∃ q, s.fifo.Refines q
  safe : s.Safe
  old : ∀ plane ∈ s.planes, ∀ cell ∈ plane, ∀ k, cell.read = some k → k ≤ s.reads
  sized : ∀ wanted channels, s.phase = .sized wanted channels → 0 < wanted ∧
    s.planes.length = channels ∧ ∀ plane ∈ s.planes, plane.length = wanted
  filled : ∀ wanted channels, s.phase = .filled wanted channels →
    s.planes.length = channels ∧
      ∀ plane ∈ s.planes, plane.length = wanted ∧ ∀ cell ∈ plane, cell.read = some s.reads

omit [Zero α] in
theorem length_resize (fill : α) (n : Nat) (xs : List α) : (resize fill n xs).length = n := by
  rw [resize, List.length_append, List.length_take, List.length_replicate]
  omega

omit [Zero α] in
theorem mem_resize {fill x : α} {n : Nat} {xs : List α} (h : x ∈ resize fill n xs) :
    x ∈ xs ∨ x = fill := by
  obtain h | h := List.mem_append.mp h
  · exact .inl (List.mem_of_mem_take h)
  · exact .inr (List.mem_replicate.mp h).2

omit [Zero α] in
theorem length_store (planes : List (List (Cell α))) (dst : List (List α)) (read : Nat) :
    (store planes dst read).length = planes.length :=
  List.length_mapIdx

omit [Zero α] in
/-- A plane after a read is one the read wrote, or one it did not reach. -/
theorem mem_store {planes : List (List (Cell α))} {dst : List (List α)} {read : Nat}
    {plane : List (Cell α)} (h : plane ∈ store planes dst read) :
    (∃ samples ∈ dst, plane = samples.map fun x ↦ ⟨x, some read⟩) ∨
      plane ∈ planes ∧ dst.length < planes.length := by
  obtain ⟨c, hc, rfl⟩ := List.mem_mapIdx.mp h
  cases hd : dst[c]? with
  | some samples => exact .inl ⟨samples, List.mem_of_getElem? hd, rfl⟩
  | none =>
    have := List.getElem?_eq_none_iff.mp hd
    exact .inr ⟨List.getElem_mem hc, by omega⟩

/-- A browser's call changes the buffer only. -/
theorem Inv.setFifo {s : State α} (h : Inv s) {fifo : AudioFifo α} (hf : ∃ q, fifo.Refines q) :
    Inv { s with fifo } :=
  { h with refines := hf }

/-- Outside a read the tick may go anywhere but to allocated planes. -/
theorem Inv.goto {s : State α} (h : Inv s) {phase : Phase}
    (hs : ∀ wanted channels, phase ≠ .sized wanted channels)
    (hf : ∀ wanted channels, phase ≠ .filled wanted channels) : Inv { s with phase } :=
  { h with
    sized := fun wanted channels hp ↦ absurd hp (hs wanted channels)
    filled := fun wanted channels hp ↦ absurd hp (hf wanted channels) }

theorem Inv.allocate {s : State α} (h : Inv s) {wanted : Int} (hw : wanted > 0) :
    Inv { s with
      planes := (resize [] s.fifo.channels s.planes).map (resize ⟨0, none⟩ wanted.toNat)
      phase := .sized wanted.toNat s.fifo.channels } := by
  refine { h with old := ?_, sized := ?_, filled := nofun }
  · intro plane hplane cell hcell k hk
    obtain ⟨row, hrow, rfl⟩ := List.mem_map.mp hplane
    obtain hcell | rfl := mem_resize hcell
    · obtain hrow | rfl := mem_resize hrow
      · exact h.old row hrow cell hcell k hk
      · cases hcell
    · cases hk
  · intro n channels hp
    cases hp
    refine ⟨by omega, ?_, ?_⟩
    · rw [List.length_map, length_resize]
    · intro plane hplane
      obtain ⟨plane, -, rfl⟩ := List.mem_map.mp hplane
      exact length_resize _ _ _

/-- A read that finds the channels the tick allocated for writes all of every plane. -/
theorem Inv.read {s : State α} (h : Inv s) {wanted channels : Nat}
    (hp : s.phase = .sized wanted channels) (hch : s.fifo.channels = channels) :
    Inv { s with
      fifo := (s.fifo.readPlanar wanted).2
      planes := store s.planes (s.fifo.readPlanar wanted).1.2 (s.reads + 1)
      reads := s.reads + 1
      outOfBounds := s.outOfBounds ||
        decide (s.planes.length < (s.fifo.readPlanar wanted).1.2.length)
      phase := .filled wanted channels } := by
  obtain ⟨q, hq⟩ := h.refines
  obtain ⟨hwanted, hlen, -⟩ := h.sized wanted channels hp
  have hdst : (s.fifo.readPlanar wanted).1.2.length = s.fifo.channels :=
    hq.length_readPlanar (by omega)
  refine ⟨⟨_, (hq.readPlanar wanted).2⟩, ⟨?_, h.safe.2⟩, ?_, nofun, ?_⟩
  · simp only [h.safe.1, Bool.false_or, decide_eq_false_iff_not]
    omega
  · intro plane hplane cell hcell k hk
    obtain ⟨samples, -, rfl⟩ | ⟨hold, -⟩ := mem_store hplane
    · obtain ⟨x, -, rfl⟩ := List.mem_map.mp hcell
      cases hk
      exact le_rfl
    · have := h.old plane hold cell hcell k hk
      dsimp only
      omega
  · intro n m hp'
    cases hp'
    refine ⟨(length_store ..).trans hlen, fun plane hplane ↦ ?_⟩
    obtain ⟨samples, hs, rfl⟩ | ⟨-, hlt⟩ := mem_store hplane
    · refine ⟨?_, fun cell hcell ↦ ?_⟩
      · rw [List.length_map, hq.lengths_readPlanar samples hs, Int.toNat_natCast]
      · obtain ⟨x, -, rfl⟩ := List.mem_map.mp hcell
        rfl
    · omega

/-- The block of a tick whose planes are all from its read. -/
theorem Inv.publish {s : State α} (h : Inv s) {wanted channels : Nat}
    (hp : s.phase = .filled wanted channels) :
    Inv { s with
      phase := .idle
      blocks :=
        { planes := s.planes
          interleaved := (List.range wanted).flatMap fun f ↦ (List.range channels).map fun c ↦
            (s.planes.getD c []).getD f ⟨0, none⟩
          frames := wanted
          channels := channels
          sampleRate := s.fifo.sampleRate
          read := s.reads } :: s.blocks } := by
  obtain ⟨hlen, hplanes⟩ := h.filled wanted channels hp
  refine { h with safe := ⟨h.safe.1, fun b hb ↦ ?_⟩, sized := nofun, filled := nofun }
  obtain rfl | hb := List.mem_cons.mp hb
  · refine ⟨⟨hlen, hplanes⟩, ?_, fun cell hcell ↦ ?_⟩
    · simp only [List.length_flatMap, List.length_map, List.length_range, List.map_const',
        List.sum_replicate_nat]
    · obtain ⟨f, hf, hcell⟩ := List.mem_flatMap.mp hcell
      obtain ⟨c, hc, rfl⟩ := List.mem_map.mp hcell
      rw [List.mem_range] at hf hc
      obtain ⟨plane, hget⟩ : ∃ plane, s.planes[c]? = some plane :=
        ⟨_, List.getElem?_eq_getElem (by omega)⟩
      obtain ⟨hwidth, hread⟩ := hplanes _ (List.mem_of_getElem? hget)
      rw [List.getD_eq_getElem?_getD, List.getD_eq_getElem?_getD, hget, Option.getD_some,
        List.getElem?_eq_getElem (by omega), Option.getD_some]
      exact hread _ (List.getElem_mem _)
  · exact h.safe.2 b hb

/-- Every step whose read agrees keeps the invariant. -/
theorem Inv.step {s t : State α} (h : Inv s) {a : Action α} (hg : Agreed s a)
    (ht : s.step a = some t) : Inv t := by
  obtain ⟨q, hq⟩ := h.refines
  cases a with
  | configure channels sampleRate capacityFrames =>
    cases ht
    exact h.setFifo ⟨_, AudioFifo.refines_configure channels sampleRate capacityFrames⟩
  | write planes frames =>
    cases ht
    exact h.setFifo ⟨_, hq.write planes frames⟩
  | reset =>
    cases ht
    exact h.setFifo ⟨_, hq.reset⟩
  | count enabled rate tick =>
    rw [State.step] at ht
    split at ht
    · obtain ⟨wanted, -, rfl⟩ := Option.map_eq_some_iff.mp ht
      exact h.goto nofun nofun
    · cases ht
  | allocate =>
    rw [State.step] at ht
    split at ht
    · split at ht
      · next hw =>
        cases ht
        exact h.allocate hw.1
      · cases ht
        exact h.goto nofun nofun
    · cases ht
  | read =>
    rw [State.step] at ht
    split at ht
    · next wanted channels hp =>
      cases ht
      exact h.read hp (hg channels (by rw [hp]; rfl))
    · cases ht
  | publish stale =>
    rw [State.step] at ht
    split at ht
    · next wanted channels hp =>
      split at ht
      · cases ht
        exact h.goto nofun nofun
      · cases ht
        exact h.publish hp
    · cases ht

/-- A read that finds another channel count leaves the planes, or what the tick then hands
out has a plane that the read did not reach. -/
theorem Inv.not_safe_of_read {s t : State α} (h : Inv s) (hg : ¬ Agreed s .read)
    (ht : s.step .read = some t) :
    ¬ t.Safe ∨ ∀ u, t.step (.publish false) = some u → ¬ u.Safe := by
  obtain ⟨q, hq⟩ := h.refines
  rw [State.step] at ht
  split at ht
  · next wanted channels hp =>
    cases ht
    obtain ⟨hwanted, hlen, hlengths⟩ := h.sized wanted channels hp
    have hch : s.fifo.channels ≠ channels := by
      intro heq
      refine hg fun c hc ↦ ?_
      rw [hp] at hc
      cases hc
      exact heq
    have hdst : (s.fifo.readPlanar wanted).1.2.length = s.fifo.channels :=
      hq.length_readPlanar (by omega)
    rcases Nat.lt_or_gt_of_ne hch with hfewer | hmore
    · right
      intro u hu hsafe
      rw [State.step] at hu
      cases hu
      obtain ⟨-, hwritten⟩ := (hsafe.2 _ List.mem_cons_self).planes
      -- The last plane is still as it was before the read.
      have hlast : channels - 1 < s.planes.length := by omega
      have hmem : s.planes[channels - 1] ∈
          store s.planes (s.fifo.readPlanar wanted).1.2 (s.reads + 1) := by
        refine List.mem_mapIdx.mpr ⟨channels - 1, hlast, ?_⟩
        rw [List.getElem?_eq_none (by omega)]
      obtain ⟨-, hread⟩ := hwritten _ hmem
      have hwidth := hlengths _ (List.getElem_mem hlast)
      have hcell : s.planes[channels - 1][0] ∈ s.planes[channels - 1] := List.getElem_mem _
      have hold := h.old _ (List.getElem_mem hlast) _ hcell _ (hread _ hcell)
      dsimp only at hold
      omega
    · left
      intro hsafe
      have hout : (s.outOfBounds ||
          decide (s.planes.length < (s.fifo.readPlanar wanted).1.2.length)) = false := hsafe.1
      rw [h.safe.1, Bool.false_or, decide_eq_false_iff_not] at hout
      omega
  · cases ht

/-- In every run in which each read finds the channels the tick allocated for, no read leaves
the planes and every block handed out was written by its read; and the first read that finds
another number loses that, at once or with the block of its tick. -/
theorem safe_while_agreed {s : State α} (hs : State.machine.ReachableUnder Agreed s) :
    s.Safe ∧ ∀ t, ¬ Agreed s .read → s.step .read = some t →
      ¬ t.Safe ∨ ∀ u, t.step (.publish false) = some u → ¬ u.Safe := by
  have hinv : Inv s := by
    refine hs.invariant (fun s hinit ↦ ?_) fun s a t hg hi ht ↦ hi.step hg ht
    cases hinit
    exact ⟨⟨_, AudioFifo.refines_initial⟩, ⟨rfl, nofun⟩, nofun, nofun, nofun⟩
  exact ⟨hinv.safe, fun t ↦ hinv.not_safe_of_read⟩

/-- A stereo stream restarts in stereo, at another rate, while a tick is under way. -/
theorem safe_while_agreed_stereo :
    ∃ s : State Int, State.machine.runUnder Agreed {}
        [.configure 2 48000 24000, .count true ⟨25, 1⟩ 0, .allocate, .configure 2 44100 22050,
          .read, .publish false] = some s ∧ s.blocks.length = 1 ∧ s.Safe ∧
      ∀ t, ¬ Agreed s .read → s.step .read = some t →
        ¬ t.Safe ∨ ∀ u, t.step (.publish false) = some u → ¬ u.Safe := by
  obtain ⟨s, hrun, hblocks⟩ : ∃ s, State.machine.runUnder Agreed ({} : State Int)
      [.configure 2 48000 24000, .count true ⟨25, 1⟩ 0, .allocate, .configure 2 44100 22050,
        .read, .publish false] = some s ∧ s.blocks.length = 1 :=
    ⟨_, rfl, rfl⟩
  have hinit : State.machine.ReachableUnder Agreed ({} : State Int) := .init rfl
  exact ⟨s, hrun, hblocks, safe_while_agreed (hinit.runUnder _ hrun)⟩

/-- A stereo stream becomes 5.1 before the read, which uses pointers there are not; a 5.1
stream becomes stereo, and four of the six channels handed out were not written. -/
theorem not_safe_of_restart :
    (∃ s : State Int, State.machine.Reachable s ∧ s.outOfBounds = true ∧ ¬ s.Safe) ∧
      ∃ s : State Int, State.machine.Reachable s ∧ s.outOfBounds = false ∧ ¬ s.Safe := by
  have hinit : State.machine.Reachable ({} : State Int) := .init rfl
  constructor
  · obtain ⟨s, hrun, hout⟩ : ∃ s, State.machine.run ({} : State Int)
        [.configure 2 48000 24000, .count true ⟨25, 1⟩ 0, .allocate, .configure 6 48000 24000,
          .read] = some s ∧ s.outOfBounds = true :=
      ⟨_, rfl, rfl⟩
    refine ⟨s, hinit.run _ hrun, hout, fun hsafe ↦ ?_⟩
    rw [hsafe.1] at hout
    cases hout
  · obtain ⟨s, hrun, hout, hcell⟩ : ∃ s, State.machine.run ({} : State Int)
        [.configure 6 48000 24000, .count true ⟨25, 1⟩ 0, .allocate, .configure 2 48000 24000,
          .read, .publish false] = some s ∧ s.outOfBounds = false ∧
        (s.blocks.flatMap fun b ↦ (b.planes.getD 2 []).take 1) = [⟨0, none⟩] :=
      ⟨_, rfl, rfl, rfl⟩
    refine ⟨s, hinit.run _ hrun, hout, fun hsafe ↦ ?_⟩
    have hmem : (⟨0, none⟩ : Cell Int) ∈
        s.blocks.flatMap fun b ↦ (b.planes.getD 2 []).take 1 := by
      rw [hcell]
      exact List.mem_cons_self
    obtain ⟨b, hb, hmem⟩ := List.mem_flatMap.mp hmem
    have hplane := List.mem_of_mem_take hmem
    rw [List.getD_eq_getElem?_getD] at hplane
    cases hget : b.planes[2]? with
    | none =>
      rw [hget] at hplane
      cases hplane
    | some plane =>
      rw [hget] at hplane
      have hread := ((hsafe.2 b hb).planes.2 plane (List.mem_of_getElem? hget)).2 _ hplane
      cases hread

end AudioTick
end WebLinked.Engine
