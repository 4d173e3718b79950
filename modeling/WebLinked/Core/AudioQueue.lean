import Mathlib
import WebLinked.Core.AudioFifo

/-!
# The audio buffer is a queue that keeps the newest sample-frames

The queue has sample-frames instead of planes and no cursors. Each call on the buffer gives
the same reply as on the queue it stands for, whatever the packet and read sizes.
-/

namespace WebLinked.Core.AudioFifo

open WebLinked.Base

universe u

variable {α : Type u} [Zero α]

/-- A queue of sample-frames, oldest first. Each sample-frame has a sample of every channel.
The counts are since the queue was configured. -/
structure Queue (α : Type u) where
  channels : Nat := 0
  capacity : Nat := 0
  frames : List (List α) := []
  stats : AudioFifoStats := {}

namespace Queue

/-- An empty queue. -/
def configure (channels capacityFrames : Int) : Queue α where
  channels := channels.toNat
  capacity := (max 1 capacityFrames).toNat

/-- The newest sample-frames stay. A queue without channels takes nothing. -/
def write (q : Queue α) (packet : List (List α)) : Queue α :=
  if q.channels = 0 then q
  else
    { q with
      frames := (q.frames ++ packet).rtake q.capacity
      stats := { q.stats with
        framesWritten := q.stats.framesWritten + min packet.length q.capacity
        overruns := q.stats.overruns +
          if q.capacity < q.frames.length + packet.length then 1 else 0 } }

/-- The oldest sample-frames, in order, and then silence. A queue without channels gives
nothing. -/
def read (q : Queue α) (frames : Nat) : (Nat × List (List α)) × Queue α :=
  if frames = 0 ∨ q.channels = 0 then ((0, []), q)
  else
    ((min frames q.frames.length,
      q.frames.take frames ++
        List.replicate (frames - q.frames.length) (List.replicate q.channels 0)),
      { q with
        frames := q.frames.drop frames
        stats := { q.stats with
          framesRead := q.stats.framesRead + min frames q.frames.length
          underruns := q.stats.underruns + if q.frames.length < frames then 1 else 0 } })

/-- Everything goes, but for the counts. -/
def reset (q : Queue α) : Queue α := { q with frames := [] }

/-- The sample-frames of a packet. -/
def packet (channels : Nat) (planes : Nat → Nat → α) (frames : Nat) : List (List α) :=
  (List.range frames).map fun f ↦ (List.range channels).map fun c ↦ planes c f

/-- A channel's samples. -/
def column (c : Nat) (frames : List (List α)) : List α := frames.map fun frame ↦ frame.getD c 0

/-- One call. -/
def call (q : Queue α) : Call α → Reply α × Queue α
  | .configure channels _ capacityFrames => (.done, configure channels capacityFrames)
  | .write planes frames => (.done, q.write (packet q.channels planes frames.toNat))
  | .readInterleaved frames =>
    match q.read frames.toNat with
    | ((taken, dst), q) => (.interleaved taken dst.flatten, q)
  | .readPlanar frames =>
    match q.read frames.toNat with
    | ((taken, dst), q') =>
      (.planar taken
        (if dst = [] then [] else (List.range q.channels).map fun c ↦ column c dst), q')
  | .reset => (.done, q.reset)

/-- A sequence of calls, with the replies in order. -/
def run (q : Queue α) : List (Call α) → List (Reply α) × Queue α
  | [] => ([], q)
  | c :: rest => ((q.call c).1 :: ((q.call c).2.run rest).1, ((q.call c).2.run rest).2)

end Queue

open Queue

/-- The buffer stands for the queue: the window of each plane is the queue's channel. -/
structure Refines (a : AudioFifo α) (q : Queue α) : Prop where
  channels : q.channels = a.channels
  capacity : q.capacity = a.capacity
  stats : q.stats = a.stats
  filled : q.frames.length = a.filled
  filled_le : a.filled ≤ a.capacity
  readPos_lt : a.channels ≠ 0 → a.readPos < a.capacity
  writePos : a.writePos = (a.readPos + a.filled) % a.capacity
  planes_length : a.planes.length = a.channels
  lengths : ∀ plane ∈ a.planes, plane.length = a.capacity
  widths : ∀ frame ∈ q.frames, frame.length = a.channels
  contents : ∀ c plane, a.planes[c]? = some plane →
    Circular.window plane a.readPos a.filled = column c q.frames

omit [Zero α] in
theorem length_samples (channel : Nat → α) (offset k : Nat) :
    (samples channel offset k).length = k := by
  rw [samples, List.length_map, List.length_range]

omit [Zero α] in
/-- The tail of a packet. -/
theorem samples_eq_rtake (channel : Nat → α) {k n : Nat} (h : n ≤ k) :
    samples channel (k - n) n = (samples channel 0 k).rtake n := by
  rw [List.rtake, length_samples, samples, samples, ← List.map_drop]
  apply List.ext_getElem
  · simp only [List.length_map, List.length_drop, List.length_range]
    omega
  · intro i _ _
    simp

omit [Zero α] in
theorem length_packet (channels : Nat) (planes : Nat → Nat → α) (k : Nat) :
    (packet channels planes k).length = k := by
  rw [packet, List.length_map, List.length_range]

/-- A channel of a packet is what its plane holds. -/
theorem column_packet {channels c : Nat} (hc : c < channels) (planes : Nat → Nat → α) (k : Nat) :
    column c (packet channels planes k) = samples (planes c) 0 k := by
  rw [column, packet, samples, List.map_map]
  apply List.map_congr_left
  intro f _
  simp [List.getD_eq_getElem?_getD, hc]

theorem column_rtake (c n : Nat) (frames : List (List α)) :
    column c (frames.rtake n) = (column c frames).rtake n := by
  rw [column, column, List.rtake, List.rtake, List.map_drop, List.length_map]

/-- What a list keeps of a suffix it keeps anyway. -/
theorem rtake_append_rtake {β : Type u} (n : Nat) (xs ys : List β) :
    (xs ++ ys.rtake n).rtake n = (xs ++ ys).rtake n := by
  simp only [List.rtake, List.length_append, List.length_drop]
  rcases Nat.le_total ys.length n with h | h
  · rw [Nat.sub_eq_zero_of_le h, List.drop_zero, Nat.sub_zero]
  · have hkept : ys.length - (ys.length - n) = n := by omega
    have hskip : xs.length + ys.length - n - xs.length = ys.length - n := by omega
    have hgone : xs.drop (xs.length + ys.length - n) = [] :=
      List.drop_eq_nil_of_le (by omega)
    rw [hkept, Nat.add_sub_cancel, List.drop_left, List.drop_append, hgone, List.nil_append,
      hskip]

omit [Zero α] in
/-- What `write` does to a buffer with channels, in one formula for each field. -/
theorem write_eq {a : AudioFifo α} {planes : Nat → Nat → α} {frames : Int} (hframes : 0 < frames)
    (hch : a.channels ≠ 0) (hpos : a.readPos < a.capacity) (hle : a.filled ≤ a.capacity) :
    a.write planes frames =
      { a with
        planes := a.planes.mapIdx fun c plane ↦ Circular.copyIn a.capacity plane a.writePos
          ((samples (planes c) 0 frames.toNat).rtake a.capacity)
        writePos := (a.writePos + min frames.toNat a.capacity) % a.capacity
        readPos :=
          (a.readPos + (a.filled + min frames.toNat a.capacity - a.capacity)) % a.capacity
        filled := min a.capacity (a.filled + min frames.toNat a.capacity)
        stats := { a.stats with
          framesWritten := a.stats.framesWritten + min frames.toNat a.capacity
          overruns := a.stats.overruns +
            if a.capacity < a.filled + frames.toNat then 1 else 0 } } := by
  obtain ⟨k, rfl⟩ := Int.eq_ofNat_of_zero_le (Int.le_of_lt hframes)
  have hsamples : ∀ p : Nat → α,
      samples p (if (k : Int) > a.capacity then k - a.capacity else 0)
        (if (k : Int) > a.capacity then a.capacity else k) = (samples p 0 k).rtake a.capacity := by
    intro p
    split
    · exact samples_eq_rtake p (by omega)
    · rw [List.rtake, length_samples, Nat.sub_eq_zero_of_le (by omega), List.drop_zero]
  have htaken : (if (k : Int) > a.capacity then a.capacity else k) = min k a.capacity := by
    split <;> omega
  have hread : (if min k a.capacity > a.capacity - a.filled then
        (a.readPos + (min k a.capacity - (a.capacity - a.filled))) % a.capacity
      else a.readPos) =
      (a.readPos + (a.filled + min k a.capacity - a.capacity)) % a.capacity := by
    split
    · congr 2
      omega
    · rw [Nat.sub_eq_zero_of_le (by omega), Nat.add_zero, Nat.mod_eq_of_lt hpos]
  have hfilled : (if min k a.capacity > a.capacity - a.filled then a.capacity
      else a.filled + min k a.capacity) = min a.capacity (a.filled + min k a.capacity) := by
    split <;> omega
  have hover : ∀ n : Nat, (if (decide ((k : Int) > a.capacity ∨
        min k a.capacity > a.capacity - a.filled)) = true then n + 1 else n) =
      n + if a.capacity < a.filled + k then 1 else 0 := by
    intro n
    have hiff : ((k : Int) > a.capacity ∨ min k a.capacity > a.capacity - a.filled) ↔
        a.capacity < a.filled + k := by
      omega
    by_cases hc : a.capacity < a.filled + k
    · rw [if_pos (decide_eq_true (hiff.mpr hc)), if_pos hc]
    · rw [if_neg (fun hd ↦ hc (hiff.mp (of_decide_eq_true hd))), if_neg hc, Nat.add_zero]
  rw [write, if_neg (by omega), if_neg (by omega)]
  simp only [Int.toNat_natCast, hsamples]
  simp only [htaken]
  simp only [hread, hfilled, hover]

/-- A write does to the buffer what it does to the queue. -/
theorem Refines.write {a : AudioFifo α} {q : Queue α} (h : Refines a q)
    (planes : Nat → Nat → α) (frames : Int) :
    Refines (a.write planes frames) (q.write (packet q.channels planes frames.toNat)) := by
  by_cases hch : a.channels = 0
  · rw [Queue.write, if_pos (by rw [h.channels, hch]), AudioFifo.write]
    simp only [hch, true_or, if_true, ite_self]
    exact h
  have hqch : q.channels ≠ 0 := by
    rw [h.channels]
    exact hch
  by_cases hframes : frames ≤ 0
  · have hnone : q.write (packet q.channels planes frames.toNat) = q := by
      have hlen := h.filled
      have hle := h.filled_le
      have hcap := h.capacity
      have hroom : ¬ q.capacity < q.frames.length + 0 := by omega
      rw [Int.toNat_eq_zero.mpr hframes, Queue.write, if_neg hqch, packet, List.range_zero,
        List.map_nil, List.append_nil, List.rtake, Nat.sub_eq_zero_of_le (by omega),
        List.drop_zero, List.length_nil, Nat.zero_min, if_neg hroom]
      rfl
    rw [hnone, AudioFifo.write, if_pos hframes]
    exact h
  have hpos := h.readPos_lt hch
  have hcap : 0 < a.capacity := by omega
  rw [write_eq (Int.not_le.mp hframes) hch hpos h.filled_le, Queue.write, if_neg hqch]
  have hlen := h.filled
  have hfull := h.filled_le
  constructor
  · exact h.channels
  · exact h.capacity
  · dsimp only
    rw [length_packet, h.stats, h.capacity, h.filled]
  · dsimp only
    rw [List.rtake, List.length_drop, List.length_append, length_packet, h.capacity]
    omega
  · exact Nat.min_le_left _ _
  · exact fun _ ↦ Nat.mod_lt _ hcap
  · dsimp only
    rw [h.writePos, Nat.mod_add_mod, Nat.mod_add_mod]
    rcases Nat.lt_or_ge a.capacity (a.filled + min frames.toNat a.capacity) with hover | hroom
    · rw [Nat.min_eq_left hover.le]
      rw [show a.readPos + a.filled + min frames.toNat a.capacity = a.readPos +
        (a.filled + min frames.toNat a.capacity - a.capacity) + a.capacity by omega]
    · rw [Nat.min_eq_right hroom, Nat.sub_eq_zero_of_le hroom, Nat.add_zero, Nat.add_assoc]
  · exact (List.length_mapIdx).trans h.planes_length
  · intro plane hplane
    obtain ⟨c, hc, rfl⟩ := List.mem_mapIdx.mp hplane
    have hmem : a.planes[c] ∈ a.planes := List.getElem_mem hc
    refine Circular.length_copyIn (h.lengths _ hmem) ?_ ?_
    · rw [h.writePos]
      exact Nat.mod_lt _ hcap
    · rw [List.rtake, List.length_drop]
      omega
  · intro frame hframe
    have hmem := List.mem_of_mem_drop hframe
    obtain hold | hnew := List.mem_append.mp hmem
    · exact h.widths frame hold
    · obtain ⟨f, -, rfl⟩ := List.mem_map.mp hnew
      rw [List.length_map, List.length_range]
      exact h.channels
  · intro c plane hplane
    rw [List.getElem?_mapIdx, Option.map_eq_some_iff] at hplane
    obtain ⟨old, hold, rfl⟩ := hplane
    have hc : c < q.channels := by
      rw [h.channels, ← h.planes_length]
      exact (List.getElem?_eq_some_iff.mp hold).1
    have hmem : old ∈ a.planes := List.mem_of_getElem? hold
    have hkept : ((samples (planes c) 0 frames.toNat).rtake a.capacity).length =
        min frames.toNat a.capacity := by
      rw [List.rtake, List.length_drop, length_samples]
      omega
    have hwindow := Circular.window_copyIn a.readPos
      ((samples (planes c) 0 frames.toNat).rtake a.capacity)
      (h.lengths old hmem) hcap h.filled_le (by omega)
    rw [hkept] at hwindow
    dsimp only
    rw [h.writePos, hwindow, h.contents c old hold, rtake_append_rtake, ← column_packet hc,
      h.capacity, column_rtake, column, column, column, List.map_append]

/-- Reading moves the window on as it shortens the queue. -/
theorem Refines.consume {a : AudioFifo α} {q : Queue α} (h : Refines a q) (hch : a.channels ≠ 0)
    (k : Nat) :
    Refines (a.consume (min k a.filled) k)
      { q with
        frames := q.frames.drop k
        stats := { q.stats with
          framesRead := q.stats.framesRead + min k q.frames.length
          underruns := q.stats.underruns + if q.frames.length < k then 1 else 0 } } := by
  have hpos := h.readPos_lt hch
  have hlen := h.filled
  have hfull := h.filled_le
  refine { h with
    stats := ?_, filled := ?_, filled_le := ?_, readPos_lt := ?_, writePos := ?_, widths := ?_,
    contents := ?_ }
  · have hshort : min k a.filled < k ↔ a.filled < k := by omega
    simp only [AudioFifo.consume, h.stats, hlen, hshort]
    split <;> rfl
  · simp only [AudioFifo.consume, List.length_drop, hlen]
    omega
  · simp only [AudioFifo.consume]
    omega
  · exact fun _ ↦ Nat.mod_lt _ (by omega)
  · simp only [AudioFifo.consume]
    rw [Nat.mod_add_mod, h.writePos]
    congr 1
    omega
  · exact fun frame hframe ↦ h.widths frame (List.mem_of_mem_drop hframe)
  · intro c plane hplane
    have hb := h.lengths plane (List.mem_of_getElem? hplane)
    have hadvance := Circular.window_advance (b := plane) a.readPos
      (Nat.min_le_right k a.filled) (by omega)
    rw [hb] at hadvance
    simp only [AudioFifo.consume]
    rw [hadvance, h.contents c plane hplane, column, column, List.map_drop]
    rcases Nat.le_total k a.filled with hk | hk
    · rw [Nat.min_eq_left hk]
    · rw [Nat.min_eq_right hk, List.drop_eq_nil_of_le, List.drop_eq_nil_of_le] <;>
        rw [List.length_map] <;> omega

/-- What the queue gives is the window of each channel, and silence. -/
theorem Refines.column_read {a : AudioFifo α} {q : Queue α} (h : Refines a q) {c k : Nat}
    {plane : List α} (hplane : a.planes[c]? = some plane) :
    column c (q.frames.take k ++ List.replicate (k - q.frames.length)
        (List.replicate q.channels 0)) =
      Circular.window plane a.readPos (min k a.filled) ++
        List.replicate (k - min k a.filled) 0 := by
  have hlen := h.filled
  have hfull := h.filled_le
  have hsilent : (List.replicate q.channels (0 : α)).getD c 0 = 0 := by
    rw [List.getD_eq_getElem?_getD, List.getElem?_replicate]
    split <;> rfl
  have hwindow : Circular.window plane a.readPos (min k a.filled) =
      (Circular.window plane a.readPos a.filled).take k := by
    rw [Circular.window, Circular.window, List.take_take]
  rw [hwindow, h.contents c plane hplane, column, column, List.map_append, List.map_replicate,
    hsilent, List.map_take, hlen]
  congr 2
  omega

theorem Refines.exists_plane {a : AudioFifo α} {q : Queue α} (h : Refines a q) {c : Nat}
    (hc : c < a.channels) : ∃ plane, a.planes[c]? = some plane :=
  ⟨_, List.getElem?_eq_getElem (by rw [h.planes_length]; exact hc)⟩

/-- The planar read writes the queue's channels. -/
theorem Refines.readPlanar {a : AudioFifo α} {q : Queue α} (h : Refines a q) (frames : Int) :
    (a.call (.readPlanar frames)).1 = (q.call (.readPlanar frames)).1 ∧
      Refines (a.call (.readPlanar frames)).2 (q.call (.readPlanar frames)).2 := by
  simp only [AudioFifo.call, Queue.call, AudioFifo.readPlanar, Queue.read]
  by_cases hframes : frames ≤ 0
  · rw [if_pos hframes, if_pos (.inl (Int.toNat_eq_zero.mpr hframes))]
    exact ⟨rfl, h⟩
  by_cases hch : a.channels = 0
  · rw [if_neg hframes, if_pos hch, if_pos (.inr (h.channels.trans hch))]
    exact ⟨rfl, h⟩
  have hqch : ¬ (frames.toNat = 0 ∨ q.channels = 0) := by
    rw [h.channels]
    omega
  rw [if_neg hframes, if_neg hch, if_neg hqch]
  refine ⟨?_, h.consume hch _⟩
  have hpos := h.readPos_lt hch
  have hfull := h.filled_le
  have hdst : q.frames.take frames.toNat ++ List.replicate (frames.toNat - q.frames.length)
      (List.replicate q.channels 0) ≠ [] := by
    intro hnil
    have := congrArg List.length hnil
    simp only [List.length_append, List.length_take, List.length_replicate,
      List.length_nil] at this
    omega
  dsimp only
  rw [if_neg hdst, h.filled]
  congr 1
  apply List.ext_getElem?
  intro c
  rw [List.getElem?_map, List.getElem?_map]
  rcases Nat.lt_or_ge c a.channels with hc | hc
  · obtain ⟨plane, hget⟩ := h.exists_plane hc
    have hb := h.lengths _ (List.mem_of_getElem? hget)
    rw [List.getElem?_range (by rw [h.channels]; exact hc), hget, Option.map_some,
      Option.map_some, ← h.filled, h.column_read hget, h.filled,
      Circular.copyOut_eq_window hb hpos (by omega)]
  · rw [List.getElem?_eq_none (by rw [h.planes_length]; exact hc), List.getElem?_eq_none]
    · rfl
    · rw [List.length_range, h.channels]
      exact hc

/-- A planar read writes the planes of every channel there is. -/
theorem Refines.length_readPlanar {a : AudioFifo α} {q : Queue α} (h : Refines a q) {frames : Int}
    (hframes : 0 < frames) : (a.readPlanar frames).1.2.length = a.channels := by
  rw [AudioFifo.readPlanar, if_neg (by omega)]
  split
  · next hch => rw [hch]; rfl
  · exact (List.length_map _).trans h.planes_length

/-- It writes all of each. -/
theorem Refines.lengths_readPlanar {a : AudioFifo α} {q : Queue α} (h : Refines a q)
    {frames : Int} : ∀ dst ∈ (a.readPlanar frames).1.2, dst.length = frames.toNat := by
  intro dst hdst
  rw [AudioFifo.readPlanar] at hdst
  split at hdst
  · cases hdst
  split at hdst
  · cases hdst
  · next hframes hch =>
    have hpos := h.readPos_lt hch
    have hfull := h.filled_le
    obtain ⟨plane, hplane, rfl⟩ := List.mem_map.mp hdst
    have hb := h.lengths plane hplane
    rw [List.length_append, List.length_replicate, Circular.copyOut_eq_window hb hpos (by omega),
      Circular.length_window (by omega)]
    omega

/-- A sample the interleaved read picks. -/
theorem Refines.sample {a : AudioFifo α} {q : Queue α} (h : Refines a q) {c f : Nat}
    (hc : c < a.channels) (hf : f < a.filled) {frame : List α} (hframe : q.frames[f]? = some frame) :
    (a.planes.getD c []).getD ((a.readPos + f) % a.capacity) 0 = frame.getD c 0 := by
  obtain ⟨plane, hget⟩ := h.exists_plane hc
  have hb := h.lengths _ (List.mem_of_getElem? hget)
  have hfull := h.filled_le
  have hwindow := Circular.getElem?_window (b := plane) a.readPos (by rw [hb]; exact hfull) hf
  rw [h.contents c _ hget, hb, column, List.getElem?_map, hframe, Option.map_some] at hwindow
  rw [List.getD_eq_getElem?_getD, List.getD_eq_getElem?_getD, hget, Option.getD_some, ← hwindow,
    Option.getD_some]

/-- The interleaved read writes the queue's sample-frames one after the other. -/
theorem Refines.readInterleaved {a : AudioFifo α} {q : Queue α} (h : Refines a q)
    (frames : Int) :
    (a.call (.readInterleaved frames)).1 = (q.call (.readInterleaved frames)).1 ∧
      Refines (a.call (.readInterleaved frames)).2 (q.call (.readInterleaved frames)).2 := by
  simp only [AudioFifo.call, Queue.call, AudioFifo.readInterleaved, Queue.read]
  by_cases hframes : frames ≤ 0
  · rw [if_pos hframes, if_pos (.inl (Int.toNat_eq_zero.mpr hframes))]
    exact ⟨rfl, h⟩
  by_cases hch : a.channels = 0
  · rw [if_neg hframes, if_pos hch, if_pos (.inr (h.channels.trans hch))]
    exact ⟨rfl, h⟩
  have hqch : ¬ (frames.toNat = 0 ∨ q.channels = 0) := by
    rw [h.channels]
    omega
  rw [if_neg hframes, if_neg hch, if_neg hqch]
  refine ⟨?_, h.consume hch _⟩
  dsimp only
  rw [h.filled, h.channels, List.flatMap_def]
  congr 2
  have hlen := h.filled
  apply List.ext_getElem
  · simp only [List.length_map, List.length_range, List.length_append, List.length_take,
      List.length_replicate]
    omega
  intro f hf _
  rw [List.length_map, List.length_range] at hf
  rw [List.getElem_map, List.getElem_range]
  rcases Nat.lt_or_ge f a.filled with hlt | hge
  · rw [List.getElem_append_left (by rw [List.length_take]; omega), List.getElem_take]
    have hwidth := h.widths _ (List.getElem_mem (by rw [h.filled]; exact hlt))
    apply List.ext_getElem
    · rw [List.length_map, List.length_range, hwidth]
    intro c hc hc'
    rw [List.length_map, List.length_range] at hc
    rw [List.getElem_map, List.getElem_range, if_pos (by omega),
      h.sample hc hlt (List.getElem?_eq_getElem (by rw [h.filled]; exact hlt)),
      List.getD_eq_getElem?_getD, List.getElem?_eq_getElem hc', Option.getD_some]
  · rw [List.getElem_append_right (by rw [List.length_take]; omega), List.getElem_replicate]
    have hsilent : ∀ c, (if f < min frames.toNat a.filled then
        (a.planes.getD c []).getD ((a.readPos + f) % a.capacity) 0 else (0 : α)) = 0 := by
      intro c
      rw [if_neg (by omega)]
    simp only [hsilent, List.map_const', List.length_range]

/-- An empty buffer stands for an empty queue. -/
theorem refines_configure (channels sampleRate capacityFrames : Int) :
    Refines (configure channels sampleRate capacityFrames : AudioFifo α)
      (Queue.configure channels capacityFrames) where
  channels := rfl
  capacity := rfl
  stats := rfl
  filled := rfl
  filled_le := Nat.zero_le _
  readPos_lt _ := by
    dsimp only [configure]
    omega
  writePos := (Nat.zero_mod _).symm
  planes_length := List.length_replicate
  lengths plane hplane := by
    rw [(List.mem_replicate.mp hplane).2, List.length_replicate]
    rfl
  widths := nofun
  contents _ _ _ := rfl

theorem Refines.reset {a : AudioFifo α} {q : Queue α} (h : Refines a q) :
    Refines a.reset q.reset where
  channels := h.channels
  capacity := h.capacity
  stats := h.stats
  filled := rfl
  filled_le := Nat.zero_le _
  readPos_lt hch := Nat.lt_of_le_of_lt (Nat.zero_le _) (h.readPos_lt hch)
  writePos := (Nat.zero_mod _).symm
  planes_length := (List.length_map _).trans h.planes_length
  lengths plane hplane := by
    obtain ⟨old, hold, rfl⟩ := List.mem_map.mp hplane
    rw [List.length_map, h.lengths old hold]
    rfl
  widths := nofun
  contents _ _ _ := rfl

/-- Every call gives the queue's reply and keeps to the queue. -/
theorem Refines.call {a : AudioFifo α} {q : Queue α} (h : Refines a q) (c : Call α) :
    (a.call c).1 = (q.call c).1 ∧ Refines (a.call c).2 (q.call c).2 := by
  cases c with
  | configure channels sampleRate capacityFrames =>
    exact ⟨rfl, refines_configure channels sampleRate capacityFrames⟩
  | write planes frames => exact ⟨rfl, h.write planes frames⟩
  | readInterleaved frames => exact h.readInterleaved frames
  | readPlanar frames => exact h.readPlanar frames
  | reset => exact ⟨rfl, h.reset⟩

/-- So does every sequence of calls. -/
theorem Refines.run {a : AudioFifo α} {q : Queue α} (h : Refines a q) (calls : List (Call α)) :
    (a.run calls).1 = (q.run calls).1 ∧ Refines (a.run calls).2 (q.run calls).2 := by
  induction calls generalizing a q with
  | nil => exact ⟨rfl, h⟩
  | cons c rest ih =>
    obtain ⟨hreply, hnext⟩ := h.call c
    obtain ⟨hreplies, hlast⟩ := ih hnext
    refine ⟨?_, hlast⟩
    rw [AudioFifo.run, Queue.run, hreply, hreplies]

/-- A buffer not yet configured is an empty queue without channels. -/
theorem refines_initial : Refines ({} : AudioFifo α) {} where
  channels := rfl
  capacity := rfl
  stats := rfl
  filled := rfl
  filled_le := Nat.le_refl 0
  readPos_lt hch := absurd rfl hch
  writePos := rfl
  planes_length := rfl
  lengths := nofun
  widths := nofun
  contents _ _ _ := rfl

/-- Rows of one length, one after the other. -/
theorem getElem?_flatten_of_widths {β : Type u} {m : Nat} (rows : List (List β))
    (h : ∀ row ∈ rows, row.length = m) {f c : Nat} (hc : c < m) :
    rows.flatten[f * m + c]? = rows[f]?.bind (·[c]?) := by
  induction rows generalizing f with
  | nil => rfl
  | cons row rest ih =>
    have hrow : row.length = m := h row List.mem_cons_self
    rw [List.flatten_cons]
    cases f with
    | zero =>
      rw [Nat.zero_mul, Nat.zero_add, List.getElem?_append_left (by omega)]
      rfl
    | succ f =>
      have hnext : (f + 1) * m + c - row.length = f * m + c := by
        rw [Nat.add_mul, hrow]
        omega
      have hpast : row.length ≤ (f + 1) * m + c := by
        rw [Nat.add_mul, hrow]
        omega
      rw [List.getElem?_append_right hpast, hnext, ih fun r hr ↦ h r (List.mem_cons_of_mem _ hr)]
      rfl

/-- The two reads take the same sample-frames, and write each sample of them. -/
structure SameReads (a : AudioFifo α) (frames : Int) : Prop where
  taken : (a.readInterleaved frames).1.1 = (a.readPlanar frames).1.1
  next : (a.readInterleaved frames).2 = (a.readPlanar frames).2
  samples : ∀ f c : Nat, (f : Int) < frames → c < a.channels →
    ∃ x, (a.readInterleaved frames).1.2[f * a.channels + c]? = some x ∧
      (a.readPlanar frames).1.2[c]?.bind (·[f]?) = some x

theorem Refines.sameReads {a : AudioFifo α} {q : Queue α} (h : Refines a q) (frames : Int) :
    SameReads a frames := by
  have hinter := (h.readInterleaved frames).1
  have hplanar := (h.readPlanar frames).1
  simp only [AudioFifo.call, Queue.call, Reply.interleaved.injEq, Reply.planar.injEq] at hinter hplanar
  refine ⟨hinter.1.trans hplanar.1.symm, ?_, fun f c hf hc ↦ ?_⟩
  · rw [AudioFifo.readInterleaved, AudioFifo.readPlanar]
    by_cases hframes : frames ≤ 0
    · rw [if_pos hframes, if_pos hframes]
    by_cases hch : a.channels = 0
    · rw [if_neg hframes, if_pos hch, if_neg hframes, if_pos hch]
    · rw [if_neg hframes, if_neg hch, if_neg hframes, if_neg hch]
  rw [hinter.2, hplanar.2]
  have hqch : ¬ (frames.toNat = 0 ∨ q.channels = 0) := by
    rw [h.channels]
    omega
  rw [Queue.read, if_neg hqch]
  dsimp only
  have hlen : f < (q.frames.take frames.toNat ++
      List.replicate (frames.toNat - q.frames.length) (List.replicate q.channels 0)).length := by
    simp only [List.length_append, List.length_take, List.length_replicate]
    omega
  have hwidths : ∀ row ∈ q.frames.take frames.toNat ++
      List.replicate (frames.toNat - q.frames.length) (List.replicate q.channels 0),
      row.length = a.channels := by
    intro row hrow
    obtain hold | hsilent := List.mem_append.mp hrow
    · exact h.widths row (List.mem_of_mem_take hold)
    · rw [(List.mem_replicate.mp hsilent).2, List.length_replicate, h.channels]
  generalize q.frames.take frames.toNat ++
    List.replicate (frames.toNat - q.frames.length) (List.replicate q.channels 0) = rows
    at hlen hwidths ⊢
  have hwidth := hwidths _ (List.getElem_mem hlen)
  refine ⟨rows[f][c], ?_, ?_⟩
  · rw [getElem?_flatten_of_widths rows hwidths hc, List.getElem?_eq_getElem hlen,
      Option.bind_some, List.getElem?_eq_getElem]
  · have hsome : rows ≠ [] := List.ne_nil_of_length_pos (Nat.zero_lt_of_lt hlen)
    rw [if_neg hsome, List.getElem?_map, List.getElem?_range (by rw [h.channels]; exact hc),
      Option.map_some, Option.bind_some, column, List.getElem?_map,
      List.getElem?_eq_getElem hlen, Option.map_some,
      List.getD_eq_getElem _ _ (by rw [hwidth]; exact hc)]

/-- For every sequence of calls on a new buffer: it answers as the queue does, holds as many
sample-frames, within the capacity, and counts what the queue counts; and whatever was
called, the two reads agree. -/
theorem run_refines (calls : List (Call α)) :
    (run ({} : AudioFifo α) calls).1 = (Queue.run {} calls).1 ∧
      (run ({} : AudioFifo α) calls).2.availableFrames = (Queue.run {} calls).2.frames.length ∧
      (run ({} : AudioFifo α) calls).2.availableFrames ≤
        (run ({} : AudioFifo α) calls).2.capacity ∧
      (run ({} : AudioFifo α) calls).2.stats = (Queue.run {} calls).2.stats ∧
      ∀ frames, SameReads (run ({} : AudioFifo α) calls).2 frames := by
  obtain ⟨hreplies, hlast⟩ := (refines_initial (α := α)).run calls
  exact ⟨hreplies, hlast.filled.symm, hlast.filled_le, hlast.stats.symm, hlast.sameReads⟩

/-- A read that gave fewer sample-frames than it was asked for. -/
def Short : Call α → Reply α → Bool
  | .readPlanar frames, .planar taken _ => taken < frames
  | .readInterleaved frames, .interleaved taken _ => taken < frames
  | _, _ => false

/-- The underruns are the short reads of the sequence. -/
def CountsShortReads (calls : List (Call α)) : Prop :=
  (run {} calls).2.stats.underruns = (calls.zipWith Short (run {} calls).1).count true

/-- Without channels a short read goes uncounted, and a new configuration forgets the ones
there were. -/
theorem not_countsShortReads :
    ¬ CountsShortReads ([.configure 0 48000 10, .readPlanar 4] : List (Call Int)) ∧
      ¬ CountsShortReads
        ([.configure 1 48000 10, .readPlanar 4, .configure 1 48000 10] : List (Call Int)) := by
  constructor <;> unfold CountsShortReads <;> decide

end WebLinked.Core.AudioFifo
