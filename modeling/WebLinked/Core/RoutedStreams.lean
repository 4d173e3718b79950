import Mathlib
import WebLinked.Base.Circular
import WebLinked.Core.RouteOptions

/-!
# What an output hears of a stream

`src/core/audio_route.cpp:166–275`. A stream comes in blocks of any lengths. Seen from the shared
position a delay line is a queue of the last samples, and so a block takes from its front what it
adds at its back. The length of a line is narrowed to an `int`, and a vector of a negative length
throws.
-/

namespace WebLinked.Core.AudioRouter

open WebLinked.Base WebLinked.Core.AudioRoute WebLinked.Core.Json

variable {α : Type} [Zero α] [One α] [Mul α]

/-- `prepare` would make lines of a negative length; `src/core/audio_route.cpp:183–195`. -/
def throws (s : AudioRouter α) (destChannels sampleRate : Nat) : Bool :=
  !(destChannels = s.preparedChannels ∧ sampleRate = s.preparedRate) &&
    decide (lineLength s.route sampleRate < 0)

/-- `apply`, none where it throws. -/
def applyOrThrow [DecidableEq α] (s : AudioRouter α) (b : AudioBlock α) :
    Option (AudioBlock α × AudioRouter α) :=
  if (b.valid && !b.planes.isEmpty) && !s.route.isIdentity b.channels &&
      s.throws (s.route.destinationChannels b.channels) b.sampleRate then none
  else some (s.apply b)

/-- The blocks that come out for those that go in. -/
def applyAll [DecidableEq α] (s : AudioRouter α) :
    List (AudioBlock α) → Option (List (AudioBlock α))
  | [] => some []
  | b :: rest => do
    let r ← s.applyOrThrow b
    let outs ← r.2.applyAll rest
    return r.1 :: outs

/-- Blocks of one stream: none is empty, and each has the stream's channels and rate. -/
structure Stream (channels sampleRate : Nat) (blocks : List (AudioBlock α)) : Prop where
  valid : ∀ b ∈ blocks, b.valid
  channels : ∀ b ∈ blocks, b.channels = channels ∧ b.planes.length = channels
  sampleRate : ∀ b ∈ blocks, b.sampleRate = sampleRate
  lengths : ∀ b ∈ blocks, ∀ plane ∈ b.planes, plane.length = b.frames

/-- The frames of the blocks. -/
def frameCount (blocks : List (AudioBlock α)) : Nat := (blocks.map AudioBlock.frames).sum

/-- One channel of the blocks, one after another. -/
def channelOf (blocks : List (AudioBlock α)) (c : Nat) : List α :=
  blocks.flatMap fun b ↦ b.planes.getD c []

/-- The source channel that a destination channel hears, none where it hears silence: the
route is muted, or the map ends before the channel or says -1, or the source has no such
channel. -/
def sourceOf (r : AudioRoute α) (channels c : Nat) : Option Nat :=
  let source : Option Int := if r.map = [] then some c else r.map[c]?
  if r.mute then none
  else source.bind fun k ↦ if 0 ≤ k ∧ k < channels then some k.toNat else none

/-- What a destination channel hears, before the delay. -/
def mapped (r : AudioRoute α) (channels : Nat) (blocks : List (AudioBlock α)) (c : Nat) :
    List α :=
  match sourceOf r channels c with
  | some k => (channelOf blocks k).map (· * r.gain)
  | none => List.replicate (frameCount blocks) 0

/-- The samples that the delay comes to. -/
def delayOf (r : AudioRoute α) (sampleRate : Nat) : Nat := r.delayMs.toNat * sampleRate / 1000

/-- A block whose two forms agree. -/
structure SameForms (o : AudioBlock α) : Prop where
  planes : o.planes.length = o.channels ∧ ∀ plane ∈ o.planes, plane.length = o.frames
  length : o.interleaved.length = o.frames * o.channels
  sample : ∀ f < o.frames, ∀ c < o.channels,
    o.interleaved[f * o.channels + c]? = (o.planes.getD c [])[f]?

/-- What comes out of a router: a block for every block, of the same length, in two forms that
agree; and each channel is the delay in silence and then what the channel hears, as far as
the stream goes. -/
structure Routes (r : AudioRoute α) (channels sampleRate : Nat)
    (blocks outs : List (AudioBlock α)) : Prop where
  sizes : outs.map (fun o ↦ (o.frames, o.channels, o.sampleRate)) =
    blocks.map fun b ↦ (b.frames, r.destinationChannels channels, sampleRate)
  forms : ∀ o ∈ outs, SameForms o
  delayed : ∀ c < r.destinationChannels channels, channelOf outs c =
    (List.replicate (delayOf r sampleRate) 0 ++ mapped r channels blocks c).take
      (frameCount blocks)

section

omit [One α] [Mul α]

theorem nextPos_eq_mod {length pos : Nat} (h : pos < length) :
    nextPos length pos = (pos + 1) % length := by
  unfold nextPos
  split
  · next heq => rw [heq, Nat.mod_self]
  · rw [Nat.mod_eq_of_lt (by omega)]

theorem nextPos_lt {length pos : Nat} (h : pos < length) : nextPos length pos < length := by
  rw [nextPos_eq_mod h]
  exact Nat.mod_lt _ (by omega)

theorem iterate_nextPos_lt {length : Nat} (k : Nat) {pos : Nat} (h : pos < length) :
    (nextPos length)^[k] pos < length := by
  induction k generalizing pos with
  | zero => exact h
  | succ k ih => exact ih (nextPos_lt h)

/-- A line passes on what it holds, and then holds what came in. -/
theorem delay_spec {length : Nat} (xs line : List α) {pos : Nat}
    (hlength : line.length = length) (hpos : pos < length) :
    (delay length line pos xs).1 = (line.rotate pos ++ xs).take xs.length ∧
      (delay length line pos xs).2.length = length ∧
      (delay length line pos xs).2.rotate ((nextPos length)^[xs.length] pos) =
        (line.rotate pos ++ xs).drop xs.length := by
  induction xs generalizing line pos with
  | nil =>
    rw [List.append_nil]
    exact ⟨rfl, hlength, rfl⟩
  | cons x rest ih =>
    obtain ⟨hout, hlen, hline⟩ := ih (line.set pos x)
      ((List.length_set ..).trans hlength) (nextPos_lt hpos)
    have hqueue : (line.set pos x).rotate (nextPos length pos) =
        (line.rotate pos).drop 1 ++ [x] := by
      have hsame : (line.set pos x).length = length := (List.length_set ..).trans hlength
      rw [nextPos_eq_mod hpos, ← hsame, List.rotate_mod]
      exact Circular.rotate_set_succ (by omega) x
    have hfirst := Circular.rotate_eq_cons (hlength.symm ▸ hpos : pos < line.length)
    rw [hqueue, List.append_assoc, List.singleton_append] at hout hline
    rw [hfirst, delay]
    refine ⟨?_, hlen, hline⟩
    dsimp only
    rw [hout, List.getD_eq_getElem _ _ (hlength.symm ▸ hpos)]
    rfl

end

section

omit [Mul α]

/-- The source channel as the code finds it, with -1 for none. -/
def sourceEntry (r : AudioRoute α) (c : Nat) : Int :=
  if r.map ≠ [] then r.map.getD c kSilent else c

omit [Zero α] in
theorem sourceOf_eq {r : AudioRoute α} (hmap : ∀ k ∈ r.map, kSilent ≤ k) (channels c : Nat) :
    sourceOf r channels c =
      if r.mute ∨ sourceEntry r c = kSilent ∨ sourceEntry r c ≥ channels then none
      else some (sourceEntry r c).toNat := by
  unfold sourceOf sourceEntry
  by_cases hmute : r.mute = true
  · simp [hmute]
  by_cases hm : r.map = []
  · have hnot : (c : Int) ≠ -1 := by omega
    by_cases hc : c < channels
    · simp [hmute, hm, kSilent, hc, hnot, Nat.not_le.mpr hc]
    · simp [hmute, hm, kSilent, hc, Nat.le_of_not_lt hc]
  · cases hget : r.map[c]? with
    | none => simp [hmute, hm, hget, kSilent]
    | some k =>
      have hk := hmap k (List.mem_of_getElem? hget)
      unfold kSilent at hk
      have hin : (0 ≤ k ∧ k < channels) ↔ ¬ (k = -1 ∨ (channels : Int) ≤ k) := by omega
      by_cases hout : k = -1 ∨ (channels : Int) ≤ k
      · simp [hmute, hm, hget, kSilent, hin, hout]
      · simp [hmute, hm, hget, kSilent, hin, hout]

end

/-- A block's plane by the source channel it is read from. -/
theorem routePlane_eq_ite (r : AudioRoute α) (b : AudioBlock α) (c : Nat) :
    routePlane r b c =
      if r.mute ∨ sourceEntry r c = kSilent ∨ sourceEntry r c ≥ b.channels then
        List.replicate b.frames 0
      else (List.range b.frames).map fun f ↦
        (b.planes.getD (sourceEntry r c).toNat []).getD f 0 * r.gain := rfl

/-- A block's plane before the delay, as what the channel hears of it. -/
theorem routePlane_eq {r : AudioRoute α} (hmap : ∀ k ∈ r.map, kSilent ≤ k) {b : AudioBlock α}
    (hb : b.planes.length = b.channels) (hlengths : ∀ plane ∈ b.planes, plane.length = b.frames)
    (c : Nat) : routePlane r b c =
      match sourceOf r b.channels c with
      | some k => (b.planes.getD k []).map (· * r.gain)
      | none => List.replicate b.frames 0 := by
  rw [routePlane_eq_ite, sourceOf_eq hmap]
  split
  · rfl
  · next hheard =>
    have hlow : kSilent ≤ sourceEntry r c := by
      unfold sourceEntry
      split
      · cases hget : r.map[c]? with
        | none => rw [List.getD_eq_getElem?_getD, hget, Option.getD_none]
        | some k =>
          rw [List.getD_eq_getElem?_getD, hget, Option.getD_some]
          exact hmap k (List.mem_of_getElem? hget)
      · unfold kSilent
        omega
    have hlt : (sourceEntry r c).toNat < b.planes.length := by
      unfold kSilent at hheard hlow
      omega
    have hmem : b.planes.getD (sourceEntry r c).toNat [] ∈ b.planes := by
      rw [List.getD_eq_getElem _ _ hlt]
      exact List.getElem_mem hlt
    dsimp only
    rw [← hlengths _ hmem, map_range_getD]

/-- The lines of a router that has prepared for a stream, as queues. -/
structure Holds (r : AudioRoute α) (channels sampleRate : Nat) (s : AudioRouter α)
    (held : Nat → List α) : Prop where
  route : s.route = r
  prepared : s.preparedChannels = channels ∧ s.preparedRate = sampleRate
  frames : s.delayFrames = delayOf r sampleRate
  count : s.delayLines.length = channels
  pos : 0 < delayOf r sampleRate → s.delayPos < delayOf r sampleRate
  lines : ∀ c line, s.delayLines[c]? = some line →
    line.length = delayOf r sampleRate ∧ line.rotate s.delayPos = held c

section

omit [Mul α]

omit [Zero α] in
/-- The length of a line is the delay narrowed to an `int`. -/
theorem lineLength_eq {r : AudioRoute α} (h : 0 ≤ r.delayMs) (sampleRate : Nat) :
    lineLength r sampleRate = (delayOf r sampleRate : Int).bmod (2 ^ 32) := by
  have hms : r.delayMs = (r.delayMs.toNat : Int) := (Int.toNat_of_nonneg h).symm
  rw [lineLength, delayOf, hms, ← Int.natCast_mul,
    Int.tdiv_eq_ediv_of_nonneg (Int.natCast_nonneg _)]
  rfl

/-- A router that has just been given the route makes lines of silence. -/
theorem holds_configure {r : AudioRoute α} (h : 0 ≤ r.delayMs) {channels sampleRate : Nat}
    (hchannels : channels ≠ 0) (hfits : delayOf r sampleRate ≤ 2147483647) (s : AudioRouter α) :
    Holds r channels sampleRate ((s.configure r).prepare channels sampleRate)
      fun _ ↦ List.replicate (delayOf r sampleRate) 0 := by
  have hlength : lineLength r sampleRate = delayOf r sampleRate := by
    rw [lineLength_eq h, Int.bmod_eq_of_le (by omega) (by omega)]
  have hfresh : (s.configure r).prepare channels sampleRate =
      { s.configure r with
        preparedChannels := channels
        preparedRate := sampleRate
        delayFrames := delayOf r sampleRate
        delayLines := List.replicate channels (List.replicate (delayOf r sampleRate) 0)
        delayPos := 0 } := by
    unfold prepare
    rw [if_neg fun heq ↦ hchannels heq.1]
    have hroute : (s.configure r).route = r := rfl
    simp only [hroute, hlength, Int.toNat_natCast]
  rw [hfresh]
  constructor
  · rfl
  · exact ⟨rfl, rfl⟩
  · rfl
  · exact List.length_replicate
  · intro hpos
    exact hpos
  · intro c line hline
    have hmem := List.mem_of_getElem? hline
    rw [(List.mem_replicate.mp hmem).2]
    exact ⟨List.length_replicate, List.rotate_zero _⟩

/-- A router that has prepared for the stream does not do so again. -/
theorem Holds.prepare {r : AudioRoute α} {channels sampleRate : Nat} {s : AudioRouter α}
    {held : Nat → List α} (h : Holds r channels sampleRate s held) :
    s.prepare channels sampleRate = s := by
  unfold AudioRouter.prepare
  rw [if_pos ⟨h.prepared.1.symm, h.prepared.2.symm⟩]

end

/-- What comes out where the lines hold `held`. -/
def passed (r : AudioRoute α) (channels sampleRate : Nat) (held : Nat → List α)
    (b : AudioBlock α) : AudioBlock α :=
  let planes := (List.range channels).map fun c ↦ (held c ++ routePlane r b c).take b.frames
  { planes
    interleaved := interleave b.frames channels planes
    frames := b.frames
    channels
    sampleRate }

/-- The lines of a router, with the planes of a block through them. -/
theorem Holds.delayed {r : AudioRoute α} {channels sampleRate : Nat} {s : AudioRouter α}
    {held : Nat → List α} {b : AudioBlock α} (h : Holds r channels sampleRate s held)
    (hdelay : 0 < delayOf r sampleRate) (hplane : ∀ c, (routePlane r b c).length = b.frames)
    {lines : List (List α × List α)}
    (hlines : lines = List.zipWith
      (fun line plane ↦ delay (delayOf r sampleRate) line s.delayPos plane) s.delayLines
      ((List.range channels).map (routePlane r b))) :
    lines.map Prod.fst =
        ((List.range channels).map fun c ↦ (held c ++ routePlane r b c).take b.frames) ∧
      Holds r channels sampleRate
        { s with
          delayLines := lines.map Prod.snd
          delayPos := (nextPos (delayOf r sampleRate))^[b.frames] s.delayPos }
        fun c ↦ (held c ++ routePlane r b c).drop b.frames := by
  have hcount : lines.length = channels := by
    rw [hlines, List.length_zipWith, List.length_map, List.length_range, h.count, Nat.min_self]
  -- One channel's line, as the queue it is.
  have hline (c : Nat) (hc : c < lines.length) :
      lines[c].1 = (held c ++ routePlane r b c).take b.frames ∧
        lines[c].2.length = delayOf r sampleRate ∧
        lines[c].2.rotate ((nextPos (delayOf r sampleRate))^[b.frames] s.delayPos) =
          (held c ++ routePlane r b c).drop b.frames := by
    have hc' : c < s.delayLines.length := by
      rw [h.count]
      omega
    obtain ⟨hlength, hheld⟩ := h.lines c _ (List.getElem?_eq_getElem hc')
    have hspec := delay_spec (routePlane r b c) _ hlength (h.pos hdelay)
    rw [hplane, hheld] at hspec
    simp only [hlines, List.getElem_zipWith, List.getElem_map, List.getElem_range]
    exact hspec
  refine ⟨?_, ?_⟩
  · apply List.ext_getElem
    · rw [List.length_map, List.length_map, List.length_range, hcount]
    · intro c hc _
      rw [List.length_map] at hc
      rw [List.getElem_map, List.getElem_map, List.getElem_range]
      exact (hline c hc).1
  · constructor
    · exact h.route
    · exact h.prepared
    · exact h.frames
    · exact (List.length_map ..).trans hcount
    · exact fun _ ↦ iterate_nextPos_lt _ (h.pos hdelay)
    · intro c line hget
      obtain ⟨hc, rfl⟩ := List.getElem?_eq_some_iff.mp hget
      rw [List.length_map] at hc
      rw [List.getElem_map]
      exact (hline c hc).2

omit [Zero α] [Mul α] in
/-- Without a delay nothing is held. -/
theorem Holds.held_eq_nil {r : AudioRoute α} {channels sampleRate : Nat} {s : AudioRouter α}
    {held : Nat → List α} (h : Holds r channels sampleRate s held)
    (hdelay : delayOf r sampleRate = 0) {c : Nat} (hc : c < channels) : held c = [] := by
  have hlt : c < s.delayLines.length := by
    rw [h.count]
    exact hc
  obtain ⟨hlength, hheld⟩ := h.lines c _ (List.getElem?_eq_getElem hlt)
  rw [← hheld, ← List.length_eq_zero_iff, List.length_rotate, hlength, hdelay]

/-- A block takes from the front of each queue what it adds at its back. -/
theorem Holds.routed {r : AudioRoute α} {channels sampleRate : Nat} {s : AudioRouter α}
    {held : Nat → List α} {b : AudioBlock α}
    (h : Holds r channels sampleRate (s.prepare channels sampleRate) held)
    (hchannels : r.destinationChannels b.channels = channels) (hrate : b.sampleRate = sampleRate)
    (hplane : ∀ c, (routePlane r b c).length = b.frames) :
    (s.routed b).1 = passed r channels sampleRate held b ∧
      Holds r channels sampleRate (s.routed b).2
        fun c ↦ (held c ++ routePlane r b c).drop b.frames := by
  have hroute : s.route = r := by
    have := h.route
    rwa [route_prepare] at this
  unfold AudioRouter.routed
  rw [hroute, hchannels, hrate]
  dsimp only
  generalize s.prepare channels sampleRate = t at h ⊢
  rw [h.route, h.frames]
  by_cases hdelay : 0 < delayOf r sampleRate
  · rw [if_pos (by omega), Int.toNat_natCast]
    obtain ⟨hplanes, hholds⟩ := h.delayed hdelay hplane rfl
    constructor
    · dsimp only
      rw [hplanes]
      rfl
    · exact { hholds with route := rfl, frames := rfl }
  · rw [if_neg (by omega)]
    have hnone (c : Nat) (hc : c < channels) : held c = [] := h.held_eq_nil (by omega) hc
    constructor
    · have hplanes : (List.range channels).map (routePlane r b) =
          (List.range channels).map fun c ↦ (held c ++ routePlane r b c).take b.frames := by
        apply List.map_congr_left
        intro c hc
        rw [hnone c (List.mem_range.mp hc), List.nil_append, ← hplane c, List.take_length]
      rw [hplanes]
      rfl
    · refine { h with lines := ?_ }
      intro c line hget
      obtain ⟨hlength, hheld⟩ := h.lines c line hget
      have hc : c < channels := by
        rw [← h.count]
        exact (List.getElem?_eq_some_iff.mp hget).1
      rw [hnone c hc] at hheld
      rw [hnone c hc, List.nil_append, ← hplane c, List.drop_length]
      exact ⟨hlength, hheld⟩

/-! ### The stream -/

/-- An element of rows of one length, one after another. -/
private theorem getElem?_flatMap_range {β : Type} {m : Nat} {row : Nat → List β}
    (hrow : ∀ f, (row f).length = m) {n f c : Nat} (hf : f < n) (hc : c < m) :
    ((List.range n).flatMap row)[f * m + c]? = (row f)[c]? := by
  induction n with
  | zero => omega
  | succ n ih =>
    have hlength : ((List.range n).flatMap row).length = n * m := by
      simp only [List.length_flatMap, hrow, List.map_const', List.sum_replicate_nat,
        List.length_range]
    rw [List.range_succ, List.flatMap_append, List.flatMap_singleton]
    by_cases hlast : f < n
    · have hle : (f + 1) * m ≤ n * m := Nat.mul_le_mul_right m hlast
      rw [Nat.succ_mul] at hle
      rw [List.getElem?_append_left (by omega)]
      exact ih hlast
    · have heq : f = n := by omega
      subst heq
      rw [List.getElem?_append_right (by omega), hlength, Nat.add_sub_cancel_left]

theorem length_routePlane (r : AudioRoute α) (b : AudioBlock α) (c : Nat) :
    (routePlane r b c).length = b.frames := by
  rw [routePlane_eq_ite]
  split
  · exact List.length_replicate
  · rw [List.length_map, List.length_range]

/-- The plane of one channel that comes out. -/
theorem getD_planes_passed (r : AudioRoute α) (sampleRate : Nat) (held : Nat → List α)
    (b : AudioBlock α) {channels c : Nat} (hc : c < channels) :
    (passed r channels sampleRate held b).planes.getD c [] =
      (held c ++ routePlane r b c).take b.frames := by
  have hlt : c < (passed r channels sampleRate held b).planes.length := by
    rw [passed, List.length_map, List.length_range]
    exact hc
  rw [List.getD_eq_getElem _ _ hlt]
  simp only [passed, List.getElem_map, List.getElem_range]

/-- The two forms of what comes out agree. -/
theorem sameForms_passed (r : AudioRoute α) (channels sampleRate : Nat) (held : Nat → List α)
    (b : AudioBlock α) : SameForms (passed r channels sampleRate held b) := by
  have hlength (c : Nat) : ((held c ++ routePlane r b c).take b.frames).length = b.frames := by
    rw [List.length_take, List.length_append, length_routePlane]
    omega
  constructor
  · refine ⟨(List.length_map ..).trans List.length_range, ?_⟩
    intro plane hplane
    obtain ⟨c, -, rfl⟩ := List.mem_map.mp hplane
    exact hlength c
  · simp only [passed, interleave, List.length_flatMap, List.length_map, List.length_range,
      List.map_const', List.sum_replicate_nat]
  · intro f hf c hc
    dsimp only [passed] at hf hc ⊢
    have hrow (f : Nat) : ((List.range channels).map fun c ↦
        (((List.range channels).map fun c ↦ (held c ++ routePlane r b c).take b.frames).getD c
          []).getD f 0).length = channels := by
      rw [List.length_map, List.length_range]
    have hplane : ((List.range channels).map fun c ↦
        (held c ++ routePlane r b c).take b.frames).getD c [] =
          (held c ++ routePlane r b c).take b.frames :=
      getD_planes_passed r sampleRate held b hc
    rw [interleave, getElem?_flatMap_range hrow hf hc, List.getElem?_map, List.getElem?_range hc,
      Option.map_some, hplane, List.getD_eq_getElem _ _ (by rw [hlength]; exact hf),
      List.getElem?_eq_getElem]

/-- The first block of a stream and the others. -/
theorem mapped_cons {r : AudioRoute α} (hmap : ∀ k ∈ r.map, kSilent ≤ k) {b : AudioBlock α}
    (hb : b.planes.length = b.channels) (hlengths : ∀ plane ∈ b.planes, plane.length = b.frames)
    (rest : List (AudioBlock α)) (c : Nat) :
    mapped r b.channels (b :: rest) c = routePlane r b c ++ mapped r b.channels rest c := by
  rw [routePlane_eq hmap hb hlengths, mapped, mapped]
  cases sourceOf r b.channels c with
  | some k =>
    dsimp only [channelOf]
    rw [List.flatMap_cons, List.map_append]
  | none =>
    dsimp only [frameCount]
    rw [List.map_cons, List.sum_cons, List.replicate_add]

omit [Zero α] [One α] [Mul α] in
/-- What a queue passes on of a block and then of the rest. -/
private theorem take_queue {held plane rest : List α} {n : Nat} :
    (held ++ (plane ++ rest)).take (plane.length + n) =
      (held ++ plane).take plane.length ++ ((held ++ plane).drop plane.length ++ rest).take n := by
  have hle : plane.length ≤ (held ++ plane).length := by
    rw [List.length_append]
    omega
  rw [← List.append_assoc, List.take_add, List.take_append_of_le_length hle,
    List.drop_append_of_le_length hle]

variable [DecidableEq α]

/-- Every block of a stream that is not the identity's is routed. -/
theorem applyOrThrow_eq {r : AudioRoute α} {channels sampleRate : Nat} {s : AudioRouter α}
    {b : AudioBlock α} (hroute : s.route = r) (hid : r.isIdentity b.channels = false)
    (hvalid : b.valid) (hplanes : b.planes.length = b.channels)
    (hchannels : r.destinationChannels b.channels = channels) (hrate : b.sampleRate = sampleRate) :
    s.applyOrThrow b = if s.throws channels sampleRate then none else some (s.routed b) := by
  have hsome : b.planes.isEmpty = false := by
    simp only [AudioBlock.valid, Bool.and_eq_true, decide_eq_true_eq] at hvalid
    rw [List.isEmpty_eq_false_iff_exists_mem]
    exact List.exists_mem_of_length_pos (by omega)
  unfold applyOrThrow AudioRouter.apply
  rw [hroute, hid, hvalid, hsome, hchannels, hrate]
  rfl

omit [Zero α] [Mul α] [DecidableEq α] in
theorem Holds.not_throws {r : AudioRoute α} {channels sampleRate : Nat} {s : AudioRouter α}
    {held : Nat → List α} (h : Holds r channels sampleRate s held) :
    s.throws channels sampleRate = false := by
  simp [throws, h.prepared.1, h.prepared.2]

/-- The run of a stream, from any router whose lines are or will be the queues `held`. -/
theorem applyAll_spec {r : AudioRoute α} (hmap : ∀ k ∈ r.map, kSilent ≤ k)
    {channels sampleRate : Nat} (hid : r.isIdentity channels = false)
    {blocks : List (AudioBlock α)} (hstream : Stream channels sampleRate blocks)
    {s : AudioRouter α} {held : Nat → List α}
    (hready : Holds r (r.destinationChannels channels) sampleRate
      (s.prepare (r.destinationChannels channels) sampleRate) held)
    (hthrows : s.throws (r.destinationChannels channels) sampleRate = false) :
    ∃ outs, s.applyAll blocks = some outs ∧
      outs.map (fun o ↦ (o.frames, o.channels, o.sampleRate)) =
        blocks.map (fun b ↦ (b.frames, r.destinationChannels channels, sampleRate)) ∧
      (∀ o ∈ outs, SameForms o) ∧
      ∀ c < r.destinationChannels channels, channelOf outs c =
        (held c ++ mapped r channels blocks c).take (frameCount blocks) := by
  induction blocks generalizing s held with
  | nil =>
    refine ⟨[], rfl, rfl, List.forall_mem_nil _, ?_⟩
    intro c _
    exact List.take_zero.symm
  | cons b rest ih =>
    have hmem : b ∈ b :: rest := List.mem_cons_self
    obtain ⟨hchannels, hplanes⟩ := hstream.channels b hmem
    have hrate := hstream.sampleRate b hmem
    have hlengths := hstream.lengths b hmem
    have hroute : s.route = r := by
      have := hready.route
      rwa [route_prepare] at this
    subst hchannels
    have happly := applyOrThrow_eq hroute hid (hstream.valid b hmem) hplanes rfl hrate
    rw [hthrows] at happly
    obtain ⟨hout, hnext⟩ := hready.routed rfl hrate (length_routePlane r b)
    have hrest : Stream b.channels sampleRate rest := by
      constructor
      · exact fun b' hb' ↦ hstream.valid b' (List.mem_cons_of_mem _ hb')
      · exact fun b' hb' ↦ hstream.channels b' (List.mem_cons_of_mem _ hb')
      · exact fun b' hb' ↦ hstream.sampleRate b' (List.mem_cons_of_mem _ hb')
      · exact fun b' hb' ↦ hstream.lengths b' (List.mem_cons_of_mem _ hb')
    obtain ⟨outs, hrun, hsizes, hforms, hdelayed⟩ :=
      ih hrest (s := (s.routed b).2) (by rw [hnext.prepare]; exact hnext) hnext.not_throws
    refine ⟨(s.routed b).1 :: outs, ?_, ?_, ?_, ?_⟩
    · rw [applyAll, happly]
      simp only [Bool.false_eq_true, if_false, Option.bind_eq_bind, Option.bind_some, hrun]
      rfl
    · rw [List.map_cons, List.map_cons, hsizes, hout]
      rfl
    · intro o ho
      rcases List.mem_cons.mp ho with rfl | ho
      · rw [hout]
        exact sameForms_passed _ _ _ _ _
      · exact hforms o ho
    · intro c hc
      have hfirst : (s.routed b).1.planes.getD c [] =
          (held c ++ routePlane r b c).take b.frames := by
        rw [hout]
        exact getD_planes_passed r _ held b hc
      have hcount : frameCount (b :: rest) = (routePlane r b c).length + frameCount rest := by
        rw [frameCount, List.map_cons, List.sum_cons, length_routePlane, frameCount]
      rw [channelOf, List.flatMap_cons, hfirst, ← channelOf, hdelayed c hc,
        mapped_cons hmap hplanes hlengths, hcount, take_queue, length_routePlane]

omit [Zero α] [Mul α] [DecidableEq α] in
/-- A stream has channels, and so has what comes out of it. -/
theorem destinationChannels_ne_zero (r : AudioRoute α) {channels : Nat} (h : 0 < channels) :
    r.destinationChannels channels ≠ 0 := by
  unfold destinationChannels
  split
  · omega
  split
  · next hm => exact (List.length_pos_iff.mpr hm).ne'
  · exact h.ne'

omit [Mul α] [DecidableEq α] in
/-- A line that an `int` cannot count throws at the first block. -/
theorem throws_configure {r : AudioRoute α} (hwithin : Within r) {channels sampleRate : Nat}
    (hchannels : channels ≠ 0) (hrate : sampleRate ≤ 2147483647)
    (hlong : 2147483647 < delayOf r sampleRate) (s : AudioRouter α) :
    (s.configure r).throws channels sampleRate = true := by
  have hdelay := hwithin.delayMs
  unfold kMaxDelayMs at hdelay
  have hbound : delayOf r sampleRate ≤ 2000 * 2147483647 / 1000 :=
    Nat.div_le_div_right (Nat.mul_le_mul (by omega) hrate)
  have hnegative : lineLength r sampleRate < 0 := by
    rw [lineLength_eq hdelay.1, Int.bmod_def]
    omega
  have hroute : (s.configure r).route = r := rfl
  have hprepared : (s.configure r).preparedChannels = 0 := rfl
  simp [throws, hroute, hprepared, hchannels, hnegative]

/-- For every route that options give and that is not the identity of the stream, every cut
of the stream into blocks and every router, what comes out is the delayed stream of each
channel in two forms that agree, if and only if there is no block or the delay is a number of
samples that an `int` holds. -/
theorem routes_iff (power : Double → α) (options : Value) {channels sampleRate : Nat}
    (hrate : sampleRate ≤ 2147483647)
    (hid : (fromOptions power options).1.isIdentity channels = false)
    {blocks : List (AudioBlock α)} (hstream : Stream channels sampleRate blocks)
    (s : AudioRouter α) :
    (∃ outs, (s.configure (fromOptions power options).1).applyAll blocks = some outs ∧
      Routes (fromOptions power options).1 channels sampleRate blocks outs) ↔
      blocks = [] ∨ delayOf (fromOptions power options).1 sampleRate ≤ 2147483647 := by
  have hwithin := fromOptions_within power options
  generalize (fromOptions power options).1 = r at hid hwithin ⊢
  have hroute : (s.configure r).route = r := rfl
  cases blocks with
  | nil =>
    refine ⟨fun _ ↦ .inl rfl, fun _ ↦ ⟨[], rfl, rfl, List.forall_mem_nil _, ?_⟩⟩
    intro c _
    exact List.take_zero.symm
  | cons b rest =>
    have hmem : b ∈ b :: rest := List.mem_cons_self
    obtain ⟨hchannels, hplanes⟩ := hstream.channels b hmem
    have hvalid := hstream.valid b hmem
    have hdest : r.destinationChannels channels ≠ 0 := by
      apply destinationChannels_ne_zero
      simp only [AudioBlock.valid, Bool.and_eq_true, decide_eq_true_eq] at hvalid
      omega
    constructor
    · rintro ⟨outs, hrun, -⟩
      by_contra hnot
      have hlong : 2147483647 < delayOf r sampleRate := by
        rw [not_or] at hnot
        omega
      have happly := applyOrThrow_eq hroute (hchannels.symm ▸ hid) hvalid (hplanes.trans
        hchannels.symm) (by rw [hchannels]) (hstream.sampleRate b hmem)
      rw [throws_configure hwithin hdest hrate hlong, if_pos rfl] at happly
      rw [applyAll, happly] at hrun
      cases hrun
    · rintro (hnil | hfits)
      · cases hnil
      have hready := holds_configure hwithin.delayMs.1 hdest hfits s
      have hnegative : ¬ lineLength r sampleRate < 0 := by
        rw [lineLength_eq hwithin.delayMs.1, Int.bmod_eq_of_le (by omega) (by omega)]
        omega
      have hthrows :
          (s.configure r).throws (r.destinationChannels channels) sampleRate = false := by
        simp [throws, hroute, hnegative]
      obtain ⟨outs, hrun, hsizes, hforms, hdelayed⟩ :=
        applyAll_spec (fun k hk ↦ (hwithin.map.2 k hk).1) hid hstream hready hthrows
      exact ⟨outs, hrun, hsizes, hforms, hdelayed⟩

/-- A delay within its limit is the route's. -/
theorem delayOptions_route (ms : Int) (h0 : 0 ≤ ms) (h : ms ≤ 2000) :
    (fromOptions (fun _ ↦ (1 : Int)) (delayOptions ms)).1 = { delayMs := ms } := by
  have hread := lowWord_of_rounded (Double.rounded_ofInt (n := ms) (by omega)) (by omega) (by omega)
  rw [fromOptions_delayOptions _ hread h0 h]

/-- One channel in a block of one frame and a block of three. -/
def twoBlocks : List (AudioBlock Int) :=
  [{ planes := [[5]], interleaved := [5], frames := 1, channels := 1, sampleRate := 2000 },
    { planes := [[6, 7, 8]], interleaved := [6, 7, 8], frames := 3, channels := 1,
      sampleRate := 2000 }]

theorem stream_twoBlocks : Stream 1 2000 twoBlocks :=
  ⟨by decide, by decide, by decide, by decide⟩

/-- A delay of two samples, longer than the first block and shorter than the second. -/
theorem routes_twoBlocks :
    ∃ outs, (({} : AudioRouter Int).configure
        (fromOptions (fun _ ↦ 1) (delayOptions 1)).1).applyAll twoBlocks = some outs ∧
      Routes (fromOptions (fun _ ↦ (1 : Int)) (delayOptions 1)).1 1 2000 twoBlocks outs := by
  have hroute := delayOptions_route 1 (by decide) (by decide)
  apply (routes_iff (fun _ ↦ 1) (delayOptions 1) (by decide) ?_ stream_twoBlocks {}).mpr
  · right
    rw [hroute]
    decide
  · rw [hroute]
    decide

example : ((({} : AudioRouter Int).configure { delayMs := 1 }).applyAll twoBlocks).map
    (fun outs ↦ outs.map AudioBlock.planes) = some [[[0]], [[0, 5, 6]]] := by decide

/-- Of two seconds at the highest rate an `int` holds no line can be made. -/
theorem not_routes :
    ¬ ∀ (options : Value) (channels sampleRate : Nat), sampleRate ≤ 2147483647 →
      (fromOptions (fun _ ↦ (1 : Int)) options).1.isIdentity channels = false →
        ∀ (blocks : List (AudioBlock Int)), Stream channels sampleRate blocks →
          ∀ s : AudioRouter Int, ∃ outs,
            (s.configure (fromOptions (fun _ ↦ 1) options).1).applyAll blocks = some outs ∧
              Routes (fromOptions (fun _ ↦ 1) options).1 channels sampleRate blocks outs := by
  intro h
  have hroute := delayOptions_route 2000 (by decide) (by decide)
  obtain ⟨outs, hrun, -⟩ := h (delayOptions 2000) 1 2147483647 le_rfl (by rw [hroute]; decide)
    [{ planes := [[5]], interleaved := [5], frames := 1, channels := 1,
       sampleRate := 2147483647 }]
    ⟨by decide, by decide, by decide, by decide⟩ {}
  rw [hroute] at hrun
  have hnone : (({} : AudioRouter Int).configure { delayMs := 2000 }).applyAll
      [{ planes := [[5]], interleaved := [5], frames := 1, channels := 1,
         sampleRate := 2147483647 }] = none := by
    decide
  rw [hnone] at hrun
  cases hrun

end WebLinked.Core.AudioRouter
