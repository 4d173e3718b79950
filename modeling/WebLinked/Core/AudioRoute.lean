import WebLinked.Base.Checks
import WebLinked.Core.JsonDocument

/-!
# An output's way of taking the audio

`src/core/audio_route.h`, `src/core/audio_route.cpp`. A route says which source channel each
channel of an output takes, with a gain, a delay and a mute. A router applies it to a block,
and hands the block back untouched where the route is the identity.
-/

namespace WebLinked.Core

open WebLinked.Base WebLinked.Core.Json

/-- `AudioBlock`; `src/core/audio_block.h:15–23`. A null pointer to planes is no planes. -/
structure AudioBlock (α : Type) where
  planes : List (List α) := []
  interleaved : List α := []
  frames : Nat := 0
  channels : Nat := 0
  sampleRate : Nat := 0
  deriving DecidableEq, Repr

/-- `AudioBlock::valid`; `src/core/audio_block.h:22`. -/
def AudioBlock.valid {α : Type} (b : AudioBlock α) : Bool :=
  b.frames > 0 && b.channels > 0 && b.sampleRate > 0

/-- `AudioRoute`; `src/core/audio_route.h:22–47`. -/
structure AudioRoute (α : Type) [One α] where
  mute : Bool := false
  gain : α := 1
  delayMs : Int := 0
  channels : Int := 0
  map : List Int := []
  deriving DecidableEq, Repr

namespace AudioRoute

/-- `kSilent`; `src/core/audio_route.h:49`. -/
def kSilent : Int := -1

/-- `kMaxChannels`; `src/core/audio_route.h:52`. -/
def kMaxChannels : Nat := 64

/-- `kMaxDelayMs`; `src/core/audio_route.h:55`. -/
def kMaxDelayMs : Nat := 2000

/-- `kMinusInfinityDb`; `src/core/audio_route.cpp:12`. -/
def kMinusInfinityDb : Double := .ofInt (-100)

variable {α : Type} [Zero α] [One α]

/-- `linearFromDb`, where `power db` is the `float` nearest to 10 to the `db / 20`;
`src/core/audio_route.cpp:14–19`. -/
def linearFromDb (power : Double → α) (db : Double) : α :=
  if db.le kMinusInfinityDb then 0 else power db

/-- The entries of a map from the one at `i` on; `src/core/audio_route.cpp:79–103`. -/
def readMap (i : Nat) : List Value → Except String (List Int)
  | [] => .ok []
  | .null :: rest => (kSilent :: ·) <$> readMap (i + 1) rest
  | .number x :: rest => do
    let channel := (Value.number x).asInt kSilent
    if channel < kSilent ∨ channel ≥ kMaxChannels then
      throw s!"audio: map entry {i} is out of range"
    let entries ← readMap (i + 1) rest
    return channel :: entries
  | _ :: _ => .error s!"audio: map entry {i} is not a channel number"

/-- A member that is a number from 0 to a limit, or not there;
`src/core/audio_route.cpp:45–69`. -/
def readLimited (key : String) (limit : Nat) (audio : Value) : Except String Int :=
  match audio.get key with
  | .number x =>
    let value := (Value.number x).asInt 0
    if value < 0 ∨ value > limit then .error s!"audio: {key} must be between 0 and {limit}"
    else .ok value
  | _ => .ok 0

/-- The member `map`; `src/core/audio_route.cpp:71–108`. -/
def readEntries (audio : Value) : Except String (List Int) :=
  match audio.get "map" with
  | .array entries =>
    if entries.length > kMaxChannels then
      .error s!"audio: map has more than {kMaxChannels} entries"
    else readMap 0 entries
  | .null => .ok []
  | _ => .error "audio: map must be an array"

/-- The members of an `audio` object; `src/core/audio_route.cpp:37–110`. -/
def readRoute (power : Double → α) (audio : Value) : Except String (AudioRoute α) := do
  let gain := match audio.get "gain_db" with
    | .number db => linearFromDb power db
    | _ => 1
  let delayMs ← readLimited "delay_ms" kMaxDelayMs audio
  let channels ← readLimited "channels" kMaxChannels audio
  let map ← readEntries audio
  return { mute := (audio.get "mute").asBool false, gain, delayMs, channels, map }

/-- `fromOptions`, with what it says is wrong; `src/core/audio_route.cpp:23–110`. -/
def fromOptions (power : Double → α) (options : Value) : AudioRoute α × Option String :=
  match options.get "audio" with
  | .object members =>
    match readRoute power (.object members) with
    | .ok route => (route, none)
    | .error error => ({}, some error)
  | .null => ({}, none)
  | _ => ({}, some "audio: expected an object")

/-- A map that is read has an entry for each it was given, each a channel or silent. -/
theorem readMap_eq_ok {i : Nat} {entries : List Value} {map : List Int}
    (h : readMap i entries = .ok map) :
    map.length = entries.length ∧ ∀ channel ∈ map, kSilent ≤ channel ∧ channel < kMaxChannels := by
  induction entries generalizing i map with
  | nil =>
    cases h
    exact ⟨rfl, nofun⟩
  | cons entry rest ih =>
    have hcons : ∀ channel, kSilent ≤ channel → channel < kMaxChannels →
        (channel :: ·) <$> readMap (i + 1) rest = .ok map →
        map.length = (entry :: rest).length ∧
          ∀ c ∈ map, kSilent ≤ c ∧ c < kMaxChannels := by
      intro channel hlo hhi hmap
      cases hrest : readMap (i + 1) rest with
      | error error =>
        rw [hrest] at hmap
        cases hmap
      | ok channels =>
        rw [hrest] at hmap
        cases hmap
        obtain ⟨hlen, hall⟩ := ih hrest
        refine ⟨congrArg Nat.succ hlen, fun c hc ↦ ?_⟩
        obtain rfl | hc := List.mem_cons.mp hc
        · exact ⟨hlo, hhi⟩
        · exact hall c hc
    cases entry with
    | null => exact hcons kSilent le_rfl (by decide) h
    | number x =>
      rw [readMap] at h
      split at h
      · cases h
      · next hrange =>
        exact hcons ((Value.number x).asInt kSilent) (by omega) (by omega) h
    | _ => cases h

/-- A delay, a channel count and a map within their limits. -/
structure Within (r : AudioRoute α) : Prop where
  delayMs : 0 ≤ r.delayMs ∧ r.delayMs ≤ kMaxDelayMs
  channels : 0 ≤ r.channels ∧ r.channels ≤ kMaxChannels
  map : r.map.length ≤ kMaxChannels ∧
    ∀ channel ∈ r.map, kSilent ≤ channel ∧ channel < kMaxChannels

omit [Zero α] in
theorem within_default : Within ({} : AudioRoute α) := by
  refine ⟨⟨le_rfl, ?_⟩, ⟨le_rfl, ?_⟩, ⟨Nat.zero_le _, nofun⟩⟩ <;> exact Int.natCast_nonneg _

theorem readLimited_within {key : String} {limit : Nat} {audio : Value} {value : Int}
    (h : readLimited key limit audio = .ok value) : 0 ≤ value ∧ value ≤ limit := by
  unfold readLimited at h
  split at h
  · obtain ⟨hrange, h⟩ := Checks.ite_error_eq_ok.mp h
    cases h
    omega
  · cases h
    omega

theorem readRoute_within {power : Double → α} {audio : Value} {r : AudioRoute α}
    (h : readRoute power audio = .ok r) : Within r := by
  simp only [readRoute, Checks.bind_eq_ok] at h
  obtain ⟨delayMs, hdelay, channels, hchannels, map, hmap, h⟩ := h
  cases h
  refine ⟨readLimited_within hdelay, readLimited_within hchannels, ?_⟩
  unfold readEntries at hmap
  split at hmap
  · obtain ⟨hlen, hmap⟩ := Checks.ite_error_eq_ok.mp hmap
    obtain ⟨heq, hall⟩ := readMap_eq_ok hmap
    exact ⟨by dsimp only; omega, hall⟩
  · cases hmap
    exact within_default (α := α).map
  · cases hmap

/-- Whatever the options say, the route they give is within the limits. -/
theorem fromOptions_within (power : Double → α) (options : Value) :
    Within (fromOptions power options).1 := by
  unfold fromOptions
  split
  · split
    · next h => exact readRoute_within h
    · exact within_default
  · exact within_default
  · exact within_default

/-- `destinationChannels`; `src/core/audio_route.cpp:141–149`. -/
def destinationChannels (r : AudioRoute α) (sourceChannels : Nat) : Nat :=
  if r.channels > 0 then r.channels.toNat
  else if r.map ≠ [] then r.map.length
  else sourceChannels

/-- `isIdentity`; `src/core/audio_route.cpp:151–164`. -/
def isIdentity [DecidableEq α] (r : AudioRoute α) (sourceChannels : Nat) : Bool :=
  if r.mute ∨ r.gain ≠ 1 ∨ r.delayMs ≠ 0 then false
  else if r.destinationChannels sourceChannels ≠ sourceChannels then false
  else decide (∀ i, ∀ h : i < r.map.length, r.map[i] = i)

end AudioRoute

/-- `AudioRouter`; `src/core/audio_route.h:100–117`. The planes of the last block are not
kept, since `apply` writes all of them. -/
structure AudioRouter (α : Type) [One α] where
  route : AudioRoute α := {}
  preparedChannels : Nat := 0
  preparedRate : Nat := 0
  delayFrames : Int := 0
  delayLines : List (List α) := []
  delayPos : Nat := 0
  deriving DecidableEq, Repr

namespace AudioRouter

open AudioRoute

variable {α : Type} [Zero α] [One α]

/-- `reset`; `src/core/audio_route.cpp:175–180`. -/
def reset (s : AudioRouter α) : AudioRouter α :=
  { s with delayLines := s.delayLines.map fun line ↦ line.map fun _ ↦ 0, delayPos := 0 }

/-- `configure`; `src/core/audio_route.cpp:166–173`. -/
def configure (s : AudioRouter α) (route : AudioRoute α) : AudioRouter α :=
  { s with route, preparedChannels := 0, preparedRate := 0 }.reset

/-- The length of a delay line, an `int`; `src/core/audio_route.cpp:189–190`. -/
def lineLength (route : AudioRoute α) (sampleRate : Nat) : Int :=
  ((route.delayMs * sampleRate).tdiv 1000).bmod (2 ^ 32)

/-- `prepare`; `src/core/audio_route.cpp:182–197`. -/
def prepare (s : AudioRouter α) (destChannels sampleRate : Nat) : AudioRouter α :=
  if destChannels = s.preparedChannels ∧ sampleRate = s.preparedRate then s
  else
    { s with
      preparedChannels := destChannels
      preparedRate := sampleRate
      delayFrames := lineLength s.route sampleRate
      delayLines := List.replicate destChannels
        (List.replicate (lineLength s.route sampleRate).toNat 0)
      delayPos := 0 }

/-- The next position in a line; `src/core/audio_route.cpp:253`. -/
def nextPos (length pos : Nat) : Nat := if pos + 1 = length then 0 else pos + 1

/-- One channel through its line: what comes out, and the line after it;
`src/core/audio_route.cpp:244–255`. -/
def delay (length : Nat) : List α → Nat → List α → List α × List α
  | line, _, [] => ([], line)
  | line, pos, incoming :: rest =>
    let (out, line') := delay length (line.set pos incoming) (nextPos length pos) rest
    (line.getD pos 0 :: out, line')

/-- The samples of the planes, frame by frame; `src/core/audio_route.cpp:259–266`. -/
def interleave (frames channels : Nat) (planes : List (List α)) : List α :=
  (List.range frames).flatMap fun f ↦ (List.range channels).map fun c ↦
    (planes.getD c []).getD f 0

section

variable [Mul α]

/-- The plane of a destination channel before the delay; `src/core/audio_route.cpp:212–236`. -/
def routePlane (route : AudioRoute α) (b : AudioBlock α) (c : Nat) : List α :=
  let source : Int := if route.map ≠ [] then route.map.getD c kSilent else c
  if route.mute ∨ source = kSilent ∨ source ≥ b.channels then List.replicate b.frames 0
  else (List.range b.frames).map fun f ↦ (b.planes.getD source.toNat []).getD f 0 * route.gain

/-- `apply` past its early returns; `src/core/audio_route.cpp:207–274`. -/
def routed (s : AudioRouter α) (b : AudioBlock α) : AudioBlock α × AudioRouter α :=
  let destChannels := s.route.destinationChannels b.channels
  let s := s.prepare destChannels b.sampleRate
  let planes := (List.range destChannels).map (routePlane s.route b)
  if s.delayFrames > 0 then
    let delayed := List.zipWith (fun line plane ↦ delay s.delayFrames.toNat line s.delayPos plane)
      s.delayLines planes
    let planes := delayed.map Prod.fst
    ({ planes
       interleaved := interleave b.frames destChannels planes
       frames := b.frames
       channels := destChannels
       sampleRate := b.sampleRate },
      { s with
        delayLines := delayed.map Prod.snd
        delayPos := Nat.iterate (nextPos s.delayFrames.toNat) b.frames s.delayPos })
  else
    ({ planes
       interleaved := interleave b.frames destChannels planes
       frames := b.frames
       channels := destChannels
       sampleRate := b.sampleRate }, s)

/-- `apply`; `src/core/audio_route.cpp:199–275`. -/
def apply [DecidableEq α] (s : AudioRouter α) (b : AudioBlock α) :
    AudioBlock α × AudioRouter α :=
  if !b.valid || b.planes.isEmpty then (b, s)
  else if s.route.isIdentity b.channels then (b, s)
  else s.routed b

/-- Routers that were given the route and have taken any blocks since. -/
inductive Serves [DecidableEq α] (r : AudioRoute α) : AudioRouter α → Prop
  | configure (s : AudioRouter α) : Serves r (s.configure r)
  | apply {s : AudioRouter α} (b : AudioBlock α) : Serves r s → Serves r (s.apply b).2
  | reset {s : AudioRouter α} : Serves r s → Serves r s.reset

/-- The block has the samples it says. -/
structure WellFormed (b : AudioBlock α) : Prop where
  planes : b.planes.length = b.channels
  lengths : ∀ plane ∈ b.planes, plane.length = b.frames
  interleaved : b.interleaved = interleave b.frames b.channels b.planes

/-- Past the early returns every router of the route gives back every block of `n` channels
as it was. -/
def Copies [DecidableEq α] (r : AudioRoute α) (n : Nat) : Prop :=
  ∀ s : AudioRouter α, Serves r s → ∀ b : AudioBlock α, WellFormed b → b.channels = n →
    (s.routed b).1 = b

/-- A route that would be the identity but for a map that ends before the channels do. -/
structure EndsEarly (r : AudioRoute α) (n : Nat) : Prop where
  mute : r.mute = false
  gain : r.gain = 1
  delayMs : r.delayMs = 0
  channels : r.channels = n
  map_ne : r.map ≠ []
  map_lt : r.map.length < n
  map_eq : ∀ i, ∀ h : i < r.map.length, r.map[i] = i

variable [DecidableEq α] {r : AudioRoute α} {s : AudioRouter α}

omit [Mul α] [DecidableEq α] in
theorem route_prepare (d rate : Nat) : (s.prepare d rate).route = s.route := by
  unfold prepare
  split <;> rfl

omit [Mul α] [DecidableEq α] in
/-- Once prepared, the lines are as long as the route's delay at the prepared rate. -/
theorem delayFrames_prepare
    (h : s.preparedChannels = 0 ∨ s.delayFrames = lineLength s.route s.preparedRate)
    (d rate : Nat) :
    (s.prepare d rate).preparedChannels = d ∧ (s.prepare d rate).preparedRate = rate ∧
      (d = 0 ∨ (s.prepare d rate).delayFrames = lineLength s.route rate) := by
  unfold prepare
  split
  · next heq =>
    obtain ⟨rfl, rfl⟩ := heq
    exact ⟨rfl, rfl, h⟩
  · exact ⟨rfl, rfl, .inr rfl⟩

/-- What a router has prepared is for its route. -/
theorem Serves.prepared (h : Serves r s) :
    s.route = r ∧ (s.preparedChannels = 0 ∨ s.delayFrames = lineLength r s.preparedRate) := by
  induction h with
  | configure s => exact ⟨rfl, .inl rfl⟩
  | reset _ ih => exact ih
  | @apply s b _ ih =>
    obtain ⟨rfl, hprep⟩ := ih
    obtain ⟨hd, hrate, hlines⟩ := delayFrames_prepare hprep
      (s.route.destinationChannels b.channels) b.sampleRate
    unfold AudioRouter.apply
    split
    · exact ⟨rfl, hprep⟩
    split
    · exact ⟨rfl, hprep⟩
    · unfold routed
      dsimp only
      split
      · refine ⟨route_prepare _ _, ?_⟩
        dsimp only
        rw [hd, hrate]
        exact hlines
      · refine ⟨route_prepare _ _, ?_⟩
        rw [hd, hrate]
        exact hlines

/-- Without a delay, what comes out is the routed planes. -/
theorem routed_of_no_delay (h : Serves r s) (hdelay : r.delayMs = 0) {b : AudioBlock α}
    (hd : r.destinationChannels b.channels ≠ 0) :
    (s.routed b).1 =
      let planes := (List.range (r.destinationChannels b.channels)).map (routePlane r b)
      { planes
        interleaved := interleave b.frames (r.destinationChannels b.channels) planes
        frames := b.frames
        channels := r.destinationChannels b.channels
        sampleRate := b.sampleRate } := by
  obtain ⟨rfl, hprep⟩ := h.prepared
  obtain ⟨-, -, hlines⟩ := delayFrames_prepare hprep
    (s.route.destinationChannels b.channels) b.sampleRate
  have hnone : lineLength s.route b.sampleRate = 0 := by
    rw [lineLength, hdelay, Int.zero_mul]
    rfl
  unfold routed
  dsimp only
  rw [(hlines.resolve_left hd).trans hnone, if_neg (by decide), route_prepare]

omit [Zero α] [Mul α] in
/-- What `isIdentity` finds. -/
theorem isIdentity_iff {n : Nat} :
    r.isIdentity n = true ↔ r.mute = false ∧ r.gain = 1 ∧ r.delayMs = 0 ∧
      r.destinationChannels n = n ∧ ∀ i, ∀ h : i < r.map.length, r.map[i] = i := by
  unfold isIdentity
  split
  · next h =>
    constructor
    · exact nofun
    · rintro ⟨hmute, hgain, hdelay, -⟩
      simp [hmute, hgain, hdelay] at h
  · next h =>
    simp only [not_or, Bool.not_eq_true, ne_eq, not_not] at h
    split
    · next hd => exact ⟨nofun, fun hr ↦ absurd hr.2.2.2.1 hd⟩
    · next hd =>
      rw [decide_eq_true_eq]
      exact ⟨fun hm ↦ ⟨h.1, h.2.1, h.2.2, not_not.mp hd, hm⟩, fun hr ↦ hr.2.2.2.2⟩

omit [One α] [DecidableEq α] in
/-- A plane read frame by frame. -/
theorem map_range_getD (gain : α) (plane : List α) :
    ((List.range plane.length).map fun f ↦ plane.getD f 0 * gain) = plane.map (· * gain) := by
  apply List.ext_getElem
  · rw [List.length_map, List.length_range, List.length_map]
  · intro f _ hf
    rw [List.length_map] at hf
    rw [List.getElem_map, List.getElem_range, List.getElem_map, List.getD_eq_getElem _ _ hf]

omit [DecidableEq α] in
/-- A plane whose source is itself, at unity. -/
theorem routePlane_of_source (hone : ∀ x : α, x * 1 = x) (hmute : r.mute = false)
    (hgain : r.gain = 1) {b : AudioBlock α} (hb : WellFormed b) {c : Nat}
    (hc : c < b.planes.length) (hsource : r.map ≠ [] → r.map.getD c kSilent = c) :
    routePlane r b c = b.planes[c] := by
  have hwhich : (if r.map ≠ [] then r.map.getD c kSilent else (c : Int)) = c := by
    split
    · next hm => exact hsource hm
    · rfl
  have hchannels := hb.planes
  have hsilent : ¬ (r.mute = true ∨ (c : Int) = kSilent ∨ (c : Int) ≥ b.channels) := by
    rw [hmute, kSilent]
    simp only [Bool.false_eq_true, false_or]
    omega
  rw [routePlane, hwhich, if_neg hsilent, Int.toNat_natCast, List.getD_eq_getElem _ _ hc, hgain,
    ← hb.lengths _ (List.getElem_mem hc), map_range_getD]
  simp only [hone, List.map_id_fun', id]

/-- A map that covers the channels, or none, copies an identity block. -/
theorem copies_of_not_endsEarly (hone : ∀ x : α, x * 1 = x) {n : Nat} (hn : 0 < n)
    (hid : r.isIdentity n = true) (hmap : ¬ EndsEarly r n) : Copies r n := by
  obtain ⟨hmute, hgain, hdelay, hdest, hmap_eq⟩ := isIdentity_iff.mp hid
  rintro s hs b hb rfl
  have hcovers : r.map ≠ [] → b.channels ≤ r.map.length := by
    intro hm
    apply Nat.le_of_not_lt
    intro hlt
    refine hmap ⟨hmute, hgain, hdelay, ?_, hm, hlt, hmap_eq⟩
    unfold destinationChannels at hdest
    split at hdest
    · omega
    · omega
  have hplanes : (List.range b.channels).map (routePlane r b) = b.planes := by
    apply List.ext_getElem
    · rw [List.length_map, List.length_range, hb.planes]
    · intro c _ hc
      rw [List.getElem_map, List.getElem_range]
      refine routePlane_of_source hone hmute hgain hb hc fun hm ↦ ?_
      have hlt : c < r.map.length := by
        have := hcovers hm
        have := hb.planes
        omega
      rw [List.getD_eq_getElem _ _ hlt, hmap_eq c hlt]
  rw [routed_of_no_delay hs hdelay (by rw [hdest]; omega)]
  dsimp only
  rw [hdest, hplanes, ← hb.interleaved]

/-- A map that ends early silences the channels past its end. -/
theorem not_copies_of_endsEarly (hne : (1 : α) ≠ 0) {n : Nat} (h : EndsEarly r n) :
    ¬ Copies r n := by
  intro hcopies
  have hn : 0 < n := Nat.lt_of_le_of_lt (Nat.zero_le _) h.map_lt
  have hdest : r.destinationChannels n = n := by
    have := h.channels
    rw [destinationChannels, if_pos (by omega), this, Int.toNat_natCast]
  let b : AudioBlock α :=
    { planes := List.replicate n [1]
      interleaved := interleave 1 n (List.replicate n [1])
      frames := 1, channels := n, sampleRate := 48000 }
  have hb : WellFormed b := by
    refine ⟨List.length_replicate, fun plane hplane ↦ ?_, rfl⟩
    rw [(List.mem_replicate.mp hplane).2]
    rfl
  have hout := hcopies _ (.configure {}) b hb rfl
  rw [routed_of_no_delay (.configure {}) h.delayMs (by rw [hdest]; omega)] at hout
  have hlast := congrArg (fun o : AudioBlock α ↦ o.planes[n - 1]?) hout
  have hsilent : routePlane r b (n - 1) = [0] := by
    have hpast : r.map.getD (n - 1) kSilent = kSilent := by
      have := h.map_lt
      rw [List.getD_eq_getElem?_getD, List.getElem?_eq_none (by omega), Option.getD_none]
    rw [routePlane, if_pos h.map_ne, hpast, if_pos (.inr (.inl rfl))]
    rfl
  dsimp only at hlast
  rw [hdest, List.getElem?_map, List.getElem?_range (by omega), Option.map_some, hsilent,
    List.getElem?_replicate, if_pos (by omega)] at hlast
  exact hne (by simpa using hlast.symm)

/-- For every route that options give, with a unit that changes no sample and is not silence:
where `isIdentity` says so a copy is what routing would give, if and only if the route is not
one whose identity map ends before its channels do. -/
theorem identity_copies_iff (hone : ∀ x : α, x * 1 = x) (hne : (1 : α) ≠ 0)
    (power : Double → α) (options : Value) {n : Nat} (hn : 0 < n) :
    ((fromOptions power options).1.isIdentity n = true →
      Copies (fromOptions power options).1 n) ↔
      ¬ EndsEarly (fromOptions power options).1 n := by
  constructor
  · intro hcopies hearly
    refine not_copies_of_endsEarly hne hearly (hcopies (isIdentity_iff.mpr ?_))
    have := hearly.channels
    refine ⟨hearly.mute, hearly.gain, hearly.delayMs, ?_, hearly.map_eq⟩
    rw [destinationChannels, if_pos (by omega), this, Int.toNat_natCast]
  · exact fun hmap hid ↦ copies_of_not_endsEarly hone hn hid hmap

end

/-- Two channels, and a map. -/
def stereoAudio (map : List Int) : Value :=
  .object [("channels", .number (.ofInt 2)), ("map", .array (map.map fun c ↦ .number (.ofInt c)))]

/-- A map of channels is read as it is. -/
theorem readMap_channels {map : List Int} (h : ∀ c ∈ map, kSilent ≤ c ∧ c < kMaxChannels) (i : Nat) :
    readMap i (map.map fun c ↦ .number (.ofInt c)) = .ok map := by
  induction map generalizing i with
  | nil => rfl
  | cons c map ih =>
    obtain ⟨hc, hmap⟩ := List.forall_mem_cons.mp h
    rw [kSilent, kMaxChannels] at hc
    have hread : (Value.number (.ofInt c)).asInt kSilent = c :=
      Value.asInt_int (by omega) (by omega) kSilent
    have hrange : ¬ (c < kSilent ∨ c ≥ kMaxChannels) := by
      rw [kSilent, kMaxChannels]
      omega
    rw [List.map_cons, readMap]
    simp only [hread, if_neg hrange, ih hmap]
    rfl

/-- The route of such options. -/
theorem fromOptions_stereo (power : Double → Int) (map : List Int)
    (h : ∀ c ∈ map, kSilent ≤ c ∧ c < kMaxChannels) (hlength : map.length ≤ kMaxChannels) :
    (fromOptions power (.object [("audio", stereoAudio map)])).1 = { channels := 2, map } := by
  have htwo : (Value.number (.ofInt 2)).asInt 0 = 2 := Value.asInt_int (by decide) (by decide) 0
  have hmap := readMap_channels h 0
  have hread : readRoute power (stereoAudio map) = .ok { channels := 2, map } := by
    have hmute : (stereoAudio map).get "mute" = .null := rfl
    have hgain : (stereoAudio map).get "gain_db" = .null := rfl
    have hdelay : (stereoAudio map).get "delay_ms" = .null := rfl
    have hchannels : (stereoAudio map).get "channels" = .number (.ofInt 2) := rfl
    have hentries : (stereoAudio map).get "map" =
        .array (map.map fun c ↦ .number (.ofInt c)) := rfl
    rw [readRoute, readLimited, readLimited, readEntries, hmute, hgain, hdelay, hchannels, hentries]
    simp only [htwo, List.length_map, if_neg (not_lt.mpr hlength), hmap]
    rfl
  have haudio : (Value.object [("audio", stereoAudio map)]).get "audio" = stereoAudio map := rfl
  rw [fromOptions, haudio]
  rw [stereoAudio] at hread ⊢
  dsimp only
  rw [hread]

/-- A map that names both channels in their places copies a stereo block. -/
theorem identity_copies_stereo :
    let route := (fromOptions (fun _ ↦ (1 : Int)) (.object [("audio", stereoAudio [0, 1])])).1
    route.map = [0, 1] ∧ route.isIdentity 2 = true ∧ Copies route 2 := by
  have hroute := fromOptions_stereo (fun _ ↦ 1) [0, 1] (by decide) (by decide)
  have hcopies := (identity_copies_iff Int.mul_one (by decide) (fun _ ↦ (1 : Int))
    (.object [("audio", stereoAudio [0, 1])]) (n := 2) (by decide)).mpr
  dsimp only
  rw [hroute] at hcopies ⊢
  have hidentity : ({ channels := 2, map := [0, 1] } : AudioRoute Int).isIdentity 2 = true := by
    decide
  exact ⟨rfl, hidentity, hcopies (fun h ↦ absurd h.map_lt (by decide)) hidentity⟩

/-- The second channel of a stereo block is silenced, though the route counts as identity. -/
theorem not_identity_copies :
    ¬ ∀ options : Value, ∀ n, 0 < n →
      (fromOptions (fun _ ↦ (1 : Int)) options).1.isIdentity n = true →
        Copies (fromOptions (fun _ ↦ (1 : Int)) options).1 n := by
  intro h
  have hcopies := h (.object [("audio", stereoAudio [0])]) 2 (by decide)
  rw [fromOptions_stereo (fun _ ↦ 1) [0] (by decide) (by decide)] at hcopies
  refine not_copies_of_endsEarly (by decide) ?_ (hcopies (by decide))
  exact ⟨rfl, rfl, rfl, rfl, by decide, by decide, by decide⟩

end AudioRouter
end WebLinked.Core
