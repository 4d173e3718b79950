import Mathlib
import WebLinked.Base.Int64
import WebLinked.Core.AudioRoute

/-!
# Which audio options are accepted

`src/core/audio_route.cpp:23–108`, `src/core/json.cpp:399–407`. A number is rounded to an
`int64_t` and then cut to its low 32 bits before it is compared with its limits, so the
comparison may see a small number where the document has a large one. What the options should
mean is said once for any way to read a number as an integer.
-/

namespace WebLinked.Core.AudioRoute

open WebLinked.Base WebLinked.Core.Json

/-- The low 32 bits of the nearest integer, zero where no `int64_t` holds it. -/
def lowWord (x : Double) : Option Int :=
  match x.rounded with
  | some n => some (if InInt64 n then n.bmod (2 ^ 32) else 0)
  | none => some 0

/-- The value of a member that may be a number from 0 to a limit. -/
def Limited (read : Double → Option Int) (limit : Nat) (v : Value) (k : Int) : Prop :=
  (∃ x, v = .number x ∧ read x = some k ∧ 0 ≤ k ∧ k ≤ limit) ∨ ((∀ x, v ≠ .number x) ∧ k = 0)

/-- The channel of an entry of a map. -/
def Entry (read : Double → Option Int) (v : Value) (k : Int) : Prop :=
  (v = .null ∧ k = kSilent) ∨ ∃ x, v = .number x ∧ read x = some k ∧ kSilent ≤ k ∧ k < kMaxChannels

/-- The channels of the member `map`, none where it is not there. -/
def Entries (read : Double → Option Int) (v : Value) (map : List Int) : Prop :=
  (v = .null ∧ map = []) ∨
    ∃ entries, v = .array entries ∧ entries.length ≤ kMaxChannels ∧
      List.Forall₂ (Entry read) entries map

variable {α : Type} [Zero α] [One α]

/-- The route has the values that the members have. -/
structure Holds (read : Double → Option Int) (power : Double → α) (audio : Value)
    (r : AudioRoute α) : Prop where
  mute : r.mute = (audio.get "mute").asBool false
  gain : (∃ db, audio.get "gain_db" = .number db ∧ r.gain = linearFromDb power db) ∨
    ((∀ db, audio.get "gain_db" ≠ .number db) ∧ r.gain = 1)
  delayMs : Limited read kMaxDelayMs (audio.get "delay_ms") r.delayMs
  channels : Limited read kMaxChannels (audio.get "channels") r.channels
  map : Entries read (audio.get "map") r.map

/-- Each number is read as an integer within its limits, and the map is a list of at most so
many silences and numbers. -/
structure InRange (read : Double → Option Int) (audio : Value) : Prop where
  delayMs : ∀ x, audio.get "delay_ms" = .number x → ∃ n, read x = some n ∧ 0 ≤ n ∧ n ≤ kMaxDelayMs
  channels : ∀ x, audio.get "channels" = .number x →
    ∃ n, read x = some n ∧ 0 ≤ n ∧ n ≤ kMaxChannels
  map : audio.get "map" = .null ∨ ∃ entries, audio.get "map" = .array entries ∧
    entries.length ≤ kMaxChannels ∧ ∀ entry ∈ entries, entry = .null ∨
      ∃ x n, entry = .number x ∧ read x = some n ∧ kSilent ≤ n ∧ n < kMaxChannels

/-- What reading the options comes to: no error if and only if the members are in range, and
then the route has their values; otherwise an error and the identity. -/
structure Settles (power : Double → α) (audio : Value) (r : AudioRoute α) (error : Option String) :
    Prop where
  accepts : error = none ↔ InRange Double.rounded audio
  holds : InRange Double.rounded audio → Holds Double.rounded power audio r
  refuses : ¬ InRange Double.rounded audio → r = {} ∧ error ≠ none

/-- A number lands in its range only with its high bits cut off: every member passes by its
low 32 bits, and not every number is in range itself. -/
structure Wraps (audio : Value) : Prop where
  lands : InRange lowWord audio
  outside : ¬ InRange Double.rounded audio

/-! ### Ways to read a number -/

section

variable {read : Double → Option Int} {limit : Nat} {v : Value}

/-- `asInt` of a number is its low word, whatever the fallback. -/
theorem lowWord_eq (x : Double) (fallback : Int) :
    lowWord x = some ((Value.number x).asInt fallback) := by
  rw [lowWord, Value.asInt, Value.asInt64, Double.llround_eq]
  cases x.rounded with
  | none => rfl
  | some n =>
    by_cases h : InInt64 n
    · have hrange : -2 ^ 63 ≤ n ∧ n < 2 ^ 63 := ⟨by have := h.1; omega, by have := h.2; omega⟩
      dsimp only
      rw [if_pos h, if_pos hrange]
    · have hrange : ¬ (-2 ^ 63 ≤ n ∧ n < 2 ^ 63) := fun hr ↦ h ⟨by omega, by omega⟩
      dsimp only
      rw [if_neg h, if_neg hrange]
      rfl

/-- A number whose nearest integer fits an `int` is read as that. -/
theorem lowWord_of_rounded {x : Double} {n : Int} (h : x.rounded = some n) (hlo : -2 ^ 31 ≤ n)
    (hhi : n < 2 ^ 31) : lowWord x = some n := by
  have hin : InInt64 n := ⟨by omega, by omega⟩
  rw [lowWord, h]
  dsimp only
  rw [if_pos hin, Int.bmod_eq_of_le (by omega) (by omega)]

theorem Limited.lowWord {k : Int} (hlimit : limit < 2 ^ 31)
    (h : Limited Double.rounded limit v k) : Limited lowWord limit v k := by
  rcases h with ⟨x, hv, hx, h0, hk⟩ | hnone
  · exact .inl ⟨x, hv, lowWord_of_rounded hx (by omega) (by omega), h0, hk⟩
  · exact .inr hnone

theorem Entry.lowWord {k : Int} (h : Entry Double.rounded v k) : Entry lowWord v k := by
  rcases h with hnull | ⟨x, hv, hx, hlo, hhi⟩
  · exact .inl hnull
  · unfold kSilent kMaxChannels at *
    exact .inr ⟨x, hv, lowWord_of_rounded hx (by omega) (by omega), hlo, hhi⟩

theorem Entries.lowWord {map : List Int} (h : Entries Double.rounded v map) :
    Entries lowWord v map := by
  rcases h with hnull | ⟨entries, hv, hlen, hall⟩
  · exact .inl hnull
  · exact .inr ⟨entries, hv, hlen, hall.imp fun _ _ ↦ Entry.lowWord⟩

/-- What holds of the values in the document holds of what the code reads. -/
theorem Holds.lowWord {power : Double → α} {audio : Value} {r : AudioRoute α}
    (h : Holds Double.rounded power audio r) : Holds lowWord power audio r :=
  { h with
    delayMs := h.delayMs.lowWord (by decide)
    channels := h.channels.lowWord (by decide)
    map := h.map.lowWord }

/-- A member in its range has a value. -/
theorem exists_limited (h : ∀ x, v = .number x → ∃ n, read x = some n ∧ 0 ≤ n ∧ n ≤ limit) :
    ∃ k, Limited read limit v k := by
  by_cases hnumber : ∃ x, v = .number x
  · obtain ⟨x, hx⟩ := hnumber
    obtain ⟨n, hn⟩ := h x hx
    exact ⟨n, .inl ⟨x, hx, hn⟩⟩
  · exact ⟨0, .inr ⟨not_exists.mp hnumber, rfl⟩⟩

/-- So has each entry of a map in range, and with them the map. -/
theorem exists_entries {entries : List Value}
    (h : ∀ entry ∈ entries, entry = .null ∨
      ∃ x n, entry = .number x ∧ read x = some n ∧ kSilent ≤ n ∧ n < kMaxChannels) :
    ∃ map, List.Forall₂ (Entry read) entries map := by
  induction entries with
  | nil => exact ⟨[], .nil⟩
  | cons entry rest ih =>
    obtain ⟨map, hmap⟩ := ih fun e he ↦ h e (List.mem_cons_of_mem _ he)
    rcases h entry List.mem_cons_self with hnull | ⟨x, n, hx, hn⟩
    · exact ⟨kSilent :: map, .cons (.inl ⟨hnull, rfl⟩) hmap⟩
    · exact ⟨n :: map, .cons (.inr ⟨x, hx, hn⟩) hmap⟩

/-- The members are in range exactly where some route has their values. -/
theorem inRange_iff_exists_holds (power : Double → α) (audio : Value) :
    InRange read audio ↔ ∃ r, Holds read power audio r := by
  constructor
  · intro h
    obtain ⟨delayMs, hdelay⟩ := exists_limited h.delayMs
    obtain ⟨channels, hchannels⟩ := exists_limited h.channels
    have hgain : ∃ gain, (∃ db, audio.get "gain_db" = .number db ∧ gain = linearFromDb power db) ∨
        ((∀ db, audio.get "gain_db" ≠ .number db) ∧ gain = 1) := by
      by_cases hnumber : ∃ db, audio.get "gain_db" = .number db
      · obtain ⟨db, hdb⟩ := hnumber
        exact ⟨_, .inl ⟨db, hdb, rfl⟩⟩
      · exact ⟨1, .inr ⟨not_exists.mp hnumber, rfl⟩⟩
    have hmap : ∃ map, Entries read (audio.get "map") map := by
      rcases h.map with hnull | ⟨entries, hentries, hlen, hall⟩
      · exact ⟨[], .inl ⟨hnull, rfl⟩⟩
      · obtain ⟨map, hmap⟩ := exists_entries hall
        exact ⟨map, .inr ⟨entries, hentries, hlen, hmap⟩⟩
    obtain ⟨gain, hgain⟩ := hgain
    obtain ⟨map, hmap⟩ := hmap
    exact ⟨{ mute := (audio.get "mute").asBool false, gain, delayMs, channels, map },
      rfl, hgain, hdelay, hchannels, hmap⟩
  · rintro ⟨r, h⟩
    constructor
    · intro x hx
      rcases h.delayMs with ⟨y, hy, hread, h0, hk⟩ | ⟨hnone, -⟩
      · rw [hx] at hy
        cases hy
        exact ⟨_, hread, h0, hk⟩
      · exact absurd hx (hnone x)
    · intro x hx
      rcases h.channels with ⟨y, hy, hread, h0, hk⟩ | ⟨hnone, -⟩
      · rw [hx] at hy
        cases hy
        exact ⟨_, hread, h0, hk⟩
      · exact absurd hx (hnone x)
    · rcases h.map with ⟨hnull, -⟩ | ⟨entries, hentries, hlen, hall⟩
      · exact .inl hnull
      · refine .inr ⟨entries, hentries, hlen, ?_⟩
        intro entry hentry
        obtain ⟨i, hi, rfl⟩ := List.getElem_of_mem hentry
        have hone := (List.forall₂_iff_get.mp hall).2 i hi (hall.length_eq ▸ hi)
        rcases hone with ⟨hnull, -⟩ | ⟨x, hx, hread⟩
        · exact .inl hnull
        · exact .inr ⟨x, _, hx, hread⟩

end

/-! ### What the code accepts -/

theorem readLimited_eq_ok_iff {key : String} {limit : Nat} {audio : Value} {k : Int} :
    readLimited key limit audio = .ok k ↔ Limited lowWord limit (audio.get key) k := by
  unfold readLimited Limited
  cases audio.get key with
  | number x =>
    dsimp only
    rw [Checks.ite_error_eq_ok]
    constructor
    · rintro ⟨hrange, hk⟩
      cases hk
      exact .inl ⟨x, rfl, lowWord_eq x 0, by omega, by omega⟩
    · rintro (⟨y, hy, hread, h0, hk⟩ | ⟨hnone, -⟩)
      · cases hy
        rw [lowWord_eq x 0] at hread
        cases hread
        exact ⟨by omega, rfl⟩
      · exact absurd rfl (hnone x)
  | _ =>
    constructor
    · intro h
      cases h
      exact .inr ⟨fun _ hx ↦ Value.noConfusion hx, rfl⟩
    · rintro (⟨y, hy, -⟩ | ⟨-, rfl⟩)
      · cases hy
      · rfl

theorem readMap_eq_ok_iff {i : Nat} {entries : List Value} {map : List Int} :
    readMap i entries = .ok map ↔ List.Forall₂ (Entry lowWord) entries map := by
  induction entries generalizing i map with
  | nil =>
    rw [List.forall₂_nil_left_iff]
    constructor
    · intro h
      cases h
      rfl
    · rintro rfl
      rfl
  | cons entry rest ih =>
    -- One more channel in front of what the rest gives.
    have hcons (k : Int) : (k :: ·) <$> readMap (i + 1) rest = .ok map ↔
        ∃ tail, List.Forall₂ (Entry lowWord) rest tail ∧ map = k :: tail := by
      constructor
      · intro h
        cases hrest : readMap (i + 1) rest with
        | error error =>
          rw [hrest] at h
          cases h
        | ok tail =>
          rw [hrest] at h
          cases h
          exact ⟨tail, ih.mp hrest, rfl⟩
      · rintro ⟨tail, htail, rfl⟩
        rw [ih.mpr htail]
        rfl
    rw [List.forall₂_cons_left_iff]
    cases entry with
    | null =>
      rw [readMap, hcons kSilent]
      constructor
      · rintro ⟨tail, htail, rfl⟩
        exact ⟨kSilent, tail, .inl ⟨rfl, rfl⟩, htail, rfl⟩
      · rintro ⟨k, tail, ⟨-, rfl⟩ | ⟨x, hx, -⟩, htail, rfl⟩
        · exact ⟨tail, htail, rfl⟩
        · cases hx
    | number x =>
      have hread := lowWord_eq x kSilent
      rw [readMap]
      constructor
      · intro h
        split at h
        · cases h
        · next hrange =>
          obtain ⟨tail, htail, rfl⟩ := (hcons _).mp h
          exact ⟨_, tail, .inr ⟨x, rfl, hread, by omega, by omega⟩, htail, rfl⟩
      · rintro ⟨k, tail, ⟨hnull, -⟩ | ⟨y, hy, hk, hlo, hhi⟩, htail, rfl⟩
        · cases hnull
        · cases hy
          rw [hread] at hk
          cases hk
          rw [if_neg (by omega)]
          exact (hcons _).mpr ⟨tail, htail, rfl⟩
    | _ =>
      constructor
      · intro h
        cases h
      · rintro ⟨k, tail, ⟨hnull, -⟩ | ⟨y, hy, -⟩, -, -⟩
        · cases hnull
        · cases hy

theorem readEntries_eq_ok_iff {audio : Value} {map : List Int} :
    readEntries audio = .ok map ↔ Entries lowWord (audio.get "map") map := by
  unfold readEntries Entries
  cases audio.get "map" with
  | array entries =>
    dsimp only
    rw [Checks.ite_error_eq_ok, readMap_eq_ok_iff]
    constructor
    · rintro ⟨hlen, hall⟩
      exact .inr ⟨entries, rfl, by omega, hall⟩
    · rintro (⟨hnull, -⟩ | ⟨_, hentries, hlen, hall⟩)
      · cases hnull
      · cases hentries
        exact ⟨by omega, hall⟩
  | null =>
    constructor
    · intro h
      cases h
      exact .inl ⟨rfl, rfl⟩
    · rintro (⟨-, rfl⟩ | ⟨_, hentries, -⟩)
      · rfl
      · cases hentries
  | _ =>
    constructor
    · intro h
      cases h
    · rintro (⟨hnull, -⟩ | ⟨_, hentries, -⟩)
      · cases hnull
      · cases hentries

/-- The route that is read is the one with the values the code sees. -/
theorem readRoute_eq_ok_iff {power : Double → α} {audio : Value} {r : AudioRoute α} :
    readRoute power audio = .ok r ↔ Holds lowWord power audio r := by
  simp only [readRoute, Checks.bind_eq_ok, readLimited_eq_ok_iff, readEntries_eq_ok_iff]
  constructor
  · rintro ⟨delayMs, hdelay, channels, hchannels, map, hmap, h⟩
    cases h
    refine ⟨rfl, ?_, hdelay, hchannels, hmap⟩
    dsimp only
    cases audio.get "gain_db" with
    | number db => exact .inl ⟨db, rfl, rfl⟩
    | _ => exact .inr ⟨fun _ hx ↦ Value.noConfusion hx, rfl⟩
  · intro h
    refine ⟨_, h.delayMs, _, h.channels, _, h.map, ?_⟩
    have hgain := h.gain
    cases r with
    | mk mute gain delayMs channels map =>
      have hmute := h.mute
      dsimp only at hmute hgain
      subst hmute
      rcases hgain with ⟨db, hdb, rfl⟩ | ⟨hnone, rfl⟩
      · rw [hdb]
        rfl
      · cases hdb : audio.get "gain_db" with
        | number db => exact absurd hdb (hnone db)
        | _ => rfl

theorem fromOptions_of_ok {power : Double → α} {options : Value}
    {members : List (String × Value)} (haudio : options.get "audio" = .object members)
    {r : AudioRoute α} (h : readRoute power (.object members) = .ok r) :
    fromOptions power options = (r, none) := by
  rw [fromOptions, haudio]
  dsimp only
  rw [h]

theorem fromOptions_of_error {power : Double → α} {options : Value}
    {members : List (String × Value)} (haudio : options.get "audio" = .object members)
    {error : String} (h : readRoute power (.object members) = .error error) :
    fromOptions power options = ({}, some error) := by
  rw [fromOptions, haudio]
  dsimp only
  rw [h]

/-- For every audio object: what the options settle on is right if and only if no member
wraps into its range. -/
theorem settles_iff (power : Double → α) {options : Value} {members : List (String × Value)}
    (haudio : options.get "audio" = .object members) :
    Settles power (.object members) (fromOptions power options).1 (fromOptions power options).2 ↔
      ¬ Wraps (.object members) := by
  constructor
  · intro h hwraps
    obtain ⟨r, hr⟩ := (inRange_iff_exists_holds power _).mp hwraps.lands
    rw [fromOptions_of_ok haudio (readRoute_eq_ok_iff.mpr hr)] at h
    exact hwraps.outside (h.accepts.mp rfl)
  · intro hnot
    by_cases hin : InRange Double.rounded (.object members)
    · obtain ⟨r, hr⟩ := (inRange_iff_exists_holds power _).mp hin
      rw [fromOptions_of_ok haudio (readRoute_eq_ok_iff.mpr hr.lowWord)]
      exact ⟨⟨fun _ ↦ hin, fun _ ↦ rfl⟩, fun _ ↦ hr, fun h ↦ absurd hin h⟩
    · cases hroute : readRoute power (.object members) with
      | ok r =>
        have hlands := (inRange_iff_exists_holds power _).mpr ⟨r, readRoute_eq_ok_iff.mp hroute⟩
        exact absurd ⟨hlands, hin⟩ hnot
      | error error =>
        rw [fromOptions_of_error haudio hroute]
        constructor
        · exact ⟨fun h ↦ absurd h (Option.some_ne_none error), fun h ↦ absurd h hin⟩
        · exact fun h ↦ absurd h hin
        · exact fun _ ↦ ⟨rfl, Option.some_ne_none error⟩

/-- Options with a delay and nothing else. -/
def delayOptions (ms : Int) : Value :=
  .object [("audio", .object [("delay_ms", .number (.ofInt ms))])]

theorem fromOptions_delayOptions (power : Double → α) {ms n : Int}
    (hread : lowWord (.ofInt ms) = some n) (h0 : 0 ≤ n) (hn : n ≤ kMaxDelayMs) :
    fromOptions power (delayOptions ms) = ({ delayMs := n }, none) := by
  apply fromOptions_of_ok rfl
  apply readRoute_eq_ok_iff.mpr
  constructor
  · rfl
  · exact .inr ⟨fun _ hx ↦ Value.noConfusion hx, rfl⟩
  · exact .inl ⟨_, rfl, hread, h0, hn⟩
  · exact .inr ⟨fun _ hx ↦ Value.noConfusion hx, rfl⟩
  · exact .inl ⟨rfl, rfl⟩

/-- A delay of 100 ms is what it says. -/
theorem settles_hundred :
    Settles (fun _ ↦ (1 : Int)) (.object [("delay_ms", .number (.ofInt 100))])
      (fromOptions (fun _ ↦ (1 : Int)) (delayOptions 100)).1
      (fromOptions (fun _ ↦ (1 : Int)) (delayOptions 100)).2 := by
  apply (settles_iff _ rfl).mpr
  intro hwraps
  refine hwraps.outside ⟨?_, ?_, .inl rfl⟩
  · intro x hx
    cases hx
    exact ⟨100, Double.rounded_ofInt (by decide), by decide, by decide⟩
  · intro x hx
    cases hx

/-- A delay of 2 ^ 32 + 100 ms is accepted as one of 100 ms. -/
theorem not_settles :
    ¬ ∀ (options : Value) (members : List (String × Value)),
      options.get "audio" = .object members →
        Settles (fun _ ↦ (1 : Int)) (.object members)
          (fromOptions (fun _ ↦ (1 : Int)) options).1
          (fromOptions (fun _ ↦ (1 : Int)) options).2 := by
  intro h
  have hsettles := h (delayOptions 4294967396) _ rfl
  have hrounded : (Double.ofInt 4294967396).rounded = some 4294967396 :=
    Double.rounded_ofInt (by decide)
  have hlow : lowWord (.ofInt 4294967396) = some 100 := by
    rw [lowWord, hrounded]
    decide
  have haccepted := fromOptions_delayOptions (fun _ ↦ (1 : Int)) hlow (by decide) (by decide)
  rw [haccepted] at hsettles
  obtain ⟨n, hn, -, hle⟩ := (hsettles.accepts.mp rfl).delayMs _ rfl
  rw [hrounded] at hn
  cases hn
  exact absurd hle (by decide)

end WebLinked.Core.AudioRoute
