import Mathlib
import WebLinked.Core.FormatRoundTrip
import WebLinked.Core.FrameClock

/-!
# Which accepted formats can be played

`src/core/video_format.cpp:46–101,162–230`, `src/core/frame_clock.cpp:56–62`. A decimal is
accepted where it is near an integer, which may be zero or more than an `int` holds, and no
rate is too high for a clock that counts nanoseconds.
-/

namespace WebLinked.Core

open WebLinked.Base NumberText

/-- `static_cast<int>` of this number is defined. -/
def InInt (x : Double) : Prop := x.isFinite ∧ -2 ^ 31 ≤ x.trunc ∧ x.trunc < 2 ^ 31

namespace FrameRate

/-- The rate that a decimal is near; `src/core/video_format.cpp:91–95`. -/
def nearFractional (value : Double) : Option FrameRate :=
  ((kApproximate.zip kFractional).find? fun f ↦
    (value.sub f.1).abs.lt (.ofRat false (1 / 100))).map Prod.snd

/-- A decimal within the tolerance of an integer; `src/core/video_format.cpp:98`. -/
def nearInteger (value : Double) : Bool :=
  (value.sub value.round).abs.lt (.ofRat false (1 / 10 ^ 9))

/-- What `parse` casts to an `int` on the way; `src/core/video_format.cpp:99`. -/
def casts (text : List Char) : List Double :=
  if '/' ∈ text then []
  else
    match stod text with
    | some (value, consumed) =>
      if consumed = text.length ∧ value.le (.ofInt 0) = false ∧ nearFractional value = none ∧
          nearInteger value then [value.round]
      else []
    | none => []

/-- A frame of the rate lasts a nanosecond or more: a fraction has at most that many frames in
a second, and a decimal is near a listed rate or has such a number as its nearest integer. -/
def InRange (text : List Char) : Prop :=
  if '/' ∈ text then
    ∀ num ∈ stoi (text.takeWhile (· ≠ '/')), ∀ den ∈ stoi ((text.dropWhile (· ≠ '/')).drop 1),
      num ≤ FrameClock.kNanosPerSecond * den
  else
    ∀ value consumed, stod text = some (value, consumed) → nearFractional value ≠ none ∨
      ∃ n, value.rounded = some n ∧ 1 ≤ n ∧ n ≤ FrameClock.kNanosPerSecond

end FrameRate

namespace VideoFormat

/-- The text of the rate in the text of a format. -/
def rateText (text : String) : Option (List Char) :=
  (split (text.toList.map Char.toLower)).map fun parts ↦ parts.2.2

/-- What `parse` casts to an `int` on the way. -/
def casts (text : String) : List Double := ((rateText text).map FrameRate.casts).getD []

/-- A raster of pixel pairs, a positive rate whose period the clock does not round to zero, and
no cast on the way that has no defined result. -/
structure Usable (text : String) (f : VideoFormat) : Prop where
  width : 0 < f.width ∧ 2 ∣ f.width
  height : 0 < f.height
  numerator : 0 < f.rate.numerator
  denominator : 0 < f.rate.denominator
  casts : ∀ x ∈ casts text, InInt x
  period : ∃ period, FrameClock.deadlineNanosForTick f.rate 1 = some period ∧ 1 ≤ period

/-- The rate in the text is in range. -/
def RateInRange (text : String) : Prop := ∀ rate ∈ rateText text, FrameRate.InRange rate

end VideoFormat

namespace FrameRate

variable {text : List Char} {r : FrameRate} {value : Double}

/-- The part of a format's use that is about its rate. -/
structure Usable (text : List Char) (r : FrameRate) : Prop where
  numerator : 0 < r.numerator
  denominator : 0 < r.denominator
  casts : ∀ x ∈ casts text, InInt x
  period : ∃ period, FrameClock.deadlineNanosForTick r 1 = some period ∧ 1 ≤ period

/-- A period of a nanosecond or more, as a bound on the rate. -/
theorem period_iff (hnum : 0 < r.numerator) (hden : 0 < r.denominator)
    (hden' : r.denominator < 2 ^ 31) :
    (∃ period, FrameClock.deadlineNanosForTick r 1 = some period ∧ 1 ≤ period) ↔
      r.numerator ≤ FrameClock.kNanosPerSecond * r.denominator := by
  have hfits : InInt64 (1 * 1000000000 * r.denominator) := ⟨by omega, by omega⟩
  have hperiod : FrameClock.deadlineNanosForTick r 1 = some _ :=
    (FrameClock.deadlineNanosForTick_eq_some_iff hnum hden).mpr ⟨hfits, rfl⟩
  rw [Int.tdiv_eq_ediv_of_nonneg (by omega)] at hperiod
  have hle := Int.le_ediv_iff_mul_le (a := 1) (b := 1 * 1000000000 * r.denominator) hnum
  rw [hperiod, FrameClock.kNanosPerSecond]
  constructor
  · rintro ⟨_, heq, h⟩
    cases heq
    have := hle.mp h
    omega
  · intro h
    exact ⟨_, rfl, hle.mpr (by omega)⟩

/-- A decimal that is accepted is all of the text and positive, and is near a listed rate or
near an integer. -/
theorem parseDecimal_cases (h : parseDecimal text = some r) :
    ∃ value, stod text = some (value, text.length) ∧ value.le (.ofInt 0) = false ∧
      (nearFractional value = some r ∨
        nearFractional value = none ∧ nearInteger value ∧ r = ⟨toInt value.round, 1⟩) := by
  unfold parseDecimal at h
  obtain ⟨⟨value, consumed⟩, hstod, h⟩ := Option.bind_eq_some_iff.mp h
  dsimp only at h
  obtain ⟨hall, h'⟩ := Option.ite_none_left_eq_some.mp h
  obtain ⟨hpos, hread⟩ := Option.ite_none_left_eq_some.mp h'
  rw [not_not] at hall
  rw [hall] at hstod
  refine ⟨value, hstod, Bool.eq_false_iff.mpr hpos, ?_⟩
  rw [nearFractional]
  cases hfind : (kApproximate.zip kFractional).find? fun f ↦
      (value.sub f.1).abs.lt (.ofRat false (1 / 100)) with
  | some f =>
    rw [hfind] at hread
    cases hread
    exact .inl rfl
  | none =>
    rw [hfind] at hread
    obtain ⟨hnear, heq⟩ := Option.ite_none_right_eq_some.mp hread
    cases heq
    exact .inr ⟨rfl, hnear, rfl⟩

/-- Only a finite number is near an integer, and a positive one has a nearest integer from
zero on. -/
theorem rounded_of_nearInteger (hpos : value.le (.ofInt 0) = false) (h : nearInteger value) :
    ∃ n, value.rounded = some n ∧ 0 ≤ n := by
  cases value with
  | nan => cases h
  | inf neg =>
    cases neg
    · cases h
    · cases h
  | finite neg size =>
    refine ⟨_, rfl, ?_⟩
    have hzero := Double.toRat_ofInt (n := 0) (by decide)
    rw [Double.ofInt_eq (by decide)] at hpos hzero
    have hlt : 0 < (Double.finite neg size).toRat := by
      simp only [Double.le, Double.lt, hzero, Bool.not_eq_false', decide_eq_true_eq] at hpos
      exact_mod_cast hpos
    obtain ⟨q, hq, hdouble⟩ := size
    have hneg : neg = false := by
      cases neg with
      | false => rfl
      | true =>
        simp only [Double.toRat, if_true] at hlt
        linarith
    rw [hneg]
    exact Int.floor_nonneg.mpr (by positivity)

/-- The listed rates can be played. -/
theorem usable_of_nearFractional (hslash : '/' ∉ text)
    (hstod : stod text = some (value, text.length)) (h : nearFractional value = some r) :
    Usable text r := by
  have hall : ∀ k ∈ kFractional, 0 < k.numerator ∧ 0 < k.denominator ∧ k.denominator < 2 ^ 31 ∧
      k.numerator ≤ FrameClock.kNanosPerSecond * k.denominator := by
    decide
  obtain ⟨f, hf, hr⟩ := Option.map_eq_some_iff.mp h
  have hmem := (List.of_mem_zip (List.mem_of_find?_eq_some hf)).2
  rw [hr] at hmem
  obtain ⟨hnum, hden, hden', hrate⟩ := hall r hmem
  have hcasts : casts text = [] := by
    rw [casts, if_neg hslash, hstod]
    dsimp only
    rw [h, if_neg]
    rintro ⟨-, -, hnone, -⟩
    cases hnone
  refine ⟨hnum, hden, ?_, (period_iff hnum hden hden').mpr hrate⟩
  rw [hcasts]
  exact List.forall_mem_nil _

/-- A rate that is its decimal's nearest integer can be played from 1 to a nanosecond's rate. -/
theorem usable_of_nearInteger_iff (hslash : '/' ∉ text)
    (hstod : stod text = some (value, text.length)) (hpos : value.le (.ofInt 0) = false)
    (hnone : nearFractional value = none) (hnear : nearInteger value) :
    Usable text ⟨toInt value.round, 1⟩ ↔
      ∃ n, value.rounded = some n ∧ 1 ≤ n ∧ n ≤ FrameClock.kNanosPerSecond := by
  obtain ⟨n, hn, hnonneg⟩ := rounded_of_nearInteger hpos hnear
  obtain ⟨hfinite, htrunc⟩ := Double.trunc_round hn
  have hcasts : casts text = [value.round] := by
    rw [casts, if_neg hslash, hstod]
    dsimp only
    rw [if_pos ⟨rfl, hpos, hnone, hnear⟩]
  constructor
  · rintro ⟨hnum, hden, hin, hperiod⟩
    obtain ⟨-, hlo, hhi⟩ := hin value.round (by rw [hcasts]; exact List.mem_singleton_self _)
    have hint : toInt value.round = n := by rw [toInt, if_pos ⟨hlo, hhi⟩, htrunc]
    have hrate := (period_iff hnum hden (show (1 : Int) < 2 ^ 31 by decide)).mp hperiod
    dsimp only at hnum hrate
    rw [hint] at hnum hrate
    exact ⟨n, hn, hnum, by omega⟩
  · rintro ⟨m, hm, hlo, hhi⟩
    rw [hn] at hm
    cases hm
    unfold FrameClock.kNanosPerSecond at hhi
    have hin : -2 ^ 31 ≤ value.round.trunc ∧ value.round.trunc < 2 ^ 31 := by
      rw [htrunc]
      omega
    have hint : toInt value.round = n := by rw [toInt, if_pos hin, htrunc]
    rw [hint]
    have hperiod := period_iff (r := ⟨n, 1⟩) hlo Int.one_pos (show (1 : Int) < 2 ^ 31 by decide)
    refine ⟨hlo, Int.one_pos, ?_, hperiod.mpr ?_⟩
    · rw [hcasts]
      intro x hx
      rw [List.mem_singleton.mp hx]
      exact ⟨hfinite, hin⟩
    · unfold FrameClock.kNanosPerSecond
      dsimp only
      omega

/-- A rate that is read can be played if and only if the text is in range. -/
theorem usable_iff_inRange (h : parse text = some r) : Usable text r ↔ InRange text := by
  obtain ⟨-, h⟩ := Option.ite_none_left_eq_some.mp h
  by_cases hslash : '/' ∈ text
  · rw [if_pos hslash] at h
    simp only [parseFraction, Option.bind_eq_bind, Option.bind_eq_some_iff] at h
    obtain ⟨num, hnum, den, hden, h⟩ := h
    obtain ⟨hpos, h⟩ := Option.ite_none_left_eq_some.mp h
    cases h
    rw [not_or, not_le, not_le] at hpos
    have hperiod := period_iff (r := ⟨num, den⟩) hpos.1 hpos.2 (stoi_range hden).2
    have hcasts : casts text = [] := if_pos hslash
    rw [InRange, if_pos hslash, hnum, hden]
    constructor
    · rintro ⟨-, -, -, hp⟩ a ha b hb
      cases ha
      cases hb
      exact hperiod.mp hp
    · intro hrate
      refine ⟨hpos.1, hpos.2, ?_, hperiod.mpr (hrate num rfl den rfl)⟩
      rw [hcasts]
      exact List.forall_mem_nil _
  · rw [if_neg hslash] at h
    obtain ⟨value, hstod, hpos, hcases⟩ := parseDecimal_cases h
    have hinRange : InRange text ↔ nearFractional value ≠ none ∨
        ∃ n, value.rounded = some n ∧ 1 ≤ n ∧ n ≤ FrameClock.kNanosPerSecond := by
      rw [InRange, if_neg hslash, hstod]
      constructor
      · intro hall
        exact hall value _ rfl
      · rintro hone _ _ heq
        cases heq
        exact hone
    rw [hinRange]
    rcases hcases with hsome | ⟨hnone, hnear, rfl⟩
    · have hnot : nearFractional value ≠ none := by
        rw [hsome]
        exact Option.some_ne_none r
      exact ⟨fun _ ↦ .inl hnot, fun _ ↦ usable_of_nearFractional hslash hstod hsome⟩
    · rw [usable_of_nearInteger_iff hslash hstod hpos hnone hnear]
      constructor
      · exact .inr
      · rintro (hnot | hrange)
        · exact absurd hnone hnot
        · exact hrange

end FrameRate

namespace VideoFormat

/-- For every text that is accepted, the format can be used if and only if the rate in the text
is in range. -/
theorem usable_iff {text : String} {f : VideoFormat} (h : parse text = some f) :
    Usable text f ↔ RateInRange text := by
  simp only [parse, Option.bind_eq_bind, Option.bind_eq_some_iff] at h
  obtain ⟨parts, hsplit, rate, hrate, ⟨width, height⟩, -, h⟩ := h
  obtain ⟨hpos, h⟩ := Option.ite_none_left_eq_some.mp h
  obtain ⟨heven, h⟩ := Option.ite_none_left_eq_some.mp h
  cases h
  rw [not_or, not_le, not_le] at hpos
  rw [not_not] at heven
  have htext : rateText text = some parts.2.2 := by
    rw [rateText, hsplit]
    rfl
  have hcasts : casts text = FrameRate.casts parts.2.2 := by
    rw [casts, htext]
    rfl
  have hrange : RateInRange text ↔ FrameRate.InRange parts.2.2 := by
    rw [RateInRange, htext]
    constructor
    · intro hall
      exact hall _ rfl
    · rintro hone _ heq
      cases heq
      exact hone
  rw [hrange, ← FrameRate.usable_iff_inRange hrate]
  constructor
  · rintro ⟨-, -, hnum, hden, hin, hperiod⟩
    rw [hcasts] at hin
    exact ⟨hnum, hden, hin, hperiod⟩
  · rintro ⟨hnum, hden, hin, hperiod⟩
    rw [← hcasts] at hin
    exact ⟨⟨hpos.1, Int.dvd_of_tmod_eq_zero heven⟩, hpos.2, hnum, hden, hin, hperiod⟩

/-- At 59.94 the period is over sixteen million nanoseconds. -/
theorem usable_1080p5994 :
    Usable "1080p60000/1001" ⟨1920, 1080, ⟨60000, 1001⟩, false⟩ := by
  apply (usable_iff (by decide +kernel)).mpr
  have htext : rateText "1080p60000/1001" = some "60000/1001".toList := by decide +kernel
  intro rate hrate
  rw [htext] at hrate
  cases hrate
  rw [FrameRate.InRange, if_pos (by decide)]
  decide

/-- A rate of nearly zero is accepted as zero. -/
theorem not_usable : ¬ ∀ (text : String) (f : VideoFormat), parse text = some f →
    Usable text f := by
  intro h
  have hparse : parse "1080p0.0000000001" = some ⟨1920, 1080, ⟨0, 1⟩, false⟩ := by
    decide +kernel
  exact absurd (h _ _ hparse).numerator (by decide)

end VideoFormat
end WebLinked.Core
