import Mathlib
import WebLinked.Base.Int64
import WebLinked.Engine.OutputList

/-!
# The preview

`src/outputs/preview_output.cpp`. The preview is the picture reduced by a factor, which is lowered
until at least 16 by 16 pixels are left. It is the configured factor that is lowered, and nothing
raises it again.
-/

namespace WebLinked.Outputs

open WebLinked.Base WebLinked.Core WebLinked.Core.Json WebLinked.Engine.OutputList

/-- `optionInt`; `src/outputs/output.cpp:12`. -/
def optionInt (spec : OutputSpec) (key : String) (fallback : Int) : Int :=
  match spec.options.get key with
  | .number x => (Value.number x).asInt fallback
  | _ => fallback

/-- `PreviewOutput`; `src/outputs/preview_output.h:62–69`. Of its buffer only the size is kept, and
the level of its sound is left out. -/
structure PreviewOutput where
  name : String
  sourceFormat : VideoFormat := {}
  factor : ℕ
  width : Int := 0
  height : Int := 0
  frames : Int := 0
  sequence : Int := 0
  bufferSize : ℕ := 0
  running : Bool := false
  deriving DecidableEq

namespace PreviewOutput

/-- The factor a spec asks for. -/
def configured (spec : OutputSpec) : ℕ := (min (max (optionInt spec "factor" 4) 1) 16).toNat

/-- The constructor; `src/outputs/preview_output.cpp:9`. -/
def new (spec : OutputSpec) : PreviewOutput where
  name := if spec.name = "" then "preview" else spec.name
  factor := configured spec

/-- The loop of `start`; `src/outputs/preview_output.cpp:21–25`. -/
def lowered (format : VideoFormat) : ℕ → ℕ
  | 0 => 0
  | 1 => 1
  | n + 2 =>
    if format.width.tdiv (n + 2) < 16 ∨ format.height.tdiv (n + 2) < 16 then lowered format (n + 1)
    else n + 2

/-- `start`; `src/outputs/preview_output.cpp:13`. -/
def start (o : PreviewOutput) (format : VideoFormat) : PreviewOutput :=
  let factor := lowered format o.factor
  let width := format.width.tdiv factor
  let height := format.height.tdiv factor
  { o with
    sourceFormat := format, factor, width, height
    bufferSize := (width * height * 4).toNat, frames := 0, running := true }

/-- `stop`; `src/outputs/preview_output.cpp:33`. -/
def stop (o : PreviewOutput) : PreviewOutput := { o with running := false }

/-- `submit`, of a frame of this format and number; `src/outputs/preview_output.cpp:38`. -/
def submit (o : PreviewOutput) (format : VideoFormat) (sequence : Int) : PreviewOutput :=
  if !o.running || o.bufferSize = 0 then o
  else if format.width ≠ o.sourceFormat.width || format.height ≠ o.sourceFormat.height then o
  else { o with frames := o.frames + 1, sequence }

/-- What is called on an output. -/
inductive Call where
  | start (format : VideoFormat)
  | stop
  | submit (format : VideoFormat) (sequence : Int)

/-- One call. -/
def apply (o : PreviewOutput) : Call → PreviewOutput
  | .start format => o.start format
  | .stop => o.stop
  | .submit format sequence => o.submit format sequence

/-- Calls in order. -/
def run (o : PreviewOutput) (calls : List Call) : PreviewOutput := calls.foldl apply o

/-- The dimensions of the preview. -/
def dimensions (o : PreviewOutput) : Int × Int := (o.width, o.height)

/-- At least 16 by 16 pixels are left of a format reduced by a factor. -/
def Leaves (format : VideoFormat) (n : ℕ) : Prop :=
  16 * (n : Int) ≤ format.width ∧ 16 * (n : Int) ≤ format.height

/-! ### The factor -/

variable {format : VideoFormat} {k n : ℕ}

/-- What `start` makes of a factor. -/
theorem dimensions_start (o : PreviewOutput) (format : VideoFormat) : (o.start format).dimensions =
    (format.width.tdiv (lowered format o.factor), format.height.tdiv (lowered format o.factor)) :=
  rfl

/-- What the loop looks at. -/
theorem leaves_iff (format : VideoFormat) (hn : 0 < n) :
    Leaves format n ↔ ¬ (format.width.tdiv n < 16 ∨ format.height.tdiv n < 16) := by
  have hside (x : Int) : 16 * (n : Int) ≤ x ↔ 16 ≤ x.tdiv n := by
    by_cases hx : 0 ≤ x
    · rw [Int.tdiv_eq_ediv_of_nonneg hx, Int.le_ediv_iff_mul_le (by omega)]
    · have hneg : x.tdiv n ≤ 0 := tdiv_nonpos_of_nonpos_of_nonneg (by omega) (by omega)
      constructor <;> intro h <;> omega
  rw [Leaves, hside, hside, not_or, not_lt, not_lt]

/-- A smaller factor leaves more. -/
theorem Leaves.mono (h : Leaves format n) (hk : k ≤ n) : Leaves format k := by
  unfold Leaves at h ⊢
  omega

/-- What the loop leaves of a factor: no more than it was, and no more than the format bears. -/
theorem le_lowered_iff (format : VideoFormat) (hk : 0 < k) (hn : 1 < n) :
    n ≤ lowered format k ↔ n ≤ k ∧ Leaves format n := by
  induction k with
  | zero => exact absurd hk (by omega)
  | succ k ih =>
    cases k with
    | zero =>
      rw [lowered]
      constructor <;> intro h <;> omega
    | succ k =>
      have hstop := leaves_iff format (show 0 < k + 2 by omega)
      rw [lowered]
      push_cast at hstop
      split
      · next hsmall =>
        have hnot : ¬ Leaves format (k + 2) := fun h ↦ hstop.mp h hsmall
        rw [ih (by omega)]
        constructor
        · exact fun h ↦ ⟨by omega, h.2⟩
        · intro h
          refine ⟨?_, h.2⟩
          by_contra hgt
          have heq : n = k + 2 := by omega
          exact hnot (heq ▸ h.2)
      · next hlarge =>
        constructor
        · exact fun h ↦ ⟨h, (hstop.mpr hlarge).mono h⟩
        · exact fun h ↦ h.1

/-- There is always a factor left. -/
theorem lowered_pos (format : VideoFormat) (hk : 0 < k) : 0 < lowered format k := by
  induction k with
  | zero => exact absurd hk (by omega)
  | succ k ih =>
    cases k with
    | zero => exact Nat.one_pos
    | succ k =>
      rw [lowered]
      split
      · exact ih (by omega)
      · omega

/-- A configured factor is one. -/
theorem configured_bounds (spec : OutputSpec) : 0 < configured spec ∧ configured spec ≤ 16 := by
  rw [configured]
  omega

/-! ### Histories -/

/-- No call but `start` touches the factor. -/
theorem factor_apply (o : PreviewOutput) (call : Call) (hk : 0 < o.factor) :
    0 < (o.apply call).factor ∧ ∀ n, 1 < n →
      (n ≤ (o.apply call).factor ↔
        n ≤ o.factor ∧ ∀ format, call = .start format → Leaves format n) := by
  cases call with
  | start format =>
    refine ⟨lowered_pos format hk, fun n hn ↦ ?_⟩
    rw [show (o.apply (.start format)).factor = lowered format o.factor from rfl,
      le_lowered_iff format hk hn]
    constructor
    · intro h
      refine ⟨h.1, fun other hother ↦ ?_⟩
      cases hother
      exact h.2
    · exact fun h ↦ ⟨h.1, h.2 format rfl⟩
  | stop =>
    refine ⟨hk, fun n hn ↦ ⟨fun h ↦ ⟨h, fun format hformat ↦ ?_⟩, fun h ↦ h.1⟩⟩
    cases hformat
  | submit format sequence =>
    have hsame : (o.apply (.submit format sequence)).factor = o.factor := by
      show (o.submit format sequence).factor = o.factor
      unfold submit
      split
      · rfl
      · split <;> rfl
    rw [hsame]
    refine ⟨hk, fun n hn ↦ ⟨fun h ↦ ⟨h, fun format hformat ↦ ?_⟩, fun h ↦ h.1⟩⟩
    cases hformat

/-- What a history leaves of the factor: no more than it was, and no more than any format started
bears. -/
theorem factor_run (o : PreviewOutput) (calls : List Call) (hk : 0 < o.factor) :
    0 < (o.run calls).factor ∧ ∀ n, 1 < n →
      (n ≤ (o.run calls).factor ↔
        n ≤ o.factor ∧ ∀ format, .start format ∈ calls → Leaves format n) := by
  induction calls generalizing o with
  | nil =>
    refine ⟨hk, fun n hn ↦ ⟨fun h ↦ ⟨h, fun format hformat ↦ ?_⟩, fun h ↦ h.1⟩⟩
    cases hformat
  | cons call calls ih =>
    obtain ⟨hpos, hone⟩ := factor_apply o call hk
    obtain ⟨hrunpos, hrun⟩ := ih (o.apply call) hpos
    refine ⟨hrunpos, fun n hn ↦ ?_⟩
    rw [show o.run (call :: calls) = (o.apply call).run calls from rfl, hrun n hn, hone n hn]
    constructor
    · intro h
      refine ⟨h.1.1, fun format hformat ↦ ?_⟩
      cases List.mem_cons.mp hformat with
      | inl heq => exact h.1.2 format heq.symm
      | inr hrest => exact h.2 format hrest
    · intro h
      refine ⟨⟨h.1, fun format heq ↦ ?_⟩, fun format hformat ↦ ?_⟩
      · exact h.2 format (heq ▸ List.mem_cons_self)
      · exact h.2 format (List.mem_cons_of_mem _ hformat)

/-- Where at least 16 pixels are left of a side by a factor of at most 16, a smaller factor leaves
more. -/
theorem tdiv_lt_tdiv {x : Int} (hk : 0 < k) (hlt : k < n) (hn : n ≤ 16) (hx : 16 * (n : Int) ≤ x) :
    x.tdiv n < x.tdiv k := by
  have hx0 : 0 ≤ x := by omega
  rw [Int.tdiv_eq_ediv_of_nonneg hx0, Int.tdiv_eq_ediv_of_nonneg hx0]
  have hq : 16 ≤ x / n := by
    rw [Int.le_ediv_iff_mul_le (by omega)]
    exact hx
  have hmod := Int.emod_nonneg x (show (n : Int) ≠ 0 by omega)
  have hdiv := Int.mul_ediv_add_emod x n
  -- one more than the quotient still fits, since what is saved exceeds the factor
  have hfits : (x / n + 1) * k ≤ x := by
    have hle : (x / n + 1) * k ≤ (x / n + 1) * (n - 1) :=
      mul_le_mul_of_nonneg_left (by omega) (by omega)
    have hexpand : (x / n + 1) * ((n : Int) - 1) = n * (x / n) + n - x / n - 1 := by ring
    omega
  have hle : x / n + 1 ≤ x / k := by
    rw [Int.le_ediv_iff_mul_le (by omega)]
    exact hfits
  omega

/-- Two factors that leave a format the same preview, neither of which it does not bear, are the
same. -/
theorem factor_eq_of_dimensions (hk : 0 < k) (hle : k ≤ n) (hn : n ≤ 16)
    (hleaves : 1 < n → Leaves format n) (hwidth : format.width.tdiv k = format.width.tdiv n) :
    k = n := by
  by_contra hne
  have hlt : k < n := by omega
  have hsmaller := tdiv_lt_tdiv hk hlt hn (hleaves (by omega)).1
  omega

/-- After any history the preview of a format is that of a fresh output if and only if every
format started before bears each factor, up to the configured one, that this format bears. -/
theorem dimensions_start_iff (spec : OutputSpec) (calls : List Call) (format : VideoFormat) :
    (((new spec).run calls).start format).dimensions = ((new spec).start format).dimensions ↔
      ∀ earlier, .start earlier ∈ calls → ∀ n, 1 < n → n ≤ configured spec →
        Leaves format n → Leaves earlier n := by
  obtain ⟨hpos, hmost⟩ := configured_bounds spec
  obtain ⟨hrunpos, hrun⟩ := factor_run (new spec) calls hpos
  have hused := lowered_pos format hrunpos
  have hfresh := lowered_pos format hpos
  have hbears (n : ℕ) (hn : 1 < n) := le_lowered_iff format hrunpos hn
  have hbearsfresh (n : ℕ) (hn : 1 < n) := le_lowered_iff format hpos hn
  -- the history can only have lowered the factor
  have hle : lowered format ((new spec).run calls).factor ≤ lowered format (configured spec) := by
    by_cases hone : 1 < lowered format ((new spec).run calls).factor
    · have h := (hbears _ hone).mp le_rfl
      exact (hbearsfresh _ hone).mpr ⟨((hrun _ hone).mp h.1).1, h.2⟩
    · omega
  constructor
  · intro hdim earlier hearlier n hn hconfigured hleaves
    have hsame : lowered format ((new spec).run calls).factor =
        lowered format (configured spec) := by
      apply factor_eq_of_dimensions hused hle
      · have h := (hbearsfresh (lowered format (configured spec)))
        by_cases hone : 1 < lowered format (configured spec)
        · exact ((h hone).mp le_rfl).1.trans hmost
        · omega
      · exact fun hone ↦ ((hbearsfresh _ hone).mp le_rfl).2
      · exact (Prod.mk.inj hdim).1
    have hn' := (hbearsfresh n hn).mpr ⟨hconfigured, hleaves⟩
    rw [← hsame] at hn'
    exact ((hrun n hn).mp ((hbears n hn).mp hn').1).2 earlier hearlier
  · intro hall
    have hsame : lowered format ((new spec).run calls).factor =
        lowered format (configured spec) := by
      apply le_antisymm hle
      by_cases hone : 1 < lowered format (configured spec)
      · have h := (hbearsfresh _ hone).mp le_rfl
        apply (hbears _ hone).mpr
        refine ⟨(hrun _ hone).mpr ⟨h.1, fun earlier hearlier ↦ ?_⟩, h.2⟩
        exact hall earlier hearlier _ hone h.1 h.2
      · omega
    rw [dimensions_start, dimensions_start, hsame]
    rfl

/-- A preview that asks for no factor. -/
def plainSpec : OutputSpec where
  kind := "preview"
  name := "preview"

/-- A raster for a strip of lights, between two starts at 1920 by 1080. -/
def awayAndBack : List Call :=
  [.start {}, .start { width := 3840, height := 48 }]

/-- The preview of 1920 by 1080 is 480 by 270, and 640 by 360 after the strip. -/
theorem not_dimensions_start :
    ¬ ∀ (spec : OutputSpec) (calls : List Call) (format : VideoFormat),
      (((new spec).run calls).start format).dimensions = ((new spec).start format).dimensions := by
  intro hall
  have hback : (((new plainSpec).run awayAndBack).start {}).dimensions = (640, 360) := by decide
  have hfresh : ((new plainSpec).start {}).dimensions = (480, 270) := by decide
  have hsame := hall plainSpec awayAndBack {}
  rw [hback, hfresh] at hsame
  cases hsame

end PreviewOutput
end WebLinked.Outputs
