/-!
# Rasters and rates

`src/core/video_format.h`. A rate is an exact rational; a format is a raster, a rate and
a scan type, the contract between the browser source and every output.
-/

namespace WebLinked.Core

/-- `FrameRate`; `src/core/video_format.h:29`. -/
structure FrameRate where
  numerator : Int := 25
  denominator : Int := 1
  deriving DecidableEq, Repr

/-- The rates `FrameRate::parse` gives the decimals near 23.976, 23.98, 29.97, 47.952, 59.94
and 119.88; `src/core/video_format.cpp:87–90`. -/
def kFractional : List FrameRate :=
  [⟨24000, 1001⟩, ⟨24000, 1001⟩, ⟨30000, 1001⟩, ⟨48000, 1001⟩, ⟨60000, 1001⟩, ⟨120000, 1001⟩]

/-- `VideoFormat`; `src/core/video_format.h:49`. -/
structure VideoFormat where
  width : Int := 1920
  height : Int := 1080
  rate : FrameRate := {}
  interlaced : Bool := false
  deriving DecidableEq, Repr

/-- `FrameRate::operator==`, which compares reduced fractions;
`src/core/video_format.cpp:35`. -/
def FrameRate.equal (r other : FrameRate) : Bool :=
  let a := r.numerator.gcd r.denominator
  let b := other.numerator.gcd other.denominator
  if a = 0 || b = 0 then
    r.numerator = other.numerator && r.denominator = other.denominator
  else
    r.numerator.tdiv a = other.numerator.tdiv b && r.denominator.tdiv a = other.denominator.tdiv b

/-- `VideoFormat::operator==`; `src/core/video_format.cpp:138`. -/
def VideoFormat.equal (f other : VideoFormat) : Bool :=
  f.width = other.width && f.height = other.height && f.rate.equal other.rate &&
    f.interlaced = other.interlaced

/-- A rate equals itself. -/
@[simp] theorem FrameRate.equal_refl (r : FrameRate) : r.equal r := by
  simp [equal]

/-- A format equals itself. -/
@[simp] theorem VideoFormat.equal_refl (f : VideoFormat) : f.equal f := by
  simp [equal]

/-- Two rates are equal or not, whichever is first. -/
theorem FrameRate.equal_comm (r other : FrameRate) : r.equal other = other.equal r := by
  unfold FrameRate.equal
  dsimp only
  rw [Bool.or_comm]
  split <;> simp [eq_comm]

/-- Two formats are equal or not, whichever is first. -/
theorem VideoFormat.equal_comm (f other : VideoFormat) : f.equal other = other.equal f := by
  unfold VideoFormat.equal
  rw [FrameRate.equal_comm]
  simp [eq_comm]

end WebLinked.Core
