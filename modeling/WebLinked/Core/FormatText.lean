import WebLinked.Base.NumberText
import WebLinked.Core.VideoFormat

/-!
# Formats as text

`src/core/video_format.cpp:46–230`. What the API and the settings files call a format.
-/

namespace WebLinked.Core

open WebLinked.Base NumberText

/-- The decimals `FrameRate::parse` gives the rates in `kFractional`;
`src/core/video_format.cpp:86–89`. -/
def kApproximate : List Double :=
  [.ofRat false (23976 / 1000), .ofRat false (2398 / 100), .ofRat false (2997 / 100),
    .ofRat false (47952 / 1000), .ofRat false (5994 / 100), .ofRat false (11988 / 100)]

/-- `static_cast<int>`. Where no `int` holds the value C++ leaves the result undefined; this is
the one x86-64 gives. -/
def toInt (x : Double) : Int :=
  if -2 ^ 31 ≤ x.trunc ∧ x.trunc < 2 ^ 31 then x.trunc else -2 ^ 31

namespace FrameRate

/-- `FrameRate::toDouble`; `src/core/video_format.cpp:21`. -/
def toDouble (r : FrameRate) : Double :=
  if r.denominator = 0 then .ofInt 0 else (Double.ofInt r.numerator).div (.ofInt r.denominator)

/-- `FrameRate::parse` of a text with a slash; `src/core/video_format.cpp:51–63`. -/
def parseFraction (numerator denominator : List Char) : Option FrameRate := do
  let num ← stoi numerator
  let den ← stoi denominator
  if num ≤ 0 ∨ den ≤ 0 then none else some ⟨num, den⟩

/-- `FrameRate::parse` of a text without one; `src/core/video_format.cpp:65–101`. -/
def parseDecimal (text : List Char) : Option FrameRate := do
  let (value, consumed) ← stod text
  if consumed ≠ text.length then none
  else if value.le (.ofInt 0) then none
  else
    match (kApproximate.zip kFractional).find? fun f ↦
        (value.sub f.1).abs.lt (.ofRat false (1 / 100)) with
    | some f => some f.2
    | none =>
      if (value.sub value.round).abs.lt (.ofRat false (1 / 10 ^ 9)) then
        some ⟨toInt value.round, 1⟩
      else none

/-- `FrameRate::parse`; `src/core/video_format.cpp:46`. -/
def parse (text : List Char) : Option FrameRate :=
  if text = [] then none
  else if '/' ∈ text then
    parseFraction (text.takeWhile (· ≠ '/')) ((text.dropWhile (· ≠ '/')).drop 1)
  else parseDecimal text

/-- `FrameRate::toString`; `src/core/video_format.cpp:103`. -/
def toString (r : FrameRate) : List Char :=
  if r.denominator = 1 then NumberText.toString r.numerator
  else
    let text := (fixed 2 r.toDouble).reverse.dropWhile (· = '0')
    (match text with
      | '.' :: text => text
      | text => text).reverse

end FrameRate

/-- `standardRasters`; `src/core/video_format.cpp:149`. -/
def standardRasters : List (String × Int × Int) :=
  [("480", 720, 486), ("576", 720, 576), ("720", 1280, 720), ("1080", 1920, 1080),
    ("1440", 2560, 1440), ("2160", 3840, 2160), ("4320", 7680, 4320), ("2160dci", 4096, 2160),
    ("1080dci", 2048, 1080)]

namespace VideoFormat

/-- `VideoFormat::toString`; `src/core/video_format.cpp:143`. -/
def toString (f : VideoFormat) : String :=
  String.ofList (NumberText.toString f.width ++ 'x' :: (NumberText.toString f.height ++
    (if f.interlaced then 'i' else 'p') :: f.rate.toString))

/-- What stands before and after the last `p` or `i` with a digit after it, and whether it is
an `i`; `src/core/video_format.cpp:172–184`. -/
def split : List Char → Option (List Char × Bool × List Char)
  | [] => none
  | c :: rest =>
    match split rest with
    | some (raster, interlaced, rate) => some (c :: raster, interlaced, rate)
    | none =>
      if (c = 'p' ∨ c = 'i') ∧ rest.head?.any Char.isDigit then some ([], c = 'i', rest) else none

/-- A width and a height, or a listed raster; `src/core/video_format.cpp:201–222`. -/
def parseRaster (raster : List Char) : Option (Int × Int) :=
  if 'x' ∈ raster then do
    let width ← stoi (raster.takeWhile (· ≠ 'x'))
    let height ← stoi ((raster.dropWhile (· ≠ 'x')).drop 1)
    some (width, height)
  else (standardRasters.find? fun r ↦ r.1.toList = raster).map Prod.snd

/-- `VideoFormat::parse`; `src/core/video_format.cpp:162`. -/
def parse (text : String) : Option VideoFormat := do
  let (raster, interlaced, ratePart) ← split (text.toList.map Char.toLower)
  let rate ← FrameRate.parse ratePart
  let (width, height) ← parseRaster raster
  if width ≤ 0 ∨ height ≤ 0 then none
  else if width.tmod 2 ≠ 0 then none
  else some { width, height, rate, interlaced }

end VideoFormat
end WebLinked.Core
