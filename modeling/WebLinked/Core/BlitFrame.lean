import WebLinked.Base.Buffer
import WebLinked.Core.RotatedBlit

/-!
# The blit on bytes

`src/core/rotated_blit.cpp:59–207`, with its tables and its two ways to copy, in the types of
the code: a geometry is made of `int`, addresses are of type `size_t`, and the two buffers are
blocks of bytes. The 64-bit sums of `configure` cannot overflow, since each factor is an `int`.
-/

namespace WebLinked.Core

open WebLinked.Base WebLinked.Base.Buffer

/-- `static_cast<size_t>`; arithmetic on `size_t` is the same remainder of the exact result. -/
def toSize (x : Int) : Int := x % 18446744073709551616

/-- `RotatedBlit` with its tables; `src/core/rotated_blit.h:91–107`. -/
structure RotatedBlit.Tabled extends RotatedBlit where
  columnOf : List Int := []
  rowOf : List Int := []
  deriving DecidableEq, Repr

namespace RotatedBlit.Tabled

/-- `configure`; `src/core/rotated_blit.cpp:59`. -/
def configure (sourceWidth sourceHeight destWidth destHeight : Int) (rotation : BlitRotation)
    (fit : BlitFit) : Option Tabled :=
  let sourceWidth := max sourceWidth 0
  let sourceHeight := max sourceHeight 0
  let dw := max destWidth 0
  let dh := max destHeight 0
  let transposed := rotation = .k90 || rotation = .k270
  let rw := if transposed then sourceHeight else sourceWidth
  let rh := if transposed then sourceWidth else sourceHeight
  let blank : Tabled := {
    sourceWidth, sourceHeight, destWidth := dw, destHeight := dh
    rotatedWidth := rw, rotatedHeight := rh, rotation
    columnOf := List.replicate dw.toNat 0
    rowOf := List.replicate dh.toNat 0 }
  if rw = 0 || rh = 0 || dw = 0 || dh = 0 then some blank
  else do
    let pictureIsWider := decide (rw * dh > dw * rh)
    let fitWidth := decide (fit = .kFit) = pictureIsWider
    let w := if fit = .kStretch || fitWidth then dw else (rw * dh + rh.tdiv 2).tdiv rh
    let h := if fit = .kStretch || !fitWidth then dh else (rh * dw + rw.tdiv 2).tdiv rw
    let placement : BlitRect :=
      { x := toInt32 ((dw - w).tdiv 2), y := toInt32 ((dh - h).tdiv 2)
        width := toInt32 w, height := toInt32 h }
    let x0 := max placement.x 0
    let x1 := min (← add32 placement.x placement.width) dw
    let y0 := max placement.y 0
    let y1 := min (← add32 placement.y placement.height) dh
    let columnOf ← fill x0 x1 (fun x ↦ do
      let inside ← sub32 x placement.x
      return toInt32 (min (((2 * inside + 1) * rw).tdiv (2 * w)) (rw - 1))) blank.columnOf
    let rowOf ← fill y0 y1 (fun y ↦ do
      let inside ← sub32 y placement.y
      return toInt32 (min (((2 * inside + 1) * rh).tdiv (2 * h)) (rh - 1))) blank.rowOf
    return { blank with
      placement, x0, x1, y0, y1, columnOf, rowOf
      identity := rotation = .k0 && w = rw && h = rh }

/-- `std::memset` to zero. -/
def zero (dest : List UInt8) (start : Int) (bytes : Int) : Option (List UInt8) :=
  poke dest start (List.replicate bytes.toNat 0)

/-- One row of `clearBars`; `src/core/rotated_blit.cpp:122–131`. -/
def clearRow (t : Tabled) (destRowBytes : Int) (y : Int) (dest : List UInt8) :
    Option (List UInt8) := do
  let row := toSize (toSize y * destRowBytes)
  if y < t.y0 || t.y1 ≤ y then zero dest row (toSize (t.destWidth * 4))
  else
    let dest ← zero dest row (toSize (t.x0 * 4))
    zero dest (row + toSize (t.x1 * 4)) (toSize ((t.destWidth - t.x1) * 4))

/-- `clearBars`; `src/core/rotated_blit.cpp:121`. -/
def clearBars (t : Tabled) (dest : List UInt8) (destRowBytes : Int) : Option (List UInt8) :=
  forUp 1 t.destHeight (t.clearRow destRowBytes) 0 dest

/-- One row of the straight copy; `src/core/rotated_blit.cpp:142–147`. -/
def copyRow (t : Tabled) (source : List UInt8) (sourceRowBytes destRowBytes : Int) (y : Int)
    (dest : List UInt8) : Option (List UInt8) := do
  let row := toSize (toSize (← load t.rowOf y) * sourceRowBytes)
  let column := toSize (toSize (← load t.columnOf t.x0) * 4)
  let bytes ← peek source (row + column) (toSize ((t.x1 - t.x0) * 4)).toNat
  poke dest (toSize (y * destRowBytes) + toSize (t.x0 * 4)) bytes

/-- A column's part of the source address; `src/core/rotated_blit.cpp:170–176`. -/
def xOffset (t : Tabled) (stride : Int) (x : Int) : Option Int := do
  let c := toSize (← load t.columnOf x)
  return match t.rotation with
    | .k0 => toSize (c * 4)
    | .k90 => toSize ((t.sourceHeight - 1 - c) * stride)
    | .k180 => toSize ((t.sourceWidth - 1 - c) * 4)
    | .k270 => toSize (c * stride)

/-- A row's part of the source address; `src/core/rotated_blit.cpp:179–185`. -/
def yOffset (t : Tabled) (stride : Int) (y : Int) : Option Int := do
  let r := toSize (← load t.rowOf y)
  return match t.rotation with
    | .k0 => toSize (r * stride)
    | .k90 => toSize (r * 4)
    | .k180 => toSize ((t.sourceHeight - 1 - r) * stride)
    | .k270 => toSize ((t.sourceWidth - 1 - r) * 4)

/-- One pixel of the tiled copy, whose row is an array of `uint32_t`;
`src/core/rotated_blit.cpp:198–203`. -/
def copyPixel (xOffset yOffset : List Int) (source : List UInt8) (destRowBytes : Int) (y x : Int)
    (dest : List UInt8) : Option (List UInt8) := do
  let pixel ← peek source ((← load yOffset y) + (← load xOffset x)) 4
  let out := toSize (y * destRowBytes)
  if out % 4 = 0 then poke dest (out + 4 * x) pixel else none

/-- `kTile`; `src/core/rotated_blit.cpp:191`. -/
def kTile : Int := 32

/-- One tile; `src/core/rotated_blit.cpp:196–204`. -/
def copyTile (xOffset yOffset : List Int) (source : List UInt8) (destRowBytes : Int)
    (ty tyEnd tx txEnd : Int) : List UInt8 → Option (List UInt8) :=
  forUp 1 tyEnd (fun y ↦ forUp 1 txEnd (copyPixel xOffset yOffset source destRowBytes y) tx) ty

/-- The copy through the offset tables, which keep what an earlier blit left in them;
`src/core/rotated_blit.cpp:161–206`. -/
def copyTiles (t : Tabled) (scratch : List Int × List Int) (source : List UInt8)
    (sourceRowBytes : Int) (dest : List UInt8) (destRowBytes : Int) : Option (List UInt8) := do
  let stride := toSize sourceRowBytes
  let xOffset ← fill t.x0 t.x1 (t.xOffset stride) (resize scratch.1 t.destWidth.toNat 0)
  let yOffset ← fill t.y0 t.y1 (t.yOffset stride) (resize scratch.2 t.destHeight.toNat 0)
  forUp kTile t.y1 (fun ty dest ↦ do
    let tyEnd := min (← add32 ty kTile) t.y1
    forUp kTile t.x1 (fun tx dest ↦ do
      let txEnd := min (← add32 tx kTile) t.x1
      copyTile xOffset yOffset source destRowBytes ty tyEnd tx txEnd dest) t.x0 dest) t.y0 dest

/-- `blit`; `src/core/rotated_blit.cpp:134`. -/
def blit (t : Tabled) (scratch : List Int × List Int) (source : List UInt8)
    (sourceRowBytes : Int) (dest : List UInt8) (destRowBytes : Int) : Option (List UInt8) :=
  if t.x1 ≤ t.x0 || t.y1 ≤ t.y0 then some dest
  else if t.identity then
    forUp 1 t.y1 (t.copyRow source sourceRowBytes destRowBytes) t.y0 dest
  else t.copyTiles scratch source sourceRowBytes dest destRowBytes

end RotatedBlit.Tabled
end WebLinked.Core
