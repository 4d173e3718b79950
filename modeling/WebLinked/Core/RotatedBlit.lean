import WebLinked.Core.PixelConvert

/-!
# Turning and fitting a picture onto a display

`src/core/rotated_blit.cpp`. The tables of columns and rows are functions here, and a source
address is the column and row it points at.
-/

namespace WebLinked.Core

/-- `BlitRotation`; `src/core/rotated_blit.h:15`. -/
inductive BlitRotation where
  | k0 | k90 | k180 | k270
  deriving DecidableEq, Repr

/-- `BlitFit`; `src/core/rotated_blit.h:19`. -/
inductive BlitFit where
  | kFit | kFill | kStretch
  deriving DecidableEq, Repr

/-- `BlitRect`; `src/core/rotated_blit.h:32`. -/
structure BlitRect where
  x : Int := 0
  y : Int := 0
  width : Int := 0
  height : Int := 0
  deriving DecidableEq, Repr

/-- `RotatedBlit`; `src/core/rotated_blit.h:61`. -/
structure RotatedBlit where
  sourceWidth : Int := 0
  sourceHeight : Int := 0
  destWidth : Int := 0
  destHeight : Int := 0
  rotatedWidth : Int := 0
  rotatedHeight : Int := 0
  rotation : BlitRotation := .k0
  placement : BlitRect := {}
  x0 : Int := 0
  x1 : Int := 0
  y0 : Int := 0
  y1 : Int := 0
  identity : Bool := false
  deriving DecidableEq, Repr

namespace RotatedBlit

/-- `configure` down to its tables; `src/core/rotated_blit.cpp:59`. -/
def configure (sourceWidth sourceHeight destWidth destHeight : Int) (rotation : BlitRotation)
    (fit : BlitFit) : RotatedBlit :=
  let sourceWidth := max sourceWidth 0
  let sourceHeight := max sourceHeight 0
  let dw := max destWidth 0
  let dh := max destHeight 0
  let transposed := rotation = .k90 || rotation = .k270
  let rw := if transposed then sourceHeight else sourceWidth
  let rh := if transposed then sourceWidth else sourceHeight
  let blank : RotatedBlit := {
    sourceWidth, sourceHeight, destWidth := dw, destHeight := dh
    rotatedWidth := rw, rotatedHeight := rh, rotation }
  if rw = 0 || rh = 0 || dw = 0 || dh = 0 then blank
  else
    let pictureIsWider := decide (rw * dh > dw * rh)
    let fitWidth := decide (fit = .kFit) = pictureIsWider
    let w := if fit = .kStretch || fitWidth then dw else (rw * dh + rh.tdiv 2).tdiv rh
    let h := if fit = .kStretch || !fitWidth then dh else (rh * dw + rw.tdiv 2).tdiv rw
    let placement : BlitRect :=
      { x := (dw - w).tdiv 2, y := (dh - h).tdiv 2, width := w, height := h }
    { blank with
      placement
      x0 := max placement.x 0
      x1 := min (placement.x + placement.width) dw
      y0 := max placement.y 0
      y1 := min (placement.y + placement.height) dh
      identity := rotation = .k0 && w = rw && h = rh }

/-- `columnOf_`; `src/core/rotated_blit.cpp:112`. -/
def columnOf (r : RotatedBlit) (x : Int) : Int :=
  min (((2 * (x - r.placement.x) + 1) * r.rotatedWidth).tdiv (2 * r.placement.width))
    (r.rotatedWidth - 1)

/-- `rowOf_`; `src/core/rotated_blit.cpp:116`. -/
def rowOf (r : RotatedBlit) (y : Int) : Int :=
  min (((2 * (y - r.placement.y) + 1) * r.rotatedHeight).tdiv (2 * r.placement.height))
    (r.rotatedHeight - 1)

/-- The display pixel lies in the clipped placement. -/
def covers (r : RotatedBlit) (x y : Int) : Bool :=
  r.x0 ≤ x && x < r.x1 && r.y0 ≤ y && y < r.y1

/-- The source pixel that a covered display pixel shows;
`src/core/rotated_blit.cpp:140–149,170–189`. -/
def sample (r : RotatedBlit) (source : Picture) (x y : Int) : Pixel :=
  if r.identity then source (r.columnOf r.x0 + (x - r.x0)) (r.rowOf y)
  else
    let column := r.columnOf x
    let row := r.rowOf y
    match r.rotation with
    | .k0 => source column row
    | .k90 => source row (r.sourceHeight - 1 - column)
    | .k180 => source (r.sourceWidth - 1 - column) (r.sourceHeight - 1 - row)
    | .k270 => source (r.sourceWidth - 1 - row) column

/-- `blit`; `src/core/rotated_blit.cpp:134`. -/
def blit (r : RotatedBlit) (source dest : Picture) : Picture := fun x y ↦
  if r.covers x y then r.sample source x y else dest x y

/-- A blit does not read what it draws over. -/
theorem blit_blit (r : RotatedBlit) (source earlier dest : Picture) :
    r.blit source (r.blit earlier dest) = r.blit source dest := by
  funext x y
  simp only [blit]
  split <;> rfl

end RotatedBlit
end WebLinked.Core
