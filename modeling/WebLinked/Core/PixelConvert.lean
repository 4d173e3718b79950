/-!
# Pictures and their conversions

`src/core/pixel_convert.cpp`. A picture is its pixels by column and row; strides only say where
a pixel's bytes are.
-/

namespace WebLinked.Core

/-- `ColourMatrix`; `src/core/pixel_convert.h:12`. -/
inductive ColourMatrix where
  | kBt601
  | kBt709
  | kAuto
  deriving DecidableEq, Repr

/-- The four bytes of a BGRA pixel. -/
structure Pixel where
  blue : UInt8 := 0
  green : UInt8 := 0
  red : UInt8 := 0
  alpha : UInt8 := 0
  deriving DecidableEq, Repr

/-- Pixels by column and row. -/
abbrev Picture := Int → Int → Pixel

/-- One channel of `compositeOverBgra`; `src/core/pixel_convert.cpp:169–190`. -/
def compositeChannel (alpha source background : UInt8) : UInt8 :=
  if alpha = 255 then source
  else if alpha = 0 then background
  else
    let inverse := 255 - alpha.toUInt32
    let value := source.toUInt32 + (background.toUInt32 * inverse + 127) / 255
    (min value 255).toUInt8

/-- `compositeOverBgra`; `src/core/pixel_convert.cpp:160`. -/
def compositeOverBgra (source : Picture) (blue green red : UInt8) : Picture := fun x y ↦
  let p := source x y
  { blue := compositeChannel p.alpha p.blue blue
    green := compositeChannel p.alpha p.green green
    red := compositeChannel p.alpha p.red red
    alpha := 255 }

/-- The multiplier that divides by an alpha; `src/core/pixel_convert.cpp:122–130`. -/
def kReciprocal (alpha : UInt8) : UInt32 :=
  if alpha = 0 then 0 else (255 * 65536 + alpha.toUInt32 / 2) / alpha.toUInt32

/-- One channel of `unpremultiplyBgra`; `src/core/pixel_convert.cpp:136–151`. -/
def unpremultiplyChannel (alpha source : UInt8) : UInt8 :=
  if alpha = 255 then source
  else if alpha = 0 then 0
  else
    let value := (source.toUInt32 * kReciprocal alpha + 32768) >>> 16
    (min value 255).toUInt8

/-- `unpremultiplyBgra`; `src/core/pixel_convert.cpp:116`. -/
def unpremultiplyBgra (source : Picture) : Picture := fun x y ↦
  let p := source x y
  { blue := unpremultiplyChannel p.alpha p.blue
    green := unpremultiplyChannel p.alpha p.green
    red := unpremultiplyChannel p.alpha p.red
    alpha := p.alpha }

/-- `Coefficients`, of a conversion in 16.16 fixed point; `src/core/pixel_convert.cpp:19`. -/
structure Coefficients where
  yr : Int
  yg : Int
  yb : Int
  yOffset : Int
  ur : Int
  ug : Int
  ub : Int
  vr : Int
  vg : Int
  vb : Int

/-- `kBt601`; `src/core/pixel_convert.cpp:33`. -/
def kBt601 : Coefficients where
  yr := 16829
  yg := 33039
  yb := 6416
  yOffset := 16 * 65536
  ur := -9714
  ug := -19070
  ub := 28784
  vr := 28784
  vg := -24103
  vb := -4681

/-- `kBt709`; `src/core/pixel_convert.cpp:39`. -/
def kBt709 : Coefficients where
  yr := 11966
  yg := 40254
  yb := 4064
  yOffset := 16 * 65536
  ur := -6596
  ug := -22188
  ub := 28784
  vr := 28784
  vg := -26145
  vb := -2639

/-- `resolveMatrix`; `src/core/pixel_convert.cpp:56`. -/
def resolveMatrix (matrix : ColourMatrix) (height : Int) : ColourMatrix :=
  if matrix ≠ .kAuto then matrix else if 720 ≤ height then .kBt709 else .kBt601

/-- The four bytes of two UYVY pixels. -/
structure PixelPair where
  cb : UInt8 := 128
  y0 : UInt8 := 16
  cr : UInt8 := 128
  y1 : UInt8 := 16
  deriving DecidableEq, Repr

/-- Pairs of pixels by their number in the row, and row. -/
abbrev PairPicture := Int → Int → PixelPair

/-- `clampByte`; `src/core/pixel_convert.cpp:45`. -/
def clampByte (value : Int) : UInt8 := UInt8.ofNat (min (max value 0) 255).toNat

/-- `round16`; `src/core/pixel_convert.cpp:50`. -/
def round16 (fixed : Int) : Int := (fixed + 32768) / 65536

/-- `bgraToUyvy`; `src/core/pixel_convert.cpp:63`. -/
def bgraToUyvy (source : Picture) (height : Int) (matrix : ColourMatrix) : PairPicture := fun p y ↦
  let c := if resolveMatrix matrix height = .kBt709 then kBt709 else kBt601
  let b0 : Int := (source (2 * p) y).blue.toNat
  let g0 : Int := (source (2 * p) y).green.toNat
  let r0 : Int := (source (2 * p) y).red.toNat
  let b1 : Int := (source (2 * p + 1) y).blue.toNat
  let g1 : Int := (source (2 * p + 1) y).green.toNat
  let r1 : Int := (source (2 * p + 1) y).red.toNat
  let rAvg := (r0 + r1 + 1) / 2
  let gAvg := (g0 + g1 + 1) / 2
  let bAvg := (b0 + b1 + 1) / 2
  { cb := clampByte (round16 (c.ur * rAvg + c.ug * gAvg + c.ub * bAvg) + 128)
    y0 := clampByte (round16 (c.yr * r0 + c.yg * g0 + c.yb * b0 + c.yOffset))
    cr := clampByte (round16 (c.vr * rAvg + c.vg * gAvg + c.vb * bAvg) + 128)
    y1 := clampByte (round16 (c.yr * r1 + c.yg * g1 + c.yb * b1 + c.yOffset)) }

/-- `fillBlackBgra`; `src/core/pixel_convert.cpp:199`. -/
def fillBlackBgra : Picture := fun _ _ ↦ { alpha := 255 }

end WebLinked.Core
