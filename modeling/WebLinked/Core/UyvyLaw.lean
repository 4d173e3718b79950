import Mathlib
import WebLinked.Base.Buffer
import WebLinked.Core.BlitFrame
import WebLinked.Core.PixelConvert

/-!
# The conversion to UYVY

`src/core/pixel_convert.cpp:10–102`. What a pair of pixels is converted to, against the exact
values of the two recommendations, and the loop over the rows of two buffers.
-/

namespace WebLinked.Core

open WebLinked.Base

namespace Uyvy

/-! ### One pair -/

/-- The bytes of a pixel that are read; its alpha is not. -/
structure Rgb where
  blue : UInt8
  green : UInt8
  red : UInt8
  deriving DecidableEq

/-- The accumulator of a luma; `src/core/pixel_convert.cpp:82–83`. -/
def lumaSum (c : Coefficients) (p : Rgb) : Int :=
  c.yr * p.red.toNat + c.yg * p.green.toNat + c.yb * p.blue.toNat + c.yOffset

/-- `src/core/pixel_convert.cpp:87–89`. -/
def average (a b : UInt8) : Int := (a.toNat + b.toNat + 1) / 2

/-- The accumulator of a blue difference; `src/core/pixel_convert.cpp:92`. -/
def blueSum (c : Coefficients) (p q : Rgb) : Int :=
  c.ur * average p.red q.red + c.ug * average p.green q.green + c.ub * average p.blue q.blue

/-- That of a red difference; `src/core/pixel_convert.cpp:94`. -/
def redSum (c : Coefficients) (p q : Rgb) : Int :=
  c.vr * average p.red q.red + c.vg * average p.green q.green + c.vb * average p.blue q.blue

/-- The body of the inner loop, between what it reads and what it writes. -/
def convertPair (c : Coefficients) (p q : Rgb) : PixelPair where
  cb := clampByte (round16 (blueSum c p q) + 128)
  y0 := clampByte (round16 (lumaSum c p))
  cr := clampByte (round16 (redSum c p q) + 128)
  y1 := clampByte (round16 (lumaSum c q))

/-- The coefficients of a matrix; `src/core/pixel_convert.cpp:67`. -/
def coefficients (matrix : ColourMatrix) (height : Int) : Coefficients :=
  if resolveMatrix matrix height = .kBt709 then kBt709 else kBt601

/-! ### The exact values -/

/-- The weights of red and blue in luma. -/
structure Weights where
  kr : ℚ
  kb : ℚ

/-- Those of BT.601. -/
def bt601 : Weights := ⟨299 / 1000, 114 / 1000⟩

/-- Those of BT.709. -/
def bt709 : Weights := ⟨2126 / 10000, 722 / 10000⟩

namespace Weights

variable (k : Weights)

/-- The weighted sum of three channels. -/
def sum (r g b : ℚ) : ℚ := k.kr * r + (1 - k.kr - k.kb) * g + k.kb * b

/-- Luma in the studio range. -/
def luma (r g b : ℚ) : ℚ := 16 + 219 / 255 * k.sum r g b

/-- The blue difference in the studio range. -/
def blueDifference (r g b : ℚ) : ℚ := 128 + 224 / 255 * ((b - k.sum r g b) / (2 * (1 - k.kb)))

/-- The red difference in the studio range. -/
def redDifference (r g b : ℚ) : ℚ := 128 + 224 / 255 * ((r - k.sum r g b) / (2 * (1 - k.kr)))

end Weights

/-- The exact mean of two bytes. -/
def mean (a b : UInt8) : ℚ := ((a.toNat : ℚ) + b.toNat) / 2

/-- What a recommendation says a pixel's luma is. -/
def exactLuma (k : Weights) (p : Rgb) : ℚ := k.luma p.red.toNat p.green.toNat p.blue.toNat

/-- The blue difference of the exact mean of two pixels. -/
def exactBlue (k : Weights) (p q : Rgb) : ℚ :=
  k.blueDifference (mean p.red q.red) (mean p.green q.green) (mean p.blue q.blue)

/-- The red difference of the exact mean of two pixels. -/
def exactRed (k : Weights) (p q : Rgb) : ℚ :=
  k.redDifference (mean p.red q.red) (mean p.green q.green) (mean p.blue q.blue)

/-- The weights of a matrix. -/
def weights (matrix : ColourMatrix) (height : Int) : Weights :=
  if resolveMatrix matrix height = .kBt709 then bt709 else bt601

/-- A channel without colour. -/
def Rgb.IsNeutral (p : Rgb) : Prop := p.red = p.green ∧ p.green = p.blue

/-- A byte that is the value it was clamped from, in the range it may have. -/
structure Unclamped (byte : UInt8) (value lo hi : Int) : Prop where
  same : (byte.toNat : Int) = value
  lo_le : lo ≤ value
  le_hi : value ≤ hi

/-- What the conversion of a pair promises. -/
structure Lawful (c : Coefficients) (k : Weights) (p q : Rgb) : Prop where
  y0 : Unclamped (convertPair c p q).y0 (round16 (lumaSum c p)) 16 235
  y1 : Unclamped (convertPair c p q).y1 (round16 (lumaSum c q)) 16 235
  cb : Unclamped (convertPair c p q).cb (round16 (blueSum c p q) + 128) 16 240
  cr : Unclamped (convertPair c p q).cr (round16 (redSum c p q) + 128) 16 240
  y0_near : |((convertPair c p q).y0.toNat : ℚ) - exactLuma k p| ≤ 1
  y1_near : |((convertPair c p q).y1.toNat : ℚ) - exactLuma k q| ≤ 1
  cb_near : |((convertPair c p q).cb.toNat : ℚ) - exactBlue k p q| ≤ 1
  cr_near : |((convertPair c p q).cr.toNat : ℚ) - exactRed k p q| ≤ 1
  neutral : p.IsNeutral → q.IsNeutral →
    (convertPair c p q).cb = 128 ∧ (convertPair c p q).cr = 128

/-- Rounding is to the nearest. -/
theorem round16_le (x : Int) : 65536 * round16 x ≤ x + 32768 := by
  rw [round16]
  omega

/-- The other side of it. -/
theorem lt_round16 (x : Int) : x + 32768 < 65536 * round16 x + 65536 := by
  rw [round16]
  omega

/-- What fits in a byte is not clamped. -/
theorem unclamped {value lo hi : Int} (h0 : 0 ≤ lo) (h255 : hi ≤ 255) (hlo : lo ≤ value)
    (hhi : value ≤ hi) : Unclamped (clampByte value) value lo hi := by
  constructor
  · rw [clampByte, max_eq_left (by omega), min_eq_left (by omega), UInt8.toNat_ofNat',
      Nat.mod_eq_of_lt (by omega), Int.toNat_of_nonneg (by omega)]
  · exact hlo
  · exact hhi

/-- The average of two bytes, rounded up. -/
theorem average_bounds (a b : UInt8) : 0 ≤ average a b ∧ average a b ≤ 255 ∧
    (a.toNat : Int) + b.toNat ≤ 2 * average a b ∧
      2 * average a b ≤ (a.toNat : Int) + b.toNat + 1 := by
  have ha := a.toNat_lt
  have hb := b.toNat_lt
  rw [average]
  omega

/-- Coefficients and the weights they are for. -/
def Matched (c : Coefficients) (k : Weights) : Prop :=
  (c = kBt601 ∧ k = bt601) ∨ (c = kBt709 ∧ k = bt709)

/-- The coefficients of a matrix are for its weights. -/
theorem matched (matrix : ColourMatrix) (height : Int) :
    Matched (coefficients matrix height) (weights matrix height) := by
  by_cases h : resolveMatrix matrix height = .kBt709
  · right
    rw [coefficients, weights, if_pos h, if_pos h]
    exact ⟨rfl, rfl⟩
  · left
    rw [coefficients, weights, if_neg h, if_neg h]
    exact ⟨rfl, rfl⟩

section Law

variable {c : Coefficients} {k : Weights} (p q : Rgb)

/-- The coefficients of each difference sum to zero. -/
theorem Matched.chroma_zero (h : Matched c k) : c.ur + c.ug + c.ub = 0 ∧ c.vr + c.vg + c.vb = 0 := by
  rcases h with ⟨rfl, rfl⟩ | ⟨rfl, rfl⟩ <;> decide

/-- Luma is in its range. -/
theorem Matched.luma_range (h : Matched c k) :
    16 ≤ round16 (lumaSum c p) ∧ round16 (lumaSum c p) ≤ 235 := by
  have hb := p.blue.toNat_lt
  have hg := p.green.toNat_lt
  have hr := p.red.toNat_lt
  rcases h with ⟨rfl, rfl⟩ | ⟨rfl, rfl⟩
  · simp only [round16, lumaSum, kBt601]
    omega
  · simp only [round16, lumaSum, kBt709]
    omega

/-- The blue difference is in its range. -/
theorem Matched.blue_range (h : Matched c k) :
    16 ≤ round16 (blueSum c p q) + 128 ∧ round16 (blueSum c p q) + 128 ≤ 240 := by
  obtain ⟨hr, hr', -, -⟩ := average_bounds p.red q.red
  obtain ⟨hg, hg', -, -⟩ := average_bounds p.green q.green
  obtain ⟨hb, hb', -, -⟩ := average_bounds p.blue q.blue
  rcases h with ⟨rfl, rfl⟩ | ⟨rfl, rfl⟩
  · simp only [round16, blueSum, kBt601]
    omega
  · simp only [round16, blueSum, kBt709]
    omega

/-- The red difference is in its range. -/
theorem Matched.red_range (h : Matched c k) :
    16 ≤ round16 (redSum c p q) + 128 ∧ round16 (redSum c p q) + 128 ≤ 240 := by
  obtain ⟨hr, hr', -, -⟩ := average_bounds p.red q.red
  obtain ⟨hg, hg', -, -⟩ := average_bounds p.green q.green
  obtain ⟨hb, hb', -, -⟩ := average_bounds p.blue q.blue
  rcases h with ⟨rfl, rfl⟩ | ⟨rfl, rfl⟩
  · simp only [round16, redSum, kBt601]
    omega
  · simp only [round16, redSum, kBt709]
    omega

/-- No sum leaves the range of `int`, rounded or not. -/
theorem Matched.inInt32 (h : Matched c k) : InInt32 (lumaSum c p + 32768) ∧
    InInt32 (blueSum c p q + 32768) ∧ InInt32 (redSum c p q + 32768) := by
  have hluma := h.luma_range p
  have hblue := h.blue_range p q
  have hred := h.red_range p q
  simp only [round16] at hluma hblue hred
  refine ⟨⟨?_, ?_⟩, ⟨?_, ?_⟩, ⟨?_, ?_⟩⟩ <;> omega

/-- A rounded sum is within a half of the sum. -/
theorem round16_near (x : Int) : |(round16 x : ℚ) - x / 65536| ≤ 1 / 2 := by
  have hle : (65536 : ℚ) * round16 x ≤ x + 32768 := mod_cast round16_le x
  have hlt : (x : ℚ) + 32768 < 65536 * round16 x + 65536 := mod_cast lt_round16 x
  rw [abs_le]
  constructor <;> linarith

/-- A byte as a number. -/
theorem byte_bounds (a : UInt8) : (0 : ℚ) ≤ a.toNat ∧ (a.toNat : ℚ) ≤ 255 := by
  have ha : a.toNat ≤ 255 := Nat.lt_succ_iff.mp a.toNat_lt
  exact ⟨Nat.cast_nonneg _, mod_cast ha⟩

/-- The average is at most a half above the mean. -/
theorem average_near (a b : UInt8) : mean a b ≤ (average a b : ℚ) ∧
    (average a b : ℚ) ≤ mean a b + 1 / 2 := by
  obtain ⟨-, -, hlo, hhi⟩ := average_bounds a b
  have hlo' : (a.toNat : ℚ) + b.toNat ≤ 2 * average a b := mod_cast hlo
  have hhi' : 2 * (average a b : ℚ) ≤ a.toNat + b.toNat + 1 := mod_cast hhi
  rw [mean]
  constructor <;> linarith

/-- The sum that a luma is rounded from is within a half of the exact value. -/
theorem Matched.lumaSum_near (h : Matched c k) :
    |(lumaSum c p : ℚ) / 65536 - exactLuma k p| ≤ 1 / 2 := by
  obtain ⟨hb, hb'⟩ := byte_bounds p.blue
  obtain ⟨hg, hg'⟩ := byte_bounds p.green
  obtain ⟨hr, hr'⟩ := byte_bounds p.red
  rw [abs_le]
  rcases h with ⟨rfl, rfl⟩ | ⟨rfl, rfl⟩
  · simp only [lumaSum, exactLuma, Weights.luma, Weights.sum, kBt601, bt601]
    push_cast
    constructor <;> linarith
  · simp only [lumaSum, exactLuma, Weights.luma, Weights.sum, kBt709, bt709]
    push_cast
    constructor <;> linarith

/-- A mean of bytes as a number. -/
theorem mean_bounds (a b : UInt8) : 0 ≤ mean a b ∧ mean a b ≤ 255 := by
  obtain ⟨ha, ha'⟩ := byte_bounds a
  obtain ⟨hb, hb'⟩ := byte_bounds b
  rw [mean]
  constructor <;> linarith

/-- A coefficient that is within one of the exact one, at an average of two bytes: what the
rounding of the average adds, and what that of the coefficient does. -/
theorem channel_near {x : Int} {w : ℚ} (hw : |(x : ℚ) / 65536 - w| ≤ 1 / 65536) (a b : UInt8) :
    |(x : ℚ) / 65536 * average a b - w * mean a b| ≤ |(x : ℚ) / 65536| * (1 / 2) + 255 / 65536 := by
  obtain ⟨hmean, hmean'⟩ := mean_bounds a b
  obtain ⟨hlo, hhi⟩ := average_near a b
  have haverage : |(average a b : ℚ) - mean a b| ≤ 1 / 2 := by
    rw [abs_of_nonneg (by linarith)]
    linarith
  calc |(x : ℚ) / 65536 * average a b - w * mean a b|
      = |(x : ℚ) / 65536 * (average a b - mean a b) + ((x : ℚ) / 65536 - w) * mean a b| := by
        congr 1
        ring
    _ ≤ |(x : ℚ) / 65536 * (average a b - mean a b)| + |((x : ℚ) / 65536 - w) * mean a b| :=
        abs_add_le _ _
    _ = |(x : ℚ) / 65536| * |(average a b : ℚ) - mean a b| + |(x : ℚ) / 65536 - w| * mean a b := by
        rw [abs_mul, abs_mul, abs_of_nonneg hmean]
    _ ≤ |(x : ℚ) / 65536| * (1 / 2) + 1 / 65536 * 255 := by gcongr
    _ = |(x : ℚ) / 65536| * (1 / 2) + 255 / 65536 := by ring

/-- Three channels, where the coefficients come to no more than nine tenths. -/
theorem channels_near {x y z : Int} {u v w : ℚ} (p q : Rgb)
    (hsum : |(x : ℚ) / 65536| + |(y : ℚ) / 65536| + |(z : ℚ) / 65536| ≤ 9 / 10)
    (hu : |(x : ℚ) / 65536 - u| ≤ 1 / 65536) (hv : |(y : ℚ) / 65536 - v| ≤ 1 / 65536)
    (hw : |(z : ℚ) / 65536 - w| ≤ 1 / 65536) :
    |((x * average p.red q.red + y * average p.green q.green + z * average p.blue q.blue : Int) : ℚ)
        / 65536 -
      (u * mean p.red q.red + v * mean p.green q.green + w * mean p.blue q.blue)| ≤ 1 / 2 := by
  have hred := channel_near hu p.red q.red
  have hgreen := channel_near hv p.green q.green
  have hblue := channel_near hw p.blue q.blue
  rw [abs_le] at hred hgreen hblue ⊢
  push_cast
  constructor <;> linarith

/-- What a difference is scaled by, for the weight of its own channel. -/
def scale (w : ℚ) : ℚ := 224 / 255 / (2 * (1 - w))

/-- A blue difference, channel by channel. -/
theorem Weights.blueDifference_eq (k : Weights) (r g b : ℚ) :
    k.blueDifference r g b = 128 + (-(scale k.kb * k.kr) * r +
      -(scale k.kb * (1 - k.kr - k.kb)) * g + scale k.kb * (1 - k.kb) * b) := by
  rw [blueDifference, sum, scale]
  ring

/-- A red difference, channel by channel. -/
theorem Weights.redDifference_eq (k : Weights) (r g b : ℚ) :
    k.redDifference r g b = 128 + (scale k.kr * (1 - k.kr) * r +
      -(scale k.kr * (1 - k.kr - k.kb)) * g + -(scale k.kr * k.kb) * b) := by
  rw [redDifference, sum, scale]
  ring

/-- The sum of a blue difference, likewise. -/
theorem Matched.blueSum_near (h : Matched c k) :
    |(blueSum c p q : ℚ) / 65536 + 128 - exactBlue k p q| ≤ 1 / 2 := by
  rw [add_comm, exactBlue, Weights.blueDifference_eq, add_sub_add_left_eq_sub]
  rcases h with ⟨rfl, rfl⟩ | ⟨rfl, rfl⟩
  · apply channels_near <;> norm_num [kBt601, bt601, scale, abs_le]
  · apply channels_near <;> norm_num [kBt709, bt709, scale, abs_le]

/-- The sum of a red difference. -/
theorem Matched.redSum_near (h : Matched c k) :
    |(redSum c p q : ℚ) / 65536 + 128 - exactRed k p q| ≤ 1 / 2 := by
  rw [add_comm, exactRed, Weights.redDifference_eq, add_sub_add_left_eq_sub]
  rcases h with ⟨rfl, rfl⟩ | ⟨rfl, rfl⟩
  · apply channels_near <;> norm_num [kBt601, bt601, scale, abs_le]
  · apply channels_near <;> norm_num [kBt709, bt709, scale, abs_le]

/-- A byte that was rounded from a sum near a value is near it. -/
theorem Unclamped.near {byte : UInt8} {value lo hi x offset : Int} {exact : ℚ}
    (h : Unclamped byte value lo hi) (hvalue : value = round16 x + offset)
    (hx : |(x : ℚ) / 65536 + offset - exact| ≤ 1 / 2) : |(byte.toNat : ℚ) - exact| ≤ 1 := by
  have hround := round16_near x
  have hbyte : (byte.toNat : ℚ) = round16 x + offset := by
    have hsame := h.same.trans hvalue
    exact_mod_cast hsame
  rw [abs_le] at hround hx ⊢
  rw [hbyte]
  constructor <;> linarith [hround.1, hround.2, hx.1, hx.2]

/-- Pixels without colour average to one. -/
theorem average_neutral {p q : Rgb} (hp : p.IsNeutral) (hq : q.IsNeutral) :
    average p.red q.red = average p.green q.green ∧
      average p.green q.green = average p.blue q.blue := by
  rw [hp.1, hp.2, hq.1, hq.2]
  exact ⟨rfl, rfl⟩

/-- Where the coefficients sum to zero, no colour is no difference. -/
theorem clampByte_neutral {x : Int} (h : x = 0) : clampByte (round16 x + 128) = 128 := by
  rw [h]
  decide

/-- The law of the conversion. -/
theorem Matched.lawful (h : Matched c k) : Lawful c k p q := by
  have hy0 := unclamped (by omega) (by omega) (h.luma_range p).1 (h.luma_range p).2
  have hy1 := unclamped (by omega) (by omega) (h.luma_range q).1 (h.luma_range q).2
  have hcb := unclamped (by omega) (by omega) (h.blue_range p q).1 (h.blue_range p q).2
  have hcr := unclamped (by omega) (by omega) (h.red_range p q).1 (h.red_range p q).2
  have hluma (p : Rgb) : |(lumaSum c p : ℚ) / 65536 + (0 : Int) - exactLuma k p| ≤ 1 / 2 := by
    rw [Int.cast_zero, add_zero]
    exact h.lumaSum_near p
  constructor
  · exact hy0
  · exact hy1
  · exact hcb
  · exact hcr
  · exact hy0.near (add_zero _).symm (hluma p)
  · exact hy1.near (add_zero _).symm (hluma q)
  · exact hcb.near rfl (h.blueSum_near p q)
  · exact hcr.near rfl (h.redSum_near p q)
  · intro hp hq
    obtain ⟨hrg, hgb⟩ := average_neutral hp hq
    obtain ⟨hu, hv⟩ := h.chroma_zero
    constructor
    · apply clampByte_neutral
      rw [blueSum, hrg, hgb, ← add_mul, ← add_mul, hu, zero_mul]
    · apply clampByte_neutral
      rw [redSum, hrg, hgb, ← add_mul, ← add_mul, hv, zero_mul]

end Law

/-! ### The buffers -/

open Buffer

/-- The four bytes of a group. -/
def bytes (g : PixelPair) : List UInt8 := [g.cb, g.y0, g.cr, g.y1]

/-- What is read of a pixel; `src/core/pixel_convert.cpp:78–79`. -/
def loadRgb (src : List UInt8) (i : Int) : Option Rgb := do
  let blue ← load src i
  let green ← load src (i + 1)
  let red ← load src (i + 2)
  return { blue, green, red }

/-- The body of the inner loop; `src/core/pixel_convert.cpp:78–100`. -/
def convertAt (c : Coefficients) (src : List UInt8) (srcRow dstRow p : Int) (dst : List UInt8) :
    Option (List UInt8) := do
  let first ← loadRgb src (srcRow + 8 * p)
  let second ← loadRgb src (srcRow + 8 * p + 4)
  poke dst (dstRow + 4 * p) (bytes (convertPair c first second))

/-- One row; `src/core/pixel_convert.cpp:74–101`. -/
def convertRow (c : Coefficients) (src : List UInt8) (srcStride dstStride pairs y : Int)
    (dst : List UInt8) : Option (List UInt8) :=
  let srcRow := toSize (toSize y * toSize srcStride)
  let dstRow := toSize (toSize y * toSize dstStride)
  forUp 1 pairs (convertAt c src srcRow dstRow) 0 dst

/-- `bgraToUyvy`; `src/core/pixel_convert.cpp:63`. -/
def bgraToUyvyBytes (src : List UInt8) (srcStride : Int) (dst : List UInt8)
    (dstStride width height : Int) (matrix : ColourMatrix) : Option (List UInt8) :=
  forUp 1 height (convertRow (coefficients matrix height) src srcStride dstStride (width.tdiv 2)) 0
    dst

/-- The colour of the pixel at an address. -/
def rgbAt (b : List UInt8) (i : Int) : Rgb := ⟨read b 0 i, read b 0 (i + 1), read b 0 (i + 2)⟩

/-- The group at an address. -/
def groupAt (b : List UInt8) (i : Int) : PixelPair where
  cb := read b 0 i
  y0 := read b 0 (i + 1)
  cr := read b 0 (i + 2)
  y1 := read b 0 (i + 3)

/-- An image in two buffers, with strides of at least a row. -/
structure Image (src : List UInt8) (srcStride : Int) (dst : List UInt8)
    (dstStride width height : Int) : Prop where
  even : width % 2 = 0
  width_mem : 0 ≤ width ∧ width ≤ 2147483647
  height_mem : 0 ≤ height ∧ height ≤ 2147483647
  src_stride : 4 * width ≤ srcStride ∧ srcStride ≤ 2147483647
  dst_stride : 2 * width ≤ dstStride ∧ dstStride ≤ 2147483647
  src_fits : ∀ y, 0 ≤ y → y < height → y * srcStride + 4 * width ≤ src.length
  dst_fits : ∀ y, 0 ≤ y → y < height → y * dstStride + 2 * width ≤ dst.length

section Rows

variable {src dst d : List UInt8} {srcStride dstStride width height y p i : Int}

/-- An address of a row is not too large for its type. -/
theorem toSize_row {stride : Int} (hy : 0 ≤ y) (hy' : y ≤ 2147483647) (hs : 0 ≤ stride)
    (hs' : stride ≤ 2147483647) : toSize (toSize y * toSize stride) = y * stride := by
  have hpos : 0 ≤ y * stride := mul_nonneg hy hs
  have hle : y * stride ≤ 2147483647 * 2147483647 := mul_le_mul hy' hs' hs (by omega)
  rw [toSize, toSize, toSize, Int.emod_eq_of_lt hy (by omega), Int.emod_eq_of_lt hs (by omega),
    Int.emod_eq_of_lt hpos (by omega)]

/-- What is read of a pixel in the block. -/
theorem loadRgb_eq (hi : 0 ≤ i) (hlen : i + 3 ≤ src.length) : loadRgb src i = some (rgbAt src i) := by
  rw [loadRgb, load_eq_read 0 hi (by omega), load_eq_read 0 (by omega) (by omega),
    load_eq_read 0 (by omega) (by omega)]
  rfl

/-- What one group is converted to, and what is left alone. -/
theorem convertAt_spec (c : Coefficients) (src d : List UInt8) {srcRow dstRow : Int} (hp : 0 ≤ p)
    (hsrc : 0 ≤ srcRow) (hdst : 0 ≤ dstRow) (hsrclen : srcRow + 8 * p + 8 ≤ src.length)
    (hdstlen : dstRow + 4 * p + 4 ≤ d.length) :
    ∃ e, convertAt c src srcRow dstRow p d = some e ∧ e.length = d.length ∧
      groupAt e (dstRow + 4 * p) =
        convertPair c (rgbAt src (srcRow + 8 * p)) (rgbAt src (srcRow + 8 * p + 4)) ∧
      ∀ i, i < dstRow + 4 * p ∨ dstRow + 4 * p + 4 ≤ i → read e 0 i = read d 0 i := by
  obtain ⟨e, he, hlen, hread⟩ := poke_spec d
    (bytes (convertPair c (rgbAt src (srcRow + 8 * p)) (rgbAt src (srcRow + 8 * p + 4))))
    (show 0 ≤ dstRow + 4 * p by omega) (by rw [bytes]; simpa using hdstlen)
  have hfour : ∀ g : PixelPair, ((bytes g).length : Int) = 4 := fun g ↦ rfl
  refine ⟨e, ?_, hlen, ?_, ?_⟩
  · rw [convertAt, loadRgb_eq (by omega) (by omega), loadRgb_eq (by omega) (by omega)]
    exact he
  · rw [groupAt, hread, hread, hread, hread, hfour]
    rw [if_pos (by omega), if_pos (by omega), if_pos (by omega), if_pos (by omega), Int.sub_self,
      add_sub_cancel_left, add_sub_cancel_left, add_sub_cancel_left]
    rfl
  · intro i hi
    rw [hread, hfour, if_neg (by omega)]

/-- A group whose four bytes are left alone. -/
theorem groupAt_congr {e : List UInt8} (h : ∀ j, i ≤ j → j < i + 4 → read e 0 j = read d 0 j) :
    groupAt e i = groupAt d i := by
  rw [groupAt, groupAt, h i (by omega) (by omega), h (i + 1) (by omega) (by omega),
    h (i + 2) (by omega) (by omega), h (i + 3) (by omega) (by omega)]

/-- An even width is its pairs. -/
theorem two_mul_pairs (heven : width % 2 = 0) (hw : 0 ≤ width) : 2 * width.tdiv 2 = width := by
  rw [Int.tdiv_eq_ediv_of_nonneg hw]
  omega

/-- The first `n` groups of a row are what the pairs of the source are converted to. -/
def RowDone (c : Coefficients) (src : List UInt8) (srcStride dstStride y n : Int)
    (e : List UInt8) : Prop :=
  ∀ p, 0 ≤ p → p < n → groupAt e (y * dstStride + 4 * p) =
    convertPair c (rgbAt src (y * srcStride + 8 * p)) (rgbAt src (y * srcStride + 8 * p + 4))

/-- A row is converted group by group, and nothing else of the block is written. -/
theorem convertRow_spec (h : Image src srcStride dst dstStride width height)
    (c : Coefficients) (hy : 0 ≤ y) (hheight : y < height) (hlen : d.length = dst.length) :
    ∃ e, convertRow c src srcStride dstStride (width.tdiv 2) y d = some e ∧
      e.length = d.length ∧ RowDone c src srcStride dstStride y (width.tdiv 2) e ∧
      ∀ i, i < y * dstStride ∨ y * dstStride + 4 * width.tdiv 2 ≤ i → read e 0 i = read d 0 i := by
  obtain ⟨heven, ⟨hw, hwmax⟩, ⟨-, hhmax⟩, ⟨hss, hssmax⟩, ⟨hds, hdsmax⟩, hsrcfits, hdstfits⟩ := h
  have hsrcfits := hsrcfits y hy hheight
  have hdstfits := hdstfits y hy hheight
  have hsrcrow : 0 ≤ y * srcStride := mul_nonneg hy (by omega)
  have hdstrow : 0 ≤ y * dstStride := mul_nonneg hy (by omega)
  have hpairs := two_mul_pairs heven hw
  rw [convertRow, toSize_row hy (by omega) (by omega) hssmax,
    toSize_row hy (by omega) (by omega) hdsmax]
  -- the groups before the counter are done, and nothing but them is written
  apply forUp_one_invariant fun n e ↦ e.length = d.length ∧
    RowDone c src srcStride dstStride y n e ∧
    ∀ i, i < y * dstStride ∨ y * dstStride + 4 * n ≤ i → read e 0 i = read d 0 i
  · exact ⟨by omega, by omega⟩
  · exact ⟨by omega, by omega⟩
  · omega
  · exact ⟨rfl, fun p hp hp' ↦ absurd hp (by omega), fun i _ ↦ rfl⟩
  · intro n b hn hnpairs ⟨hblen, hbdone, hbframe⟩
    obtain ⟨e, he, helen, hgroup, hrest⟩ := convertAt_spec c src b hn hsrcrow hdstrow
      (by omega) (by omega)
    refine ⟨e, he, helen.trans hblen, ?_, ?_⟩
    · intro p hp hpn
      rcases eq_or_lt_of_le (show p ≤ n by omega) with rfl | hlt
      · exact hgroup
      · rw [← hbdone p hp hlt]
        exact groupAt_congr fun j hj hj' ↦ hrest j (by omega)
    · intro i hi
      rw [hrest i (by omega)]
      exact hbframe i (by omega)

/-- A row ends before any later one begins. -/
theorem row_le {y' stride : Int} (hs : 0 ≤ stride) (h : y' < y) :
    y' * stride + stride ≤ y * stride := by
  have hmul : (y' + 1) * stride ≤ y * stride := mul_le_mul_of_nonneg_right (by omega) hs
  rwa [add_mul, one_mul] at hmul

/-- The loop over the rows. -/
theorem rows_spec (h : Image src srcStride dst dstStride width height) (matrix : ColourMatrix) :
    ∃ out, bgraToUyvyBytes src srcStride dst dstStride width height matrix = some out ∧
      out.length = dst.length ∧
      (∀ y, 0 ≤ y → y < height →
        RowDone (coefficients matrix height) src srcStride dstStride y (width.tdiv 2) out) ∧
      ∀ i, (∀ y, 0 ≤ y → y < height → i < y * dstStride ∨ y * dstStride + 2 * width ≤ i) →
        read out 0 i = read dst 0 i := by
  have hpairs := two_mul_pairs h.even h.width_mem.1
  have hstride := h.dst_stride
  have hwidth := h.width_mem
  have hheight := h.height_mem
  -- the rows before the counter are done, and nothing outside the rows is written
  apply forUp_one_invariant fun n e ↦ e.length = dst.length ∧
    (∀ y, 0 ≤ y → y < n →
      RowDone (coefficients matrix height) src srcStride dstStride y (width.tdiv 2) e) ∧
    ∀ i, (∀ y, 0 ≤ y → y < height → i < y * dstStride ∨ y * dstStride + 2 * width ≤ i) →
      read e 0 i = read dst 0 i
  · exact ⟨by omega, by omega⟩
  · exact ⟨by omega, hheight.2⟩
  · exact hheight.1
  · exact ⟨rfl, fun y hy hy' ↦ absurd hy (by omega), fun i _ ↦ rfl⟩
  · intro n b hn hnheight ⟨hblen, hbdone, hbframe⟩
    obtain ⟨e, he, helen, hrow, hrest⟩ :=
      convertRow_spec h (coefficients matrix height) hn hnheight hblen
    refine ⟨e, he, helen.trans hblen, ?_, ?_⟩
    · intro y hy hyn
      rcases eq_or_lt_of_le (show y ≤ n by omega) with rfl | hlt
      · exact hrow
      · intro p hp hpp
        rw [← hbdone y hy hlt p hp hpp]
        have hbefore : y * dstStride + dstStride ≤ n * dstStride := row_le (by omega) hlt
        exact groupAt_congr fun j hj hj' ↦ hrest j (by omega)
    · intro i hi
      have hin := hi n hn hnheight
      rw [hrest i (by omega)]
      exact hbframe i hi

/-- The law of `bgraToUyvy`, for every image of even width and both matrices: each group is what
the colours of its own pair are converted to, every such conversion is lawful, and nothing beyond
the groups of a row is written. -/
theorem bgraToUyvyBytes_spec (h : Image src srcStride dst dstStride width height)
    (matrix : ColourMatrix) :
    ∃ out, bgraToUyvyBytes src srcStride dst dstStride width height matrix = some out ∧
      out.length = dst.length ∧
      (∀ y p, 0 ≤ y → y < height → 0 ≤ p → 2 * p < width →
        groupAt out (y * dstStride + 4 * p) =
          convertPair (coefficients matrix height) (rgbAt src (y * srcStride + 4 * (2 * p)))
            (rgbAt src (y * srcStride + 4 * (2 * p + 1)))) ∧
      (∀ p q, Lawful (coefficients matrix height) (weights matrix height) p q) ∧
      ∀ i, (∀ y, 0 ≤ y → y < height → i < y * dstStride ∨ y * dstStride + 2 * width ≤ i) →
        read out 0 i = read dst 0 i := by
  obtain ⟨out, hout, hlength, hdone, hframe⟩ := rows_spec h matrix
  have hpairs := two_mul_pairs h.even h.width_mem.1
  refine ⟨out, hout, hlength, ?_, fun p q ↦ (matched matrix height).lawful p q, hframe⟩
  intro y p hy hy' hp hp'
  rw [hdone y hy hy' p hp (by omega), show 4 * (2 * p) = 8 * p by omega,
    show 4 * (2 * p + 1) = 8 * p + 4 by omega, ← add_assoc]

/-- Two rows of one pair, with a byte behind each row of the source and two behind each of the
destination. -/
theorem bgraToUyvyBytes_two_rows :
    Image (List.replicate 18 200) 9 (List.replicate 12 7) 6 2 2 ∧
      ∃ out, bgraToUyvyBytes (List.replicate 18 200) 9 (List.replicate 12 7) 6 2 2 .kBt601 =
        some out ∧ read out 0 4 = 7 := by
  have himage : Image (List.replicate 18 200) 9 (List.replicate 12 7) 6 2 2 := by
    constructor
    · decide
    · decide
    · decide
    · decide
    · decide
    · intro y hy hy'
      rw [List.length_replicate]
      omega
    · intro y hy hy'
      rw [List.length_replicate]
      omega
  obtain ⟨out, hout, hlen, hgroups, hlawful, hframe⟩ := bgraToUyvyBytes_spec himage .kBt601
  have hrest : read out 0 4 = read (List.replicate 12 7) 0 4 :=
    hframe 4 (by intro y hy hy'; omega)
  exact ⟨himage, out, hout, hrest⟩

end Rows

end Uyvy
end WebLinked.Core
