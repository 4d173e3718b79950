import WebLinked.Core.BlitFrame
import WebLinked.Core.DrawnPixels

/-!
# Bars, rows and tiles

Where the limits lie in the display and the tables in the turned picture, `clearBars` draws the
bars, and both copies draw the picture that the tables sample.
-/

namespace WebLinked.Core

open WebLinked.Base WebLinked.Base.Buffer

namespace RotatedBlit

/-- Turn a picture clockwise by a quarter: its left column, read upwards, comes to the top. -/
def quarterTurn (height : Int) (p : Picture) : Picture := fun x y ↦ p y (height - 1 - x)

/-- The source turned clockwise by the rotation. -/
def turned (r : RotatedBlit) (p : Picture) : Picture :=
  match r.rotation with
  | .k0 => p
  | .k90 => quarterTurn r.sourceHeight p
  | .k180 => quarterTurn r.sourceWidth (quarterTurn r.sourceHeight p)
  | .k270 => quarterTurn r.sourceHeight (quarterTurn r.sourceWidth (quarterTurn r.sourceHeight p))

/-- The size of a picture that is turned. -/
def turnedSize (rotation : BlitRotation) (width height : Int) : Int × Int :=
  match rotation with
  | .k0 | .k180 => (width, height)
  | .k90 | .k270 => (height, width)

namespace Tabled

/-- The limits lie in the display, and the tables hold columns and rows of the turned picture. -/
structure Sound (t : Tabled) (column row : Int → Int) : Prop where
  sourceWidth : 0 ≤ t.sourceWidth ∧ t.sourceWidth ≤ 2147483647
  sourceHeight : 0 ≤ t.sourceHeight ∧ t.sourceHeight ≤ 2147483647
  destWidth : 0 ≤ t.destWidth ∧ t.destWidth ≤ 2147483647
  destHeight : 0 ≤ t.destHeight ∧ t.destHeight ≤ 2147483647
  rotated : (t.rotatedWidth, t.rotatedHeight) =
    turnedSize t.rotation t.sourceWidth t.sourceHeight
  across : 0 ≤ t.x0 ∧ t.x0 ≤ t.x1 ∧ t.x1 ≤ t.destWidth
  down : 0 ≤ t.y0 ∧ t.y0 ≤ t.y1 ∧ t.y1 ≤ t.destHeight
  load_column : ∀ x, t.x0 ≤ x → x < t.x1 → load t.columnOf x = some (column x)
  column_mem : ∀ x, t.x0 ≤ x → x < t.x1 → 0 ≤ column x ∧ column x < t.rotatedWidth
  load_row : ∀ y, t.y0 ≤ y → y < t.y1 → load t.rowOf y = some (row y)
  row_mem : ∀ y, t.y0 ≤ y → y < t.y1 → 0 ≤ row y ∧ row y < t.rotatedHeight

/-- The bytes before a column's pixel in its row of the source. -/
def columnAddress (t : Tabled) (stride c : Int) : Int :=
  match t.rotation with
  | .k0 => c * 4
  | .k90 => (t.sourceHeight - 1 - c) * stride
  | .k180 => (t.sourceWidth - 1 - c) * 4
  | .k270 => c * stride

/-- The bytes before a row's pixel in its column of the source. -/
def rowAddress (t : Tabled) (stride r : Int) : Int :=
  match t.rotation with
  | .k0 => r * stride
  | .k90 => r * 4
  | .k180 => (t.sourceHeight - 1 - r) * stride
  | .k270 => (t.sourceWidth - 1 - r) * 4

section

variable {t : Tabled} {column row : Int → Int} {source dest : List UInt8} {ss ds x y c r : Int}

theorem covers_iff : t.covers x y = true ↔ (t.x0 ≤ x ∧ x < t.x1) ∧ t.y0 ≤ y ∧ y < t.y1 := by
  simp only [covers, Bool.and_eq_true, decide_eq_true_eq, and_assoc]

theorem toSize_of_mem (h : 0 ≤ x) (hlt : x < 18446744073709551616) : toSize x = x :=
  Int.emod_eq_of_lt h hlt

/-- A product of two `int` values that are not negative. -/
theorem toSize_mul (hx : 0 ≤ x ∧ x ≤ 2147483647) (hy : 0 ≤ y ∧ y ≤ 2147483647) :
    toSize (x * y) = x * y := by
  apply toSize_of_mem (Int.mul_nonneg hx.1 hy.1)
  have := Int.mul_le_mul hx.2 hy.2 hy.1 (by omega)
  omega

/-- The two parts of an address make that of the turned picture's pixel. -/
theorem turned_pictureOf (t : Tabled) (source : List UInt8) (ss c r : Int) :
    t.turned (pictureOf source ss) c r =
      pixelAt source (t.rowAddress ss r + t.columnAddress ss c) := by
  have hback : t.sourceHeight - 1 - (t.sourceHeight - 1 - c) = c := by omega
  cases hrotation : t.rotation <;>
    simp only [turned, rowAddress, columnAddress, hrotation, pictureOf, quarterTurn, hback] <;>
    congr 1 <;> omega

/-- Each part of an address is not negative, and the pixel is in the source. -/
theorem Sound.address_mem (h : Sound t column row) (hss : 4 * t.sourceWidth ≤ ss)
    (hsource : Holds source t.sourceWidth t.sourceHeight ss) (hc : 0 ≤ c ∧ c < t.rotatedWidth)
    (hr : 0 ≤ r ∧ r < t.rotatedHeight) :
    0 ≤ t.rowAddress ss r + t.columnAddress ss c ∧
      t.rowAddress ss r + t.columnAddress ss c + 4 ≤ source.length := by
  have hrow : ∀ y, 0 ≤ y → y < t.sourceHeight → 0 ≤ y * ss ∧ y * ss + 4 * t.sourceWidth ≤ _ :=
    fun y hy hlt ↦ hsource.row (by have := h.sourceWidth; omega) hy hlt
  have hrot := h.rotated
  unfold rowAddress columnAddress
  unfold turnedSize at hrot
  split at hrot <;> rename_i hrotation <;> simp only [hrotation] <;>
    obtain ⟨hw, hh⟩ := Prod.mk.inj hrot
  · have := hrow r hr.1 (by omega)
    omega
  · have := hrow (t.sourceHeight - 1 - r) (by omega) (by omega)
    omega
  · have := hrow (t.sourceHeight - 1 - c) (by omega) (by omega)
    omega
  · have := hrow c hc.1 (by omega)
    omega

/-- A value no greater than the row length is its own size. -/
theorem toSize_pixels (h : 0 ≤ x) (hle : 4 * x ≤ 2147483647) : toSize (x * 4) = 4 * x := by
  rw [toSize_of_mem (by omega) (by omega), Int.mul_comm]

/-- `memset` of pixels of a row draws them black. -/
theorem draws_zero {width height hi : Int} (lo : Int) (hwidth : 4 * width ≤ ds)
    (hholds : Holds dest width height ds) (hy : 0 ≤ y ∧ y < height) (hlo : 0 ≤ lo)
    (hle : lo ≤ hi) (hhi : hi ≤ width) :
    Draws width height ds (fun _ _ ↦ {}) dest
      (fun out ↦ zero out (y * ds + 4 * lo) (4 * (hi - lo)))
      (fun x' y' ↦ y' = y ∧ lo ≤ x' ∧ x' < hi) := by
  intro done after h
  apply h.poke hwidth hholds hy hlo hle hhi
  · rw [List.length_replicate]
    omega
  · intro x' _ _
    simp only [pixelAt, read_replicate]

/-- A row of `clearBars` draws its bars. -/
theorem Sound.draws_clearRow (h : Sound t column row) (hds : 4 * t.destWidth ≤ ds)
    (hint : ds ≤ 2147483647) (hholds : Holds dest t.destWidth t.destHeight ds)
    (hy : 0 ≤ y ∧ y < t.destHeight) :
    Draws t.destWidth t.destHeight ds (fun _ _ ↦ {}) dest (t.clearRow ds y)
      (fun x' y' ↦ y' = y ∧ ¬ t.covers x' y') := by
  have hdw := h.destWidth
  have hdh := h.destHeight
  have hacross := h.across
  have hsize : toSize (toSize y * ds) = y * ds := by
    rw [toSize_of_mem hy.1 (by omega)]
    exact toSize_mul ⟨hy.1, by omega⟩ ⟨by omega, hint⟩
  by_cases hin : t.y0 ≤ y ∧ y < t.y1
  · have hleft := draws_zero 0 hds hholds hy le_rfl hacross.1 (by omega)
    have hright := draws_zero t.x1 hds hholds hy (by omega) hacross.2.2 le_rfl
    rw [Int.mul_zero, Int.add_zero, Int.sub_zero] at hleft
    have hboth : t.clearRow ds y = fun out ↦
        (zero out (y * ds) (4 * t.x0)).bind fun out ↦
          zero out (y * ds + 4 * t.x1) (4 * (t.destWidth - t.x1)) := by
      funext out
      rw [clearRow, hsize, if_neg (by simp; omega), toSize_pixels hacross.1 (by omega),
        toSize_pixels (by omega) (by omega), toSize_pixels (by omega) (by omega)]
      rfl
    rw [hboth]
    refine (hleft.bind hright).congr _ fun x' y' hx' _ ↦ ?_
    rw [covers_iff]
    omega
  · have hall := draws_zero 0 hds hholds hy le_rfl hdw.1 le_rfl
    rw [Int.mul_zero, Int.add_zero, Int.sub_zero] at hall
    have hrow : t.clearRow ds y = fun out ↦ zero out (y * ds) (4 * t.destWidth) := by
      funext out
      rw [clearRow, hsize, if_pos (by simp; omega), toSize_pixels hdw.1 (by omega)]
    rw [hrow]
    refine hall.congr _ fun x' y' hx' _ ↦ ?_
    rw [covers_iff]
    omega

/-- `clearBars` draws the bars. -/
theorem Sound.draws_clearBars (h : Sound t column row) (hds : 4 * t.destWidth ≤ ds)
    (hint : ds ≤ 2147483647) (hholds : Holds dest t.destWidth t.destHeight ds) :
    Draws t.destWidth t.destHeight ds (fun _ _ ↦ {}) dest (t.clearBars · ds)
      (fun x' y' ↦ ¬ t.covers x' y') := by
  have hdh := h.destHeight
  have hrows := Draws.forUp (fun y x' y' ↦ 0 ≤ y' ∧ y' < y ∧ ¬ t.covers x' y') _
    Int.one_pos ⟨by omega, by omega⟩ (by rw [loopEnd_one]; exact ⟨by omega, by omega⟩) hdh.1
    (by omega) ?_
    fun y hy hlt _ ↦ h.draws_clearRow hds hint hholds ⟨hy, hlt⟩
  · refine hrows.congr _ fun x' y' _ hy' ↦ ?_
    simp only [hy'.1, hy'.2, true_and]
  · intro y x' y' hy hlt _ _
    rw [Int.min_eq_left (by omega), covers_iff]
    omega

/-- What the tables sample. -/
def sampled (t : Tabled) (column row : Int → Int) (source : List UInt8) (ss : Int) : Picture :=
  fun x y ↦ t.turned (pictureOf source ss) (column x) (row y)

/-- A column's offset is the exact one. -/
theorem Sound.xOffset_eq (h : Sound t column row) (hss : 0 ≤ ss ∧ ss ≤ 2147483647)
    (hlo : t.x0 ≤ x) (hhi : x < t.x1) :
    t.xOffset ss x = some (t.columnAddress ss (column x)) := by
  obtain ⟨hc, hlt⟩ := h.column_mem x hlo hhi
  have hsw := h.sourceWidth
  have hsh := h.sourceHeight
  have hrot := h.rotated
  rw [xOffset, h.load_column x hlo hhi, columnAddress]
  cases hrotation : t.rotation <;> rw [hrotation] at hrot <;>
    obtain ⟨hw, hh⟩ := Prod.mk.inj hrot <;>
    simp only [Option.bind_eq_bind, Option.bind_some, toSize_of_mem hc (by omega)]
  · rw [toSize_of_mem (by omega) (by omega)]
    rfl
  · rw [toSize_mul ⟨by omega, by omega⟩ hss]
    rfl
  · rw [toSize_of_mem (by omega) (by omega)]
    rfl
  · rw [toSize_mul ⟨hc, by omega⟩ hss]
    rfl

/-- A row's offset is the exact one. -/
theorem Sound.yOffset_eq (h : Sound t column row) (hss : 0 ≤ ss ∧ ss ≤ 2147483647)
    (hlo : t.y0 ≤ y) (hhi : y < t.y1) :
    t.yOffset ss y = some (t.rowAddress ss (row y)) := by
  obtain ⟨hr, hlt⟩ := h.row_mem y hlo hhi
  have hsw := h.sourceWidth
  have hsh := h.sourceHeight
  have hrot := h.rotated
  rw [yOffset, h.load_row y hlo hhi, rowAddress]
  cases hrotation : t.rotation <;> rw [hrotation] at hrot <;>
    obtain ⟨hw, hh⟩ := Prod.mk.inj hrot <;>
    simp only [Option.bind_eq_bind, Option.bind_some, toSize_of_mem hr (by omega)]
  · rw [toSize_mul ⟨hr, by omega⟩ hss]
    rfl
  · rw [toSize_of_mem (by omega) (by omega)]
    rfl
  · rw [toSize_mul ⟨by omega, by omega⟩ hss]
    rfl
  · rw [toSize_of_mem (by omega) (by omega)]
    rfl

section

variable (h : Sound t column row) (hss : 4 * t.sourceWidth ≤ ss) (hssInt : ss ≤ 2147483647)
  (hds : 4 * t.destWidth ≤ ds) (hdsInt : ds ≤ 2147483647)
  (hsource : Holds source t.sourceWidth t.sourceHeight ss)
  (hdest : Holds dest t.destWidth t.destHeight ds)

include h hss hds hdsInt hsource hdest

/-- One pixel of the tiled copy. -/
theorem Sound.draws_copyPixel {xOffset yOffset : List Int} (halign : ds % 4 = 0)
    (hx : t.x0 ≤ x ∧ x < t.x1) (hy : t.y0 ≤ y ∧ y < t.y1)
    (hxOffset : load xOffset x = some (t.columnAddress ss (column x)))
    (hyOffset : load yOffset y = some (t.rowAddress ss (row y))) :
    Draws t.destWidth t.destHeight ds (t.sampled column row source ss) dest
      (copyPixel xOffset yOffset source ds y x) (fun x' y' ↦ x' = x ∧ y' = y) := by
  intro done after hdrawn
  have hacross := h.across
  have hdown := h.down
  have hdh := h.destHeight
  have hdw := h.destWidth
  obtain ⟨hstart, hend⟩ := h.address_mem hss hsource (h.column_mem x hx.1 hx.2)
    (h.row_mem y hy.1 hy.2)
  obtain ⟨bytes, hbytes, hlength, hread⟩ := peek_spec (n := 4) 0 hstart hend
  have hrow : toSize (y * ds) = y * ds := toSize_mul ⟨by omega, by omega⟩ ⟨by omega, hdsInt⟩
  have haligned : y * ds % 4 = 0 := by rw [Int.mul_emod, halign, Int.mul_zero]; rfl
  have hone : (bytes.length : Int) = 4 * (x + 1 - x) := by omega
  obtain ⟨c, hc, hdrawn'⟩ := hdrawn.poke hds hdest (y := y) ⟨by omega, by omega⟩
    (show 0 ≤ x by omega) (by omega) (by omega) hone fun x' hlo hhi ↦ by
      obtain rfl : x' = x := by omega
      rw [sampled, turned_pictureOf]
      apply pixelAt_congr
      intro k hk hk4
      rw [Int.sub_self, Int.mul_zero, Int.zero_add]
      exact hread k hk hk4
  refine ⟨c, ?_, hdrawn'.congr fun x' y' _ _ ↦ ?_⟩
  · rw [copyPixel, hyOffset, hxOffset, hrow]
    simp only [Option.bind_eq_bind, Option.bind_some, hbytes, if_pos haligned]
    exact hc
  · have : y' = y ∧ x ≤ x' ∧ x' < x + 1 ↔ x' = x ∧ y' = y := by omega
    rw [this]

/-- One tile. -/
theorem Sound.draws_copyTile {xOffset yOffset : List Int} {tx txEnd ty tyEnd : Int}
    (halign : ds % 4 = 0) (hx : t.x0 ≤ tx ∧ tx ≤ txEnd ∧ txEnd ≤ t.x1)
    (hy : t.y0 ≤ ty ∧ ty ≤ tyEnd ∧ tyEnd ≤ t.y1)
    (hxOffset : ∀ x, t.x0 ≤ x → x < t.x1 →
      load xOffset x = some (t.columnAddress ss (column x)))
    (hyOffset : ∀ y, t.y0 ≤ y → y < t.y1 → load yOffset y = some (t.rowAddress ss (row y))) :
    Draws t.destWidth t.destHeight ds (t.sampled column row source ss) dest
      (copyTile xOffset yOffset source ds ty tyEnd tx txEnd)
      (fun x y ↦ (tx ≤ x ∧ x < txEnd) ∧ ty ≤ y ∧ y < tyEnd) := by
  have hacross := h.across
  have hdown := h.down
  have hdh := h.destHeight
  have hdw := h.destWidth
  apply Draws.forUp (fun y' x y ↦ (tx ≤ x ∧ x < txEnd) ∧ ty ≤ y ∧ y < y')
    (fun y' x y ↦ (tx ≤ x ∧ x < txEnd) ∧ y = y') Int.one_pos ⟨by omega, by omega⟩
    (by rw [loopEnd_one]; exact ⟨by omega, by omega⟩) hy.2.1 (by omega) (by omega)
  intro y hlo hhi _
  apply Draws.forUp (fun x' x y' ↦ (tx ≤ x ∧ x < x') ∧ y' = y)
    (fun x' x y' ↦ x = x' ∧ y' = y) Int.one_pos ⟨by omega, by omega⟩
    (by rw [loopEnd_one]; exact ⟨by omega, by omega⟩) hx.2.1 (by omega) (by omega)
  intro x hxlo hxhi _
  exact h.draws_copyPixel hss hds hdsInt hsource hdest halign ⟨by omega, by omega⟩
    ⟨by omega, by omega⟩ (hxOffset x (by omega) (by omega)) (hyOffset y (by omega) (by omega))

include hssInt in
/-- The tiled copy draws the picture, where its last row of tiles ends with an `int`. -/
theorem Sound.draws_copyTiles (scratch : List Int × List Int) (halign : ds % 4 = 0)
    (htiles : loopEnd kTile t.y0 t.y1 ≤ 2147483647) :
    Draws t.destWidth t.destHeight ds (t.sampled column row source ss) dest
      (t.copyTiles scratch source ss · ds) (fun x y ↦ t.covers x y) := by
  have hacross := h.across
  have hdown := h.down
  have hdh := h.destHeight
  have hdw := h.destWidth
  have hsw := h.sourceWidth
  have hstride : toSize ss = ss := toSize_of_mem (by omega) (by omega)
  have hlengthX := length_resize scratch.1 t.destWidth.toNat 0
  have hlengthY := length_resize scratch.2 t.destHeight.toNat 0
  obtain ⟨xOffset, hxFill, -, hxOffset⟩ := fill_spec
    (resize scratch.1 t.destWidth.toNat 0) (fun x ↦ t.columnAddress ss (column x)) hacross.1
    hacross.2.1 (by omega) (by omega) fun x hlo hhi ↦ h.xOffset_eq ⟨by omega, hssInt⟩ hlo hhi
  obtain ⟨yOffset, hyFill, -, hyOffset⟩ := fill_spec
    (resize scratch.2 t.destHeight.toNat 0) (fun y ↦ t.rowAddress ss (row y)) hdown.1
    hdown.2.1 (by omega) (by omega) fun y hlo hhi ↦ h.yOffset_eq ⟨by omega, hssInt⟩ hlo hhi
  simp only [copyTiles, hstride, hxFill, hyFill, Option.bind_eq_bind, Option.bind_some]
  have hright : loopEnd kTile t.x0 t.x1 ≤ 2147483647 := by
    rw [loopEnd, kTile]
    omega
  have hpos : (0 : Int) < kTile := by decide
  refine Draws.congr (fun x y ↦ (t.x0 ≤ x ∧ x < t.x1) ∧ t.y0 ≤ y ∧ y < t.y1) ?_
    fun x y _ _ ↦ covers_iff.symm
  apply Draws.forUp (fun y' x y ↦ (t.x0 ≤ x ∧ x < t.x1) ∧ t.y0 ≤ y ∧ y < y')
    (fun ty x y ↦ (t.x0 ≤ x ∧ x < t.x1) ∧ ty ≤ y ∧ y < min (ty + kTile) t.y1) hpos
    ⟨by omega, by omega⟩ ⟨by rw [loopEnd, kTile]; omega, htiles⟩ hdown.2.1 (by omega)
    (by rw [kTile]; omega)
  intro ty htylo htyhi htyInt
  simp only [add32_of_mem htyInt, Option.bind_some]
  apply Draws.forUp
    (fun x' x y ↦ (t.x0 ≤ x ∧ x < x') ∧ ty ≤ y ∧ y < min (ty + kTile) t.y1)
    (fun tx x y ↦
      (tx ≤ x ∧ x < min (tx + kTile) t.x1) ∧ ty ≤ y ∧ y < min (ty + kTile) t.y1) hpos
    ⟨by omega, by omega⟩ ⟨by rw [loopEnd, kTile]; omega, hright⟩ hacross.2.1 (by omega)
    (by rw [kTile]; omega)
  intro tx htxlo htxhi htxInt
  simp only [add32_of_mem htxInt, Option.bind_some]
  exact h.draws_copyTile hss hds hdsInt hsource hdest halign
    ⟨htxlo, by rw [kTile]; omega, by omega⟩ ⟨htylo, by rw [kTile]; omega, by omega⟩
    hxOffset hyOffset

/-- A row of the straight copy, of an upright picture whose columns follow each other. -/
theorem Sound.draws_copyRow (hssInt : ss ≤ 2147483647) (hrotation : t.rotation = .k0)
    (hstraight : ∀ x, t.x0 ≤ x → x < t.x1 → column x = column t.x0 + (x - t.x0))
    (hx : t.x0 < t.x1) (hy : t.y0 ≤ y ∧ y < t.y1) :
    Draws t.destWidth t.destHeight ds (t.sampled column row source ss) dest
      (t.copyRow source ss ds y) (fun x' y' ↦ y' = y ∧ t.x0 ≤ x' ∧ x' < t.x1) := by
  intro done after hdrawn
  have hacross := h.across
  have hdown := h.down
  have hdh := h.destHeight
  have hdw := h.destWidth
  have hsw := h.sourceWidth
  have hsh := h.sourceHeight
  have hrot := h.rotated
  rw [hrotation] at hrot
  obtain ⟨hw, hh⟩ := Prod.mk.inj hrot
  obtain ⟨hc, hclt⟩ := h.column_mem t.x0 le_rfl hx
  obtain ⟨hclast, hcend⟩ := h.column_mem (t.x1 - 1) (by omega) (by omega)
  rw [hstraight (t.x1 - 1) (by omega) (by omega)] at hcend
  obtain ⟨hr, hrlt⟩ := h.row_mem y hy.1 hy.2
  obtain ⟨hstart, hend⟩ := hsource.row (by omega) hr (by omega)
  have hcount : toSize ((t.x1 - t.x0) * 4) = 4 * (t.x1 - t.x0) := toSize_pixels (by omega) (by omega)
  obtain ⟨bytes, hbytes, hlength, hread⟩ := peek_spec (b := source) (n := (4 * (t.x1 - t.x0)).toNat) 0
    (show 0 ≤ row y * ss + 4 * column t.x0 by omega) (by omega)
  have hall : (bytes.length : Int) = 4 * (t.x1 - t.x0) := by omega
  have hrow : toSize (y * ds) = y * ds := toSize_mul ⟨by omega, by omega⟩ ⟨by omega, hdsInt⟩
  obtain ⟨c, hcopied, hdrawn'⟩ := hdrawn.poke hds hdest (y := y) ⟨by omega, by omega⟩
    hacross.1 hacross.2.1 hacross.2.2 hall fun x' hlo hhi ↦ by
      simp only [sampled, turned_pictureOf, rowAddress, columnAddress, hrotation,
        hstraight x' hlo hhi]
      apply pixelAt_congr
      intro k hk hk4
      rw [hread _ (by omega) (by omega)]
      congr 1
      omega
  refine ⟨c, ?_, hdrawn'⟩
  rw [copyRow, h.load_row y hy.1 hy.2, h.load_column t.x0 le_rfl hx, hcount]
  simp only [Option.bind_eq_bind, Option.bind_some, toSize_of_mem hr (by omega),
    toSize_of_mem hc (by omega), toSize_mul ⟨hr, by omega⟩ ⟨by omega, hssInt⟩,
    toSize_pixels hc (by omega), toSize_pixels hacross.1 (by omega), hbytes, hrow]
  exact hcopied

/-- The straight copy draws the picture. -/
theorem Sound.draws_copyRows (hssInt : ss ≤ 2147483647) (hrotation : t.rotation = .k0)
    (hstraight : ∀ x, t.x0 ≤ x → x < t.x1 → column x = column t.x0 + (x - t.x0))
    (hx : t.x0 < t.x1) :
    Draws t.destWidth t.destHeight ds (t.sampled column row source ss) dest
      (fun dest ↦ forUp 1 t.y1 (t.copyRow source ss ds) t.y0 dest)
      (fun x y ↦ t.covers x y) := by
  have hdown := h.down
  have hdh := h.destHeight
  refine Draws.congr (fun x y ↦ (t.x0 ≤ x ∧ x < t.x1) ∧ t.y0 ≤ y ∧ y < t.y1) ?_
    fun x y _ _ ↦ covers_iff.symm
  apply Draws.forUp (fun y' x y ↦ (t.x0 ≤ x ∧ x < t.x1) ∧ t.y0 ≤ y ∧ y < y')
    (fun y' x y ↦ y = y' ∧ t.x0 ≤ x ∧ x < t.x1) Int.one_pos ⟨by omega, by omega⟩
    (by rw [loopEnd_one]; exact ⟨by omega, by omega⟩) hdown.2.1 (by omega) (by omega)
  intro y hlo hhi _
  exact h.draws_copyRow hss hds hdsInt hsource hdest hssInt hrotation hstraight hx ⟨hlo, hhi⟩

include hssInt in
/-- `blit` draws the picture, either way it copies. -/
theorem Sound.draws_blit (scratch : List Int × List Int) (halign : ds % 4 = 0)
    (htiles : t.x1 ≤ t.x0 ∨ loopEnd kTile t.y0 t.y1 ≤ 2147483647)
    (hidentity : t.identity = true → t.rotation = .k0 ∧
      ∀ x, t.x0 ≤ x → x < t.x1 → column x = column t.x0 + (x - t.x0)) :
    Draws t.destWidth t.destHeight ds (t.sampled column row source ss) dest
      (t.blit scratch source ss · ds) (fun x y ↦ t.covers x y) := by
  by_cases hnone : t.x1 ≤ t.x0 ∨ t.y1 ≤ t.y0
  · intro done after hdrawn
    refine ⟨after, if_pos (by simpa using hnone), hdrawn.congr fun x y _ _ ↦ ?_⟩
    have hempty : ¬ t.covers x y := fun hc ↦ by
      have := covers_iff.mp hc
      omega
    exact ⟨Or.inl, fun hd ↦ hd.resolve_right hempty⟩
  · have hsome : ∀ out, t.blit scratch source ss out ds = if t.identity then
        forUp 1 t.y1 (t.copyRow source ss ds) t.y0 out else
        t.copyTiles scratch source ss out ds := fun out ↦ if_neg (by simpa using hnone)
    simp only [hsome]
    cases hid : t.identity with
    | true =>
      obtain ⟨hrotation, hstraight⟩ := hidentity hid
      exact h.draws_copyRows hss hds hdsInt hsource hdest hssInt hrotation hstraight (by omega)
    | false =>
      exact h.draws_copyTiles hss hssInt hds hdsInt hsource hdest scratch halign (by omega)

end

end

end Tabled
end RotatedBlit
end WebLinked.Core
