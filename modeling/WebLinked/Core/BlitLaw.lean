import WebLinked.Core.BlitCopies

/-!
# The law of a blitted frame

A geometry whose placement fits `int` is the exact one, its limits lie in the display and its
tables sample the centre of each pixel.
-/

namespace WebLinked.Core.RotatedBlit

open WebLinked.Base WebLinked.Base.Buffer

/-- The centre of one of `w` spans lies in one of the `n` that cover the same length. -/
theorem centre_mem {i w n : Int} (hn : 0 < n) (hi : 0 ≤ i) (hlt : i < w) :
    0 ≤ ((2 * i + 1) * n).tdiv (2 * w) ∧ ((2 * i + 1) * n).tdiv (2 * w) < n := by
  have hpos : 0 ≤ (2 * i + 1) * n := Int.mul_nonneg (by omega) hn.le
  refine ⟨Int.tdiv_nonneg hpos (by omega), ?_⟩
  rw [Int.tdiv_eq_ediv_of_nonneg hpos, Int.ediv_lt_iff_lt_mul (by omega), Int.mul_comm n]
  exact Int.mul_lt_mul_of_pos_right (by omega) hn

/-- A length rounded to the nearest is not negative. -/
theorem scaled_nonneg {a b c : Int} (ha : 0 ≤ a) (hb : 0 ≤ b) (hc : 0 ≤ c) :
    0 ≤ (a * b + c.tdiv 2).tdiv c := by
  apply Int.tdiv_nonneg _ hc
  have := Int.mul_nonneg ha hb
  have := Int.tdiv_nonneg hc (show (0 : Int) ≤ 2 by decide)
  omega

/-- Half of a length, to the nearest. -/
theorem tdiv_two_mem (a : Int) : a - 1 ≤ 2 * a.tdiv 2 ∧ 2 * a.tdiv 2 ≤ a + 1 := by
  rcases Int.le_total 0 a with h | h
  · rw [Int.tdiv_eq_ediv_of_nonneg h]
    omega
  · obtain ⟨b, rfl⟩ : ∃ b, a = -b := ⟨-a, by omega⟩
    rw [Int.neg_tdiv, Int.tdiv_eq_ediv_of_nonneg (by omega)]
    omega

variable {sourceWidth sourceHeight destWidth destHeight : Int}

/-- A size that is not negative. -/
theorem clamped_mem {size : Int} (h : InInt32 size) :
    0 ≤ max size 0 ∧ max size 0 ≤ 2147483647 := by
  unfold InInt32 at h
  omega

/-- One axis of a placement that fits `int`: its position is the exact one, its limits lie in the
display, and its table has the line of the source at the centre of each pixel between them. -/
theorem axis_spec {d r w p : Int} (hd : 0 ≤ d ∧ d ≤ 2147483647) (hr : 0 < r ∧ r ≤ 2147483647)
    (hw : 0 ≤ w ∧ w ≤ 2147483647) (hp : (d - w).tdiv 2 = p) :
    toInt32 w = w ∧ toInt32 p = p ∧ add32 p w = some (p + w) ∧
      (0 ≤ max p 0 ∧ max p 0 ≤ min (p + w) d ∧ min (p + w) d ≤ d) ∧
      (∀ i, max p 0 ≤ i → i < min (p + w) d →
        0 ≤ min (((2 * (i - p) + 1) * r).tdiv (2 * w)) (r - 1) ∧
          min (((2 * (i - p) + 1) * r).tdiv (2 * w)) (r - 1) < r) ∧
      ∃ table, fill (max p 0) (min (p + w) d)
          (fun i ↦ (sub32 i p).bind fun inside ↦
            some (toInt32 (min (((2 * inside + 1) * r).tdiv (2 * w)) (r - 1))))
          (List.replicate d.toNat 0) = some table ∧
        ∀ i, max p 0 ≤ i → i < min (p + w) d →
          load table i = some (min (((2 * (i - p) + 1) * r).tdiv (2 * w)) (r - 1)) := by
  have hhalf := tdiv_two_mem (d - w)
  rw [hp] at hhalf
  have hint : ∀ x, -2147483648 ≤ x → x ≤ 2147483647 → InInt32 x := fun x hlo hhi ↦ ⟨hlo, hhi⟩
  have hlimits : 0 ≤ max p 0 ∧ max p 0 ≤ min (p + w) d ∧ min (p + w) d ≤ d := by omega
  have hmem : ∀ i, max p 0 ≤ i → i < min (p + w) d →
      0 ≤ min (((2 * (i - p) + 1) * r).tdiv (2 * w)) (r - 1) ∧
        min (((2 * (i - p) + 1) * r).tdiv (2 * w)) (r - 1) < r := by
    intro i hlo hhi
    have hcentre := centre_mem (i := i - p) (w := w) hr.1 (by omega) (by omega)
    omega
  refine ⟨toInt32_of_mem (hint w (by omega) hw.2), toInt32_of_mem (hint p (by omega) (by omega)),
    add32_of_mem (hint (p + w) (by omega) (by omega)), hlimits, hmem, ?_⟩
  obtain ⟨table, htable, -, hload⟩ := fill_spec (List.replicate d.toNat 0)
    (f := fun i ↦ (sub32 i p).bind fun inside ↦
      some (toInt32 (min (((2 * inside + 1) * r).tdiv (2 * w)) (r - 1))))
    (fun i ↦ min (((2 * (i - p) + 1) * r).tdiv (2 * w)) (r - 1)) hlimits.1 hlimits.2.1
    (by rw [List.length_replicate]; omega) (by omega) fun i hlo hhi ↦ by
      have hvalue := hmem i hlo hhi
      rw [sub32_of_mem (hint (i - p) (by omega) (by omega)), Option.bind_some,
        toInt32_of_mem (hint _ (by omega) (by omega))]
  exact ⟨table, htable, hload⟩

/-- Where the placement fits `int`, the tables are built, and the geometry is the exact one. -/
theorem Tabled.configure_spec (rotation : BlitRotation) (fit : BlitFit)
    (hsw : InInt32 sourceWidth) (hsh : InInt32 sourceHeight)
    (hdw : InInt32 destWidth) (hdh : InInt32 destHeight)
    (hfits : (RotatedBlit.configure sourceWidth sourceHeight destWidth destHeight rotation
        fit).placement.width ≤ 2147483647 ∧
      (RotatedBlit.configure sourceWidth sourceHeight destWidth destHeight rotation
        fit).placement.height ≤ 2147483647) :
    ∃ t, Tabled.configure sourceWidth sourceHeight destWidth destHeight rotation fit = some t ∧
      t.toRotatedBlit =
        RotatedBlit.configure sourceWidth sourceHeight destWidth destHeight rotation fit ∧
      t.Sound t.toRotatedBlit.columnOf t.toRotatedBlit.rowOf := by
  have hsw := clamped_mem hsw
  have hsh := clamped_mem hsh
  have hdw := clamped_mem hdw
  have hdh := clamped_mem hdh
  unfold RotatedBlit.configure at *
  unfold Tabled.configure
  dsimp only at *
  generalize hsw' : max sourceWidth 0 = sw at *
  generalize hsh' : max sourceHeight 0 = sh at *
  generalize hdw' : max destWidth 0 = dw at *
  generalize hdh' : max destHeight 0 = dh at *
  generalize hrw' : (if (decide (rotation = .k90) || decide (rotation = .k270)) = true then sh
    else sw) = rw at *
  generalize hrh' : (if (decide (rotation = .k90) || decide (rotation = .k270)) = true then sw
    else sh) = rh at *
  generalize hw : (if (decide (fit = BlitFit.kStretch) ||
    decide (decide (fit = BlitFit.kFit) = decide (rw * dh > dw * rh))) = true then dw
    else (rw * dh + rh.tdiv 2).tdiv rh) = w at *
  generalize hh : (if (decide (fit = BlitFit.kStretch) ||
    !decide (decide (fit = BlitFit.kFit) = decide (rw * dh > dw * rh))) = true then dh
    else (rh * dw + rw.tdiv 2).tdiv rw) = h at *
  have hrot : (rw, rh) = turnedSize rotation sw sh := by
    subst hrw' hrh'
    cases rotation <;> rfl
  have hrw : 0 ≤ rw ∧ rw ≤ 2147483647 := by
    subst hrw'
    split <;> omega
  have hrh : 0 ≤ rh ∧ rh ≤ 2147483647 := by
    subst hrh'
    split <;> omega
  split
  · have hnone : ∀ {P : Int → Prop} (x : Int), 0 ≤ x → x < 0 → P x := fun x hlo hhi ↦ by omega
    exact ⟨_, rfl, rfl, hsw, hsh, hdw, hdh, hrot, ⟨le_rfl, le_rfl, hdw.1⟩,
      ⟨le_rfl, le_rfl, hdh.1⟩, hnone, hnone, hnone, hnone⟩
  · next hblank =>
    rw [if_neg hblank] at hfits
    dsimp only at hfits
    simp only [Bool.or_eq_true, decide_eq_true_eq] at hblank
    have hwpos : 0 ≤ w := by
      subst hw
      split
      · omega
      · exact scaled_nonneg hrw.1 (by omega) hrh.1
    have hhpos : 0 ≤ h := by
      subst hh
      split
      · omega
      · exact scaled_nonneg hrh.1 (by omega) hrw.1
    clear hw hh
    generalize hpx : (dw - w).tdiv 2 = px at *
    generalize hpy : (dh - h).tdiv 2 = py at *
    obtain ⟨hwidth, hx, hxw, hacross, hcolumnMem, columns, hcolumns, hloadColumn⟩ :=
      axis_spec (r := rw) hdw (by omega) ⟨hwpos, by omega⟩ hpx
    obtain ⟨hheight, hy, hyh, hdown, hrowMem, rows, hrows, hloadRow⟩ :=
      axis_spec (r := rh) hdh (by omega) ⟨hhpos, by omega⟩ hpy
    simp only [hwidth, hx, hxw, hheight, hy, hyh, Option.bind_eq_bind, Option.bind_some]
    simp only [pure] at *
    rw [hcolumns, Option.bind_some, hrows, Option.bind_some]
    exact ⟨_, rfl, rfl, hsw, hsh, hdw, hdh, hrot, hacross, hdown, hloadColumn, hcolumnMem,
      hloadRow, hrowMem⟩

/-- A geometry as its placement says. -/
structure Placed (r : RotatedBlit) : Prop where
  destWidth : 0 ≤ r.destWidth
  destHeight : 0 ≤ r.destHeight
  width : 0 ≤ r.placement.width
  height : 0 ≤ r.placement.height
  x0 : r.x0 = max r.placement.x 0
  x1 : r.x1 = min (r.placement.x + r.placement.width) r.destWidth
  y0 : r.y0 = max r.placement.y 0
  y1 : r.y1 = min (r.placement.y + r.placement.height) r.destHeight
  upright : r.identity = true → r.rotation = .k0 ∧ r.placement.width = r.rotatedWidth ∧
    r.placement.height = r.rotatedHeight

/-- Every geometry is as its placement says. -/
theorem configure_placed (sourceWidth sourceHeight destWidth destHeight : Int)
    (rotation : BlitRotation) (fit : BlitFit) :
    (configure sourceWidth sourceHeight destWidth destHeight rotation fit).Placed := by
  have hdw := Int.le_max_right destWidth 0
  have hdh := Int.le_max_right destHeight 0
  have hsw := Int.le_max_right sourceWidth 0
  have hsh := Int.le_max_right sourceHeight 0
  have hrw : 0 ≤ (if (decide (rotation = .k90) || decide (rotation = .k270)) = true
      then max sourceHeight 0 else max sourceWidth 0) := by
    split <;> assumption
  have hrh : 0 ≤ (if (decide (rotation = .k90) || decide (rotation = .k270)) = true
      then max sourceWidth 0 else max sourceHeight 0) := by
    split <;> assumption
  unfold configure
  dsimp only
  generalize (if (decide (rotation = .k90) || decide (rotation = .k270)) = true
      then max sourceHeight 0 else max sourceWidth 0) = rw at *
  generalize (if (decide (rotation = .k90) || decide (rotation = .k270)) = true
      then max sourceWidth 0 else max sourceHeight 0) = rh at *
  split
  · refine ⟨hdw, hdh, le_rfl, le_rfl, rfl, ?_, rfl, ?_, nofun⟩
    · exact (Int.min_eq_left hdw).symm
    · exact (Int.min_eq_left hdh).symm
  · refine ⟨hdw, hdh, ?_, ?_, rfl, rfl, rfl, rfl, fun hidentity ↦ ?_⟩
    · dsimp only
      split
      · exact hdw
      · exact scaled_nonneg hrw hdh hrh
    · dsimp only
      split
      · exact hdh
      · exact scaled_nonneg hrh hdw hrw
    · simp only [Bool.and_eq_true, decide_eq_true_eq] at hidentity
      exact ⟨hidentity.1.1, hidentity.1.2, hidentity.2⟩

/-- The sizes of a geometry are those it was configured for. -/
theorem configure_sizes (sourceWidth sourceHeight destWidth destHeight : Int)
    (rotation : BlitRotation) (fit : BlitFit) :
    let r := configure sourceWidth sourceHeight destWidth destHeight rotation fit
    r.sourceWidth = max sourceWidth 0 ∧ r.sourceHeight = max sourceHeight 0 ∧
      r.destWidth = max destWidth 0 ∧ r.destHeight = max destHeight 0 := by
  unfold configure
  dsimp only
  generalize (if (decide (rotation = .k90) || decide (rotation = .k270)) = true
      then max sourceHeight 0 else max sourceWidth 0) = rw
  generalize (if (decide (rotation = .k90) || decide (rotation = .k270)) = true
      then max sourceWidth 0 else max sourceHeight 0) = rh
  split <;> exact ⟨rfl, rfl, rfl, rfl⟩

section

variable {r : RotatedBlit} {x y : Int}

/-- A display pixel is covered where it lies in the placement. -/
theorem Placed.covers_iff (h : r.Placed) (hx : 0 ≤ x ∧ x < r.destWidth)
    (hy : 0 ≤ y ∧ y < r.destHeight) :
    r.covers x y = true ↔
      (r.placement.x ≤ x ∧ x < r.placement.x + r.placement.width) ∧
        r.placement.y ≤ y ∧ y < r.placement.y + r.placement.height := by
  simp only [covers, Bool.and_eq_true, decide_eq_true_eq, h.x0, h.x1, h.y0, h.y1]
  omega

/-- The column shown is the one at the pixel's centre. -/
theorem Placed.columnOf_eq (h : r.Placed) (hpos : 0 < r.rotatedWidth) (hlo : r.x0 ≤ x)
    (hhi : x < r.x1) :
    r.columnOf x =
      (2 * (x - r.placement.x) + 1) * r.rotatedWidth / (2 * r.placement.width) := by
  have hx0 := h.x0
  have hx1 := h.x1
  have hmem := centre_mem (i := x - r.placement.x) (w := r.placement.width) hpos (by omega) (by omega)
  rw [columnOf, Int.min_eq_left (by omega), Int.tdiv_eq_ediv_of_nonneg]
  exact Int.mul_nonneg (by omega) hpos.le

/-- The row shown is the one at the pixel's centre. -/
theorem Placed.rowOf_eq (h : r.Placed) (hpos : 0 < r.rotatedHeight) (hlo : r.y0 ≤ y)
    (hhi : y < r.y1) :
    r.rowOf y =
      (2 * (y - r.placement.y) + 1) * r.rotatedHeight / (2 * r.placement.height) := by
  have hy0 := h.y0
  have hy1 := h.y1
  have hmem := centre_mem (i := y - r.placement.y) (w := r.placement.height) hpos (by omega) (by omega)
  rw [rowOf, Int.min_eq_left (by omega), Int.tdiv_eq_ediv_of_nonneg]
  exact Int.mul_nonneg (by omega) hpos.le

/-- The columns of an upright picture of the same size follow each other. -/
theorem Placed.columnOf_straight (h : r.Placed) (hidentity : r.identity = true)
    (hpos : 0 < r.rotatedWidth) (hlo : r.x0 ≤ x) (hhi : x < r.x1) :
    r.columnOf x = x - r.placement.x := by
  obtain ⟨-, hwidth, -⟩ := h.upright hidentity
  rw [h.columnOf_eq hpos hlo hhi, hwidth, Int.mul_ediv_mul_of_pos_left _ _ hpos]
  omega

/-- Where the tables say, the source is the turned picture's pixel. -/
theorem Placed.sample_eq (h : r.Placed) (hpos : 0 < r.rotatedWidth) (p : Picture)
    (hlo : r.x0 ≤ x) (hhi : x < r.x1) :
    r.sample p x y = r.turned p (r.columnOf x) (r.rowOf y) := by
  rw [sample]
  split
  · next hid =>
    have hcolumn : r.columnOf r.x0 + (x - r.x0) = r.columnOf x := by
      rw [h.columnOf_straight hid hpos le_rfl (by omega), h.columnOf_straight hid hpos hlo hhi]
      omega
    rw [hcolumn, turned, (h.upright hid).1]
  · have hback : r.sourceHeight - 1 - (r.sourceHeight - 1 - r.columnOf x) = r.columnOf x := by
      omega
    cases hrotation : r.rotation <;> simp only [turned, hrotation, quarterTurn, hback]

end

/-! ## Bars, picture, and every other byte -/

namespace Tabled

/-- What `clearBars` and then `blit` leave in the display's buffer. -/
structure FrameLaw (t : Tabled) (source : List UInt8) (sourceRowBytes : Int)
    (dest out : List UInt8) (destRowBytes : Int) : Prop where
  length : out.length = dest.length
  bars : ∀ x y, (0 ≤ x ∧ x < t.destWidth) → (0 ≤ y ∧ y < t.destHeight) →
    ¬ ((t.placement.x ≤ x ∧ x < t.placement.x + t.placement.width) ∧
      t.placement.y ≤ y ∧ y < t.placement.y + t.placement.height) →
    pictureOf out destRowBytes x y = {}
  picture : ∀ x y, (0 ≤ x ∧ x < t.destWidth) → (0 ≤ y ∧ y < t.destHeight) →
    ((t.placement.x ≤ x ∧ x < t.placement.x + t.placement.width) ∧
      t.placement.y ≤ y ∧ y < t.placement.y + t.placement.height) →
    pictureOf out destRowBytes x y = t.turned (pictureOf source sourceRowBytes)
      ((2 * (x - t.placement.x) + 1) * t.rotatedWidth / (2 * t.placement.width))
      ((2 * (y - t.placement.y) + 1) * t.rotatedHeight / (2 * t.placement.height))
  rest : ∀ i, ¬ IsPixelByte t.destWidth t.destHeight destRowBytes i →
    read out 0 i = read dest 0 i

/-- For all buffers, a frame of these sizes is drawn with every access in bounds, as the law says,
and the same by either copy. -/
def Lawful (sourceWidth sourceHeight destWidth destHeight : Int) (rotation : BlitRotation)
    (fit : BlitFit) : Prop :=
  ∀ (scratch : List Int × List Int) (source dest : List UInt8) (sourceRowBytes destRowBytes : Int),
    4 * max sourceWidth 0 ≤ sourceRowBytes → sourceRowBytes ≤ 2147483647 →
    4 * max destWidth 0 ≤ destRowBytes → destRowBytes ≤ 2147483647 → destRowBytes % 4 = 0 →
    Holds source (max sourceWidth 0) (max sourceHeight 0) sourceRowBytes →
    Holds dest (max destWidth 0) (max destHeight 0) destRowBytes →
    ∃ t cleared out,
      configure sourceWidth sourceHeight destWidth destHeight rotation fit = some t ∧
      t.clearBars dest destRowBytes = some cleared ∧
      t.blit scratch source sourceRowBytes cleared destRowBytes = some out ∧
      t.FrameLaw source sourceRowBytes dest out destRowBytes ∧
      (t.identity = true → ∀ scratch',
        { t with identity := false }.blit scratch' source sourceRowBytes cleared destRowBytes =
          some out)

/-- The placement and the end of the last row of tiles are of type `int`. -/
structure FitsInt (r : RotatedBlit) : Prop where
  width : r.placement.width ≤ 2147483647
  height : r.placement.height ≤ 2147483647
  tiles : r.x1 ≤ r.x0 ∨ loopEnd kTile r.y0 r.y1 ≤ 2147483647

/-- A display drawn in two passes. -/
theorem FrameLaw.of_drawn {t : Tabled} {source dest cleared out : List UInt8} {ss ds : Int}
    (hplaced : t.Placed) (hsound : t.Sound t.toRotatedBlit.columnOf t.toRotatedBlit.rowOf)
    (hbars : Drawn t.destWidth t.destHeight ds (fun _ _ ↦ {}) dest
      (fun x y ↦ ¬ t.covers x y) cleared)
    (hpicture : Drawn t.destWidth t.destHeight ds
      (t.sampled t.toRotatedBlit.columnOf t.toRotatedBlit.rowOf source ss) cleared
      (fun x y ↦ t.covers x y) out) :
    t.FrameLaw source ss dest out ds where
  length := hpicture.length.trans hbars.length
  bars := by
    intro x y hx hy hout
    have hcovers : ¬ t.covers x y := fun hc ↦ hout ((hplaced.covers_iff hx hy).mp hc)
    rw [hpicture.kept x y hx hy hcovers, hbars.shown x y hx hy hcovers]
  picture := by
    intro x y hx hy hin
    have hcovers := (hplaced.covers_iff hx hy).mpr hin
    obtain ⟨⟨hxlo, hxhi⟩, hylo, hyhi⟩ := RotatedBlit.Tabled.covers_iff.mp hcovers
    have hc := hsound.column_mem x hxlo hxhi
    have hr := hsound.row_mem y hylo hyhi
    rw [hpicture.shown x y hx hy hcovers, sampled, hplaced.columnOf_eq (by omega) hxlo hxhi,
      hplaced.rowOf_eq (by omega) hylo hyhi]
  rest := by
    intro i hi
    rw [hpicture.rest i hi, hbars.rest i hi]

/-- A frame is drawn as the law says, whatever the sizes, the rotation and the fit, where the
placement and the tiles stay within `int`. -/
theorem lawful_of_fitsInt {sourceWidth sourceHeight destWidth destHeight : Int}
    (rotation : BlitRotation) (fit : BlitFit) (hsw : InInt32 sourceWidth)
    (hsh : InInt32 sourceHeight) (hdw : InInt32 destWidth) (hdh : InInt32 destHeight)
    (hfits : FitsInt
      (RotatedBlit.configure sourceWidth sourceHeight destWidth destHeight rotation fit)) :
    Lawful sourceWidth sourceHeight destWidth destHeight rotation fit := by
  intro scratch source dest ss ds hss hssInt hds hdsInt halign hsource hdest
  obtain ⟨t, ht, hgeometry, hsound⟩ := configure_spec rotation fit hsw hsh hdw hdh ⟨hfits.width, hfits.height⟩
  have hplaced := configure_placed sourceWidth sourceHeight destWidth destHeight rotation fit
  have hsizes : t.sourceWidth = max sourceWidth 0 ∧ t.sourceHeight = max sourceHeight 0 ∧
      t.destWidth = max destWidth 0 ∧ t.destHeight = max destHeight 0 := by
    rw [hgeometry]
    exact configure_sizes sourceWidth sourceHeight destWidth destHeight rotation fit
  rw [← hgeometry] at hplaced hfits
  rw [← hsizes.1] at hss
  rw [← hsizes.2.2.1] at hds
  rw [← hsizes.1, ← hsizes.2.1] at hsource
  rw [← hsizes.2.2.1, ← hsizes.2.2.2] at hdest
  have hstraight : t.identity = true → t.rotation = .k0 ∧ ∀ x, t.x0 ≤ x → x < t.x1 →
      t.toRotatedBlit.columnOf x = t.toRotatedBlit.columnOf t.x0 + (x - t.x0) := by
    intro hid
    refine ⟨(hplaced.upright hid).1, fun x hlo hhi ↦ ?_⟩
    have hc := hsound.column_mem x hlo hhi
    rw [hplaced.columnOf_straight hid (by omega) hlo hhi,
      hplaced.columnOf_straight hid (by omega) le_rfl (by omega)]
    omega
  obtain ⟨cleared, hcleared, hbars⟩ := (hsound.draws_clearBars hds hdsInt hdest).drawn
  have hheld : Holds cleared t.destWidth t.destHeight ds := by
    rwa [Holds, hbars.length]
  obtain ⟨out, hout, hpicture⟩ := (hsound.draws_blit hss hssInt hds hdsInt hsource hheld scratch
    halign hfits.tiles hstraight).drawn
  refine ⟨t, cleared, out, ht, hcleared, hout, .of_drawn hplaced hsound hbars hpicture, ?_⟩
  intro hid scratch'
  have hsound' : Sound { t with identity := false } t.toRotatedBlit.columnOf
      t.toRotatedBlit.rowOf :=
    ⟨hsound.sourceWidth, hsound.sourceHeight, hsound.destWidth, hsound.destHeight, hsound.rotated,
      hsound.across, hsound.down, hsound.load_column, hsound.column_mem, hsound.load_row,
      hsound.row_mem⟩
  obtain ⟨out', hout', hpicture'⟩ := (hsound'.draws_blit hss hssInt hds hdsInt hsource hheld
    scratch' halign hfits.tiles nofun).drawn
  rw [hout', hpicture'.unique hpicture]

/-- Read as pictures, the blit on bytes is the blit on pictures. -/
theorem pictureOf_blit {t : Tabled} {source dest out : List UInt8} {ss ds : Int} (ht : t.Placed)
    (hsound : t.Sound t.toRotatedBlit.columnOf t.toRotatedBlit.rowOf)
    (hdrawn : Drawn t.destWidth t.destHeight ds
      (t.sampled t.toRotatedBlit.columnOf t.toRotatedBlit.rowOf source ss) dest
      (fun x y ↦ t.covers x y) out) {x y : Int} (hx : 0 ≤ x ∧ x < t.destWidth)
    (hy : 0 ≤ y ∧ y < t.destHeight) :
    pictureOf out ds x y =
      t.toRotatedBlit.blit (pictureOf source ss) (pictureOf dest ds) x y := by
  rw [RotatedBlit.blit]
  split
  · next hcovers =>
    obtain ⟨⟨hlo, hhi⟩, -⟩ := RotatedBlit.Tabled.covers_iff.mp hcovers
    have hc := hsound.column_mem x hlo hhi
    rw [hdrawn.shown x y hx hy hcovers, sampled, ht.sample_eq (by omega) _ hlo hhi]
  · next hcovers => exact hdrawn.kept x y hx hy hcovers

/-- Two pixels side by side, turned onto a display of one column. -/
theorem lawful_of_fitsInt_two : ∃ t cleared out,
    configure 2 1 1 2 .k90 .kFit = some t ∧
    t.clearBars (List.replicate 8 9) 4 = some cleared ∧
    t.blit ([], []) [1, 2, 3, 4, 5, 6, 7, 8] 8 cleared 4 = some out ∧
    t.FrameLaw [1, 2, 3, 4, 5, 6, 7, 8] 8 (List.replicate 8 9) out 4 ∧
    (t.identity = true → ∀ scratch',
      { t with identity := false }.blit scratch' [1, 2, 3, 4, 5, 6, 7, 8] 8 cleared 4 =
        some out) :=
  lawful_of_fitsInt .k90 .kFit (by decide) (by decide) (by decide) (by decide)
    ⟨by decide, by decide, by decide⟩ ([], []) [1, 2, 3, 4, 5, 6, 7, 8] (List.replicate 8 9) 8 4
    (by decide) (by decide) (by decide) (by decide) (by decide) (fun _ ↦ by decide)
    fun _ ↦ by decide

/-- The tables of a column of 10⁹ pixels that fills a display of ten by one, which makes it 10¹⁰
rows high: the placement wraps, and the display's row shows row 70503270, not row 499999999. -/
def wrapped : Tabled where
  sourceWidth := 1
  sourceHeight := 1000000000
  destWidth := 10
  destHeight := 1
  rotatedWidth := 1
  rotatedHeight := 1000000000
  placement := { x := 0, y := -705032703, width := 10, height := 1410065408 }
  x1 := 10
  y1 := 1
  columnOf := List.replicate 10 0
  rowOf := [70503270]

/-- Bytes of which the first are zero and the rest one. -/
def twoShades (dark light : Nat) : List UInt8 := List.replicate dark 0 ++ List.replicate light 1

theorem read_twoShades (dark light : Nat) (i : Int) :
    Buffer.read (twoShades dark light) 0 i = if dark ≤ i ∧ i < dark + light then 1 else 0 := by
  unfold Buffer.read
  rw [twoShades, List.getD_eq_getElem?_getD]
  rcases lt_or_ge i 0 with hneg | hpos
  · rw [if_neg (by omega), if_neg (by omega)]
  · rw [if_pos hpos, List.getElem?_append, List.getElem?_replicate, List.getElem?_replicate,
      List.length_replicate]
    split_ifs <;> first | rfl | omega

theorem wrapped_sound : wrapped.Sound (fun _ ↦ 0) (fun _ ↦ 70503270) := by
  refine ⟨by decide, by decide, by decide, by decide, by decide, by decide, by decide,
    fun x hlo hhi ↦ ?_, fun _ _ _ ↦ by decide, fun y hlo hhi ↦ ?_, fun _ _ _ ↦ by decide⟩
  · change 0 ≤ x at hlo
    change x < 10 at hhi
    rw [wrapped, load_eq_read 0 hlo (by rw [List.length_replicate]; exact hhi), read_replicate]
  · obtain rfl : y = 0 := by
      change 0 ≤ y at hlo
      change y < 1 at hhi
      omega
    rfl

/-- A placement that is too high for `int` wraps, and the tables sample the wrong row. -/
theorem not_lawful_high : ¬ Lawful 1 1000000000 10 1 .k0 .kFill := by
  intro hlawful
  have hholds : Holds (twoShades 282013084 3717986916) 1 1000000000 4 := by
    intro _
    rw [twoShades, List.length_append, List.length_replicate, List.length_replicate]
    decide
  have hdest : Holds (List.replicate 40 (0 : UInt8)) 10 1 40 := fun _ ↦ by decide
  obtain ⟨t, cleared, out, ht, hcleared, hout, hlaw, -⟩ := hlawful ([], []) _ _ 4 40 (by decide)
    (by decide) (by decide) (by decide) (by decide) hholds hdest
  have htables : configure 1 1000000000 10 1 .k0 .kFill = some wrapped := by decide +kernel
  obtain rfl := Option.some.inj (htables.symm.trans ht)
  obtain ⟨_, hcleared', hbars⟩ :=
    (wrapped_sound.draws_clearBars (by decide) (by decide) hdest).drawn
  obtain rfl := Option.some.inj (hcleared.symm.trans hcleared')
  have hheld : Holds cleared 10 1 40 := by
    rw [Holds, hbars.length]
    exact hdest
  obtain ⟨_, hout', hpicture⟩ := (wrapped_sound.draws_blit (show 4 * 1 ≤ 4 by decide)
    (by decide) (show 4 * 10 ≤ 40 by decide) (by decide) hholds hheld ([], []) (by decide)
    (.inr (by decide)) nofun).drawn
  obtain rfl := Option.some.inj (hout.symm.trans hout')
  have hshown := hpicture.shown 0 0 (by decide) (by decide) (by decide)
  have hcolumn : (2 * (0 - wrapped.placement.x) + 1) * wrapped.rotatedWidth /
      (2 * wrapped.placement.width) = 0 := by decide
  have hrow : (2 * (0 - wrapped.placement.y) + 1) * wrapped.rotatedHeight /
      (2 * wrapped.placement.height) = 499999999 := by decide
  rw [hlaw.picture 0 0 (by decide) (by decide) (by decide), hcolumn, hrow] at hshown
  -- The picture is upright, so the two rows of the source are the same there.
  have hupright : ∀ p, wrapped.turned p = p := fun _ ↦ rfl
  have hblue : ∀ b rowBytes x y, (pictureOf b rowBytes x y).blue =
      Buffer.read b 0 (y * rowBytes + 4 * x) := fun _ _ _ _ ↦ rfl
  rw [sampled, hupright] at hshown
  have hsame := congrArg Pixel.blue hshown
  rw [hblue, hblue, read_twoShades, read_twoShades, if_pos (by decide), if_neg (by decide)] at hsame
  exact absurd hsame (by decide)

/-- The last tiles of a display whose rows nearly fill `int` have no end. -/
theorem not_lawful_tall : ¬ Lawful 1 1 1 2147483647 .k0 .kStretch := by
  intro hlawful
  have hsource : Holds (List.replicate 4 (0 : UInt8)) (max 1 0) (max 1 0) 4 := fun _ ↦ by decide
  have hdest : Holds (List.replicate 8589934588 (0 : UInt8)) (max 1 0) (max 2147483647 0) 4 := by
    intro _
    rw [List.length_replicate]
    decide
  obtain ⟨t, cleared, out, ht, -, hout, -, -⟩ := hlawful ([], []) _ _ 4 4 (by decide) (by decide)
    (by decide) (by decide) (by decide) hsource hdest
  obtain ⟨t', ht', hgeometry, -⟩ := configure_spec .k0 .kStretch
    (show InInt32 1 by decide) (show InInt32 1 by decide) (show InInt32 1 by decide)
    (show InInt32 2147483647 by decide) (by decide)
  obtain rfl := Option.some.inj (ht.symm.trans ht')
  have hx : t.x0 = 0 ∧ t.x1 = 1 ∧ t.y0 = 0 ∧ t.y1 = 2147483647 ∧ t.identity = false := by
    rw [hgeometry]
    decide
  obtain ⟨hx0, hx1, hy0, hy1, hid⟩ := hx
  rw [blit, if_neg (by simp [hx0, hx1, hy0, hy1]), if_neg (by simp [hid]), copyTiles] at hout
  obtain ⟨xOffset, -, hout⟩ := Option.bind_eq_some_iff.mp hout
  obtain ⟨yOffset, -, hout⟩ := Option.bind_eq_some_iff.mp hout
  obtain ⟨k, hk, hint⟩ := exists_end_of_forUp (by decide) (by rw [hy0]; decide) hout
  rw [hy0, hy1, kTile] at hk
  rw [hy0, kTile, InInt32] at hint
  omega

/-- Not every frame of `int` sizes is drawn as the law says. -/
theorem not_lawful : ¬ ∀ (sourceWidth sourceHeight destWidth destHeight : Int)
    (rotation : BlitRotation) (fit : BlitFit), InInt32 sourceWidth → InInt32 sourceHeight →
    InInt32 destWidth → InInt32 destHeight →
    Lawful sourceWidth sourceHeight destWidth destHeight rotation fit :=
  fun hall ↦ not_lawful_high
    (hall 1 1000000000 10 1 .k0 .kFill (by decide) (by decide) (by decide) (by decide))

end Tabled
end WebLinked.Core.RotatedBlit
