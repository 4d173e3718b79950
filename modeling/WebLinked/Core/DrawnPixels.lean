import WebLinked.Base.Buffer
import WebLinked.Core.PixelConvert

/-!
# Pixels drawn into a buffer

Bytes are read as a picture. A buffer is *drawn* up to a set of pixels when these have their
new value and every other byte is the old one. A write draws a run of pixels of one row, and a
loop draws what its iterations draw.
-/

namespace WebLinked.Core

open WebLinked.Base WebLinked.Base.Buffer

/-- The pixel whose bytes start at an address. -/
def pixelAt (b : List UInt8) (start : Int) : Pixel where
  blue := read b 0 start
  green := read b 0 (start + 1)
  red := read b 0 (start + 2)
  alpha := read b 0 (start + 3)

/-- The picture that bytes hold, with `rowBytes` from one row to the next. -/
def pictureOf (b : List UInt8) (rowBytes : Int) : Picture := fun x y ↦
  pixelAt b (y * rowBytes + 4 * x)

/-- Every pixel of a picture is in the buffer. -/
def Holds (b : List UInt8) (width height rowBytes : Int) : Prop :=
  0 < height → (height - 1) * rowBytes + 4 * width ≤ b.length

/-- The byte belongs to a pixel of the picture. -/
def IsPixelByte (width height rowBytes i : Int) : Prop :=
  ∃ x y k, (0 ≤ x ∧ x < width) ∧ (0 ≤ y ∧ y < height) ∧ (0 ≤ k ∧ k < 4) ∧
    i = y * rowBytes + 4 * x + k

/-- `after` is `before` with the pixels of `done` drawn. -/
structure Drawn (width height rowBytes : Int) (value : Picture) (before : List UInt8)
    (done : Int → Int → Prop) (after : List UInt8) : Prop where
  length : after.length = before.length
  shown : ∀ x y, (0 ≤ x ∧ x < width) → (0 ≤ y ∧ y < height) → done x y →
    pictureOf after rowBytes x y = value x y
  kept : ∀ x y, (0 ≤ x ∧ x < width) → (0 ≤ y ∧ y < height) → ¬ done x y →
    pictureOf after rowBytes x y = pictureOf before rowBytes x y
  rest : ∀ i, ¬ IsPixelByte width height rowBytes i → read after 0 i = read before 0 i

section Buffers

variable {width height rowBytes x y lo hi : Int} {b before after bytes : List UInt8}
  {value : Picture} {done done' : Int → Int → Prop}

/-- A row is over before the next one starts. -/
theorem row_le (hrow : 0 ≤ rowBytes) (h : y < x) : y * rowBytes + rowBytes ≤ x * rowBytes := by
  have := Int.mul_le_mul_of_nonneg_right (show y + 1 ≤ x by omega) hrow
  rwa [Int.add_mul, Int.one_mul] at this

/-- Each row of a picture is in its buffer. -/
theorem Holds.row (h : Holds b width height rowBytes) (hrow : 0 ≤ rowBytes) (hy : 0 ≤ y)
    (hlt : y < height) : 0 ≤ y * rowBytes ∧ y * rowBytes + 4 * width ≤ b.length := by
  have hlast := Int.mul_le_mul_of_nonneg_right (show y ≤ height - 1 by omega) hrow
  have hall := h (by omega)
  exact ⟨Int.mul_nonneg hy hrow, by omega⟩

theorem pixelAt_congr {start start' : Int} {b' : List UInt8}
    (h : ∀ k, 0 ≤ k → k < 4 → read b 0 (start + k) = read b' 0 (start' + k)) :
    pixelAt b start = pixelAt b' start' := by
  have h0 := h 0 (by omega) (by omega)
  rw [Int.add_zero, Int.add_zero] at h0
  simp only [pixelAt, h0, h 1 (by omega) (by omega), h 2 (by omega) (by omega),
    h 3 (by omega) (by omega)]

theorem Drawn.refl : Drawn width height rowBytes value before (fun _ _ ↦ False) before where
  length := rfl
  shown := fun _ _ _ _ ↦ False.elim
  kept := fun _ _ _ _ _ ↦ rfl
  rest := fun _ _ ↦ rfl

theorem Drawn.congr (h : Drawn width height rowBytes value before done after)
    (hdone : ∀ x y, (0 ≤ x ∧ x < width) → (0 ≤ y ∧ y < height) → (done x y ↔ done' x y)) :
    Drawn width height rowBytes value before done' after where
  length := h.length
  shown := fun x y hx hy hd ↦ h.shown x y hx hy ((hdone x y hx hy).mpr hd)
  kept := fun x y hx hy hd ↦ h.kept x y hx hy (fun hd' ↦ hd ((hdone x y hx hy).mp hd'))
  rest := h.rest

/-- Writing the pixels from column `lo` to column `hi` of a row. -/
theorem Drawn.poke (h : Drawn width height rowBytes value before done after)
    (hwidth : 4 * width ≤ rowBytes) (hholds : Holds before width height rowBytes)
    (hy : 0 ≤ y ∧ y < height) (hlo : 0 ≤ lo) (hle : lo ≤ hi) (hhi : hi ≤ width)
    (hlength : (bytes.length : Int) = 4 * (hi - lo))
    (hvalue : ∀ x, lo ≤ x → x < hi → pixelAt bytes (4 * (x - lo)) = value x y) :
    ∃ c, poke after (y * rowBytes + 4 * lo) bytes = some c ∧
      Drawn width height rowBytes value before
        (fun x' y' ↦ done x' y' ∨ y' = y ∧ lo ≤ x' ∧ x' < hi) c := by
  have hrow : 0 ≤ rowBytes := by omega
  obtain ⟨hstart, hend⟩ := hholds.row hrow hy.1 hy.2
  have hsame := h.length
  obtain ⟨c, hc, hclength, hread⟩ :=
    poke_spec after bytes (show 0 ≤ y * rowBytes + 4 * lo by omega) (by omega)
  -- The bytes of any other pixel are outside the run.
  have houtside : ∀ x' y', (0 ≤ x' ∧ x' < width) → ¬ (y' = y ∧ lo ≤ x' ∧ x' < hi) →
      pictureOf c rowBytes x' y' = pictureOf after rowBytes x' y' := by
    intro x' y' hx' hne
    apply pixelAt_congr
    intro k hk hk4
    rw [hread, if_neg]
    rcases lt_trichotomy y' y with hlt | rfl | hgt
    · have := row_le hrow hlt
      omega
    · omega
    · have := row_le hrow hgt
      omega
  refine ⟨c, hc, hclength.trans h.length, ?_, ?_, ?_⟩
  · intro x' y' hx' hy' hd
    by_cases hin : y' = y ∧ lo ≤ x' ∧ x' < hi
    · obtain ⟨rfl, hlo', hhi'⟩ := hin
      rw [← hvalue x' hlo' hhi']
      apply pixelAt_congr
      intro k hk hk4
      rw [hread, if_pos (by omega)]
      congr 1
      omega
    · rw [houtside x' y' hx' hin]
      exact h.shown x' y' hx' hy' (hd.resolve_right hin)
  · intro x' y' hx' hy' hd
    rw [houtside x' y' hx' (fun hin ↦ hd (.inr hin))]
    exact h.kept x' y' hx' hy' (fun hd' ↦ hd (.inl hd'))
  · intro i hi'
    rw [hread, if_neg, h.rest i hi']
    intro ⟨hlo', hhi'⟩
    apply hi'
    refine ⟨lo + (i - (y * rowBytes + 4 * lo)) / 4, y, (i - (y * rowBytes + 4 * lo)) % 4,
      ⟨?_, ?_⟩, hy, ⟨?_, ?_⟩, ?_⟩ <;> omega

/-- Two buffers with the same pixels drawn over the same bytes are the same. -/
theorem Drawn.unique {after' : List UInt8} (h : Drawn width height rowBytes value before done after)
    (h' : Drawn width height rowBytes value before done after') : after = after' := by
  apply ext_read 0 (h.length.trans h'.length.symm)
  intro i
  by_cases hi : IsPixelByte width height rowBytes i
  · obtain ⟨x, y, k, hx, hy, hk, rfl⟩ := hi
    have heq : pictureOf after rowBytes x y = pictureOf after' rowBytes x y := by
      by_cases hd : done x y
      · rw [h.shown x y hx hy hd, h'.shown x y hx hy hd]
      · rw [h.kept x y hx hy hd, h'.kept x y hx hy hd]
    obtain ⟨h0, h1, h2, h3⟩ := Pixel.mk.inj heq
    obtain rfl | rfl | rfl | rfl : k = 0 ∨ k = 1 ∨ k = 2 ∨ k = 3 := by omega
    · rwa [Int.add_zero]
    · exact h1
    · exact h2
    · exact h3
  · rw [h.rest i hi, h'.rest i hi]

/-- Drawing on a buffer always succeeds, and draws the region. -/
def Draws (width height rowBytes : Int) (value : Picture) (before : List UInt8)
    (draw : List UInt8 → Option (List UInt8)) (region : Int → Int → Prop) : Prop :=
  ∀ done after, Drawn width height rowBytes value before done after →
    ∃ c, draw after = some c ∧
      Drawn width height rowBytes value before (fun x y ↦ done x y ∨ region x y) c

/-- One drawing after another. -/
theorem Draws.bind {draw draw' : List UInt8 → Option (List UInt8)} {region region' : Int → Int → Prop}
    (h : Draws width height rowBytes value before draw region)
    (h' : Draws width height rowBytes value before draw' region') :
    Draws width height rowBytes value before (fun b ↦ (draw b).bind draw')
      (fun x y ↦ region x y ∨ region' x y) := by
  intro done after hdrawn
  obtain ⟨c, hc, hdrawn⟩ := h done after hdrawn
  obtain ⟨d, hd, hdrawn⟩ := h' _ c hdrawn
  refine ⟨d, ?_, hdrawn.congr fun x y _ _ ↦ or_assoc⟩
  dsimp only
  rw [hc, Option.bind_some, hd]

theorem Draws.congr {draw : List UInt8 → Option (List UInt8)} (region : Int → Int → Prop)
    {region' : Int → Int → Prop}
    (h : Draws width height rowBytes value before draw region)
    (hregion : ∀ x y, (0 ≤ x ∧ x < width) → (0 ≤ y ∧ y < height) → (region x y ↔ region' x y)) :
    Draws width height rowBytes value before draw region' := by
  intro done after hdrawn
  obtain ⟨c, hc, hdrawn⟩ := h done after hdrawn
  refine ⟨c, hc, hdrawn.congr fun x y hx hy ↦ ?_⟩
  rw [hregion x y hx hy]

/-- What is drawn on the old buffer. -/
theorem Draws.drawn {draw : List UInt8 → Option (List UInt8)} {region : Int → Int → Prop}
    (h : Draws width height rowBytes value before draw region) :
    ∃ c, draw before = some c ∧ Drawn width height rowBytes value before region c := by
  obtain ⟨c, hc, hdrawn⟩ := h _ before .refl
  exact ⟨c, hc, hdrawn.congr fun x y _ _ ↦ by rw [false_or]⟩

/-- A loop draws the pieces that its iterations draw; `region i` is what is drawn once the
counter is `i`. -/
theorem Draws.forUp {step : Int} {body : Int → List UInt8 → Option (List UInt8)}
    (region piece : Int → Int → Int → Prop) (hstep : 0 < step) (hlo : InInt32 lo)
    (hend : InInt32 (loopEnd step lo hi)) (hle : lo ≤ hi) (hnone : ∀ x y, ¬ region lo x y)
    (hpiece : ∀ i x y, lo ≤ i → i < hi → (0 ≤ x ∧ x < width) → (0 ≤ y ∧ y < height) →
      (region (min (i + step) hi) x y ↔ region i x y ∨ piece i x y))
    (hbody : ∀ i, lo ≤ i → i < hi → InInt32 (i + step) →
      Draws width height rowBytes value before (body i) (piece i)) :
    Draws width height rowBytes value before (Base.forUp step hi body lo) (region hi) := by
  intro done after hdrawn
  apply forUp_invariant
    (fun i c ↦ Drawn width height rowBytes value before (fun x y ↦ done x y ∨ region i x y) c)
    hstep hlo hend
  · rw [Int.min_eq_left hle]
    apply hdrawn.congr
    intro x y _ _
    exact ⟨Or.inl, fun hd ↦ hd.resolve_right (hnone x y)⟩
  · intro i c hi hlt hint hc
    obtain ⟨d, hd, hdrawn'⟩ := hbody i hi hlt hint _ c hc
    refine ⟨d, hd, hdrawn'.congr fun x y hx hy ↦ ?_⟩
    rw [hpiece i x y hi hlt hx hy, or_assoc]

end Buffers

end WebLinked.Core
