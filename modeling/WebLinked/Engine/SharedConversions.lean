import Mathlib
import WebLinked.Engine.Conversions

/-!
# Sharing a conversion changes nothing, while no tick number comes back

A composite is taken from the last output that wanted it if it carries the tick's number. What is
kept under a number is the composite of that tick's frame, until a format change lets the numbers
begin again.
-/

namespace WebLinked.Engine.Conversions

open WebLinked.Base WebLinked.Core
open WebLinked.Engine.Repeats (composite)
open WebLinked.Engine.SlotCalls (Entry Target targets PixelFormat)

variable {s t : State} {source : Frame Picture} {colour other : UInt32} {tick : ℕ} {target : Target}
  {rest : List Target}

/-- The composite of a frame over a colour, in a new buffer. -/
def composed (raster : VideoFormat) (source : Frame Picture) (colour : UInt32) : Frame Picture :=
  source.fill raster (composite colour source.data)

/-- The same composite as UYVY. -/
def overUyvy (matrix : ColourMatrix) (raster : VideoFormat) (source : Frame Picture)
    (colour : UInt32) : Frame PairPicture :=
  let bgra := composed raster source colour
  bgra.fill raster (bgraToUyvy bgra.data raster.height matrix)

/-- What is put in is found under its colour, and the others as before. -/
theorem find_put (variant : BackgroundVariant) (l : List BackgroundVariant) (colour : UInt32) :
    (put variant l).find? (·.colour = colour) =
      if colour = variant.colour then some variant else l.find? (·.colour = colour) := by
  induction l with
  | nil =>
    rw [put]
    by_cases h : colour = variant.colour
    · rw [if_pos h, List.find?_cons_of_pos (by simpa using h.symm)]
    · rw [if_neg h, List.find?_cons_of_neg (by simpa using Ne.symm h)]
  | cons v l ih =>
    rw [put]
    by_cases hv : v.colour = variant.colour
    · rw [if_pos hv]
      by_cases h : colour = variant.colour
      · rw [if_pos h, List.find?_cons_of_pos (by simpa using h.symm)]
      · rw [if_neg h, List.find?_cons_of_neg (by simpa using Ne.symm h),
          List.find?_cons_of_neg (by simpa [hv] using Ne.symm h)]
    · rw [if_neg hv]
      by_cases h : v.colour = colour
      · have hne : colour ≠ variant.colour := h ▸ hv
        rw [if_neg hne, List.find?_cons_of_pos (by simpa using h),
          List.find?_cons_of_pos (by simpa using h)]
      · rw [List.find?_cons_of_neg (by simpa using h), ih, List.find?_cons_of_neg (by simpa using h)]

/-- What is put in is in the list with what was there. -/
theorem mem_put {variant v : BackgroundVariant} {l : List BackgroundVariant}
    (h : v ∈ put variant l) : v = variant ∨ v ∈ l := by
  induction l with
  | nil => exact .inl (List.mem_singleton.mp h)
  | cons x l ih =>
    rw [put] at h
    split at h
    · obtain h | h := List.mem_cons.mp h
      · exact .inl h
      · exact .inr (List.mem_cons_of_mem _ h)
    · obtain h | h := List.mem_cons.mp h
      · exact .inr (h ▸ List.mem_cons_self)
      · exact (ih h).imp_right (List.mem_cons_of_mem _)

namespace State

/-- A variant is of its colour. -/
theorem colour_backgroundVariant (s : State) (colour : UInt32) :
    (s.backgroundVariant colour).colour = colour := by
  rw [backgroundVariant]
  cases h : s.backgrounds.find? (·.colour = colour) with
  | none => rfl
  | some v => exact of_decide_eq_true (List.find?_some h :)

/-- Each pool, scratch frame and composite has the raster. -/
structure Shaped (s : State) : Prop where
  uyvyPool : s.uyvyPool = s.format
  straightPool : s.straightPool = s.format
  backgroundPool : s.backgroundPool = s.format
  uyvyScratch : ∀ f ∈ s.uyvyScratch, f.format = s.format
  straightScratch : ∀ f ∈ s.straightScratch, f.format = s.format
  bgra : ∀ v ∈ s.backgrounds, ∀ f ∈ v.bgra, f.format = s.format
  uyvy : ∀ v ∈ s.backgrounds, ∀ f ∈ v.uyvy, f.format = s.format

/-- A buffer to fill has the raster. -/
theorem buffer_eq {α : Type} {old : Option (Frame α)} {raster : VideoFormat} (format : VideoFormat)
    (h : ∀ f ∈ old, f.format = raster) : buffer old raster format = raster := by
  cases old with
  | none => rfl
  | some frame =>
    rw [buffer]
    split
    · exact h frame rfl
    · rfl

/-- The variant of a colour has the raster. -/
theorem Shaped.variant (h : s.Shaped) (colour : UInt32) :
    (∀ f ∈ (s.backgroundVariant colour).bgra, f.format = s.format) ∧
      ∀ f ∈ (s.backgroundVariant colour).uyvy, f.format = s.format := by
  rw [backgroundVariant]
  cases hv : s.backgrounds.find? (·.colour = colour) with
  | none => exact ⟨nofun, nofun⟩
  | some v => exact ⟨h.bgra v (List.mem_of_find?_eq_some hv), h.uyvy v (List.mem_of_find?_eq_some hv)⟩

/-- Putting in a variant of the raster. -/
theorem Shaped.put (h : s.Shaped) {v : BackgroundVariant} (hbgra : ∀ f ∈ v.bgra, f.format = s.format)
    (huyvy : ∀ f ∈ v.uyvy, f.format = s.format) :
    Shaped { s with backgrounds := put v s.backgrounds } := by
  refine { h with bgra := fun x hx ↦ ?_, uyvy := fun x hx ↦ ?_ }
  · obtain rfl | hx := mem_put hx
    · exact hbgra
    · exact h.bgra x hx
  · obtain rfl | hx := mem_put hx
    · exact huyvy
    · exact h.uyvy x hx

/-- From `s` to `t` one variant has changed, to this. -/
structure Puts (s t : State) (variant : BackgroundVariant) : Prop where
  rest : t = { s with backgrounds := t.backgrounds }
  shaped : t.Shaped
  variants : ∀ colour, t.backgroundVariant colour =
    if colour = variant.colour then variant else s.backgroundVariant colour

/-- Putting in a variant changes that variant. -/
theorem Shaped.puts (h : s.Shaped) {v : BackgroundVariant} (hbgra : ∀ f ∈ v.bgra, f.format = s.format)
    (huyvy : ∀ f ∈ v.uyvy, f.format = s.format) :
    s.Puts { s with backgrounds := Conversions.put v s.backgrounds } v where
  rest := rfl
  shaped := h.put hbgra huyvy
  variants c := by
    rw [backgroundVariant, find_put]
    split
    · rfl
    · rfl

/-- A variant that is there needs no putting in. -/
theorem Shaped.puts_self (h : s.Shaped) (colour : UInt32) :
    s.Puts s (s.backgroundVariant colour) where
  rest := rfl
  shaped := h
  variants c := by
    rw [colour_backgroundVariant]
    split
    · next hc => rw [hc]
    · rfl

/-- What is kept under the tick's number over a colour is the composite of the frame. -/
def Kept (s : State) (source : Frame Picture) (tick : ℕ) (colour : UInt32) : Prop :=
  (s.backgroundVariant colour).bgraTick = tick →
    ∀ f ∈ (s.backgroundVariant colour).bgra, f = composed s.format source colour

/-- And as UYVY. -/
def KeptUyvy (s : State) (source : Frame Picture) (tick : ℕ) (colour : UInt32) : Prop :=
  (s.backgroundVariant colour).uyvyTick = tick →
    ∀ f ∈ (s.backgroundVariant colour).uyvy, f = overUyvy s.matrix s.format source colour

/-- The composite is the frame's, and is kept under the tick's number. -/
theorem compositedBgra_spec (h : s.Shaped) (hequal : s.format.equal source.format)
    (hkept : s.Kept source tick colour) :
    ∃ t, s.compositedBgra source colour tick = (t, some (composed s.format source colour)) ∧
      s.Puts t { s.backgroundVariant colour with
        bgra := some (composed s.format source colour), bgraTick := tick } := by
  have hpool : (!s.backgroundPool.equal source.format) = false := by
    rw [h.backgroundPool, hequal]
    rfl
  rw [compositedBgra, hpool, if_neg Bool.false_ne_true]
  dsimp only
  split
  · next f hf =>
    split at hf
    · next htick =>
      obtain rfl := hkept htick f hf
      refine ⟨s, rfl, ?_⟩
      have hself := h.puts_self colour
      rw [← htick, ← hf]
      exact hself
    · cases hf
  · refine ⟨_, ?_, h.puts ?_ (h.variant colour).2⟩
    · rw [h.backgroundPool, buffer_eq _ (h.variant colour).1]
      rfl
    · rintro f ⟨⟩
      rfl

/-- A variant changed twice. -/
theorem Puts.trans {u : State} {v w : BackgroundVariant} (h : s.Puts t v) (h' : t.Puts u w)
    (hcolour : w.colour = v.colour) : s.Puts u w where
  rest := by
    rw [h'.rest, h.rest]
  shaped := h'.shaped
  variants c := by
    rw [h'.variants, h.variants, hcolour]
    split <;> rfl

/-- The composite is converted from the frame's composite. -/
theorem compositedUyvy_spec (h : s.Shaped) (hequal : s.format.equal source.format)
    (hkept : s.Kept source tick colour) (huyvy : s.KeptUyvy source tick colour) :
    ∃ t, s.compositedUyvy source colour tick =
        (t, some (overUyvy s.matrix s.format source colour)) ∧
      s.Puts t { s.backgroundVariant colour with
        bgra := some (composed s.format source colour)
        bgraTick := tick
        uyvy := some (overUyvy s.matrix s.format source colour)
        uyvyTick := tick } := by
  obtain ⟨t, hbgra, hputs⟩ := compositedBgra_spec h hequal hkept
  have hcolour := colour_backgroundVariant s colour
  have hvariant := hputs.variants colour
  rw [if_pos hcolour.symm] at hvariant
  have hformat : t.format = s.format := by rw [hputs.rest]
  have hmatrix : t.matrix = s.matrix := by rw [hputs.rest]
  rw [compositedUyvy, hbgra]
  dsimp only
  rw [hvariant]
  dsimp only
  split
  · next f hf =>
    split at hf
    · next htick =>
      obtain rfl := huyvy htick f hf
      refine ⟨t, rfl, ?_⟩
      rw [← htick, ← hf]
      rw [← htick] at hputs
      exact hputs
    · cases hf
  · let bgra := composed s.format source colour
    have hfill : bgra.fill (buffer (s.backgroundVariant colour).uyvy t.uyvyPool bgra.format)
        (bgraToUyvy bgra.data bgra.format.height t.matrix) =
          overUyvy s.matrix s.format source colour := by
      rw [hputs.shaped.uyvyPool, hformat, buffer_eq _ (h.variant colour).2, hmatrix]
      rfl
    rw [hfill]
    refine ⟨_, rfl, hputs.trans (hputs.shaped.puts ?_ ?_) rfl⟩
    · rintro f ⟨⟩
      exact hformat.symm
    · rintro f ⟨⟩
      exact hformat.symm

/-- What is kept for the targets of a tick is of its frame. -/
structure Fresh (s : State) (source : Frame Picture) (tick : ℕ) (rest : List Target) : Prop where
  bgra : ∀ target ∈ rest, target.background.isOpaque → s.Kept source tick target.background.packed
  uyvy : ∀ target ∈ rest, target.background.isOpaque → target.desc.pixelFormat = .kUYVY →
    s.KeptUyvy source tick target.background.packed

/-- Composites kept for the tick's frame leave what is kept fresh. -/
theorem Fresh.puts {v : BackgroundVariant} (hf : s.Fresh source tick rest) (h : s.Puts t v)
    (hcolour : v.colour = colour)
    (hbgra : ∀ f ∈ v.bgra, f = composed s.format source colour)
    (huyvy : (∀ f ∈ v.uyvy, f = overUyvy s.matrix s.format source colour) ∨
      v.uyvy = (s.backgroundVariant colour).uyvy ∧
        v.uyvyTick = (s.backgroundVariant colour).uyvyTick) :
    t.Fresh source tick rest := by
  have hformat : t.format = s.format := by rw [h.rest]
  have hmatrix : t.matrix = s.matrix := by rw [h.rest]
  constructor
  · intro target htarget hsolid
    rw [Kept, h.variants, hformat]
    split
    · next hc =>
      intro _ f hv
      rw [hc, hcolour]
      exact hbgra f hv
    · exact hf.bgra target htarget hsolid
  · intro target htarget hsolid hpixel
    have hkept := hf.uyvy target htarget hsolid hpixel
    rw [KeptUyvy, h.variants, hformat, hmatrix]
    split
    · next hc =>
      intro htick f hv
      rw [hc, hcolour] at hkept ⊢
      obtain hall | ⟨hsame, hnumber⟩ := huyvy
      · exact hall f hv
      · exact hkept (hnumber ▸ htick) f (hsame ▸ hv)
    · exact hkept

/-- Fewer targets want less. -/
theorem Fresh.tail (h : s.Fresh source tick (target :: rest)) : s.Fresh source tick rest where
  bgra other ho := h.bgra other (List.mem_cons_of_mem _ ho)
  uyvy other ho := h.uyvy other (List.mem_cons_of_mem _ ho)

/-- A target gets the conversion it declares. -/
theorem payload_spec (h : s.Shaped) (hequal : s.format.equal source.format)
    (hf : s.Fresh source tick (target :: rest)) {uyvy : Option (Frame PairPicture)}
    {straight : Option (Frame Picture)}
    (huyvy : wantsUyvy target →
      uyvy = some (source.fill s.format (bgraToUyvy source.data s.format.height s.matrix)))
    (hstraight : wantsStraight target →
      straight = some (source.fill s.format (unpremultiplyBgra source.data))) :
    ∃ t, s.payload source tick uyvy straight target =
        (t, some (direct s.matrix s.format source target)) ∧
      t.Shaped ∧ t = { s with backgrounds := t.backgrounds } ∧ t.Fresh source tick rest := by
  cases hsolid : target.background.isOpaque with
  | true =>
    have hkept := hf.bgra target List.mem_cons_self hsolid
    have hcolour := colour_backgroundVariant s target.background.packed
    cases hpixel : target.desc.pixelFormat with
    | kUYVY =>
      have hkeptUyvy := hf.uyvy target List.mem_cons_self hsolid hpixel
      obtain ⟨t, ht, hputs⟩ := compositedUyvy_spec h hequal hkept hkeptUyvy
      refine ⟨t, ?_, hputs.shaped, hputs.rest, hf.tail.puts hputs hcolour ?_ ?_⟩
      · rw [payload, if_pos hsolid, hpixel]
        dsimp only
        rw [ht, direct, Target.form, hpixel, SlotCalls.form, if_pos hsolid]
        rfl
      · rintro f ⟨⟩
        rfl
      · left
        rintro f ⟨⟩
        rfl
    | kBGRA =>
      obtain ⟨t, ht, hputs⟩ := compositedBgra_spec h hequal hkept
      refine ⟨t, ?_, hputs.shaped, hputs.rest, hf.tail.puts hputs hcolour ?_ (.inr ⟨rfl, rfl⟩)⟩
      · rw [payload, if_pos hsolid, hpixel]
        dsimp only
        rw [ht, direct, Target.form, hpixel, SlotCalls.form, if_pos hsolid]
        rfl
      · rintro f ⟨⟩
        rfl
  | false =>
    have hclear : ¬ target.background.isOpaque = true := by simp [hsolid]
    refine ⟨s, ?_, h, rfl, hf.tail⟩
    rw [payload, if_neg hclear, direct, Target.form]
    unfold SlotCalls.form
    rw [if_neg hclear]
    cases hpixel : target.desc.pixelFormat with
    | kUYVY =>
      rw [huyvy (by simp [wantsUyvy, hsolid, hpixel])]
      rfl
    | kBGRA =>
      dsimp only
      cases halpha : target.desc.straightAlpha with
      | true =>
        rw [hstraight (by simp [wantsStraight, hsolid, hpixel, halpha])]
        rfl
      | false => rfl

/-- From `s` to `t` only payloads of the conversions that targets declare have been handed out. -/
structure Hands (s t : State) : Prop where
  shaped : t.Shaped
  matrix : t.matrix = s.matrix
  submitted : ∀ x ∈ t.submitted, x ∈ s.submitted ∨
    x.payload = direct s.matrix x.raster x.source x.target

/-- One after the other. -/
theorem Hands.trans {u : State} (h : s.Hands t) (h' : t.Hands u) : s.Hands u := by
  refine ⟨h'.shaped, h'.matrix.trans h.matrix, fun x hx ↦ ?_⟩
  obtain hx | hx := h'.submitted x hx
  · exact h.submitted x hx
  · exact .inr (h.matrix ▸ hx)

/-- What is handed to the targets of a tick is the conversion each declares. -/
theorem submit_spec (h : s.Shaped) (hequal : s.format.equal source.format)
    (hf : s.Fresh source tick rest) {uyvy : Option (Frame PairPicture)}
    {straight : Option (Frame Picture)}
    (huyvy : ∀ target ∈ rest, wantsUyvy target →
      uyvy = some (source.fill s.format (bgraToUyvy source.data s.format.height s.matrix)))
    (hstraight : ∀ target ∈ rest, wantsStraight target →
      straight = some (source.fill s.format (unpremultiplyBgra source.data))) :
    s.Hands (s.submit source tick uyvy straight rest) := by
  induction rest generalizing s with
  | nil => exact ⟨h, rfl, fun x hx ↦ .inl hx⟩
  | cons target rest ih =>
    obtain ⟨t, ht, hshaped, hrest, hfresh⟩ := payload_spec h hequal hf
      (huyvy target List.mem_cons_self) (hstraight target List.mem_cons_self)
    have hformat : t.format = s.format := by rw [hrest]
    have hmatrix : t.matrix = s.matrix := by rw [hrest]
    have hsubmitted : t.submitted = s.submitted := by rw [hrest]
    rw [submit, ht]
    dsimp only
    let next : State := { t with submitted := {
      raster := t.format
      source
      target
      payload := direct s.matrix s.format source target } :: t.submitted }
    have hnext : s.Hands next := by
      refine ⟨{ hshaped with }, hmatrix, fun x hx ↦ ?_⟩
      obtain rfl | hx := List.mem_cons.mp hx
      · right
        rw [hformat]
      · exact .inl (hsubmitted ▸ hx)
    have hfresh : next.Fresh source tick rest := ⟨hfresh.bgra, hfresh.uyvy⟩
    refine hnext.trans (ih hnext.shaped (hformat ▸ hequal) hfresh ?_ ?_)
    · intro other ho hw
      rw [huyvy other (List.mem_cons_of_mem _ ho) hw]
      show _ = some (source.fill t.format (bgraToUyvy source.data t.format.height t.matrix))
      rw [hformat, hmatrix]
    · intro other ho hw
      rw [hstraight other (List.mem_cons_of_mem _ ho) hw]
      show _ = some (source.fill t.format (unpremultiplyBgra source.data))
      rw [hformat]

/-- The clock's tick carries no number under which a composite is kept that it would use. -/
def unnumbered (s : State) : Action → Prop
  | .tick nanos => ∀ tick ∈ s.woken, (s.source nanos).format.equal s.format →
      ∀ target ∈ targets s.entries, target.background.isOpaque →
        ∀ variant ∈ s.backgrounds, variant.colour = target.background.packed →
          variant.bgraTick ≠ tick ∧ (target.desc.pixelFormat = .kUYVY → variant.uyvyTick ≠ tick)
  | _ => True

instance : DecidableRel unnumbered := fun s a ↦
  match a with
  | .tick nanos => inferInstanceAs (Decidable (∀ tick ∈ s.woken,
      (s.source nanos).format.equal s.format → ∀ target ∈ targets s.entries,
        target.background.isOpaque → ∀ variant ∈ s.backgrounds,
          variant.colour = target.background.packed →
            variant.bgraTick ≠ tick ∧
              (target.desc.pixelFormat = .kUYVY → variant.uyvyTick ≠ tick)))
  | .paint _ _ | .change _ | .wake _ | .swap _ => .isTrue trivial

/-- Dropping the composites nobody wants. -/
theorem backgroundVariant_filter {keys : List UInt32} (hcolour : colour ∈ keys) :
    ({ s with backgrounds := s.backgrounds.filter (·.colour ∈ keys) } : State).backgroundVariant
      colour = s.backgroundVariant colour := by
  have hsame : (fun v : BackgroundVariant ↦ decide (decide (v.colour ∈ keys) = true ∧
      decide (v.colour = colour) = true)) = fun v ↦ decide (v.colour = colour) := by
    funext v
    by_cases hv : v.colour = colour
    · simp [hv, hcolour]
    · simp [hv]
  rw [backgroundVariant, backgroundVariant, List.find?_filter, hsame]

/-- From `s` to `t` only scratch frames have changed, and they have the raster. -/
structure Converts (s t : State) : Prop where
  shaped : t.Shaped
  format : t.format = s.format
  matrix : t.matrix = s.matrix
  backgrounds : t.backgrounds = s.backgrounds
  submitted : t.submitted = s.submitted

/-- Changing scratch frames leaves what is kept fresh. -/
theorem Converts.fresh (h : s.Converts t) (hf : s.Fresh source tick rest) :
    t.Fresh source tick rest := by
  have hvariant : t.backgroundVariant = s.backgroundVariant := by
    funext colour
    rw [backgroundVariant, backgroundVariant, h.backgrounds]
  constructor
  · intro target htarget hsolid
    rw [Kept, hvariant, h.format]
    exact hf.bgra target htarget hsolid
  · intro target htarget hsolid hpixel
    rw [KeptUyvy, hvariant, h.format, h.matrix]
    exact hf.uyvy target htarget hsolid hpixel

/-- Frames of the raster are as high. -/
theorem height_eq {format other : VideoFormat} (h : format.equal other) :
    other.height = format.height := by
  simp only [VideoFormat.equal, Bool.and_eq_true, decide_eq_true_eq] at h
  exact h.1.1.2.symm

/-- The UYVY frame of a tick is converted from its frame. -/
theorem frameInFormat_spec (h : s.Shaped) (hequal : s.format.equal source.format) :
    ∃ t, s.frameInFormat source = (t, some (source.fill s.format
        (bgraToUyvy source.data s.format.height s.matrix))) ∧ s.Converts t := by
  have hpool : (!s.uyvyPool.equal source.format) = false := by
    rw [h.uyvyPool, hequal]
    rfl
  rw [frameInFormat, hpool, if_neg Bool.false_ne_true, h.uyvyPool, buffer_eq _ h.uyvyScratch,
    height_eq hequal]
  refine ⟨_, rfl, { h with uyvyPool := rfl, uyvyScratch := ?_ }, rfl, rfl, rfl, rfl⟩
  rintro f ⟨⟩
  rfl

/-- The straight frame of a tick is converted from its frame. -/
theorem unpremultiplied_spec (h : s.Shaped) (hequal : s.format.equal source.format) :
    ∃ t, s.unpremultiplied source = (t, some (source.fill s.format
        (unpremultiplyBgra source.data))) ∧ s.Converts t := by
  have hpool : (!s.straightPool.equal source.format) = false := by
    rw [h.straightPool, hequal]
    rfl
  rw [unpremultiplied, hpool, if_neg Bool.false_ne_true, h.straightPool,
    buffer_eq _ h.straightScratch]
  refine ⟨_, rfl, { h with straightPool := rfl, straightScratch := ?_ }, rfl, rfl, rfl, rfl⟩
  rintro f ⟨⟩
  rfl

/-- What an optional conversion of a tick leaves, and gives where it is wanted. -/
theorem converts_if {α : Type} {f : State × Option (Frame α)} {frame : Frame α} (wanted : Bool)
    (h : s.Shaped) (hf : ∃ t, f = (t, some frame) ∧ s.Converts t) :
    ∃ t converted, (if wanted then f else (s, none)) = (t, converted) ∧ s.Converts t ∧
      (wanted → converted = some frame) := by
  cases wanted with
  | false => exact ⟨s, none, rfl, ⟨h, rfl, rfl, rfl, rfl⟩, nofun⟩
  | true =>
    obtain ⟨t, ht, hc⟩ := hf
    exact ⟨t, some frame, ht, hc, fun _ ↦ rfl⟩

/-- What is kept for the targets is fresh if no composite of theirs has the tick's number. -/
theorem fresh_of_unnumbered {keys : List UInt32} {targets : List Target}
    (hkeys : ∀ target ∈ targets, target.background.isOpaque → target.background.packed ∈ keys)
    (h : ∀ target ∈ targets, target.background.isOpaque →
      ∀ variant ∈ s.backgrounds, variant.colour = target.background.packed →
        variant.bgraTick ≠ tick ∧ (target.desc.pixelFormat = .kUYVY → variant.uyvyTick ≠ tick)) :
    Fresh { s with backgrounds := s.backgrounds.filter (·.colour ∈ keys) } source tick targets := by
  constructor
  · intro target htarget hsolid
    rw [Kept, backgroundVariant_filter (hkeys target htarget hsolid), backgroundVariant]
    cases hv : s.backgrounds.find? (·.colour = target.background.packed) with
    | none => exact fun _ ↦ nofun
    | some v =>
      have hcolour : v.colour = target.background.packed := of_decide_eq_true (List.find?_some hv :)
      exact fun htick ↦ absurd htick
        (h target htarget hsolid v (List.mem_of_find?_eq_some hv) hcolour).1
  · intro target htarget hsolid hpixel
    rw [KeptUyvy, backgroundVariant_filter (hkeys target htarget hsolid), backgroundVariant]
    cases hv : s.backgrounds.find? (·.colour = target.background.packed) with
    | none => exact fun _ ↦ nofun
    | some v =>
      have hcolour : v.colour = target.background.packed := of_decide_eq_true (List.find?_some hv :)
      exact fun htick ↦ absurd htick
        ((h target htarget hsolid v (List.mem_of_find?_eq_some hv) hcolour).2 hpixel)

/-- A conversion hands out nothing. -/
theorem Converts.hands (h : s.Converts t) : s.Hands t :=
  ⟨h.shaped, h.matrix, fun _ hx ↦ .inl (h.submitted ▸ hx)⟩

/-- A tick hands each target the conversion it declares. -/
theorem clockTick_spec (h : s.Shaped) {nanos : Int} (hwoken : s.woken = some tick)
    (hguard : s.unnumbered (.tick nanos)) : s.Hands (s.clockTick tick nanos) := by
  have hguard := hguard tick hwoken
  rw [clockTick]
  generalize s.source nanos = source at hguard ⊢
  generalize targets s.entries = targets at hguard ⊢
  dsimp only
  split
  · exact ⟨h, rfl, fun x hx ↦ .inl hx⟩
  · next hstale =>
    have hsame : source.format.equal s.format := by simpa using hstale
    have hequal : s.format.equal source.format := VideoFormat.equal_comm _ _ ▸ hsame
    obtain ⟨pruned, hkept⟩ : ∃ pruned : State, pruned = { s with
        backgrounds := s.backgrounds.filter
          (·.colour ∈ (targets.filter (·.background.isOpaque)).map (·.background.packed)) } :=
      ⟨_, rfl⟩
    rw [← hkept]
    have hshaped : pruned.Shaped := by
      subst hkept
      exact { h with
        bgra := fun v hv ↦ h.bgra v (List.mem_filter.mp hv).1
        uyvy := fun v hv ↦ h.uyvy v (List.mem_filter.mp hv).1 }
    have hpruned : s.Hands pruned := by
      subst hkept
      exact ⟨hshaped, rfl, fun x hx ↦ .inl hx⟩
    have hformat : pruned.format = s.format := by rw [hkept]
    have hmatrix : pruned.matrix = s.matrix := by rw [hkept]
    have hfresh : pruned.Fresh source tick targets := by
      subst hkept
      refine fresh_of_unnumbered (fun target htarget hsolid ↦ ?_) (hguard hsame)
      exact List.mem_map_of_mem (f := fun target : Target ↦ target.background.packed)
        (List.mem_filter.mpr ⟨htarget, hsolid⟩)
    obtain ⟨u, uyvy, hu, hconverts, huyvy⟩ := converts_if (targets.any wantsUyvy) hshaped
      (frameInFormat_spec hshaped (hformat ▸ hequal))
    have hconverted : u.format = s.format := hconverts.format.trans hformat
    rw [hformat, hmatrix] at huyvy
    rw [hu]
    dsimp only
    split
    · exact hpruned.trans hconverts.hands
    · obtain ⟨w, straight, hw, hconverts', hstraight⟩ := converts_if (targets.any wantsStraight)
        hconverts.shaped (unpremultiplied_spec hconverts.shaped (hconverted ▸ hequal))
      rw [hw]
      dsimp only
      have hboth := hpruned.trans (hconverts.hands.trans hconverts'.hands)
      split
      · exact hboth
      · have hformat : w.format = s.format := hconverts'.format.trans hconverted
        have hmatrix : w.matrix = s.matrix :=
          hconverts'.matrix.trans (hconverts.matrix.trans hmatrix)
        refine hboth.trans (submit_spec hconverts'.shaped (hformat ▸ hequal)
          (hconverts'.fresh (hconverts.fresh hfresh)) ?_ ?_)
        · intro target htarget hwants
          rw [hformat, hmatrix]
          exact huyvy (List.any_eq_true.mpr ⟨target, htarget, hwants⟩)
        · intro target htarget hwants
          rw [hstraight (List.any_eq_true.mpr ⟨target, htarget, hwants⟩), hconverted, hformat]

/-- Every step that meets the condition keeps buffers at the raster and hands out direct
conversions. -/
theorem step_spec (h : s.Shaped) {a : Action} (hguard : s.unnumbered a) (ht : s.step a = some t) :
    s.Hands t := by
  have hsame : ∀ x ∈ s.submitted, x ∈ s.submitted ∨
    x.payload = direct s.matrix x.raster x.source x.target := fun x hx ↦ .inl hx
  cases a with
  | paint format data =>
    cases ht
    exact ⟨{ h with }, rfl, hsame⟩
  | change entries =>
    cases ht
    exact ⟨{ h with }, rfl, hsame⟩
  | wake skipped =>
    rw [step] at ht
    split at ht
    · cases ht
    · cases ht
      exact ⟨{ h with }, rfl, hsame⟩
  | tick nanos =>
    obtain ⟨tick, hwoken, rfl⟩ := Option.map_eq_some_iff.mp ht
    have hands := clockTick_spec h hwoken hguard
    exact ⟨{ hands.shaped with }, hands.matrix, hands.submitted⟩
  | swap format =>
    obtain ⟨tick, -, rfl⟩ := Option.map_eq_some_iff.mp ht
    refine ⟨⟨rfl, rfl, rfl, nofun, nofun, ?_, ?_⟩, rfl, hsame⟩
    · exact fun v hv ↦ absurd hv List.not_mem_nil
    · exact fun v hv ↦ absurd hv List.not_mem_nil

/-! ### Without a format change -/

/-- No composite is kept under a number from `n` on. -/
def Below (n : ℕ) (s : State) : Prop :=
  ∀ v ∈ s.backgrounds, v.bgraTick < n ∧ v.uyvyTick < n

/-- From `s` to `t` composites may have been kept, under numbers before `n`. -/
structure Keeps (n : ℕ) (s t : State) : Prop where
  nextTick : t.nextTick = s.nextTick
  below : s.Below n → t.Below n

section Below

variable {n : ℕ}

theorem Keeps.refl (n : ℕ) (s : State) : s.Keeps n s := ⟨rfl, id⟩

theorem Keeps.trans {u : State} (h : s.Keeps n t) (h' : t.Keeps n u) : s.Keeps n u :=
  ⟨h'.nextTick.trans h.nextTick, fun hs ↦ h'.below (h.below hs)⟩

/-- Nor is one found under such a number. -/
theorem Below.variant (h : s.Below n) (colour : UInt32) :
    (s.backgroundVariant colour).bgraTick < n ∧ (s.backgroundVariant colour).uyvyTick < n := by
  rw [backgroundVariant]
  cases hv : s.backgrounds.find? (·.colour = colour) with
  | none =>
    have hn : (-1 : Int) < n := by omega
    exact ⟨hn, hn⟩
  | some v => exact h v (List.mem_of_find?_eq_some hv)

/-- A composite is put in under a number before `n`. -/
theorem keeps_put {v : BackgroundVariant} (h : s.Below n → v.bgraTick < n ∧ v.uyvyTick < n) :
    s.Keeps n { s with backgrounds := put v s.backgrounds } := by
  refine ⟨rfl, fun hs x hx ↦ ?_⟩
  obtain rfl | hx := mem_put hx
  · exact h hs
  · exact hs x hx

theorem keeps_compositedBgra (htick : tick < n) :
    s.Keeps n (s.compositedBgra source colour tick).1 := by
  rw [compositedBgra]
  split
  · exact .refl n s
  · dsimp only
    split
    · exact .refl n s
    · apply keeps_put
      exact fun hs ↦ ⟨Int.ofNat_lt.mpr htick, (hs.variant colour).2⟩

theorem keeps_compositedUyvy (htick : tick < n) :
    s.Keeps n (s.compositedUyvy source colour tick).1 := by
  have hbgra : s.Keeps n (s.compositedBgra source colour tick).1 := keeps_compositedBgra htick
  rw [compositedUyvy]
  rcases hc : s.compositedBgra source colour tick with ⟨t, _ | bgra⟩ <;> rw [hc] at hbgra
  · exact hbgra
  · dsimp only
    split
    · exact hbgra
    · apply hbgra.trans
      apply keeps_put
      exact fun ht ↦ ⟨(ht.variant colour).1, Int.ofNat_lt.mpr htick⟩

/-- A payload is kept under the number of its tick, if at all. -/
theorem keeps_payload (htick : tick < n) (uyvy : Option (Frame PairPicture))
    (straight : Option (Frame Picture)) (target : Target) :
    s.Keeps n (s.payload source tick uyvy straight target).1 := by
  rw [payload]
  split
  · cases target.desc.pixelFormat with
    | kUYVY => exact keeps_compositedUyvy htick
    | kBGRA => exact keeps_compositedBgra htick
  · cases target.desc.pixelFormat with
    | kUYVY => exact .refl n s
    | kBGRA => exact .refl n s

/-- So are those of all targets. -/
theorem keeps_submit (htick : tick < n) (uyvy : Option (Frame PairPicture))
    (straight : Option (Frame Picture)) (targets : List Target) :
    s.Keeps n (s.submit source tick uyvy straight targets) := by
  induction targets generalizing s with
  | nil => exact .refl n s
  | cons target rest ih =>
    have hpayload : s.Keeps n (s.payload source tick uyvy straight target).1 :=
      keeps_payload htick uyvy straight target
    rw [submit]
    rcases hp : s.payload source tick uyvy straight target with ⟨t, _ | payload⟩ <;>
      rw [hp] at hpayload
    · exact hpayload.trans ih
    · have hnext : s.Keeps n { t with submitted :=
          { raster := t.format, source, target, payload } :: t.submitted } :=
        ⟨hpayload.nextTick, hpayload.below⟩
      exact hnext.trans ih

/-- What a conversion leaves where it is wanted, and where it is not. -/
theorem keeps_if {α : Type} {f : State × Option α} (wanted : Bool) (h : s.Keeps n f.1) :
    s.Keeps n (if wanted then f else (s, none)).1 := by
  cases wanted with
  | false => exact .refl n s
  | true => exact h

theorem keeps_frameInFormat (source : Frame Picture) : s.Keeps n (s.frameInFormat source).1 := by
  rw [frameInFormat]
  split <;> exact ⟨rfl, id⟩

theorem keeps_unpremultiplied (source : Frame Picture) :
    s.Keeps n (s.unpremultiplied source).1 := by
  rw [unpremultiplied]
  split <;> exact ⟨rfl, id⟩

/-- A tick keeps its composites under its own number. -/
theorem keeps_clockTick (htick : tick < n) (nanos : Int) : s.Keeps n (s.clockTick tick nanos) := by
  rw [clockTick]
  dsimp only
  split
  · exact .refl n s
  · generalize s.source nanos = source
    generalize targets s.entries = targets
    let keys := (targets.filter (·.background.isOpaque)).map (·.background.packed)
    have hpruned : s.Keeps n { s with backgrounds := s.backgrounds.filter (·.colour ∈ keys) } :=
      ⟨rfl, fun hs v hv ↦ hs v (List.mem_of_mem_filter hv)⟩
    generalize ({ s with backgrounds := s.backgrounds.filter (·.colour ∈ keys) } : State) =
      pruned at hpruned ⊢
    have huyvy := keeps_if (targets.any wantsUyvy) (keeps_frameInFormat (n := n) (s := pruned) source)
    generalize (if targets.any wantsUyvy then pruned.frameInFormat source else (pruned, none)) =
      converted at huyvy ⊢
    obtain ⟨u, uyvy⟩ := converted
    have hconverted := hpruned.trans huyvy
    dsimp only
    split
    · exact hconverted
    · have hstraight := keeps_if (targets.any wantsStraight)
        (keeps_unpremultiplied (n := n) (s := u) source)
      generalize (if targets.any wantsStraight then u.unpremultiplied source else (u, none)) =
        converted at hstraight ⊢
      obtain ⟨w, straight⟩ := converted
      have hboth := hconverted.trans hstraight
      dsimp only
      split
      · exact hboth
      · exact hboth.trans (keeps_submit htick uyvy straight targets)

end Below

/-- Nothing is kept under the number the clock has woken for, or else the next one. -/
structure Ahead (s : State) : Prop where
  woken : ∀ tick ∈ s.woken, tick < s.nextTick
  below : s.Below (s.woken.getD s.nextTick)

/-- Only a format change can bring a number back. -/
theorem Ahead.step {a : Action} (h : s.Ahead) (hstays : ∀ format, a ≠ .swap format)
    (ht : s.step a = some t) : t.Ahead := by
  cases a with
  | paint format data =>
    cases ht
    exact ⟨h.woken, h.below⟩
  | change entries =>
    cases ht
    exact ⟨h.woken, h.below⟩
  | wake skipped =>
    rw [State.step] at ht
    cases hwoken : s.woken with
    | some tick =>
      rw [hwoken] at ht
      cases ht
    | none =>
      rw [hwoken] at ht
      cases ht
      have hbelow := h.below
      rw [hwoken] at hbelow
      refine ⟨?_, fun v hv ↦ ?_⟩
      · rintro tick ⟨⟩
        exact Nat.lt_succ_self _
      · obtain ⟨hbgra, huyvy⟩ := hbelow v hv
        dsimp only [Option.getD] at hbgra huyvy ⊢
        omega
  | tick nanos =>
    obtain ⟨tick, hwoken, rfl⟩ := Option.map_eq_some_iff.mp ht
    have hbefore := h.woken tick hwoken
    have hkeeps := keeps_clockTick (s := s) hbefore nanos
    have hbelow : s.Below s.nextTick := by
      intro v hv
      obtain ⟨hbgra, huyvy⟩ := h.below v hv
      rw [hwoken, Option.getD_some] at hbgra huyvy
      omega
    refine ⟨nofun, ?_⟩
    have hafter := hkeeps.below hbelow
    rw [← hkeeps.nextTick] at hafter
    exact hafter
  | swap format => exact absurd rfl (hstays format)

/-- A number that does not come back is one under which nothing is kept. -/
theorem Ahead.unnumbered (h : s.Ahead) (a : Action) : s.unnumbered a := by
  cases a with
  | tick nanos =>
    intro tick hwoken _ target _ _ variant hvariant _
    obtain ⟨hbgra, huyvy⟩ := h.below variant hvariant
    rw [hwoken, Option.getD_some] at hbgra huyvy
    exact ⟨hbgra.ne, fun _ ↦ huyvy.ne⟩
  | paint _ _ | change _ | wake _ | swap _ => trivial

/-! ### What is handed out -/

/-- Everything handed out is the conversion its target declares. -/
def Shared (s : State) : Prop :=
  ∀ x ∈ s.submitted, x.payload = direct s.matrix x.raster x.source x.target

end State

/-- As long as the format does not change, no composite is found under the number of a later tick. -/
theorem unnumbered_of_noSwap
    (h : machine.ReachableUnder (fun _ a ↦ ∀ format, a ≠ .swap format) s) (a : Action) :
    s.unnumbered a := by
  have hahead : s.Ahead := by
    apply h.invariant (I := State.Ahead)
    · rintro s ⟨format, matrix, entries, rfl⟩
      exact ⟨nofun, fun v hv ↦ absurd hv List.not_mem_nil⟩
    · intro s a t hstays hs ht
      exact hs.step hstays ht
  exact hahead.unnumbered a

/-- While no composite is found under the number of a later tick, sharing changes nothing. -/
theorem shared_of_unnumbered (h : machine.ReachableUnder State.unnumbered s) : s.Shared := by
  have hinv : s.Shaped ∧ s.Shared := by
    refine h.invariant (I := fun s ↦ s.Shaped ∧ s.Shared) ?_ ?_
    · rintro s ⟨format, matrix, entries, rfl⟩
      refine ⟨⟨rfl, rfl, rfl, nofun, nofun, ?_, ?_⟩, ?_⟩
      · exact fun v hv ↦ absurd hv List.not_mem_nil
      · exact fun v hv ↦ absurd hv List.not_mem_nil
      · exact fun x hx ↦ absurd hx List.not_mem_nil
    · intro s a t hguard hs ht
      have hands := State.step_spec hs.1 hguard ht
      refine ⟨hands.shaped, fun x hx ↦ ?_⟩
      rw [hands.matrix]
      obtain hx | hx := hands.submitted x hx
      · exact hs.2 x hx
      · exact hx
  exact hinv.2

/-- An output that wants its frames over green. -/
def keyed (name : String) (pixelFormat : PixelFormat) : Entry where
  spec := { kind := "ndi", name, background := { isOpaque := true } }
  slot := 0
  desc := { generation := 1, present := true, pixelFormat }

/-- A picture of one colour. -/
def plain (pixel : Pixel) : Picture := fun _ _ ↦ pixel

/-- Two outputs over green share a composite before and after a format change, the tick that the
change held up among them. -/
theorem shared_twoOutputs : ∃ s,
    machine.runUnder State.unnumbered
      (started {} .kAuto [keyed "a" .kBGRA, keyed "b" .kUYVY])
      [.paint {} (plain {}), .wake 0, .tick 0, .wake 0, .swap { width := 1280, height := 720 },
        .paint { width := 1280, height := 720 } (plain { alpha := 255 }), .tick 1, .wake 0, .tick 2,
        .wake 0, .tick 3] = some s ∧ s.submitted.length = 8 ∧ s.Shared := by
  have hshared (entries : List Entry) (actions : List Action)
      (h : (machine.runUnder State.unnumbered (started {} .kAuto entries) actions).any
        (·.submitted.length = 8) = true) :
      ∃ s, machine.runUnder State.unnumbered (started {} .kAuto entries) actions = some s ∧
        s.submitted.length = 8 ∧ s.Shared := by
    obtain ⟨s, hs, hlength⟩ := (Option.any_eq_true _ _).mp h
    have hinit : machine.ReachableUnder State.unnumbered (started {} .kAuto entries) :=
      .init ⟨_, _, _, rfl⟩
    exact ⟨s, hs, of_decide_eq_true hlength, shared_of_unnumbered (hinit.runUnder actions hs)⟩
  exact hshared _ _ (by decide +kernel)

/-- The top left pixel of a BGRA payload. -/
def Payload.corner : Payload → Option Pixel
  | .bgra frame => some (frame.data 0 0)
  | .uyvy _ => none

/-- A clock that is stopped with its first tick in hand takes another under the same number, and an
output over green gets the composite of the white paint again, where the paint is black. -/
theorem not_shared : ¬ ∀ s, machine.Reachable s → s.Shared := by
  intro hall
  let actions : List Action := [.wake 0, .swap { width := 1280, height := 720 },
    .paint { width := 1280, height := 720 } (plain ⟨255, 255, 255, 255⟩), .tick 0,
    .paint { width := 1280, height := 720 } (plain ⟨0, 0, 0, 255⟩), .wake 0, .tick 1]
  have hrun : (machine.run (started {} .kAuto [keyed "a" .kBGRA]) actions).any (fun s ↦
      s.submitted.any fun x ↦ x.payload.corner ≠
        (direct s.matrix x.raster x.source x.target).corner) = true := by decide +kernel
  obtain ⟨s, hs, hany⟩ := (Option.any_eq_true _ _).mp hrun
  obtain ⟨x, hx, hne⟩ := List.any_eq_true.mp hany
  have hinit : machine.Reachable (started {} .kAuto [keyed "a" .kBGRA]) := .init ⟨_, _, _, rfl⟩
  exact of_decide_eq_true hne (congrArg Payload.corner (hall s (hinit.run actions hs) x hx))

end WebLinked.Engine.Conversions
