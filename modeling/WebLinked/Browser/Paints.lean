import WebLinked.Core.FramePlaces

/-!
# From a paint to whoever shows it

`src/browser/render_client.cpp:11–42,87–137`, `src/core/frame_ring.h:18–57`,
`src/core/pixel_convert.cpp:104–114`, `src/engine/engine.cpp:453–464`. The UI thread copies a paint
into a frame row by row, numbers it and publishes it in the slot; the clock and the outputs hold what
they find there for as long as they like, and the clock stamps it; the raster may change, and deleters
run, at any point in between. The first pointer is `OnPaint`'s own, the second is the slot's, and the
others are anybody's.
-/

namespace WebLinked.Browser.Paints

open WebLinked.Base WebLinked.Core WebLinked.Core.Frames

/-- What CEF paints: its rows, packed. -/
structure Paint where
  width : ℕ
  height : ℕ
  buffer : List UInt8
  packed : buffer.length = width * 4 * height
  deriving DecidableEq, Repr

/-- One `memcpy` of `copyBgra`; `src/core/pixel_convert.cpp:109–113`. -/
def copyRow (source : List UInt8) (srcStride : ℤ) (dst : List UInt8) (dstStride : ℤ)
    (width height : ℕ) (flipVertically : Bool) (y : ℕ) : Option (List UInt8) :=
  let srcY : ℤ := if flipVertically then height - 1 - y else y
  (Buffer.peek source (srcY * srcStride) (width * 4)).bind fun row ↦
    Buffer.poke dst (y * dstStride) row

/-- Where the UI thread stands in `OnPaint`. -/
inductive Phase where
  | idle
  /-- `acquire` has found no buffer retained; the client's `mutex_` is held. -/
  | acquiring (paint : Paint)
  | copying (paint : Paint) (row : ℕ)
  | numbered
  | published
  deriving DecidableEq, Repr

/-- The UI thread has the client's `mutex_`. -/
def Phase.locks : Phase → Bool
  | .acquiring _ => true
  | .idle | .copying _ _ | .numbered | .published => false

/-- `RenderClient`, `LatestFrameSlot` and everything that refers to frames; the slot's `frame_`
is a pointer of the heap. Not in the code: the paints in the order they were numbered, and how
many frames were taken out of the slot. -/
structure State where
  heap : Heap UInt8
  format : VideoFormat
  sequence : ℤ := 0
  paints : ℕ := 0
  attached : Bool := true
  phase : Phase := .idle
  publishedCount : ℕ := 0
  overwrittenCount : ℕ := 0
  numbered : List Paint := []
  taken : ℕ := 0
  deriving DecidableEq, Repr

/-- One step of any thread. -/
inductive Action where
  | setFormat (format : VideoFormat)
  /-- `OnPaint` begins; whether it is of the view. -/
  | paint (view : Bool) (paint : Paint)
  /-- The UI thread goes on with `OnPaint`. -/
  | resume
  | detach
  /-- The client is destroyed. -/
  | destroy
  /-- The slot is destroyed. -/
  | destroySlot
  /-- A pointer of anybody's is assigned from the slot (`peek`) or from another. -/
  | copy (i j : ℕ)
  | take (j : ℕ)
  | drop (j : ℕ)
  /-- `setCaptureNanos`, by the clock. -/
  | stamp (j : ℕ) (nanos : ℤ)
  /-- A deleter goes on. -/
  | delete (h : ℕ)
  deriving DecidableEq, Repr

namespace State

variable (s : State)

/-- The value of a pointer. -/
def pointer (i : ℕ) : Option ℕ := (s.heap.pointers[i]?).join

/-- `setFormat`; `src/browser/render_client.cpp:27`. -/
def setFormat (format : VideoFormat) : State :=
  if s.format.equal format then s else { s with format, heap := s.heap.create format }

/-- `OnPaint`, up to what is retained of the pool; `src/browser/render_client.cpp:87–108`. -/
def onPaint (view : Bool) (paint : Paint) : State :=
  if !view then s
  else if (paint.width : ℤ) ≠ s.format.width ∨ (paint.height : ℤ) ≠ s.format.height then s
  else
    match s.heap.pop 0 with
    | some heap => { s with heap, phase := .copying paint 0 }
    | none => { s with phase := .acquiring paint }

/-- The next row of `copyBgra`, or `setSequence` after the last;
`src/browser/render_client.cpp:119–123`. -/
def copy (paint : Paint) (row : ℕ) : Option State :=
  if row < paint.height then
    (s.heap.deref 0).bind fun frame ↦
      (copyRow paint.buffer (paint.width * 4) frame.data (rowBytes frame.format) paint.width
        paint.height false row).map fun data ↦
          { s with
            heap := s.heap.write 0 fun frame ↦ { frame with data }
            phase := .copying paint (row + 1) }
  else
    some { s with
      heap := s.heap.write 0 fun frame ↦ { frame with sequence := s.sequence }
      sequence := s.sequence + 1
      numbered := s.numbered ++ [paint]
      phase := .numbered }

/-- `LatestFrameSlot::publish`, of the frame that `OnPaint` moves into it, or nothing after
`detach`; `src/core/frame_ring.h:20`, `src/browser/render_client.cpp:124–130`. -/
def publish : State :=
  if s.attached then
    { s with
      heap := (s.heap.assign 1 (s.pointer 0)).assign 0 none
      overwrittenCount := s.overwrittenCount + if (s.pointer 1).isSome then 1 else 0
      publishedCount := s.publishedCount + 1
      phase := .published }
  else { s with heap := s.heap.assign 0 none, phase := .idle }

/-- The next step of `OnPaint`. -/
def resume : Option State :=
  match s.phase with
  | .idle => none
  | .acquiring paint =>
    (s.heap.make 0 0).map fun heap ↦ { s with heap, phase := .copying paint 0 }
  | .copying paint row => s.copy paint row
  | .numbered => some s.publish
  | .published => some { s with paints := s.paints + 1, phase := .idle }

/-- `take`; `src/core/frame_ring.h:30`. -/
def take (j : ℕ) : State :=
  { s with
    heap := (s.heap.assign j (s.pointer 1)).assign 1 none
    taken := s.taken + if (s.pointer 1).isSome then 1 else 0 }

/-- One step. -/
def step : Action → Option State
  | .setFormat format =>
    if s.heap.current.isSome ∧ s.phase.locks = false then some (s.setFormat format) else none
  | .paint view paint =>
    if s.heap.current.isSome ∧ s.phase = .idle then some (s.onPaint view paint) else none
  | .resume => s.resume
  | .detach => some { s with attached := false }
  | .destroy => if s.phase = .idle then some { s with heap := s.heap.setPool none } else none
  | .destroySlot =>
    if s.attached then none else some { s with heap := s.heap.assign 1 none }
  | .copy i j =>
    if 1 ≤ i ∧ 2 ≤ j then some { s with heap := s.heap.assign j (s.pointer i) } else none
  | .take j => if 2 ≤ j then some (s.take j) else none
  | .drop j => if 2 ≤ j then some { s with heap := s.heap.assign j none } else none
  | .stamp j nanos =>
    if 2 ≤ j then
      some { s with heap := s.heap.write j fun frame ↦ { frame with captureNanos := nanos } }
    else none
  | .delete h => (s.heap.delete h).map fun heap ↦ { s with heap }

end State

/-- A client of a raster, and any number of pointers that others have. -/
def start (format : VideoFormat) (others : ℕ) : State where
  heap := Heap.create { pointers := List.replicate (others + 2) none } format
  format := format

def machine : Machine State Action where
  init s := ∃ format others, s = start format others
  step := State.step

/-- The frame shows the paint, whole. -/
structure Shows (frame : VideoFrame UInt8) (paint : Paint) : Prop where
  width : frame.format.width = paint.width
  height : frame.format.height = paint.height
  data : frame.data = paint.buffer

/-- The frame shows the paint of its number, one of those published. -/
def Whole (s : State) (frame : VideoFrame UInt8) : Prop :=
  ∃ n : ℕ, frame.sequence = n ∧ n < s.publishedCount ∧
    ∃ paint, s.numbered[n]? = some paint ∧ Shows frame paint

/-- What the UI thread has of the paint it is at. -/
structure Copied (frame : VideoFrame UInt8) (paint : Paint) (row : ℕ) : Prop where
  width : frame.format.width = paint.width
  height : frame.format.height = paint.height
  length : frame.data.length = paint.buffer.length
  rows : frame.data.take (row * (paint.width * 4)) = paint.buffer.take (row * (paint.width * 4))
  row : row ≤ paint.height

/-- The frame that `OnPaint` fills, which nobody else refers to, and how far it is. -/
def AtPaint (s : State) : Prop :=
  match s.phase with
  | .idle | .published => s.pointer 0 = none
  | .acquiring paint =>
    s.pointer 0 = none ∧ (paint.width : ℤ) = s.format.width ∧ (paint.height : ℤ) = s.format.height
  | .copying paint row =>
    ∃ h frame, s.pointer 0 = some h ∧ s.heap.frameOf h = some frame ∧ Copied frame paint row
  | .numbered =>
    ∃ h frame n paint, s.pointer 0 = some h ∧ s.heap.frameOf h = some frame ∧
      frame.sequence = (n : ℕ) ∧ n + 1 = s.numbered.length ∧ s.numbered[n]? = some paint ∧
      Shows frame paint

/-- A stamp leaves what a frame shows. -/
theorem Copied.stamp {frame : VideoFrame UInt8} {paint : Paint} {row : ℕ}
    (h : Copied frame paint row) (nanos : ℤ) :
    Copied { frame with captureNanos := nanos } paint row :=
  ⟨h.width, h.height, h.length, h.rows, h.row⟩

theorem Shows.stamp {frame : VideoFrame UInt8} {paint : Paint} (h : Shows frame paint) (nanos : ℤ) :
    Shows { frame with captureNanos := nanos } paint :=
  ⟨h.width, h.height, h.data⟩

theorem Whole.stamp {s : State} {frame : VideoFrame UInt8} (h : Whole s frame) (nanos : ℤ) :
    Whole s { frame with captureNanos := nanos } := by
  obtain ⟨n, hn, hlt, paint, hpaint, hshows⟩ := h
  exact ⟨n, hn, hlt, paint, hpaint, hshows.stamp nanos⟩

/-- How many paints are numbered and not yet published. -/
def Phase.waiting : Phase → ℕ
  | .numbered => 1
  | .idle | .acquiring _ | .copying _ _ | .published => 0

/-- What holds of the heap on its own. -/
structure Kept (m : Heap UInt8) : Prop where
  linked : m.Linked none
  placed : m.Placed
  shaped : m.Shaped
  room : 2 ≤ m.pointers.length

structure Inv (s : State) : Prop where
  kept : Kept s.heap
  raster : ∀ p, s.heap.current = some p →
    ∃ pool, s.heap.pools[p]? = some pool ∧ pool.format = s.format
  counted : s.sequence = s.numbered.length
  behind : s.publishedCount + s.phase.waiting ≤ s.numbered.length
  attached : s.attached → s.publishedCount + s.phase.waiting = s.numbered.length
  atPaint : AtPaint s
  alone : ∀ h, s.pointer 0 = some h → ∀ i, s.pointer i = some h → i = 0
  whole : ∀ i h, 1 ≤ i → s.pointer i = some h → ∃ frame, s.heap.frameOf h = some frame ∧ Whole s frame
  newest : ∀ h, s.pointer 1 = some h →
    ∃ frame, s.heap.frameOf h = some frame ∧ frame.sequence + 1 = s.publishedCount
  slots : s.attached →
    s.publishedCount = s.overwrittenCount + s.taken + if (s.pointer 1).isSome then 1 else 0

variable {s t : State} {i j h : ℕ} {v : Option ℕ}

theorem pointer_eq_some : s.pointer i = some h ↔ s.heap.pointers[i]? = some (some h) :=
  Option.join_eq_some_iff

theorem mem_of_pointer (hp : s.pointer i = some h) : some h ∈ s.heap.pointers :=
  List.mem_of_getElem? (pointer_eq_some.mp hp)

/-- A pointer that is assigned a copy of another keeps the heap as it should be. -/
theorem Kept.assign {m : Heap UInt8} (hm : Kept m) (i : ℕ)
    (hv : ∀ k, v = some k → some k ∈ m.pointers) : Kept (m.assign i v) where
  linked := hm.linked.assign i hv
  placed := hm.placed.assign hm.linked i hv
  shaped := hm.shaped.assign hm.linked i hv
  room := by
    rw [Heap.pointers_assign, List.length_set]
    exact hm.room

theorem Kept.create {m : Heap UInt8} (hm : Kept m) (format : VideoFormat) :
    Kept (m.create format) where
  linked := hm.linked.create format
  placed := hm.placed.create format
  shaped := hm.shaped.create hm.linked format
  room := by
    rw [Heap.pointers_create]
    exact hm.room

theorem Kept.delete {m m' : Heap UInt8} (hm : Kept m) (hd : m.delete h = some m') : Kept m' where
  linked := hm.linked.delete hd
  placed := hm.placed.delete hd
  shaped := hm.shaped.delete hd
  room := by
    rw [Heap.pointers_delete hd]
    exact hm.room

/-- A step that leaves the UI thread's pointer alone and refers to no frame that was not referred
to before. -/
structure Moves (m m' : Heap UInt8) : Prop where
  kept : Kept m'
  keeps : m.Keeps m'
  first : m'.pointers[0]? = m.pointers[0]?
  rest : ∀ i h, 1 ≤ i → m'.pointers[i]? = some (some h) →
    ∃ k, 1 ≤ k ∧ m.pointers[k]? = some (some h)

/-- A pointer of somebody else's takes the value of one. -/
theorem Moves.assign {m : Heap UInt8} (hm : Kept m) (hj : 1 ≤ j)
    (hv : ∀ k, v = some k → ∃ i, 1 ≤ i ∧ m.pointers[i]? = some (some k)) :
    Moves m (m.assign j v) where
  kept := hm.assign j fun k hk ↦ by
    obtain ⟨i, -, hi⟩ := hv k hk
    exact List.mem_of_getElem? hi
  keeps := Heap.keeps_assign hm.linked j fun k hk ↦ by
    obtain ⟨i, -, hi⟩ := hv k hk
    exact List.mem_of_getElem? hi
  first := by
    rw [Heap.pointers_assign, List.getElem?_set_ne (by omega)]
  rest := by
    intro i h hi hp
    rw [Heap.pointers_assign] at hp
    by_cases hij : j = i
    · subst hij
      by_cases hlt : j < m.pointers.length
      · rw [List.getElem?_set_self hlt] at hp
        exact hv h (Option.some.inj hp)
      · rw [List.getElem?_eq_none (by rw [List.length_set]; omega)] at hp
        cases hp
    · rw [List.getElem?_set_ne hij] at hp
      exact ⟨i, hi, hp⟩

theorem Moves.trans {m₁ m₂ m₃ : Heap UInt8} (h : Moves m₁ m₂) (h' : Moves m₂ m₃) :
    Moves m₁ m₃ where
  kept := h'.kept
  keeps := h.keeps.trans h'.keeps
  first := h'.first.trans h.first
  rest := by
    intro i k hi hp
    obtain ⟨j, hj, hpj⟩ := h'.rest i k hi hp
    exact h.rest j k hj hpj

/-- The frame that the UI thread is at stays as it is. -/
theorem AtPaint.moves {heap' : Heap UInt8} (hs : AtPaint s)
    (hkeeps : s.heap.Keeps heap') (hfirst : heap'.pointers[0]? = s.heap.pointers[0]?)
    (hheap : t.heap = heap') (hphase : t.phase = s.phase) (hnumbered : t.numbered = s.numbered)
    (hformat : s.phase.locks → t.format = s.format) : AtPaint t := by
  have hpointer : t.pointer 0 = s.pointer 0 := by
    rw [State.pointer, State.pointer, hheap, hfirst]
  rw [AtPaint] at hs ⊢
  rw [hphase, hpointer, hnumbered, hheap]
  revert hs hformat
  cases s.phase with
  | idle => exact fun hs _ ↦ hs
  | published => exact fun hs _ ↦ hs
  | acquiring paint =>
    intro hs hformat
    rw [hformat rfl]
    exact hs
  | copying paint row =>
    rintro ⟨h, frame, hp, hframe, hcopied⟩ -
    obtain ⟨nanos, hframe'⟩ := hkeeps h frame hframe
    exact ⟨h, _, hp, hframe', hcopied.stamp nanos⟩
  | numbered =>
    rintro ⟨h, frame, n, paint, hp, hframe, hsequence, hlength, hpaint, hshows⟩ -
    obtain ⟨nanos, hframe'⟩ := hkeeps h frame hframe
    exact ⟨h, _, n, paint, hp, hframe', hsequence, hlength, hpaint, hshows.stamp nanos⟩

/-- Whatever others do with the frames they have. -/
theorem Inv.moves (hs : Inv s) (hm : Moves s.heap t.heap)
    (hraster : ∀ p, t.heap.current = some p →
      ∃ pool, t.heap.pools[p]? = some pool ∧ pool.format = t.format)
    (hformat : s.phase.locks → t.format = s.format) (hsequence : t.sequence = s.sequence)
    (hphase : t.phase = s.phase)
    (hnumbered : t.numbered = s.numbered) (hpublished : t.publishedCount = s.publishedCount)
    (hattached : t.attached → s.attached)
    (hslot : t.pointer 1 = s.pointer 1 ∨ t.pointer 1 = none)
    (hslots : t.attached → t.publishedCount =
      t.overwrittenCount + t.taken + if (t.pointer 1).isSome then 1 else 0) : Inv t where
  kept := hm.kept
  raster := hraster
  counted := by
    rw [hsequence, hnumbered]
    exact hs.counted
  behind := by
    rw [hpublished, hphase, hnumbered]
    exact hs.behind
  attached := by
    intro ha
    rw [hpublished, hphase, hnumbered]
    exact hs.attached (hattached ha)
  atPaint := hs.atPaint.moves hm.keeps hm.first rfl hphase hnumbered hformat
  alone := by
    intro k hk i hi
    have hfirst : s.pointer 0 = some k := by
      rw [pointer_eq_some, ← hm.first, ← pointer_eq_some, hk]
    by_contra hne
    obtain ⟨i', hi', hp⟩ := hm.rest i k (by omega) (pointer_eq_some.mp hi)
    have hzero := hs.alone k hfirst i' (pointer_eq_some.mpr hp)
    omega
  whole := by
    intro i k hi hp
    obtain ⟨i', hi', hp'⟩ := hm.rest i k hi (pointer_eq_some.mp hp)
    obtain ⟨frame, hframe, hwhole⟩ := hs.whole i' k hi' (pointer_eq_some.mpr hp')
    obtain ⟨nanos, hframe'⟩ := hm.keeps k frame hframe
    refine ⟨_, hframe', ?_⟩
    rw [Whole, hpublished, hnumbered]
    exact hwhole.stamp nanos
  newest := by
    intro k hk
    rcases hslot with hsame | hnone
    · rw [hsame] at hk
      obtain ⟨frame, hframe, hn⟩ := hs.newest k hk
      obtain ⟨nanos, hframe'⟩ := hm.keeps k frame hframe
      refine ⟨_, hframe', ?_⟩
      rw [hpublished]
      exact hn
    · rw [hnone] at hk
      cases hk
  slots := hslots

/-- The current pool has the raster of the client, as long as neither changes. -/
theorem Inv.raster_of_samePools (hs : Inv s) (hpools : s.heap.SamePools t.heap)
    (hformat : t.format = s.format) (p : ℕ) (hp : t.heap.current = some p) :
    ∃ pool, t.heap.pools[p]? = some pool ∧ pool.format = t.format := by
  rw [hpools.current] at hp
  obtain ⟨pool, hpool, heq⟩ := hs.raster p hp
  obtain ⟨pool', hpool', heq'⟩ := hpools.format p pool hpool
  exact ⟨pool', hpool', by rw [heq', heq, hformat]⟩

/-! ## The steps of the others -/

private theorem inv_setFormat (hs : Inv s) (format : VideoFormat) (hlocks : s.phase.locks = false) :
    Inv (s.setFormat format) := by
  rw [State.setFormat]
  split
  · exact hs
  · have hpointers : (s.heap.create format).pointers = s.heap.pointers :=
      Heap.pointers_create s.heap format
    have hpointer : ∀ i, (State.pointer { s with format, heap := s.heap.create format } i) =
        s.pointer i := fun i ↦ by rw [State.pointer, State.pointer, hpointers]
    apply hs.moves
    · refine ⟨hs.kept.create format, Heap.keeps_create s.heap format, ?_, ?_⟩
      · rw [hpointers]
      · intro i h hi hp
        rw [hpointers] at hp
        exact ⟨i, hi, hp⟩
    · intro p hp
      obtain ⟨pool, hcur, hpool, hformat⟩ := Heap.current_create s.heap format
      cases hcur.symm.trans hp
      exact ⟨pool, hpool, hformat⟩
    · exact fun h ↦ absurd (hlocks.symm.trans h) Bool.false_ne_true
    · rfl
    · rfl
    · rfl
    · rfl
    · exact id
    · exact .inl (hpointer 1)
    · rw [hpointer 1]
      exact hs.slots

private theorem inv_destroy (hs : Inv s) : Inv { s with heap := s.heap.setPool none } := by
  have hpointers : (s.heap.setPool none).pointers = s.heap.pointers :=
    Heap.pointers_setPool s.heap none
  have hpointer : ∀ i, (State.pointer { s with heap := s.heap.setPool none } i) = s.pointer i :=
    fun i ↦ by rw [State.pointer, State.pointer, hpointers]
  have hlinked : (s.heap.setPool none).Linked none := hs.kept.linked.setPool of_none_eq_some
  apply hs.moves
  · refine ⟨⟨hlinked, ?_, hs.kept.shaped.setPool none, ?_⟩, Heap.keeps_setPool s.heap none, ?_, ?_⟩
    · intro b
      rw [Heap.places_setPool, Heap.frames_setPool]
      exact hs.kept.placed b
    · rw [hpointers]
      exact hs.kept.room
    · rw [hpointers]
    · intro i h hi hp
      rw [hpointers] at hp
      exact ⟨i, hi, hp⟩
  · intro p hp
    rw [Heap.current_setPool] at hp
    cases hp
  · exact fun _ ↦ rfl
  · rfl
  · rfl
  · rfl
  · rfl
  · exact id
  · exact .inl (hpointer 1)
  · rw [hpointer 1]
    exact hs.slots

private theorem inv_delete {heap : Heap UInt8} (hs : Inv s) (hd : s.heap.delete h = some heap) :
    Inv { s with heap } := by
  have hpointers := Heap.pointers_delete hd
  have hpointer : ∀ i, (State.pointer { s with heap } i) = s.pointer i :=
    fun i ↦ by rw [State.pointer, State.pointer, hpointers]
  apply hs.moves
  · refine ⟨hs.kept.delete hd, Heap.keeps_delete hd, by rw [hpointers], ?_⟩
    intro i k hi hp
    rw [hpointers] at hp
    exact ⟨i, hi, hp⟩
  · exact hs.raster_of_samePools (Heap.samePools_delete hd) rfl
  · exact fun _ ↦ rfl
  · rfl
  · rfl
  · rfl
  · rfl
  · exact id
  · exact .inl (hpointer 1)
  · rw [hpointer 1]
    exact hs.slots

/-- The value of a pointer is one that may be copied. -/
theorem copied_pointer (hi : 1 ≤ i) (k : ℕ) (hk : s.pointer i = some k) :
    ∃ i, 1 ≤ i ∧ s.heap.pointers[i]? = some (some k) :=
  ⟨i, hi, pointer_eq_some.mp hk⟩

/-- Assigning a pointer that is neither the UI thread's nor the slot's. -/
private theorem inv_assign (hs : Inv s) (hj : 2 ≤ j)
    (hv : ∀ k, v = some k → ∃ i, 1 ≤ i ∧ s.heap.pointers[i]? = some (some k)) :
    Inv { s with heap := s.heap.assign j v } := by
  have hone : State.pointer { s with heap := s.heap.assign j v } 1 = s.pointer 1 := by
    rw [State.pointer, State.pointer, Heap.pointers_assign, List.getElem?_set_ne (by omega)]
  apply hs.moves
  · exact Moves.assign hs.kept (by omega) hv
  · exact hs.raster_of_samePools (Heap.samePools_assign s.heap j v) rfl
  · exact fun _ ↦ rfl
  · rfl
  · rfl
  · rfl
  · rfl
  · exact id
  · exact .inl hone
  · rw [hone]
    exact hs.slots

private theorem inv_destroySlot (hs : Inv s) (ha : s.attached = false) :
    Inv { s with heap := s.heap.assign 1 none } := by
  have hone : State.pointer { s with heap := s.heap.assign 1 none } 1 = none := by
    rw [State.pointer, Heap.pointers_assign, List.getElem?_set_self (by have := hs.kept.room; omega)]
    rfl
  apply hs.moves
  · exact Moves.assign hs.kept (Nat.le_refl 1) of_none_eq_some
  · exact hs.raster_of_samePools (Heap.samePools_assign s.heap 1 none) rfl
  · exact fun _ ↦ rfl
  · rfl
  · rfl
  · rfl
  · rfl
  · exact id
  · exact .inr hone
  · exact fun hattached ↦ absurd (ha.symm.trans hattached) (by decide)

private theorem inv_take (hs : Inv s) (hj : 2 ≤ j) : Inv (s.take j) := by
  have hmoves := Moves.assign (v := s.pointer 1) hs.kept (show 1 ≤ j by omega)
    (copied_pointer (Nat.le_refl 1))
  have hone : (s.take j).pointer 1 = none := by
    rw [State.pointer, State.take, Heap.pointers_assign, List.getElem?_set_self (by
      have := hmoves.kept.room
      omega)]
    rfl
  apply hs.moves
  · exact hmoves.trans (Moves.assign hmoves.kept (Nat.le_refl 1) of_none_eq_some)
  · have hfirst := Heap.samePools_assign s.heap j (s.pointer 1)
    have hsecond := Heap.samePools_assign (s.heap.assign j (s.pointer 1)) 1 none
    refine hs.raster_of_samePools ⟨hsecond.current.trans hfirst.current, ?_⟩ rfl
    intro p pool hp
    obtain ⟨pool', hp', hformat⟩ := hfirst.format p pool hp
    obtain ⟨pool'', hp'', hformat'⟩ := hsecond.format p pool' hp'
    exact ⟨pool'', hp'', hformat'.trans hformat⟩
  · exact fun _ ↦ rfl
  · rfl
  · rfl
  · rfl
  · rfl
  · exact id
  · exact .inr hone
  · intro ha
    have hslots := hs.slots ha
    rw [hone]
    show s.publishedCount = s.overwrittenCount + (s.taken + _) + 0
    omega

/-- The clock's stamp is not what a frame shows. -/
theorem Moves.stamp {m : Heap UInt8} (hm : Kept m) (j : ℕ) (nanos : ℤ) :
    Moves m (m.write j fun frame ↦ { frame with captureNanos := nanos }) := by
  have hkept : Kept (m.write j fun frame ↦ { frame with captureNanos := nanos }) := by
    cases hj : m.pointers[j]? with
    | none =>
      have hsame : m.write j (fun frame ↦ { frame with captureNanos := nanos }) = m := by
        simp only [Heap.write, hj]
      rw [hsame]
      exact hm
    | some v =>
      cases v with
      | none =>
        have hsame : m.write j (fun frame ↦ { frame with captureNanos := nanos }) = m := by
          simp only [Heap.write, hj]
        rw [hsame]
        exact hm
      | some k =>
        refine ⟨hm.linked.write hj, hm.placed.write hm.linked hj,
          hm.shaped.write hm.linked hj fun _ _ ↦ ⟨rfl, rfl⟩, ?_⟩
        rw [Heap.pointers_write]
        exact hm.room
  refine ⟨hkept, Heap.keeps_write m j fun _ ↦ ⟨nanos, rfl⟩, by rw [Heap.pointers_write], ?_⟩
  intro i h hi hp
  rw [Heap.pointers_write] at hp
  exact ⟨i, hi, hp⟩

private theorem inv_stamp (hs : Inv s) (j : ℕ) (nanos : ℤ) :
    Inv { s with heap := s.heap.write j fun frame ↦ { frame with captureNanos := nanos } } := by
  have hpointer : ∀ i, State.pointer
      { s with heap := s.heap.write j fun frame ↦ { frame with captureNanos := nanos } } i =
        s.pointer i := fun i ↦ by rw [State.pointer, State.pointer, Heap.pointers_write]
  apply hs.moves
  · exact Moves.stamp hs.kept j nanos
  · exact hs.raster_of_samePools (Heap.samePools_write s.heap j _) rfl
  · exact fun _ ↦ rfl
  · rfl
  · rfl
  · rfl
  · rfl
  · exact id
  · exact .inl (hpointer 1)
  · rw [hpointer 1]
    exact hs.slots

/-! ## The steps of the UI thread -/

/-- A row that is in both buffers is copied, and is all that changes. -/
theorem copyRow_spec {width height y : ℕ} {source dst : List UInt8}
    (hsource : source.length = width * 4 * height) (hdst : dst.length = source.length)
    (hy : y < height) :
    ∃ data, copyRow source (width * 4) dst (width * 4) width height false y = some data ∧
      data.length = source.length ∧
      (dst.take (y * (width * 4)) = source.take (y * (width * 4)) →
        data.take ((y + 1) * (width * 4)) = source.take ((y + 1) * (width * 4))) := by
  have hfit : (y + 1) * (width * 4) ≤ width * 4 * height := by
    rw [Nat.mul_comm]
    exact Nat.mul_le_mul_left _ hy
  have hnext : (y + 1) * (width * 4) = y * (width * 4) + width * 4 := Nat.succ_mul y _
  have hstart : ((y : ℤ) * (width * 4)).toNat = y * (width * 4) := by
    rw [← Int.toNat_natCast (y * (width * 4))]
    push_cast
    rfl
  have hcast : ((y * (width * 4) : ℕ) : ℤ) = (y : ℤ) * (width * 4) := by push_cast; rfl
  have hrow : ((source.drop (y * (width * 4))).take (width * 4)).length = width * 4 := by
    rw [List.length_take, List.length_drop]
    omega
  have hpos : 0 ≤ (y : ℤ) * (width * 4) := hcast ▸ Int.natCast_nonneg _
  refine ⟨Circular.overwrite dst (y * (width * 4))
    ((source.drop (y * (width * 4))).take (width * 4)), ?_, ?_, ?_⟩
  · show ((Buffer.peek source (y * (width * 4)) (width * 4)).bind fun row ↦
      Buffer.poke dst (y * (width * 4)) row) = _
    rw [Buffer.peek, if_pos ⟨hpos, by push_cast; omega⟩, Option.bind_some, hstart, Buffer.poke,
      hrow, if_pos ⟨hpos, by push_cast; omega⟩, hstart]
  · rw [Circular.length_overwrite (by rw [hrow]; omega), hdst]
  · intro hbefore
    rw [Circular.overwrite, hnext, ← List.append_assoc, List.take_left'
      (by rw [List.length_append, hrow, List.length_take]; omega), List.take_add, hbefore]

/-- The UI thread has a frame for a paint of the client's raster. -/
private theorem inv_acquires {paint : Paint} {heap : Heap UInt8} (hs : Inv s)
    (hwaiting : s.phase.waiting = 0) (hwidth : (paint.width : ℤ) = s.format.width)
    (hheight : (paint.height : ℤ) = s.format.height) (h : s.heap.Acquires heap 0) :
    Inv { s with heap, phase := .copying paint 0 } := by
  have hroom := hs.kept.room
  obtain ⟨p, pool, frame, hcur, hpool, hframe, hformat, hlength⟩ := h.frame
  have hpointers := h.pointers
  have hzero : State.pointer { s with heap, phase := .copying paint 0 } 0 =
      some s.heap.controls.length := by
    rw [State.pointer, hpointers, List.getElem?_set_self (by omega)]
    rfl
  have hother : ∀ i, i ≠ 0 →
      State.pointer { s with heap, phase := .copying paint 0 } i = s.pointer i := by
    intro i hi
    rw [State.pointer, State.pointer, hpointers, List.getElem?_set_ne (Ne.symm hi)]
  obtain ⟨pool', hpool', hraster⟩ := hs.raster p hcur
  cases hpool.symm.trans hpool'
  refine ⟨⟨h.linked, h.placed, h.shaped, ?_⟩,
    hs.raster_of_samePools (t := { s with heap, phase := .copying paint 0 }) h.pools rfl,
    hs.counted, ?_, ?_, ?_, ?_, ?_, ?_, ?_⟩
  · rw [hpointers, List.length_set]
    exact hroom
  · have hbehind := hs.behind
    rw [hwaiting] at hbehind
    exact hbehind
  · have hattached := hs.attached
    rw [hwaiting] at hattached
    exact hattached
  · refine ⟨_, frame, hzero, hframe, ?_, ?_, ?_, ?_, Nat.zero_le _⟩
    · rw [hformat, hraster, hwidth]
    · rw [hformat, hraster, hheight]
    · have hrow : ((paint.width : ℤ) * 4).toNat = paint.width * 4 := by omega
      rw [hlength, paint.packed, bufferSize, rowBytes, hraster, ← hwidth, ← hheight, hrow,
        Int.toNat_natCast]
    · rw [Nat.zero_mul, List.take_zero, List.take_zero]
  · -- no pointer refers to a block that was not there
    intro k hk i hi
    rw [hzero] at hk
    cases hk
    by_contra hne
    rw [hother i hne] at hi
    exact Nat.lt_irrefl _ (hs.kept.linked.known _ (mem_of_pointer hi))
  · intro i k hi hk
    rw [hother i (by omega)] at hk
    obtain ⟨g, hg, hwhole⟩ := hs.whole i k hi hk
    obtain ⟨nanos, hg'⟩ := h.keeps k g hg
    exact ⟨_, hg', hwhole.stamp nanos⟩
  · intro k hk
    rw [hother 1 (by decide)] at hk
    obtain ⟨g, hg, hnewest⟩ := hs.newest k hk
    obtain ⟨nanos, hg'⟩ := h.keeps k g hg
    exact ⟨_, hg', hnewest⟩
  · rw [hother 1 (by decide)]
    exact hs.slots

/-- A pointer of the UI thread's that refers to nothing is there. -/
theorem Inv.empty (hs : Inv s) (hnone : s.pointer 0 = none) : s.heap.pointers[0]? = some none := by
  have hroom := hs.kept.room
  have hget := List.getElem?_eq_getElem (show 0 < s.heap.pointers.length by omega)
  rw [State.pointer, hget] at hnone
  rw [hget]
  exact congrArg some hnone

private theorem inv_onPaint (view : Bool) (paint : Paint) (hs : Inv s) (hidle : s.phase = .idle) :
    Inv (s.onPaint view paint) := by
  rw [State.onPaint]
  split
  · exact hs
  · split
    · exact hs
    · next hsize =>
      simp only [not_or, not_not] at hsize
      have hnone := hs.atPaint
      rw [AtPaint, hidle] at hnone
      split
      · next heap hpop =>
        exact inv_acquires hs (by rw [hidle]; rfl) hsize.1 hsize.2
          (Heap.acquires_pop hs.kept.linked hs.kept.placed hs.kept.shaped (hs.empty hnone) hpop)
      · refine { hs with behind := ?_, attached := ?_, atPaint := ⟨hnone, hsize.1, hsize.2⟩ }
        · have hbehind := hs.behind
          rw [hidle] at hbehind
          exact hbehind
        · have hattached := hs.attached
          rw [hidle] at hattached
          exact hattached

private theorem inv_make {paint : Paint} {heap : Heap UInt8} (hs : Inv s)
    (hphase : s.phase = .acquiring paint) (hmake : s.heap.make 0 0 = some heap) :
    Inv { s with heap, phase := .copying paint 0 } := by
  have hatPaint := hs.atPaint
  rw [AtPaint, hphase] at hatPaint
  obtain ⟨hnone, hwidth, hheight⟩ := hatPaint
  exact inv_acquires hs (by rw [hphase]; rfl) hwidth hheight
    (Heap.acquires_make hs.kept.linked hs.kept.placed hs.kept.shaped (hs.empty hnone) hmake)

/-- The UI thread writes to the frame that it alone refers to. -/
private theorem inv_write {frame : VideoFrame UInt8} (hs : Inv s) (hp : s.pointer 0 = some h)
    (hframe : s.heap.frameOf h = some frame) {f : VideoFrame UInt8 → VideoFrame UInt8}
    (hf : (f frame).format = frame.format ∧ (f frame).data.length = frame.data.length)
    (hheap : t.heap = s.heap.write 0 f) (hformat : t.format = s.format)
    (hpublished : t.publishedCount = s.publishedCount) (hattached : t.attached = s.attached)
    (hslots : t.overwrittenCount + t.taken = s.overwrittenCount + s.taken)
    (hcounted : t.sequence = t.numbered.length)
    (hbehind : t.publishedCount + t.phase.waiting ≤ t.numbered.length)
    (hup : t.attached → t.publishedCount + t.phase.waiting = t.numbered.length)
    (hnumbered : ∀ (n : ℕ) (paint : Paint), s.numbered[n]? = some paint →
      t.numbered[n]? = some paint)
    (hatPaint : t.pointer 0 = some h → t.heap.frameOf h = some (f frame) → AtPaint t) : Inv t := by
  have hpointer := pointer_eq_some.mp hp
  have hsame : ∀ i, t.pointer i = s.pointer i := by
    intro i
    rw [State.pointer, State.pointer, hheap, Heap.pointers_write]
  -- nobody else refers to the frame that is written to
  have hothers : ∀ i k, 1 ≤ i → s.pointer i = some k →
      t.heap.frameOf k = s.heap.frameOf k := by
    intro i k hi hk
    rw [hheap]
    apply Heap.frameOf_write_ne hs.kept.linked hs.kept.placed hpointer (mem_of_pointer hk)
    intro heq
    subst heq
    have hzero := hs.alone _ hp i hk
    omega
  have hsamePools : s.heap.SamePools t.heap := by
    rw [hheap]
    exact Heap.samePools_write s.heap 0 f
  refine ⟨?_, hs.raster_of_samePools hsamePools hformat, hcounted, hbehind, hup, ?_, ?_, ?_, ?_, ?_⟩
  · rw [hheap]
    refine ⟨hs.kept.linked.write hpointer, hs.kept.placed.write hs.kept.linked hpointer, ?_, ?_⟩
    · apply hs.kept.shaped.write hs.kept.linked hpointer
      intro g hg
      cases hframe.symm.trans hg
      exact hf
    · rw [Heap.pointers_write]
      exact hs.kept.room
  · apply hatPaint
    · rw [hsame, hp]
    · rw [hheap]
      exact Heap.frameOf_write_self hpointer hframe
  · intro k hk i hi
    rw [hsame] at hk hi
    exact hs.alone k hk i hi
  · intro i k hi hk
    rw [hsame] at hk
    obtain ⟨g, hg, n, hn, hlt, paint, hpaint, hshows⟩ := hs.whole i k hi hk
    refine ⟨g, (hothers i k hi hk).trans hg, n, hn, ?_, paint, hnumbered n paint hpaint, hshows⟩
    rw [hpublished]
    exact hlt
  · intro k hk
    rw [hsame] at hk
    obtain ⟨g, hg, hn⟩ := hs.newest k hk
    refine ⟨g, (hothers 1 k (Nat.le_refl 1) hk).trans hg, ?_⟩
    rw [hpublished]
    exact hn
  · intro ha
    have hbefore := hs.slots (hattached ▸ ha)
    rw [hsame, hpublished, hslots]
    exact hbefore

private theorem inv_copy {paint : Paint} {row : ℕ} (hs : Inv s)
    (hphase : s.phase = .copying paint row) (ht : s.copy paint row = some t) : Inv t := by
  have hatPaint := hs.atPaint
  have hbehind := hs.behind
  have hattached := hs.attached
  rw [AtPaint, hphase] at hatPaint
  rw [hphase] at hbehind hattached
  change s.publishedCount + 0 ≤ _ at hbehind
  change _ → s.publishedCount + 0 = _ at hattached
  obtain ⟨h, frame, hp, hframe, hcopied⟩ := hatPaint
  have hderef : s.heap.deref 0 = some frame := by
    rw [Heap.deref, pointer_eq_some.mp hp]
    exact hframe
  rw [State.copy] at ht
  by_cases hrow : row < paint.height
  · rw [if_pos hrow, hderef, Option.bind_some] at ht
    obtain ⟨data, hdata, rfl⟩ := Option.map_eq_some_iff.mp ht
    rw [rowBytes, hcopied.width] at hdata
    obtain ⟨data', hdata', hlength, hrows⟩ := copyRow_spec paint.packed hcopied.length hrow
    cases hdata.symm.trans hdata'
    apply inv_write hs hp hframe (f := fun frame ↦ { frame with data }) ⟨rfl, ?_⟩
    · rfl
    · rfl
    · rfl
    · rfl
    · rfl
    · exact hs.counted
    · exact hbehind
    · exact hattached
    · exact fun n paint hn ↦ hn
    · intro hp' hframe'
      exact ⟨h, _, hp', hframe', hcopied.width, hcopied.height, hlength, hrows hcopied.rows, hrow⟩
    · exact hlength.trans hcopied.length.symm
  · rw [if_neg hrow] at ht
    cases ht
    have hend : row = paint.height := Nat.le_antisymm hcopied.row (Nat.le_of_not_lt hrow)
    -- after the last row the frame has the whole of the paint
    have hwhole : frame.data = paint.buffer := by
      have hall : row * (paint.width * 4) = paint.buffer.length := by
        rw [hend, paint.packed, Nat.mul_comm]
      have hrows := hcopied.rows
      rw [hall, List.take_length, ← hcopied.length, List.take_length] at hrows
      exact hrows
    apply inv_write hs hp hframe (f := fun frame ↦ { frame with sequence := s.sequence }) ⟨rfl, rfl⟩
    · rfl
    · rfl
    · rfl
    · rfl
    · rfl
    · show s.sequence + 1 = ((s.numbered ++ [paint]).length : ℤ)
      rw [hs.counted, List.length_append, List.length_singleton]
      rfl
    · show s.publishedCount + 1 ≤ (s.numbered ++ [paint]).length
      rw [List.length_append, List.length_singleton]
      omega
    · intro ha
      have heq := hattached ha
      show s.publishedCount + 1 = (s.numbered ++ [paint]).length
      rw [List.length_append, List.length_singleton]
      omega
    · intro n paint' hn
      show (s.numbered ++ [paint])[n]? = some paint'
      rw [List.getElem?_append_left (List.getElem?_eq_some_iff.mp hn).1, hn]
    · intro hp' hframe'
      refine ⟨h, _, s.numbered.length, paint, hp', hframe', hs.counted, ?_, ?_, ?_⟩
      · show s.numbered.length + 1 = (s.numbered ++ [paint]).length
        rw [List.length_append, List.length_singleton]
      · exact List.getElem?_concat_length
      · exact ⟨hcopied.width, hcopied.height, hwhole⟩

private theorem inv_publish (hs : Inv s) (hphase : s.phase = .numbered) : Inv s.publish := by
  have hatPaint := hs.atPaint
  have hbehind := hs.behind
  have hattached := hs.attached
  have hroom := hs.kept.room
  rw [AtPaint, hphase] at hatPaint
  rw [hphase] at hbehind hattached
  change s.publishedCount + 1 ≤ _ at hbehind
  change _ → s.publishedCount + 1 = _ at hattached
  obtain ⟨h, frame, n, paint, hp, hframe, hsequence, hlength, hpaint, hshows⟩ := hatPaint
  have hmem := mem_of_pointer hp
  have hcopy : ∀ k, s.pointer 0 = some k → some k ∈ s.heap.pointers := fun k hk ↦ mem_of_pointer hk
  rw [State.publish]
  by_cases ha : s.attached
  · rw [if_pos ha]
    have hkept := hs.kept.assign 1 hcopy
    have hsame := Heap.samePools_assign s.heap 1 (s.pointer 0)
    have hsame' := Heap.samePools_assign (s.heap.assign 1 (s.pointer 0)) 0 none
    have hkeeps := (Heap.keeps_assign hs.kept.linked 1 hcopy).trans
      (Heap.keeps_assign hkept.linked 0 (v := none) of_none_eq_some)
    have hpools : s.heap.SamePools ((s.heap.assign 1 (s.pointer 0)).assign 0 none) := by
      refine ⟨hsame'.current.trans hsame.current, fun p pool hpool ↦ ?_⟩
      obtain ⟨pool', hpool', hformat⟩ := hsame.format p pool hpool
      obtain ⟨pool'', hpool'', hformat'⟩ := hsame'.format p pool' hpool'
      exact ⟨pool'', hpool'', hformat'.trans hformat⟩
    have hpointers : ((s.heap.assign 1 (s.pointer 0)).assign 0 none).pointers =
        (s.heap.pointers.set 1 (some h)).set 0 none := by
      rw [Heap.pointers_assign, Heap.pointers_assign, hp]
    have hgone : n = s.publishedCount := by have := hattached ha; omega
    generalize hheap : (s.heap.assign 1 (s.pointer 0)).assign 0 none = heap at *
    have hzero : (heap.pointers[0]?).join = none := by
      rw [hpointers, List.getElem?_set_self (by rw [List.length_set]; omega)]
      rfl
    have hone : (heap.pointers[1]?).join = some h := by
      rw [hpointers, List.getElem?_set_ne (by decide), List.getElem?_set_self (by omega)]
      rfl
    have hrest : ∀ i, 2 ≤ i → (heap.pointers[i]?).join = s.pointer i := by
      intro i hi
      rw [hpointers, List.getElem?_set_ne (by omega), List.getElem?_set_ne (by omega)]
      rfl
    refine ⟨hheap ▸ hkept.assign 0 of_none_eq_some,
      hs.raster_of_samePools (t := { s with heap }) hpools rfl, hs.counted, ?_, ?_, hzero, ?_, ?_,
      ?_, ?_⟩
    · show s.publishedCount + 1 + 0 ≤ _
      exact hbehind
    · intro _
      show s.publishedCount + 1 + 0 = _
      exact hattached ha
    · intro k hk
      rw [State.pointer, hzero] at hk
      cases hk
    · intro i k hi hk
      have hmore : ∀ g, Whole s g → g.sequence < (s.publishedCount + 1 : ℕ) ∧
          ∃ n : ℕ, g.sequence = n ∧ n < s.publishedCount + 1 ∧
            ∃ paint, s.numbered[n]? = some paint ∧ Shows g paint := by
        rintro g ⟨n, hn, hlt, hrest⟩
        exact ⟨by omega, n, hn, by omega, hrest⟩
      by_cases hi1 : i = 1
      · subst hi1
        rw [State.pointer, hone] at hk
        cases hk
        obtain ⟨nanos, hframe'⟩ := hkeeps h frame hframe
        exact ⟨_, hframe', n, hsequence, by show n < s.publishedCount + 1; omega, paint, hpaint,
          hshows.stamp nanos⟩
      · rw [State.pointer, hrest i (by omega)] at hk
        obtain ⟨g, hg, hwhole⟩ := hs.whole i k hi hk
        obtain ⟨nanos, hg'⟩ := hkeeps k g hg
        exact ⟨_, hg', (hmore _ (hwhole.stamp nanos)).2⟩
    · intro k hk
      rw [State.pointer, hone] at hk
      cases hk
      obtain ⟨nanos, hframe'⟩ := hkeeps h frame hframe
      refine ⟨_, hframe', ?_⟩
      show frame.sequence + 1 = ((s.publishedCount + 1 : ℕ) : ℤ)
      omega
    · intro _
      have hslots := hs.slots ha
      show s.publishedCount + 1 = s.overwrittenCount + _ + s.taken +
        if ((heap.pointers[1]?).join).isSome then 1 else 0
      rw [hone]
      show s.publishedCount + 1 = s.overwrittenCount + _ + s.taken + 1
      omega
  · rw [if_neg ha]
    have hmoved := Heap.keeps_assign hs.kept.linked 0 (v := none) of_none_eq_some
    have hzero : State.pointer { s with heap := s.heap.assign 0 none, phase := .idle } 0 = none := by
      rw [State.pointer, Heap.pointers_assign, List.getElem?_set_self (by omega)]
      rfl
    have hother : ∀ i, 1 ≤ i →
        State.pointer { s with heap := s.heap.assign 0 none, phase := .idle } i = s.pointer i := by
      intro i hi
      rw [State.pointer, State.pointer, Heap.pointers_assign, List.getElem?_set_ne (by omega)]
    refine ⟨hs.kept.assign 0 of_none_eq_some, hs.raster_of_samePools
      (t := { s with heap := s.heap.assign 0 none }) (Heap.samePools_assign s.heap 0 none) rfl,
      hs.counted, ?_, ?_, hzero, ?_, ?_, ?_, ?_⟩
    · show s.publishedCount + 0 ≤ s.numbered.length
      omega
    · exact fun hattached ↦ absurd hattached ha
    · intro k hk
      rw [hzero] at hk
      cases hk
    · intro i k hi hk
      rw [hother i hi] at hk
      obtain ⟨g, hg, hwhole⟩ := hs.whole i k hi hk
      obtain ⟨nanos, hg'⟩ := hmoved k g hg
      exact ⟨_, hg', hwhole.stamp nanos⟩
    · intro k hk
      rw [hother 1 (Nat.le_refl 1)] at hk
      obtain ⟨g, hg, hn⟩ := hs.newest k hk
      obtain ⟨nanos, hg'⟩ := hmoved k g hg
      exact ⟨_, hg', hn⟩
    · exact fun hattached ↦ absurd hattached ha

private theorem inv_resume (hs : Inv s) (ht : s.resume = some t) : Inv t := by
  rw [State.resume] at ht
  cases hphase : s.phase with
  | idle => rw [hphase] at ht; cases ht
  | acquiring paint =>
    rw [hphase] at ht
    obtain ⟨heap, hmake, rfl⟩ := Option.map_eq_some_iff.mp ht
    exact inv_make hs hphase hmake
  | copying paint row =>
    rw [hphase] at ht
    exact inv_copy hs hphase ht
  | numbered =>
    rw [hphase] at ht
    cases ht
    exact inv_publish hs hphase
  | published =>
    rw [hphase] at ht
    cases ht
    have hatPaint := hs.atPaint
    rw [AtPaint, hphase] at hatPaint
    refine { hs with behind := ?_, attached := ?_, atPaint := hatPaint }
    · have hbehind := hs.behind
      rw [hphase] at hbehind
      exact hbehind
    · have hattached := hs.attached
      rw [hphase] at hattached
      exact hattached

theorem inv_start (format : VideoFormat) (others : ℕ) : Inv (start format others) := by
  have hnone : ∀ h, some h ∉ List.replicate (others + 2) (none : Option ℕ) := by
    intro h hmem
    exact absurd (List.eq_of_mem_replicate hmem) nofun
  have hempty : Kept ({ pointers := List.replicate (others + 2) none } : Heap UInt8) := by
    refine ⟨⟨?_, ?_, ?_, ?_, ?_, ?_, ?_⟩, ?_, ?_, ?_⟩
    · exact fun h c hc ↦ absurd hc nofun
    · exact fun h hmem ↦ absurd hmem (hnone h)
    · exact fun c hc ↦ absurd hc List.not_mem_nil
    · exact fun p pool hp ↦ absurd hp nofun
    · exact fun p hp ↦ absurd hp nofun
    · exact fun pool hpool ↦ absurd hpool List.not_mem_nil
    · exact fun pool hpool ↦ absurd hpool List.not_mem_nil
    · exact fun b ↦ rfl
    · exact fun p pool b frame hp ↦ absurd hp nofun
    · simp only [List.length_replicate, Nat.le_add_left]
  have hpointers : (start format others).heap.pointers = List.replicate (others + 2) none := by
    rw [start, Heap.pointers_create]
  have hpointer : ∀ i, (start format others).pointer i = none := by
    intro i
    rw [State.pointer, hpointers, List.getElem?_replicate]
    split <;> rfl
  refine ⟨hempty.create format, ?_, rfl, Nat.le_refl 0, fun _ ↦ rfl, hpointer 0, ?_, ?_, ?_, ?_⟩
  · intro p hp
    obtain ⟨pool, hcur, hpool, hformat⟩ :=
      Heap.current_create ({ pointers := List.replicate (others + 2) none } : Heap UInt8) format
    cases hcur.symm.trans hp
    exact ⟨pool, hpool, hformat⟩
  · intro h hh
    rw [hpointer] at hh
    cases hh
  · intro i h _ hh
    rw [hpointer] at hh
    cases hh
  · intro h hh
    rw [hpointer] at hh
    cases hh
  · intro _
    rw [hpointer]
    rfl

theorem inv_step (a : Action) (hs : Inv s) (ht : s.step a = some t) : Inv t := by
  cases a with
  | setFormat format =>
    obtain ⟨⟨-, hlocks⟩, heq⟩ := Option.ite_none_right_eq_some.mp ht
    cases heq
    exact inv_setFormat hs format hlocks
  | paint view paint =>
    obtain ⟨⟨-, hidle⟩, heq⟩ := Option.ite_none_right_eq_some.mp ht
    cases heq
    exact inv_onPaint view paint hs hidle
  | resume => exact inv_resume hs ht
  | detach =>
    cases ht
    exact { hs with attached := nofun, slots := nofun }
  | destroy =>
    obtain ⟨-, heq⟩ := Option.ite_none_right_eq_some.mp ht
    cases heq
    exact inv_destroy hs
  | destroySlot =>
    obtain ⟨ha, heq⟩ := Option.ite_none_left_eq_some.mp ht
    cases heq
    exact inv_destroySlot hs (Bool.eq_false_iff.mpr ha)
  | copy i j =>
    obtain ⟨⟨hi, hj⟩, heq⟩ := Option.ite_none_right_eq_some.mp ht
    cases heq
    exact inv_assign hs hj (copied_pointer hi)
  | take j =>
    obtain ⟨hj, heq⟩ := Option.ite_none_right_eq_some.mp ht
    cases heq
    exact inv_take hs hj
  | drop j =>
    obtain ⟨hj, heq⟩ := Option.ite_none_right_eq_some.mp ht
    cases heq
    exact inv_assign hs hj of_none_eq_some
  | stamp j nanos =>
    obtain ⟨-, heq⟩ := Option.ite_none_right_eq_some.mp ht
    cases heq
    exact inv_stamp hs j nanos
  | delete h =>
    obtain ⟨heap, hd, rfl⟩ := Option.map_eq_some_iff.mp ht
    exact inv_delete hs hd

theorem inv_reachable (h : machine.Reachable s) : Inv s := by
  apply h.invariant
  · rintro s ⟨format, others, rfl⟩
    exact inv_start format others
  · exact fun s a t _ hs ht ↦ inv_step a hs ht

end WebLinked.Browser.Paints
