import WebLinked.Base.Buffer
import WebLinked.Base.Machine
import WebLinked.Base.Pool
import WebLinked.Core.VideoFormat

/-!
# Frames and the pools they come from

`src/core/frame.h`, `src/core/frame.cpp`. A `VideoFramePtr` variable refers to a control block,
which knows the buffer and, weakly, the pool. When the last variable that refers to a block is
assigned, its deleter runs, in the three sections its locks divide it into: the weak reference is
locked, the buffer goes back, the strong reference is dropped. A pool ends with its last strong
reference. Buffers, pools and blocks are numbered in the order they are made, so that no number
is used twice. All pools here are of `kBGRA`.
-/

namespace WebLinked.Core.Frames

open WebLinked.Base

/-- `VideoFrame`; `src/core/frame.h:17–46`. -/
structure VideoFrame (β : Type) where
  format : VideoFormat
  sequence : ℤ := 0
  captureNanos : ℤ := 0
  data : List β
  deriving DecidableEq, Repr

/-- `VideoFormat::rowBytes` of `kBGRA`; `src/core/video_format.cpp:123`. -/
def rowBytes (format : VideoFormat) : ℤ := format.width * 4

/-- `VideoFormat::bufferSize`; `src/core/video_format.cpp:127`. -/
def bufferSize (format : VideoFormat) : ℕ := (rowBytes format).toNat * format.height.toNat

/-- `FramePool`, and whether it has not been destroyed; `src/core/frame.h:61–90`. -/
structure FramePool where
  format : VideoFormat
  maxRetained : ℕ := 8
  /-- `free_`, its back first. -/
  free : List ℕ := []
  alive : Bool := true
  deriving DecidableEq, Repr

/-- How far the deleter of a frame has come; `src/core/frame.cpp:55–61`. -/
inductive Stage where
  /-- A variable refers to the frame. -/
  | held
  | deleting
  /-- `weak.lock()` gave the pool. -/
  | locked
  | recycled
  | done
  deriving DecidableEq, Repr

/-- The control block of a `VideoFramePtr`; `src/core/frame.cpp:53`. -/
structure Control where
  frame : ℕ
  pool : ℕ
  stage : Stage := .held
  deriving DecidableEq, Repr

/-- Everything that frames, pools and pointers to them are kept in. -/
structure Heap (β : Type) where
  frames : List (VideoFrame β) := []
  /-- The buffers given back to the system. -/
  freed : List ℕ := []
  pools : List FramePool := []
  /-- The pool that `pool_` refers to. -/
  current : Option ℕ := none
  controls : List Control := []
  /-- Every `VideoFramePtr` variable. -/
  pointers : List (Option ℕ) := []
  deriving DecidableEq, Repr

/-- The block owns a buffer that nobody else does. -/
def Stage.owns : Stage → Bool
  | .held | .deleting | .locked => true
  | .recycled | .done => false

/-- The deleter has a strong reference to the pool. -/
def Stage.pins : Stage → Bool
  | .locked | .recycled => true
  | .held | .deleting | .done => false

/-- There is nothing to say of a value that is not there. -/
theorem of_none_eq_some {P : ℕ → Prop} (k : ℕ) (hk : none = some k) : P k := by cases hk

namespace Heap

variable {β : Type} (m : Heap β)

/-- Somebody has a strong reference to the pool. -/
def Uses (p : ℕ) : Prop :=
  m.current = some p ∨ ∃ c ∈ m.controls, c.pool = p ∧ c.stage.pins

instance (p : ℕ) : Decidable (m.Uses p) := by unfold Uses; infer_instance

/-- A strong reference to a pool has gone, and with the last one goes the pool. -/
def dropPool (p : ℕ) : Heap β :=
  if m.Uses p then m
  else
    match m.pools[p]? with
    | some pool =>
      { m with
        pools := m.pools.set p { pool with free := [], alive := false }
        freed := pool.free ++ m.freed }
    | none => m

/-- `pool_ = …`, which drops the pool that it referred to. -/
def setPool (next : Option ℕ) : Heap β :=
  match m.current with
  | some p => { m with current := next }.dropPool p
  | none => { m with current := next }

/-- `pool_ = FramePool::create(format, kBGRA)`; `src/core/frame.cpp:24`. -/
def create (format : VideoFormat) : Heap β :=
  let pool : FramePool := { format }
  Heap.setPool { m with pools := m.pools ++ [pool] } (some m.pools.length)

/-- A block for a buffer, and the variable that is the first to refer to it. -/
def adopt (i frame p : ℕ) : Heap β :=
  { m with
    controls := m.controls ++ [{ frame, pool := p }]
    pointers := m.pointers.set i (some m.controls.length) }

/-- `acquire` as far as it is locked, into a variable that is empty: the last buffer retained, if there
is one; `src/core/frame.cpp:32–40`. -/
def pop (i : ℕ) : Option (Heap β) :=
  match m.current with
  | none => none
  | some p =>
    match m.pools[p]? with
    | none => none
    | some pool =>
      match pool.free with
      | b :: rest =>
        some ({ m with pools := m.pools.set p { pool with free := rest } }.adopt i b p)
      | [] => none

/-- The rest of `acquire` where no buffer was retained: one is made, whatever has been given back since;
`src/core/frame.cpp:41–58`. -/
def make (zero : β) (i : ℕ) : Option (Heap β) :=
  match m.current with
  | none => none
  | some p =>
    match m.pools[p]? with
    | none => none
    | some pool =>
      let frame := { format := pool.format, data := List.replicate (bufferSize pool.format) zero }
      some ({ m with frames := m.frames ++ [frame] }.adopt i m.frames.length p)

/-- The deleter of a block has come to a stage. -/
def setStage (h : ℕ) (c : Control) (stage : Stage) : Heap β :=
  { m with controls := m.controls.set h { c with stage } }

/-- `variables[i] = v`. The deleter of a frame that no variable refers to any more begins. -/
def assign (i : ℕ) (v : Option ℕ) : Heap β :=
  let next := { m with pointers := m.pointers.set i v }
  match m.pointers[i]? with
  | some (some h) =>
    if some h ∈ next.pointers then next
    else
      match m.controls[h]? with
      | some c => next.setStage h c .deleting
      | none => next
  | _ => next

/-- `recycle`; `src/core/frame.cpp:64`. -/
def recycle (h : ℕ) (c : Control) (pool : FramePool) : Heap β :=
  if pool.maxRetained ≤ pool.free.length then
    { m with freed := c.frame :: m.freed }.setStage h c .recycled
  else
    { m with
      pools := m.pools.set c.pool { pool with free := c.frame :: pool.free } }.setStage h c .recycled

/-- The next section of the deleter of a block; `src/core/frame.cpp:55–61`. -/
def delete (h : ℕ) : Option (Heap β) :=
  match m.controls[h]? with
  | none => none
  | some c =>
    match m.pools[c.pool]? with
    | none => none
    | some pool =>
      match c.stage with
      | .deleting =>
        if pool.alive then some (m.setStage h c .locked)
        else some ({ m with freed := c.frame :: m.freed }.setStage h c .done)
      | .locked => some (m.recycle h c pool)
      | .recycled => some ((m.setStage h c .done).dropPool c.pool)
      | .held | .done => none

/-- Write to a frame through a variable that refers to it. -/
def write (i : ℕ) (f : VideoFrame β → VideoFrame β) : Heap β :=
  match m.pointers[i]? with
  | some (some h) =>
    match m.controls[h]? with
    | some c => { m with frames := m.frames.modify c.frame f }
    | none => m
  | _ => m

/-- The frame of a block. -/
def frameOf (h : ℕ) : Option (VideoFrame β) := (m.controls[h]?).bind fun c ↦ m.frames[c.frame]?

/-- The frame that a variable refers to. -/
def deref (i : ℕ) : Option (VideoFrame β) :=
  match m.pointers[i]? with
  | some (some h) => m.frameOf h
  | _ => none

/-- The block owns the buffer. -/
def owns (b : ℕ) (c : Control) : ℕ := if c.frame = b ∧ c.stage.owns then 1 else 0

/-- How many times a buffer is retained by a pool, owned by a block or given back. -/
def places (b : ℕ) : ℕ :=
  Pool.total (fun pool ↦ pool.free.count b) m.pools + Pool.total (owns b) m.controls +
    m.freed.count b

/-- The pointers, the blocks and the pools agree; `extra` is a strong reference that is about to
be dropped. -/
structure Linked (m : Heap β) (extra : Option ℕ) : Prop where
  held : ∀ h c, m.controls[h]? = some c → (c.stage = .held ↔ some h ∈ m.pointers)
  known : ∀ h, some h ∈ m.pointers → h < m.controls.length
  pooled : ∀ c ∈ m.controls, c.pool < m.pools.length
  alive : ∀ p pool, m.pools[p]? = some pool → (pool.alive ↔ m.Uses p ∨ extra = some p)
  present : ∀ p, m.current = some p → p < m.pools.length
  empty : ∀ pool ∈ m.pools, pool.alive = false → pool.free = []
  bounded : ∀ pool ∈ m.pools, pool.free.length ≤ pool.maxRetained

/-- Every buffer ever made is in one place. -/
def Placed (m : Heap β) : Prop := ∀ b, m.places b = if b < m.frames.length then 1 else 0

/-- The pool has the buffer, or lent it. -/
def Belongs (m : Heap β) (p b : ℕ) : Prop :=
  (∃ pool, m.pools[p]? = some pool ∧ b ∈ pool.free) ∨
    ∃ c ∈ m.controls, c.frame = b ∧ c.pool = p ∧ c.stage.owns

/-- The buffers of a pool have its shape. -/
def Shaped (m : Heap β) : Prop :=
  ∀ p pool b frame, m.pools[p]? = some pool → m.Belongs p b → m.frames[b]? = some frame →
    frame.format = pool.format ∧ frame.data.length = bufferSize pool.format

variable {m} {extra : Option ℕ} {h i p b : ℕ} {c : Control} {pool : FramePool} {stage : Stage}

/-- Somebody other than the block has a strong reference to the pool. -/
private def OtherUses (m : Heap β) (h p : ℕ) : Prop :=
  m.current = some p ∨
    ∃ j d, j ≠ h ∧ m.controls[j]? = some d ∧ d.pool = p ∧ d.stage.pins = true

private theorem uses_iff (hc : m.controls[h]? = some c) :
    m.Uses p ↔ OtherUses m h p ∨ (c.pool = p ∧ c.stage.pins) := by
  constructor
  · intro hu
    cases hu with
    | inl hcur => exact .inl (.inl hcur)
    | inr hex =>
      obtain ⟨d, hd, hp, hpins⟩ := hex
      obtain ⟨j, hj⟩ := List.mem_iff_getElem?.mp hd
      by_cases hjh : j = h
      · rw [hjh, hc] at hj
        cases hj
        exact .inr ⟨hp, hpins⟩
      · exact .inl (.inr ⟨j, d, hjh, hj, hp, hpins⟩)
  · intro hu
    rcases hu with (hcur | ⟨j, d, -, hj, hp, hpins⟩) | ⟨hp, hpins⟩
    · exact .inl hcur
    · exact .inr ⟨d, List.mem_of_getElem? hj, hp, hpins⟩
    · exact .inr ⟨c, List.mem_of_getElem? hc, hp, hpins⟩

private theorem uses_setStage (hc : m.controls[h]? = some c) :
    (m.setStage h c stage).Uses p ↔ OtherUses m h p ∨ (c.pool = p ∧ stage.pins) := by
  have hlt : h < m.controls.length := (List.getElem?_eq_some_iff.mp hc).1
  have hget : (m.setStage h c stage).controls[h]? = some { c with stage } := by
    show (m.controls.set h { c with stage })[h]? = _
    rw [List.getElem?_set_self hlt]
  rw [uses_iff hget]
  apply or_congr _ Iff.rfl
  apply or_congr Iff.rfl
  constructor
  · rintro ⟨j, d, hj, hd, hrest⟩
    refine ⟨j, d, hj, ?_, hrest⟩
    rw [← hd]
    show _ = (m.controls.set h _)[j]?
    rw [List.getElem?_set_ne hj.symm]
  · rintro ⟨j, d, hj, hd, hrest⟩
    refine ⟨j, d, hj, ?_, hrest⟩
    rw [← hd]
    show (m.controls.set h _)[j]? = _
    rw [List.getElem?_set_ne hj.symm]

/-- A pool in use is not destroyed. -/
theorem Linked.alive_of_uses (hl : m.Linked extra) (hp : m.pools[p]? = some pool)
    (hu : m.Uses p) : pool.alive :=
  (hl.alive p pool hp).mpr (.inl hu)

/-- A deleter begins or takes its next step, when no variable refers to its block any more, and
what it has of the pool changes with it. -/
theorem Linked.setStage {extra' : Option ℕ} {pointers : List (Option ℕ)} (hl : m.Linked extra)
    (hc : m.controls[h]? = some c) (hstage : stage ≠ .held)
    (hpointers : ∀ j, some j ∈ pointers ↔ some j ∈ m.pointers ∧ j ≠ h)
    (hsame : ∀ q, q ≠ c.pool → (extra = some q ↔ extra' = some q))
    (hpool : ∀ pool, m.pools[c.pool]? = some pool →
      (pool.alive ↔ OtherUses m h c.pool ∨ stage.pins ∨ extra' = some c.pool)) :
    (Heap.setStage { m with pointers } h c stage).Linked extra' where
  held := by
    intro j d hd
    change (m.controls.set h _)[j]? = some d at hd
    show _ ↔ some j ∈ pointers
    rw [hpointers]
    by_cases hj : h = j
    · rw [← hj, List.getElem?_set_self (List.getElem?_eq_some_iff.mp hc).1] at hd
      cases hd
      exact ⟨fun heq ↦ absurd heq hstage, fun hmem ↦ absurd hj.symm hmem.2⟩
    · rw [List.getElem?_set_ne hj] at hd
      rw [hl.held j d hd]
      exact ⟨fun hmem ↦ ⟨hmem, Ne.symm hj⟩, fun hmem ↦ hmem.1⟩
  known := by
    intro j hj
    show j < (m.controls.set h _).length
    rw [List.length_set]
    exact hl.known j ((hpointers j).mp hj).1
  pooled := by
    intro d hd
    rcases Pool.mem_set hd with rfl | ⟨j, -, hj⟩
    · exact hl.pooled c (List.mem_of_getElem? hc)
    · exact hl.pooled d (List.mem_of_getElem? hj)
  alive := by
    intro q pool hq
    show _ ↔ (m.setStage h c stage).Uses q ∨ _
    rw [uses_setStage hc]
    by_cases hqc : q = c.pool
    · subst hqc
      rw [hpool pool hq]
      simp only [true_and, or_assoc]
    · rw [hl.alive q pool hq, uses_iff hc, hsame q hqc]
      have hne : c.pool ≠ q := Ne.symm hqc
      simp only [hne, false_and, or_false]
  present := hl.present
  empty := hl.empty
  bounded := hl.bounded

/-- A block that has lost its last variable stays without one. -/
private theorem pointers_of_unheld (hl : m.Linked extra) (hc : m.controls[h]? = some c)
    (hstage : c.stage ≠ .held) (j : ℕ) :
    some j ∈ m.pointers ↔ some j ∈ m.pointers ∧ j ≠ h := by
  constructor
  · intro hj
    refine ⟨hj, fun heq ↦ hstage ?_⟩
    rw [heq] at hj
    exact (hl.held h c hc).mpr hj
  · exact fun hj ↦ hj.1

/-- Dropping a reference leaves the pools either as they are or without the pool. -/
theorem dropPool_cases (m : Heap β) (p : ℕ) :
    (m.Uses p ∨ m.pools[p]? = none) ∧ m.dropPool p = m ∨
      ∃ pool, ¬ m.Uses p ∧ m.pools[p]? = some pool ∧
        m.dropPool p = { m with
          pools := m.pools.set p { pool with free := [], alive := false }
          freed := pool.free ++ m.freed } := by
  by_cases hu : m.Uses p
  · exact .inl ⟨.inl hu, if_pos hu⟩
  · cases hp : m.pools[p]? with
    | none => exact .inl ⟨.inr rfl, by rw [dropPool, if_neg hu, hp]⟩
    | some pool => exact .inr ⟨pool, hu, rfl, by rw [dropPool, if_neg hu, hp]⟩

/-- The reference that was about to be dropped has been. -/
theorem Linked.dropPool (hl : m.Linked (some p)) : (m.dropPool p).Linked none := by
  rcases dropPool_cases m p with ⟨huses, heq⟩ | ⟨pool, hnot, hpool, heq⟩
  · rw [heq]
    refine { hl with alive := ?_ }
    intro q pool hq
    rw [hl.alive q pool hq]
    by_cases hqp : p = q
    · subst hqp
      cases huses with
      | inl hu => exact ⟨fun _ ↦ .inl hu, fun _ ↦ .inl hu⟩
      | inr hnone => rw [hnone] at hq; cases hq
    · simp only [Option.some.injEq, hqp, or_false, reduceCtorEq]
  · rw [heq]
    have hlt : p < m.pools.length := (List.getElem?_eq_some_iff.mp hpool).1
    refine { held := hl.held, known := hl.known, pooled := ?_, alive := ?_, present := ?_,
             empty := ?_, bounded := ?_ }
    · intro d hd
      show d.pool < (m.pools.set p _).length
      rw [List.length_set]
      exact hl.pooled d hd
    · intro q pool' hq
      change (m.pools.set p _)[q]? = some pool' at hq
      show _ ↔ m.Uses q ∨ _
      by_cases hqp : p = q
      · subst hqp
        rw [List.getElem?_set_self hlt] at hq
        cases hq
        simp only [hnot, Bool.false_eq_true, reduceCtorEq, or_self]
      · rw [List.getElem?_set_ne hqp] at hq
        rw [hl.alive q pool' hq]
        simp only [Option.some.injEq, hqp, or_false, reduceCtorEq]
    · intro q hq
      show q < (m.pools.set p _).length
      rw [List.length_set]
      exact hl.present q hq
    · intro pool' hmem hdead
      rcases Pool.mem_set hmem with rfl | ⟨q, -, hq⟩
      · rfl
      · exact hl.empty pool' (List.mem_of_getElem? hq) hdead
    · intro pool' hmem
      rcases Pool.mem_set hmem with rfl | ⟨q, -, hq⟩
      · exact Nat.zero_le _
      · exact hl.bounded pool' (List.mem_of_getElem? hq)

/-- Another pool takes the place of the current one. -/
theorem Linked.setPool {next : Option ℕ} (hl : m.Linked next)
    (hnext : ∀ p, next = some p → p < m.pools.length ∧ m.current ≠ some p) :
    (m.setPool next).Linked none := by
  have hchange : ∀ q pool, m.pools[q]? = some pool →
      (pool.alive ↔ Heap.Uses { m with current := next } q ∨ m.current = some q) := by
    intro q pool hq
    rw [hl.alive q pool hq]
    constructor
    · rintro ((hcur | hpinned) | hq)
      exacts [.inr hcur, .inl (.inr hpinned), .inl (.inl hq)]
    · rintro ((hq | hpinned) | hcur)
      exacts [.inr hq, .inl (.inr hpinned), .inl (.inl hcur)]
  rw [Heap.setPool]
  cases hcur : m.current with
  | none =>
    refine { hl with alive := ?_, present := fun p hp ↦ (hnext p hp).1 }
    intro q pool hq
    rw [hchange q pool hq, hcur]
  | some p =>
    apply Linked.dropPool
    refine { hl with alive := ?_, present := fun p hp ↦ (hnext p hp).1 }
    intro q pool hq
    rw [hchange q pool hq, hcur]

/-- A new pool, of which nothing is lent yet. -/
theorem Linked.create (hl : m.Linked none) (format : VideoFormat) :
    (m.create format).Linked none := by
  have hlength : (m.pools ++ [{ format : FramePool }]).length = m.pools.length + 1 := by simp
  apply Linked.setPool
  · refine { held := hl.held, known := hl.known, pooled := ?_, alive := ?_, present := ?_,
             empty := ?_, bounded := ?_ }
    · intro d hd
      show d.pool < (m.pools ++ _).length
      rw [hlength]
      exact Nat.lt_succ_of_lt (hl.pooled d hd)
    · intro q pool hq
      change (m.pools ++ _)[q]? = some pool at hq
      show _ ↔ m.Uses q ∨ _
      by_cases hlt : q < m.pools.length
      · rw [List.getElem?_append_left hlt] at hq
        have hne : m.pools.length ≠ q := (Nat.ne_of_lt hlt).symm
        rw [hl.alive q pool hq]
        simp only [Option.some.injEq, hne, or_false, reduceCtorEq]
      · rw [List.getElem?_append_right (Nat.le_of_not_lt hlt), List.getElem?_singleton] at hq
        split at hq
        · next hzero =>
          cases hq
          have heq : m.pools.length = q := by omega
          simp only [heq, or_true]
        · cases hq
    · intro q hq
      show q < (m.pools ++ _).length
      rw [hlength]
      exact Nat.lt_succ_of_lt (hl.present q hq)
    · intro pool hmem hdead
      rcases List.mem_append.mp hmem with hold | hnew
      · exact hl.empty pool hold hdead
      · rw [List.mem_singleton.mp hnew]
    · intro pool hmem
      rcases List.mem_append.mp hmem with hold | hnew
      · exact hl.bounded pool hold
      · rw [List.mem_singleton.mp hnew]
        exact Nat.zero_le _
  · intro q hq
    cases hq
    refine ⟨?_, fun hcur ↦ ?_⟩
    · show m.pools.length < (m.pools ++ _).length
      rw [hlength]
      exact Nat.lt_succ_self _
    · exact Nat.lt_irrefl _ (hl.present _ hcur)

/-- A block for a buffer that `pool_` has just given out. -/
theorem Linked.adopt (hl : m.Linked none) (hi : m.pointers[i]? = some none)
    (hp : p < m.pools.length) (frame : ℕ) : (m.adopt i frame p).Linked none := by
  have hlt : i < m.pointers.length := (List.getElem?_eq_some_iff.mp hi).1
  have hmem : ∀ j, some j ∈ m.pointers.set i (some m.controls.length) ↔
      j = m.controls.length ∨ some j ∈ m.pointers := by
    intro j
    constructor
    · intro hj
      rcases Pool.mem_set hj with heq | ⟨k, -, hk⟩
      · exact .inl (Option.some.inj heq)
      · exact .inr (List.mem_of_getElem? hk)
    · rintro (rfl | hj)
      · exact List.mem_set hlt _
      · obtain ⟨k, hk⟩ := List.mem_iff_getElem?.mp hj
        have hne : i ≠ k := fun heq ↦ by rw [← heq, hi] at hk; cases hk
        apply List.mem_of_getElem? (i := k)
        rw [List.getElem?_set_ne hne, hk]
  refine { held := ?_, known := ?_, pooled := ?_, alive := ?_, present := hl.present,
           empty := hl.empty, bounded := hl.bounded }
  · intro j d hd
    change (m.controls ++ [_])[j]? = some d at hd
    show _ ↔ some j ∈ m.pointers.set i (some m.controls.length)
    rw [hmem]
    by_cases hj : j < m.controls.length
    · rw [List.getElem?_append_left hj] at hd
      rw [hl.held j d hd]
      have hne : j ≠ m.controls.length := Nat.ne_of_lt hj
      simp only [hne, false_or]
    · rw [List.getElem?_append_right (Nat.le_of_not_lt hj), List.getElem?_singleton] at hd
      split at hd
      · next hzero =>
        cases hd
        have heq : j = m.controls.length := by omega
        simp only [heq, true_or]
      · cases hd
  · intro j hj
    show j < (m.controls ++ [_]).length
    rw [List.length_append, List.length_singleton]
    rcases (hmem j).mp hj with rfl | hold
    · exact Nat.lt_succ_self _
    · exact Nat.lt_succ_of_lt (hl.known j hold)
  · intro d hd
    rcases List.mem_append.mp hd with hold | hnew
    · exact hl.pooled d hold
    · rw [List.mem_singleton.mp hnew]
      exact hp
  · intro q pool hq
    rw [hl.alive q pool hq]
    apply or_congr _ Iff.rfl
    apply or_congr Iff.rfl
    constructor
    · rintro ⟨d, hd, hrest⟩
      exact ⟨d, List.mem_append_left _ hd, hrest⟩
    · rintro ⟨d, hd, hrest⟩
      rcases List.mem_append.mp hd with hold | hnew
      · exact ⟨d, hold, hrest⟩
      · rw [List.mem_singleton.mp hnew] at hrest
        exact absurd hrest.2 Bool.false_ne_true

/-- What a pool retains changes. -/
theorem Linked.setFree (free : List ℕ) (hl : m.Linked extra) (hp : m.pools[p]? = some pool)
    (halive : pool.alive) (hlen : free.length ≤ pool.maxRetained) :
    Heap.Linked { m with pools := m.pools.set p { pool with free } } extra := by
  have hlt : p < m.pools.length := (List.getElem?_eq_some_iff.mp hp).1
  refine { held := hl.held, known := hl.known, pooled := ?_, alive := ?_, present := ?_,
           empty := ?_, bounded := ?_ }
  · intro d hd
    show d.pool < (m.pools.set p _).length
    rw [List.length_set]
    exact hl.pooled d hd
  · intro q pool' hq
    change (m.pools.set p _)[q]? = some pool' at hq
    show _ ↔ m.Uses q ∨ _
    by_cases hqp : p = q
    · subst hqp
      rw [List.getElem?_set_self hlt] at hq
      cases hq
      exact hl.alive p pool hp
    · rw [List.getElem?_set_ne hqp] at hq
      exact hl.alive q pool' hq
  · intro q hq
    show q < (m.pools.set p _).length
    rw [List.length_set]
    exact hl.present q hq
  · intro pool' hmem hdead
    rcases Pool.mem_set hmem with rfl | ⟨q, -, hq⟩
    · exact absurd (halive.symm.trans hdead) (by decide)
    · exact hl.empty pool' (List.mem_of_getElem? hq) hdead
  · intro pool' hmem
    rcases Pool.mem_set hmem with rfl | ⟨q, -, hq⟩
    · exact hlen
    · exact hl.bounded pool' (List.mem_of_getElem? hq)

/-- What `acquire` finds is the last buffer retained. -/
theorem pop_cases {m' : Heap β} (h : m.pop i = some m') :
    ∃ p pool b rest, m.current = some p ∧ m.pools[p]? = some pool ∧ pool.free = b :: rest ∧
      m' = Heap.adopt { m with pools := m.pools.set p { pool with free := rest } } i b p := by
  rw [Heap.pop] at h
  split at h
  · cases h
  · next p hcur =>
    split at h
    · cases h
    · next pool hpool =>
      split at h
      · next b rest hfree => exact ⟨p, pool, b, rest, hcur, hpool, hfree, (Option.some.inj h).symm⟩
      · cases h

/-- Where it finds none, none is retained. -/
theorem free_of_pop (hcur : m.current = some p) (hpool : m.pools[p]? = some pool)
    (h : m.pop i = none) : pool.free = [] := by
  rw [Heap.pop, hcur] at h
  dsimp only at h
  rw [hpool] at h
  dsimp only at h
  split at h
  · cases h
  · next hfree => exact hfree

/-- What it makes is a buffer of the pool's shape. -/
theorem make_cases {zero : β} {m' : Heap β} (h : m.make zero i = some m') :
    ∃ p pool, m.current = some p ∧ m.pools[p]? = some pool ∧
      m' = Heap.adopt { m with
        frames := m.frames ++
          [{ format := pool.format, data := List.replicate (bufferSize pool.format) zero }] }
        i m.frames.length p := by
  rw [Heap.make] at h
  split at h
  · cases h
  · next p hcur =>
    split at h
    · cases h
    · next pool hpool => exact ⟨p, pool, hcur, hpool, (Option.some.inj h).symm⟩

/-- `acquire` from the pool of `pool_`, where a buffer is retained. -/
theorem Linked.pop {m' : Heap β} (hl : m.Linked none) (hi : m.pointers[i]? = some none)
    (h : m.pop i = some m') : m'.Linked none := by
  obtain ⟨p, pool, b, rest, hcur, hpool, hfree, rfl⟩ := pop_cases h
  have hbound := hl.bounded pool (List.mem_of_getElem? hpool)
  rw [hfree, List.length_cons] at hbound
  apply Linked.adopt
  · exact hl.setFree rest hpool (hl.alive_of_uses hpool (.inl hcur)) (Nat.le_of_succ_le hbound)
  · exact hi
  · show p < (m.pools.set p _).length
    rw [List.length_set]
    exact hl.present p hcur

/-- And where one is made. -/
theorem Linked.make {zero : β} {m' : Heap β} (hl : m.Linked none)
    (hi : m.pointers[i]? = some none) (h : m.make zero i = some m') : m'.Linked none := by
  obtain ⟨p, pool, hcur, hpool, rfl⟩ := make_cases h
  apply Linked.adopt
  · exact { hl with }
  · exact hi
  · exact hl.present p hcur

/-- What a variable that is assigned leaves behind. -/
theorem assign_cases (m : Heap β) (hl : m.Linked extra) (i : ℕ) (v : Option ℕ)
    (hv : ∀ k, v = some k → some k ∈ m.pointers) :
    (m.assign i v = { m with pointers := m.pointers.set i v } ∧
        ∀ j, some j ∈ m.pointers.set i v ↔ some j ∈ m.pointers) ∨
      ∃ h c, m.controls[h]? = some c ∧ c.stage = .held ∧ m.pointers[i]? = some (some h) ∧
        (∀ j, some j ∈ m.pointers.set i v ↔ some j ∈ m.pointers ∧ j ≠ h) ∧
        m.assign i v = Heap.setStage { m with pointers := m.pointers.set i v } h c .deleting := by
  have hold : ∀ j, some j ∈ m.pointers.set i v → some j ∈ m.pointers := by
    intro j hj
    rcases Pool.mem_set hj with heq | ⟨k, -, hk⟩
    · exact hv j heq.symm
    · exact List.mem_of_getElem? hk
  have hkeep : ∀ j, some j ∈ m.pointers → m.pointers[i]? ≠ some (some j) →
      some j ∈ m.pointers.set i v := by
    intro j hj hne
    obtain ⟨k, hk⟩ := List.mem_iff_getElem?.mp hj
    have hik : i ≠ k := fun heq ↦ hne (heq ▸ hk)
    apply List.mem_of_getElem? (i := k)
    rw [List.getElem?_set_ne hik, hk]
  rw [Heap.assign]
  cases hi : m.pointers[i]? with
  | none => exact .inl ⟨rfl, fun j ↦ ⟨hold j, fun hj ↦ hkeep j hj (by rw [hi]; nofun)⟩⟩
  | some old =>
    cases old with
    | none => exact .inl ⟨rfl, fun j ↦ ⟨hold j, fun hj ↦ hkeep j hj (by rw [hi]; nofun)⟩⟩
    | some h =>
      have hmem : some h ∈ m.pointers := List.mem_of_getElem? hi
      have hother : ∀ j, j ≠ h → some j ∈ m.pointers → some j ∈ m.pointers.set i v := by
        intro j hj hjm
        apply hkeep j hjm
        rw [hi]
        exact fun heq ↦ hj (Option.some.inj (Option.some.inj heq)).symm
      by_cases hin : some h ∈ m.pointers.set i v
      · refine .inl ⟨if_pos hin, fun j ↦ ⟨hold j, fun hj ↦ ?_⟩⟩
        by_cases hjh : j = h
        · rw [hjh]
          exact hin
        · exact hother j hjh hj
      · have hc := List.getElem?_eq_getElem (hl.known h hmem)
        refine .inr ⟨h, _, hc, (hl.held h _ hc).mpr hmem, rfl, fun j ↦ ⟨fun hj ↦ ⟨hold j hj, ?_⟩,
          fun hj ↦ hother j hj.2 hj.1⟩, ?_⟩
        · exact fun heq ↦ hin (heq ▸ hj)
        · simp only [hin, if_false, hc]

/-- A variable is assigned. -/
theorem Linked.assign {v : Option ℕ} (hl : m.Linked none) (i : ℕ)
    (hv : ∀ k, v = some k → some k ∈ m.pointers) : (m.assign i v).Linked none := by
  rcases assign_cases m hl i v hv with ⟨heq, hmem⟩ | ⟨h, c, hc, hstage, -, hmem, heq⟩
  · rw [heq]
    refine { hl with held := ?_, known := ?_ }
    · intro j d hd
      rw [hmem]
      exact hl.held j d hd
    · exact fun j hj ↦ hl.known j ((hmem j).mp hj)
  · rw [heq]
    apply hl.setStage hc (by decide) hmem (fun _ _ ↦ Iff.rfl)
    intro pool hpool
    rw [hl.alive c.pool pool hpool, uses_iff hc, hstage]
    show (_ ∨ _ ∧ false = true) ∨ _ ↔ _ ∨ false = true ∨ _
    simp only [Bool.false_eq_true, and_false, false_or, or_false]

/-- The sections of a deleter, and where each leaves off. -/
theorem delete_cases {m' : Heap β} (hd : m.delete h = some m') :
    ∃ c pool, m.controls[h]? = some c ∧ m.pools[c.pool]? = some pool ∧
      ((c.stage = .deleting ∧ pool.alive = true ∧ m' = m.setStage h c .locked) ∨
        (c.stage = .deleting ∧ pool.alive = false ∧
          m' = Heap.setStage { m with freed := c.frame :: m.freed } h c .done) ∨
        (c.stage = .locked ∧ m' = m.recycle h c pool) ∨
        (c.stage = .recycled ∧ m' = (m.setStage h c .done).dropPool c.pool)) := by
  rw [Heap.delete] at hd
  split at hd
  · cases hd
  · next c hc =>
    split at hd
    · cases hd
    · next pool hpool =>
      refine ⟨c, pool, hc, hpool, ?_⟩
      split at hd
      · next hstage =>
        split at hd
        · next halive => exact .inl ⟨hstage, halive, (Option.some.inj hd).symm⟩
        · next hdead =>
          exact .inr (.inl ⟨hstage, Bool.eq_false_iff.mpr hdead, (Option.some.inj hd).symm⟩)
      · next hstage => exact .inr (.inr (.inl ⟨hstage, (Option.some.inj hd).symm⟩))
      · next hstage => exact .inr (.inr (.inr ⟨hstage, (Option.some.inj hd).symm⟩))
      · cases hd
      · cases hd

/-- A deleter that has the pool finds it there. -/
theorem Linked.alive_of_pins (hl : m.Linked extra) (hc : m.controls[h]? = some c)
    (hpins : c.stage.pins) (hp : m.pools[c.pool]? = some pool) : pool.alive :=
  hl.alive_of_uses hp (.inr ⟨c, List.mem_of_getElem? hc, rfl, hpins⟩)

/-- A deleter's next section. -/
theorem Linked.delete {m' : Heap β} (hl : m.Linked none) (hd : m.delete h = some m') :
    m'.Linked none := by
  obtain ⟨c, pool, hc, hpool, hcase⟩ := delete_cases hd
  rcases hcase with ⟨hstage, halive, rfl⟩ | ⟨hstage, hdead, rfl⟩ | ⟨hstage, rfl⟩ | ⟨hstage, rfl⟩
  · -- `weak.lock()` gives the pool, which is alive
    apply hl.setStage hc (by decide) (pointers_of_unheld hl hc (by rw [hstage]; decide))
      (fun _ _ ↦ Iff.rfl)
    intro pool' hpool'
    rw [hpool] at hpool'
    cases hpool'
    exact ⟨fun _ ↦ .inr (.inl rfl), fun _ ↦ halive⟩
  · -- the pool has gone, and nothing of it is touched
    have hfreed : Heap.Linked { m with freed := c.frame :: m.freed } none := { hl with }
    apply hfreed.setStage hc (by decide) (pointers_of_unheld hfreed hc (by rw [hstage]; decide))
      (fun _ _ ↦ Iff.rfl)
    intro pool' hpool'
    rw [hl.alive c.pool pool' hpool', uses_iff hc, hstage]
    show (_ ∨ _ ∧ false = true) ∨ _ ↔ _ ∨ false = true ∨ _
    simp only [Bool.false_eq_true, and_false, false_or, or_false]
    exact Iff.rfl
  · have halive : pool.alive := hl.alive_of_pins hc (by rw [hstage]; rfl) hpool
    have hpointers := pointers_of_unheld hl hc (by rw [hstage]; decide)
    rw [Heap.recycle]
    by_cases hfull : pool.maxRetained ≤ pool.free.length
    · rw [if_pos hfull]
      have hfreed : Heap.Linked { m with freed := c.frame :: m.freed } none := { hl with }
      apply hfreed.setStage hc (by decide) hpointers (fun _ _ ↦ Iff.rfl)
      intro pool' hpool'
      cases hpool.symm.trans hpool'
      exact ⟨fun _ ↦ .inr (.inl rfl), fun _ ↦ halive⟩
    · rw [if_neg hfull]
      have hfree := hl.setFree (c.frame :: pool.free) hpool halive
        (by rw [List.length_cons]; omega)
      apply hfree.setStage hc (by decide) hpointers (fun _ _ ↦ Iff.rfl)
      intro pool' hpool'
      change (m.pools.set c.pool _)[c.pool]? = some pool' at hpool'
      rw [List.getElem?_set_self (List.getElem?_eq_some_iff.mp hpool).1] at hpool'
      cases hpool'
      exact ⟨fun _ ↦ .inr (.inl rfl), fun _ ↦ halive⟩
  · -- the reference to the pool is dropped once the block is done with it
    apply Linked.dropPool
    apply hl.setStage hc (by decide) (pointers_of_unheld hl hc (by rw [hstage]; decide))
    · intro q hq
      simp only [Option.some.injEq, hq.symm, reduceCtorEq]
    · intro pool' hpool'
      have halive : pool'.alive := hl.alive_of_pins hc (by rw [hstage]; rfl) hpool'
      exact ⟨fun _ ↦ .inr (.inr rfl), fun _ ↦ halive⟩

end Heap
end WebLinked.Core.Frames
