import WebLinked.Core.FramePool

/-!
# Where the buffers of a pool are

Each operation on frames, pools and pointers leaves every buffer in one place, and the buffers
that belong to a pool in its shape.
-/

namespace WebLinked.Core.Frames

open WebLinked.Base

namespace Heap

variable {β : Type} {m : Heap β} {h i p b : ℕ} {c : Control} {pool : FramePool} {stage : Stage}
  {extra : Option ℕ}

/-! ## Every buffer in one place -/

/-- A block changes hands: what it owned before is owed, what it owns then is added. -/
theorem places_setStage (hc : m.controls[h]? = some c) (stage : Stage) (b : ℕ) :
    (m.setStage h c stage).places b + owns b c = m.places b + owns b { c with stage } := by
  have htotal := Pool.total_set (owns b) { c with stage } hc
  show Pool.total _ m.pools + Pool.total _ (m.controls.set h _) + m.freed.count b + _ =
    Pool.total _ m.pools + Pool.total _ m.controls + m.freed.count b + _
  omega

/-- What a pool retains is counted. -/
theorem places_setFree (hp : m.pools[p]? = some pool) (free : List ℕ) (alive : Bool) (b : ℕ) :
    Heap.places { m with pools := m.pools.set p { pool with free, alive } } b + pool.free.count b =
      m.places b + free.count b := by
  have htotal :=
    Pool.total_set (fun pool : FramePool ↦ pool.free.count b) { pool with free, alive } hp
  show Pool.total _ (m.pools.set p _) + Pool.total _ m.controls + m.freed.count b + _ =
    Pool.total _ m.pools + Pool.total _ m.controls + m.freed.count b + _
  dsimp only at htotal
  omega

theorem places_freed (m : Heap β) (freed : List ℕ) (b : ℕ) :
    Heap.places { m with freed := freed ++ m.freed } b = m.places b + freed.count b := by
  show Pool.total _ m.pools + Pool.total _ m.controls + (freed ++ m.freed).count b =
    Pool.total _ m.pools + Pool.total _ m.controls + m.freed.count b + _
  rw [List.count_append]
  omega

theorem places_adopt (m : Heap β) (i frame p b : ℕ) :
    (m.adopt i frame p).places b = m.places b + if frame = b then 1 else 0 := by
  show Pool.total _ m.pools + Pool.total _ (m.controls ++ [_]) + m.freed.count b =
    Pool.total _ m.pools + Pool.total _ m.controls + m.freed.count b + _
  rw [Pool.total_append_singleton]
  have howns : owns b { frame, pool := p } = if frame = b then 1 else 0 := by
    simp only [owns, Stage.owns, and_true]
  omega

/-- A pool that goes leaves its buffers to the system. -/
theorem places_dropPool (m : Heap β) (p b : ℕ) : (m.dropPool p).places b = m.places b := by
  rcases dropPool_cases m p with ⟨-, heq⟩ | ⟨pool, -, hpool, heq⟩
  · rw [heq]
  · have hset := places_setFree hpool [] false b
    rw [List.count_nil, Nat.add_zero] at hset
    rw [heq]
    exact (places_freed { m with pools := m.pools.set p { pool with free := [], alive := false } }
      pool.free b).trans hset

theorem places_setPool (m : Heap β) (next : Option ℕ) (b : ℕ) :
    (m.setPool next).places b = m.places b := by
  rw [Heap.setPool]
  split
  · rw [places_dropPool]
    rfl
  · rfl

theorem places_create (m : Heap β) (format : VideoFormat) (b : ℕ) :
    (m.create format).places b = m.places b := by
  rw [Heap.create, places_setPool]
  show Pool.total _ (m.pools ++ [_]) + _ + _ = _
  rw [Pool.total_append_singleton]
  rfl

/-- The frames are the same while pools change. -/
theorem frames_dropPool (m : Heap β) (p : ℕ) : (m.dropPool p).frames = m.frames := by
  rcases dropPool_cases m p with ⟨-, heq⟩ | ⟨pool, -, -, heq⟩ <;> rw [heq]

theorem frames_setPool (m : Heap β) (next : Option ℕ) : (m.setPool next).frames = m.frames := by
  rw [Heap.setPool]
  split
  · rw [frames_dropPool]
  · rfl

theorem Placed.create (hm : m.Placed) (format : VideoFormat) : (m.create format).Placed := by
  intro b
  rw [places_create, hm b, Heap.create, frames_setPool]

theorem Placed.pop {m' : Heap β} (hm : m.Placed) (h : m.pop i = some m') : m'.Placed := by
  intro b
  obtain ⟨p, pool, b', rest, -, hpool, hfree, rfl⟩ := pop_cases h
  have hset := places_setFree hpool rest pool.alive b
  rw [places_adopt]
  show _ = if b < m.frames.length then 1 else 0
  rw [hfree, List.count_cons, hm b] at hset
  simp only [beq_iff_eq] at hset
  omega

theorem Placed.make {zero : β} {m' : Heap β} (hm : m.Placed) (h : m.make zero i = some m') :
    m'.Placed := by
  intro b
  obtain ⟨p, pool, -, hpool, rfl⟩ := make_cases h
  rw [places_adopt]
  show m.places b + _ = if b < (m.frames ++ [_]).length then 1 else 0
  rw [hm b, List.length_append, List.length_singleton]
  by_cases hb : m.frames.length = b
  · rw [if_neg (by omega), if_pos hb, if_pos (by omega)]
  · rw [if_neg hb, Nat.add_zero]
    exact if_congr (by omega) rfl rfl

theorem Placed.assign {v : Option ℕ} (hm : m.Placed) (hl : m.Linked none) (i : ℕ)
    (hv : ∀ k, v = some k → some k ∈ m.pointers) : (m.assign i v).Placed := by
  intro b
  rcases assign_cases m hl i v hv with ⟨heq, -⟩ | ⟨h, c, hc, hstage, -, -, heq⟩
  · rw [heq]
    exact hm b
  · have hplaces := places_setStage hc .deleting b
    have howns : owns b { c with stage := .deleting } = owns b c := by
      simp only [owns, hstage, Stage.owns]
    rw [heq]
    show (m.setStage h c .deleting).places b = if b < m.frames.length then 1 else 0
    rw [← hm b]
    omega

theorem Placed.delete {m' : Heap β} (hm : m.Placed) (hd : m.delete h = some m') : m'.Placed := by
  intro b
  obtain ⟨c, pool, hc, hpool, hcase⟩ := delete_cases hd
  have hb := hm b
  have howner : c.stage.owns → owns b c = if c.frame = b then 1 else 0 := by
    intro ho
    simp only [owns, ho, and_true]
  have hnone : ∀ stage : Stage, stage.owns = false → owns b { c with stage } = 0 := by
    intro stage hs
    simp only [owns, hs, Bool.false_eq_true, and_false, if_false]
  rcases hcase with ⟨hstage, -, rfl⟩ | ⟨hstage, -, rfl⟩ | ⟨hstage, rfl⟩ | ⟨hstage, rfl⟩
  · have hplaces := places_setStage hc .locked b
    have hsame : owns b { c with stage := .locked } = owns b c := by
      simp only [owns, hstage, Stage.owns]
    show (m.setStage h c .locked).places b = if b < m.frames.length then 1 else 0
    omega
  · have hfreed := places_freed m [c.frame] b
    have hplaces := places_setStage (m := { m with freed := c.frame :: m.freed }) hc .done b
    have hwas := howner (by rw [hstage]; rfl)
    have his := hnone .done rfl
    rw [List.count_singleton] at hfreed
    simp only [beq_iff_eq, List.singleton_append] at hfreed
    show _ = if b < m.frames.length then 1 else 0
    omega
  · have hwas := howner (by rw [hstage]; rfl)
    have his := hnone .recycled rfl
    rw [Heap.recycle]
    split
    · have hfreed := places_freed m [c.frame] b
      have hplaces :=
        places_setStage (m := { m with freed := c.frame :: m.freed }) hc .recycled b
      rw [List.count_singleton] at hfreed
      simp only [beq_iff_eq, List.singleton_append] at hfreed
      show _ = if b < m.frames.length then 1 else 0
      omega
    · have hset := places_setFree hpool (c.frame :: pool.free) pool.alive b
      have hplaces := places_setStage
        (m := { m with pools := m.pools.set c.pool { pool with free := c.frame :: pool.free } })
        hc .recycled b
      rw [List.count_cons] at hset
      simp only [beq_iff_eq] at hset
      show _ = if b < m.frames.length then 1 else 0
      omega
  · have hplaces := places_setStage hc .done b
    have hwas : owns b c = 0 := by
      simp only [owns, hstage, Stage.owns, Bool.false_eq_true, and_false, if_false]
    have his := hnone .done rfl
    rw [places_dropPool, frames_dropPool]
    show _ = if b < m.frames.length then 1 else 0
    omega

/-! ## Buffers of the pool's shape -/

private theorem belongs_setStage (hc : m.controls[h]? = some c)
    (howns : stage.owns = true → c.stage.owns = true) {q : ℕ}
    (hb : (m.setStage h c stage).Belongs q b) : m.Belongs q b := by
  cases hb with
  | inl hfree => exact .inl hfree
  | inr hlent =>
    obtain ⟨d, hd, hframe, hpool, hown⟩ := hlent
    rcases Pool.mem_set hd with rfl | ⟨j, -, hj⟩
    · exact .inr ⟨c, List.mem_of_getElem? hc, hframe, hpool, howns hown⟩
    · exact .inr ⟨d, List.mem_of_getElem? hj, hframe, hpool, hown⟩

private theorem belongs_setFree (hp : m.pools[p]? = some pool) {free : List ℕ} (alive : Bool)
    {q : ℕ}
    (hb : Heap.Belongs { m with pools := m.pools.set p { pool with free, alive } } q b) :
    m.Belongs q b ∨ q = p ∧ b ∈ free := by
  cases hb with
  | inl hfree =>
    obtain ⟨pool', hq, hmem⟩ := hfree
    change (m.pools.set p _)[q]? = some pool' at hq
    by_cases hqp : p = q
    · subst hqp
      rw [List.getElem?_set_self (List.getElem?_eq_some_iff.mp hp).1] at hq
      cases hq
      exact .inr ⟨rfl, hmem⟩
    · rw [List.getElem?_set_ne hqp] at hq
      exact .inl (.inl ⟨pool', hq, hmem⟩)
  | inr hlent => exact .inl (.inr hlent)

private theorem belongs_adopt {frame q : ℕ} (hb : (m.adopt i frame p).Belongs q b) :
    m.Belongs q b ∨ q = p ∧ b = frame := by
  cases hb with
  | inl hfree => exact .inl (.inl hfree)
  | inr hlent =>
    obtain ⟨d, hd, hframe, hpool, hown⟩ := hlent
    rcases List.mem_append.mp hd with hold | hnew
    · exact .inl (.inr ⟨d, hold, hframe, hpool, hown⟩)
    · rw [List.mem_singleton.mp hnew] at hframe hpool
      exact .inr ⟨hpool.symm, hframe.symm⟩

private theorem belongs_dropPool {q : ℕ} (hb : (m.dropPool p).Belongs q b) : m.Belongs q b := by
  rcases dropPool_cases m p with ⟨-, heq⟩ | ⟨pool, -, hpool, heq⟩
  · rw [heq] at hb
    exact hb
  · rw [heq] at hb
    rcases belongs_setFree hpool false hb with hold | ⟨-, hnil⟩
    · exact hold
    · exact absurd hnil List.not_mem_nil

/-- A pool keeps its shape. -/
private theorem format_setPools {q : ℕ} {pool pool' new : FramePool}
    (hp : m.pools[p]? = some pool) (hq : (m.pools.set p new)[q]? = some pool')
    (hnew : new.format = pool.format) :
    ∃ old, m.pools[q]? = some old ∧ old.format = pool'.format := by
  by_cases hqp : p = q
  · subst hqp
    rw [List.getElem?_set_self (List.getElem?_eq_some_iff.mp hp).1] at hq
    cases hq
    exact ⟨pool, hp, hnew.symm⟩
  · rw [List.getElem?_set_ne hqp] at hq
    exact ⟨pool', hq, rfl⟩

/-- Nothing new belongs to a pool, and what does keeps its shape. -/
theorem Shaped.mono {m' : Heap β} (hm : m.Shaped)
    (hbelongs : ∀ q b, m'.Belongs q b → m.Belongs q b)
    (hpools : ∀ (q : ℕ) (pool' : FramePool), m'.pools[q]? = some pool' →
      ∃ pool : FramePool, m.pools[q]? = some pool ∧ pool.format = pool'.format)
    (hframes : m'.frames = m.frames) : m'.Shaped := by
  intro q pool' b frame hq hb hf
  obtain ⟨pool, hpool, hformat⟩ := hpools q pool' hq
  rw [hframes] at hf
  rw [← hformat]
  exact hm q pool b frame hpool (hbelongs q b hb) hf

theorem Shaped.dropPool (hm : m.Shaped) (p : ℕ) : (m.dropPool p).Shaped := by
  apply hm.mono (fun q b ↦ belongs_dropPool) _ (frames_dropPool m p)
  intro q pool' hq
  rcases dropPool_cases m p with ⟨-, heq⟩ | ⟨pool, -, hpool, heq⟩
  · rw [heq] at hq
    exact ⟨pool', hq, rfl⟩
  · rw [heq] at hq
    exact format_setPools hpool hq rfl

theorem Shaped.setPool (hm : m.Shaped) (next : Option ℕ) : (m.setPool next).Shaped := by
  rw [Heap.setPool]
  split
  · apply Shaped.dropPool
    exact hm
  · exact hm

theorem Shaped.create (hm : m.Shaped) (hl : m.Linked none) (format : VideoFormat) :
    (m.create format).Shaped := by
  apply Shaped.setPool
  intro q pool' b frame hq hb hf
  change (m.pools ++ [_])[q]? = some pool' at hq
  have hold : m.Belongs q b → q < m.pools.length := by
    rintro (⟨pool, hpool, -⟩ | ⟨d, hd, -, rfl, -⟩)
    · exact (List.getElem?_eq_some_iff.mp hpool).1
    · exact hl.pooled d hd
  have hb' : m.Belongs q b := by
    rcases hb with ⟨pool, hpool, hmem⟩ | hlent
    · change (m.pools ++ [_])[q]? = some pool at hpool
      by_cases hlt : q < m.pools.length
      · rw [List.getElem?_append_left hlt] at hpool
        exact .inl ⟨pool, hpool, hmem⟩
      · rw [List.getElem?_append_right (Nat.le_of_not_lt hlt), List.getElem?_singleton] at hpool
        split at hpool
        · cases hpool
          exact absurd hmem List.not_mem_nil
        · cases hpool
    · exact .inr hlent
  rw [List.getElem?_append_left (hold hb')] at hq
  exact hm q pool' b frame hq hb' hf

/-- A buffer that belongs to a pool has been made. -/
theorem Placed.made {q : ℕ} (hplaced : m.Placed) (hb : m.Belongs q b) : b < m.frames.length := by
  by_contra hge
  have hzero := hplaced b
  rw [if_neg hge] at hzero
  rcases hb with ⟨pool, hq, hmem⟩ | ⟨d, hd, hframe, -, hown⟩
  · have hle := Pool.le_total (fun pool : FramePool ↦ pool.free.count b) (List.mem_of_getElem? hq)
    have hpos := List.count_pos_iff.mpr hmem
    unfold Heap.places at hzero
    omega
  · have hle := Pool.le_total (owns b) hd
    have howns : owns b d = 1 := by simp only [owns, hframe, hown, and_self, if_true]
    unfold Heap.places at hzero
    omega

theorem Shaped.pop {m' : Heap β} (hm : m.Shaped) (h : m.pop i = some m') : m'.Shaped := by
  obtain ⟨p, pool, b', rest, -, hpool, hfree, rfl⟩ := pop_cases h
  have hretained : ∀ b ∈ pool.free, m.Belongs p b := fun b hb ↦ .inl ⟨pool, hpool, hb⟩
  rw [hfree] at hretained
  apply hm.mono
  · intro q b hb
    rcases belongs_adopt hb with hold | ⟨rfl, rfl⟩
    · rcases belongs_setFree hpool pool.alive hold with hold | ⟨rfl, hmem⟩
      · exact hold
      · exact hretained b (List.mem_cons_of_mem _ hmem)
    · exact hretained b List.mem_cons_self
  · intro q pool' hq
    exact format_setPools hpool hq rfl
  · rfl

theorem Shaped.make {zero : β} {m' : Heap β} (hm : m.Shaped) (hplaced : m.Placed)
    (h : m.make zero i = some m') : m'.Shaped := by
  obtain ⟨p, pool, -, hpool, rfl⟩ := make_cases h
  intro q pool' b frame hq hb hf
  change m.pools[q]? = some pool' at hq
  change (m.frames ++ [_])[b]? = some frame at hf
  rcases belongs_adopt hb with hold | ⟨rfl, rfl⟩
  · rw [List.getElem?_append_left (hplaced.made hold)] at hf
    exact hm q pool' b frame hq hold hf
  · rw [List.getElem?_concat_length] at hf
    cases hf
    cases hpool.symm.trans hq
    exact ⟨rfl, List.length_replicate⟩

theorem Shaped.assign {v : Option ℕ} (hm : m.Shaped) (hl : m.Linked none) (i : ℕ)
    (hv : ∀ k, v = some k → some k ∈ m.pointers) : (m.assign i v).Shaped := by
  rcases assign_cases m hl i v hv with ⟨heq, -⟩ | ⟨h, c, hc, hstage, -, -, heq⟩
  · rw [heq]
    exact hm
  · rw [heq]
    exact hm.mono (fun q b ↦ belongs_setStage hc (fun _ ↦ by rw [hstage]; rfl))
      (fun q pool hq ↦ ⟨pool, hq, rfl⟩) rfl

theorem Shaped.delete {m' : Heap β} (hm : m.Shaped) (hd : m.delete h = some m') : m'.Shaped := by
  obtain ⟨c, pool, hc, hpool, hcase⟩ := delete_cases hd
  rcases hcase with ⟨hstage, -, rfl⟩ | ⟨-, -, rfl⟩ | ⟨hstage, rfl⟩ | ⟨-, rfl⟩
  · exact hm.mono (fun q b ↦ belongs_setStage hc (fun _ ↦ by rw [hstage]; rfl))
      (fun q pool hq ↦ ⟨pool, hq, rfl⟩) rfl
  · exact hm.mono (fun q b ↦ belongs_setStage (m := m) hc (fun ho ↦ absurd ho (by decide)))
      (fun q pool hq ↦ ⟨pool, hq, rfl⟩) rfl
  · rw [Heap.recycle]
    split
    · exact hm.mono (fun q b ↦ belongs_setStage (m := m) hc (fun ho ↦ absurd ho (by decide)))
        (fun q pool hq ↦ ⟨pool, hq, rfl⟩) rfl
    · apply hm.mono
      · intro q b hb
        have hpushed : m.Belongs c.pool c.frame :=
          .inr ⟨c, List.mem_of_getElem? hc, rfl, rfl, by rw [hstage]; rfl⟩
        have hbefore := belongs_setStage
          (m := { m with pools := m.pools.set c.pool { pool with free := c.frame :: pool.free } })
          hc (fun ho ↦ absurd ho (by decide)) hb
        rcases belongs_setFree hpool pool.alive hbefore with hold | ⟨rfl, hmem⟩
        · exact hold
        · rcases List.mem_cons.mp hmem with rfl | hfree
          · exact hpushed
          · exact .inl ⟨pool, hpool, hfree⟩
      · intro q pool' hq
        exact format_setPools hpool hq rfl
      · rfl
  · apply Shaped.dropPool
    exact hm.mono (fun q b ↦ belongs_setStage hc (fun ho ↦ absurd ho (by decide)))
      (fun q pool hq ↦ ⟨pool, hq, rfl⟩) rfl

/-! ## Pointers -/

@[simp] theorem pointers_dropPool (m : Heap β) (p : ℕ) : (m.dropPool p).pointers = m.pointers := by
  rcases dropPool_cases m p with ⟨-, heq⟩ | ⟨pool, -, -, heq⟩ <;> rw [heq]

@[simp] theorem pointers_setPool (m : Heap β) (next : Option ℕ) :
    (m.setPool next).pointers = m.pointers := by
  rw [Heap.setPool]
  split
  · rw [pointers_dropPool]
  · rfl

@[simp] theorem pointers_create (m : Heap β) (format : VideoFormat) :
    (m.create format).pointers = m.pointers := by
  rw [Heap.create, pointers_setPool]

@[simp] theorem pointers_assign (m : Heap β) (i : ℕ) (v : Option ℕ) :
    (m.assign i v).pointers = m.pointers.set i v := by
  rw [Heap.assign]
  split
  · dsimp only
    split
    · rfl
    · split <;> rfl
  · rfl

theorem pointers_delete {m' : Heap β} (hd : m.delete h = some m') : m'.pointers = m.pointers := by
  obtain ⟨c, pool, -, -, hcase⟩ := delete_cases hd
  rcases hcase with ⟨-, -, rfl⟩ | ⟨-, -, rfl⟩ | ⟨-, rfl⟩ | ⟨-, rfl⟩
  · rfl
  · rfl
  · rw [Heap.recycle]
    split <;> rfl
  · rw [pointers_dropPool]
    rfl

/-! ## The current pool -/

/-- The current pool is the one it was, and every pool has the format it had. -/
structure SamePools (m m' : Heap β) : Prop where
  current : m'.current = m.current
  format : ∀ (p : ℕ) (pool : FramePool), m.pools[p]? = some pool →
    ∃ pool' : FramePool, m'.pools[p]? = some pool' ∧ pool'.format = pool.format

private theorem format_set {q : ℕ} {old new : FramePool} (hp : m.pools[p]? = some pool)
    (hnew : new.format = pool.format) (hq : m.pools[q]? = some old) :
    ∃ pool' : FramePool, (m.pools.set p new)[q]? = some pool' ∧ pool'.format = old.format := by
  by_cases hqp : p = q
  · subst hqp
    cases hp.symm.trans hq
    exact ⟨new, List.getElem?_set_self (List.getElem?_eq_some_iff.mp hp).1, hnew⟩
  · exact ⟨old, by rw [List.getElem?_set_ne hqp, hq], rfl⟩

private theorem samePools_dropPool (m : Heap β) (p : ℕ) : m.SamePools (m.dropPool p) := by
  rcases dropPool_cases m p with ⟨-, heq⟩ | ⟨pool, -, hpool, heq⟩ <;> rw [heq]
  · exact ⟨rfl, fun q old hq ↦ ⟨old, hq, rfl⟩⟩
  · exact ⟨rfl, fun q old hq ↦ format_set hpool rfl hq⟩

@[simp] theorem current_setPool (m : Heap β) (next : Option ℕ) :
    (m.setPool next).current = next := by
  rw [Heap.setPool]
  split
  · exact (samePools_dropPool _ _).current
  · rfl

/-- The pool that was just made is the current one. -/
theorem current_create (m : Heap β) (format : VideoFormat) :
    ∃ pool, (m.create format).current = some m.pools.length ∧
      (m.create format).pools[m.pools.length]? = some pool ∧ pool.format = format := by
  have hnew : (m.pools ++ [{ format : FramePool }])[m.pools.length]? = some { format } :=
    List.getElem?_concat_length
  rw [Heap.create, current_setPool, Heap.setPool]
  split
  · obtain ⟨pool, hpool, hformat⟩ := (samePools_dropPool { m with
      pools := m.pools ++ [{ format : FramePool }], current := some m.pools.length } _).format
      _ _ hnew
    exact ⟨pool, rfl, hpool, hformat⟩
  · exact ⟨_, rfl, hnew, rfl⟩

theorem samePools_assign (m : Heap β) (i : ℕ) (v : Option ℕ) : m.SamePools (m.assign i v) := by
  have hsame : (m.assign i v).current = m.current ∧ (m.assign i v).pools = m.pools := by
    rw [Heap.assign]
    split
    · dsimp only
      split
      · exact ⟨rfl, rfl⟩
      · split <;> exact ⟨rfl, rfl⟩
    · exact ⟨rfl, rfl⟩
  exact ⟨hsame.1, fun q old hq ↦ ⟨old, by rw [hsame.2, hq], rfl⟩⟩

theorem samePools_delete {m' : Heap β} (hd : m.delete h = some m') : m.SamePools m' := by
  obtain ⟨c, pool, -, hpool, hcase⟩ := delete_cases hd
  rcases hcase with ⟨-, -, rfl⟩ | ⟨-, -, rfl⟩ | ⟨-, rfl⟩ | ⟨-, rfl⟩
  · exact ⟨rfl, fun q old hq ↦ ⟨old, hq, rfl⟩⟩
  · exact ⟨rfl, fun q old hq ↦ ⟨old, hq, rfl⟩⟩
  · rw [Heap.recycle]
    split
    · exact ⟨rfl, fun q old hq ↦ ⟨old, hq, rfl⟩⟩
    · exact ⟨rfl, fun q old hq ↦ format_set hpool rfl hq⟩
  · have hdrop := samePools_dropPool (m.setStage h c .done) c.pool
    exact ⟨hdrop.current, hdrop.format⟩

theorem frameOf_eq_some {f : VideoFrame β} :
    m.frameOf h = some f ↔ ∃ c, m.controls[h]? = some c ∧ m.frames[c.frame]? = some f :=
  Option.bind_eq_some_iff

/-! ## What frames show -/

/-- The frame of a block that has one is the one it was, but for its stamp. -/
def Keeps (m m' : Heap β) : Prop :=
  ∀ h f, m.frameOf h = some f → ∃ nanos, m'.frameOf h = some { f with captureNanos := nanos }

/-- Frames that are the same have the stamps they had. -/
theorem Keeps.of_same {m' : Heap β} (h : ∀ h f, m.frameOf h = some f → m'.frameOf h = some f) :
    m.Keeps m' :=
  fun j f hf ↦ ⟨f.captureNanos, h j f hf⟩

theorem Keeps.refl (m : Heap β) : m.Keeps m := .of_same fun _ _ hf ↦ hf

theorem Keeps.trans {m₁ m₂ m₃ : Heap β} (h : m₁.Keeps m₂) (h' : m₂.Keeps m₃) : m₁.Keeps m₃ := by
  intro j f hf
  obtain ⟨nanos, hf'⟩ := h j f hf
  obtain ⟨nanos', hf''⟩ := h' j _ hf'
  exact ⟨nanos', hf''⟩

private theorem keeps_setStage (hc : m.controls[h]? = some c) (stage : Stage) :
    m.Keeps (m.setStage h c stage) := by
  apply Keeps.of_same
  intro j f hf
  show ((m.controls.set h _)[j]?).bind (fun d ↦ m.frames[d.frame]?) = _
  by_cases hj : h = j
  · subst hj
    rw [List.getElem?_set_self (List.getElem?_eq_some_iff.mp hc).1, ← hf, Heap.frameOf, hc]
    rfl
  · rw [List.getElem?_set_ne hj]
    exact hf

theorem keeps_dropPool (m : Heap β) (p : ℕ) : m.Keeps (m.dropPool p) := by
  rcases dropPool_cases m p with ⟨-, heq⟩ | ⟨pool, -, -, heq⟩ <;> rw [heq]
  · exact Keeps.refl m
  · exact Keeps.refl m

theorem keeps_setPool (m : Heap β) (next : Option ℕ) : m.Keeps (m.setPool next) := by
  rw [Heap.setPool]
  split
  · exact keeps_dropPool { m with current := next } _
  · exact Keeps.refl m

theorem keeps_create (m : Heap β) (format : VideoFormat) : m.Keeps (m.create format) :=
  keeps_setPool { m with pools := m.pools ++ [_] } _

private theorem keeps_adopt (m : Heap β) (i frame p : ℕ) : m.Keeps (m.adopt i frame p) := by
  apply Keeps.of_same
  intro j f hf
  obtain ⟨d, hd, hframe⟩ := frameOf_eq_some.mp hf
  apply frameOf_eq_some.mpr
  refine ⟨d, ?_, hframe⟩
  show (m.controls ++ [_])[j]? = some d
  rw [List.getElem?_append_left (List.getElem?_eq_some_iff.mp hd).1, hd]

/-- What `acquire` leaves: a new block for a frame of the current pool's shape. -/
structure Acquires (m m' : Heap β) (i : ℕ) : Prop where
  linked : m'.Linked none
  placed : m'.Placed
  shaped : m'.Shaped
  pools : m.SamePools m'
  keeps : m.Keeps m'
  pointers : m'.pointers = m.pointers.set i (some m.controls.length)
  frame : ∃ p pool frame, m.current = some p ∧ m.pools[p]? = some pool ∧
    m'.frameOf m.controls.length = some frame ∧ frame.format = pool.format ∧
    frame.data.length = bufferSize pool.format

/-- `acquire`, where a buffer is retained. -/
theorem acquires_pop {m' : Heap β} (hl : m.Linked none) (hplaced : m.Placed) (hshaped : m.Shaped)
    (hi : m.pointers[i]? = some none) (h : m.pop i = some m') : m.Acquires m' i := by
  have hl' := hl.pop hi h
  have hplaced' := hplaced.pop h
  have hshaped' := hshaped.pop h
  obtain ⟨p, pool, b', rest, hcur, hpool, hfree, rfl⟩ := pop_cases h
  have hbelongs : m.Belongs p b' := .inl ⟨pool, hpool, by rw [hfree]; exact List.mem_cons_self⟩
  have hframe := List.getElem?_eq_getElem (hplaced.made hbelongs)
  refine ⟨hl', hplaced', hshaped', ⟨rfl, fun q old hq ↦ format_set hpool rfl hq⟩,
    keeps_adopt { m with pools := _ } i b' p, rfl, p, pool, _, hcur, hpool, ?_,
    hshaped p pool b' _ hpool hbelongs hframe⟩
  exact Heap.frameOf_eq_some.mpr ⟨_, List.getElem?_concat_length, hframe⟩

/-- `acquire`, where one is made. -/
theorem acquires_make {zero : β} {m' : Heap β} (hl : m.Linked none) (hplaced : m.Placed)
    (hshaped : m.Shaped) (hi : m.pointers[i]? = some none) (h : m.make zero i = some m') :
    m.Acquires m' i := by
  have hl' := hl.make hi h
  have hplaced' := hplaced.make h
  have hshaped' := hshaped.make hplaced h
  obtain ⟨p, pool, hcur, hpool, rfl⟩ := make_cases h
  refine ⟨hl', hplaced', hshaped', ⟨rfl, fun q old hq ↦ ⟨old, hq, rfl⟩⟩, ?_, rfl, p, pool,
    { format := pool.format, data := List.replicate (bufferSize pool.format) zero }, hcur, hpool,
    Heap.frameOf_eq_some.mpr ⟨_, List.getElem?_concat_length, List.getElem?_concat_length⟩, rfl,
    List.length_replicate⟩
  refine Keeps.trans (.of_same ?_) (keeps_adopt { m with frames := _ } i _ p)
  intro j f hf
  obtain ⟨d, hd, hframe⟩ := frameOf_eq_some.mp hf
  apply frameOf_eq_some.mpr
  refine ⟨d, hd, ?_⟩
  show (m.frames ++ [_])[d.frame]? = some f
  rw [List.getElem?_append_left (List.getElem?_eq_some_iff.mp hframe).1, hframe]

theorem keeps_assign {v : Option ℕ} (hl : m.Linked none) (i : ℕ)
    (hv : ∀ k, v = some k → some k ∈ m.pointers) : m.Keeps (m.assign i v) := by
  rcases assign_cases m hl i v hv with ⟨heq, -⟩ | ⟨h, c, hc, -, -, -, heq⟩ <;> rw [heq]
  · exact Keeps.refl m
  · exact keeps_setStage (m := { m with pointers := _ }) hc .deleting

theorem keeps_delete {m' : Heap β} (hd : m.delete h = some m') : m.Keeps m' := by
  obtain ⟨c, pool, hc, -, hcase⟩ := delete_cases hd
  rcases hcase with ⟨-, -, rfl⟩ | ⟨-, -, rfl⟩ | ⟨-, rfl⟩ | ⟨-, rfl⟩
  · exact keeps_setStage hc .locked
  · exact keeps_setStage (m := { m with freed := _ }) hc .done
  · rw [Heap.recycle]
    split
    · exact keeps_setStage (m := { m with freed := _ }) hc .recycled
    · exact keeps_setStage (m := { m with pools := _ }) hc .recycled
  · exact (keeps_setStage hc .done).trans (keeps_dropPool _ _)

/-- No two blocks that variables refer to have the same buffer. -/
theorem frame_ne_of_held {j : ℕ} {d : Control} (hl : m.Linked extra) (hm : m.Placed)
    (hc : m.controls[h]? = some c) (hd : m.controls[j]? = some d) (hheld : some h ∈ m.pointers)
    (hheld' : some j ∈ m.pointers) (hne : h ≠ j) : c.frame ≠ d.frame := by
  intro heq
  have hone : ∀ {k : ℕ} {e : Control}, m.controls[k]? = some e → some k ∈ m.pointers →
      owns e.frame e = 1 := by
    intro k e he hmem
    simp only [owns, (hl.held k e he).mpr hmem, Stage.owns, and_self, if_true]
  have hpair := Pool.pair_le_total (owns c.frame) hc hd hne
  have hfirst := hone hc hheld
  have hsecond := hone hd hheld'
  rw [← heq] at hsecond
  have hplaces := hm c.frame
  unfold Heap.places at hplaces
  split at hplaces <;> omega

variable {f : VideoFrame β → VideoFrame β} {k : ℕ}

theorem write_eq (hi : m.pointers[i]? = some (some k)) (hc : m.controls[k]? = some c) :
    m.write i f = { m with frames := m.frames.modify c.frame f } := by
  simp only [Heap.write, hi, hc]

/-- What is written to a frame, it shows. -/
theorem frameOf_write_self (hi : m.pointers[i]? = some (some k)) {g : VideoFrame β}
    (hg : m.frameOf k = some g) : (m.write i f).frameOf k = some (f g) := by
  obtain ⟨c, hc, hframe⟩ := frameOf_eq_some.mp hg
  apply frameOf_eq_some.mpr
  rw [write_eq hi hc]
  refine ⟨c, hc, ?_⟩
  show (m.frames.modify c.frame f)[c.frame]? = _
  rw [List.getElem?_modify_eq, hframe]
  rfl

/-- The other frames that variables refer to are not written to. -/
theorem frameOf_write_ne {j : ℕ} (hl : m.Linked extra) (hm : m.Placed)
    (hi : m.pointers[i]? = some (some k)) (hj : some j ∈ m.pointers) (hne : j ≠ k) :
    (m.write i f).frameOf j = m.frameOf j := by
  have hk := List.mem_of_getElem? hi
  have hc := List.getElem?_eq_getElem (hl.known k hk)
  have hd := List.getElem?_eq_getElem (hl.known j hj)
  have hframe := frame_ne_of_held hl hm hc hd hk hj (Ne.symm hne)
  rw [write_eq hi hc, Heap.frameOf, Heap.frameOf, hd]
  show (m.frames.modify _ f)[_]? = m.frames[_]?
  exact List.getElem?_modify_ne _ _ hframe

/-- Frames whose stamp is written keep what they show. -/
theorem keeps_write (m : Heap β) (i : ℕ)
    (hf : ∀ g, ∃ nanos, f g = { g with captureNanos := nanos }) : m.Keeps (m.write i f) := by
  rw [Heap.write]
  split
  · split
    · next c _ =>
      intro j g hg
      obtain ⟨d, hd, hframe⟩ := frameOf_eq_some.mp hg
      show ∃ nanos, ((m.controls[j]?).bind fun d ↦ (m.frames.modify _ f)[d.frame]?) = some _
      rw [hd, Option.bind_some, List.getElem?_modify, hframe]
      change ∃ nanos, some (if c.frame = d.frame then f g else g) = _
      split
      · obtain ⟨nanos, heq⟩ := hf g
        exact ⟨nanos, congrArg some heq⟩
      · exact ⟨g.captureNanos, rfl⟩
    · exact Keeps.refl m
  · exact Keeps.refl m

@[simp] theorem pointers_write (m : Heap β) (i : ℕ) (f : VideoFrame β → VideoFrame β) :
    (m.write i f).pointers = m.pointers := by
  rw [Heap.write]
  split
  · split <;> rfl
  · rfl

theorem samePools_write (m : Heap β) (i : ℕ) (f : VideoFrame β → VideoFrame β) :
    m.SamePools (m.write i f) := by
  have hsame : (m.write i f).current = m.current ∧ (m.write i f).pools = m.pools := by
    rw [Heap.write]
    split
    · split <;> exact ⟨rfl, rfl⟩
    · exact ⟨rfl, rfl⟩
  exact ⟨hsame.1, fun q old hq ↦ ⟨old, by rw [hsame.2, hq], rfl⟩⟩

theorem Linked.write (hl : m.Linked extra) (hi : m.pointers[i]? = some (some k)) :
    (m.write i f).Linked extra := by
  rw [write_eq hi (List.getElem?_eq_getElem (hl.known k (List.mem_of_getElem? hi)))]
  exact { hl with }

theorem Placed.write (hm : m.Placed) (hl : m.Linked extra) (hi : m.pointers[i]? = some (some k)) :
    (m.write i f).Placed := by
  intro b
  rw [write_eq hi (List.getElem?_eq_getElem (hl.known k (List.mem_of_getElem? hi)))]
  show m.places b = if b < (m.frames.modify _ f).length then 1 else 0
  rw [List.length_modify]
  exact hm b

theorem Shaped.write (hm : m.Shaped) (hl : m.Linked extra) (hi : m.pointers[i]? = some (some k))
    (hf : ∀ g, m.frameOf k = some g →
      (f g).format = g.format ∧ (f g).data.length = g.data.length) :
    (m.write i f).Shaped := by
  have hc := List.getElem?_eq_getElem (hl.known k (List.mem_of_getElem? hi))
  rw [write_eq hi hc]
  intro q pool b frame hq hb hframe
  change (m.frames.modify _ f)[b]? = some frame at hframe
  rw [List.getElem?_modify] at hframe
  obtain ⟨g, hg, rfl⟩ := Option.map_eq_some_iff.mp hframe
  have hold := hm q pool b g hq hb hg
  split
  · next heq =>
    rw [← heq] at hg
    have hsame := hf g (frameOf_eq_some.mpr ⟨_, hc, hg⟩)
    rw [hsame.1, hsame.2]
    exact hold
  · exact hold

end Heap
end WebLinked.Core.Frames
