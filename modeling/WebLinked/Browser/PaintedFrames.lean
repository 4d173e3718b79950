import WebLinked.Browser.Paints

/-!
# What the frames of a client come to

`src/core/frame.h:50–60`, `src/core/frame_ring.h:12–17`. No buffer is lost or freed twice, and none is
written to while somebody shows it but for the clock's stamp, whenever the raster changes; a pool has
no more buffers than were in flight or being acquired at once; and the slot's counters say what became
of every paint.
-/

namespace WebLinked.Browser.Paints

open WebLinked.Base WebLinked.Core WebLinked.Core.Frames

variable {s t : State} {h p : ℕ}

section Example

/-- A raster of one pixel. -/
private def pixel : VideoFormat := { width := 1, height := 1 }

private def grey (level : UInt8) : Paint := ⟨1, 1, [level, level, level, 255], rfl⟩

/-- A paint that somebody shows while the next one takes its place. -/
private def twoPaints : List Action :=
  [.paint true (grey 7), .resume, .resume, .resume, .resume, .resume, .copy 1 2, .stamp 2 20,
    .paint true (grey 9), .resume, .resume, .resume, .resume]

/-- The raster changes, and then everybody lets go. -/
private def ending : List Action :=
  [.resume, .setFormat { width := 2, height := 1 }, .drop 2, .delete 0, .detach, .destroySlot,
    .delete 1, .destroy]

end Example

/-- Whatever the UI thread, the clock, the outputs, a change of raster and the deleters do, every
buffer is in one place, no pool that has been destroyed is used, and when all is over every
buffer has been freed once. -/
theorem buffers_kept (hs : machine.Reachable s) :
    (∀ b, b < s.heap.frames.length → s.heap.places b = 1) ∧
      (∀ pool ∈ s.heap.pools, pool.free.length ≤ pool.maxRetained) ∧
      (∀ p pool, s.heap.pools[p]? = some pool → s.heap.Uses p → pool.alive) ∧
      (s.heap.current = none → (∀ v ∈ s.heap.pointers, v = none) →
        (∀ c ∈ s.heap.controls, c.stage = .done) →
        ∀ b, b < s.heap.frames.length → s.heap.freed.count b = 1) := by
  have hinv := inv_reachable hs
  have hlinked := hinv.kept.linked
  have hplaced : ∀ b, b < s.heap.frames.length → s.heap.places b = 1 := fun b hb ↦ by
    rw [hinv.kept.placed b, if_pos hb]
  refine ⟨hplaced, hlinked.bounded, fun p pool hp hu ↦ hlinked.alive_of_uses hp hu, ?_⟩
  intro hcur hpointers hdone b hb
  -- without a reference to it, no pool is left to retain anything
  have hretained : Pool.total (fun pool : FramePool ↦ pool.free.count b) s.heap.pools = 0 := by
    apply Pool.total_eq_zero
    intro pool hpool
    obtain ⟨p, hp⟩ := List.mem_iff_getElem?.mp hpool
    have hdead : pool.alive = false := by
      rw [Bool.eq_false_iff]
      intro halive
      rcases (hlinked.alive p pool hp).mp halive with (hcurrent | ⟨c, hc, -, hpins⟩) | hextra
      · rw [hcur] at hcurrent
        cases hcurrent
      · rw [hdone c hc] at hpins
        cases hpins
      · cases hextra
    rw [hlinked.empty pool hpool hdead, List.count_nil]
  have howned : Pool.total (Heap.owns b) s.heap.controls = 0 := by
    apply Pool.total_eq_zero
    intro c hc
    simp only [Heap.owns, hdone c hc, Stage.owns, Bool.false_eq_true, and_false, if_false]
  have hone := hplaced b hb
  rw [Heap.places, hretained, howned] at hone
  omega

theorem buffers_kept_ending :
    ∃ s, machine.run (start pixel 1) (twoPaints ++ ending) = some s ∧
      ∀ b, b < s.heap.frames.length → s.heap.freed.count b = 1 :=
  ⟨_, rfl, (buffers_kept (Machine.Reachable.run (.init ⟨pixel, 1, rfl⟩) (twoPaints ++ ending)
    rfl)).2.2.2 rfl (by decide) (by decide)⟩

/-! ## A frame that is shown stays as it is -/

/-- Somebody other than the UI thread refers to the frame. -/
def Published (s : State) (h : ℕ) : Prop := ∃ i, 1 ≤ i ∧ s.pointer i = some h

/-- What one step leaves of the frames there are. -/
structure Leaves (s t : State) : Prop where
  has : ∀ h, (s.heap.frameOf h).isSome → (t.heap.frameOf h).isSome
  held : ∀ h, (s.heap.frameOf h).isSome → some h ∈ t.heap.pointers → some h ∈ s.heap.pointers
  first : ∀ h, (s.heap.frameOf h).isSome → t.pointer 0 = some h → s.pointer 0 = some h
  same : ∀ h frame, Published s h → s.heap.frameOf h = some frame →
    ∃ nanos, t.heap.frameOf h = some { frame with captureNanos := nanos }

section Peak

variable {m : Heap UInt8} {c : Control} {pool : FramePool} {q : ℕ}

/-- The block has a buffer of the pool. -/
def lends (p : ℕ) (c : Control) : ℕ := if c.pool = p ∧ c.stage.owns then 1 else 0

/-- How many buffers of a pool are in use or on their way back. -/
def lent (m : Heap UInt8) (p : ℕ) : ℕ := Pool.total (lends p) m.controls

/-- How many buffers of a pool there are. -/
def buffers (m : Heap UInt8) (p : ℕ) : ℕ :=
  ((m.pools[p]?).map (·.free.length)).getD 0 + lent m p

/-- Whether one is about to be made, none having been found retained. -/
def acquiring (s : State) (p : ℕ) : ℕ :=
  if s.phase.locks ∧ s.heap.current = some p then 1 else 0

/-- How many frames of a pool are in flight: in use, on their way back or being acquired. -/
def inFlight (s : State) (p : ℕ) : ℕ := lent s.heap p + acquiring s p

private theorem lent_setStage (hc : m.controls[h]? = some c) (stage : Stage) (p : ℕ) :
    lent (m.setStage h c stage) p + lends p c = lent m p + lends p { c with stage } :=
  Pool.total_set (lends p) _ hc

private theorem buffers_setFree (hp : m.pools[p]? = some pool) (free : List ℕ) (alive : Bool)
    (q : ℕ) :
    buffers { m with pools := m.pools.set p { pool with free, alive } } q +
        (if p = q then pool.free.length else 0) =
      buffers m q + if p = q then free.length else 0 := by
  by_cases hpq : p = q
  · subst hpq
    rw [buffers, buffers, List.getElem?_set_self (List.getElem?_eq_some_iff.mp hp).1, hp, if_pos rfl,
      if_pos rfl]
    show free.length + lent m p + _ = _ + lent m p + _
    simp only [Option.map_some, Option.getD_some]
    omega
  · rw [buffers, buffers, List.getElem?_set_ne hpq, if_neg hpq, if_neg hpq]
    rfl

private theorem buffers_dropPool (m : Heap UInt8) (p q : ℕ) :
    buffers (m.dropPool p) q ≤ buffers m q := by
  rcases Heap.dropPool_cases m p with ⟨-, heq⟩ | ⟨pool, -, hpool, heq⟩ <;> rw [heq]
  have hset := buffers_setFree hpool [] false q
  rw [List.length_nil, ite_self] at hset
  exact Nat.le_of_add_right_le (Nat.le_of_eq hset)

private theorem buffers_create (m : Heap UInt8) (format : VideoFormat) (q : ℕ) :
    buffers (m.create format) q ≤ buffers m q := by
  have hsame : buffers { m with pools := m.pools ++ [{ format }] } q = buffers m q := by
    rw [buffers, buffers, List.getElem?_append]
    split
    · rfl
    · next hge =>
      rw [List.getElem?_eq_none (Nat.le_of_not_lt hge), List.getElem?_singleton]
      split <;> rfl
  rw [← hsame, Heap.create, Heap.setPool]
  split
  · exact buffers_dropPool { m with pools := _, current := _ } _ q
  · exact Nat.le_refl _

private theorem buffers_assign (hl : m.Linked none) (i : ℕ) {v : Option ℕ}
    (hv : ∀ k, v = some k → some k ∈ m.pointers) (q : ℕ) :
    buffers (m.assign i v) q = buffers m q := by
  rcases Heap.assign_cases m hl i v hv with ⟨heq, -⟩ | ⟨h, c, hc, hstage, -, -, heq⟩ <;> rw [heq]
  · rfl
  · have hset := lent_setStage hc .deleting q
    have hlends : lends q { c with stage := .deleting } = lends q c := by
      simp only [lends, hstage, Stage.owns]
    show _ + lent (m.setStage h c .deleting) q = _ + lent m q
    rw [hlends] at hset
    rw [Nat.add_right_cancel hset]
    rfl

private theorem buffers_delete {m' : Heap UInt8} (hd : m.delete h = some m') (q : ℕ) :
    buffers m' q ≤ buffers m q := by
  obtain ⟨c, pool, hc, hpool, hcase⟩ := Heap.delete_cases hd
  have hnone : ∀ stage : Stage, stage.owns = false → lends q { c with stage } = 0 := by
    intro stage hs
    simp only [lends, hs, Bool.false_eq_true, and_false, if_false]
  rcases hcase with ⟨hstage, -, rfl⟩ | ⟨-, -, rfl⟩ | ⟨hstage, rfl⟩ | ⟨-, rfl⟩
  · have hset := lent_setStage hc .locked q
    have hlends : lends q { c with stage := .locked } = lends q c := by
      simp only [lends, hstage, Stage.owns]
    rw [hlends] at hset
    exact Nat.add_le_add_left (Nat.le_of_eq (Nat.add_right_cancel hset)) _
  · have hset := lent_setStage hc .done q
    rw [hnone .done rfl] at hset
    exact Nat.add_le_add_left (Nat.le_of_add_right_le (Nat.le_of_eq hset)) _
  · have hset := lent_setStage hc .recycled q
    rw [hnone .recycled rfl] at hset
    rw [Heap.recycle]
    split
    · exact Nat.add_le_add_left (Nat.le_of_add_right_le (Nat.le_of_eq hset)) _
    · -- the buffer goes from its block to its pool
      have hfree := buffers_setFree hpool (c.frame :: pool.free) pool.alive q
      have hlends : lends q c = if c.pool = q then 1 else 0 := by
        simp only [lends, hstage, Stage.owns, and_true]
      rw [List.length_cons] at hfree
      show ((m.pools.set c.pool _)[q]?.map _).getD 0 + lent (m.setStage h c .recycled) q ≤ _
      change ((m.pools.set c.pool _)[q]?.map _).getD 0 + lent m q + _ = _ at hfree
      split at hfree <;> split at hlends <;> omega
  · refine Nat.le_trans (buffers_dropPool _ _ q) ?_
    have hset := lent_setStage hc .done q
    rw [hnone .done rfl] at hset
    exact Nat.add_le_add_left (Nat.le_of_add_right_le (Nat.le_of_eq hset)) _

private theorem lent_adopt (m : Heap UInt8) (i b p q : ℕ) :
    lent (m.adopt i b p) q = lent m q + if p = q then 1 else 0 := by
  show Pool.total _ (m.controls ++ [_]) = _
  rw [Pool.total_append_singleton]
  simp only [lends, Stage.owns, and_true]
  rfl

private theorem buffers_pop {i : ℕ} {m' : Heap UInt8} (h : m.pop i = some m') (q : ℕ) :
    buffers m' q = buffers m q := by
  obtain ⟨p, pool, b, rest, -, hpool, hfree, rfl⟩ := Heap.pop_cases h
  have hset := buffers_setFree hpool rest pool.alive q
  have hlent := lent_adopt { m with pools := m.pools.set p { pool with free := rest } } i b p q
  rw [hfree, List.length_cons] at hset
  rw [buffers, hlent]
  change ((m.pools.set p _)[q]?.map _).getD 0 + lent m q + _ = _ at hset
  show ((m.pools.set p _)[q]?.map _).getD 0 + (lent m q + _) = _
  split at hset <;> split <;> omega

private theorem buffers_make {i : ℕ} {m' : Heap UInt8} (h : m.make 0 i = some m') (q : ℕ) :
    buffers m' q = buffers m q + if m.current = some q then 1 else 0 := by
  obtain ⟨p, pool, hcur, hpool, rfl⟩ := Heap.make_cases h
  rw [buffers, lent_adopt, hcur]
  show _ + (lent m q + _) = _ + lent m q + _
  simp only [Option.some.injEq, Nat.add_assoc]
  rfl

/-- Where `acquire` finds no buffer retained, all that its pool has are lent. -/
private theorem buffers_of_pop {i : ℕ} (h : m.pop i = none) (hcur : m.current = some q)
    (hl : m.Linked none) : buffers m q = lent m q := by
  have hpool := List.getElem?_eq_getElem (hl.present q hcur)
  rw [buffers, hpool, Option.map_some, Option.getD_some, Heap.free_of_pop hcur hpool h]
  exact Nat.zero_add _

private theorem acquiring_le (hphase : t.phase = s.phase)
    (hcur : s.phase.locks → t.heap.current = s.heap.current) (q : ℕ) :
    acquiring t q ≤ acquiring s q := by
  rw [acquiring, acquiring, hphase]
  split
  · next h => rw [if_pos ⟨h.1, (hcur h.1).symm.trans h.2⟩]
  · exact Nat.zero_le _

private theorem acquiring_of_not (hlocks : s.phase.locks = false) (q : ℕ) : acquiring s q = 0 := by
  rw [acquiring, hlocks]
  rfl

end Peak

/-- A step makes no more buffers of a pool than there were or were asked for, unless all of them are
in flight then. -/
theorem buffers_step (a : Action) (hs : Inv s) (ht : s.step a = some t) (q : ℕ) :
    buffers t.heap q + acquiring t q ≤ buffers s.heap q + acquiring s q ∨
      buffers t.heap q + acquiring t q = inFlight t q := by
  have hcopy : ∀ i k, s.pointer i = some k → some k ∈ s.heap.pointers :=
    fun i k hk ↦ mem_of_pointer hk
  have hwrite : ∀ i f, buffers (s.heap.write i f) q = buffers s.heap q := by
    intro i f
    rw [Heap.write]
    split
    · split <;> rfl
    · rfl
  -- a step of somebody else's, which asks for no buffer
  have hother {u : State} (hphase : u.phase = s.phase) (hcur : u.heap.current = s.heap.current)
      (hle : buffers u.heap q ≤ buffers s.heap q) :
      buffers u.heap q + acquiring u q ≤ buffers s.heap q + acquiring s q ∨
        buffers u.heap q + acquiring u q = inFlight u q :=
    .inl (Nat.add_le_add hle (acquiring_le hphase (fun _ ↦ hcur) q))
  cases a with
  | setFormat format =>
    obtain ⟨⟨-, hlocks⟩, heq⟩ := Option.ite_none_right_eq_some.mp ht
    cases heq
    rw [State.setFormat]
    split
    · exact .inl (Nat.le_refl _)
    · left
      apply Nat.add_le_add (buffers_create s.heap format q)
      refine acquiring_le ?_ ?_ q
      · rfl
      · exact fun h ↦ absurd (hlocks.symm.trans h) Bool.false_ne_true
  | paint view paint =>
    obtain ⟨⟨hsome, hidle⟩, heq⟩ := Option.ite_none_right_eq_some.mp ht
    cases heq
    have hzero : acquiring s q = 0 := acquiring_of_not (by rw [hidle]; rfl) q
    rw [State.onPaint]
    split
    · exact .inl (Nat.le_refl _)
    · split
      · exact .inl (Nat.le_refl _)
      · split
        · next heap hpop =>
          left
          show buffers heap q + 0 ≤ _
          rw [buffers_pop hpop, hzero]
        · next hpop =>
          by_cases hcur : s.heap.current = some q
          · right
            show buffers s.heap q + _ = lent s.heap q + _
            rw [buffers_of_pop hpop hcur hs.kept.linked]
          · left
            refine Nat.add_le_add_left (Nat.le_of_eq ?_) _
            rw [hzero, acquiring, if_neg fun h ↦ hcur h.2]
  | resume =>
    change s.resume = some t at ht
    rw [State.resume] at ht
    split at ht
    · cases ht
    · next paint hphase =>
      -- the buffer that is made was asked for
      left
      obtain ⟨heap, hmake, rfl⟩ := Option.map_eq_some_iff.mp ht
      show buffers heap q + 0 ≤ _
      have hlocks : s.phase.locks = true := by rw [hphase]; rfl
      rw [buffers_make hmake, acquiring, hlocks]
      simp only [true_and, Nat.add_zero, Nat.le_refl]
    · next paint row hphase =>
      have hzero : acquiring s q = 0 := acquiring_of_not (by rw [hphase]; rfl) q
      left
      rw [hzero]
      rw [State.copy] at ht
      split at ht
      · obtain ⟨g, -, hg⟩ := Option.bind_eq_some_iff.mp ht
        obtain ⟨data, -, rfl⟩ := Option.map_eq_some_iff.mp hg
        exact Nat.le_of_eq (hwrite 0 _)
      · cases ht
        exact Nat.le_of_eq (hwrite 0 _)
    · next hphase =>
      cases ht
      have hzero : acquiring s q = 0 := acquiring_of_not (by rw [hphase]; rfl) q
      have hkept := hs.kept.assign 1 (hcopy 0)
      left
      rw [hzero, State.publish]
      split
      · show buffers ((s.heap.assign 1 (s.pointer 0)).assign 0 none) q ≤ _
        rw [buffers_assign hkept.linked 0 (v := none) of_none_eq_some,
          buffers_assign hs.kept.linked 1 (hcopy 0)]
        exact Nat.le_refl _
      · show buffers (s.heap.assign 0 none) q ≤ _
        rw [buffers_assign hs.kept.linked 0 (v := none) of_none_eq_some]
        exact Nat.le_refl _
    · cases ht
      exact .inl (Nat.add_le_add_left (Nat.zero_le _) _)
  | detach =>
    cases ht
    exact .inl (Nat.le_refl _)
  | destroy =>
    obtain ⟨hidle, heq⟩ := Option.ite_none_right_eq_some.mp ht
    cases heq
    left
    apply Nat.add_le_add
    · show buffers (s.heap.setPool none) q ≤ _
      rw [Heap.setPool]
      split
      · exact buffers_dropPool { s.heap with current := none } _ q
      · exact Nat.le_refl _
    · refine acquiring_le ?_ ?_ q
      · rfl
      · intro h
        rw [hidle] at h
        cases h
  | destroySlot =>
    obtain ⟨-, heq⟩ := Option.ite_none_left_eq_some.mp ht
    cases heq
    exact hother rfl (Heap.samePools_assign s.heap 1 none).current
      (Nat.le_of_eq (buffers_assign hs.kept.linked 1 (v := none) of_none_eq_some q))
  | copy i j =>
    obtain ⟨-, heq⟩ := Option.ite_none_right_eq_some.mp ht
    cases heq
    exact hother rfl (Heap.samePools_assign s.heap j _).current
      (Nat.le_of_eq (buffers_assign hs.kept.linked j (hcopy i) q))
  | take j =>
    obtain ⟨-, heq⟩ := Option.ite_none_right_eq_some.mp ht
    cases heq
    have hkept := hs.kept.assign j (hcopy 1)
    refine hother rfl ((Heap.samePools_assign _ 1 none).current.trans
      (Heap.samePools_assign s.heap j _).current) ?_
    show buffers ((s.heap.assign j (s.pointer 1)).assign 1 none) q ≤ _
    rw [buffers_assign hkept.linked 1 (v := none) of_none_eq_some,
      buffers_assign hs.kept.linked j (hcopy 1)]
  | drop j =>
    obtain ⟨-, heq⟩ := Option.ite_none_right_eq_some.mp ht
    cases heq
    exact hother rfl (Heap.samePools_assign s.heap j none).current
      (Nat.le_of_eq (buffers_assign hs.kept.linked j (v := none) of_none_eq_some q))
  | stamp j nanos =>
    obtain ⟨-, heq⟩ := Option.ite_none_right_eq_some.mp ht
    cases heq
    exact hother rfl (Heap.samePools_write s.heap j _).current (Nat.le_of_eq (hwrite j _))
  | delete h =>
    obtain ⟨heap, hd, rfl⟩ := Option.map_eq_some_iff.mp ht
    exact hother rfl (Heap.samePools_delete hd).current (buffers_delete hd q)

/-- A pool never has more buffers than its frames that were in flight at one time. -/
theorem buffers_le_inFlight (format : VideoFormat) (others : ℕ) (as : List Action)
    (ht : machine.run (start format others) as = some t) (p : ℕ) :
    ∃ before u, before <+: as ∧ machine.run (start format others) before = some u ∧
      buffers t.heap p ≤ inFlight u p := by
  obtain ⟨before, u, hbefore, hu, hle⟩ :=
    Machine.run_high_water (m := machine) (I := Inv)
      (f := fun s ↦ buffers s.heap p + acquiring s p) (g := fun s ↦ inFlight s p)
      (fun s a t ↦ inv_step a)
      (fun s a t hs ht ↦ (buffers_step a hs ht p).imp_right Nat.le_of_eq)
      (inv_start format others)
      (Nat.add_le_add_right (Nat.le_trans (buffers_create _ format p) (Nat.zero_le _)) _) as ht
  exact ⟨before, u, hbefore, hu, Nat.le_trans (Nat.le_add_right _ _) hle⟩

theorem buffers_le_inFlight_grey :
    ∃ t before u, machine.run (start pixel 1) twoPaints = some t ∧ before <+: twoPaints ∧
      machine.run (start pixel 1) before = some u ∧ buffers t.heap 0 ≤ inFlight u 0 :=
  have hpeak := buffers_le_inFlight pixel 1 twoPaints rfl 0
  ⟨_, hpeak.choose, hpeak.choose_spec.choose, rfl, hpeak.choose_spec.choose_spec⟩

/-! ## What becomes of a paint -/

/-- Whether a frame is taken out of the slot, which the clock never does. -/
def Action.takes : Action → Bool
  | .take _ => true
  | _ => false

/-- Nothing has been taken, and the slot is empty only before the first paint. -/
structure Peeked (s : State) : Prop where
  taken : s.taken = 0
  waiting : s.attached → s.pointer 1 = none → s.publishedCount = 0

/-- A step that neither publishes nor empties the slot. -/
private theorem Peeked.of_same (hs : Peeked s) (htaken : t.taken = s.taken)
    (hattached : t.attached → s.attached) (hslot : t.heap.pointers[1]? = s.heap.pointers[1]?)
    (hcount : t.publishedCount = s.publishedCount) : Peeked t where
  taken := htaken.trans hs.taken
  waiting := by
    intro ha hnone
    rw [State.pointer, hslot] at hnone
    rw [hcount]
    exact hs.waiting (hattached ha) hnone

private theorem peeked_step (a : Action) (hs : Inv s) (hp : Peeked s) (hno : a.takes = false)
    (ht : s.step a = some t) : Peeked t := by
  cases a with
  | setFormat format =>
    obtain ⟨-, heq⟩ := Option.ite_none_right_eq_some.mp ht
    cases heq
    rw [State.setFormat]
    split
    · exact hp
    · exact hp.of_same rfl id (by rw [Heap.pointers_create]) rfl
  | paint view paint =>
    obtain ⟨⟨-, hidle⟩, heq⟩ := Option.ite_none_right_eq_some.mp ht
    cases heq
    have hnone := hs.atPaint
    rw [AtPaint, hidle] at hnone
    rw [State.onPaint]
    split
    · exact hp
    · split
      · exact hp
      · split
        · next heap hpop =>
          have hacquires := Heap.acquires_pop hs.kept.linked hs.kept.placed hs.kept.shaped
            (hs.empty hnone) hpop
          exact hp.of_same rfl id
            (by rw [hacquires.pointers, List.getElem?_set_ne (by decide)]) rfl
        · exact hp.of_same rfl id rfl rfl
  | resume =>
    change s.resume = some t at ht
    rw [State.resume] at ht
    split at ht
    · cases ht
    · next paint hphase =>
      have hatPaint := hs.atPaint
      rw [AtPaint, hphase] at hatPaint
      obtain ⟨heap, hmake, rfl⟩ := Option.map_eq_some_iff.mp ht
      have hacquires := Heap.acquires_make hs.kept.linked hs.kept.placed hs.kept.shaped
        (hs.empty hatPaint.1) hmake
      exact hp.of_same rfl id (by rw [hacquires.pointers, List.getElem?_set_ne (by decide)]) rfl
    · rw [State.copy] at ht
      split at ht
      · obtain ⟨g, -, hg⟩ := Option.bind_eq_some_iff.mp ht
        obtain ⟨data, -, rfl⟩ := Option.map_eq_some_iff.mp hg
        exact hp.of_same rfl id (by rw [Heap.pointers_write]) rfl
      · cases ht
        exact hp.of_same rfl id (by rw [Heap.pointers_write]) rfl
    · next hphase =>
      cases ht
      have hatPaint := hs.atPaint
      have hroom := hs.kept.room
      rw [AtPaint, hphase] at hatPaint
      obtain ⟨h, -, -, -, hpointer, -⟩ := hatPaint
      rw [State.publish]
      split
      · -- what is published waits in the slot
        refine ⟨hp.taken, fun _ hnone ↦ ?_⟩
        change (((s.heap.assign 1 (s.pointer 0)).assign 0 none).pointers[1]?).join = none at hnone
        rw [Heap.pointers_assign, Heap.pointers_assign, List.getElem?_set_ne (by decide),
          List.getElem?_set_self (by omega), hpointer] at hnone
        cases hnone
      · exact hp.of_same rfl id
          (by rw [Heap.pointers_assign, List.getElem?_set_ne (by decide)]) rfl
    · cases ht
      exact hp.of_same rfl id rfl rfl
  | detach =>
    cases ht
    exact hp.of_same rfl (fun h ↦ by cases h) rfl rfl
  | destroy =>
    obtain ⟨-, heq⟩ := Option.ite_none_right_eq_some.mp ht
    cases heq
    exact hp.of_same rfl id (by rw [Heap.pointers_setPool]) rfl
  | destroySlot =>
    obtain ⟨ha, heq⟩ := Option.ite_none_left_eq_some.mp ht
    cases heq
    exact ⟨hp.taken, fun hattached ↦ absurd hattached ha⟩
  | copy i j =>
    obtain ⟨⟨-, hj⟩, heq⟩ := Option.ite_none_right_eq_some.mp ht
    cases heq
    exact hp.of_same rfl id (by rw [Heap.pointers_assign, List.getElem?_set_ne (by omega)]) rfl
  | take j => cases hno
  | drop j =>
    obtain ⟨hj, heq⟩ := Option.ite_none_right_eq_some.mp ht
    cases heq
    exact hp.of_same rfl id (by rw [Heap.pointers_assign, List.getElem?_set_ne (by omega)]) rfl
  | stamp j nanos =>
    obtain ⟨-, heq⟩ := Option.ite_none_right_eq_some.mp ht
    cases heq
    exact hp.of_same rfl id (by rw [Heap.pointers_write]) rfl
  | delete h =>
    obtain ⟨heap, hd, rfl⟩ := Option.map_eq_some_iff.mp ht
    exact hp.of_same rfl id (by rw [Heap.pointers_delete hd]) rfl

/-- While the client is attached, each paint published has been overwritten, taken or waits in
the slot, and the slot has the newest. The clock only peeks, so `overwritten` is one behind
`published` whatever the page and the clock do. -/
theorem published_accounted (format : VideoFormat) (others : ℕ) (as : List Action)
    (ht : machine.run (start format others) as = some t) (ha : t.attached) :
    t.publishedCount = t.overwrittenCount + t.taken + (if (t.pointer 1).isSome then 1 else 0) ∧
      (∀ h, t.pointer 1 = some h → ∃ frame, t.heap.frameOf h = some frame ∧
        frame.sequence + 1 = t.publishedCount) ∧
      ((∀ a ∈ as, a.takes = false) → t.overwrittenCount = t.publishedCount - 1) := by
  have hreach : machine.Reachable t := Machine.Reachable.run (.init ⟨format, others, rfl⟩) as ht
  have hinv := inv_reachable hreach
  refine ⟨hinv.slots ha, hinv.newest, fun hno ↦ ?_⟩
  have hpeeked : ∀ (as : List Action) {s : State}, Inv s → Peeked s → (∀ a ∈ as, a.takes = false) →
      machine.run s as = some t → Peeked t := by
    intro as
    induction as with
    | nil =>
      intro s _ hp _ ht
      cases ht
      exact hp
    | cons a rest ih =>
      intro s hs hp hno ht
      obtain ⟨u, hu, hrest⟩ := Option.bind_eq_some_iff.mp ht
      exact ih (inv_step a hs hu) (peeked_step a hs hp (hno a List.mem_cons_self) hu)
        (fun b hb ↦ hno b (List.mem_cons_of_mem a hb)) hrest
  have hp := hpeeked as (inv_start format others) ⟨rfl, fun _ _ ↦ rfl⟩ hno ht
  have hslots := hinv.slots ha
  rw [hp.taken] at hslots
  cases hslot : t.pointer 1 with
  | none =>
    have hzero := hp.waiting ha hslot
    omega
  | some h =>
    rw [hslot] at hslots
    change _ = _ + 0 + 1 at hslots
    omega

theorem published_accounted_grey :
    ∃ t, machine.run (start pixel 1) twoPaints = some t ∧
      t.overwrittenCount = t.publishedCount - 1 :=
  ⟨_, rfl, (published_accounted pixel 1 twoPaints rfl rfl).2.2 (by decide)⟩

end WebLinked.Browser.Paints
