import WebLinked.Engine.SlotCalls

/-!
# The object a tick was planned for

What a thread knows about a slot it knows because it holds the gate, or because it kept a copy
whose generation is still the slot's. The invariant says so for every thread; a step that moves one
thread, and touches no slot but the one whose gate that thread holds, keeps it.
-/

namespace WebLinked.Engine.SlotCalls

open WebLinked.Base WebLinked.Core

/-- The paths on which the object in the slot is stopped and destroyed. -/
def Path.replaces : Path → Bool
  | .replace _ | .remove _ _ _ | .close _ _ => true
  | _ => false

/-- The slot whose object a thread is replacing. -/
def Phase.replaces : Phase → Option ℕ
  | .holding path _ => if path.replaces then some path.slot else none
  | _ => none

/-- Whether the path is taken with the control queue. -/
def Path.queues : Path → Bool
  | .submit _ _ | .close _ _ | .preview _ _ | .status _ _ => false
  | _ => true

/-- Whether a thread is there with the control queue. -/
def Phase.queues : Phase → Bool
  | .entered request => State.queued request
  | .waiting path => path.queues
  | .holding path _ => path.queues
  | .returned path _ => path.queues
  | .assigning _ | .disabling _ | .creating _ | .opening _ _ _ | .adding _ _ _ _ => true
  | .stops _ _ | .reopens _ _ => true
  | _ => false

/-- The update a path is part of. -/
def Path.update : Path → Option Update
  | .probe u => some u
  | .replace u => some u
  | _ => none

/-- The update a thread is in. -/
def Phase.update : Phase → Option Update
  | .waiting path => path.update
  | .holding path _ => path.update
  | .returned path _ => path.update
  | .assigning u => some u
  | .disabling u => some u
  | _ => none

/-- The slots of a list of entries, each with its copy of the description. -/
def pairs (entries : List Entry) : List (ℕ × Description) := entries.map fun e ↦ (e.slot, e.desc)

section Entries

variable {f : Entry → Entry} {name other : String} {e : Entry} {entries : List Entry}

/-- The entry found is in the list. -/
theorem mem_pairs_of_find (h : find entries name = some e) : (e.slot, e.desc) ∈ pairs entries :=
  List.mem_map_of_mem (f := fun e : Entry ↦ (e.slot, e.desc)) (List.mem_of_find?_eq_some h)

/-- Writing into an entry changes the slots and descriptions of no other. -/
theorem mem_pairs_modify {c : ℕ × Description} (h : c ∈ pairs (modify name f entries)) :
    c ∈ pairs entries ∨ ∃ e, find entries name = some e ∧ c = ((f e).slot, (f e).desc) := by
  induction entries with
  | nil => exact .inl h
  | cons e entries ih =>
    rw [modify] at h
    split at h
    · next hname =>
      obtain rfl | hc := List.mem_cons.mp h
      · exact .inr ⟨e, List.find?_cons_of_pos (by simpa using hname), rfl⟩
      · exact .inl (List.mem_cons_of_mem _ hc)
    · next hname =>
      have hfind : find (e :: entries) name = find entries name :=
        List.find?_cons_of_neg (by simpa using hname)
      obtain rfl | hc := List.mem_cons.mp h
      · exact .inl List.mem_cons_self
      · rw [hfind]
        exact (ih hc).imp_left (List.mem_cons_of_mem _)

/-- Writing into an entry neither its slot nor its description. -/
theorem pairs_modify (hf : ∀ e, (f e).slot = e.slot ∧ (f e).desc = e.desc) (name : String)
    (entries : List Entry) : pairs (modify name f entries) = pairs entries := by
  induction entries with
  | nil => rfl
  | cons e entries ih =>
    rw [modify]
    split
    · rw [pairs, List.map_cons, (hf e).1, (hf e).2]
      rfl
    · exact congrArg (_ :: ·) ih

/-- An entry keeps its slot when others, or its own fields but the name, are written into. -/
theorem find_modify (h : find (modify name f entries) other = some e)
    (hf : ∀ e, (f e).slot = e.slot ∧ (f e).spec.name = e.spec.name) :
    ∃ e', find entries other = some e' ∧ e'.slot = e.slot := by
  induction entries with
  | nil => cases h
  | cons x entries ih =>
    rw [modify] at h
    split at h
    · by_cases hx : x.spec.name = other
      · rw [find, List.find?_cons_of_pos (by simpa [hf x] using hx)] at h
        cases h
        exact ⟨x, List.find?_cons_of_pos (by simpa using hx), (hf x).1.symm⟩
      · rw [find, List.find?_cons_of_neg (by simpa [hf x] using hx)] at h
        exact ⟨e, (List.find?_cons_of_neg (by simpa using hx)).trans h, rfl⟩
    · by_cases hx : x.spec.name = other
      · rw [find, List.find?_cons_of_pos (by simpa using hx)] at h
        cases h
        exact ⟨e, List.find?_cons_of_pos (by simpa using hx), rfl⟩
      · rw [find, List.find?_cons_of_neg (by simpa using hx)] at h
        obtain ⟨e', he', hslot⟩ := ih h
        exact ⟨e', (List.find?_cons_of_neg (by simpa using hx)).trans he', hslot⟩

/-- Feeding outputs again moves none of them. -/
theorem pairs_feedOne (entries : List Entry) (item : Item) :
    pairs (State.feedOne entries item) = pairs entries := by
  rw [State.feedOne]
  split
  · apply pairs_modify
    exact fun _ ↦ ⟨rfl, rfl⟩
  · split
    · rfl
    · split
      · apply pairs_modify
        exact fun _ ↦ ⟨rfl, rfl⟩
      · apply pairs_modify
        exact fun _ ↦ ⟨rfl, rfl⟩

/-- Nor does feeding all of them. -/
theorem pairs_foldl_feedOne (items : List Item) (entries : List Entry) :
    pairs (items.foldl State.feedOne entries) = pairs entries := by
  induction items generalizing entries with
  | nil => rfl
  | cons item items ih => rw [List.foldl_cons, ih, pairs_feedOne]

end Entries

namespace State

/-- An object made for the slot and not destroyed. -/
def Owned (s : State) (slot object : ℕ) : Prop :=
  (∃ x, s.objects[object]? = some x ∧ x.home = slot) ∧ object ∉ s.destroyed

/-- What is in the slot belongs there, and the description has the generation. -/
structure SlotOk (s : State) (slot : ℕ) : Prop where
  owned : ∀ o, (s.slots slot).output = some o → s.Owned slot o
  dated : (s.slots slot).description.generation = (s.slots slot).generation

/-- The description is that of the object in the slot. -/
def Described (s : State) (slot : ℕ) : Prop :=
  (s.slots slot).description = s.describe (s.slots slot).generation (s.slots slot).output

/-- A copy of a slot's description is not newer than the slot, and is right while none is
older. -/
def Current (s : State) (copy : ℕ × Description) : Prop :=
  copy.2.generation ≤ (s.slots copy.1).generation ∧
    (copy.2.generation = (s.slots copy.1).generation → copy.2 = (s.slots copy.1).description)

/-- What a thread that holds the gate of a slot knows about the slot. -/
def StageOk (s : State) (path : Path) : Stage → Prop
  | .calling o =>
    path.replaces = false ∧ (s.slots path.slot).output = some o ∧
      ∀ target rest, path = .submit target rest →
        target.desc.generation = (s.slots path.slot).generation
  | .stopping o => path.replaces ∧ (s.slots path.slot).output = some o
  | .stopped o => path.replaces ∧ (s.slots path.slot).output = some o
  | .emptied => path.replaces ∧ (s.slots path.slot).output = none
  | .starting r => path.replaces ∧ (s.slots path.slot).output = none ∧ s.Owned path.slot r
  | .failed r _ =>
    path.replaces ∧ (s.slots path.slot).output = none ∧ ∀ o ∈ r, s.Owned path.slot o
  | .restoring r _ previous =>
    path.replaces ∧ (s.slots path.slot).output = some previous ∧
      ∀ o ∈ r, s.Owned path.slot o ∧ o ≠ previous
  | .discarding r _ _ =>
    path.replaces ∧
      ∀ o ∈ r, s.Owned path.slot o ∧ (s.slots path.slot).output ≠ some o

/-- What any thread knows. -/
def PhaseOk (s : State) : Phase → Prop
  | .holding path stage => s.StageOk path stage
  | .opening _ slot o | .adding _ slot o _ => s.Owned slot o
  | _ => True

/-- The entry of an update's name, if there still is one, has the update's slot. -/
def Named (s : State) (u : Update) : Prop := ∀ e, find s.entries u.name = some e → e.slot = u.slot

/-- One thread at most holds each gate and the control queue, and what each knows is so. -/
structure Inv (s : State) : Prop where
  exclusive : ∀ (i j : ℕ) (p q : Phase) (slot : ℕ), s.threads[i]? = some p →
    s.threads[j]? = some q → p.holds = some slot → q.holds = some slot → i = j
  queue : ∀ (i : ℕ) (p : Phase), s.threads[i]? = some p → p.queues → s.queue = some i
  named : ∀ p ∈ s.threads, ∀ u, p.update = some u → s.Named u
  phases : ∀ p ∈ s.threads, s.PhaseOk p
  slots : ∀ slot, s.SlotOk slot
  described : ∀ slot, s.Described slot ∨ ∃ p ∈ s.threads, p.replaces = some slot
  listed : ∀ c ∈ pairs s.entries, s.Current c
  kept : ∀ p ∈ s.threads, ∀ c ∈ p.copies, s.Current c
  destroyed : ∀ o ∈ s.destroyed, o < s.objects.length

/-- Thread `i` goes from `p` to `q`, and changes nothing but the list and the slot it holds. -/
structure Moves (s t : State) (i : ℕ) (p q : Phase) : Prop where
  here : s.threads[i]? = some p
  threads : t.threads = s.threads.set i q
  objects : ∀ (o : ℕ) (x : Object), s.objects[o]? = some x → t.objects[o]? = some x
  destroyed : ∀ o ∈ t.destroyed,
    o ∈ s.destroyed ∨ ∃ x, s.objects[o]? = some x ∧ p.holds = some x.home
  elsewhere : ∀ slot, p.holds ≠ some slot → t.slots slot = s.slots slot
  newer : ∀ slot, p.holds = some slot → (s.slots slot).generation < (t.slots slot).generation ∨
    (t.slots slot).generation = (s.slots slot).generation ∧
      (t.slots slot).description = (s.slots slot).description
  gate : ∀ slot, q.holds = some slot → p.holds = some slot ∨ s.free slot
  queue : ∀ j, j ≠ i → s.queue = some j → t.queue = some j
  queues : q.queues → t.queue = some i
  entries : p.queues = false → t.entries = s.entries ∨ t.entries = []

variable {s t : State} {i : ℕ} {p q r : Phase} {slot o : ℕ}

/-- What is put into a slot is there. -/
@[simp] theorem slots_put_self (s : State) (slot : ℕ) (output : Option ℕ) :
    (s.put slot output).slots slot = { s.slots slot with output } :=
  Function.update_self ..

/-- The other slots are as they were. -/
theorem slots_put_of_ne {slot' : ℕ} (h : slot' ≠ slot) (s : State) (output : Option ℕ) :
    (s.put slot output).slots slot' = s.slots slot' :=
  Function.update_of_ne h ..

/-- A slot that is refreshed is described anew. -/
@[simp] theorem slots_refresh_self (s : State) (slot : ℕ) :
    (s.refresh slot).slots slot = { s.slots slot with
      generation := (s.slots slot).generation + 1
      description := s.describe ((s.slots slot).generation + 1) (s.slots slot).output } :=
  Function.update_self ..

/-- And no other is. -/
theorem slots_refresh_of_ne {slot' : ℕ} (h : slot' ≠ slot) (s : State) :
    (s.refresh slot).slots slot' = s.slots slot' :=
  Function.update_of_ne h ..

/-- A request that leaves takes the queue from nobody else. -/
theorem queue_leave {j : ℕ} (hj : j ≠ i) (hqueue : s.queue = some j) (l : List Entry) :
    (s.leave i l).queue = some j := by
  have hi : s.queue ≠ some i := by
    rw [hqueue]
    exact fun heq ↦ hj (Option.some.inj heq)
  exact (if_neg hi).trans hqueue

/-- A path that replaces holds the gate. -/
theorem holds_of_replaces (h : p.replaces = some slot) : p.holds = some slot := by
  cases p with
  | holding path stage =>
    rw [Phase.replaces] at h
    split at h
    · exact h
    · cases h
  | _ => cases h

/-- An update is made with the control queue. -/
theorem queues_of_update {u : Update} (h : p.update = some u) : p.queues := by
  cases p with
  | waiting path => cases path <;> first | rfl | cases h
  | holding path stage => cases path <;> first | rfl | cases h
  | returned path result => cases path <;> first | rfl | cases h
  | assigning | disabling => rfl
  | _ => cases h

/-- Nobody else holds a gate that is free. -/
theorem holds_ne_of_free (h : s.free slot) (hp : p ∈ s.threads) : p.holds ≠ some slot := by
  rw [free, List.all_eq_true] at h
  exact of_decide_eq_true (h p hp)

/-- A slot nobody touched is in order as long as it owns what it owned. -/
theorem SlotOk.frame (h : s.SlotOk slot) (hslot : t.slots slot = s.slots slot)
    (howned : ∀ o, s.Owned slot o → t.Owned slot o) : t.SlotOk slot := by
  constructor
  · intro o ho
    rw [hslot] at ho
    exact howned o (h.owned o ho)
  · rw [hslot]
    exact h.dated

/-- The description of what exists stays right. -/
theorem Described.frame (hd : s.Described slot) (h : s.SlotOk slot)
    (hslot : t.slots slot = s.slots slot)
    (objects : ∀ (o : ℕ) (x : Object), s.objects[o]? = some x → t.objects[o]? = some x) :
    t.Described slot := by
  rw [Described, hslot, hd]
  cases ho : (s.slots slot).output with
  | none => rfl
  | some o =>
    obtain ⟨⟨x, hx, -⟩, -⟩ := h.owned o ho
    simp only [describe, Option.bind_some, hx, objects o x hx]

/-- What a thread knows is about the slot whose gate it holds. -/
theorem PhaseOk.frame (h : s.PhaseOk r)
    (hslots : ∀ slot, r.holds = some slot → t.slots slot = s.slots slot)
    (howned : ∀ slot o, r.holds = some slot → s.Owned slot o → t.Owned slot o) : t.PhaseOk r := by
  cases r with
  | holding path stage =>
    have hslot := hslots path.slot rfl
    have hsame (o : ℕ) (ho : s.Owned path.slot o) : t.Owned path.slot o :=
      howned path.slot o rfl ho
    rw [PhaseOk] at h ⊢
    cases stage <;> simp only [StageOk, hslot] at h ⊢
    case starting replacement => exact ⟨h.1, h.2.1, hsame _ h.2.2⟩
    case failed replacement error => exact ⟨h.1, h.2.1, fun o ho ↦ hsame o (h.2.2 o ho)⟩
    case restoring replacement error previous =>
      exact ⟨h.1, h.2.1, fun o ho ↦ ⟨hsame o (h.2.2 o ho).1, (h.2.2 o ho).2⟩⟩
    case discarding replacement error restored =>
      exact ⟨h.1, fun o ho ↦ ⟨hsame o (h.2 o ho).1, (h.2 o ho).2⟩⟩
    all_goals exact h
  | opening spec slot o => exact howned slot o rfl h
  | adding spec slot o start => exact howned slot o rfl h
  | _ => trivial

namespace Moves

/-- What another slot owns, it still owns. -/
theorem owned (m : Moves s t i p q) (ho : s.Owned slot o) (hs : p.holds ≠ some slot) :
    t.Owned slot o := by
  obtain ⟨⟨x, hx, hhome⟩, hnot⟩ := ho
  refine ⟨⟨x, m.objects o x hx, hhome⟩, fun hd ↦ ?_⟩
  obtain hd | ⟨y, hy, hp⟩ := m.destroyed o hd
  · exact hnot hd
  · rw [hx] at hy
    cases hy
    rw [hhome] at hp
    exact hs hp

/-- What was so of another slot is still so. -/
theorem slotOk (m : Moves s t i p q) (h : s.SlotOk slot) (hs : p.holds ≠ some slot) :
    t.SlotOk slot :=
  h.frame (m.elsewhere slot hs) fun _ ho ↦ m.owned ho hs

/-- The description of another slot is as right as it was. -/
theorem described (m : Moves s t i p q) (h : s.SlotOk slot) (hd : s.Described slot)
    (hs : p.holds ≠ some slot) : t.Described slot :=
  hd.frame h (m.elsewhere slot hs) m.objects

/-- A copy stays as good as it was. -/
theorem current (m : Moves s t i p q) {c : ℕ × Description} (h : s.Current c) : t.Current c := by
  by_cases hs : p.holds = some c.1
  · obtain hlt | ⟨hgen, hdesc⟩ := m.newer c.1 hs
    · exact ⟨le_trans h.1 hlt.le, fun heq ↦ absurd heq (lt_of_le_of_lt h.1 hlt).ne⟩
    · rw [Current, hgen, hdesc]
      exact h
  · rw [Current, m.elsewhere c.1 hs]
    exact h

/-- What a thread with another gate knows is still so. -/
theorem phaseOk (m : Moves s t i p q) (h : s.PhaseOk r)
    (hr : ∀ slot, r.holds = some slot → p.holds ≠ some slot) : t.PhaseOk r :=
  h.frame (fun slot hs ↦ m.elsewhere slot (hr slot hs)) fun slot _ hs ho ↦ m.owned ho (hr slot hs)

end Moves

/-- A step of one thread keeps the invariant if what the thread knows is so and the slot it held is
in order. -/
theorem Inv.of_moves (h : Inv s) (m : Moves s t i p q)
    (held : ∀ slot, p.holds = some slot →
      t.SlotOk slot ∧ (t.Described slot ∨ q.replaces = some slot))
    (next : t.PhaseOk q) (named : ∀ u, q.update = some u → t.Named u)
    (listed : ∀ c ∈ pairs t.entries, c ∈ pairs s.entries ∨ c ∈ p.copies ∨ t.Current c)
    (kept : ∀ c ∈ q.copies, c ∈ pairs s.entries ∨ c ∈ p.copies ∨ t.Current c) : Inv t := by
  have hthis : p ∈ s.threads := List.mem_of_getElem? m.here
  have hold : ∀ c, c ∈ pairs s.entries ∨ c ∈ p.copies ∨ t.Current c → t.Current c := by
    rintro c (hc | hc | hc)
    · exact m.current (h.listed c hc)
    · exact m.current (h.kept p hthis c hc)
    · exact hc
  have hset : ∀ (j : ℕ) (r : Phase), t.threads[j]? = some r →
      (j = i ∧ r = q) ∨ (j ≠ i ∧ s.threads[j]? = some r) := by
    intro j r hj
    rw [m.threads, List.getElem?_set] at hj
    split at hj
    · next hij =>
      split at hj
      · cases hj
        exact .inl ⟨hij.symm, rfl⟩
      · cases hj
    · next hij => exact .inr ⟨Ne.symm hij, hj⟩
  have hother : ∀ r ∈ t.threads, r = q ∨ ∃ j : ℕ, j ≠ i ∧ s.threads[j]? = some r := by
    rw [m.threads]
    exact fun r hr ↦ Pool.mem_set hr
  have hapart : ∀ (j : ℕ) (r : Phase), j ≠ i → s.threads[j]? = some r →
      ∀ slot, q.holds = some slot → r.holds ≠ some slot := by
    intro j r hne hj slot hq hr
    obtain hp | hfree := m.gate slot hq
    · exact hne (h.exclusive j i r p slot hj m.here hr hp)
    · exact holds_ne_of_free hfree (List.mem_of_getElem? hj) hr
  constructor
  case exclusive =>
    intro j k a b slot hj hk ha hb
    obtain ⟨rfl, rfl⟩ | ⟨hji, hj⟩ := hset j a hj
    · obtain ⟨rfl, rfl⟩ | ⟨hki, hk⟩ := hset k b hk
      · rfl
      · exact absurd hb (hapart k b hki hk slot ha)
    · obtain ⟨rfl, rfl⟩ | ⟨hki, hk⟩ := hset k b hk
      · exact absurd ha (hapart j a hji hj slot hb)
      · exact h.exclusive j k a b slot hj hk ha hb
  case queue =>
    intro j r hj hr
    obtain ⟨rfl, rfl⟩ | ⟨hji, hj⟩ := hset j r hj
    · exact m.queues hr
    · exact m.queue j hji (h.queue j r hj hr)
  case named =>
    intro r hr u hu
    obtain rfl | ⟨j, hji, hj⟩ := hother r hr
    · exact named u hu
    · -- the queue is with the other thread, so this one does not rename or add an entry
      have hqueue := h.queue j r hj (queues_of_update hu)
      have hp : p.queues = false := by
        by_contra hp
        rw [h.queue i p m.here (Bool.not_eq_false _ ▸ hp)] at hqueue
        exact hji (Option.some.inj hqueue).symm
      obtain hsame | hnone := m.entries hp
      · rw [Named, hsame]
        exact h.named r (List.mem_of_getElem? hj) u hu
      · rw [Named, hnone]
        intro e he
        cases he
  case phases =>
    intro r hr
    obtain rfl | ⟨j, hji, hj⟩ := hother r hr
    · exact next
    · refine m.phaseOk (h.phases r (List.mem_of_getElem? hj)) fun slot hslot hp ↦ ?_
      exact hji (h.exclusive j i r p slot hj m.here hslot hp)
  case slots =>
    intro slot
    by_cases hs : p.holds = some slot
    · exact (held slot hs).1
    · exact m.slotOk (h.slots slot) hs
  case described =>
    intro slot
    by_cases hs : p.holds = some slot
    · obtain hd | hq := (held slot hs).2
      · exact .inl hd
      · refine .inr ⟨q, ?_, hq⟩
        rw [m.threads]
        exact List.mem_set (List.getElem?_eq_some_iff.mp m.here).1 q
    · obtain hd | ⟨r, hr, hslot⟩ := h.described slot
      · exact .inl (m.described (h.slots slot) hd hs)
      · obtain ⟨j, hj⟩ := List.getElem?_of_mem hr
        have hji : i ≠ j := by
          rintro rfl
          rw [m.here] at hj
          cases hj
          exact hs (holds_of_replaces hslot)
        refine .inr ⟨r, ?_, hslot⟩
        rw [m.threads]
        exact List.mem_of_getElem? ((List.getElem?_set_ne hji).trans hj)
  case listed => exact fun c hc ↦ hold c (listed c hc)
  case kept =>
    intro r hr c hc
    obtain rfl | ⟨j, -, hj⟩ := hother r hr
    · exact hold c (kept c hc)
    · exact m.current (h.kept r (List.mem_of_getElem? hj) c hc)
  case destroyed =>
    intro o ho
    have hlt : ∃ x, s.objects[o]? = some x := by
      obtain ho | ⟨x, hx, -⟩ := m.destroyed o ho
      · exact ⟨_, List.getElem?_eq_getElem (h.destroyed o ho)⟩
      · exact ⟨x, hx⟩
    obtain ⟨x, hx⟩ := hlt
    exact (List.getElem?_eq_some_iff.mp (m.objects o x hx)).1

/-- What the thread knows. -/
theorem Inv.knows (h : Inv s) (hp : s.threads[i]? = some p) : s.PhaseOk p :=
  h.phases p (List.mem_of_getElem? hp)

/-- Who else holds its gate is the same thread. -/
theorem Inv.eq_of_holds (h : Inv s) (hp : s.threads[i]? = some p) (hq : q ∈ s.threads)
    (hps : p.holds = some slot) (hqs : q.holds = some slot) : q = p := by
  obtain ⟨j, hj⟩ := List.getElem?_of_mem hq
  obtain rfl := h.exclusive i j p q slot hp hj hps hqs
  exact Option.some.inj (hj.symm.trans hp)

/-- The copy that a slot has of its own description. -/
theorem Inv.current (h : Inv s) (slot : ℕ) : s.Current (slot, (s.slots slot).description) :=
  ⟨(h.slots slot).dated.le, fun _ ↦ rfl⟩

/-- A thread without a gate knows nothing of a slot. -/
theorem phaseOk_of_holds (h : q.holds = none) : s.PhaseOk q := by
  cases q <;> first | exact trivial | cases h

/-- A step of one thread that leaves the slots alone. -/
theorem Inv.of_still (h : Inv s) (hp : s.threads[i]? = some p)
    (hthreads : t.threads = s.threads.set i q) (hobjects : t.objects = s.objects)
    (hdestroyed : t.destroyed = s.destroyed) (hslots : t.slots = s.slots)
    (gate : ∀ slot, q.holds = some slot → p.holds = some slot ∨ s.free slot)
    (replaces : p.replaces = none ∨ q.replaces = p.replaces)
    (queue : ∀ j, j ≠ i → s.queue = some j → t.queue = some j)
    (queues : q.queues → t.queue = some i)
    (entries : p.queues = false → t.entries = s.entries ∨ t.entries = [])
    (next : t.PhaseOk q) (named : ∀ u, q.update = some u → t.Named u)
    (listed : ∀ c ∈ pairs t.entries, c ∈ pairs s.entries ∨ c ∈ p.copies ∨ t.Current c)
    (kept : ∀ c ∈ q.copies, c ∈ pairs s.entries ∨ c ∈ p.copies ∨ t.Current c) : Inv t := by
  have m : Moves s t i p q := {
    here := hp
    threads := hthreads
    objects := fun o x hx ↦ hobjects ▸ hx
    destroyed := fun o ho ↦ .inl (hdestroyed ▸ ho)
    elsewhere := fun slot _ ↦ congrFun hslots slot
    newer := fun slot _ ↦ by simp only [hslots, true_and, or_true]
    gate, queue, queues, entries }
  refine h.of_moves m (fun slot hslot ↦ ⟨?_, ?_⟩) next named listed kept
  · constructor
    · intro o ho
      rw [hslots] at ho
      rw [Owned, hobjects, hdestroyed]
      exact (h.slots slot).owned o ho
    · rw [hslots]
      exact (h.slots slot).dated
  · obtain hd | ⟨r, hr, hrs⟩ := h.described slot
    · left
      simpa only [Described, describe, hslots, hobjects] using hd
    · obtain rfl := h.eq_of_holds hp hr hslot (holds_of_replaces hrs)
      obtain hnone | hsame := replaces
      · rw [hnone] at hrs
        cases hrs
      · exact .inr (hsame.trans hrs)

/-- A thread without a gate, or whose call has returned, goes on to something else without one. -/
theorem Inv.goto (h : Inv s) (hp : s.threads[i]? = some p) {l : List Entry}
    (holds : q.holds = none) (replaces : p.replaces = none) (queues : q.queues → p.queues)
    (entries : p.queues ∨ l = s.entries ∨ l = []) (listed : ∀ c ∈ pairs l, c ∈ pairs s.entries)
    (kept : ∀ c ∈ q.copies, c ∈ pairs s.entries ∨ c ∈ p.copies)
    (named : ∀ u, q.update = some u → ∀ e, find l u.name = some e → e.slot = u.slot) :
    Inv (({ s with entries := l }).goto i q) := by
  refine h.of_still hp rfl rfl rfl rfl ?_ (.inl replaces) (fun _ _ hj ↦ hj) ?_ ?_
    (phaseOk_of_holds holds) named (fun c hc ↦ .inl (listed c hc)) ?_
  · intro slot hslot
    rw [holds] at hslot
    cases hslot
  · exact fun hq ↦ h.queue i p hp (queues hq)
  · intro hnot
    obtain hp | hl := entries
    · rw [hnot] at hp
      cases hp
    · exact hl
  · intro c hc
    obtain hc | hc := kept c hc
    · exact .inl hc
    · exact .inr (.inl hc)

/-- A thread goes on with what it knew, and without a gate. -/
theorem Inv.onwards (h : Inv s) (hp : s.threads[i]? = some p) (holds : q.holds = none)
    (replaces : p.replaces = none) (queues : q.queues → p.queues)
    (copies : ∀ c ∈ q.copies, c ∈ p.copies) (update : ∀ u, q.update = some u → p.update = some u) :
    Inv (s.goto i q) :=
  h.goto hp holds replaces queues (.inr (.inl rfl)) (fun _ hc ↦ hc) (fun c hc ↦ .inr (copies c hc))
    fun u hu ↦ h.named p (List.mem_of_getElem? hp) u (update u hu)

/-- A request returns. -/
theorem Inv.leave (h : Inv s) (hp : s.threads[i]? = some p) {l : List Entry}
    (replaces : p.replaces = none) (entries : p.queues ∨ l = s.entries)
    (listed : ∀ c ∈ pairs l, c ∈ pairs s.entries ∨ s.Current c) : Inv (s.leave i l) := by
  refine h.of_still hp rfl rfl rfl rfl nofun (.inl replaces) ?_ nofun ?_ trivial ?_ ?_ nofun
  · exact fun j hj hqueue ↦ queue_leave hj hqueue l
  · intro hnot
    obtain hp | hl := entries
    · rw [hnot] at hp
      cases hp
    · exact .inl hl
  · intro u hu
    cases hu
  · intro c hc
    obtain hc | hc := listed c hc
    · exact .inl hc
    · exact .inr (.inr hc)

/-- A thread that holds a gate takes a step there. -/
theorem Inv.hold (h : Inv s) {path : Path} {stage : Stage} {u : State}
    (hp : s.threads[i]? = some (.holding path stage))
    (hq : (∃ next, q = .holding path next) ∨ ∃ result, q = .returned path result)
    (threads : u.threads = s.threads) (queue : u.queue = s.queue) (entries : u.entries = s.entries)
    (objects : ∀ (o : ℕ) (x : Object), s.objects[o]? = some x → u.objects[o]? = some x)
    (destroyed : ∀ o ∈ u.destroyed, o ∈ s.destroyed ∨ s.Owned path.slot o)
    (elsewhere : ∀ slot, slot ≠ path.slot → u.slots slot = s.slots slot)
    (newer : (s.slots path.slot).generation < (u.slots path.slot).generation ∨
      (u.slots path.slot).generation = (s.slots path.slot).generation ∧
        (u.slots path.slot).description = (s.slots path.slot).description)
    (slotOk : u.SlotOk path.slot) (described : u.Described path.slot ∨ q.replaces = some path.slot)
    (next : u.PhaseOk q) : Inv (u.goto i q) := by
  have hqueues : q.queues = path.queues := by
    obtain ⟨_, rfl⟩ | ⟨_, rfl⟩ := hq <;> rfl
  have hcopies : ∀ c ∈ q.copies, c ∈ path.copies := by
    obtain ⟨_, rfl⟩ | ⟨_, rfl⟩ := hq <;> exact fun c hc ↦ hc
  have hupdate : q.update = path.update := by
    obtain ⟨_, rfl⟩ | ⟨_, rfl⟩ := hq <;> rfl
  have m : Moves s (u.goto i q) i (.holding path stage) q := by
    constructor
    case here => exact hp
    case threads => exact congrArg (·.set i q) threads
    case objects => exact objects
    case destroyed =>
      intro o ho
      obtain ho | ⟨⟨x, hx, hhome⟩, -⟩ := destroyed o ho
      · exact .inl ho
      · exact .inr ⟨x, hx, congrArg some hhome.symm⟩
    case elsewhere => exact fun slot hslot ↦ elsewhere slot fun heq ↦ hslot (congrArg some heq.symm)
    case newer =>
      intro slot hslot
      cases hslot
      exact newer
    case gate =>
      obtain ⟨_, rfl⟩ | ⟨_, rfl⟩ := hq
      · exact fun slot hslot ↦ .inl hslot
      · exact nofun
    case queue => exact fun j _ hj ↦ queue.trans hj
    case queues => exact fun hqs ↦ queue.trans (h.queue i _ hp (hqueues.symm.trans hqs))
    case entries => exact fun _ ↦ .inl entries
  refine h.of_moves m ?_ next ?_ ?_ ?_
  · intro slot hslot
    cases hslot
    exact ⟨⟨slotOk.owned, slotOk.dated⟩, described⟩
  · intro v hv e he
    have hname := h.named _ (List.mem_of_getElem? hp) v (hupdate.symm.trans hv)
    exact hname e (entries ▸ he)
  · exact fun c hc ↦ .inl (entries ▸ hc)
  · exact fun c hc ↦ .inr (.inl (hcopies c hc))

/-- The slot that was refreshed is in order if what is in it belongs there. -/
theorem refresh_slotOk (h : ∀ o, (s.slots slot).output = some o → s.Owned slot o) :
    (s.refresh slot).SlotOk slot := by
  constructor
  · rw [slots_refresh_self]
    exact h
  · rw [slots_refresh_self]
    simp only [describe]
    split <;> rfl

/-- And it is described. -/
theorem refresh_described (s : State) (slot : ℕ) : (s.refresh slot).Described slot := by
  rw [Described, slots_refresh_self]
  rfl

/-- A refresh makes the slot newer. -/
theorem lt_refresh (s : State) (slot : ℕ) :
    (s.slots slot).generation < ((s.refresh slot).slots slot).generation := by
  rw [slots_refresh_self]
  exact Nat.lt_succ_self _

/-- A new object belongs to the slot it was made for. -/
theorem Inv.create_owned (h : Inv s) (backend : Backend) (slot : ℕ) :
    (s.create backend slot).Owned slot s.objects.length := by
  constructor
  · exact ⟨⟨backend, slot⟩, List.getElem?_concat_length, rfl⟩
  · exact fun hd ↦ lt_irrefl _ (h.destroyed _ hd)

/-- The objects there were are still there. -/
theorem create_objects {x : Object} (backend : Backend) (home : ℕ) (hx : s.objects[o]? = some x) :
    (s.create backend home).objects[o]? = some x :=
  (List.getElem?_append_left (List.getElem?_eq_some_iff.mp hx).1).trans hx

/-- And belong where they belonged. -/
theorem Owned.create (ho : s.Owned slot o) (backend : Backend) (home : ℕ) :
    (s.create backend home).Owned slot o := by
  obtain ⟨⟨x, hx, hhome⟩, hnot⟩ := ho
  exact ⟨⟨x, create_objects backend home hx, hhome⟩, hnot⟩

/-- What belongs to a slot was made before the next object. -/
theorem Owned.lt (ho : s.Owned slot o) : o < s.objects.length := by
  obtain ⟨⟨x, hx, -⟩, -⟩ := ho
  exact (List.getElem?_eq_some_iff.mp hx).1

/-- One object destroyed does not take another. -/
theorem Owned.destroy {o' : ℕ} (ho : s.Owned slot o) (hne : o ≠ o') :
    (s.destroy o').Owned slot o := by
  refine ⟨ho.1, fun hd ↦ ?_⟩
  obtain hd | hd := List.mem_cons.mp hd
  · exact hne hd
  · exact ho.2 hd

/-- The thread learns something of the slot without changing it. -/
theorem Inv.stay (h : Inv s) {path : Path} {stage next : Stage}
    (hp : s.threads[i]? = some (.holding path stage)) (hr : path.replaces)
    (hnext : s.StageOk path next) : Inv (s.goto i (.holding path next)) :=
  h.hold hp (.inl ⟨next, rfl⟩) rfl rfl rfl (fun _ _ hx ↦ hx) (fun _ ho ↦ .inl ho) (fun _ _ ↦ rfl)
    (.inr ⟨rfl, rfl⟩) (h.slots path.slot) (.inr (if_pos hr)) hnext

/-- The last step under a gate that was had to replace the object. -/
theorem Inv.refresh (h : Inv s) {path : Path} {stage : Stage} {u : State} (result : Result)
    (hp : s.threads[i]? = some (.holding path stage)) (threads : u.threads = s.threads)
    (queue : u.queue = s.queue) (entries : u.entries = s.entries) (objects : u.objects = s.objects)
    (destroyed : ∀ o ∈ u.destroyed, o ∈ s.destroyed ∨ s.Owned path.slot o)
    (elsewhere : ∀ slot, slot ≠ path.slot → u.slots slot = s.slots slot)
    (generation : (u.slots path.slot).generation = (s.slots path.slot).generation)
    (owned : ∀ o, (u.slots path.slot).output = some o → u.Owned path.slot o) :
    Inv ((u.refresh path.slot).goto i (.returned path result)) := by
  refine h.hold hp (.inr ⟨result, rfl⟩) threads queue entries (fun o x hx ↦ ?_) destroyed ?_ ?_
    (refresh_slotOk owned) (.inl (refresh_described _ _)) trivial
  · exact (congrArg (·[o]?) objects).trans hx
  · intro slot hne
    exact (slots_refresh_of_ne hne u).trans (elsewhere slot hne)
  · rw [← generation]
    exact .inl (lt_refresh _ _)

end State
end WebLinked.Engine.SlotCalls
