import Mathlib
import WebLinked.Core.Recall
import WebLinked.Engine.SourceManager

/-!
# What requests take out of the table

`src/engine/source_manager.cpp:136–246`. A removal names its sources before it takes them out,
and between the two any other request may do the same, or add.
-/

namespace WebLinked.Engine.SourceManager

open WebLinked.Base WebLinked.Core WebLinked.Core.SourceTable Json

/-- The ids a request may yet take out. -/
def Phase.targets : Phase → List String
  | .removing id rest | .awaiting _ id rest => id :: rest.elim [] Apply.removals
  | .adding _ rest | .starting _ rest | .inserting _ rest => rest.elim [] Apply.removals
  | .reconciling a | .found _ a | .reaching _ _ a => a.removals
  | _ => []

section Advance

variable {table t : SourceTable.State Unit} {answer : Answer} {p q : Phase}

/-- What a step of a request does to the table. -/
inductive Moves (table t : SourceTable.State Unit) (p q : Phase) : Prop where
  | stay (same : t = table) (done : ∀ call id rest, p = .awaiting call id rest →
      ∃ removal removed, table.calls[call]? = some (.removeDone removal removed))
  | remove (id : String) (rest : Option Apply) (before : p = .removing id rest)
      (after : q = .awaiting table.calls.length id rest) (moved : t = table.remove id)
  | insert (config : SourceConfig) (rest : Option Apply) (before : p = .inserting config rest)
      (moved : t = table.insert config.id (some ()))
  | call (c : Call) (target : c.target = none) (idle : p.call = none)
      (moved : t = { table with calls := table.calls ++ [c] })
  | proceed (call : ℕ) (expired : Bool) (own : p.call = some call)
      (stays : ∀ call id rest, p = .awaiting call id rest → q = p)
      (moved : table.proceed call expired = some t)

/-- Every step of a request is one of these. -/
theorem moves_of_advance (h : advance table answer p = some (t, q)) : Moves table t p q := by
  cases p with
  | checking id =>
    simp only [advance] at h
    split at h <;> cases h <;> exact .stay rfl nofun
  | removing id rest =>
    cases h
    exact .remove id rest rfl rfl rfl
  | awaiting call id rest =>
    simp only [advance] at h
    split at h
    · next removal removed hc =>
      cases h
      refine .stay rfl ?_
      rintro call' id' rest' heq
      cases heq
      exact ⟨removal, removed, hc⟩
    · obtain ⟨t', ht, heq⟩ := Option.map_eq_some_iff.mp h
      cases heq
      refine .proceed call answer.expired rfl ?_ ht
      rintro call' id' rest' heq
      rfl
  | adding config rest =>
    cases h
    exact .stay rfl nofun
  | starting config rest =>
    simp only [advance] at h
    split at h <;> cases h <;> exact .stay rfl nofun
  | inserting config rest =>
    cases h
    exact .insert config rest rfl rfl
  | loading document parts =>
    cases h
    exact .call (.forEachAt table.entries) rfl rfl rfl
  | reading call sources document parts =>
    simp only [advance] at h
    split at h
    · split at h <;> cases h <;> exact .stay rfl nofun
    · obtain ⟨t', ht, heq⟩ := Option.map_eq_some_iff.mp h
      cases heq
      exact .proceed call answer.expired rfl nofun ht
  | applying wanted =>
    cases h
    exact .stay rfl nofun
  | reconciling a =>
    simp only [advance] at h
    split at h
    · cases h
      exact .stay rfl nofun
    · split at h <;> cases h <;> exact .stay rfl nofun
    · cases h
      exact .stay rfl nofun
  | found source a =>
    cases h
    refine .call _ ?_ rfl rfl
    split
    · rfl
    · split <;> rfl
  | reaching call source a =>
    simp only [advance] at h
    split at h
    · cases h
      exact .stay rfl nofun
    · obtain ⟨t', ht, heq⟩ := Option.map_eq_some_iff.mp h
      cases heq
      exact .proceed call answer.expired rfl nofun ht
    · obtain ⟨t', ht, heq⟩ := Option.map_eq_some_iff.mp h
      cases heq
      exact .proceed call answer.expired rfl nofun ht
  | done error => cases h

/-- A reconcile that an error is noted in has the ids to remove that it had. -/
theorem targets_finish (rest : Option Apply) (error : String) :
    (finish rest error).targets = rest.elim [] Apply.removals := by
  cases rest with
  | none => rfl
  | some a => exact removals_note a error

/-- Past its check a removal has its targets, and a reconcile past its `ids`: neither gains
another. -/
theorem targets_advance (h : advance table answer p = some (t, q))
    (hc : ∀ id, p ≠ .checking id) (ha : ∀ wanted, p ≠ .applying wanted) :
    ∀ n ∈ q.targets, n ∈ p.targets := by
  intro n hn
  cases p with
  | checking id => exact absurd rfl (hc id)
  | removing id rest =>
    cases h
    exact hn
  | awaiting call id rest =>
    simp only [advance] at h
    split at h
    · cases h
      rw [targets_finish] at hn
      exact List.mem_cons_of_mem _ hn
    · obtain ⟨t', ht, heq⟩ := Option.map_eq_some_iff.mp h
      cases heq
      exact hn
  | adding config rest =>
    cases h
    simp only [add] at hn
    split at hn
    · rwa [targets_finish] at hn
    · split at hn
      · rwa [targets_finish] at hn
      · exact hn
  | starting config rest =>
    simp only [advance] at h
    split at h <;> cases h
    · rwa [targets_finish] at hn
    · exact hn
  | inserting config rest =>
    cases h
    rwa [targets_finish] at hn
  | loading document parts =>
    cases h
    cases hn
  | reading call sources document parts =>
    simp only [advance] at h
    split at h
    · split at h <;> cases h <;> cases hn
    · obtain ⟨t', ht, heq⟩ := Option.map_eq_some_iff.mp h
      cases heq
      cases hn
  | applying wanted => exact absurd rfl (ha wanted)
  | reconciling a =>
    simp only [advance] at h
    split at h
    · next id removals _ hr =>
      cases h
      simpa [Phase.targets, hr] using hn
    · split at h <;> cases h <;> exact hn
    · cases h
      cases hn
  | found source a =>
    cases h
    exact hn
  | reaching call source a =>
    simp only [advance] at h
    split at h
    · cases h
      simp only [Phase.targets, Apply.note] at hn ⊢
      split at hn
      · split at hn <;> exact hn
      · exact hn
    · obtain ⟨t', ht, heq⟩ := Option.map_eq_some_iff.mp h
      cases heq
      simp only [Phase.targets, Apply.note] at hn ⊢
      split at hn
      · split at hn <;> exact hn
      · exact hn
    · obtain ⟨t', ht, heq⟩ := Option.map_eq_some_iff.mp h
      cases heq
      exact hn
  | done error => cases h

end Advance

section Run

variable {s s' : State} {action : Action} {n : String}

/-- A request waits for the call to take this id out. -/
def Awaits (s : State) (call : ℕ) (id : String) : Prop :=
  ∃ (j : ℕ) (r : Request) (rest : Option Apply),
    s.requests[j]? = some r ∧ r.phase = .awaiting call id rest

/-- A call that may yet take an entry out belongs to a request that waits for it, for the id the
entry has. -/
def Owned (s : State) : Prop :=
  ∀ (call : ℕ) (c : Call) (a : Addr), s.table.calls[call]? = some c → c.target = some a →
    ∃ id, s.table.names[a]? = some id ∧ Awaits s call id

/-- A step of a request changes its phase and the table as `advance` says. -/
theorem step_proceed {i : ℕ} {answer : Answer} (h : step s (.proceed i answer) = some s') :
    ∃ r phase, s.requests[i]? = some r ∧ advance s.table answer r.phase = some (s'.table, phase) ∧
      s'.requests = s.requests.set i
        { r with phase, snapshot := r.snapshot ++ r.phase.snapshot s.table } ∧
      s'.removed = s.removed ++ (r.phase.erased s.table).toList.map (i, ·) := by
  obtain ⟨r, hr, h⟩ := Option.bind_eq_some_iff.mp h
  obtain ⟨⟨table, phase⟩, ha, h⟩ := Option.bind_eq_some_iff.mp h
  cases h
  exact ⟨r, phase, hr, ha, rfl, rfl⟩

/-- A request that stays where it was waits on. -/
private theorem awaits_set {i call : ℕ} {id : String} {r r' : Request} (h : Awaits s call id)
    (hr : s.requests[i]? = some r) (hs' : s'.requests = s.requests.set i r')
    (hstays : ∀ rest, r.phase = .awaiting call id rest → r'.phase = r.phase) :
    Awaits s' call id := by
  obtain ⟨j, u, rest, hu, hphase⟩ := h
  by_cases hj : i = j
  · subst hj
    rw [hr] at hu
    cases hu
    refine ⟨i, r', rest, ?_, (hstays rest hphase).trans hphase⟩
    rw [hs', List.getElem?_set_self (List.getElem?_eq_some_iff.mp hr).1]
  · exact ⟨j, u, rest, by rw [hs', List.getElem?_set_ne hj, hu], hphase⟩

/-- The calls stay owned when the table makes a new one that takes nothing out. -/
private theorem target_append {c d : Call} {call : ℕ} {a : Addr} {calls : List Call}
    (hd : d.target = none) (hc : (calls ++ [d])[call]? = some c) (ht : c.target = some a) :
    calls[call]? = some c := by
  rcases Nat.lt_trichotomy call calls.length with hlt | rfl | hlt
  · rwa [List.getElem?_append_left hlt] at hc
  · rw [List.getElem?_concat_length] at hc
    cases hc
    rw [hd] at ht
    cases ht
  · rw [List.getElem?_eq_none (by simp; omega)] at hc
    cases hc

/-- The calls stay owned under a step of a call. -/
private theorem owned_of_proceeds {call : ℕ} {c c' : Call} (hs : Owned s)
    (h : Proceeds s.table s'.table call c c') {call₁ : ℕ} {c₁ : Call} {a : Addr}
    (hc : s'.table.calls[call₁]? = some c₁) (ht : c₁.target = some a) :
    ∃ id, s'.table.names[a]? = some id ∧ Awaits s call₁ id := by
  rw [h.names]
  rw [h.calls] at hc
  by_cases hcall : call = call₁
  · subst hcall
    rw [List.getElem?_set_self (List.getElem?_eq_some_iff.mp h.call).1] at hc
    cases hc
    exact hs call c a h.call (h.target a ht)
  · rw [List.getElem?_set_ne hcall] at hc
    exact hs call₁ c₁ a hc ht

/-- The calls stay owned under a step of a request. -/
private theorem owned_proceed {i : ℕ} {answer : Answer} (hs : Owned s)
    (h : step s (.proceed i answer) = some s') : Owned s' := by
  obtain ⟨r, q, hr, ha, hrequests, -⟩ := step_proceed h
  intro call c a hc htarget
  cases moves_of_advance ha with
  | stay same done =>
    rw [same] at hc ⊢
    obtain ⟨id, hname, hawaits⟩ := hs call c a hc htarget
    refine ⟨id, hname, awaits_set hawaits hr hrequests fun rest hp ↦ ?_⟩
    obtain ⟨removal, removed, hdone⟩ := done call id rest hp
    rw [hc] at hdone
    cases hdone
    cases htarget
  | remove id rest before after moved =>
    have hi : i < s.requests.length := (List.getElem?_eq_some_iff.mp hr).1
    rw [moved] at hc ⊢
    simp only [SourceTable.State.remove] at hc
    rcases Nat.lt_trichotomy call s.table.calls.length with hlt | rfl | hlt
    · rw [List.getElem?_append_left hlt] at hc
      obtain ⟨id', hname, hawaits⟩ := hs call c a hc htarget
      refine ⟨id', hname, awaits_set hawaits hr hrequests fun rest' hp ↦ ?_⟩
      rw [before] at hp
      cases hp
    · rw [List.getElem?_concat_length] at hc
      cases hc
      cases hf : s.table.findLocked id with
      | none =>
        rw [hf] at htarget
        cases htarget
      | some b =>
        rw [hf] at htarget
        cases htarget
        have hset := List.getElem?_set_self (a := ({ r with
          phase := q, snapshot := r.snapshot ++ r.phase.snapshot s.table } : Request)) hi
        rw [← hrequests] at hset
        exact ⟨id, (SourceTable.State.findLocked_eq_some hf).2, i, _, rest, hset, after⟩
    · rw [List.getElem?_eq_none (by simp; omega)] at hc
      cases hc
  | insert config rest before moved =>
    obtain ⟨hnames, -, hcalls⟩ := s.table.insert_spec config.id (some ())
    rw [moved, hcalls] at hc
    obtain ⟨id, hname, hawaits⟩ := hs call c a (target_append rfl hc htarget) htarget
    refine ⟨id, ?_, awaits_set hawaits hr hrequests fun rest' hp ↦ ?_⟩
    · rw [moved, hnames, List.getElem?_append_left (List.getElem?_eq_some_iff.mp hname).1, hname]
    · rw [before] at hp
      cases hp
  | call d target idle moved =>
    rw [moved] at hc ⊢
    obtain ⟨id, hname, hawaits⟩ := hs call c a (target_append target hc htarget) htarget
    refine ⟨id, hname, awaits_set hawaits hr hrequests fun rest hp ↦ ?_⟩
    rw [hp] at idle
    cases idle
  | proceed call₀ expired own stays moved =>
    obtain ⟨d, d', hd⟩ := proceeds_of_proceed moved
    obtain ⟨id, hname, hawaits⟩ := owned_of_proceeds hs hd hc htarget
    exact ⟨id, hname, awaits_set hawaits hr hrequests fun rest hp ↦ stays call id rest hp⟩

/-- In every state the calls that take something out are owned. -/
theorem owned_step (hs : Owned s) (h : step s action = some s') : Owned s' := by
  cases action with
  | request command =>
    cases h
    intro call c a hc htarget
    obtain ⟨id, hname, j, r, rest, hr, hphase⟩ := hs call c a hc htarget
    exact ⟨id, hname, j, r, rest,
      List.getElem?_append_left (List.getElem?_eq_some_iff.mp hr).1 ▸ hr, hphase⟩
  | proceed i answer => exact owned_proceed hs h
  | other action =>
    obtain ⟨hforeign, h⟩ := Option.ite_none_right_eq_some.mp h
    obtain ⟨table, ht, h⟩ := Option.map_eq_some_iff.mp h
    cases h
    intro call c a hc htarget
    cases action with
    | insert _ _ => cases hforeign
    | remove _ => cases hforeign
    | takeAll => cases hforeign
    | «with» id =>
      cases ht
      refine hs call c a (target_append ?_ hc htarget) htarget
      split
      · rfl
      · split <;> rfl
    | forEach =>
      cases ht
      exact hs call c a (target_append rfl hc htarget) htarget
    | proceed call₀ expired =>
      obtain ⟨d, d', hd⟩ := proceeds_of_proceed ht
      have hproceeds : Proceeds s.table ({ s with table } : State).table call₀ d d' := hd
      exact owned_of_proceeds hs hproceeds hc htarget

/-- No request has this id among its targets. -/
def State.untargeted (s : State) (n : String) : Bool :=
  s.requests.all fun r ↦ n ∉ r.phase.targets

/-- Where a request gains targets, a source stays in the table that neither it nor any other
request is to take out. -/
def keepsOne (s : State) : Action → Bool
  | .proceed i _ =>
    match s.requests[i]?.map Request.phase with
    | some (.checking id) =>
      s.table.size ≤ 1 || s.table.ids.any fun n ↦ n ≠ id && s.untargeted n
    | some (.applying wanted) =>
      s.table.ids.any fun n ↦ wanted.any (·.id = n) && s.untargeted n
    | _ => true
  | _ => true

/-- A source is in the table that no request is to take out. -/
def Kept (s : State) : Prop := ∃ n ∈ s.table.ids, s.untargeted n

/-- An id stays listed when an entry of another id is taken out. -/
private theorem mem_ids_proceeds {u v : SourceTable.State Unit} {call : ℕ} {c c' : Call}
    (h : Proceeds u v call c c') (hn : n ∈ u.ids)
    (herase : ∀ a, c = .removeErasing a → u.names[a]? ≠ some n) : n ∈ v.ids := by
  obtain ⟨b, hb, hname⟩ := SourceTable.State.mem_ids.mp hn
  rw [SourceTable.State.mem_ids, h.names]
  refine ⟨b, ?_, hname⟩
  rcases h.entries with ⟨a, hc, -, hentries⟩ | ⟨-, -, hentries⟩
  · rw [hentries, List.mem_filter]
    refine ⟨hb, decide_eq_true fun hba ↦ herase a hc ?_⟩
    rw [← hba, hname]
  · rwa [hentries]

/-- An id stays listed when another is inserted. -/
private theorem mem_ids_insert {u : SourceTable.State Unit} (hn : n ∈ u.ids) (id : String) :
    n ∈ (u.insert id (some ())).ids := by
  obtain ⟨b, hb, hname⟩ := SourceTable.State.mem_ids.mp hn
  obtain ⟨hnames, hentries, -⟩ := u.insert_spec id (some ())
  rw [SourceTable.State.mem_ids, hnames, hentries]
  refine ⟨b, ?_, ?_⟩
  · split
    · exact hb
    · exact List.mem_append_left _ hb
  · rw [List.getElem?_append_left (List.getElem?_eq_some_iff.mp hname).1, hname]

/-- What no request is to take out stays listed under a step of any call. -/
private theorem mem_ids_of_untargeted {call : ℕ} {expired : Bool} {table : SourceTable.State Unit}
    (hs : Owned s) (hn : n ∈ s.table.ids) (hu : s.untargeted n)
    (h : s.table.proceed call expired = some table) : n ∈ table.ids := by
  obtain ⟨c, c', hp⟩ := proceeds_of_proceed h
  refine mem_ids_proceeds hp hn fun a hc hname ↦ ?_
  obtain ⟨id, hid, j, r, rest, hr, hphase⟩ := hs call c a hp.call (by rw [hc]; rfl)
  have hfree := List.all_eq_true.mp hu r (List.mem_of_getElem? hr)
  rw [hname] at hid
  cases hid
  rw [hphase] at hfree
  simp [Phase.targets] at hfree

/-- A source that no request is to take out stays, or another does. -/
theorem kept_step (hs : Owned s) (hk : Kept s) (hg : keepsOne s action)
    (h : step s action = some s') : Kept s' := by
  obtain ⟨n, hn, hu⟩ := hk
  cases action with
  | request command =>
    cases h
    refine ⟨n, hn, ?_⟩
    have hnone : command.phase.targets = [] := by
      cases command with
      | reload file =>
        cases file with
        | error message => rfl
        | ok file =>
          simp only [Command.phase]
          split <;> rfl
      | _ => rfl
    simpa [State.untargeted, hnone] using hu
  | other action =>
    obtain ⟨hforeign, h⟩ := Option.ite_none_right_eq_some.mp h
    obtain ⟨table, ht, h⟩ := Option.map_eq_some_iff.mp h
    cases h
    refine ⟨n, ?_, hu⟩
    cases action with
    | insert _ _ => cases hforeign
    | remove _ => cases hforeign
    | takeAll => cases hforeign
    | «with» id =>
      cases ht
      exact hn
    | forEach =>
      cases ht
      exact hn
    | proceed call expired => exact mem_ids_of_untargeted hs hn hu ht
  | proceed i answer =>
    obtain ⟨r, q, hr, ha, hrequests, -⟩ := step_proceed h
    have hlisted : ∀ m ∈ s.table.ids, s.untargeted m → m ∈ s'.table.ids := by
      intro m hm hfree
      cases moves_of_advance ha with
      | stay same done => rwa [same]
      | remove id rest before after moved =>
        rw [moved]
        exact hm
      | insert config rest before moved =>
        rw [moved]
        exact mem_ids_insert hm config.id
      | call c target idle moved =>
        rw [moved]
        exact hm
      | proceed call expired own stays moved => exact mem_ids_of_untargeted hs hm hfree moved
    have hfree : ∀ m, s.untargeted m → m ∉ q.targets → s'.untargeted m := by
      intro m hm hq
      rw [State.untargeted, hrequests, List.all_eq_true]
      intro u hu
      rcases List.mem_or_eq_of_mem_set hu with hu | rfl
      · exact List.all_eq_true.mp hm u hu
      · exact decide_eq_true hq
    by_cases hc : ∃ id, r.phase = .checking id
    · obtain ⟨id, hphase⟩ := hc
      rw [hphase, advance] at ha
      simp only [keepsOne, hr, Option.map_some, hphase, Bool.or_eq_true, decide_eq_true_eq] at hg
      by_cases hsize : s.table.size ≤ 1
      · rw [if_pos hsize] at ha
        have hq := (Prod.mk.inj (Option.some.inj ha)).2
        subst hq
        exact ⟨n, hlisted n hn hu, hfree n hu List.not_mem_nil⟩
      · rw [if_neg hsize] at ha
        have hq := (Prod.mk.inj (Option.some.inj ha)).2
        subst hq
        obtain ⟨m, hm, hother⟩ := List.any_eq_true.mp (hg.resolve_left hsize)
        simp only [Bool.and_eq_true, decide_eq_true_eq] at hother
        exact ⟨m, hlisted m hm hother.2, hfree m hother.2 (by simpa [Phase.targets] using hother.1)⟩
    by_cases hw : ∃ wanted, r.phase = .applying wanted
    · obtain ⟨wanted, hphase⟩ := hw
      rw [hphase] at ha
      have hq := (Prod.mk.inj (Option.some.inj ha)).2
      subst hq
      simp only [keepsOne, hr, Option.map_some, hphase] at hg
      obtain ⟨m, hm, hother⟩ := List.any_eq_true.mp hg
      rw [Bool.and_eq_true] at hother
      refine ⟨m, hlisted m hm hother.2, hfree m hother.2 ?_⟩
      intro hfiltered
      exact of_decide_eq_true (List.mem_filter.mp hfiltered).2 hother.1
    · have htargets := targets_advance ha (fun id h ↦ hc ⟨id, h⟩) fun wanted h ↦ hw ⟨wanted, h⟩
      refine ⟨n, hlisted n hn hu, hfree n hu fun hq ↦ ?_⟩
      have hr := List.all_eq_true.mp hu r (List.mem_of_getElem? hr)
      exact of_decide_eq_true hr (htargets n hq)

/-- Inserting new ids one after the other lists them in that order, with nothing under way. -/
private theorem foldl_insert_spec (ids : List String) {t : SourceTable.State Unit}
    (hl : t.Listed) (hc : ∀ c ∈ t.calls, c.target = none) (hd : (t.ids ++ ids).Nodup) :
    (ids.foldl (fun t id ↦ t.insert id (some ())) t).Listed ∧
      (ids.foldl (fun t id ↦ t.insert id (some ())) t).ids = t.ids ++ ids ∧
      ∀ c ∈ (ids.foldl (fun t id ↦ t.insert id (some ())) t).calls, c.target = none := by
  induction ids generalizing t with
  | nil => exact ⟨hl, (List.append_nil _).symm, hc⟩
  | cons id ids ih =>
    have hfresh : t.has id = false := by
      rw [Bool.eq_false_iff, ne_eq, SourceTable.State.has_iff]
      intro hm
      exact (List.nodup_append.mp hd).2.2 id hm id List.mem_cons_self rfl
    have hids := SourceTable.State.ids_insert hl id (some ())
    rw [hfresh, if_neg Bool.false_ne_true] at hids
    have hcalls : ∀ c ∈ (t.insert id (some ())).calls, c.target = none := by
      rw [(t.insert_spec id (some ())).2.2]
      intro c hm
      rcases List.mem_append.mp hm with hm | hm
      · exact hc c hm
      · rw [List.mem_singleton.mp hm]
        rfl
    have hnext := ih (hl.insert id (some ())) hcalls (by rwa [hids, List.append_assoc])
    rwa [hids, List.append_assoc] at hnext

/-- Started sources are listed in order, and nothing is under way. -/
theorem started_spec {ids : List String} (h : ids.Nodup) :
    (started ids).table.Listed ∧ (started ids).table.ids = ids ∧
      ∀ c ∈ (started ids).table.calls, c.target = none :=
  foldl_insert_spec ids nofun nofun h

/-- Where every request that gains targets leaves a source untargeted, the table always has
one. -/
theorem nonempty_of_keepsOne (h : machine.ReachableUnder (fun s a ↦ keepsOne s a) s) :
    s.table.ids ≠ [] := by
  have hinv : Owned s ∧ Kept s := by
    refine h.invariant (I := fun s ↦ Owned s ∧ Kept s) ?_ fun s a t hg ⟨ho, hk⟩ hstep ↦
      ⟨owned_step ho hstep, kept_step ho hk hg hstep⟩
    rintro s ⟨ids, hne, hnodup, rfl⟩
    obtain ⟨-, hids, hcalls⟩ := started_spec hnodup
    refine ⟨fun call c a hc ht ↦ ?_, ?_⟩
    · rw [hcalls c (List.mem_of_getElem? hc)] at ht
      cases ht
    · obtain ⟨n, hn⟩ := List.exists_mem_of_ne_nil ids hne
      exact ⟨n, by rwa [hids], rfl⟩
  obtain ⟨n, hn, -⟩ := hinv.2
  exact List.ne_nil_of_mem hn

/-- One of two sources is taken out. -/
private def removeA : List Action :=
  .request (.remove "a") :: List.replicate 6 (.proceed 0 {})

/-- Removing one of two sources keeps the table from empty. -/
theorem nonempty_removeA :
    ∃ s, machine.runUnder (fun s a ↦ keepsOne s a) (started ["a", "b"]) removeA = some s ∧
      s.removed = [(0, "a")] ∧ s.table.ids ≠ [] := by
  have hrun : (machine.runUnder (fun s a ↦ keepsOne s a) (started ["a", "b"]) removeA).any
      (fun s ↦ s.removed = [(0, "a")]) := by
    decide +kernel
  obtain ⟨s, hs, hremoved⟩ := (Option.any_eq_true _ _).mp hrun
  have hinit : machine.ReachableUnder (fun s a ↦ keepsOne s a) (started ["a", "b"]) :=
    .init ⟨["a", "b"], by decide, by decide, rfl⟩
  exact ⟨s, hs, of_decide_eq_true hremoved, nonempty_of_keepsOne (hinit.runUnder _ hs)⟩

/-- A list of no sources is applied. -/
private def applyNothing : List Action :=
  .request (.apply []) :: List.replicate 8 (.proceed 0 {})

/-- Applying an empty list leaves no source, and reports no error. -/
theorem not_nonempty : ¬∀ s, machine.Reachable s → s.table.ids ≠ [] := by
  intro h
  have hrun : (machine.run (started ["a"]) applyNothing).any fun s ↦ s.table.ids = [] := by
    decide +kernel
  obtain ⟨s, hs, hempty⟩ := (Option.any_eq_true _ _).mp hrun
  have hinit : machine.Reachable (started ["a"]) :=
    .init ⟨["a"], by decide, by decide, rfl⟩
  exact h s (hinit.run _ hs) (of_decide_eq_true hempty)

/-- The request is a load of a show's outputs without its tabs. -/
def Request.outputsOnly (r : Request) : Bool :=
  match r.command with
  | .load _ parts => !parts.tabs
  | _ => false

/-- No load of outputs alone has taken a source out. -/
def LoadsCloseNothing (s : State) : Prop :=
  ∀ p ∈ s.removed, ∀ r, s.requests[p.1]? = some r → r.outputsOnly = false

/-- Where a load of outputs alone takes the ids to reconcile, every source in the table is one
that its snapshot has read. -/
def readsAll (s : State) : Action → Bool
  | .proceed i _ =>
    match s.requests[i]? with
    | some r =>
      match r.phase with
      | .applying _ => !r.outputsOnly || s.table.ids.all (· ∈ r.snapshot)
      | _ => true
    | none => true
  | _ => true

/-- A load of outputs alone wants the sources of its snapshot, and has nothing to remove. -/
def Phase.Harmless (snapshot : List String) : Phase → Prop
  | .loading _ parts => parts.tabs = false ∧ snapshot = []
  | .reading _ sources _ parts => parts.tabs = false ∧ snapshot = sources.map SourceConfig.id
  | .applying wanted => snapshot = wanted.map SourceConfig.id
  | .checking _ | .removing _ _ | .awaiting _ _ _ => False
  | .adding _ rest | .starting _ rest | .inserting _ rest => rest.elim [] Apply.removals = []
  | .reconciling a | .found _ a | .reaching _ _ a => a.removals = []
  | .done _ => True

section Load

variable {table t : SourceTable.State Unit} {answer : Answer} {snapshot : List String} {p q : Phase}

/-- A reconcile with nothing to remove is harmless with another error noted. -/
private theorem harmless_finish {rest : Option Apply} (h : rest.elim [] Apply.removals = [])
    (error : String) : (finish rest error).Harmless snapshot := by
  have ht := targets_finish rest error
  rw [h] at ht
  cases rest with
  | none => trivial
  | some a => exact ht

/-- A step of a load keeps it harmless, where its snapshot covers the table. -/
theorem harmless_advance (hp : p.Harmless snapshot) (h : advance table answer p = some (t, q))
    (hcover : ∀ wanted, p = .applying wanted → ∀ id ∈ table.ids, id ∈ snapshot) :
    q.Harmless (snapshot ++ p.snapshot table) ∧ p.erased table = none := by
  cases p with
  | checking id => cases hp
  | removing id rest => cases hp
  | awaiting call id rest => cases hp
  | adding config rest =>
    cases h
    refine ⟨?_, rfl⟩
    unfold add
    dsimp only
    split
    · exact harmless_finish hp _
    · split
      · exact harmless_finish hp _
      · exact hp
  | starting config rest =>
    simp only [advance] at h
    split at h <;> cases h
    · exact ⟨harmless_finish hp _, rfl⟩
    · exact ⟨hp, rfl⟩
  | inserting config rest =>
    cases h
    exact ⟨harmless_finish hp _, rfl⟩
  | loading document parts =>
    cases h
    refine ⟨⟨hp.1, ?_⟩, rfl⟩
    rw [hp.2]
    rfl
  | reading call sources document parts =>
    obtain ⟨htabs, hsnapshot⟩ := hp
    simp only [advance] at h
    split at h
    · next hc =>
      have hnone : (Phase.reading call sources document parts).snapshot table = [] := by
        simp [Phase.snapshot, read, hc]
      rw [hnone, List.append_nil]
      split at h <;> cases h
      · exact ⟨trivial, rfl⟩
      · next wanted notes hrecall =>
        refine ⟨?_, rfl⟩
        rw [Phase.Harmless, hsnapshot, Show.ids_of_recall htabs hrecall]
    · obtain ⟨t', ht, heq⟩ := Option.map_eq_some_iff.mp h
      cases heq
      refine ⟨⟨htabs, ?_⟩, rfl⟩
      rw [List.map_append, hsnapshot, Phase.snapshot, read, read]
      split
      · next a todo _ => cases table.names[a]? <;> rfl
      · rfl
  | applying wanted =>
    cases h
    refine ⟨?_, rfl⟩
    rw [Phase.Harmless, List.filter_eq_nil_iff]
    intro id hid
    have hmem := hcover wanted rfl id hid
    rw [show snapshot = wanted.map SourceConfig.id from hp] at hmem
    simpa using hmem
  | reconciling a =>
    have hp : a.removals = [] := hp
    simp only [advance, hp] at h
    split at h
    · next hr => cases hr
    · split at h <;> cases h <;> exact ⟨rfl, rfl⟩
    · cases h
      exact ⟨trivial, rfl⟩
  | found source a =>
    cases h
    exact ⟨hp, rfl⟩
  | reaching call source a =>
    have hp : a.removals = [] := hp
    simp only [advance] at h
    split at h
    · cases h
      refine ⟨?_, rfl⟩
      show (if _ then a.note _ else a).removals = []
      split
      · rwa [removals_note]
      · exact hp
    · obtain ⟨t', ht, heq⟩ := Option.map_eq_some_iff.mp h
      cases heq
      refine ⟨?_, rfl⟩
      rw [Phase.Harmless]
      split
      · rwa [removals_note]
      · exact hp
    · obtain ⟨t', ht, heq⟩ := Option.map_eq_some_iff.mp h
      cases heq
      exact ⟨hp, rfl⟩
  | done error => cases h

end Load

/-- Every load of outputs alone is harmless, and none has taken a source out. -/
private def LoadsHarmless (s : State) : Prop :=
  (∀ r ∈ s.requests, r.outputsOnly → r.phase.Harmless r.snapshot) ∧ LoadsCloseNothing s ∧
    ∀ p ∈ s.removed, p.1 < s.requests.length

/-- Loads of outputs alone stay harmless where their snapshots cover the table. -/
private theorem loadsHarmless_step (hs : LoadsHarmless s) (hg : readsAll s action)
    (h : step s action = some s') : LoadsHarmless s' := by
  obtain ⟨hharmless, hclose, hbound⟩ := hs
  cases action with
  | request command =>
    cases h
    refine ⟨?_, ?_, ?_⟩
    · intro r hr houtputs
      rcases List.mem_append.mp hr with hr | hr
      · exact hharmless r hr houtputs
      · rw [List.mem_singleton.mp hr] at houtputs ⊢
        cases command with
        | load document parts => exact ⟨by simpa [Request.outputsOnly] using houtputs, rfl⟩
        | _ => cases houtputs
    · intro p hp r hr
      rw [List.getElem?_append_left (hbound p hp)] at hr
      exact hclose p hp r hr
    · intro p hp
      rw [List.length_append]
      exact Nat.lt_add_right _ (hbound p hp)
  | other action =>
    obtain ⟨-, h⟩ := Option.ite_none_right_eq_some.mp h
    obtain ⟨table, -, h⟩ := Option.map_eq_some_iff.mp h
    cases h
    exact ⟨hharmless, hclose, hbound⟩
  | proceed i answer =>
    obtain ⟨r, q, hr, ha, hrequests, hremoved⟩ := step_proceed h
    have hi := (List.getElem?_eq_some_iff.mp hr).1
    have hmem := List.mem_of_getElem? hr
    have hstep (houtputs : r.outputsOnly) :
        q.Harmless (r.snapshot ++ r.phase.snapshot s.table) ∧ r.phase.erased s.table = none := by
      refine harmless_advance (hharmless r hmem houtputs) ha fun wanted hphase id hid ↦ ?_
      simp only [readsAll, hr, hphase, houtputs, Bool.not_true, Bool.false_or,
        List.all_eq_true, decide_eq_true_eq] at hg
      exact hg id hid
    have hsame (j : ℕ) (u : Request) (hu : s'.requests[j]? = some u) :
        ∃ u', s.requests[j]? = some u' ∧ u'.outputsOnly = u.outputsOnly := by
      rw [hrequests] at hu
      by_cases hj : i = j
      · subst hj
        rw [List.getElem?_set_self hi] at hu
        cases hu
        exact ⟨r, hr, rfl⟩
      · rw [List.getElem?_set_ne hj] at hu
        exact ⟨u, hu, rfl⟩
    refine ⟨?_, ?_, ?_⟩
    · intro u hu houtputs
      rw [hrequests] at hu
      rcases List.mem_or_eq_of_mem_set hu with hu | rfl
      · exact hharmless u hu houtputs
      · exact (hstep houtputs).1
    · intro p hp u hu
      obtain ⟨u', hu', hsame⟩ := hsame p.1 u hu
      rw [← hsame]
      rw [hremoved] at hp
      rcases List.mem_append.mp hp with hp | hp
      · exact hclose p hp u' hu'
      · obtain ⟨id, hid, rfl⟩ := List.mem_map.mp hp
        rw [hr] at hu'
        cases hu'
        rw [Bool.eq_false_iff]
        intro houtputs
        rw [(hstep houtputs).2] at hid
        cases hid
    · intro p hp
      rw [hrequests, List.length_set]
      rw [hremoved] at hp
      rcases List.mem_append.mp hp with hp | hp
      · exact hbound p hp
      · obtain ⟨id, -, rfl⟩ := List.mem_map.mp hp
        exact hi

/-- Where every load of outputs alone finds the table as its snapshot read it, or smaller, none
takes a source out. -/
theorem loadsCloseNothing_of_readsAll (h : machine.ReachableUnder (fun s a ↦ readsAll s a) s) :
    LoadsCloseNothing s := by
  have hinv : LoadsHarmless s := by
    refine h.invariant (I := LoadsHarmless) ?_ fun s a t hg hs hstep ↦
      loadsHarmless_step hs hg hstep
    rintro s ⟨ids, -, -, rfl⟩
    exact ⟨fun r hr ↦ absurd hr List.not_mem_nil, fun p hp ↦ absurd hp List.not_mem_nil,
      fun p hp ↦ absurd hp List.not_mem_nil⟩
  exact hinv.2.1

/-- A show of no outputs, for the tabs that are open. -/
private def emptyShow : Value := .object [("weblinked_show", .int 1), ("outputs", .array [])]

/-- The outputs of a show are loaded over one source. -/
private def loadOutputs : List Action :=
  .request (.load emptyShow { tabs := false }) :: List.replicate 4 (.proceed 0 {})

/-- Another source is added and the load goes on. -/
private def addThenApply : List Action :=
  .request (.add { id := "b" }) :: List.replicate 3 (.proceed 1 {}) ++
    List.replicate 6 (.proceed 0 {})

/-- A load that finds the table as it read it closes nothing. -/
theorem loadsCloseNothing_loadOutputs :
    ∃ s, machine.runUnder (fun s a ↦ readsAll s a) (started ["a"])
        (loadOutputs ++ List.replicate 6 (.proceed 0 {})) = some s ∧
      s.table.ids = ["a"] ∧ LoadsCloseNothing s := by
  have hrun : (machine.runUnder (fun s a ↦ readsAll s a) (started ["a"])
      (loadOutputs ++ List.replicate 6 (.proceed 0 {}))).any (fun s ↦ s.table.ids = ["a"]) := by
    decide +kernel
  obtain ⟨s, hs, hids⟩ := (Option.any_eq_true _ _).mp hrun
  have hinit : machine.ReachableUnder (fun s a ↦ readsAll s a) (started ["a"]) :=
    .init ⟨["a"], by decide, by decide, rfl⟩
  exact ⟨s, hs, of_decide_eq_true hids, loadsCloseNothing_of_readsAll (hinit.runUnder _ hs)⟩

/-- A source that is added between the snapshot of a load and its reconcile is closed by it. -/
theorem not_loadsCloseNothing : ¬∀ s, machine.Reachable s → LoadsCloseNothing s := by
  intro h
  have hrun : (machine.run (started ["a"]) (loadOutputs ++ addThenApply)).any fun s ↦
      s.removed = [(0, "b")] && s.requests[0]?.any Request.outputsOnly := by
    decide +kernel
  obtain ⟨s, hs, hclosed⟩ := (Option.any_eq_true _ _).mp hrun
  rw [Bool.and_eq_true, decide_eq_true_eq] at hclosed
  obtain ⟨hremoved, hload⟩ := hclosed
  obtain ⟨r, hr, houtputs⟩ := (Option.any_eq_true _ _).mp hload
  have hinit : machine.Reachable (started ["a"]) :=
    .init ⟨["a"], by decide, by decide, rfl⟩
  have hno := h s (hinit.run _ hs) (0, "b") (by simp [hremoved]) r hr
  rw [hno] at houtputs
  cases houtputs

end Run

end WebLinked.Engine.SourceManager
