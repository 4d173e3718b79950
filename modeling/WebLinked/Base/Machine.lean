/-!
# Machines and their runs

A machine is a state type with the partial step each action takes. An action carries
every choice the environment makes, so a step is a function and a run is a list of
actions. Reachability is relative to a guard on the steps: a result about every run
whose steps meet a condition is a result about the states reached under that guard.
-/

namespace WebLinked.Base

universe u v

/-- Initial states, and the state each enabled action leads to. -/
structure Machine (σ : Type u) (α : Type v) where
  init : σ → Prop
  step : σ → α → Option σ

namespace Machine

variable {σ : Type u} {α : Type v} (m : Machine σ α)

/-- States reached by steps that meet `guard`, which sees the state before the step. -/
inductive ReachableUnder (guard : σ → α → Prop) : σ → Prop
  | init {s : σ} : m.init s → ReachableUnder guard s
  | step {s t : σ} (a : α) :
      ReachableUnder guard s → guard s a → m.step s a = some t → ReachableUnder guard t

/-- States reached by any steps. -/
def Reachable (s : σ) : Prop := m.ReachableUnder (fun _ _ ↦ True) s

/-- Take the actions of a list in order. -/
def run (s : σ) : List α → Option σ
  | [] => some s
  | a :: rest => (m.step s a).bind fun t ↦ run t rest

/-- Take the actions of a list in order, refusing a step that does not meet `guard`. -/
def runUnder (guard : σ → α → Prop) [DecidableRel guard] (s : σ) : List α → Option σ
  | [] => some s
  | a :: rest =>
    if guard s a then (m.step s a).bind fun t ↦ runUnder guard t rest else none

/-- `P` holds in every state a run goes through. -/
def Always (P : σ → Prop) (s : σ) : List α → Prop
  | [] => P s
  | a :: rest => P s ∧ ∀ t, m.step s a = some t → Always P t rest

/-- `I` survives every step that meets `guard`. -/
def Preserves (guard : σ → α → Prop) (I : σ → Prop) : Prop :=
  ∀ s a t, guard s a → I s → m.step s a = some t → I t

variable {m} {guard : σ → α → Prop}

/-- The invariant rule. -/
theorem ReachableUnder.invariant {I : σ → Prop} {s : σ} (h : m.ReachableUnder guard s)
    (hinit : ∀ s, m.init s → I s) (hstep : m.Preserves guard I) : I s := by
  induction h with
  | init hs => exact hinit _ hs
  | step a _ hg ht ih => exact hstep _ a _ hg ih ht

/-- A weaker guard reaches at least as much. -/
theorem ReachableUnder.mono {guard' : σ → α → Prop} {s : σ} (h : m.ReachableUnder guard s)
    (hg : ∀ s a, guard s a → guard' s a) : m.ReachableUnder guard' s := by
  induction h with
  | init hs => exact .init hs
  | step a _ ha ht ih => exact .step a ih (hg _ _ ha) ht

/-- Every guarded run is a run. -/
theorem ReachableUnder.reachable {s : σ} (h : m.ReachableUnder guard s) : m.Reachable s :=
  h.mono fun _ _ _ ↦ trivial

/-- One run after another. -/
theorem run_append (s : σ) (as bs : List α) :
    m.run s (as ++ bs) = (m.run s as).bind fun t ↦ m.run t bs := by
  induction as generalizing s with
  | nil => rfl
  | cons a rest ih =>
    rw [List.cons_append, Machine.run, Machine.run, Option.bind_assoc]
    exact Option.bind_congr fun t _ ↦ ih t

/-- A run from a reachable state ends in one. -/
theorem Reachable.run {s t : σ} (h : m.Reachable s) (as : List α)
    (ht : m.run s as = some t) : m.Reachable t := by
  induction as generalizing s with
  | nil => cases ht; exact h
  | cons a rest ih =>
    obtain ⟨u, hu, hrest⟩ := Option.bind_eq_some_iff.mp ht
    exact ih (.step a h trivial hu) hrest

/-- A guarded run from a state reached under the guard ends in one. -/
theorem ReachableUnder.runUnder [DecidableRel guard] {s t : σ}
    (h : m.ReachableUnder guard s) (as : List α) (ht : m.runUnder guard s as = some t) :
    m.ReachableUnder guard t := by
  induction as generalizing s with
  | nil => cases ht; exact h
  | cons a rest ih =>
    rw [Machine.runUnder] at ht
    split at ht
    · next ha =>
      obtain ⟨u, hu, hrest⟩ := Option.bind_eq_some_iff.mp ht
      exact ih (.step a h ha hu) hrest
    · cases ht

/-- What a run can never undo, it shows at the end. -/
theorem run_persists {B : σ → Prop}
    (persists : ∀ s a t, B s → m.step s a = some t → B t) {s t : σ} (as : List α)
    (hs : B s) (ht : m.run s as = some t) : B t := by
  induction as generalizing s with
  | nil => cases ht; exact hs
  | cons a rest ih =>
    obtain ⟨u, hu, hrest⟩ := Option.bind_eq_some_iff.mp ht
    exact ih (persists s a u hs hu) hrest

/-- Where a step lets `f` grow to no more than `g` is then, `f` is at most what `g` was at some
point of the run. -/
theorem run_high_water {I : σ → Prop} {f g : σ → Nat}
    (keeps : ∀ s a t, I s → m.step s a = some t → I t)
    (grows : ∀ s a t, I s → m.step s a = some t → f t ≤ f s ∨ f t ≤ g t) {s t : σ} (hI : I s)
    (hs : f s ≤ g s) (as : List α) (ht : m.run s as = some t) :
    ∃ before u, before <+: as ∧ m.run s before = some u ∧ f t ≤ g u := by
  suffices h : ∀ (as : List α) (s : σ) (bound : Nat), I s → f s ≤ bound → m.run s as = some t →
      f t ≤ bound ∨ ∃ before u, before <+: as ∧ m.run s before = some u ∧ f t ≤ g u by
    rcases h as s (g s) hI hs ht with hle | hbefore
    · exact ⟨[], s, List.nil_prefix, rfl, hle⟩
    · exact hbefore
  intro as
  induction as with
  | nil =>
    intro s bound _ hle ht
    cases ht
    exact .inl hle
  | cons a rest ih =>
    intro s bound hI hle ht
    obtain ⟨v, hv, hrest⟩ := Option.bind_eq_some_iff.mp ht
    have hfirst : ∀ before, m.run s (a :: before) = m.run v before := fun before ↦ by
      rw [Machine.run, hv, Option.bind_some]
    have hnext := keeps s a v hI hv
    have hlater : (∃ before u, before <+: rest ∧ m.run v before = some u ∧ f t ≤ g u) →
        ∃ before u, before <+: a :: rest ∧ m.run s before = some u ∧ f t ≤ g u := by
      rintro ⟨before, u, hprefix, hu, hfg⟩
      exact ⟨a :: before, u, List.cons_prefix_cons.mpr ⟨rfl, hprefix⟩, by rw [hfirst, hu], hfg⟩
    rcases grows s a v hI hv with hsame | hgrown
    · rcases ih v bound hnext (Nat.le_trans hsame hle) hrest with hbound | hbefore
      · exact .inl hbound
      · exact .inr (hlater hbefore)
    · right
      rcases ih v (g v) hnext hgrown hrest with hbound | hbefore
      · refine ⟨[a], v, List.cons_prefix_cons.mpr ⟨rfl, List.nil_prefix⟩, ?_, hbound⟩
        rw [hfirst, Machine.run]
      · exact hlater hbefore

/-- Where each step that misses the guard does harm that stays, a run without harm is a
guarded run. -/
theorem Reachable.runUnder_of_not_bad [DecidableRel guard] {B : σ → Prop}
    (persists : ∀ s a t, B s → m.step s a = some t → B t)
    (harms : ∀ s a t, m.Reachable s → ¬ guard s a → m.step s a = some t → B t) {s t : σ}
    (h : m.Reachable s) (as : List α) (ht : m.run s as = some t) (hb : ¬ B t) :
    m.runUnder guard s as = some t := by
  induction as generalizing s with
  | nil => exact ht
  | cons a rest ih =>
    obtain ⟨u, hu, hrest⟩ := Option.bind_eq_some_iff.mp ht
    rw [Machine.runUnder]
    by_cases hg : guard s a
    · rw [if_pos hg, hu]
      exact ih (.step a h trivial hu) hrest
    · exact absurd (run_persists persists rest (harms s a u h hg hu) hrest) hb

/-- Where an invariant of the guarded steps gives `P` and each other step from it loses `P`, the
runs with `P` throughout are the guarded ones. -/
theorem always_iff_runUnder_of_invariant [DecidableRel guard] {I P : σ → Prop}
    (safe : ∀ s, I s → P s) (hstep : m.Preserves guard I)
    (harms : ∀ s a t, I s → ¬ guard s a → m.step s a = some t → ¬ P t) {s t : σ} (h : I s)
    (as : List α) (ht : m.run s as = some t) :
    m.Always P s as ↔ m.runUnder guard s as = some t := by
  induction as generalizing s with
  | nil => exact ⟨fun _ ↦ ht, fun _ ↦ safe s h⟩
  | cons a rest ih =>
    obtain ⟨u, hu, hrest⟩ := Option.bind_eq_some_iff.mp ht
    rw [Machine.runUnder]
    by_cases hg : guard s a
    · have hnext := ih (hstep s a u hg h hu) hrest
      rw [if_pos hg, hu, Option.bind_some, ← hnext]
      constructor
      · exact fun hall ↦ hall.2 u hu
      · intro hall
        refine ⟨safe s h, fun v hv ↦ ?_⟩
        rw [hu] at hv
        cases hv
        exact hall
    · rw [if_neg hg]
      refine ⟨fun hall ↦ absurd ?_ (harms s a u h hg hu), nofun⟩
      cases rest with
      | nil => exact hall.2 u hu
      | cons b rest => exact (hall.2 u hu).1

/-- Where the guard keeps `P` and each step that misses it loses `P`, the runs with `P`
throughout are the guarded ones. -/
theorem ReachableUnder.always_iff_runUnder [DecidableRel guard] {P : σ → Prop}
    (safe : ∀ s, m.ReachableUnder guard s → P s)
    (harms : ∀ s a t, m.ReachableUnder guard s → ¬ guard s a → m.step s a = some t → ¬ P t)
    {s t : σ} (h : m.ReachableUnder guard s) (as : List α) (ht : m.run s as = some t) :
    m.Always P s as ↔ m.runUnder guard s as = some t :=
  always_iff_runUnder_of_invariant safe (fun _ a _ hg hs hu ↦ .step a hs hg hu) harms h as ht

end Machine
end WebLinked.Base
