import Mathlib
import WebLinked.Base.Machine
import WebLinked.Core.AudioRing

/-!
# Slots of an audio device

`src/outputs/audio_device.cpp:47–240`. Clients claim and release slots under a mutex that the
driver's callback does not take. The callback walks all slots and goes into the ring of each
that it finds active; a claim rebuilds a ring only once the callback has come round. A step is
one atomic access, and a stay in a ring is from the load that found it active on. The driver
never runs two callbacks of a device at a time.
-/

namespace WebLinked.Outputs.AudioDevice

open WebLinked.Base WebLinked.Core

universe u

/-- `kMaxSlots`; `src/outputs/audio_device.cpp:24`. -/
def kMaxSlots : Nat := 16

/-- `kDeviceSampleRate`; `src/outputs/audio_device.cpp:36`. -/
def kDeviceSampleRate : Int := 48000

/-- What `claim` makes of the ring of its slot; `src/outputs/audio_device.cpp:145`. -/
def configureRing {α : Type u} [Zero α] (ring : AudioRing α) (channels bufferMs : Int) :
    AudioRing α :=
  ring.configure channels kDeviceSampleRate (bufferMs * 2) bufferMs

/-- `Slot`, but for the ring; `src/outputs/audio_device.cpp:57–63`. -/
structure Slot where
  active : Bool := false
  claimed : Bool := false
  firstChannel : Int := 0
  channels : Int := 0
  deriving DecidableEq, Repr

/-- The slice a client asks for. -/
structure Route where
  firstChannel : Int
  channels : Int
  bufferMs : Int
  deriving DecidableEq, Repr

/-- Where `render` is between two steps; at `kMaxSlots` it has the counter to bump. -/
inductive Callback where
  | idle
  | testing (slot : Nat)
  | inside (slot : Nat)
  deriving DecidableEq, Repr

/-- Where the call that has `claimMutex_` is between two steps. `turned` says that the counter
was seen to have advanced by two. -/
inductive Call where
  | scanning (slot : Nat) (route : Route)
  | turning (slot : Nat) (route : Route)
  | waiting (slot : Nat) (route : Route) (start : Nat)
  | configuring (slot : Nat) (route : Route) (turned : Bool)
  | claiming (slot : Nat) (route : Route) (turned : Bool)
  | activating (slot : Nat)
  | deactivating (slot : Nat)
  | unclaiming (slot : Nat)
  deriving DecidableEq, Repr

/-- The device, the callback, the call that has the mutex, and the slot of each live client. -/
structure State where
  channels : Int
  slots : Nat → Slot := fun _ ↦ {}
  callbacks : Nat := 0
  callback : Callback := .idle
  call : Option Call := none
  clients : List Nat := []

/-- A client is made or destroyed, the mutex's holder goes on, the driver starts a callback or
goes on with it. `started` answers `ma_device_get_state`, `expired` says that the deadline has
passed, `stays` that frames are left to read. -/
inductive Action where
  | claim (route : Route)
  | release (slot : Nat)
  | proceed (started expired : Bool)
  | callback
  | render (stays : Bool)
  deriving DecidableEq, Repr

namespace State

variable (s : State)

/-- One slot becomes another. -/
def setSlot (i : Nat) (slot : Slot) : State := { s with slots := Function.update s.slots i slot }

/-- The next step of the call that has the mutex; `src/outputs/audio_device.cpp:134–164,214–231`. -/
def proceed (started expired : Bool) : Option State :=
  match s.call with
  | none => none
  | some (.scanning i route) =>
    if i < kMaxSlots then
      some { s with
        call := some (if (s.slots i).claimed then .scanning (i + 1) route else .turning i route) }
    else some { s with call := none }
  | some (.turning i route) =>
    some { s with
      call := some (if started then .waiting i route s.callbacks else .configuring i route false) }
  | some (.waiting i route start) =>
    if s.callbacks < start + 2 then
      if expired then some { s with call := some (.configuring i route false) } else some s
    else some { s with call := some (.configuring i route true) }
  | some (.configuring i route turned) => some { s with call := some (.claiming i route turned) }
  | some (.claiming i route _) =>
    some { s.setSlot i { s.slots i with
        firstChannel := route.firstChannel, channels := route.channels, claimed := true } with
      call := some (.activating i) }
  | some (.activating i) =>
    some { s.setSlot i { s.slots i with active := true } with
      call := none, clients := s.clients ++ [i] }
  | some (.deactivating i) =>
    some { s.setSlot i { s.slots i with active := false } with call := some (.unclaiming i) }
  | some (.unclaiming i) =>
    some { s.setSlot i { s.slots i with claimed := false } with call := none }

/-- The next step of the callback; `src/outputs/audio_device.cpp:178–212`. -/
def render (stays : Bool) : Option State :=
  match s.callback with
  | .idle => none
  | .testing i =>
    if i < kMaxSlots then
      some { s with callback := if (s.slots i).active then .inside i else .testing (i + 1) }
    else some { s with callbacks := s.callbacks + 1, callback := .idle }
  | .inside i => some { s with callback := if stays then .inside i else .testing (i + 1) }

/-- One step. A claim that the device refuses, and a release of no slot, take no mutex. -/
def step : Action → Option State
  | .claim route =>
    if route.firstChannel < 0 ∨ route.channels ≤ 0 ∨
        route.firstChannel + route.channels > s.channels then some s
    else if s.call = none then some { s with call := some (.scanning 0 route) }
    else none
  | .release slot =>
    if slot ∉ s.clients then none
    else if slot ≥ kMaxSlots then some s
    else if s.call = none then
      some { s with call := some (.deactivating slot), clients := s.clients.erase slot }
    else none
  | .proceed started expired => s.proceed started expired
  | .callback =>
    match s.callback with
    | .idle => some { s with callback := .testing 0 }
    | _ => none
  | .render stays => s.render stays

/-- A device that was just opened. -/
def machine : Machine State Action where
  init s := ∃ channels, s = { channels }
  step := step

end State

/-- The slot that a claim is rebuilding after it saw the counter advance by two. -/
def Call.rebuilds : Call → Option Nat
  | .configuring slot _ true | .claiming slot _ true => some slot
  | _ => none

namespace State

/-- No callback is in a ring that a claim rebuilds after a turnover, and no two live clients
have one slot. -/
structure Safe (s : State) : Prop where
  apart : ∀ call slot, s.call = some call → call.rebuilds = some slot → s.callback ≠ .inside slot
  distinct : s.clients.Nodup

/-- What the call that has the mutex knows between two steps. While a claim waits, a callback
still in the slot is one that has run since before the counter was sampled. -/
def CallOk (s : State) : Prop :=
  match s.call with
  | none | some (.scanning ..) => True
  | some (.turning i _) => (s.slots i).claimed = false
  | some (.waiting i _ start) =>
    (s.slots i).claimed = false ∧ (s.callback = .inside i → s.callbacks ≤ start)
  | some (.configuring i _ turned) | some (.claiming i _ turned) =>
    (s.slots i).claimed = false ∧ (turned → s.callback ≠ .inside i)
  | some (.activating i) => (s.slots i).claimed ∧ i ∉ s.clients
  | some (.deactivating i) => i ∉ s.clients
  | some (.unclaiming i) => i ∉ s.clients ∧ (s.slots i).active = false

/-- What every step keeps. -/
structure Inv (s : State) : Prop where
  claimed : ∀ i, (s.slots i).active → (s.slots i).claimed
  clients : ∀ i ∈ s.clients, (s.slots i).claimed
  distinct : s.clients.Nodup
  call : s.CallOk

variable {s t : State}

@[simp] theorem slots_setSlot_self (i : Nat) (slot : Slot) : (s.setSlot i slot).slots i = slot :=
  Function.update_self ..

theorem slots_setSlot_of_ne {i j : Nat} (h : j ≠ i) (slot : Slot) :
    (s.setSlot i slot).slots j = s.slots j :=
  Function.update_of_ne h ..

/-- A device that was just opened. -/
theorem inv_init (h : machine.init s) : s.Inv := by
  obtain ⟨channels, rfl⟩ := h
  refine ⟨fun i hi ↦ ?_, List.forall_mem_nil _, List.nodup_nil, trivial⟩
  cases hi

/-- A slot that is not claimed is not active. -/
theorem Inv.inactive (h : s.Inv) {i : Nat} (hi : (s.slots i).claimed = false) :
    (s.slots i).active = false := by
  apply Bool.eq_false_iff.mpr
  intro hactive
  rw [h.claimed i hactive] at hi
  cases hi

/-- A callback may go anywhere but into a slot that is not active, and bump the counter. -/
theorem Inv.setCallback (h : s.Inv) {c : Callback} {callbacks : Nat}
    (hc : ∀ i, (s.slots i).active = false → c ≠ .inside i) :
    Inv { s with callback := c, callbacks } := by
  have hcall := h.call
  refine { h with call := ?_ }
  unfold CallOk at hcall ⊢
  dsimp only
  split at hcall
  · trivial
  · trivial
  · exact hcall
  · exact ⟨hcall.1, fun heq ↦ absurd heq (hc _ (h.inactive hcall.1))⟩
  · exact ⟨hcall.1, fun _ ↦ hc _ (h.inactive hcall.1)⟩
  · exact ⟨hcall.1, fun _ ↦ hc _ (h.inactive hcall.1)⟩
  · exact hcall
  · exact hcall
  · exact hcall

/-- A callback that goes into a slot goes into an active one. -/
theorem Inv.enter (h : s.Inv) {i : Nat} (hactive : (s.slots i).active) :
    Inv { s with callback := .inside i } := by
  apply h.setCallback
  rintro j hj heq
  cases heq
  rw [hj] at hactive
  cases hactive

/-- Each step of a callback keeps the invariant. -/
theorem Inv.render (h : s.Inv) {stays : Bool} (ht : s.render stays = some t) : t.Inv := by
  unfold State.render at ht
  cases hc : s.callback with
  | idle =>
    rw [hc] at ht
    cases ht
  | testing i =>
    rw [hc] at ht
    dsimp only at ht
    split at ht
    · cases ht
      split
      · next hactive => exact h.enter hactive
      · exact h.setCallback fun j _ ↦ Callback.noConfusion
    · cases ht
      exact h.setCallback fun j _ ↦ Callback.noConfusion
  | inside i =>
    rw [hc] at ht
    cases ht
    split
    · rw [← hc]
      exact h
    · exact h.setCallback fun j _ ↦ Callback.noConfusion

/-- A slot may change as long as it is claimed while it is active or a client has it. -/
theorem Inv.setSlot (h : s.Inv) (i : Nat) (slot : Slot) (hactive : slot.active → slot.claimed)
    (hclient : i ∈ s.clients → slot.claimed) :
    (∀ j, ((s.setSlot i slot).slots j).active → ((s.setSlot i slot).slots j).claimed) ∧
      ∀ j ∈ s.clients, ((s.setSlot i slot).slots j).claimed := by
  constructor
  · intro j hj
    by_cases hji : j = i
    · subst hji
      rw [slots_setSlot_self] at hj ⊢
      exact hactive hj
    · rw [slots_setSlot_of_ne hji] at hj ⊢
      exact h.claimed j hj
  · intro j hj
    by_cases hji : j = i
    · subst hji
      rw [slots_setSlot_self]
      exact hclient hj
    · rw [slots_setSlot_of_ne hji]
      exact h.clients j hj

/-- Each step of a claim or a release keeps the invariant. -/
theorem Inv.proceed (h : s.Inv) {started expired : Bool}
    (ht : s.proceed started expired = some t) : t.Inv := by
  unfold State.proceed at ht
  have hcall := h.call
  unfold CallOk at hcall
  cases hc : s.call with
  | none =>
    rw [hc] at ht
    cases ht
  | some call =>
    rw [hc] at ht hcall
    cases call with
    | scanning i route =>
      dsimp only at ht
      split at ht
      · cases ht
        refine { h with call := ?_ }
        split
        · trivial
        · next hfree => exact Bool.eq_false_iff.mpr hfree
      · cases ht
        exact { h with call := trivial }
    | turning i route =>
      cases ht
      refine { h with call := ?_ }
      split
      · exact ⟨hcall, fun _ ↦ le_rfl⟩
      · refine ⟨hcall, fun hturned ↦ ?_⟩
        cases hturned
    | waiting i route start =>
      dsimp only at ht
      split at ht
      · split at ht
        · cases ht
          refine { h with call := ⟨hcall.1, fun hturned ↦ ?_⟩ }
          cases hturned
        · cases ht
          exact h
      · next hturned =>
        cases ht
        refine { h with call := ⟨hcall.1, fun _ hinside ↦ ?_⟩ }
        have := hcall.2 hinside
        omega
    | configuring i route turned =>
      cases ht
      exact { h with call := hcall }
    | claiming i route turned =>
      cases ht
      have hnot : i ∉ s.clients := by
        intro hi
        have hfree := hcall.1
        rw [h.clients i hi] at hfree
        cases hfree
      obtain ⟨hclaimed, hclients⟩ := h.setSlot i { s.slots i with
        firstChannel := route.firstChannel, channels := route.channels, claimed := true }
        (fun _ ↦ rfl) fun _ ↦ rfl
      refine ⟨hclaimed, hclients, h.distinct, ?_, hnot⟩
      simp
    | activating i =>
      cases ht
      obtain ⟨hclaimed, hclients⟩ := h.setSlot i { s.slots i with active := true }
        (fun _ ↦ hcall.1) fun _ ↦ hcall.1
      refine ⟨hclaimed, fun j hj ↦ ?_, ?_, trivial⟩
      · obtain hj | hj := List.mem_append.mp hj
        · exact hclients j hj
        · rw [List.mem_singleton.mp hj]
          simpa using hcall.1
      · refine List.nodup_append.mpr ⟨h.distinct, List.nodup_singleton i, ?_⟩
        rintro j hj k hk rfl
        rw [List.mem_singleton.mp hk] at hj
        exact hcall.2 hj
    | deactivating i =>
      cases ht
      obtain ⟨hclaimed, hclients⟩ := h.setSlot i { s.slots i with active := false }
        (fun hactive ↦ by cases hactive) fun hi ↦ absurd hi hcall
      refine ⟨hclaimed, hclients, h.distinct, hcall, ?_⟩
      simp
    | unclaiming i =>
      cases ht
      obtain ⟨hnot, hinactive⟩ := hcall
      obtain ⟨hclaimed, hclients⟩ := h.setSlot i { s.slots i with claimed := false }
        (fun hactive ↦ by rw [hinactive] at hactive; cases hactive) fun hi ↦ absurd hi hnot
      exact ⟨hclaimed, hclients, h.distinct, trivial⟩

/-- Each step of any thread keeps the invariant. -/
theorem Inv.step (h : s.Inv) {a : Action} (ht : s.step a = some t) : t.Inv := by
  cases a with
  | claim route =>
    simp only [State.step] at ht
    split at ht
    · cases ht
      exact h
    split at ht
    · cases ht
      exact { h with call := trivial }
    · cases ht
  | release slot =>
    simp only [State.step] at ht
    split at ht
    · cases ht
    split at ht
    · cases ht
      exact h
    split at ht
    · cases ht
      refine { h with clients := fun i hi ↦ ?_, distinct := h.distinct.erase slot, call := ?_ }
      · exact h.clients i (List.mem_of_mem_erase hi)
      · exact h.distinct.not_mem_erase
    · cases ht
  | proceed started expired => exact h.proceed ht
  | callback =>
    simp only [State.step] at ht
    split at ht
    · cases ht
      exact h.setCallback fun j _ ↦ Callback.noConfusion
    · cases ht
  | render stays => exact h.render ht

/-- In every interleaving of claims, releases and callbacks. -/
theorem slots_safe (h : machine.Reachable s) : s.Safe := by
  have hinv : s.Inv := h.invariant (fun _ hs ↦ inv_init hs) fun _ _ _ _ hs ht ↦ hs.step ht
  refine ⟨fun call slot hc hslot ↦ ?_, hinv.distinct⟩
  have hcall := hinv.call
  rw [CallOk, hc] at hcall
  cases call with
  | configuring i route turned | claiming i route turned =>
    cases turned with
    | true =>
      cases hslot
      exact hcall.2 rfl
    | false => cases hslot
  | _ => cases hslot

/-- A client leaves while the callback is in its slot, and the slot is claimed again. -/
def turnover : List Action :=
  [.claim ⟨0, 2, 40⟩, .proceed false false, .proceed false false, .proceed false false,
    .proceed false false, .proceed false false, .callback, .render true, .release 0,
    .proceed false false, .proceed false false, .claim ⟨0, 2, 80⟩, .proceed false false,
    .proceed true false, .render false, .render false, .render false, .render false,
    .render false, .render false, .render false, .render false, .render false, .render false,
    .render false, .render false, .render false, .render false, .render false, .render false,
    .render false, .callback, .render false, .render false, .render false, .render false,
    .render false, .render false, .render false, .render false, .render false, .render false,
    .render false, .render false, .render false, .render false, .render false, .render false,
    .render false, .proceed true false]

/-- The slot is rebuilt once the callback has come round. -/
theorem slots_safe_turned : ∃ s : State, machine.run { channels := 2 } turnover = some s ∧
    s.call = some (.configuring 0 ⟨0, 2, 80⟩ true) ∧ s.Safe := by
  have hrun : (machine.run { channels := 2 } turnover).map State.call =
      some (some (.configuring 0 ⟨0, 2, 80⟩ true)) := by
    decide +kernel
  have hopened : machine.Reachable { channels := 2 } := .init ⟨2, rfl⟩
  obtain ⟨s, hs, hcall⟩ := Option.map_eq_some_iff.mp hrun
  exact ⟨s, hs, hcall, slots_safe (hopened.run _ hs)⟩

end State
end WebLinked.Outputs.AudioDevice
