import Mathlib.Data.List.DropRight
import Mathlib.Data.List.Rotate
import Mathlib.Order.Interval.Finset.Nat

/-!
# Copies into and out of a circular buffer

A buffer of `n` elements is read and written from a position on, in pieces that end at the
buffer's end and start again at its beginning. Seen from the position, that is the rotated
buffer: a copy in replaces its first elements, a copy out is its first elements. The window
of the elements in use is then a queue.
-/

namespace WebLinked.Base.Circular

universe u

variable {α : Type u}

/-- Copy `xs` over the buffer from `pos` on. -/
def overwrite (b : List α) (pos : Nat) (xs : List α) : List α :=
  b.take pos ++ (xs ++ b.drop (pos + xs.length))

/-- Copy `xs` in from `pos` on, wrapping at `n`. -/
def copyIn (n : Nat) (b : List α) (pos : Nat) (xs : List α) : List α :=
  if 0 < xs.length ∧ pos < n then
    let chunk := min xs.length (n - pos)
    copyIn n (overwrite b pos (xs.take chunk)) ((pos + chunk) % n) (xs.drop chunk)
  else b
  termination_by xs.length
  decreasing_by
    rw [List.length_drop]
    omega

/-- Copy `k` elements out from `pos` on, wrapping at `n`. -/
def copyOut (n : Nat) (b : List α) (pos k : Nat) : List α :=
  if 0 < k ∧ pos < n then
    let chunk := min k (n - pos)
    (b.drop pos).take chunk ++ copyOut n b ((pos + chunk) % n) (k - chunk)
  else []
  termination_by k

/-- The `k` elements from `pos` on. -/
def window (b : List α) (pos k : Nat) : List α := (b.rotate pos).take k

variable {n pos k : Nat} {b xs : List α}

theorem length_overwrite (h : pos + xs.length ≤ b.length) :
    (overwrite b pos xs).length = b.length := by
  simp only [overwrite, List.length_append, List.length_take, List.length_drop]
  omega

/-- A copy that ends before the buffer does. -/
theorem rotate_overwrite (h : pos + xs.length ≤ b.length) :
    (overwrite b pos xs).rotate pos = xs ++ (b.rotate pos).drop xs.length := by
  have htake : (b.take pos).length = pos := by
    rw [List.length_take]
    omega
  have hrotate := List.rotate_append_length_eq (b.take pos) (xs ++ b.drop (pos + xs.length))
  rw [htake] at hrotate
  rw [overwrite, hrotate, List.rotate_eq_drop_append_take (by omega), List.append_assoc,
    List.drop_append_of_le_length (by rw [List.length_drop]; omega), List.drop_drop]

/-- Seen from a position, its element comes first. -/
theorem rotate_eq_cons (h : pos < b.length) :
    b.rotate pos = b[pos] :: (b.rotate pos).drop 1 := by
  rw [List.rotate_eq_drop_append_take h.le, List.drop_eq_getElem_cons h]
  rfl

/-- Storing an element and moving on makes it the last. -/
theorem rotate_set_succ (h : pos < b.length) (x : α) :
    (b.set pos x).rotate (pos + 1) = (b.rotate pos).drop 1 ++ [x] := by
  have hset : b.set pos x = overwrite b pos [x] := by
    rw [List.set_eq_take_append_cons_drop, if_pos h]
    rfl
  rw [hset, ← List.rotate_rotate, rotate_overwrite (by rw [List.length_singleton]; omega)]
  exact List.rotate_cons_succ _ _ 0 |>.trans (List.rotate_zero _)

/-- Nothing to copy. -/
theorem copyIn_nil (n : Nat) (b : List α) (pos : Nat) : copyIn n b pos [] = b := by
  rw [copyIn, if_neg (by simp)]

/-- One piece, where the copy ends before the buffer does. -/
theorem copyIn_of_le (hpos : pos < n) (h : pos + xs.length ≤ n) :
    copyIn n b pos xs = overwrite b pos xs := by
  cases xs with
  | nil => simp [copyIn_nil, overwrite]
  | cons x rest =>
    have hmin : min (x :: rest).length (n - pos) = (x :: rest).length := by omega
    rw [copyIn, if_pos ⟨Nat.succ_pos _, hpos⟩]
    simp only [hmin, List.take_length, List.drop_length, copyIn_nil]

/-- Two pieces, where it wraps. -/
theorem copyIn_of_gt (hpos : pos < n) (h : n < pos + xs.length) (hk : xs.length ≤ n) :
    copyIn n b pos xs =
      overwrite (overwrite b pos (xs.take (n - pos))) 0 (xs.drop (n - pos)) := by
  have hmin : min xs.length (n - pos) = n - pos := by omega
  have hwrap : (pos + (n - pos)) % n = 0 := by
    rw [Nat.add_sub_cancel' hpos.le, Nat.mod_self]
  rw [copyIn, if_pos (by omega)]
  simp only [hmin, hwrap]
  exact copyIn_of_le (by omega) (by rw [List.length_drop]; omega)

theorem length_copyIn (hb : b.length = n) (hpos : pos < n) (hk : xs.length ≤ n) :
    (copyIn n b pos xs).length = n := by
  rcases Nat.lt_or_ge n (pos + xs.length) with h | h
  · have hfirst : (overwrite b pos (xs.take (n - pos))).length = b.length :=
      length_overwrite (by rw [List.length_take]; omega)
    rw [copyIn_of_gt hpos h hk, length_overwrite (by rw [hfirst, List.length_drop]; omega),
      hfirst, hb]
  · rw [copyIn_of_le hpos h, length_overwrite (by omega), hb]

/-- Seen from the position, a copy in replaces the first elements. -/
theorem rotate_copyIn (pos : Nat) (xs : List α) (hb : b.length = n) (hpos : pos < n)
    (hk : xs.length ≤ n) :
    (copyIn n b pos xs).rotate pos = xs ++ (b.rotate pos).drop xs.length := by
  rcases Nat.lt_or_ge n (pos + xs.length) with h | h
  · -- The second piece lands before the position, where the first one left the old elements.
    rw [copyIn_of_gt hpos h hk]
    have hdrop : b.drop (pos + (xs.take (n - pos)).length) = [] := by
      rw [List.length_take, List.drop_eq_nil_iff]
      omega
    have hfirst : overwrite b pos (xs.take (n - pos)) = b.take pos ++ xs.take (n - pos) := by
      rw [overwrite, hdrop, List.append_nil]
    have hle : (xs.drop (n - pos)).length ≤ (b.take pos).length := by
      rw [List.length_drop, List.length_take]
      omega
    have hlen : (xs.drop (n - pos) ++ (b.take pos).drop (xs.drop (n - pos)).length).length =
        pos := by
      simp only [List.length_append, List.length_drop, List.length_take]
      omega
    have hrotate := List.rotate_append_length_eq
      (xs.drop (n - pos) ++ (b.take pos).drop (xs.drop (n - pos)).length) (xs.take (n - pos))
    rw [hlen] at hrotate
    have hold : (b.rotate pos).drop xs.length =
        (b.take pos).drop (xs.drop (n - pos)).length := by
      rw [List.rotate_eq_drop_append_take (by omega), List.drop_append, List.length_drop,
        List.drop_eq_nil_of_le (by rw [List.length_drop]; omega), List.nil_append,
        List.length_drop, hb]
    rw [hfirst, overwrite, List.take_zero, List.nil_append, Nat.zero_add,
      List.drop_append_of_le_length hle, ← List.append_assoc, hrotate, hold, ← List.append_assoc,
      List.take_append_drop]
  · rw [copyIn_of_le hpos h, rotate_overwrite (by omega)]

/-- A copy out is the window. -/
theorem copyOut_eq_window (hb : b.length = n) (hpos : pos < n) (hk : k ≤ n) :
    copyOut n b pos k = window b pos k := by
  have hrotate : b.rotate pos = b.drop pos ++ b.take pos :=
    List.rotate_eq_drop_append_take (by omega)
  have hone : ∀ {p j : Nat}, p < n → p + j ≤ n → copyOut n b p j = (b.drop p).take j := by
    intro p j hp hj
    rw [copyOut]
    split
    · have hmin : min j (n - p) = j := by omega
      simp only [hmin, Nat.sub_self]
      rw [copyOut, if_neg (by omega), List.append_nil]
    · have hj : j = 0 := by omega
      rw [hj, List.take_zero]
  rcases Nat.lt_or_ge n (pos + k) with h | h
  · have hmin : min k (n - pos) = n - pos := by omega
    have hwrap : (pos + (n - pos)) % n = 0 := by
      rw [Nat.add_sub_cancel' hpos.le, Nat.mod_self]
    have hall : ∀ j, n - pos ≤ j → (b.drop pos).take j = b.drop pos := fun j hj ↦
      List.take_of_length_le (by rw [List.length_drop]; omega)
    have htail : min (k - (b.length - pos)) pos = k - (n - pos) := by omega
    rw [copyOut, if_pos (by omega)]
    simp only [hmin, hwrap]
    rw [hone (by omega) (by omega), hall _ le_rfl, List.drop_zero, window, hrotate,
      List.take_append, List.length_drop, hall k (by omega), List.take_take, htail]
  · rw [hone hpos h, window, hrotate, List.take_append_of_le_length]
    rw [List.length_drop]
    omega

theorem length_window (h : k ≤ b.length) : (window b pos k).length = k := by
  rw [window, List.length_take, List.length_rotate, Nat.min_eq_left h]

/-- The elements of the window one by one. -/
theorem getElem?_window (pos : Nat) {i : Nat} (hk : k ≤ b.length) (hi : i < k) :
    (window b pos k)[i]? = b[(pos + i) % b.length]? := by
  rw [window, List.getElem?_take_of_lt hi, List.getElem?_rotate (by omega), Nat.add_comm]

/-- Reading moves the window on. -/
theorem window_advance (pos : Nat) {j : Nat} (hj : j ≤ k) (hk : k ≤ b.length) :
    window b ((pos + j) % b.length) (k - j) = (window b pos k).drop j := by
  have hlen : j ≤ (b.rotate pos).length := by
    rw [List.length_rotate]
    omega
  rw [window, window, List.rotate_mod, ← List.rotate_rotate,
    List.rotate_eq_drop_append_take hlen, List.take_append_of_le_length, ← List.drop_take]
  rw [List.length_drop, List.length_rotate]
  omega

/-- Writing behind the window keeps the newest elements: the window grows, and once it is the
whole buffer it moves on. -/
theorem window_copyIn (pos : Nat) (xs : List α) (hb : b.length = n) (hn : 0 < n) (hk : k ≤ n)
    (hxs : xs.length ≤ n) :
    window (copyIn n b ((pos + k) % n) xs) ((pos + (k + xs.length - n)) % n)
        (min n (k + xs.length)) =
      (window b pos k ++ xs).rtake n := by
  have hpos : (pos + k) % n < n := Nat.mod_lt _ hn
  have hlen' := length_copyIn hb hpos hxs
  have hwindow : (window b pos k).length = k := length_window (by omega)
  have hsplit : b.rotate pos = window b pos k ++ (b.rotate pos).drop k :=
    (List.take_append_drop k _).symm
  -- From the write position, the buffer is the elements not in use and then the window.
  have hold : b.rotate ((pos + k) % n) = (b.rotate pos).drop k ++ window b pos k := by
    have := List.rotate_append_length_eq (window b pos k) ((b.rotate pos).drop k)
    rw [hwindow, ← hsplit, List.rotate_rotate] at this
    rw [← hb, List.rotate_mod, this]
  have hnew := rotate_copyIn ((pos + k) % n) xs hb hpos hxs
  rw [hold] at hnew
  generalize copyIn n b ((pos + k) % n) xs = b' at *
  have hrest : ((b.rotate pos).drop k).length = n - k := by
    rw [List.length_drop, List.length_rotate, hb]
  rw [← hlen', List.rotate_mod] at hnew
  rcases Nat.lt_or_ge n (k + xs.length) with h | h
  · have hdrop : ((b.rotate pos).drop k ++ window b pos k).drop xs.length =
        (window b pos k).drop (k + xs.length - n) := by
      rw [List.drop_append, List.drop_eq_nil_of_le (by omega), List.nil_append, hrest]
      congr 1
      omega
    rw [hdrop] at hnew
    have hrotate := List.rotate_append_length_eq xs ((window b pos k).drop (k + xs.length - n))
    rw [← hnew, List.rotate_rotate] at hrotate
    have hpast : (pos + (k + xs.length - n)) % n = (pos + k + xs.length) % n := by
      rw [show pos + k + xs.length = pos + (k + xs.length - n) + n by omega, Nat.add_mod_right]
    rw [Nat.min_eq_left h.le, window, hpast, ← hlen', List.rotate_mod, hrotate,
      List.take_of_length_le, List.rtake, List.length_append, hwindow, hlen',
      List.drop_append_of_le_length (by omega)]
    rw [List.length_append, List.length_drop, hwindow]
    omega
  · have hdrop : ((b.rotate pos).drop k ++ window b pos k).drop xs.length =
        ((b.rotate pos).drop k).drop xs.length ++ window b pos k :=
      List.drop_append_of_le_length (by omega)
    rw [hdrop] at hnew
    have hrotate := List.rotate_append_length_eq (window b pos k)
      (xs ++ ((b.rotate pos).drop k).drop xs.length)
    rw [hwindow, List.append_assoc, ← hnew, ← List.rotate_rotate] at hrotate
    have hfrom := List.rotate_injective k hrotate
    have hlow : k + xs.length - n = 0 := by omega
    have hall : (window b pos k ++ xs).length ≤ n := by
      rw [List.length_append, hwindow]
      exact h
    rw [hlow, Nat.add_zero, Nat.min_eq_right h, window, ← hlen', List.rotate_mod, ← hfrom,
      ← List.append_assoc, List.take_append_of_le_length, List.take_of_length_le, List.rtake,
      hlen', Nat.sub_eq_zero_of_le hall, List.drop_zero]
    · rw [List.length_append, hwindow]
    · rw [List.length_append, hwindow]

/-- Of `n` counters in a row no two have the same position. -/
theorem eq_of_mod_eq {r a c : Nat} (ha : r ≤ a) (ha' : a < r + n) (hc : r ≤ c) (hc' : c < r + n)
    (h : a % n = c % n) : a = c := by
  apply Nat.mod_injOn_Ico r n ?_ ?_ h
  · exact Finset.mem_coe.mpr (Finset.mem_Ico.mpr ⟨ha, ha'⟩)
  · exact Finset.mem_coe.mpr (Finset.mem_Ico.mpr ⟨hc, hc'⟩)

end WebLinked.Base.Circular
