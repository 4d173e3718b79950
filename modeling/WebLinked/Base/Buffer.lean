import WebLinked.Base.Circular
import WebLinked.Base.CountedLoop

/-!
# Reading and writing memory by address

A block of memory is the list of its elements. A read or a write gives `none` unless every
element it touches is in the block.
-/

namespace WebLinked.Base.Buffer

open WebLinked.Base.Circular

universe u

variable {α : Type u}

/-- Read `n` elements from `start` on. -/
def peek (b : List α) (start : Int) (n : Nat) : Option (List α) :=
  if 0 ≤ start ∧ start + n ≤ b.length then some ((b.drop start.toNat).take n) else none

/-- Write `xs` from `start` on. -/
def poke (b : List α) (start : Int) (xs : List α) : Option (List α) :=
  if 0 ≤ start ∧ start + xs.length ≤ b.length then some (overwrite b start.toNat xs) else none

/-- The element at an index of a vector. -/
def load (b : List α) (i : Int) : Option α := if 0 ≤ i then b[i.toNat]? else none

/-- `std::vector::resize`. -/
def resize (b : List α) (n : Nat) (z : α) : List α := b.take n ++ List.replicate (n - b.length) z

/-- `for (int i = lo; i < hi; ++i) b[i] = f(i)`. -/
def fill (lo hi : Int) (f : Int → Option α) (b : List α) : Option (List α) :=
  forUp 1 hi (fun i b ↦ (f i).bind fun x ↦ poke b i [x]) lo b

variable {b xs c : List α} {start i : Int} {n : Nat} {z : α}

/-- The element at an address, and `z` outside the block. -/
def read (b : List α) (z : α) (i : Int) : α := if 0 ≤ i then b.getD i.toNat z else z

theorem read_replicate (n : Nat) (z : α) (i : Int) : read (List.replicate n z) z i = z := by
  rw [read]
  split
  · rw [List.getD_eq_getElem?_getD, List.getElem?_replicate]
    split <;> rfl
  · rfl

/-- A read in the block, and what it reads. -/
theorem peek_spec (z : α) (hstart : 0 ≤ start) (h : start + n ≤ b.length) :
    ∃ xs, peek b start n = some xs ∧ xs.length = n ∧
      ∀ j : Int, 0 ≤ j → j < n → read xs z j = read b z (start + j) := by
  refine ⟨_, if_pos ⟨hstart, h⟩, ?_, fun j hj hjn ↦ ?_⟩
  · rw [List.length_take, List.length_drop]
    omega
  · have haddr : (start + j).toNat = start.toNat + j.toNat := by omega
    rw [read, read, if_pos hj, if_pos (by omega), List.getD_eq_getElem?_getD,
      List.getD_eq_getElem?_getD, List.getElem?_take_of_lt (by omega), List.getElem?_drop, haddr]

/-- A write in the block, and what it leaves. -/
theorem poke_spec (b xs : List α) (hstart : 0 ≤ start) (h : start + xs.length ≤ b.length) :
    ∃ c, poke b start xs = some c ∧ c.length = b.length ∧
      ∀ (z : α) (i : Int), read c z i =
        if start ≤ i ∧ i < start + xs.length then read xs z (i - start) else read b z i := by
  refine ⟨_, if_pos ⟨hstart, h⟩, length_overwrite (by omega), fun z i ↦ ?_⟩
  have htake : (b.take start.toNat).length = start.toNat := by
    rw [List.length_take]
    omega
  rcases lt_or_ge i 0 with hneg | hpos
  · rw [read, if_neg (by omega), if_neg (by omega), read, if_neg (by omega)]
  · rw [read, if_pos hpos, List.getD_eq_getElem?_getD, overwrite]
    rcases lt_or_ge i start with hlo | hlo
    · rw [List.getElem?_append_left (by omega), List.getElem?_take_of_lt (by omega),
        if_neg (by omega), read, if_pos hpos, List.getD_eq_getElem?_getD]
    · rw [List.getElem?_append_right (by omega), htake]
      rcases lt_or_ge i (start + xs.length) with hhi | hhi
      · have haddr : i.toNat - start.toNat = (i - start).toNat := by omega
        rw [List.getElem?_append_left (by omega), if_pos ⟨hlo, hhi⟩, read, if_pos (by omega),
          List.getD_eq_getElem?_getD, haddr]
      · have haddr : start.toNat + xs.length + (i.toNat - start.toNat - xs.length) = i.toNat := by
          omega
        rw [List.getElem?_append_right (by omega), List.getElem?_drop, haddr,
          if_neg (by omega), read, if_pos hpos, List.getD_eq_getElem?_getD]

/-- Two blocks of one size that read the same are the same. -/
theorem ext_read (z : α) (hlen : b.length = c.length) (h : ∀ i, read b z i = read c z i) :
    b = c := by
  apply List.ext_getElem hlen
  intro i hb hc
  have hi := h i
  rwa [read, read, if_pos (Int.natCast_nonneg i), if_pos (Int.natCast_nonneg i), Int.toNat_natCast,
    List.getD_eq_getElem?_getD, List.getD_eq_getElem?_getD, List.getElem?_eq_getElem hb,
    List.getElem?_eq_getElem hc] at hi

/-- Where the element is read, an index of the vector loads it. -/
theorem load_eq_read (z : α) (hlo : 0 ≤ i) (hhi : i < b.length) : load b i = some (read b z i) := by
  rw [load, if_pos hlo, read, if_pos hlo, List.getD_eq_getElem?_getD,
    List.getElem?_eq_getElem (by omega), Option.getD_some]

theorem length_resize (b : List α) (n : Nat) (z : α) : (resize b n z).length = n := by
  rw [resize, List.length_append, List.length_take, List.length_replicate]
  omega

/-- A filled vector has the values of the function between the limits. -/
theorem fill_spec (b : List α) {lo hi : Int} {f : Int → Option α} (g : Int → α) (hlo : 0 ≤ lo)
    (hle : lo ≤ hi) (hlen : hi ≤ b.length) (hint : hi ≤ 2147483647)
    (hf : ∀ i, lo ≤ i → i < hi → f i = some (g i)) :
    ∃ c, fill lo hi f b = some c ∧ c.length = b.length ∧
      ∀ i, lo ≤ i → i < hi → load c i = some (g i) := by
  refine forUp_one_invariant
    (fun k c ↦ c.length = b.length ∧ ∀ i, lo ≤ i → i < k → load c i = some (g i))
    ⟨by omega, by omega⟩ ⟨by omega, hint⟩ hle ⟨rfl, fun i _ _ ↦ by omega⟩ ?_
  intro k c hk hkhi ⟨hlength, hvalues⟩
  obtain ⟨d, hd, hdlength, hread⟩ := poke_spec c [g k] (show 0 ≤ k by omega)
    (by rw [List.length_singleton]; omega)
  refine ⟨d, by rw [hf k hk hkhi, Option.bind_some, hd], hdlength.trans hlength, ?_⟩
  intro i hi hik
  rw [load_eq_read (g k) (by omega) (by omega), hread, List.length_singleton]
  rcases eq_or_lt_of_le (show i ≤ k by omega) with rfl | hlt
  · rw [if_pos (by omega), Int.sub_self]
    rfl
  · rw [if_neg (by omega), ← load_eq_read (g k) (by omega) (by omega), hvalues i hi hlt]

end WebLinked.Base.Buffer
