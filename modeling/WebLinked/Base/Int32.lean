/-!
# Signed 32-bit arithmetic

Values are integers. A sum or a difference that leaves the range of `int` gives `none`, since
a program that computes it has no defined meaning; a conversion to `int` wraps.
-/

namespace WebLinked.Base

/-- In the range of `int`. -/
def InInt32 (x : Int) : Prop := -2147483648 ≤ x ∧ x ≤ 2147483647

instance : DecidablePred InInt32 := fun x ↦ by unfold InInt32; infer_instance

/-- An exact result, if it is one. -/
def checked32 (x : Int) : Option Int := if InInt32 x then some x else none

/-- Addition of `int` values. -/
def add32 (a b : Int) : Option Int := checked32 (a + b)

/-- Subtraction of `int` values. -/
def sub32 (a b : Int) : Option Int := checked32 (a - b)

/-- `static_cast<int>`. -/
def toInt32 (x : Int) : Int := x.bmod 4294967296

/-- What fits is itself. -/
theorem toInt32_of_mem {x : Int} (h : InInt32 x) : toInt32 x = x := by
  obtain ⟨hlo, hhi⟩ := h
  rw [toInt32, Int.bmod_def]
  omega

/-- A sum that fits is defined. -/
theorem add32_of_mem {a b : Int} (h : InInt32 (a + b)) : add32 a b = some (a + b) := if_pos h

/-- A difference that fits is defined. -/
theorem sub32_of_mem {a b : Int} (h : InInt32 (a - b)) : sub32 a b = some (a - b) := if_pos h

end WebLinked.Base
