/-
Signed 64-bit arithmetic that remembers an overflow.

A value is what the machine computes, reduced to 64 bits, together with
whether some operation on the way to it overflowed. `Exact x n` is what a
caller wants to know: nothing overflowed, and the value is the integer
`n`. Each operation is exact if its result fits, and overflows if not.
-/
import Mathlib

namespace AntRpc.Lib

structure Signed where
  value : Int64
  overflow : Bool := false
deriving DecidableEq

namespace Signed

/-- The integers a signed 64-bit word holds. -/
def Fits (n : Int) : Prop := -2 ^ 63 ≤ n ∧ n < 2 ^ 63

instance (n : Int) : Decidable (Fits n) :=
  inferInstanceAs (Decidable (_ ∧ _))

/-- The result of an operation whose exact result is `exact`. -/
def result (x y : Signed) (value : Int64) (exact : Int) : Signed where
  value := value
  overflow := x.overflow || y.overflow || !decide (Fits exact)

def mul (x y : Signed) : Signed :=
  result x y (x.value * y.value) (x.value.toInt * y.value.toInt)

def add (x y : Signed) : Signed :=
  result x y (x.value + y.value) (x.value.toInt + y.value.toInt)

/-- Division rounds towards zero. -/
def div (x y : Signed) : Signed :=
  result x y (x.value / y.value) (x.value.toInt.tdiv y.value.toInt)

/-- Nothing overflowed and the value is `n`. -/
structure Exact (x : Signed) (n : Int) : Prop where
  overflow : x.overflow = false
  value : x.value.toInt = n

variable {x y : Signed} {n m : Int}

theorem exact_of (v : Int64) : Exact ⟨v, false⟩ v.toInt := ⟨rfl, rfl⟩

theorem bmod_of_fits (h : Fits n) : n.bmod (2 ^ 64) = n := by
  obtain ⟨hlow, hhigh⟩ := h
  exact Int.bmod_eq_of_le (by omega) (by omega)

theorem Exact.result {v : Int64} {k : Int} (hx : Exact x n)
    (hy : Exact y m) (hfits : Fits k) (hv : v.toInt = k.bmod (2 ^ 64)) :
    Exact (result x y v k) k where
  overflow := by
    simp [Signed.result, hx.overflow, hy.overflow, hfits]
  value := by
    rw [Signed.result, hv, bmod_of_fits hfits]

theorem Exact.mul (hx : Exact x n) (hy : Exact y m) (h : Fits (n * m)) :
    Exact (mul x y) (n * m) := by
  have hr : Exact (Signed.mul x y) (x.value.toInt * y.value.toInt) := by
    refine hx.result hy ?_ (Int64.toInt_mul _ _)
    rwa [hx.value, hy.value]
  rwa [hx.value, hy.value] at hr

theorem Exact.add (hx : Exact x n) (hy : Exact y m) (h : Fits (n + m)) :
    Exact (add x y) (n + m) := by
  have hr : Exact (Signed.add x y) (x.value.toInt + y.value.toInt) := by
    refine hx.result hy ?_ (Int64.toInt_add _ _)
    rwa [hx.value, hy.value]
  rwa [hx.value, hy.value] at hr

theorem fits_of_result {v : Int64} {k : Int}
    (h : (result x y v k).overflow = false) :
    (x.overflow = false ∧ y.overflow = false) ∧ Fits k := by
  simpa [result] using h

/-- A product that did not overflow fits, and so did its factors. -/
theorem fits_of_mul (hx : x.overflow = false → Exact x n)
    (hy : Exact y m) (h : (mul x y).overflow = false) :
    Exact x n ∧ Fits (n * m) := by
  obtain ⟨⟨hox, -⟩, hfits⟩ := fits_of_result h
  rw [(hx hox).value, hy.value] at hfits
  exact ⟨hx hox, hfits⟩

theorem fits_of_add (hx : Exact x n) (hy : y.overflow = false → Exact y m)
    (h : (add x y).overflow = false) : Exact y m ∧ Fits (n + m) := by
  obtain ⟨⟨-, hoy⟩, hfits⟩ := fits_of_result h
  rw [hx.value, (hy hoy).value] at hfits
  exact ⟨hy hoy, hfits⟩

theorem Exact.div (hx : Exact x n) (hy : Exact y m)
    (h : Fits (n.tdiv m)) : Exact (div x y) (n.tdiv m) := by
  have hr : Exact (Signed.div x y)
      (x.value.toInt.tdiv y.value.toInt) := by
    refine hx.result hy ?_ (Int64.toInt_div _ _)
    rwa [hx.value, hy.value]
  rwa [hx.value, hy.value] at hr

end Signed

end AntRpc.Lib
