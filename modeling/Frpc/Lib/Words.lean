import Mathlib.Algebra.Order.Ring.Int

/-! # Integers of 64 bits

The value of a signed word of 64 bits after an operation, and the range in which it is the exact
result. -/

namespace Frpc.Lib.Words

/-- The value of a word after an operation with the exact result `x`. -/
def int64 (x : ℤ) : ℤ := x.bmod (2 ^ 64)

theorem int64_eq {x : ℤ} (hlo : -2 ^ 63 ≤ x) (hhi : x < 2 ^ 63) : int64 x = x := by
  have hlow : -(((2 ^ 64 : ℕ) : ℤ) / 2) ≤ x := by omega
  have hhigh : x < (((2 ^ 64 : ℕ) : ℤ) + 1) / 2 := by omega
  exact Int.bmod_eq_of_le hlow hhigh

end Frpc.Lib.Words
