import Mathlib.Data.Rat.Floor
import Mathlib.Tactic.Linarith
import Mathlib.Tactic.Positivity

/-! # Rounded arithmetic

What a proof needs to know of floating-point numbers with a 53-bit mantissa: the result of an
operation is the exact one, rounded by a monotone function that leaves the integers up to `2 ^ 53`
as they are. -/

namespace Frpc.Lib.Floats

/-- A rounding of the rational numbers. -/
structure Rounding where
  round : ℚ → ℚ
  mono : Monotone round
  round_int : ∀ n : ℤ, |n| ≤ 2 ^ 53 → round n = n

/-- No rounding at all. -/
def exact : Rounding := ⟨id, monotone_id, fun _ _ => rfl⟩

namespace Rounding

variable (r : Rounding) {n : ℤ} {x y : ℚ}

theorem le_round (hn : |n| ≤ 2 ^ 53) (h : n ≤ x) : n ≤ r.round x := by
  rw [← r.round_int n hn]
  exact r.mono h

/-- The rounded product of a small integer and a rounded number that is at least one. -/
theorem le_round_mul (hn : 0 ≤ n) (hn' : n ≤ 2 ^ 53) (hx : 1 ≤ x) :
    n ≤ r.round (n * r.round x) := by
  have hround : (1 : ℚ) ≤ r.round x := by
    have h1 := r.le_round (n := 1) (x := x) (by norm_num) (by simpa using hx)
    simpa using h1
  have hnq : (0 : ℚ) ≤ n := by exact_mod_cast hn
  refine r.le_round (by rwa [abs_of_nonneg hn]) ?_
  nlinarith

end Rounding

end Frpc.Lib.Floats
