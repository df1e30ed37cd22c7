import Mathlib.Algebra.BigOperators.Fin
import Mathlib.Algebra.Order.BigOperators.Group.Finset
import Mathlib.Data.Fintype.BigOperators
import Mathlib.Tactic.Linarith
import Mathlib.Tactic.Ring

/-! # Turns shared by weight

Parties take turns. In every round each party is credited with its weight, a party with the largest
credit has the turn, and the total of the weights is taken from it (`Turns`). Whoever is chosen
among several parties with the same credit: the credits sum to zero, no credit falls to minus the
total, and so a party never has more turns than its share and one (`count_lt`). If the number of
rounds is a multiple of the total, the turns are shared exactly (`count_eq`). -/

namespace Frpc.Lib.Shares

variable {ι : Type*} [Fintype ι] [DecidableEq ι] {w : ι → ℤ}

/-- The credits after a round in which `i` has the turn. -/
def pay (w c : ι → ℤ) (i : ι) : ι → ℤ := fun j => c j + w j - if j = i then ∑ k, w k else 0

/-- The turns of some rounds, and the credits after them. -/
inductive Turns (w : ι → ℤ) : List ι → (ι → ℤ) → Prop
  | start : Turns w [] fun _ => 0
  | round {is : List ι} {c : ι → ℤ} {i : ι} (h : Turns w is c) (hmax : ∀ j, c j + w j ≤ c i + w i) :
      Turns w (is ++ [i]) (pay w c i)

variable {is : List ι} {c : ι → ℤ}

/-- A credit is what the party was given, less what was taken from it. -/
theorem credit_eq (h : Turns w is c) (j : ι) : c j = is.length * w j - is.count j * ∑ k, w k := by
  induction h with
  | start => simp
  | @round is c i _ _ ih =>
    rw [pay, ih, List.length_append, List.count_append]
    by_cases hij : j = i
    · subst hij
      simp only [if_true, List.length_singleton, List.count_singleton_self]
      push_cast
      ring
    · have hcount : List.count j [i] = 0 := List.count_eq_zero.mpr (by simpa using hij)
      simp only [if_neg hij, hcount, List.length_singleton]
      push_cast
      ring

theorem sum_pay (w c : ι → ℤ) (i : ι) : ∑ j, pay w c i j = ∑ j, c j := by
  simp only [pay, Finset.sum_sub_distrib, Finset.sum_add_distrib, Finset.sum_ite_eq',
    Finset.mem_univ, if_true]
  ring

theorem sum_credit (h : Turns w is c) : ∑ j, c j = 0 := by
  induction h with
  | start => simp
  | round _ _ ih => rw [sum_pay, ih]

section Bounds

variable (hw : ∀ j, 0 ≤ w j) (hpos : 0 < ∑ k, w k)

include hw hpos

/-- Whoever has the turn has a positive credit: the credits sum to the total of the weights. -/
theorem lt_credit (h : Turns w is c) (j : ι) : -∑ k, w k < c j := by
  induction h generalizing j with
  | start => simpa using hpos
  | @round is c i h hmax ih =>
    have hsum : ∑ j, (c j + w j) = ∑ k, w k := by
      rw [Finset.sum_add_distrib, sum_credit h, zero_add]
    have hturn : 0 < c i + w i := by
      by_contra hle
      have hnonpos : ∑ j, (c j + w j) ≤ 0 :=
        Finset.sum_nonpos fun j _ => (hmax j).trans (not_lt.mp hle)
      omega
    have hj := ih j
    have hwj := hw j
    unfold pay
    split_ifs with hij
    · subst hij
      omega
    · omega

/-- A credit and the weight of its party are at most the total of the weights for each party. -/
theorem credit_add_le (h : Turns w is c) (j : ι) : c j + w j ≤ Fintype.card ι * ∑ k, w k := by
  have hle : c j + ∑ k, w k ≤ ∑ i, (c i + ∑ k, w k) := by
    refine Finset.single_le_sum (f := fun i => c i + ∑ k, w k) (fun i _ => ?_) (Finset.mem_univ j)
    have := lt_credit hw hpos h i
    omega
  have hsum : ∑ i, (c i + ∑ k, w k) = Fintype.card ι * ∑ k, w k := by
    rw [Finset.sum_add_distrib, sum_credit h, zero_add, Finset.sum_const, Finset.card_univ,
      nsmul_eq_mul]
  have hwj : w j ≤ ∑ k, w k := Finset.single_le_sum (fun i _ => hw i) (Finset.mem_univ j)
  omega

/-- **No party runs ahead.** -/
theorem count_lt (h : Turns w is c) (j : ι) :
    is.count j * ∑ k, w k < is.length * w j + ∑ k, w k := by
  have hlt := lt_credit hw hpos h j
  rw [credit_eq h j] at hlt
  omega

/-- **The turns are shared exactly** if the number of rounds is a multiple of the total. -/
theorem count_eq {m : ℕ} (h : Turns w is c) (hlen : (is.length : ℤ) = m * ∑ k, w k) (j : ι) :
    is.count j = m * w j ∧ c j = 0 := by
  -- nobody has more turns than its share, and all turns together are all shares
  have hle : ∀ i ∈ Finset.univ, (is.count i : ℤ) ≤ m * w i := by
    intro i _
    have hlt := count_lt hw hpos h i
    have hmul : (is.count i : ℤ) * ∑ k, w k < (m * w i + 1) * ∑ k, w k := by
      rw [hlen] at hlt
      linarith
    have := lt_of_mul_lt_mul_right hmul hpos.le
    omega
  have hsum : ∑ i, (is.count i : ℤ) = ∑ i, m * w i := by
    have hcount : ∑ i, is.count i = is.length := by
      simpa using Multiset.sum_count_eq_card (s := Finset.univ) (m := (is : Multiset ι)) (by simp)
    rw [← Finset.mul_sum, ← hlen, ← hcount, Nat.cast_sum]
  have hj := (Finset.sum_eq_sum_iff_of_le hle).mp hsum j (Finset.mem_univ j)
  refine ⟨hj, ?_⟩
  rw [credit_eq h j, hj, hlen]
  ring

end Bounds

end Frpc.Lib.Shares
