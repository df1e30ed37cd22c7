import Mathlib.Algebra.Order.Group.Int
import Mathlib.Tactic.Common

/-! # Token buckets

A bucket has a capacity, a number of tokens, and the tick at which the tokens were last counted. One
token comes in with every tick, up to the capacity; a draw takes one if there is one. The tokens are
counted only when somebody draws, and not when the bucket is full: then the tick of the last count
stays, and the first draw after a while is made up for by the second count.

`allowance b tick` is the number of draws that succeed at once at that tick. A draw succeeds if and
only if it is positive (`draw_iff`), and then takes one from it (`allowance_draw`); with the ticks
it grows, by one per tick at most (`allowance_mono`, `allowance_later`). It is at most one more than
the capacity. -/

namespace Frpc.Lib.Buckets

/-- A bucket. -/
structure Bucket where
  capacity : ℤ
  tokens : ℤ
  stamp : ℤ

namespace Bucket

variable {b : Bucket} {tick tick' : ℤ}

/-- Count the tokens, unless the bucket is full. -/
def refill (b : Bucket) (tick : ℤ) : Bucket :=
  if b.capacity ≤ b.tokens then b
  else { b with tokens := min (b.tokens + (tick - b.stamp)) b.capacity, stamp := tick }

/-- Take a token, if there is one. -/
def draw (b : Bucket) (tick : ℤ) : Bool × Bucket :=
  let b := b.refill tick
  if b.tokens ≤ 0 then (false, b) else (true, { b with tokens := b.tokens - 1 })

/-- The draws that succeed at this tick. -/
def allowance (b : Bucket) (tick : ℤ) : ℤ :=
  if b.capacity ≤ b.tokens then if b.stamp < tick then b.capacity + 1 else b.capacity
  else min (b.tokens + (tick - b.stamp)) b.capacity

/-- There are no more tokens than fit in, and none was counted ahead of time. -/
structure Valid (b : Bucket) (tick : ℤ) : Prop where
  capacity : 0 < b.capacity
  nonneg : 0 ≤ b.tokens
  le_capacity : b.tokens ≤ b.capacity
  stamp : b.stamp ≤ tick

theorem Valid.later (h : Valid b tick) (hle : tick ≤ tick') : Valid b tick' :=
  ⟨h.capacity, h.nonneg, h.le_capacity, h.stamp.trans hle⟩

/-- What a draw does: it takes one from a full bucket, whose tokens are not counted; it counts the
tokens and takes one; or it finds none. -/
theorem draw_cases (h : Valid b tick) :
    (b.tokens = b.capacity ∧ b.draw tick = (true, ⟨b.capacity, b.capacity - 1, b.stamp⟩)) ∨
    (b.tokens < b.capacity ∧ 0 < b.tokens + (tick - b.stamp) ∧
      b.draw tick = (true, ⟨b.capacity, min (b.tokens + (tick - b.stamp)) b.capacity - 1, tick⟩)) ∨
    (b.tokens = 0 ∧ b.stamp = tick ∧ b.draw tick = (false, ⟨b.capacity, 0, tick⟩)) := by
  obtain ⟨hcap, hnonneg, hle, hstamp⟩ := h
  unfold draw refill
  by_cases hfull : b.capacity ≤ b.tokens
  · have heq : b.tokens = b.capacity := by omega
    rw [if_pos hfull]
    refine Or.inl ⟨heq, ?_⟩
    rw [if_neg (by omega), heq]
  · rw [if_neg hfull]
    dsimp only
    by_cases hempty : b.tokens + (tick - b.stamp) ≤ 0
    · have htokens : b.tokens = 0 := by omega
      have hstamp' : b.stamp = tick := by omega
      refine Or.inr (Or.inr ⟨htokens, hstamp', ?_⟩)
      have hmin : min (b.tokens + (tick - b.stamp)) b.capacity = 0 := by omega
      rw [hmin, if_pos le_rfl]
    · refine Or.inr (Or.inl ⟨by omega, by omega, ?_⟩)
      rw [if_neg (by omega)]

theorem draw_capacity (h : Valid b tick) : (b.draw tick).2.capacity = b.capacity := by
  rcases draw_cases h with ⟨-, heq⟩ | ⟨-, -, heq⟩ | ⟨-, -, heq⟩
  · rw [heq]
  · rw [heq]
  · rw [heq]

theorem Valid.draw (h : Valid b tick) : Valid (b.draw tick).2 tick := by
  obtain ⟨hcap, hnonneg, hle, hstamp⟩ := id h
  rcases draw_cases h with ⟨hfull, heq⟩ | ⟨hlt, hpos, heq⟩ | ⟨htokens, hstamp', heq⟩
  · rw [heq]
    constructor <;> dsimp only <;> omega
  · rw [heq]
    constructor <;> dsimp only <;> omega
  · rw [heq]
    constructor <;> dsimp only <;> omega

/-- **A draw succeeds if and only if something is allowed.** -/
theorem draw_iff (h : Valid b tick) : (b.draw tick).1 = true ↔ 0 < b.allowance tick := by
  obtain ⟨hcap, hnonneg, hle, hstamp⟩ := id h
  unfold allowance
  rcases draw_cases h with ⟨hfull, heq⟩ | ⟨hlt, hpos, heq⟩ | ⟨htokens, hstamp', heq⟩
  · rw [heq, if_pos hfull.ge]
    refine iff_of_true rfl ?_
    split_ifs <;> omega
  · rw [heq, if_neg (by omega)]
    exact iff_of_true rfl (by omega)
  · rw [heq, if_neg (by omega)]
    exact iff_of_false (by simp) (by omega)

/-- A draw that succeeds takes one from what is allowed, and one that fails takes nothing. -/
theorem allowance_draw (h : Valid b tick) :
    (b.draw tick).2.allowance tick = b.allowance tick - if (b.draw tick).1 then 1 else 0 := by
  obtain ⟨hcap, hnonneg, hle, hstamp⟩ := id h
  unfold allowance
  rcases draw_cases h with ⟨hfull, heq⟩ | ⟨hlt, hpos, heq⟩ | ⟨htokens, hstamp', heq⟩
  · rw [heq, if_pos hfull.ge]
    dsimp only
    rw [if_neg (by omega), if_pos rfl]
    split_ifs <;> omega
  · rw [heq, if_neg (by omega : ¬ b.capacity ≤ b.tokens)]
    dsimp only
    rw [if_neg (by omega), if_pos rfl]
    omega
  · rw [heq, if_neg (by omega : ¬ b.capacity ≤ b.tokens)]
    dsimp only
    rw [if_neg (by omega), if_neg (by simp)]
    omega

theorem allowance_mono (hle : tick ≤ tick') : b.allowance tick ≤ b.allowance tick' := by
  unfold allowance
  split_ifs <;> omega

theorem allowance_later (hle : tick ≤ tick') (hstamp : b.stamp ≤ tick) :
    b.allowance tick' ≤ b.allowance tick + (tick' - tick) := by
  unfold allowance
  split_ifs <;> omega

theorem allowance_le (b : Bucket) (tick : ℤ) : b.allowance tick ≤ b.capacity + 1 := by
  unfold allowance
  split_ifs <;> omega

theorem allowance_nonneg (h : Valid b tick) : 0 ≤ b.allowance tick := by
  obtain ⟨hcap, hnonneg, hle, hstamp⟩ := h
  unfold allowance
  split_ifs <;> omega

end Bucket

end Frpc.Lib.Buckets
