import Mathlib.Data.List.Chain
import Mathlib.Tactic.Common

/-! # Streaks

A history is a list with the newest event first. `streak bad near l` is how many of the newest
events are bad, each of them near the one before it: what a counter holds that is incremented by a
bad event, set to zero by a good one, and forgets everything when two events are too far apart. -/

namespace Frpc.Lib.Streaks

variable {α : Type*} (bad : α → Prop) (near : α → α → Prop) [DecidablePred bad] [DecidableRel near]

/-- The length of the streak at the newest end. -/
def streak : List α → ℕ
  | [] => 0
  | a :: l => if bad a then if ∀ b ∈ l.head?, near a b then streak l + 1 else 1 else 0

variable {bad near} {a : α} {l : List α}

theorem streak_good (h : ¬ bad a) : streak bad near (a :: l) = 0 := if_neg h

theorem streak_near (h : bad a) (hnear : ∀ b ∈ l.head?, near a b) :
    streak bad near (a :: l) = streak bad near l + 1 := by
  rw [streak, if_pos h, if_pos hnear]

theorem streak_far (h : bad a) {b : α} (hb : l.head? = some b) (hfar : ¬ near a b) :
    streak bad near (a :: l) = 1 := by
  rw [streak, if_pos h, if_neg fun hnear => hfar (hnear b hb)]

/-- **What the counter knows.** It has come to `n` if and only if the `n` newest events are bad and
each of them is near the one before it. -/
theorem le_streak_iff (l : List α) (n : ℕ) :
    n ≤ streak bad near l ↔
      n ≤ l.length ∧ (∀ a ∈ l.take n, bad a) ∧ (l.take n).IsChain near := by
  induction l generalizing n with
  | nil => simp [streak]
  | cons a l ih =>
    cases n with
    | zero => simp
    | succ n =>
      rw [List.take_succ_cons, List.isChain_cons, List.head?_take, List.length_cons]
      by_cases hbad : bad a
      · by_cases hnear : ∀ b ∈ l.head?, near a b
        · rw [streak_near hbad hnear, Nat.add_le_add_iff_right, Nat.add_le_add_iff_right, ih n]
          have hhead : ∀ b ∈ (if n = 0 then none else l.head?), near a b := by
            intro b hb
            split_ifs at hb with hn
            · cases hb
            · exact hnear b hb
          rw [List.forall_mem_cons]
          exact ⟨fun h => ⟨h.1, ⟨hbad, h.2.1⟩, hhead, h.2.2⟩, fun h => ⟨h.1, h.2.1.2, h.2.2.2⟩⟩
        · obtain ⟨b, hb, hfar⟩ : ∃ b, l.head? = some b ∧ ¬ near a b := by simpa using hnear
          rw [streak_far hbad hb hfar]
          by_cases hn : n = 0
          · subst hn
            simp [hbad]
          · have hzero : ¬ n + 1 ≤ 1 := by omega
            simp only [hzero, false_iff]
            rintro ⟨-, -, hhead, -⟩
            rw [if_neg hn] at hhead
            exact hfar (hhead b hb)
      · have hzero : ¬ n + 1 ≤ 0 := by omega
        rw [streak_good hbad]
        simp [hzero, hbad]

end Frpc.Lib.Streaks
