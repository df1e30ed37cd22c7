import Mathlib.Data.Int.CardIntervalMod
import Mathlib.Data.List.Nodup

/-! # Going round a list

`goRound ss i k` is what an index shows that goes round the list `ss` for `k` turns, and stood at
`i` when the list was put in place: each turn first reduces the index modulo the length, then moves
it on. Whatever `i` is, every element is shown as often as every other one, up to one turn
(`count_goRound`). -/

namespace Frpc.Lib.Rotations

variable {α : Type*}

/-- `k` turns through `ss`, from the index `i`. -/
def goRound (ss : List α) : (i k : ℕ) → List α
  | _, 0 => []
  | i, k + 1 => (ss[i % ss.length]?).toList ++ goRound ss (i % ss.length + 1) k

theorem length_goRound {ss : List α} (hpos : 0 < ss.length) (i k : ℕ) :
    (goRound ss i k).length = k := by
  induction k generalizing i with
  | zero => rfl
  | succ k ih =>
    have hlt := Nat.mod_lt i hpos
    rw [goRound, List.length_append, ih, List.getElem?_eq_getElem hlt, Option.toList_some,
      List.length_singleton, Nat.add_comm]

/-- The index is at `p` when its sum with the leftover `i` is `p` modulo the length. -/
theorem modEq_shift {n : ℕ} (hn : 0 < n) (i j p : ℕ) :
    i + j ≡ p [MOD n] ↔ j ≡ p + (n - i % n) [MOD n] := by
  have hround : i + (n - i % n) ≡ 0 [MOD n] := by
    have hlt := Nat.mod_lt i hn
    calc i + (n - i % n) ≡ i % n + (n - i % n) [MOD n] := (Nat.mod_modEq i n).symm.add_right _
      _ = n := by omega
      _ ≡ 0 [MOD n] := Nat.modEq_zero_iff_dvd.mpr (dvd_refl n)
  have hback : i + j + (n - i % n) ≡ j [MOD n] := by
    calc i + j + (n - i % n) = i + (n - i % n) + j := by omega
      _ ≡ 0 + j [MOD n] := hround.add_right j
      _ = j := Nat.zero_add j
  constructor
  · intro h
    exact hback.symm.trans (h.add_right _)
  · intro h
    exact Nat.ModEq.add_right_cancel' (n - i % n) (hback.trans h)

variable [BEq α] [LawfulBEq α]

theorem count_goRound_eq {ss : List α} (hnd : ss.Nodup) {p : ℕ} (hp : p < ss.length) (i k : ℕ) :
    (goRound ss i k).count ss[p] = Nat.count (fun j => i + j ≡ p [MOD ss.length]) k := by
  induction k generalizing i with
  | zero => rfl
  | succ k ih =>
    have hlt : i % ss.length < ss.length := Nat.mod_lt i (by omega)
    have hshift : ∀ j, i % ss.length + 1 + j ≡ p [MOD ss.length] ↔
        i + (j + 1) ≡ p [MOD ss.length] := by
      intro j
      have hmod : i % ss.length + (j + 1) ≡ i + (j + 1) [MOD ss.length] :=
        (Nat.mod_modEq i _).add_right _
      rw [show i % ss.length + 1 + j = i % ss.length + (j + 1) by omega]
      exact ⟨hmod.symm.trans, hmod.trans⟩
    have hhead : ss[i % ss.length] = ss[p] ↔ i + 0 ≡ p [MOD ss.length] := by
      rw [hnd.getElem_inj_iff, Nat.ModEq, Nat.add_zero, Nat.mod_eq_of_lt hp]
    rw [goRound, List.count_append, ih, Nat.count_succ', List.getElem?_eq_getElem hlt,
      Option.toList_some, List.count_singleton, Nat.add_comm]
    simp only [hshift, beq_iff_eq, hhead]

/-- **Every element is shown** `k / n` times, or as often as `k` turns rounded up to full rounds. -/
theorem count_goRound {ss : List α} (hnd : ss.Nodup) {a : α} (ha : a ∈ ss) (i k : ℕ) :
    (goRound ss i k).count a = k / ss.length ∨
      (goRound ss i k).count a = (k + ss.length - 1) / ss.length := by
  obtain ⟨p, hp, rfl⟩ := List.getElem_of_mem ha
  have hpos : 0 < ss.length := by omega
  rw [count_goRound_eq hnd hp]
  simp only [modEq_shift hpos i _ p]
  rw [Nat.count_modEq_card _ hpos]
  split_ifs with hlt
  · right
    -- the turns do not fill the last round
    have hk := Nat.div_add_mod k ss.length
    have hr := Nat.mod_lt k hpos
    have hnext : (k / ss.length + 1) * ss.length =
        ss.length * (k / ss.length) + ss.length := by ring
    rw [eq_comm, Nat.div_eq_iff hpos, hnext]
    omega
  · left
    rfl

/-- **A full round shows every element once.** -/
theorem count_goRound_round {ss : List α} (hnd : ss.Nodup) {a : α} (ha : a ∈ ss) (i : ℕ) :
    (goRound ss i ss.length).count a = 1 := by
  have hpos : 0 < ss.length := List.length_pos_of_mem ha
  have hfloor : ss.length / ss.length = 1 := Nat.div_self hpos
  have hceil : (ss.length + ss.length - 1) / ss.length = 1 := by
    rw [Nat.div_eq_iff hpos]
    omega
  rcases count_goRound hnd ha i ss.length with h | h
  · rw [h, hfloor]
  · rw [h, hceil]

end Frpc.Lib.Rotations
