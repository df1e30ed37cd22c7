import Mathlib.Data.Finmap
import Mathlib.Data.List.AList

/-! # Tables

A table is a partial function, changed by `Function.update`, an association list, changed by
`insert` and `erase`, a finite map that is filled from a list, or a list, changed at an index or at
its end. The lemmas say what a changed table holds. -/

namespace Frpc.Lib.Tables

variable {I A : Type*} [DecidableEq I]

theorem update_eq_some {f : I → Option A} {i j : I} {a b : A} :
    Function.update f i (some a) j = some b ↔ (j = i ∧ b = a) ∨ (j ≠ i ∧ f j = some b) := by
  by_cases hj : j = i
  · subst hj
    simp [eq_comm]
  · simp [hj]

theorem isSome_update {f : I → Option A} {i j : I} (a : A) (h : (f j).isSome) :
    (Function.update f i (some a) j).isSome := by
  by_cases hj : j = i
  · subst hj
    simp
  · rwa [Function.update_of_ne hj]

section Lists

variable {xs : List A} {k n : ℕ} {x y : A}

theorem getElem?_set_eq_some (h : (xs.set k x)[n]? = some y) :
    (n = k ∧ y = x) ∨ (n ≠ k ∧ xs[n]? = some y) := by
  by_cases hn : n = k
  · subst hn
    have hlt : n < xs.length := by
      have := (List.getElem?_eq_some_iff.mp h).1
      rwa [List.length_set] at this
    rw [List.getElem?_set_self hlt] at h
    exact Or.inl ⟨rfl, (Option.some.inj h).symm⟩
  · rw [List.getElem?_set_ne (Ne.symm hn)] at h
    exact Or.inr ⟨hn, h⟩

theorem getElem?_concat_eq_some (h : (xs ++ [x])[n]? = some y) :
    xs[n]? = some y ∨ (n = xs.length ∧ y = x) := by
  by_cases hlt : n < xs.length
  · rw [List.getElem?_append_left hlt] at h
    exact Or.inl h
  · rw [List.getElem?_append_right (by omega), List.getElem?_singleton] at h
    split_ifs at h with h0
    exact Or.inr ⟨by omega, (Option.some.inj h).symm⟩

/-- Replacing an element changes a count by what it and the new one count for. -/
theorem countP_set_add (p : A → Bool) (hk : xs[k]? = some x) (y : A) :
    (xs.set k y).countP p + (if p x then 1 else 0) = xs.countP p + if p y then 1 else 0 := by
  induction xs generalizing k with
  | nil => cases hk
  | cons z xs ih =>
    cases k with
    | zero =>
      obtain rfl : z = x := by simpa using hk
      rw [List.set_cons_zero, List.countP_cons, List.countP_cons]
      omega
    | succ k =>
      have htail := ih (k := k) (by simpa using hk)
      rw [List.set_cons_succ, List.countP_cons, List.countP_cons]
      omega

end Lists

variable {l : AList fun _ : I => A} {i j : I} {a b : A}

theorem lookup_insert_eq_some :
    (l.insert i a).lookup j = some b ↔ (j = i ∧ b = a) ∨ (j ≠ i ∧ l.lookup j = some b) := by
  by_cases hj : j = i
  · subst hj
    simp [eq_comm]
  · simp [hj, AList.lookup_insert_ne hj]

theorem lookup_erase_eq_some : (l.erase i).lookup j = some b ↔ j ≠ i ∧ l.lookup j = some b := by
  by_cases hj : j = i
  · subst hj
    simp
  · simp [hj, AList.lookup_erase_ne hj]

theorem erase_of_lookup_eq_none (h : l.lookup i = none) : l.erase i = l := by
  have hno : i ∉ l.keys := fun hmem => absurd (AList.lookup_isSome.mpr hmem) (by simp [h])
  exact AList.ext (List.kerase_of_notMem_keys hno)

/-- A map that is filled from a list with distinct keys holds what is in the list, and what it held
before under the other keys. -/
theorem lookup_foldl_insert {B : Type*} (key : B → I) (val : B → A) :
    ∀ (xs : List B) (m : Finmap fun _ : I => A),
    (xs.map key).Nodup → ((xs.foldl (fun m x => m.insert (key x) (val x)) m).lookup i = some a ↔
      (∃ x ∈ xs, key x = i ∧ val x = a) ∨ (i ∉ xs.map key ∧ m.lookup i = some a))
  | [], m, _ => by simp
  | x :: xs, m, hnd => by
    obtain ⟨hx, hnd⟩ := List.nodup_cons.mp hnd
    rw [List.foldl_cons, lookup_foldl_insert key val xs _ hnd]
    by_cases hi : i = key x
    · subst hi
      have hnone : ¬ ∃ y ∈ xs, key y = key x ∧ val y = a := by
        rintro ⟨y, hy, heq, -⟩
        exact hx (heq ▸ List.mem_map_of_mem hy)
      simp [hnone, hx, Finmap.lookup_insert]
    · have hne : ¬ key x = i := fun h => hi h.symm
      simp [hne, hi, Finmap.lookup_insert_of_ne _ hi]

end Frpc.Lib.Tables
