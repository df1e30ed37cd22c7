import Mathlib.Algebra.BigOperators.Group.List.Basic
import Mathlib.Algebra.Order.Ring.Int
import Mathlib.Data.List.Flatten
import Mathlib.Data.List.Perm.Basic
import Mathlib.Tactic.Linarith
import Mathlib.Tactic.Ring

/-! # Rolling windows

Events are put into cells, the newest cell first. The newest cell was begun at the time `start` and
takes the events of the time `w` after that; then the cells are shifted, the oldest are dropped, and
a new one is begun. How many cells are dropped is how often `w` fits into the time that has passed,
but the new cell begins when the shift is made, up to `w` later; and the clock may have gone on by
`δ` since it was read.

So a cell does not cover a fixed piece of time. What holds: events that were dropped are old
(`lost`), and events that are still there are not too old (`old`). -/

namespace Frpc.Lib.Windows

variable {A : Type*} {time : A → ℤ} {n : ℕ} {w δ start : ℤ} {cells : List (List A)} {lost : List A}

/-- What `n` cells hold that were begun at the time `start`. -/
structure Rolling (time : A → ℤ) (n : ℕ) (w δ start : ℤ) (cells : List (List A)) (lost : List A) :
    Prop where
  length : cells.length = n
  recent : ∀ {i : ℕ} {cell}, cells[i]? = some cell → ∀ a ∈ cell, time a ≤ start + w - i * w
  old : ∀ {i : ℕ} {cell}, cells[i]? = some cell → ∀ a ∈ cell, start - δ - i * (2 * w + δ) ≤ time a
  lost : ∀ a ∈ lost, time a ≤ start + w - n * w

/-- Begin `k` new cells. -/
def shift (n k : ℕ) (cells : List (List A)) : List (List A) := (List.replicate k [] ++ cells).take n

theorem rolling_empty (hn : cells = List.replicate n []) : Rolling time n w δ start cells [] := by
  subst hn
  have hnil : ∀ {i : ℕ} {cell : List A}, (List.replicate n [])[i]? = some cell → cell = [] := by
    intro i cell h
    exact List.eq_of_mem_replicate (List.mem_of_getElem? h)
  refine ⟨List.length_replicate, fun h a ha => ?_, fun h a ha => ?_, nofun⟩
  · rw [hnil h] at ha
    cases ha
  · rw [hnil h] at ha
    cases ha

theorem getElem?_shift {k i : ℕ} {cell : List A} {a : A} (h : (shift n k cells)[i]? = some cell)
    (ha : a ∈ cell) :
    k ≤ i ∧ cells[i - k]? = some cell := by
  rw [shift, List.getElem?_take] at h
  split_ifs at h
  by_cases hk : i < k
  · rw [List.getElem?_append_left (by simpa using hk), List.getElem?_replicate, if_pos hk] at h
    cases h
    cases ha
  · rw [List.getElem?_append_right (by simpa using hk), List.length_replicate] at h
    exact ⟨by omega, h⟩

/-- **A shift.** The new cell begins at `start'`. -/
theorem Rolling.shift {start' : ℤ} {k : ℕ} (h : Rolling time n w δ start cells lost) (hw : 0 ≤ w)
    (hδ : 0 ≤ δ) (hk : 1 ≤ k) (hkn : k ≤ n) (hpast : start + k * w ≤ start')
    (hsoon : start' ≤ start + (k + 1) * w + δ ∨ k = n) :
    Rolling time n w δ start' (Windows.shift n k cells) (lost ++ (cells.drop (n - k)).flatten) := by
  have hlen := h.length
  refine ⟨?_, fun {i cell} hi a ha => ?_, fun {i cell} hi a ha => ?_, fun a ha => ?_⟩
  · rw [Windows.shift, List.length_take, List.length_append, List.length_replicate]
    omega
  · obtain ⟨hki, hcell⟩ := getElem?_shift hi ha
    have hrecent := h.recent hcell a ha
    have hcast : ((i - k : ℕ) : ℤ) = i - k := by omega
    rw [hcast] at hrecent
    nlinarith
  · obtain ⟨hki, hcell⟩ := getElem?_shift hi ha
    have hold := h.old hcell a ha
    have hlt := (List.getElem?_eq_some_iff.mp hcell).1
    have hlt' : i < n := by
      have := (List.getElem?_eq_some_iff.mp hi).1
      rw [Windows.shift, List.length_take] at this
      omega
    have hcast : ((i - k : ℕ) : ℤ) = i - k := by omega
    rw [hcast] at hold
    rcases hsoon with hsoon | rfl
    · have hk' : (1 : ℤ) ≤ k := by exact_mod_cast hk
      nlinarith
    · omega
  · rcases List.mem_append.mp ha with ha | ha
    · have hlost := h.lost a ha
      nlinarith
    · obtain ⟨cell, hcell, ha⟩ := List.mem_flatten.mp ha
      obtain ⟨j, hj⟩ := List.mem_iff_getElem?.mp hcell
      rw [List.getElem?_drop] at hj
      have hrecent := h.recent hj a ha
      have hcast : ((n - k + j : ℕ) : ℤ) = n - k + j := by omega
      rw [hcast] at hrecent
      have hj0 : (0 : ℤ) ≤ j := by omega
      nlinarith

theorem Rolling.record {a : A} {cell : List A} {rest : List (List A)}
    (h : Rolling time n w δ start cells lost)
    (hcells : cells = cell :: rest) (hlow : start - δ ≤ time a) (hhigh : time a ≤ start + w) :
    Rolling time n w δ start ((a :: cell) :: rest) lost := by
  subst hcells
  refine ⟨h.length, fun {i c} hi b hb => ?_, fun {i c} hi b hb => ?_, h.lost⟩
  · cases i with
    | zero =>
      cases hi
      rcases List.mem_cons.mp hb with rfl | hb
      · simpa using hhigh
      · exact h.recent (i := 0) rfl b hb
    | succ i => exact h.recent (i := i + 1) hi b hb
  · cases i with
    | zero =>
      cases hi
      rcases List.mem_cons.mp hb with rfl | hb
      · simpa using hlow
      · exact h.old (i := 0) rfl b hb
    | succ i => exact h.old (i := i + 1) hi b hb

/-! ### Shifts -/

/-- Begin one new cell. -/
def advance {B : Type*} (zero : B) (cells : List B) : List B := zero :: cells.dropLast

theorem length_advance {B : Type*} (zero : B) {cells : List B} (h : cells ≠ []) :
    (advance zero cells).length = cells.length := by
  have hpos := List.length_pos_of_ne_nil h
  rw [advance, List.length_cons, List.length_dropLast]
  omega

theorem shift_zero (h : cells.length = n) : shift n 0 cells = cells := by
  rw [shift, List.replicate_zero, List.nil_append, ← h, List.take_length]

theorem shift_succ {k : ℕ} (h : cells.length = n) (hn : 0 < n) :
    shift n (k + 1) cells = advance [] (shift n k cells) := by
  obtain ⟨m, rfl⟩ := Nat.exists_eq_succ_of_ne_zero hn.ne'
  have hle : m + 1 ≤ (List.replicate k [] ++ cells).length := by
    rw [List.length_append]
    omega
  rw [shift, shift, advance, List.replicate_succ, List.cons_append, List.take_succ_cons,
    List.dropLast_eq_take, List.length_take_of_le hle, List.take_take]
  congr 2
  omega

theorem shift_advance {k : ℕ} (h : cells.length = n) (hn : 0 < n) :
    shift n k (advance [] cells) = shift n (k + 1) cells := by
  have hadv : (advance [] cells).length = n :=
    (length_advance [] (List.ne_nil_of_length_pos (h ▸ hn))).trans h
  induction k with
  | zero => rw [shift_zero hadv, shift_succ h hn, shift_zero h]
  | succ k ih => rw [shift_succ hadv hn, ih, ← shift_succ h hn]

theorem perm_shift (n k : ℕ) (cells : List (List A)) :
    ((shift n k cells).flatten ++ (cells.drop (n - k)).flatten).Perm cells.flatten := by
  have hstay : (shift n k cells).flatten = (cells.take (n - k)).flatten := by
    rw [shift, List.take_append, List.length_replicate, List.flatten_append, List.take_replicate]
    simp
  rw [hstay, ← List.flatten_append, List.take_append_drop]

/-! ### Counting -/

section Count

variable {events : List A} {x : ℤ} (p : A → Bool)

/-- All events later than the time at which the oldest cell can have been begun are counted. -/
theorem Rolling.countP_le (h : Rolling time n w δ start cells lost)
    (hevents : events.Perm (cells.flatten ++ lost)) (hx : start + w - n * w ≤ x) :
    events.countP (fun a => p a && decide (x < time a)) ≤ cells.flatten.countP p := by
  have hlost : lost.countP (fun a => p a && decide (x < time a)) = 0 := by
    rw [List.countP_eq_zero]
    intro a ha
    have := h.lost a ha
    have hnot : ¬ x < time a := by omega
    simp [hnot]
  rw [hevents.countP_eq, List.countP_append, hlost, Nat.add_zero]
  refine List.countP_mono_left fun a _ ha => ?_
  rw [Bool.and_eq_true] at ha
  exact ha.1

/-- No events are counted that are older than `n` times the longest time between two shifts. -/
theorem Rolling.countP_flatten_le (h : Rolling time n w δ start cells lost)
    (hevents : events.Perm (cells.flatten ++ lost)) (hw : 0 ≤ w) (hδ : 0 ≤ δ)
    (hx : x ≤ start - δ - (n - 1) * (2 * w + δ)) :
    cells.flatten.countP p ≤ events.countP fun a => p a && decide (x ≤ time a) := by
  rw [hevents.countP_eq, List.countP_append]
  refine le_trans ?_ (Nat.le_add_right _ _)
  refine List.countP_mono_left fun a ha hp => ?_
  obtain ⟨cell, hcell, hmem⟩ := List.mem_flatten.mp ha
  obtain ⟨i, hi⟩ := List.mem_iff_getElem?.mp hcell
  have hold := h.old hi a hmem
  have hlt : i < n := h.length ▸ (List.getElem?_eq_some_iff.mp hi).1
  have hlt' : (i : ℤ) ≤ n - 1 := by omega
  have hle : x ≤ time a := by nlinarith
  simp [hp, hle]

end Count

end Frpc.Lib.Windows
