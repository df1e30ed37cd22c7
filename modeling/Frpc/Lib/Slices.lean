import Mathlib.Data.List.Basic
import Mathlib.Tactic.Common

/-! # Slices of an array, with bounds checks

A slice is a window on an array: the elements from its start up to its capacity, and how many of
them it shows. Reslicing `s[lo:hi]` may reach past the length, up to the capacity, and faults
outside of it. `copyAt buf lo hi src` is `copy(buf[lo:hi], src)` on a buffer that is known to nobody
else: it overwrites as many elements as both sides have. -/

namespace Frpc.Lib.Slices

/-- What stops a computation at run time: an index out of bounds, or a loop that was cut off. -/
inductive Fault where
  | bounds
  | fuel
deriving DecidableEq, Repr

@[simp] theorem ok_bind {ε α β : Type} (a : α) (f : α → Except ε β) : (Except.ok a >>= f) = f a :=
  rfl

@[simp] theorem error_bind {ε α β : Type} (e : ε) (f : α → Except ε β) :
    ((Except.error e : Except ε α) >>= f) = .error e := rfl

theorem bind_eq_ok {ε α β : Type} {x : Except ε α} {f : α → Except ε β} {b : β} :
    (x >>= f) = .ok b ↔ ∃ a, x = .ok a ∧ f a = .ok b := by
  cases x with
  | error e =>
    rw [error_bind]
    exact ⟨fun h => (by cases h), fun ⟨_, h, _⟩ => (by cases h)⟩
  | ok a =>
    rw [ok_bind]
    exact ⟨fun h => ⟨a, rfl, h⟩, fun ⟨_, h, hf⟩ => by cases h; exact hf⟩

/-- A slice: the array from its first element to its capacity, and its length. -/
structure Slice (α : Type) where
  back : List α
  len : ℕ
  len_le : len ≤ back.length

namespace Slice

variable {α : Type}

/-- A slice over a whole array. -/
def ofList (l : List α) : Slice α := ⟨l, l.length, Nat.le_refl _⟩

/-- The elements a slice shows. -/
def toList (s : Slice α) : List α := s.back.take s.len

/-- The slice expression `s[lo:hi]`. -/
def slice (s : Slice α) (lo hi : ℕ) : Except Fault (Slice α) :=
  if h : lo ≤ hi ∧ hi ≤ s.back.length then
    .ok ⟨s.back.drop lo, hi - lo, by rw [List.length_drop]; omega⟩
  else .error .bounds

@[simp] theorem ofList_back (l : List α) : (ofList l).back = l := rfl

theorem slice_ok {s : Slice α} {lo hi : ℕ} (h1 : lo ≤ hi) (h2 : hi ≤ s.back.length) :
    s.slice lo hi = .ok ⟨s.back.drop lo, hi - lo, by rw [List.length_drop]; omega⟩ :=
  dif_pos ⟨h1, h2⟩

theorem slice_fault {s : Slice α} {lo hi : ℕ} (h : ¬ (lo ≤ hi ∧ hi ≤ s.back.length)) :
    s.slice lo hi = .error .bounds := dif_neg h

/-- **Cutting out `b`**: what follows stays within the capacity. -/
theorem slice_append {s : Slice α} {a b r : List α} {lo hi : ℕ} (hs : s.back = a ++ (b ++ r))
    (ha : a.length = lo) (hh : hi = lo + b.length) :
    s.slice lo hi = .ok ⟨b ++ r, b.length, (List.prefix_append b r).length_le⟩ := by
  rw [slice_ok (by omega) (by rw [hs]; simp; omega)]
  congr 2
  · rw [hs, List.drop_left' ha]
  · omega

end Slice

/-- `copy(buf[lo:hi], src)`. -/
def copyAt {α : Type} (buf : List α) (lo hi : ℕ) (src : List α) : Except Fault (List α) :=
  if lo ≤ hi ∧ hi ≤ buf.length then
    .ok (buf.take lo ++ src.take (hi - lo) ++ buf.drop (lo + min (hi - lo) src.length))
  else .error .bounds

/-- **Copying behind what is already written**: `a` stays, `src` follows, the rest of the buffer is
as it was. -/
theorem copyAt_replicate {α : Type} {a src : List α} {z : α} {k lo hi : ℕ} (ha : a.length = lo)
    (hs : lo + src.length ≤ hi) (hk : hi ≤ lo + k) :
    copyAt (a ++ List.replicate k z) lo hi src =
      .ok (a ++ src ++ List.replicate (k - src.length) z) := by
  unfold copyAt
  rw [if_pos ⟨by omega, by simp; omega⟩, List.take_left' ha, List.take_of_length_le (by omega),
    Nat.min_eq_right (by omega), ← ha, List.drop_append]
  simp

theorem copyAt_full {α : Type} {a src : List α} {z : α} {k lo hi : ℕ} (ha : a.length = lo)
    (hk : k = src.length) (hh : hi = lo + k) :
    copyAt (a ++ List.replicate k z) lo hi src = .ok (a ++ src) := by
  rw [copyAt_replicate ha (by omega) (by omega), hk]
  simp

theorem copyAt_bind {α β : Type} {a src : List α} {z : α} {k lo hi : ℕ} (ha : a.length = lo)
    (hs : lo + src.length ≤ hi) (hk : hi ≤ lo + k) (f : List α → Except Fault β) :
    (copyAt (a ++ List.replicate k z) lo hi src >>= f) =
      f (a ++ src ++ List.replicate (k - src.length) z) := by
  rw [copyAt_replicate ha hs hk, ok_bind]

end Frpc.Lib.Slices
