import Frpc.Basic
import Frpc.Lib.Words
import Mathlib.Tactic.Linarith

/-! # Smooth weighted round robin

`selector/weight.go`. `nextWeighted` adds to every server its weight, chooses the server with the
largest current weight, the first one if there are several, and takes the total of the weights from
it. The arithmetic is that of 64-bit integers (`int64`). The servers are distinct pointers and never
`nil`, so a list of records and an index into it model them. -/

namespace Frpc.Selectors.Weight

open Frpc.Basic Frpc.Lib.Words

/-- `type Weighted struct` -/
structure Weighted where
  server : Bytes
  weight : ℤ
  currentWeight : ℤ
  effectiveWeight : ℤ
deriving DecidableEq

/-- What the loop does to a server. -/
def Weighted.raise (w : Weighted) : Weighted :=
  { w with
    currentWeight := int64 (w.currentWeight + w.effectiveWeight)
    effectiveWeight :=
      if w.effectiveWeight < w.weight then int64 (w.effectiveWeight + 1) else w.effectiveWeight }

/-- `best == nil || w.CurrentWeight > best.CurrentWeight`; `best` is given by its index and its
current weight. -/
def better (best : Option (ℕ × ℤ)) (i : ℕ) (w : Weighted) : Option (ℕ × ℤ) :=
  match best with
  | none => some (i, w.currentWeight)
  | some (_, c) => if w.currentWeight > c then some (i, w.currentWeight) else best

/-- The loop, from the server with index `i` on: the servers afterwards, `total` and `best`. -/
def nextLoop : List Weighted → ℕ → ℤ → Option (ℕ × ℤ) → List Weighted × ℤ × Option (ℕ × ℤ)
  | [], _, total, best => ([], total, best)
  | w :: ws, i, total, best =>
    let (ws', total', best') :=
      nextLoop ws (i + 1) (int64 (total + w.effectiveWeight)) (better best i w.raise)
    (w.raise :: ws', total', best')

/-- `nextWeighted`: the index of the server that is chosen, and the servers afterwards. -/
def nextWeighted (servers : List Weighted) : Option ℕ × List Weighted :=
  match nextLoop servers 0 0 none with
  | (ws, _, none) => (none, ws)
  | (ws, total, some (i, _)) =>
    (some i, ws.modify i fun w => { w with currentWeight := int64 (w.currentWeight - total) })

/-! ### Whom it chooses -/

theorem better_isSome (best : Option (ℕ × ℤ)) (i : ℕ) (w : Weighted) :
    (better best i w).isSome := by
  unfold better
  split
  · rfl
  · split_ifs <;> rfl

theorem better_index {best : Option (ℕ × ℤ)} {i n : ℕ} {w : Weighted} (hn : i < n)
    (hbest : ∀ p ∈ best, p.1 < n) : ∀ p ∈ better best i w, p.1 < n := by
  unfold better
  split
  · rintro p ⟨⟩
    exact hn
  · split_ifs
    · rintro p ⟨⟩
      exact hn
    · exact hbest

theorem nextLoop_servers (ws : List Weighted) (i : ℕ) (total : ℤ) (best : Option (ℕ × ℤ)) :
    (nextLoop ws i total best).1.map (·.server) = ws.map (·.server) := by
  induction ws generalizing i total best with
  | nil => rfl
  | cons w ws ih => exact congrArg (w.server :: ·) (ih _ _ _)

/-- The loop ends with an index of the list, unless there was nothing to choose. -/
theorem nextLoop_best (ws : List Weighted) (i : ℕ) (total : ℤ) (best : Option (ℕ × ℤ))
    (hbest : ∀ p ∈ best, p.1 < i + ws.length) (hne : ws ≠ [] ∨ best.isSome) :
    ∃ p, (nextLoop ws i total best).2.2 = some p ∧ p.1 < i + ws.length := by
  induction ws generalizing i total best with
  | nil =>
    obtain ⟨p, hp⟩ := Option.isSome_iff_exists.mp (hne.resolve_left fun h => h rfl)
    exact ⟨p, hp, hbest p hp⟩
  | cons w ws ih =>
    rw [List.length_cons] at hbest ⊢
    have hnext := better_index (i := i) (w := w.raise) (by omega) hbest
    obtain ⟨p, hp, hlt⟩ := ih (i + 1) (int64 (total + w.effectiveWeight)) (better best i w.raise)
      (fun p hp => by have := hnext p hp; omega) (Or.inr (better_isSome ..))
    exact ⟨p, hp, by omega⟩

/-- **A server is chosen**, and the names stay. -/
theorem nextWeighted_spec {servers : List Weighted} (hne : servers ≠ []) :
    ∃ i ws, nextWeighted servers = (some i, ws) ∧ i < servers.length ∧
      ws.map (·.server) = servers.map (·.server) := by
  obtain ⟨⟨i, c⟩, hbest, hlt⟩ := nextLoop_best servers 0 0 none (by simp) (Or.inl hne)
  have hnames := nextLoop_servers servers 0 0 none
  rcases hloop : nextLoop servers 0 0 none with ⟨ws, total, best⟩
  rw [hloop] at hbest hnames
  obtain rfl : best = some (i, c) := hbest
  refine ⟨i, _, by rw [nextWeighted, hloop], by simpa using hlt, ?_⟩
  refine (List.ext_getElem? fun j => ?_).trans hnames
  rw [List.getElem?_map, List.getElem?_map, List.getElem?_modify]
  cases hj : ws[j]? with
  | none => rfl
  | some w => split_ifs <;> rfl

end Frpc.Selectors.Weight
