import Mathlib.Data.List.Basic
import Mathlib.Order.RelClasses
import Mathlib.Tactic.Common

/-! # Runs of a step function

A system is a partial step function `step : S → L → Option S`; the label chooses which party moves
and how, `none` says that the label is not enabled. `Reach step ok s t` says that `t` is reached
from `s` by a run all of whose steps satisfy the condition `ok` (a condition on the label and on the
state before the step). `exec` runs a list of labels. `Terminates` says that there is no infinite
run. `logged` keeps a log of what can be observed at each step. -/

namespace Frpc.Lib.Runs

variable {S L : Type*} {step : S → L → Option S} {ok : S → L → Prop} {s t u : S}

/-- States reached from `s` by steps that meet the condition `ok`. -/
inductive Reach (step : S → L → Option S) (ok : S → L → Prop) (s : S) : S → Prop
  | refl : Reach step ok s s
  | tail {t u : S} {l : L} (h : Reach step ok s t) (hok : ok t l) (hs : step t l = some u) :
      Reach step ok s u

/-- No condition on the steps. -/
def Any (_ : S) (_ : L) : Prop := True

/-- Run a list of labels. -/
def exec (step : S → L → Option S) (s : S) : List L → Option S
  | [] => some s
  | l :: ls => (step s l).bind fun t => exec step t ls

/-- **The invariant rule.** What holds at the start and is kept by every step of the run holds in
every state reached. -/
theorem Reach.invariant {P : S → Prop} (h : Reach step ok s t) (h0 : P s)
    (hstep : ∀ {t u l}, Reach step ok s t → P t → ok t l → step t l = some u → P u) : P t := by
  induction h with
  | refl => exact h0
  | tail hr hok hs ih => exact hstep hr ih hok hs

theorem Reach.mono {ok' : S → L → Prop} (hle : ∀ t l, ok t l → ok' t l) (h : Reach step ok s t) :
    Reach step ok' s t := by
  induction h with
  | refl => exact .refl
  | tail _ hok hs ih => exact .tail ih (hle _ _ hok) hs

theorem Reach.any (h : Reach step ok s t) : Reach step Any s t := h.mono fun _ _ _ => trivial

theorem Reach.trans (h : Reach step ok s t) (h' : Reach step ok t u) : Reach step ok s u := by
  induction h' with
  | refl => exact h
  | tail _ hok hs ih => exact .tail ih hok hs

theorem Reach.next {l : L} (h : Reach step Any s t) (hs : step t l = some u) : Reach step Any s u :=
  .tail h trivial hs

/-- **The simulation rule.** If every step of the run is matched by one step of another system, the
run is matched by a run of it. -/
theorem Reach.simulate {S' L' : Type*} {step' : S' → L' → Option S'} {ok' : S' → L' → Prop}
    {f : S → S'} (h : Reach step ok s t)
    (hsim : ∀ {t u l}, Reach step ok s t → ok t l → step t l = some u →
      ∃ l', ok' (f t) l' ∧ step' (f t) l' = some (f u)) : Reach step' ok' (f s) (f t) := by
  induction h with
  | refl => exact .refl
  | tail hr hok hs ih =>
    obtain ⟨l', hok', hs'⟩ := hsim hr hok hs
    exact .tail ih hok' hs'

theorem reach_of_labels :
    ∀ (ls : List L) {s t : S}, (∀ u, ∀ l ∈ ls, ok u l) → exec step s ls = some t → Reach step ok s t
  | [], s, t, _, h => by cases h; exact .refl
  | l :: ls, s, t, hok, h => by
    obtain ⟨r, hr, hrt⟩ := Option.bind_eq_some_iff.mp h
    have hl : Reach step ok s r := .tail .refl (hok s l List.mem_cons_self) hr
    exact hl.trans (reach_of_labels ls (fun u l' hl' => hok u l' (List.mem_cons_of_mem _ hl')) hrt)

theorem reach_of_exec (ls : List L) {s t : S} (h : exec step s ls = some t) : Reach step Any s t :=
  reach_of_labels ls (fun _ _ _ => trivial) h

/-- The labels that meet a condition which can be checked. -/
def guarded (step : S → L → Option S) (good : S → L → Bool) (s : S) (l : L) : Option S :=
  if good s l then step s l else none

/-- A run given by its labels, each of which is checked, is a run. -/
theorem reach_of_guarded {good : S → L → Bool} (hgood : ∀ u l, good u l = true → ok u l)
    (ls : List L) (h : exec (guarded step good) s ls = some t) : Reach step ok s t := by
  induction ls generalizing s with
  | nil =>
    cases h
    exact .refl
  | cons l ls ih =>
    obtain ⟨r, hr, hrt⟩ := Option.bind_eq_some_iff.mp h
    unfold guarded at hr
    split_ifs at hr with hl
    have hone : Reach step ok s r := .tail .refl (hgood s l hl) hr
    exact hone.trans (ih hrt)

/-! ### Runs that end -/

/-- There is no infinite run from `s` whose steps meet the condition `ok`. -/
def Terminates (step : S → L → Option S) (ok : S → L → Prop) (s : S) : Prop :=
  Acc (fun t u => ∃ l, ok u l ∧ step u l = some t) s

/-- **The measure rule.** If the steps keep an invariant and lower a measure, every run ends. -/
theorem terminates_of_measure {β : Type*} [LT β] [WellFoundedLT β] {I : S → Prop} (μ : S → β)
    (hstep : ∀ {t u l}, I t → ok t l → step t l = some u → I u ∧ μ u < μ t) (hs : I s) :
    Terminates step ok s := by
  generalize hb : μ s = b
  induction b using WellFoundedLT.induction generalizing s with
  | ind b ih =>
    subst hb
    refine ⟨s, ?_⟩
    rintro u ⟨l, hok, hu⟩
    obtain ⟨hi, hlt⟩ := hstep hs hok hu
    exact ih (μ u) hlt hi rfl

/-! ### Runs with a log -/

section Log

variable {O : Type*} {obs : S → L → S → List O}

/-- The system with a log: each step appends what `obs` sees of it. -/
def logged (step : S → L → Option S) (obs : S → L → S → List O) (x : S × List O) (l : L) :
    Option (S × List O) :=
  (step x.1 l).map fun t => (t, x.2 ++ obs x.1 l t)

theorem logged_eq_some {x y : S × List O} {l : L} :
    logged step obs x l = some y ↔ ∃ t, step x.1 l = some t ∧ y = (t, x.2 ++ obs x.1 l t) := by
  rw [logged, Option.map_eq_some_iff]
  simp only [eq_comm]

end Log

end Frpc.Lib.Runs
