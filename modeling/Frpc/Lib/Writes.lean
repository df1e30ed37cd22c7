import Mathlib.Data.List.Infix

/-! # Last write wins

A record `S` with named fields, read by a getter and written by a setter for each. A call of a
setter is proper in a record if its own field then reads as the value written and every other field
reads as before. A sequence of calls is last-write-wins, after every one of its calls, exactly if
each of them is proper in the record it is made on. -/

namespace Frpc.Lib.Writes

variable {S F : Type*} {Val : F → Type*}

/-- The getters and the setters of a record. -/
structure Fields (S : Type*) {F : Type*} (Val : F → Type*) where
  get : (f : F) → S → Val f
  set : (f : F) → Val f → S → S

/-- A call of the setter of one field. -/
abbrev Call (Val : F → Type*) := (f : F) × Val f

namespace Fields

variable (R : Fields S Val)

/-- One call. -/
def call (s : S) (c : Call Val) : S := R.set c.1 c.2 s

/-- The calls of a list, one after another. -/
def run (calls : List (Call Val)) (s : S) : S := calls.foldl R.call s

/-- The call `c` sets its own field and leaves the others alone. -/
def Proper (s : S) (c : Call Val) : Prop :=
  R.get c.1 (R.call s c) = c.2 ∧ ∀ f, f ≠ c.1 → R.get f (R.call s c) = R.get f s

/-- Every call of the list meets `ok` in the record it is made on. -/
def Each (ok : S → Call Val → Prop) : S → List (Call Val) → Prop
  | _, [] => True
  | s, c :: calls => ok s c ∧ Each ok (R.call s c) calls

variable {R}

/-- A condition on calls may be replaced by one that says the same of each call of the list. -/
theorem each_congr {ok ok' : S → Call Val → Prop} {calls : List (Call Val)} {s : S}
    (h : ∀ t, ∀ c ∈ calls, (ok t c ↔ ok' t c)) : R.Each ok s calls ↔ R.Each ok' s calls := by
  induction calls generalizing s with
  | nil => exact Iff.rfl
  | cons c calls ih =>
    have hc := h s c List.mem_cons_self
    have hrest := @ih (R.call s c) fun t d hd => h t d (List.mem_cons_of_mem c hd)
    exact and_congr hc hrest

theorem run_invariant {α : Type*} {g : S → α} (hg : ∀ s c, g (R.call s c) = g s)
    (calls : List (Call Val)) (s : S) : g (R.run calls s) = g s := by
  induction calls generalizing s with
  | nil => rfl
  | cons c calls ih => exact (ih (R.call s c)).trans (hg s c)

end Fields

variable [DecidableEq F]

/-- Field `f`, which held `v`, after the call `c`. -/
def written (f : F) (v : Val f) (c : Call Val) : Val f := if h : c.1 = f then h ▸ c.2 else v

/-- The value of the last call that set `f`, `v` when there was none. -/
def last (f : F) (calls : List (Call Val)) (v : Val f) : Val f := calls.foldl (written f) v

@[simp]
theorem written_self (c : Call Val) (v : Val c.1) : written c.1 v c = c.2 := by simp [written]

theorem written_of_ne {f : F} {c : Call Val} (hf : f ≠ c.1) (v : Val f) : written f v c = v := by
  simp [written, Ne.symm hf]

namespace Fields

/-- Every field holds the value of the last call that set it. -/
def LastWriteWins (R : Fields S Val) (s : S) (calls : List (Call Val)) : Prop :=
  ∀ f, R.get f (R.run calls s) = last f calls (R.get f s)

variable {R : Fields S Val}

theorem proper_iff {s : S} {c : Call Val} :
    R.Proper s c ↔ ∀ f, R.get f (R.call s c) = written f (R.get f s) c := by
  constructor
  · rintro ⟨hown, hother⟩ f
    by_cases hf : f = c.1
    · subst hf
      rw [hown, written_self]
    · rw [hother f hf, written_of_ne hf]
  · intro h
    refine ⟨?_, fun f hf => ?_⟩
    · rw [h, written_self]
    · rw [h, written_of_ne hf]

theorem lastWriteWins_single {s : S} {c : Call Val} : R.LastWriteWins s [c] ↔ R.Proper s c :=
  proper_iff.symm

theorem lastWriteWins_cons {s : S} {c : Call Val} {calls : List (Call Val)} (hc : R.Proper s c) :
    R.LastWriteWins s (c :: calls) ↔ R.LastWriteWins (R.call s c) calls := by
  have hrun : R.run (c :: calls) s = R.run calls (R.call s c) := rfl
  have hlast : ∀ f, last f (c :: calls) (R.get f s) = last f calls (R.get f (R.call s c)) := by
    intro f
    rw [proper_iff.mp hc f]
    rfl
  unfold LastWriteWins
  simp only [hrun, hlast]

/-- **Last write wins**: after every call of the list, exactly if each call is proper where it is
made. -/
theorem lastWriteWins_iff {calls : List (Call Val)} {s : S} :
    (∀ made, made <+: calls → R.LastWriteWins s made) ↔ R.Each R.Proper s calls := by
  induction calls generalizing s with
  | nil =>
    refine ⟨fun _ => trivial, fun _ made hmade => ?_⟩
    rw [List.prefix_nil.mp hmade]
    exact fun f => rfl
  | cons c calls ih =>
    constructor
    · intro h
      have hc : R.Proper s c := lastWriteWins_single.mp (h [c] ⟨calls, rfl⟩)
      refine ⟨hc, ih.mp fun made hmade => ?_⟩
      exact (lastWriteWins_cons hc).mp (h (c :: made) (List.cons_prefix_cons.mpr ⟨rfl, hmade⟩))
    · rintro ⟨hc, hrest⟩ made hmade
      rcases made with _ | ⟨d, made⟩
      · exact fun f => rfl
      · obtain ⟨rfl, htail⟩ := List.cons_prefix_cons.mp hmade
        exact (lastWriteWins_cons hc).mpr (ih.mpr hrest made htail)

end Fields

end Frpc.Lib.Writes
