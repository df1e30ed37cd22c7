import Frpc.Lib.Runs

/-! # A custody ledger

Items are issued into a table under a key, taken out of it by hands, and settled: each settlement
appends a value to the account of the item and leaves that value in its cell. A ledger is what a
table of outstanding requests looks like when several parties may remove an entry and answer it.

An item is in the table under one key, or in one hand, or in neither (`Custody`), and once it is in
neither it never comes back (`Absent.apply`). If whoever settles an item has removed it first, an
item is settled at most once (`Once`); if items are issued under free keys only, no item is lost
(`Covered`). The events `mark` and `markAll` settle items and leave them where they are. -/

namespace Frpc.Lib.Ledgers

open Frpc.Lib.Runs

variable {K I H V : Type*}

/-- The table, the hands, the account and the cell of every item, and which items were ever
issued. -/
@[ext] structure Ledger (K I H V : Type*) where
  table : K → Option I
  hand : H → Option I
  settled : I → List V
  cell : I → V
  issued : I → Prop

/-- What can happen to a ledger. -/
inductive Event (K I H V : Type*) where
  /-- A new item enters the table, over whatever stood there. -/
  | issue (k : K) (i : I)
  /-- A new item is settled and never enters the table. -/
  | refuse (i : I) (v : V)
  /-- The entry of `k`, if there is one, moves to the hand `h`. -/
  | take (k : K) (h : H)
  /-- The item in the hand `h`, if there is one, is settled and leaves it. -/
  | settle (h : H) (v : V)
  /-- Everything in the table is settled and removed. -/
  | flush (v : V)
  /-- An item is settled where it is. -/
  | mark (i : I) (v : V)
  /-- Everything in the table is settled and stays there. -/
  | markAll (v : V)
  /-- Nothing. -/
  | skip

namespace Ledger

variable (L : Ledger K I H V)

/-- The item stands in the table. -/
def InTable (i : I) : Prop := ∃ k, L.table k = some i

/-- The item is in a hand. -/
def InHand (i : I) : Prop := ∃ h, L.hand h = some i

/-- The item is in nobody's custody. -/
def Absent (i : I) : Prop := ¬ L.InTable i ∧ ¬ L.InHand i

open Classical in
/-- Settle the items that satisfy `p`. -/
noncomputable def pay (p : I → Prop) (v : V) : Ledger K I H V :=
  { L with
    settled := fun i => if p i then L.settled i ++ [v] else L.settled i
    cell := fun i => if p i then v else L.cell i }

theorem pay_cases (L : Ledger K I H V) (p : I → Prop) (v : V) (i : I) :
    (¬ p i ∧ (L.pay p v).settled i = L.settled i ∧ (L.pay p v).cell i = L.cell i) ∨
      (p i ∧ (L.pay p v).settled i = L.settled i ++ [v] ∧ (L.pay p v).cell i = v) := by
  by_cases h : p i <;> simp [pay, h]

/-- The ledger with nothing in it. -/
def empty (v : V) : Ledger K I H V :=
  ⟨fun _ => none, fun _ => none, fun _ => [], fun _ => v, fun _ => False⟩

/-- Every item is in one place, and only issued items are anywhere or have an account. -/
structure Custody (L : Ledger K I H V) : Prop where
  table_inj : ∀ {k k' i}, L.table k = some i → L.table k' = some i → k = k'
  hand_inj : ∀ {h h' i}, L.hand h = some i → L.hand h' = some i → h = h'
  disjoint : ∀ {k h i}, L.table k = some i → L.hand h ≠ some i
  issued_table : ∀ {k i}, L.table k = some i → L.issued i
  issued_hand : ∀ {h i}, L.hand h = some i → L.issued i
  issued_settled : ∀ {i}, L.settled i ≠ [] → L.issued i

theorem Custody.empty (v : V) : (empty v : Ledger K I H V).Custody := by
  constructor <;> simp [Ledger.empty]

variable [DecidableEq K] [DecidableEq H]

/-- The ledger after an event. -/
noncomputable def apply : Event K I H V → Ledger K I H V
  | .issue k i =>
    { L with table := Function.update L.table k (some i), issued := fun j => j = i ∨ L.issued j }
  | .refuse i v => { L.pay (· = i) v with issued := fun j => j = i ∨ L.issued j }
  | .take k h =>
    { L with table := Function.update L.table k none, hand := Function.update L.hand h (L.table k) }
  | .settle h v => { L.pay (L.hand h = some ·) v with hand := Function.update L.hand h none }
  | .flush v => { L.pay L.InTable v with table := fun _ => none }
  | .mark i v => L.pay (· = i) v
  | .markAll v => L.pay L.InTable v
  | .skip => L

/-- Items are issued once, a hand takes one item at a time, and only issued items are marked. -/
def Enabled : Event K I H V → Prop
  | .issue _ i => ¬ L.issued i
  | .refuse i _ => ¬ L.issued i
  | .take _ h => L.hand h = none
  | .mark i _ => L.issued i
  | _ => True

open Classical in
/-- The ledger as a system. -/
noncomputable def step (L : Ledger K I H V) (e : Event K I H V) : Option (Ledger K I H V) :=
  if L.Enabled e then some (L.apply e) else none

theorem step_eq_some {L L' : Ledger K I H V} {e : Event K I H V} :
    L.step e = some L' ↔ L.Enabled e ∧ L.apply e = L' := by
  unfold step
  split_ifs with h <;> simp [h]

section Step

variable {L} {L' : Ledger K I H V} {e : Event K I H V} {i : I}

/-! ### What one event does -/

theorem table_apply {k : K} (h : (L.apply e).table k = some i) :
    (L.table k = some i ∧ (∀ h, e ≠ .take k h) ∧ ∀ v, e ≠ .flush v) ∨ e = .issue k i := by
  cases e with
  | issue k' i' =>
    simp only [apply, Function.update_apply] at h
    split_ifs at h with hk
    · right
      cases h
      rw [hk]
    · exact Or.inl ⟨h, by simp, by simp⟩
  | take k' h' =>
    simp only [apply, Function.update_apply] at h
    split_ifs at h with hk
    refine Or.inl ⟨h, fun h' he => hk ?_, by simp⟩
    cases he
    rfl
  | flush v => simp [apply] at h
  | _ => exact Or.inl ⟨h, by simp, by simp⟩

theorem hand_apply {h : H} (hh : (L.apply e).hand h = some i) :
    (L.hand h = some i ∧ ∀ v, e ≠ .settle h v) ∨ ∃ k, e = .take k h ∧ L.table k = some i := by
  cases e with
  | take k' h' =>
    simp only [apply, Function.update_apply] at hh
    split_ifs at hh with he
    · exact Or.inr ⟨k', by rw [he], hh⟩
    · exact Or.inl ⟨hh, by simp⟩
  | settle h' v =>
    simp only [apply, Function.update_apply] at hh
    split_ifs at hh with he
    refine Or.inl ⟨hh, fun v' hv => he ?_⟩
    cases hv
    rfl
  | _ => exact Or.inl ⟨hh, by simp⟩

theorem issued_apply : (L.apply e).issued i ↔
    L.issued i ∨ (∃ k, e = .issue k i) ∨ ∃ v, e = .refuse i v := by
  cases e with
  | issue k i' =>
    simp only [apply, Event.issue.injEq, reduceCtorEq, exists_false, or_false]
    constructor
    · rintro (rfl | h)
      · exact Or.inr ⟨k, rfl, rfl⟩
      · exact Or.inl h
    · rintro (h | ⟨_, _, rfl⟩)
      · exact Or.inr h
      · exact Or.inl rfl
  | refuse i' v =>
    simp only [apply, Event.refuse.injEq, reduceCtorEq, exists_false, false_or]
    constructor
    · rintro (rfl | h)
      · exact Or.inr ⟨v, rfl, rfl⟩
      · exact Or.inl h
    · rintro (h | ⟨_, rfl, _⟩)
      · exact Or.inr h
      · exact Or.inl rfl
  | _ => simp [apply, pay]

/-- The event settles the item `i` with `v`. -/
def Settles (L : Ledger K I H V) (e : Event K I H V) (i : I) (v : V) : Prop :=
  e = .refuse i v ∨ (∃ h, e = .settle h v ∧ L.hand h = some i) ∨ (e = .flush v ∧ L.InTable i) ∨
    e = .mark i v ∨ (e = .markAll v ∧ L.InTable i)

/-- The account of an item and its cell change together, and only when the event settles the
item. -/
theorem settled_apply (L : Ledger K I H V) (e : Event K I H V) (i : I) :
    ((L.apply e).settled i = L.settled i ∧ (L.apply e).cell i = L.cell i) ∨
      ∃ v, L.Settles e i v ∧ (L.apply e).settled i = L.settled i ++ [v] ∧
        (L.apply e).cell i = v := by
  cases e with
  | issue k i' => exact Or.inl ⟨rfl, rfl⟩
  | take k h => exact Or.inl ⟨rfl, rfl⟩
  | skip => exact Or.inl ⟨rfl, rfl⟩
  | refuse i' v =>
    rcases L.pay_cases (· = i') v i with ⟨-, h⟩ | ⟨rfl, h⟩
    · exact Or.inl h
    · exact Or.inr ⟨v, Or.inl rfl, h⟩
  | settle h' v =>
    rcases L.pay_cases (L.hand h' = some ·) v i with ⟨-, h⟩ | ⟨hp, h⟩
    · exact Or.inl h
    · exact Or.inr ⟨v, Or.inr (Or.inl ⟨h', rfl, hp⟩), h⟩
  | flush v =>
    rcases L.pay_cases L.InTable v i with ⟨-, h⟩ | ⟨hp, h⟩
    · exact Or.inl h
    · exact Or.inr ⟨v, Or.inr (Or.inr (Or.inl ⟨rfl, hp⟩)), h⟩
  | mark i' v =>
    rcases L.pay_cases (· = i') v i with ⟨-, h⟩ | ⟨rfl, h⟩
    · exact Or.inl h
    · exact Or.inr ⟨v, Or.inr (Or.inr (Or.inr (Or.inl rfl))), h⟩
  | markAll v =>
    rcases L.pay_cases L.InTable v i with ⟨-, h⟩ | ⟨hp, h⟩
    · exact Or.inl h
    · exact Or.inr ⟨v, Or.inr (Or.inr (Or.inr (Or.inr ⟨rfl, hp⟩))), h⟩

theorem Custody.issued_of_settles {v : V} (hc : L.Custody) (hen : L.Enabled e)
    (h : L.Settles e i v) :
    (L.apply e).issued i := by
  rw [issued_apply]
  rcases h with rfl | ⟨h, rfl, hh⟩ | ⟨rfl, k, hk⟩ | rfl | ⟨rfl, k, hk⟩
  · exact Or.inr (Or.inr ⟨v, rfl⟩)
  · exact Or.inl (hc.issued_hand hh)
  · exact Or.inl (hc.issued_table hk)
  · exact Or.inl hen
  · exact Or.inl (hc.issued_table hk)

/-! ### Custody is kept -/

theorem Custody.apply (hc : L.Custody) (hen : L.Enabled e) : (L.apply e).Custody where
  table_inj := by
    intro k k' i hk hk'
    rcases table_apply hk with ⟨h1, -⟩ | rfl <;> rcases table_apply hk' with ⟨h2, -⟩ | he
    · exact hc.table_inj h1 h2
    · subst he
      exact absurd (hc.issued_table h1) hen
    · exact absurd (hc.issued_table h2) hen
    · cases he
      rfl
  hand_inj := by
    intro h h' i hh hh'
    rcases hand_apply hh with ⟨hh, -⟩ | ⟨k, rfl, hk⟩ <;>
      rcases hand_apply hh' with ⟨hh', -⟩ | ⟨k', he, hk'⟩
    · exact hc.hand_inj hh hh'
    · exact absurd hh (hc.disjoint hk')
    · exact absurd hh' (hc.disjoint hk)
    · cases he
      rfl
  disjoint := by
    intro k h i hk hh
    rcases table_apply hk with ⟨hk, hnt, -⟩ | rfl <;> rcases hand_apply hh with ⟨hh, -⟩
      | ⟨k', he, hk'⟩
    · exact hc.disjoint hk hh
    · rw [hc.table_inj hk' hk] at he
      exact hnt h he
    · exact hen (hc.issued_hand hh)
    · cases he
  issued_table := by
    intro k i hk
    rw [issued_apply]
    rcases table_apply hk with ⟨hk, -⟩ | rfl
    · exact Or.inl (hc.issued_table hk)
    · exact Or.inr (Or.inl ⟨k, rfl⟩)
  issued_hand := by
    intro h i hh
    rw [issued_apply]
    rcases hand_apply hh with ⟨hh, -⟩ | ⟨k, -, hk⟩
    · exact Or.inl (hc.issued_hand hh)
    · exact Or.inl (hc.issued_table hk)
  issued_settled := by
    intro i hi
    rcases settled_apply L e i with ⟨hs, -⟩ | ⟨v, hv, -⟩
    · rw [hs] at hi
      exact issued_apply.mpr (Or.inl (hc.issued_settled hi))
    · exact hc.issued_of_settles hen hv

theorem Absent.apply (ha : L.Absent i) (hi : L.issued i) (hen : L.Enabled e) :
    (L.apply e).Absent i := by
  refine ⟨?_, ?_⟩
  · rintro ⟨k, hk⟩
    rcases table_apply hk with ⟨hk, -⟩ | rfl
    · exact ha.1 ⟨k, hk⟩
    · exact hen hi
  · rintro ⟨h, hh⟩
    rcases hand_apply hh with ⟨hh, -⟩ | ⟨k, -, hk⟩
    · exact ha.2 ⟨h, hh⟩
    · exact ha.1 ⟨k, hk⟩

/-! ### At most one settlement -/

/-- Who settles has removed the item first. -/
def Removes (L : Ledger K I H V) : Event K I H V → Prop
  | .mark _ _ => False
  | .markAll _ => ∀ k, L.table k = none
  | _ => True

/-- A settled item is in nobody's custody, was settled once, and its cell still holds the value. -/
def Once (L : Ledger K I H V) : Prop :=
  ∀ i, L.settled i ≠ [] → L.Absent i ∧ (L.settled i).length ≤ 1 ∧ ∀ v ∈ L.settled i, L.cell i = v

/-- An item that is settled by someone who removed it was in custody, or is new, and then it is
gone. -/
theorem Custody.absent_of_settles {v : V} (hc : L.Custody) (hen : L.Enabled e) (hr : L.Removes e)
    (h : L.Settles e i v) : (L.apply e).Absent i ∧ (¬ L.Absent i ∨ ¬ L.issued i) := by
  have hnot : ∀ k, L.table k = some i → ∀ h, (L.apply e).hand h = some i → (∀ k h, e ≠ .take k h) →
      False := by
    intro k hk h hh hne
    rcases hand_apply hh with ⟨hh, -⟩ | ⟨k', he, -⟩
    · exact hc.disjoint hk hh
    · exact hne k' h he
  rcases h with rfl | ⟨h, rfl, hh⟩ | ⟨rfl, k, hk⟩ | rfl | ⟨rfl, k, hk⟩
  · refine ⟨⟨?_, ?_⟩, Or.inr hen⟩
    · rintro ⟨k, hk⟩
      exact hen (hc.issued_table (k := k) hk)
    · rintro ⟨h, hh⟩
      exact hen (hc.issued_hand (h := h) hh)
  · refine ⟨⟨?_, ?_⟩, Or.inl fun ha => ha.2 ⟨h, hh⟩⟩
    · rintro ⟨k, hk⟩
      exact hc.disjoint (k := k) hk hh
    · rintro ⟨h', hh'⟩
      rcases hand_apply hh' with ⟨hh', hne⟩ | ⟨k, he, -⟩
      · exact hne v (by rw [hc.hand_inj hh' hh])
      · cases he
  · refine ⟨⟨?_, ?_⟩, Or.inl fun ha => ha.1 ⟨k, hk⟩⟩
    · rintro ⟨k', hk'⟩
      cases hk'
    · rintro ⟨h, hh⟩
      exact hnot k hk h hh (by simp)
  · exact absurd hr not_false
  · exact absurd hk (by rw [hr k]; simp)

theorem Once.apply (ho : L.Once) (hc : L.Custody) (hen : L.Enabled e) (hr : L.Removes e) :
    (L.apply e).Once := by
  intro i hi
  rcases settled_apply L e i with ⟨hs, hcell⟩ | ⟨v, hv, hs, hcell⟩
  · rw [hs] at hi ⊢
    rw [hcell]
    exact ⟨(ho i hi).1.apply (hc.issued_settled hi) hen, (ho i hi).2⟩
  · obtain ⟨habs, hbefore⟩ := hc.absent_of_settles hen hr hv
    have hnil : L.settled i = [] := by
      by_contra hne
      rcases hbefore with hb | hb
      · exact hb (ho i hne).1
      · exact hb (hc.issued_settled hne)
    rw [hs, hcell, hnil]
    exact ⟨habs, by simp, by simp⟩

/-- **At most once.** -/
theorem once_of_reach {v : V} (h : Reach step Removes (Ledger.empty v) L) : L.Once := by
  have hboth : L.Custody ∧ L.Once := by
    refine h.invariant (P := fun L => L.Custody ∧ L.Once) ⟨.empty v, fun i hi => absurd rfl hi⟩ ?_
    rintro t u e - ⟨hc, ho⟩ hr hs
    obtain ⟨hen, rfl⟩ := step_eq_some.mp hs
    exact ⟨hc.apply hen, ho.apply hc hen hr⟩
  exact hboth.2

/-! ### Nothing is lost -/

/-- Items are issued under free keys. -/
def Free (L : Ledger K I H V) : Event K I H V → Prop
  | .issue k _ => L.table k = none
  | _ => True

/-- Every issued item is in the table, in a hand, or settled. -/
def Covered (L : Ledger K I H V) : Prop :=
  ∀ i, L.issued i → L.InTable i ∨ L.InHand i ∨ L.settled i ≠ []

theorem settled_mono (L : Ledger K I H V) (e : Event K I H V) {i : I} (h : L.settled i ≠ []) :
    (L.apply e).settled i ≠ [] := by
  rcases settled_apply L e i with ⟨hs, -⟩ | ⟨v, -, hs, -⟩ <;> rw [hs]
  · exact h
  · simp

theorem covered_of_table {k : K} (hk : L.table k = some i) (hf : L.Free e) :
    (L.apply e).InTable i ∨ (L.apply e).InHand i ∨ (L.apply e).settled i ≠ [] := by
  cases e with
  | issue k' i' =>
    have hne : k ≠ k' := by
      rintro rfl
      rw [hf] at hk
      cases hk
    exact Or.inl ⟨k, by simp [Ledger.apply, hne, hk]⟩
  | take k' h =>
    by_cases hkk : k = k'
    · exact Or.inr (Or.inl ⟨h, by simp [Ledger.apply, ← hkk, hk]⟩)
    · exact Or.inl ⟨k, by simp [Ledger.apply, hkk, hk]⟩
  | flush v =>
    rcases L.pay_cases L.InTable v i with ⟨hn, -⟩ | ⟨-, hs, -⟩
    · exact absurd ⟨k, hk⟩ hn
    · exact Or.inr (Or.inr (by rw [show (L.apply (.flush v)).settled i = _ from hs]; simp))
  | _ => exact Or.inl ⟨k, hk⟩

theorem covered_of_hand {h : H} (hh : L.hand h = some i) (hen : L.Enabled e) :
    (L.apply e).InHand i ∨ (L.apply e).settled i ≠ [] := by
  cases e with
  | take k h' =>
    have hne : h ≠ h' := by
      rintro rfl
      rw [show L.hand h = none from hen] at hh
      cases hh
    exact Or.inl ⟨h, by simp [Ledger.apply, hne, hh]⟩
  | settle h' v =>
    by_cases hhh : h = h'
    · rcases L.pay_cases (L.hand h' = some ·) v i with ⟨hn, -⟩ | ⟨-, hs, -⟩
      · exact absurd (hhh ▸ hh) hn
      · exact Or.inr (by rw [show (L.apply (.settle h' v)).settled i = _ from hs]; simp)
    · exact Or.inl ⟨h, by simp [Ledger.apply, hhh, hh]⟩
  | _ => exact Or.inl ⟨h, hh⟩

/-- **Nothing is lost.** -/
theorem Covered.apply (hcov : L.Covered) (hen : L.Enabled e) (hf : L.Free e) :
    (L.apply e).Covered := by
  intro i hi
  rcases issued_apply.mp hi with hi | ⟨k, rfl⟩ | ⟨v, rfl⟩
  · rcases hcov i hi with ⟨k, hk⟩ | ⟨h, hh⟩ | hs
    · exact covered_of_table hk hf
    · exact Or.inr (covered_of_hand hh hen)
    · exact Or.inr (Or.inr (settled_mono L e hs))
  · exact Or.inl ⟨k, by simp [Ledger.apply]⟩
  · exact Or.inr (Or.inr (by simp [Ledger.apply, pay]))

end Step

end Ledger

end Frpc.Lib.Ledgers
