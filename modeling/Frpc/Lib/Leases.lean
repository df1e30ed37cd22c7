import Mathlib.Algebra.Order.Ring.Int
import Mathlib.Tactic.Linarith

/-! # Leases that are renewed in rounds

A lease is granted once and then renewed in rounds. A round begins every `period`, and what is to be
done in it is done within `delay`. The grant lasts for `short`, a renewal for `long`. After a
renewal the next ones may fail, in at most `misses` rounds one after the other.

Such a lease does not run out if the terms are ample (`Covered.lt_expiry`): the grant lasts for a
round and a delay, and a renewal for all the rounds that may fail, one more, and a delay. -/

namespace Frpc.Lib.Leases

/-- The terms of a lease. -/
structure Terms where
  period : ℤ
  delay : ℤ
  short : ℤ
  long : ℤ
  misses : ℕ

/-- The lease outlasts the delays. -/
structure Terms.Ample (t : Terms) : Prop where
  delay_nonneg : 0 ≤ t.delay
  delay_lt : t.delay < t.period
  short_lt : t.period + t.delay < t.short
  long_lt : (t.misses + 1) * t.period + t.delay < t.long

instance (t : Terms) : Decidable t.Ample :=
  decidable_of_iff (0 ≤ t.delay ∧ t.delay < t.period ∧ t.period + t.delay < t.short ∧
    (t.misses + 1) * t.period + t.delay < t.long)
    ⟨fun h => ⟨h.1, h.2.1, h.2.2.1, h.2.2.2⟩, fun h => ⟨h.1, h.2, h.3, h.4⟩⟩

/-- The clock, when the next round begins at `next`; a round that is `busy` is not over. -/
structure Timely (t : Terms) (now next : ℤ) (busy : Bool) : Prop where
  begun : next - t.period ≤ now
  ahead : now ≤ next
  prompt : busy = true → now ≤ next - t.period + t.delay

/-- What is left of a lease at the beginning of a round. It has only been granted (`none`), or `k`
rounds have failed since the last renewal. -/
def Terms.credit (t : Terms) : Option ℕ → ℤ
  | none => t.short
  | some k => t.long - k * t.period

/-- The lease covers the current round, which began a period before `next`, and the round before it
if its renewal is still `due`. -/
structure Covered (t : Terms) (next : ℤ) (due : Bool) (missed : Option ℕ) (expiry : ℤ) : Prop where
  few : ∀ k ∈ missed, k ≤ t.misses
  covers : next - t.period + t.credit missed ≤ expiry + if due then t.period else 0

variable {t : Terms} {now next expiry : ℤ} {due due' busy busy' : Bool} {missed : Option ℕ}

theorem Terms.Ample.period_nonneg (ht : t.Ample) : 0 ≤ t.period :=
  ht.delay_nonneg.trans ht.delay_lt.le

theorem Terms.Ample.lt_credit (ht : t.Ample) (hfew : ∀ k ∈ missed, k ≤ t.misses) :
    t.period + t.delay < t.credit missed := by
  obtain ⟨hdelay, hdelay', hshort, hlong⟩ := ht
  cases missed with
  | none => exact hshort
  | some k =>
    have hk : (k : ℤ) ≤ t.misses := by exact_mod_cast hfew k rfl
    have hmul : k * t.period ≤ t.misses * t.period := mul_le_mul_of_nonneg_right hk (by omega)
    show t.period + t.delay < t.long - k * t.period
    linarith

/-- **A lease that is covered has not run out.** -/
theorem Covered.lt_expiry (h : Covered t next due missed expiry) (ht : t.Ample)
    (hclock : Timely t now next busy) (hbusy : due = true → busy = true) : now < expiry := by
  have hcredit := ht.lt_credit h.few
  have hdelay := ht.delay_nonneg
  have hcovers := h.covers
  cases due with
  | false =>
    have hahead := hclock.ahead
    rw [if_neg Bool.false_ne_true] at hcovers
    omega
  | true =>
    have hprompt := hclock.prompt (hbusy rfl)
    rw [if_pos rfl] at hcovers
    omega

theorem Timely.mono (h : Timely t now next busy) (hle : busy' = true → busy = true) :
    Timely t now next busy' :=
  ⟨h.begun, h.ahead, fun hbusy => h.prompt (hle hbusy)⟩

/-- The clock, when the first round is to begin after a period. -/
theorem timely_start (hperiod : 0 ≤ t.period) : Timely t now (now + t.period) false :=
  ⟨by omega, by omega, by rintro ⟨⟩⟩

theorem Timely.fire (h : Timely t now next busy) (ht : t.Ample) (hnow : next ≤ now) :
    Timely t now (next + t.period) true := by
  obtain ⟨hdelay, hdelay', -, -⟩ := ht
  have hahead := h.ahead
  exact ⟨by omega, by omega, fun _ => by omega⟩

theorem Timely.idle (h : Timely t now next busy) (ht : t.Ample) (hnow : next ≤ now) :
    busy = false := by
  by_contra hbusy
  have hprompt := h.prompt (by simpa using hbusy)
  have hdelay := ht.delay_lt
  omega

theorem Covered.fire (h : Covered t next false missed expiry) :
    Covered t (next + t.period) true missed expiry := by
  have hcovers := h.covers
  rw [if_neg Bool.false_ne_true] at hcovers
  refine ⟨h.few, ?_⟩
  rw [if_pos rfl]
  omega

/-- The lease is renewed, or lasts longer for another reason. -/
theorem Covered.extend (h : Covered t next due missed expiry) {expiry' : ℤ}
    (hle : expiry ≤ expiry') :
    Covered t next due missed expiry' :=
  ⟨h.few, h.covers.trans (by omega)⟩

theorem covered_renew (ht : t.Ample) (hclock : Timely t now next busy) :
    Covered t next due (some 0) (now + t.long) := by
  obtain ⟨hdelay, hdelay', -, -⟩ := ht
  have hbegun := hclock.begun
  refine ⟨by simp, ?_⟩
  show next - t.period + (t.long - (0 : ℕ) * t.period) ≤ _
  split_ifs <;> omega

theorem covered_grant (ht : t.Ample) (hclock : Timely t now next busy) :
    Covered t next due none (now + t.short) := by
  obtain ⟨hdelay, hdelay', -, -⟩ := ht
  have hbegun := hclock.begun
  refine ⟨by simp, ?_⟩
  show next - t.period + t.short ≤ _
  split_ifs <;> omega

theorem Covered.miss {k : ℕ} (h : Covered t next due (some k) expiry) (ht : t.Ample)
    (hk : k < t.misses) :
    Covered t next due' (some (k + 1)) expiry := by
  obtain ⟨hdelay, hdelay', -, -⟩ := ht
  have hcovers : next - t.period + (t.long - k * t.period) ≤ expiry + if due then t.period else 0 :=
    h.covers
  have hnext : next - t.period + (t.long - (k + 1 : ℕ) * t.period) ≤ expiry := by
    push_cast
    split_ifs at hcovers <;> linarith
  refine ⟨?_, hnext.trans ?_⟩
  · rintro _ ⟨⟩
    exact hk
  · split_ifs <;> omega

end Frpc.Lib.Leases
