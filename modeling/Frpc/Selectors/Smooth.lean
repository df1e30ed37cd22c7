import Frpc.Lib.Shares
import Frpc.Selectors.Weight

/-! # The shares of smooth weighted round robin

`nextWeighted` shares its calls as `Frpc.Lib.Shares` shares turns: the current weights are the
credits, and as long as the number of servers times the total of the weights is an `int`, no
operation overflows (`nextWeighted_round`). So the choices of any number of calls are turns
(`calls_turns`), and what holds for turns holds for them (`smooth_round_robin`). -/

namespace Frpc.Selectors.Smooth

open Frpc.Basic Frpc.Lib.Shares Frpc.Lib.Words Frpc.Selectors.Weight

/-- `k` calls of `nextWeighted`: whom they choose, and the servers afterwards. -/
def calls : ℕ → List Weighted → List (Option ℕ) × List Weighted
  | 0, ws => ([], ws)
  | k + 1, ws =>
    let (chosen, ws) := calls k ws
    let (i, ws) := nextWeighted ws
    (chosen ++ [i], ws)

/-! ### One call -/

theorem nextLoop_fst (ws : List Weighted) (i : ℕ) (total : ℤ) (best : Option (ℕ × ℤ)) :
    (nextLoop ws i total best).1 = ws.map Weighted.raise := by
  induction ws generalizing i total best with
  | nil => rfl
  | cons w ws ih => exact congrArg (w.raise :: ·) (ih _ _ _)

theorem nextLoop_total {ws : List Weighted} (hw : ∀ w ∈ ws, 0 ≤ w.effectiveWeight)
    (i : ℕ) {total : ℤ} (best : Option (ℕ × ℤ)) (h0 : 0 ≤ total)
    (hmax : total + (ws.map (·.effectiveWeight)).sum < 2 ^ 63) :
    (nextLoop ws i total best).2.1 = total + (ws.map (·.effectiveWeight)).sum := by
  induction ws generalizing i total best with
  | nil => simp [nextLoop]
  | cons w ws ih =>
    rw [List.map_cons, List.sum_cons] at hmax ⊢
    have hw0 := hw w List.mem_cons_self
    have hws : ∀ v ∈ ws, 0 ≤ v.effectiveWeight := fun v hv => hw v (List.mem_cons_of_mem _ hv)
    have hsum : 0 ≤ (ws.map (·.effectiveWeight)).sum := by
      refine List.sum_nonneg fun x hx => ?_
      obtain ⟨v, hv, rfl⟩ := List.mem_map.mp hx
      exact hws v hv
    have hint : int64 (total + w.effectiveWeight) = total + w.effectiveWeight :=
      int64_eq (by omega) (by omega)
    simp only [nextLoop, hint]
    rw [ih hws (i + 1) _ (by omega) (by omega)]
    omega

/-- What the loop ends with is one of the values it has seen, and the largest. -/
theorem nextLoop_max {ws : List Weighted} {i : ℕ} {total : ℤ} {best : Option (ℕ × ℤ)} {p : ℕ × ℤ}
    (h : (nextLoop ws i total best).2.2 = some p) :
    (∀ q ∈ best, q.2 ≤ p.2) ∧ (∀ w ∈ ws, w.raise.currentWeight ≤ p.2) ∧
      (best = some p ∨ ∃ j w, ws[j]? = some w ∧ p = (i + j, w.raise.currentWeight)) := by
  induction ws generalizing i total best with
  | nil =>
    obtain rfl : best = some p := h
    refine ⟨?_, by simp, Or.inl rfl⟩
    rintro q ⟨⟩
    exact le_rfl
  | cons w ws ih =>
    obtain ⟨hbest, hws, hp⟩ := ih h
    -- the value of this round is not smaller than those before it and than that of `w`
    have hround : (∀ q ∈ best, q.2 ≤ p.2) ∧ w.raise.currentWeight ≤ p.2 ∧
        (better best i w.raise = best ∨
          better best i w.raise = some (i, w.raise.currentWeight)) := by
      cases best with
      | none => exact ⟨by simp, hbest _ rfl, Or.inr rfl⟩
      | some q =>
        obtain ⟨k, c⟩ := q
        simp only [better] at hbest ⊢
        split_ifs at hbest ⊢ with hgt
        · have hle := hbest _ rfl
          refine ⟨?_, hle, Or.inr rfl⟩
          rintro q ⟨⟩
          simp only at hle ⊢
          omega
        · have hle := hbest _ rfl
          refine ⟨hbest, ?_, Or.inl rfl⟩
          simp only at hle ⊢
          omega
    obtain ⟨hbest', hw, hcase⟩ := hround
    refine ⟨hbest', ?_, ?_⟩
    · rintro v (_ | ⟨_, hv⟩)
      · exact hw
      · exact hws v hv
    · rcases hp with hp | ⟨j, v, hj, rfl⟩
      · rcases hcase with hsame | hnew
        · exact Or.inl (hsame ▸ hp)
        · rw [hnew] at hp
          cases hp
          exact Or.inr ⟨0, w, rfl, rfl⟩
      · exact Or.inr ⟨j + 1, v, hj, by rw [Nat.add_assoc, Nat.add_comm 1 j]⟩

/-! ### Credits -/

section Credits

variable {servers : List Weighted}

/-- The servers with other current weights. -/
def withCredits (servers : List Weighted) (c : Fin servers.length → ℤ) : List Weighted :=
  List.ofFn fun j => { servers.get j with currentWeight := c j }

/-- The weights. -/
def weights (servers : List Weighted) (j : Fin servers.length) : ℤ := (servers.get j).weight

/-- The total of the weights. -/
def total (servers : List Weighted) : ℤ := (servers.map (·.weight)).sum

theorem sum_weights : ∑ j, weights servers j = total servers := by
  unfold total
  rw [← List.sum_ofFn]
  congr 1
  exact List.ext_getElem (by simp) fun j _ _ => by simp [weights]

theorem length_withCredits (c : Fin servers.length → ℤ) :
    (withCredits servers c).length = servers.length :=
  List.length_ofFn

theorem getElem?_withCredits (c : Fin servers.length → ℤ) (j : Fin servers.length) :
    (withCredits servers c)[(j : ℕ)]? = some { servers.get j with currentWeight := c j } := by
  unfold withCredits
  rw [List.getElem?_ofFn, dif_pos j.isLt]

theorem mem_withCredits {c : Fin servers.length → ℤ} {s : Weighted}
    (h : s ∈ withCredits servers c) :
    ∃ j, s = { servers.get j with currentWeight := c j } := by
  obtain ⟨j, hj⟩ := List.mem_ofFn.mp h
  exact ⟨j, hj.symm⟩

theorem eq_withCredits {ws : List Weighted} {c : Fin servers.length → ℤ}
    (hlen : ws.length = servers.length) (h : ∀ j : Fin servers.length, ws[(j : ℕ)]? =
      some { servers.get j with currentWeight := c j }) :
    ws = withCredits servers c := by
  refine List.ext_getElem? fun j => ?_
  by_cases hj : j < servers.length
  · rw [h ⟨j, hj⟩, ← getElem?_withCredits c ⟨j, hj⟩]
  · have hc := length_withCredits c
    rw [List.getElem?_eq_none (by omega), List.getElem?_eq_none (by omega)]

theorem count_chosen (is : List (Fin servers.length)) (i : Fin servers.length) :
    (is.map fun i => some i.val).count (some i.val) = is.count i :=
  List.count_map_of_injective is _ (fun _ _ h => Fin.ext (Option.some.inj h)) i

theorem sum_currentWeight (c : Fin servers.length → ℤ) :
    ((withCredits servers c).map (·.currentWeight)).sum = ∑ j, c j := by
  rw [withCredits, List.map_ofFn, List.sum_ofFn]
  rfl

theorem withCredits_zero (hcur : ∀ s ∈ servers, s.currentWeight = 0) :
    withCredits servers (fun _ => 0) = servers := by
  refine (eq_withCredits rfl fun j => ?_).symm
  rw [← hcur (servers.get j) (List.get_mem servers j)]
  exact List.getElem?_eq_getElem j.isLt

variable (hw : ∀ s ∈ servers, 0 ≤ s.weight) (heff : ∀ s ∈ servers, s.effectiveWeight = s.weight)
  {c : Fin servers.length → ℤ}

include heff

theorem map_effectiveWeight :
    (withCredits servers c).map (·.effectiveWeight) = servers.map (·.weight) := by
  refine List.ext_getElem (by simp [length_withCredits]) fun j _ hj => ?_
  have hjn : j < servers.length := by simpa using hj
  have he := heff (servers.get ⟨j, hjn⟩) (List.get_mem servers ⟨j, hjn⟩)
  simpa [withCredits] using he

/-- What the loop does to a server whose effective weight is its weight. -/
theorem raise_eq (j : Fin servers.length) (hlo : -2 ^ 63 ≤ c j + weights servers j)
    (hhi : c j + weights servers j < 2 ^ 63) :
    Weighted.raise { servers.get j with currentWeight := c j } =
      { servers.get j with currentWeight := c j + weights servers j } := by
  have he := heff (servers.get j) (List.get_mem servers j)
  have hint : int64 (c j + (servers.get j).weight) = c j + weights servers j := int64_eq hlo hhi
  simp only [Weighted.raise, he, lt_irrefl, if_false, hint]

theorem modify_raise (i : Fin servers.length) (hlo : ∀ j, -2 ^ 63 ≤ c j + weights servers j)
    (hhi : ∀ j, c j + weights servers j < 2 ^ 63)
    (hpay : -2 ^ 63 ≤ c i + weights servers i - ∑ j, weights servers j)
    (hpay' : c i + weights servers i - ∑ j, weights servers j < 2 ^ 63) :
    ((withCredits servers c).map Weighted.raise).modify i (fun s =>
        { s with currentWeight := int64 (s.currentWeight - ∑ j, weights servers j) }) =
      withCredits servers (pay (weights servers) c i) := by
  refine eq_withCredits (by simp [length_withCredits]) fun j => ?_
  rw [List.getElem?_modify, List.getElem?_map, getElem?_withCredits, Option.map_some,
    raise_eq heff j (hlo j) (hhi j)]
  by_cases hij : i = j
  · subst hij
    simp [pay, int64_eq hpay hpay']
  · have hne : (i : ℕ) ≠ j := fun h => hij (Fin.ext h)
    have hne' : j ≠ i := fun h => hij h.symm
    simp [pay, hne, hne']

include hw

/-- **A call is a round.** The server that is chosen has the largest credit, and pays. -/
theorem nextWeighted_round (hne : servers ≠ []) (hlo : ∀ j, -2 ^ 63 ≤ c j + weights servers j)
    (hhi : ∀ j, c j + weights servers j < 2 ^ 63) (htotal : ∑ j, weights servers j < 2 ^ 63)
    (hpay : ∀ i, (∀ j, c j + weights servers j ≤ c i + weights servers i) →
      -2 ^ 63 ≤ c i + weights servers i - ∑ j, weights servers j) :
    ∃ i : Fin servers.length, (∀ j, c j + weights servers j ≤ c i + weights servers i) ∧
      nextWeighted (withCredits servers c) =
        (some i.val, withCredits servers (pay (weights servers) c i)) := by
  have hraise := fun j => raise_eq heff j (hlo j) (hhi j)
  have hlen := length_withCredits c
  have hnonneg : 0 ≤ ∑ j, weights servers j :=
    Finset.sum_nonneg fun j _ => hw _ (List.get_mem servers j)
  -- the loop ends with the largest credit
  obtain ⟨⟨k, m⟩, hbest, hk⟩ := nextLoop_best (withCredits servers c) 0 0 none (by simp)
    (Or.inl fun h => hne (List.eq_nil_of_length_eq_zero (by rw [← hlen, h]; rfl)))
  rw [Nat.zero_add, hlen] at hk
  obtain ⟨-, hall, hnone | ⟨j, s, hj, hp⟩⟩ := nextLoop_max hbest
  · cases hnone
  rw [Nat.zero_add, Prod.mk.injEq] at hp
  obtain ⟨rfl, rfl⟩ := hp
  rw [getElem?_withCredits c ⟨k, hk⟩, Option.some.injEq] at hj
  rw [← hj, hraise] at hbest hall
  have hmax : ∀ j, c j + weights servers j ≤ c ⟨k, hk⟩ + weights servers ⟨k, hk⟩ := by
    intro j
    have hle := hall _ (List.mem_of_getElem? (getElem?_withCredits c j))
    rwa [hraise] at hle
  -- and with the total of the weights
  have hsum : (nextLoop (withCredits servers c) 0 0 none).2.1 = ∑ j, weights servers j := by
    have heffs := map_effectiveWeight heff (c := c)
    have hws : ∀ s ∈ withCredits servers c, 0 ≤ s.effectiveWeight := by
      intro s hs
      obtain ⟨j, rfl⟩ := mem_withCredits hs
      show 0 ≤ (servers.get j).effectiveWeight
      rw [heff _ (List.get_mem servers j)]
      exact hw _ (List.get_mem servers j)
    rw [sum_weights] at htotal ⊢
    rw [nextLoop_total hws 0 none le_rfl (by rwa [heffs, zero_add]), heffs, zero_add]
    rfl
  have hfst := nextLoop_fst (withCredits servers c) 0 0 none
  refine ⟨⟨k, hk⟩, hmax, ?_⟩
  rcases hloop : nextLoop (withCredits servers c) 0 0 none with ⟨ws, total, best⟩
  rw [hloop] at hbest hsum hfst
  obtain rfl : best = _ := hbest
  obtain rfl : total = _ := hsum
  obtain rfl : ws = _ := hfst
  have hhik := hhi ⟨k, hk⟩
  rw [nextWeighted, hloop, ← modify_raise heff ⟨k, hk⟩ hlo hhi (hpay _ hmax) (by omega)]

/-! ### Any number of calls -/

variable (hpos : 0 < total servers) (hint : servers.length * total servers < 2 ^ 63)
  (hcur : ∀ s ∈ servers, s.currentWeight = 0)

include hpos hint hcur

theorem calls_turns (k : ℕ) :
    ∃ is c, Turns (weights servers) is c ∧ is.length = k ∧
      calls k servers = (is.map fun i => some i.val, withCredits servers c) := by
  have hw' : ∀ j, 0 ≤ weights servers j := fun j => hw _ (List.get_mem servers j)
  have hpos' : 0 < ∑ j, weights servers j := by rwa [sum_weights]
  have hne : servers ≠ [] := by
    rintro rfl
    exact lt_irrefl _ hpos
  have hlen : 0 < servers.length := List.length_pos_iff.mpr hne
  induction k with
  | zero =>
    refine ⟨[], fun _ => 0, .start, rfl, ?_⟩
    rw [calls, withCredits_zero hcur]
    rfl
  | succ k ih =>
    obtain ⟨is, c, hturns, hk, hcalls⟩ := ih
    have hcard : (Fintype.card (Fin servers.length) : ℤ) =
        servers.length := by rw [Fintype.card_fin]
    -- one total is at most one for each server
    have htotal : ∑ j, weights servers j ≤ servers.length * ∑ j, weights servers j :=
      le_mul_of_one_le_left hpos'.le (by exact_mod_cast hlen)
    rw [← sum_weights] at hint
    have hlo : ∀ j, -2 ^ 63 ≤ c j + weights servers j := by
      intro j
      have := lt_credit hw' hpos' hturns j
      have := hw' j
      omega
    have hhi : ∀ j, c j + weights servers j < 2 ^ 63 := by
      intro j
      have := credit_add_le hw' hpos' hturns j
      rw [hcard] at this
      omega
    have hpay : ∀ i, (∀ j, c j + weights servers j ≤ c i + weights servers i) →
        -2 ^ 63 ≤ c i + weights servers i - ∑ j, weights servers j := by
      intro i hmax
      have := lt_credit hw' hpos' (hturns.round hmax) i
      rw [pay, if_pos rfl] at this
      omega
    obtain ⟨i, hmax, hnext⟩ := nextWeighted_round hw heff hne hlo hhi (by omega) hpay
    refine ⟨is ++ [i], _, hturns.round hmax, by simp [hk], ?_⟩
    simp only [calls, hcalls, hnext, List.map_append, List.map_cons, List.map_nil]

theorem count_calls_lt (k : ℕ) {i : ℕ} {s : Weighted} (hi : servers[i]? = some s) :
    (calls k servers).1.count (some i) * total servers < k * s.weight + total servers := by
  have hw' : ∀ j, 0 ≤ weights servers j := fun j => hw _ (List.get_mem servers j)
  have hpos' : 0 < ∑ j, weights servers j := by rwa [sum_weights]
  obtain ⟨hlt, rfl⟩ := List.getElem?_eq_some_iff.mp hi
  obtain ⟨is, c, ht, rfl, hcalls⟩ := calls_turns hw heff hpos hint hcur k
  have hle := count_lt hw' hpos' ht ⟨i, hlt⟩
  rw [sum_weights, ← count_chosen] at hle
  rw [hcalls]
  exact hle

theorem not_mem_calls (k : ℕ) {i : ℕ} {s : Weighted} (hi : servers[i]? = some s)
    (h0 : s.weight = 0) :
    some i ∉ (calls k servers).1 := by
  have hlt := count_calls_lt hw heff hpos hint hcur k hi
  rw [h0, mul_zero, zero_add] at hlt
  have hzero : ((calls k servers).1.count (some i) : ℤ) < 1 := by
    by_contra hge
    have := mul_le_mul_of_nonneg_right (not_lt.mp hge) hpos.le
    omega
  exact List.count_eq_zero.mp (by omega)

/-- Blocks of as many calls as the weights sum to are shared exactly. -/
theorem calls_blocks (m : ℕ) :
    (calls (m * (total servers).toNat) servers).2 = servers ∧
      ∀ i s, servers[i]? = some s →
        ((calls (m * (total servers).toNat) servers).1.count (some i) : ℤ) = m * s.weight := by
  have hw' : ∀ j, 0 ≤ weights servers j := fun j => hw _ (List.get_mem servers j)
  have hpos' : 0 < ∑ j, weights servers j := by rwa [sum_weights]
  obtain ⟨is, c, ht, hlen, hcalls⟩ := calls_turns hw heff hpos hint hcur (m * (total servers).toNat)
  have hlen' : (is.length : ℤ) = m * ∑ j, weights servers j := by
    rw [hlen, sum_weights]
    push_cast
    rw [Int.toNat_of_nonneg hpos.le]
  have hexact := count_eq hw' hpos' ht hlen'
  rw [hcalls]
  constructor
  · have hzero : c = fun _ => 0 := funext fun j => (hexact j).2
    rw [hzero]
    exact withCredits_zero hcur
  · intro i s hi
    obtain ⟨hlt, rfl⟩ := List.getElem?_eq_some_iff.mp hi
    exact (congrArg Nat.cast (count_chosen is ⟨i, hlt⟩)).trans (hexact ⟨i, hlt⟩).1

end Credits

/-- **Smooth weighted round robin.** The servers have weights that are not negative and not all
zero, with current weights of zero. After any number of calls the current weights sum to zero and no
server has been chosen more often than its share and one; every block of as many calls as the
weights sum to chooses each server as often as its weight says, and leaves the servers as they were;
and a server of weight zero is not chosen. -/
theorem smooth_round_robin {servers : List Weighted} (hw : ∀ s ∈ servers, 0 ≤ s.weight)
    (heff : ∀ s ∈ servers, s.effectiveWeight = s.weight) (hcur : ∀ s ∈ servers, s.currentWeight = 0)
    (hpos : 0 < total servers) (hint : servers.length * total servers < 2 ^ 63) :
    (∀ k, none ∉ (calls k servers).1 ∧ ((calls k servers).2.map (·.currentWeight)).sum = 0 ∧
      ∀ i s, servers[i]? = some s →
        (calls k servers).1.count (some i) * total servers < k * s.weight + total servers) ∧
    (∀ m, (calls (m * (total servers).toNat) servers).2 = servers ∧
      ∀ i s, servers[i]? = some s →
        ((calls (total servers).toNat (calls (m * (total servers).toNat) servers).2).1.count
          (some i) : ℤ) =
          s.weight) ∧
    ∀ k i s, servers[i]? = some s → s.weight = 0 → some i ∉ (calls k servers).1 := by
  have hturns := calls_turns hw heff hpos hint hcur
  have hblocks := calls_blocks hw heff hpos hint hcur
  refine ⟨fun k => ⟨?_, ?_, fun i s => count_calls_lt hw heff hpos hint hcur k⟩,
    fun m => ⟨(hblocks m).1, fun i s hi => ?_⟩, fun k i s => not_mem_calls hw heff hpos hint hcur k⟩
  · obtain ⟨is, c, -, -, hcalls⟩ := hturns k
    rw [hcalls]
    simp
  · obtain ⟨is, c, ht, -, hcalls⟩ := hturns k
    rw [hcalls]
    exact (sum_currentWeight c).trans (sum_credit ht)
  · have hone := (hblocks 1).2 i s hi
    rw [(hblocks m).1]
    rwa [Nat.one_mul, Nat.cast_one, one_mul] at hone

/-- Two servers, with the weights 2 and 1. -/
def twoServers : List Weighted := [⟨[97], 2, 0, 2⟩, ⟨[98], 1, 0, 1⟩]

theorem smooth_round_robin_two :
    (calls 3 twoServers).1 = [some 0, some 1, some 0] ∧ (calls 3 twoServers).2 = twoServers ∧
      ∀ k, ((calls k twoServers).2.map (·.currentWeight)).sum = 0 := by
  have hshares := @smooth_round_robin twoServers (by decide) (by decide) (by decide)
      (by decide) (by decide)
  exact ⟨by decide, (hshares.2.1 1).1, fun k => (hshares.1 k).2.1⟩

end Frpc.Selectors.Smooth
