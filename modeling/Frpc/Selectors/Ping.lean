import Frpc.Selectors.Smooth
import Frpc.Selectors.Updates

/-! # The ping selector

`createICMPWeighted` pings every server once and gives it a weight from the time; the error of
`Ping` is not looked at. A time of 1000 ms or more has the weight zero, and such a server is never
selected. But `Ping` returns the time 0 with the error of a host that is not resolved, and keeps the
time of an answer when the pinger ends with an error: such a server is `Misjudged`, has a positive
weight, and is selected (`ping_avoids_unreachable`). -/

namespace Frpc.Selectors.Ping

open Frpc.Basic Frpc.Lib.Floats Frpc.Lib.Slices Frpc.Selectors.Modes Frpc.Selectors.Smooth
open Frpc.Selectors.Updates Frpc.Selectors.Weight

/-- `Ping` returns an error. -/
def err : PingOutcome → Bool
  | .unresolved => true
  | .ran _ err => err

/-- An error, or a time of 1000 ms or more. -/
def Unreachable (o : PingOutcome) : Prop := err o = true ∨ 1000 ≤ ping o

/-- No error, and a time under 1000 ms. -/
def Reachable (o : PingOutcome) : Prop := err o = false ∧ 0 ≤ ping o ∧ ping o < 1000

/-- An error, and a time that looks good: the host was not resolved, or there was an answer under
1000 ms before the error. -/
def Misjudged : PingOutcome → Prop
  | .unresolved => True
  | .ran none _ => False
  | .ran (some reply) err => err = true ∧ 0 ≤ reply.tdiv 1000000 ∧ reply.tdiv 1000000 < 1000

instance (o : PingOutcome) : Decidable (Unreachable o) := inferInstanceAs (Decidable (_ ∨ _))

instance (o : PingOutcome) : Decidable (Reachable o) := inferInstanceAs (Decidable (_ ∧ _))

instance : DecidablePred Misjudged
  | .unresolved => isTrue trivial
  | .ran none _ => isFalse fun h => h
  | .ran (some _) _ => inferInstanceAs (Decidable (_ ∧ _))

/-! ### Weights -/

theorem calculateWeight_pos (rtt : ℤ) : 0 < calculateWeight rtt ↔ 0 ≤ rtt ∧ rtt < 1000 := by
  unfold calculateWeight
  split_ifs <;> omega

theorem calculateWeight_bounds (rtt : ℤ) : 0 ≤ calculateWeight rtt ∧ calculateWeight rtt ≤ 191 := by
  unfold calculateWeight
  split_ifs <;> omega

/-- A server is misjudged if it is unreachable and has a positive weight. -/
theorem misjudged_iff (o : PingOutcome) :
    Misjudged o ↔ Unreachable o ∧ 0 < calculateWeight (ping o) := by
  rw [calculateWeight_pos]
  cases o with
  | unresolved => exact iff_of_true trivial ⟨Or.inl rfl, by decide⟩
  | ran reply e =>
    cases reply with
    | none => exact iff_of_false (fun h => h) fun h => lt_irrefl (1000 : ℤ) h.2.2
    | some reply =>
      constructor
      · rintro ⟨he, hlo, hhi⟩
        exact ⟨Or.inl he, hlo, hhi⟩
      · rintro ⟨he | hlong, hlo, hhi⟩
        · exact ⟨he, hlo, hhi⟩
        · omega

section Pinged

variable {V : Type} {env : Env V} {pings : Bytes → PingOutcome}

/-- What `Ping` meets for a server. -/
def outcomeOf (env : Env V) (pings : Bytes → PingOutcome) (k : Bytes) : PingOutcome :=
  ((k.splitOn 64)[1]?).elim .unresolved fun address => pings (env.splitHost address)

/-- The weight of a server. -/
def weightOf (env : Env V) (pings : Bytes → PingOutcome) (k : Bytes) : ℤ :=
  calculateWeight (ping (outcomeOf env pings k))

/-- The entry of a server. -/
def pinged (env : Env V) (pings : Bytes → PingOutcome) (k : Bytes) : Weighted :=
  ⟨k, weightOf env pings k, 0, weightOf env pings k⟩

theorem createPinged_eq {k : Bytes} {w : Weighted} (h : createPinged env pings k = .ok w) :
    w = pinged env pings k := by
  unfold createPinged at h
  unfold pinged weightOf outcomeOf
  split at h
  · rename_i address haddress
    cases h
    rw [haddress]
    rfl
  · cases h

theorem createICMPWeighted_eq {ks : List Bytes} {ws : List Weighted}
    (h : createICMPWeighted env pings ks = .ok ws) : ws = ks.map (pinged env pings) := by
  induction ks generalizing ws with
  | nil =>
    cases h
    rfl
  | cons k ks ih =>
    obtain ⟨w, hw, hrest⟩ := bind_eq_ok.mp h
    obtain ⟨ws', hws, hcons⟩ := bind_eq_ok.mp hrest
    cases hcons
    rw [List.map_cons, createPinged_eq hw, ih hws]

theorem newSelector_ping {order : MetaOrder} {sel : Selector}
    (h : newSelector env pings .ping order = .ok sel) :
    sel = .ping (order.keys.map (pinged env pings)) := by
  obtain ⟨ws, hws, hsel⟩ := bind_eq_ok.mp h
  cases hsel
  rw [createICMPWeighted_eq hws]

theorem mem_pinged {ks : List Bytes} {s : Weighted} (hs : s ∈ ks.map (pinged env pings)) :
    0 ≤ s.weight ∧ s.effectiveWeight = s.weight ∧ s.currentWeight = 0 := by
  obtain ⟨k, -, rfl⟩ := List.mem_map.mp hs
  exact ⟨(calculateWeight_bounds _).1, rfl, rfl⟩

theorem total_pinged (ks : List Bytes) :
    total (ks.map (pinged env pings)) = (ks.map (weightOf env pings)).sum := by
  unfold total
  rw [List.map_map]
  rfl

/-- The total of the weights is positive as soon as one of them is. -/
theorem total_pos {ks : List Bytes} {k : Bytes} (hk : k ∈ ks) (hpos : 0 < weightOf env pings k) :
    0 < total (ks.map (pinged env pings)) := by
  have hle : weightOf env pings k ≤ (ks.map (weightOf env pings)).sum := by
    refine List.single_le_sum (fun x hx => ?_) _ (List.mem_map_of_mem hk)
    obtain ⟨k', -, rfl⟩ := List.mem_map.mp hx
    exact (calculateWeight_bounds _).1
  rw [total_pinged]
  omega

theorem total_le (ks : List Bytes) : total (ks.map (pinged env pings)) ≤ ks.length * 191 := by
  rw [total_pinged]
  induction ks with
  | nil => simp
  | cons k ks ih =>
    have hk : weightOf env pings k ≤ 191 := (calculateWeight_bounds _).2
    rw [List.map_cons, List.sum_cons, List.length_cons]
    push_cast
    omega

/-- The arithmetic of `nextWeighted` does not overflow on fewer than `2 ^ 27` servers. -/
theorem no_overflow {ks : List Bytes} (hfew : ks.length < 2 ^ 27) :
    ((ks.map (pinged env pings)).length : ℤ) * total (ks.map (pinged env pings)) < 2 ^ 63 := by
  have htotal := @total_le V env pings ks
  rw [List.length_map]
  have hlen : (ks.length : ℤ) < 2 ^ 27 := by exact_mod_cast hfew
  have hnonneg : (0 : ℤ) ≤ ks.length := by omega
  nlinarith

end Pinged

/-! ### `Select` calls as calls of `nextWeighted` -/

theorem calls_succ (k : ℕ) (ws : List Weighted) :
    calls (k + 1) ws =
      ((nextWeighted ws).1 :: (calls k (nextWeighted ws).2).1,
        (calls k (nextWeighted ws).2).2) := by
  induction k with
  | zero => rfl
  | succ k ih =>
    rw [calls, ih]
    rfl

section Select

variable {V : Type} (env : Env V)

/-- Consecutive `Select` calls return the names of the servers that `nextWeighted` chooses. -/
theorem selectAll_ping {ws : List Weighted} (hne : ws ≠ []) (reqs : List (Request V)) :
    ∃ out ws', selectAll env (.ping ws) reqs = .ok (out, .ping ws') ∧
      out.map some = (calls reqs.length ws).1.map fun i => i.bind fun i =>
        (ws.map (·.server))[i]? := by
  induction reqs generalizing ws with
  | nil => exact ⟨[], ws, rfl, rfl⟩
  | cons req reqs ih =>
    obtain ⟨i, ws', hnext, hi, hnames⟩ := nextWeighted_spec hne
    have hi' : i < (ws.map (·.server)).length := by rwa [List.length_map]
    have hne' : ws' ≠ [] := by
      rintro rfl
      exact hne (List.map_eq_nil_iff.mp hnames.symm)
    obtain ⟨out, ws'', hrest, hout⟩ := ih hne'
    have hans : answer env (.ping ws) req = .ok ((ws.map (·.server))[i], .ping ws') := by
      simp only [answer, select, selectWeighted, if_neg hne, hnext, hnames, index,
        List.getElem?_eq_getElem hi']
      rfl
    refine ⟨(ws.map (·.server))[i] :: out, ws'', ?_, ?_⟩
    · rw [selectAll, hans, ok_bind]
      dsimp only
      rw [hrest, ok_bind]
      rfl
    · rw [List.map_cons, hout, List.length_cons, calls_succ, hnext, List.map_cons, hnames]
      simp only [Option.bind_some, List.getElem?_eq_getElem hi']

/-- A server is among the names that are returned if `nextWeighted` chooses it. -/
theorem mem_selectAll_ping {ws : List Weighted} (hnodup : (ws.map (·.server)).Nodup) {j : ℕ}
    (hj : j < (ws.map (·.server)).length) {reqs : List (Request V)} {out : List Bytes}
    {sel : Selector} (h : selectAll env (.ping ws) reqs = .ok (out, sel)) :
    (ws.map (·.server))[j] ∈ out ↔ some j ∈ (calls reqs.length ws).1 := by
  have hne : ws ≠ [] := by
    rintro rfl
    simp at hj
  obtain ⟨out', ws', hout', hnames⟩ := selectAll_ping env hne reqs
  rw [hout'] at h
  cases h
  have hmem : (ws.map (·.server))[j] ∈ out ↔ some (ws.map (·.server))[j] ∈ out.map some := by
    simp
  rw [hmem, hnames, List.mem_map]
  constructor
  · rintro ⟨i, hi, heq⟩
    obtain ⟨i, rfl, hget⟩ := Option.bind_eq_some_iff.mp heq
    obtain ⟨hlt, hval⟩ := List.getElem?_eq_some_iff.mp hget
    rwa [← hnodup.getElem_inj_iff.mp hval]
  · intro hi
    exact ⟨some j, hi, List.getElem?_eq_getElem hj⟩

end Select

section Avoids

variable {V : Type} {env : Env V} {pings : Bytes → PingOutcome}

theorem servers_pinged (ks : List Bytes) : (ks.map (pinged env pings)).map (·.server) = ks := by
  rw [List.map_map]
  exact List.map_id ks

/-- Whether a server of the map is ever selected is decided by its weight. -/
theorem selected_iff [Inhabited V] {ks : List Bytes} (hnodup : ks.Nodup) (hfew : ks.length < 2 ^ 27)
    (hgood : ∃ k ∈ ks, 0 < weightOf env pings k) {k : Bytes} (hk : k ∈ ks) :
    (∃ reqs out sel', selectAll env (.ping (ks.map (pinged env pings))) reqs = .ok (out, sel') ∧
      k ∈ out) ↔ 0 < weightOf env pings k := by
  obtain ⟨g, hg, hgpos⟩ := hgood
  have hw : ∀ s ∈ ks.map (pinged env pings), 0 ≤ s.weight := fun s hs => (mem_pinged hs).1
  have heff : ∀ s ∈ ks.map (pinged env pings), s.effectiveWeight = s.weight := fun s hs =>
    (mem_pinged hs).2.1
  have hcur : ∀ s ∈ ks.map (pinged env pings), s.currentWeight = 0 := fun s hs =>
    (mem_pinged hs).2.2
  have hpos := total_pos hg hgpos
  have hint := @no_overflow V env pings ks hfew
  have hservers := @servers_pinged V env pings ks
  have hnodup' : ((ks.map (pinged env pings)).map (·.server)).Nodup := by rwa [hservers]
  obtain ⟨j, hj, rfl⟩ := List.getElem_of_mem hk
  have hj' : j < ((ks.map (pinged env pings)).map (·.server)).length := by rwa [hservers]
  have hname : ((ks.map (pinged env pings)).map (·.server))[j] = ks[j] := by simp only [hservers]
  have hentry : (ks.map (pinged env pings))[j]? = some (pinged env pings ks[j]) := by
    rw [List.getElem?_map, List.getElem?_eq_getElem hj, Option.map_some]
  constructor
  · rintro ⟨reqs, out, sel', hall, hmem⟩
    rw [← hname, mem_selectAll_ping env hnodup' hj' hall] at hmem
    by_contra hzero
    have hle : 0 ≤ weightOf env pings ks[j] := (calculateWeight_bounds _).1
    have h0 : (pinged env pings ks[j]).weight = 0 := le_antisymm (not_lt.mp hzero) hle
    exact not_mem_calls hw heff hpos hint hcur reqs.length hentry h0 hmem
  · intro hweight
    -- a block of calls reaches every server that has a weight
    let reqs : List (Request V) :=
      List.replicate (1 * (total (ks.map (pinged env pings))).toNat) ⟨0, [], [], default⟩
    have hlen : reqs.length = 1 * (total (ks.map (pinged env pings))).toNat := List.length_replicate
    have hne : ks.map (pinged env pings) ≠ [] := by
      rintro hnil
      rw [hnil] at hentry
      cases hentry
    obtain ⟨out, ws', hall, -⟩ := selectAll_ping env hne reqs
    refine ⟨reqs, out, _, hall, ?_⟩
    rw [← hname, mem_selectAll_ping env hnodup' hj' hall, hlen]
    have hcount := (calls_blocks hw heff hpos hint hcur 1).2 j _ hentry
    have hmul : ((1 : ℕ) : ℤ) * (pinged env pings ks[j]).weight = weightOf env pings ks[j] :=
      one_mul _
    exact List.count_pos_iff.mp (by omega)

/-- **The ping selector and unreachable servers.** From a map of fewer than `2 ^ 27` servers, one of
which was pinged without an error in under 1000 ms, `Select` always returns, and no run of `Select`
calls returns a server whose ping failed or took 1000 ms or more, exactly if no server is
misjudged. -/
theorem ping_avoids_unreachable [Inhabited V] {order : MetaOrder} {sel : Selector}
    (hsel : newSelector env pings .ping order = .ok sel) (hfew : order.keys.length < 2 ^ 27)
    (hgood : ∃ k ∈ order.keys, Reachable (outcomeOf env pings k)) :
    (∀ reqs, ∃ out sel', selectAll env sel reqs = .ok (out, sel')) ∧
      ((∀ reqs out sel', selectAll env sel reqs = .ok (out, sel') → ∀ k ∈ order.keys,
          Unreachable (outcomeOf env pings k) → k ∉ out) ↔
        ∀ k ∈ order.keys, ¬ Misjudged (outcomeOf env pings k)) := by
  obtain rfl := newSelector_ping hsel
  have hgood' : ∃ k ∈ order.keys, 0 < weightOf env pings k := by
    obtain ⟨k, hk, -, hlo, hhi⟩ := hgood
    exact ⟨k, hk, (calculateWeight_pos _).mpr ⟨hlo, hhi⟩⟩
  have hselected := fun k hk => selected_iff order.keys_nodup hfew hgood' (k := k) hk
  refine ⟨fun reqs => ?_,
    fun havoid k hk hmis => ?_, fun hjudged reqs out sel' hall k hk hun hmem => ?_⟩
  · have hne : order.keys.map (pinged env pings) ≠ [] := by
      obtain ⟨k, hk, -⟩ := hgood
      exact List.ne_nil_of_mem (List.mem_map_of_mem hk)
    obtain ⟨out, ws', hall, -⟩ := selectAll_ping env hne reqs
    exact ⟨out, _, hall⟩
  · obtain ⟨hun, hpos⟩ := (misjudged_iff _).mp hmis
    obtain ⟨reqs, out, sel', hall, hmem⟩ := (hselected k hk).mpr hpos
    exact havoid reqs out sel' hall k hk hun hmem
  · have hpos := (hselected k hk).mp ⟨reqs, out, sel', hall, hmem⟩
    exact hjudged k hk ((misjudged_iff _).mpr ⟨hun, hpos⟩)

end Avoids

/-- The server `t@a`, which answers after half a second. -/
def live : Bytes := [116, 64, 97]

/-- The server `t@b`. -/
def dead : Bytes := [116, 64, 98]

/-- Both servers. -/
def both : MetaOrder := (AList.singleton dead []).insert live []

/-- The outcomes: `o` for the host `b`, half a second for any other. -/
def outcomes (o : PingOutcome) : Bytes → PingOutcome :=
  fun host => if host = [98] then o else .ran (some 500000000) false

/-- A host that does not answer is not selected. -/
theorem ping_avoids_unreachable_silent :
    Unreachable (outcomeOf plainEnv (outcomes (.ran none true)) dead) ∧
      ∀ reqs out sel', selectAll plainEnv
        (.ping (both.keys.map (pinged plainEnv (outcomes (.ran none true))))) reqs =
          .ok (out, sel') → dead ∉ out := by
  have hsel : newSelector plainEnv (outcomes (.ran none true)) .ping both =
      .ok (.ping (both.keys.map (pinged plainEnv (outcomes (.ran none true))))) := rfl
  have hlive : Reachable (outcomeOf plainEnv (outcomes (.ran none true)) live) := by decide
  have hdead : Unreachable (outcomeOf plainEnv (outcomes (.ran none true)) dead) := by decide
  have havoid := ping_avoids_unreachable hsel (by decide) ⟨live, by decide, hlive⟩
  refine ⟨hdead, fun reqs out sel' hall => ?_⟩
  refine havoid.2.mpr ?_ reqs out sel' hall dead (by decide) hdead
  decide

/-- With the outcome `o` for its host, `t@b` is unreachable and the first server that is selected,
although `t@a` can be reached. -/
def DeadFirst (o : PingOutcome) : Prop :=
  Reachable (outcomeOf plainEnv (outcomes o) live) ∧
    Unreachable (outcomeOf plainEnv (outcomes o) dead) ∧
    ∃ sel sel', newSelector plainEnv (outcomes o) .ping both = .ok sel ∧
      selectAll plainEnv sel [⟨0, [], [], []⟩] = .ok ([dead], sel')

/-- A host that is not resolved, and one whose pinger ends with an error after an answer, are
selected first. -/
theorem ping_selects_unreachable :
    DeadFirst .unresolved ∧ DeadFirst (.ran (some 5000000) true) := by
  constructor
  · exact ⟨by decide, by decide, _, _, rfl, rfl⟩
  · exact ⟨by decide, by decide, _, _, rfl, rfl⟩

end Frpc.Selectors.Ping
