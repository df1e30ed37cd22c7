import Frpc.Selectors.Hash
import Frpc.Selectors.Weight

/-! # Selectors

The selectors that `NewSelector` makes, one for each mode of `core.SelectMode`. A selector keeps the
names of the servers it was made from, in the order in which the loop over the map visited them
(`names`); whom it selects is always one of them (`select_ok`). -/

namespace Frpc.Selectors.Modes

open Frpc.Basic Frpc.Lib.Floats Frpc.Lib.Slices Frpc.Selectors.Hash Frpc.Selectors.Weight

/-- `core.SelectMode` -/
inductive SelectMode where
  | random
  | roundRobin
  | weighted
  | hash
  | ping
  | closest

/-- The libraries: the weight that is found in the metadata of a server (`url.ParseQuery`, `Get` and
`strconv.Atoi`), the host of an address (`net.SplitHostPort`), `fmt.Sprintf("%v", …)`, and the
floating-point arithmetic. -/
structure Env (V : Type) where
  weight : Bytes → Option ℤ
  splitHost : Bytes → Bytes
  sprint : V → Bytes
  rounding : Rounding

/-- Servers without weights, and exact arithmetic. -/
def plainEnv : Env Bytes := ⟨fun _ => none, id, id, exact⟩

/-- What `Ping` meets: the host is not resolved, or the pinger runs, gets an answer after so many
nanoseconds or none, and may return an error. -/
inductive PingOutcome where
  | unresolved
  | ran (reply : Option ℤ) (err : Bool)

/-- `type Selector interface` -/
inductive Selector where
  | random (servers : List Bytes)
  | roundRobin (servers : List Bytes) (i : ℕ)
  | weighted (servers : List Weighted)
  | hash (servers : List Bytes)
  | ping (servers : List Weighted)

/-! ### Making a selector -/

/-- `createWeighted` -/
def createWeighted {V : Type} (env : Env V) (order : MetaOrder) : List Weighted :=
  order.entries.map fun e =>
    match env.weight e.2 with
    | some weight => ⟨e.1, weight, 0, weight⟩
    | none => ⟨e.1, 1, 0, 1⟩

/-- `Ping`: the time in milliseconds; its error is not used. -/
def ping : PingOutcome → ℤ
  | .unresolved => 0
  | .ran none _ => 1000
  | .ran (some reply) _ => reply.tdiv 1000000

/-- `CalculateWeight` -/
def calculateWeight (rtt : ℤ) : ℤ :=
  if rtt ≥ 0 ∧ rtt ≤ 10 then 191
  else if rtt > 10 ∧ rtt ≤ 200 then 201 - rtt
  else if rtt > 100 ∧ rtt < 1000 then 1
  else 0

/-- `createICMPWeighted` for one server; it panics if there is no `@` in the name. -/
def createPinged {V : Type} (env : Env V) (pings : Bytes → PingOutcome) (k : Bytes) :
    Except Fault Weighted :=
  match (k.splitOn 64)[1]? with
  | some address =>
    let rtt := calculateWeight (ping (pings (env.splitHost address)))
    .ok ⟨k, rtt, 0, rtt⟩
  | none => .error .bounds

/-- `createICMPWeighted` -/
def createICMPWeighted {V : Type} (env : Env V) (pings : Bytes → PingOutcome) :
    List Bytes → Except Fault (List Weighted)
  | [] => .ok []
  | k :: ks => do
    let w ← createPinged env pings k
    let ws ← createICMPWeighted env pings ks
    return w :: ws

/-- `NewSelector`, for a map that is visited in the order `order`. -/
def newSelector {V : Type} (env : Env V) (pings : Bytes → PingOutcome) (mode : SelectMode)
    (order : MetaOrder) : Except Fault Selector :=
  match mode with
  | .random => .ok (.random order.keys)
  | .roundRobin => .ok (.roundRobin order.keys 0)
  | .weighted => .ok (.weighted (createWeighted env order))
  | .hash => .ok (.hash order.keys)
  | .ping => do return .ping (← createICMPWeighted env pings order.keys)
  -- there is no case for `Closest`
  | .closest => .ok (.random order.keys)

/-- `UpdateServer`, for a map that is visited in the order `order`. -/
def updateServer {V : Type} (env : Env V) (pings : Bytes → PingOutcome) (order : MetaOrder) :
    Selector → Except Fault Selector
  | .random _ => .ok (.random order.keys)
  -- the index is kept
  | .roundRobin _ i => .ok (.roundRobin order.keys i)
  | .weighted _ => .ok (.weighted (createWeighted env order))
  | .hash _ => .ok (.hash order.keys)
  | .ping _ => do return .ping (← createICMPWeighted env pings order.keys)

/-! ### Selecting -/

/-- `fastrand.Uint32n`, from the random number `x`. -/
def uint32n (x : UInt32) (maxN : ℕ) : ℕ := x.toNat * (maxN % 2 ^ 32) / 2 ^ 32

/-- `ss[i]` -/
def index (ss : List Bytes) (i : ℕ) : Except Fault Bytes := (ss[i]?).elim (.error .bounds) .ok

/-- `Select` of the two selectors with weights. -/
def selectWeighted (servers : List Weighted) : Except Fault (Bytes × List Weighted) :=
  if servers = [] then .ok ([], servers)
  else
    match nextWeighted servers with
    | (none, ws) => .ok ([], ws)
    | (some i, ws) => do return (← index (ws.map (·.server)) i, ws)

/-- `Select`: the name, and the selector afterwards. -/
def select {V : Type} (env : Env V) (x : UInt32) (servicePath serviceMethod : Bytes) (args : V) :
    Selector → Except Fault (Bytes × Selector)
  | .random ss =>
    if ss = [] then .ok ([], .random ss)
    else do return (← index ss (uint32n x ss.length), .random ss)
  | .roundRobin ss i =>
    if ss = [] then .ok ([], .roundRobin ss i)
    else do
      let i := i % ss.length
      return (← index ss i, .roundRobin ss (i + 1))
  | .weighted ws => do
    let (name, ws) ← selectWeighted ws
    return (name, .weighted ws)
  | .hash ss =>
    if ss = [] then .ok ([], .hash ss)
    else do
      let i ← jumpConsistentHash env.rounding ss.length
        [servicePath, serviceMethod, env.sprint args]
      return (← index ss i.toNat, .hash ss)
  | .ping ws => do
    let (name, ws) ← selectWeighted ws
    return (name, .ping ws)

/-! ### The names -/

/-- The names that a selector has. -/
def names : Selector → List Bytes
  | .random ss => ss
  | .roundRobin ss _ => ss
  | .weighted ws => ws.map (·.server)
  | .hash ss => ss
  | .ping ws => ws.map (·.server)

variable {V : Type} {env : Env V} {pings : Bytes → PingOutcome} {order : MetaOrder}

theorem createICMPWeighted_servers {ks : List Bytes} {ws : List Weighted}
    (h : createICMPWeighted env pings ks = .ok ws) : ws.map (·.server) = ks := by
  induction ks generalizing ws with
  | nil =>
    cases h
    rfl
  | cons k ks ih =>
    obtain ⟨w, hk, hrest⟩ := bind_eq_ok.mp h
    obtain ⟨ws', hks, hws⟩ := bind_eq_ok.mp hrest
    cases hws
    have hw : w.server = k := by
      unfold createPinged at hk
      split at hk
      · cases hk
        rfl
      · cases hk
    rw [List.map_cons, hw, ih hks]

theorem names_newSelector {mode : SelectMode} {sel : Selector}
    (h : newSelector env pings mode order = .ok sel) : names sel = order.keys := by
  cases mode with
  | weighted =>
    cases h
    simp only [names, createWeighted, List.map_map]
    refine List.map_congr_left fun e _ => ?_
    simp only [Function.comp]
    split <;> rfl
  | ping =>
    obtain ⟨ws, hws, hsel⟩ := bind_eq_ok.mp h
    cases hsel
    exact createICMPWeighted_servers hws
  | _ =>
    cases h
    rfl

/-! ### Whom a selector selects -/

theorem index_ok (ss : List Bytes) (i : ℕ) (h : i < ss.length) :
    ∃ name, index ss i = .ok name ∧ name ∈ ss :=
  ⟨ss[i], by rw [index, List.getElem?_eq_getElem h]; rfl, List.getElem_mem h⟩

theorem uint32n_lt (x : UInt32) {n : ℕ} (hn : 0 < n) : uint32n x n < n := by
  unfold uint32n
  have hx := x.toNat_lt
  have hmod := Nat.mod_le n (2 ^ 32)
  rw [Nat.div_lt_iff_lt_mul (by norm_num)]
  calc x.toNat * (n % 2 ^ 32) ≤ x.toNat * n := Nat.mul_le_mul_left _ hmod
    _ < 2 ^ 32 * n := Nat.mul_lt_mul_of_pos_right hx hn
    _ = n * 2 ^ 32 := Nat.mul_comm _ _

theorem selectWeighted_ok {ws : List Weighted} (hne : ws.map (·.server) ≠ []) :
    ∃ name ws', selectWeighted ws = .ok (name, ws') ∧ name ∈ ws.map (·.server) ∧
      ws'.map (·.server) = ws.map (·.server) := by
  have hne' : ws ≠ [] := fun h => hne (by rw [h]; rfl)
  obtain ⟨i, ws', hnext, hi, hnames⟩ := nextWeighted_spec hne'
  obtain ⟨name, hname, hmem⟩ := index_ok (ws.map (·.server)) i (by simpa using hi)
  refine ⟨name, ws', ?_, hmem, hnames⟩
  rw [selectWeighted, if_neg hne', hnext]
  simp only [hnames, hname]
  rfl

variable (env) (x : UInt32) (servicePath serviceMethod : Bytes) (args : V) {sel : Selector}

theorem select_nil (h : names sel = []) :
    select env x servicePath serviceMethod args sel = .ok ([], sel) := by
  cases sel with
  | weighted ws =>
    obtain rfl : ws = [] := List.map_eq_nil_iff.mp h
    rfl
  | ping ws =>
    obtain rfl : ws = [] := List.map_eq_nil_iff.mp h
    rfl
  | _ => exact if_pos h

/-- **A selector selects one of its names**, and keeps them. -/
theorem select_ok (h : names sel ≠ []) :
    ∃ name sel', select env x servicePath serviceMethod args sel = .ok (name, sel') ∧
      name ∈ names sel ∧ names sel' = names sel := by
  cases sel with
  | random ss =>
    have hne : ss ≠ [] := h
    have hpos := List.length_pos_iff.mpr hne
    obtain ⟨name, hname, hmem⟩ := index_ok ss _ (uint32n_lt x hpos)
    refine ⟨name, .random ss, ?_, hmem, rfl⟩
    rw [select, if_neg hne, hname]
    rfl
  | roundRobin ss i =>
    have hne : ss ≠ [] := h
    have hpos := List.length_pos_iff.mpr hne
    obtain ⟨name, hname, hmem⟩ := index_ok ss _ (Nat.mod_lt i hpos)
    refine ⟨name, .roundRobin ss (i % ss.length + 1), ?_, hmem, rfl⟩
    rw [select, if_neg hne]
    simp only [hname]
    rfl
  | weighted ws =>
    obtain ⟨name, ws', hsel, hmem, hnames⟩ := selectWeighted_ok h
    refine ⟨name, .weighted ws', ?_, hmem, hnames⟩
    rw [select, hsel]
    rfl
  | hash ss =>
    have hne : ss ≠ [] := h
    have hpos := List.length_pos_iff.mpr hne
    obtain ⟨i, hi, h0, hlt⟩ := jumpConsistentHash_spec env.rounding hpos
      [servicePath, serviceMethod, env.sprint args]
    obtain ⟨name, hname, hmem⟩ := index_ok ss i.toNat (by omega)
    refine ⟨name, .hash ss, ?_, hmem, rfl⟩
    rw [select, if_neg hne, hi, ok_bind, hname]
    rfl
  | ping ws =>
    obtain ⟨name, ws', hsel, hmem, hnames⟩ := selectWeighted_ok h
    refine ⟨name, .ping ws', ?_, hmem, hnames⟩
    rw [select, hsel]
    rfl

end Frpc.Selectors.Modes
