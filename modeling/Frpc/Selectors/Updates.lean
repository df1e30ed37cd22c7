import Frpc.Lib.Rotations
import Frpc.Lib.Runs
import Frpc.Selectors.Modes

/-! # Selectors that are updated

A selector lives through a sequence of `UpdateServer` and `Select` calls. It has the keys of the map
it was last given, in the order in which that map was visited (`Current`), whatever came before; so
`Select` answers from that map (`selectors_answer_current`). The round-robin selector keeps its
index when the list is replaced: it goes round the new list from wherever the old one left it
(`selectAll_roundRobin`), and that is fair from every index (`round_robin_fair`). -/

namespace Frpc.Selectors.Updates

open Frpc.Basic Frpc.Lib.Floats Frpc.Lib.Rotations Frpc.Lib.Runs Frpc.Lib.Slices
  Frpc.Selectors.Modes

/-- A selector, and the map it was last given. -/
structure State where
  servers : Metadata
  selector : Selector

/-- What a `Select` call depends on: its arguments, and the random number that a random selector
draws. -/
structure Request (V : Type) where
  x : UInt32
  servicePath : Bytes
  serviceMethod : Bytes
  args : V

/-- The calls. -/
inductive Label (V : Type) where
  /-- `UpdateServer`, for a map that is visited in the order `order`. -/
  | updateServer (pings : Bytes → PingOutcome) (order : MetaOrder)
  /-- `Select` -/
  | select (req : Request V)

variable {V : Type}

/-- `Select` for a request. -/
def answer (env : Env V) (sel : Selector) (req : Request V) : Except Fault (Bytes × Selector) :=
  select env req.x req.servicePath req.serviceMethod req.args sel

/-- One call; a panic ends the program. -/
def step (env : Env V) (s : State) : Label V → Option State
  | .updateServer pings order =>
    match updateServer env pings order s.selector with
    | .ok sel => some ⟨order.toFinmap, sel⟩
    | .error _ => none
  | .select req =>
    match answer env s.selector req with
    | .ok (_, sel) => some { s with selector := sel }
    | .error _ => none

/-- The mode of a selector. -/
def modeOf : Selector → SelectMode
  | .random _ => .random
  | .roundRobin _ _ => .roundRobin
  | .weighted _ => .weighted
  | .hash _ => .hash
  | .ping _ => .ping

/-- The selector has the keys of the map, in one of its orders. -/
def Current (s : State) : Prop :=
  ∃ order : MetaOrder, order.toFinmap = s.servers ∧ names s.selector = order.keys

section Calls

variable {env : Env V} {pings : Bytes → PingOutcome} {order : MetaOrder} {sel sel' : Selector}

theorem toFinmap_eq_empty (order : MetaOrder) : order.toFinmap = ∅ ↔ order.keys = [] := by
  have hempty : (∅ : Metadata) = AList.toFinmap ∅ := rfl
  rw [hempty, AList.toFinmap_eq]
  constructor
  · intro h
    unfold AList.keys List.keys
    rw [h.eq_nil]
    rfl
  · intro h
    rw [List.map_eq_nil_iff.mp h]
    exact List.Perm.refl _

theorem names_updateServer (h : updateServer env pings order sel = .ok sel') :
    names sel' = order.keys ∧ modeOf sel' = modeOf sel := by
  cases sel with
  | random ss =>
    cases h
    exact ⟨rfl, rfl⟩
  | roundRobin ss i =>
    cases h
    exact ⟨rfl, rfl⟩
  | weighted ws =>
    have hnew : newSelector env pings .weighted order = .ok sel' := h
    cases h
    exact ⟨names_newSelector hnew, rfl⟩
  | hash ss =>
    cases h
    exact ⟨rfl, rfl⟩
  | ping ws =>
    have hnew : newSelector env pings .ping order = .ok sel' := h
    obtain ⟨ws', -, hsel⟩ := bind_eq_ok.mp h
    cases hsel
    exact ⟨names_newSelector hnew, rfl⟩

variable (env) in
theorem updateServer_ok (hmode : modeOf sel ≠ .ping) (pings : Bytes → PingOutcome)
    (order : MetaOrder) :
    ∃ sel', updateServer env pings order sel = .ok sel' := by
  cases sel with
  | ping ws => exact absurd rfl hmode
  | _ => exact ⟨_, rfl⟩

theorem newSelector_ok {mode : SelectMode} (hmode : mode ≠ .ping) (env : Env V)
    (pings : Bytes → PingOutcome) (order : MetaOrder) :
    ∃ sel, newSelector env pings mode order = .ok sel ∧ modeOf sel ≠ .ping := by
  cases mode with
  | ping => exact absurd rfl hmode
  | _ => exact ⟨_, rfl, nofun⟩

theorem modeOf_answer {req : Request V} {name : Bytes} (h : answer env sel req = .ok (name, sel')) :
    modeOf sel' = modeOf sel := by
  cases sel with
  | random ss =>
    simp only [answer, select] at h
    split_ifs at h
    · cases h
      rfl
    · obtain ⟨_, -, h⟩ := bind_eq_ok.mp h
      cases h
      rfl
  | roundRobin ss i =>
    simp only [answer, select] at h
    split_ifs at h
    · cases h
      rfl
    · obtain ⟨_, -, h⟩ := bind_eq_ok.mp h
      cases h
      rfl
  | weighted ws =>
    obtain ⟨_, -, h⟩ := bind_eq_ok.mp h
    cases h
    rfl
  | hash ss =>
    simp only [answer, select] at h
    split_ifs at h
    · cases h
      rfl
    · obtain ⟨_, -, h⟩ := bind_eq_ok.mp h
      obtain ⟨_, -, h⟩ := bind_eq_ok.mp h
      cases h
      rfl
  | ping ws =>
    obtain ⟨_, -, h⟩ := bind_eq_ok.mp h
    cases h
    rfl

variable (env sel) in
/-- **What `Select` does**: it returns, with one of the names if there are any, and changes neither
the names nor the mode. -/
theorem answer_spec (req : Request V) :
    ∃ name sel', answer env sel req = .ok (name, sel') ∧ names sel' = names sel ∧
      modeOf sel' = modeOf sel ∧
      (names sel = [] → name = []) ∧ (names sel ≠ [] → name ∈ names sel) := by
  by_cases hnil : names sel = []
  · have hsel : answer env sel req = .ok ([], sel) := select_nil env _ _ _ _ hnil
    exact ⟨[], sel, hsel, rfl, rfl, fun _ => rfl, fun hne => absurd hnil hne⟩
  · obtain ⟨name, sel', hsel, hmem, hnames⟩ :=
      select_ok env req.x req.servicePath req.serviceMethod req.args hnil
    exact ⟨name, sel', hsel, hnames, modeOf_answer hsel, fun h => absurd h hnil, fun _ => hmem⟩

end Calls

/-! ### Runs -/

section Runs

variable {env : Env V} {s t : State}

/-- What one call can do. -/
inductive Effect (env : Env V) (s : State) : State → Prop
  | updated {sel : Selector} (order : MetaOrder) (hnames : names sel = order.keys)
      (hmode : modeOf sel = modeOf s.selector) : Effect env s ⟨order.toFinmap, sel⟩
  | selected {req : Request V} {name : Bytes} {sel : Selector}
      (hsel : answer env s.selector req = .ok (name, sel)) (hnames : names sel = names s.selector)
      (hmode : modeOf sel = modeOf s.selector) : Effect env s { s with selector := sel }

theorem effect_of_step {l : Label V} (h : step env s l = some t) : Effect env s t := by
  cases l with
  | updateServer pings order =>
    simp only [step] at h
    split at h
    · rename_i sel hsel
      cases h
      obtain ⟨hnames, hmode⟩ := names_updateServer hsel
      exact .updated order hnames hmode
    · cases h
  | select req =>
    obtain ⟨name, sel, hsel, hnames, hmode, -⟩ := answer_spec env s.selector req
    simp only [step, hsel] at h
    cases h
    exact .selected hsel hnames hmode

theorem Current.step {l : Label V} (hcur : Current s) (h : step env s l = some t) : Current t := by
  cases effect_of_step h with
  | updated order hnames hmode => exact ⟨order, rfl, hnames⟩
  | selected hsel hnames hmode =>
    obtain ⟨order, horder, hkeys⟩ := hcur
    exact ⟨order, horder, hnames.trans hkeys⟩

theorem modeOf_step {l : Label V} (h : step env s l = some t) :
    modeOf t.selector = modeOf s.selector := by
  cases effect_of_step h with
  | updated order hnames hmode => exact hmode
  | selected hsel hnames hmode => exact hmode

/-- In every state that a new selector reaches, it has the keys of the map it was last given. -/
theorem current_of_reach {pings : Bytes → PingOutcome} {mode : SelectMode} {order : MetaOrder}
    {sel : Selector} (hsel : newSelector env pings mode order = .ok sel)
    (h : Reach (step env) Any ⟨order.toFinmap, sel⟩ s) :
    Current s ∧ modeOf s.selector = modeOf sel := by
  have hinit : Current ⟨order.toFinmap, sel⟩ := ⟨order, rfl, names_newSelector hsel⟩
  constructor
  · exact h.invariant hinit fun _ hcur _ hs => hcur.step hs
  · exact h.invariant (P := fun s => modeOf s.selector = modeOf sel) rfl fun _ hsame _ hs =>
      (modeOf_step hs).trans hsame

theorem exists_step (hmode : modeOf s.selector ≠ .ping) (l : Label V) :
    ∃ t, step env s l = some t := by
  cases l with
  | updateServer pings order =>
    obtain ⟨sel, hsel⟩ := updateServer_ok env hmode pings order
    exact ⟨⟨order.toFinmap, sel⟩, by simp only [step, hsel]⟩
  | select req =>
    obtain ⟨name, sel, hsel, -⟩ := answer_spec env s.selector req
    exact ⟨{ s with selector := sel }, by simp only [step, hsel]⟩

variable (env) in
theorem Current.answer (hcur : Current s) (req : Request V) :
    ∃ name sel, answer env s.selector req = .ok (name, sel) ∧ (s.servers = ∅ → name = []) ∧
      (s.servers ≠ ∅ → name ∈ s.servers) := by
  obtain ⟨order, horder, hkeys⟩ := hcur
  obtain ⟨name, sel, hsel, -, -, hnil, hmem⟩ := answer_spec env s.selector req
  rw [hkeys] at hnil hmem
  refine ⟨name, sel, hsel, fun h => ?_, fun h => ?_⟩
  · exact hnil ((toFinmap_eq_empty order).mp (horder.trans h))
  · rw [← horder] at h ⊢
    exact hmem fun hk => h ((toFinmap_eq_empty order).mpr hk)

/-- **Selectors answer from the current map.** For every selector but that of ping, from every map
and after every sequence of `UpdateServer` and `Select` calls, no call panics, and `Select` returns
a key of the map that was given last, or the empty string if that map is empty. -/
theorem selectors_answer_current (env : Env V) (pings : Bytes → PingOutcome) {mode : SelectMode}
    (hmode : mode ≠ .ping) (order : MetaOrder) :
    ∃ sel, newSelector env pings mode order = .ok sel ∧
      ∀ s, Reach (step env) Any ⟨order.toFinmap, sel⟩ s →
        (∀ l, ∃ t, step env s l = some t) ∧
        ∀ req : Request V, ∃ name sel', Updates.answer env s.selector req = .ok (name, sel') ∧
          (s.servers ≠ ∅ → name ∈ s.servers) ∧ (s.servers = ∅ → name = []) ∧
          ([] ∉ s.servers → (name = [] ↔ s.servers = ∅)) := by
  obtain ⟨sel, hsel, hping⟩ := newSelector_ok hmode env pings order
  refine ⟨sel, hsel, fun s hs => ?_⟩
  obtain ⟨hcur, hsame⟩ := current_of_reach hsel hs
  refine ⟨exists_step (by rw [hsame]; exact hping), fun req => ?_⟩
  obtain ⟨name, sel', hans, hnil, hmem⟩ := hcur.answer env req
  refine ⟨name, sel', hans, hmem, hnil, fun hnonempty => ⟨fun hname => ?_, hnil⟩⟩
  by_contra hne
  exact hnonempty (hname ▸ hmem hne)

end Runs

/-- The servers `a@`, `b@` and `c@`. -/
def three : MetaOrder := ((AList.singleton [99, 64] []).insert [98, 64] []).insert [97, 64] []

/-- The weighted selector, after it was given a map without servers and then one with a single
server. -/
theorem selectors_answer_current_shrunk :
    ∃ s, Reach (step plainEnv) Any ⟨three.toFinmap, .weighted (createWeighted plainEnv three)⟩ s ∧
      ∀ req, ∃ sel', answer plainEnv s.selector req = .ok ([97, 64], sel') := by
  have hrun : Reach (step plainEnv) Any
      ⟨three.toFinmap, .weighted (createWeighted plainEnv three)⟩ _ :=
    reach_of_exec [.select ⟨0, [], [], []⟩, .updateServer (fun _ => .unresolved) ∅,
      .select ⟨0, [], [], []⟩,
      .updateServer (fun _ => .unresolved) (AList.singleton [97, 64] [])] rfl
  refine ⟨_, hrun, fun req => ?_⟩
  obtain ⟨sel, hsel, hall⟩ := selectors_answer_current plainEnv (fun _ => .unresolved)
    (show SelectMode.weighted ≠ .ping from nofun) three
  cases hsel
  obtain ⟨name, sel', hans, hmem, -⟩ := (hall _ hrun).2 req
  have hname : name ∈ (AList.singleton [97, 64] [] : MetaOrder).toFinmap := hmem (by decide)
  have hkey : name ∈ [[97, 64]] := hname
  obtain rfl := List.mem_singleton.mp hkey
  exact ⟨sel', hans⟩

/-! ### Round robin -/

/-- Consecutive `Select` calls: the names, and the selector afterwards. -/
def selectAll (env : Env V) : Selector → List (Request V) → Except Fault (List Bytes × Selector)
  | sel, [] => .ok ([], sel)
  | sel, req :: reqs => do
    let (name, sel) ← answer env sel req
    let (names, sel) ← selectAll env sel reqs
    return (name :: names, sel)

/-- The round-robin selector goes round its list, from the index that it has. -/
theorem selectAll_roundRobin (env : Env V) {ss : List Bytes} (hne : ss ≠ []) (i : ℕ)
    (reqs : List (Request V)) :
    ∃ i', selectAll env (.roundRobin ss i) reqs =
      .ok (goRound ss i reqs.length, .roundRobin ss i') := by
  induction reqs generalizing i with
  | nil => exact ⟨i, rfl⟩
  | cons req reqs ih =>
    have hlt : i % ss.length < ss.length := Nat.mod_lt i (List.length_pos_iff.mpr hne)
    have hans : answer env (.roundRobin ss i) req =
        .ok (ss[i % ss.length], .roundRobin ss (i % ss.length + 1)) := by
      simp only [answer, select, if_neg hne, index, List.getElem?_eq_getElem hlt]
      rfl
    obtain ⟨i', hrest⟩ := ih (i % ss.length + 1)
    refine ⟨i', ?_⟩
    rw [selectAll, hans, ok_bind]
    dsimp only
    rw [hrest, ok_bind, List.length_cons, goRound, List.getElem?_eq_getElem hlt]
    rfl

/-- **Round robin is fair from every index.** Whatever lists the selector had before and wherever
they left its index, among `k` consecutive `Select` calls on a list of `n` servers every server is
chosen `k / n` times, rounded down or up, and among `n` calls every server is chosen once. -/
theorem round_robin_fair {env : Env V} {pings : Bytes → PingOutcome} {order : MetaOrder}
    {sel : Selector} (hsel : newSelector env pings .roundRobin order = .ok sel) {s : State}
    (h : Reach (step env) Any ⟨order.toFinmap, sel⟩ s) (hne : s.servers ≠ ∅)
    (reqs : List (Request V)) :
    ∃ out sel', selectAll env s.selector reqs = .ok (out, sel') ∧ out.length = reqs.length ∧
      ∀ name ∈ s.servers,
        (out.count name = reqs.length / s.servers.keys.card ∨
          out.count name = (reqs.length + s.servers.keys.card - 1) / s.servers.keys.card) ∧
        (reqs.length = s.servers.keys.card → out.count name = 1) := by
  obtain ⟨⟨last, hlast, hkeys⟩, hmode⟩ := current_of_reach hsel h
  cases hsel
  -- the selector is still a round-robin selector, with the keys of the last map
  obtain ⟨ss, i, hss⟩ : ∃ ss i, s.selector = .roundRobin ss i := by
    cases hs : s.selector with
    | roundRobin ss i => exact ⟨ss, i, rfl⟩
    | _ => rw [hs] at hmode; cases hmode
  rw [hss] at hkeys ⊢
  obtain rfl : ss = last.keys := hkeys
  have hnil : last.keys ≠ [] := fun hk => hne (hlast ▸ (toFinmap_eq_empty last).mpr hk)
  have hcard : s.servers.keys.card = last.keys.length := by
    rw [← hlast]
    rfl
  obtain ⟨i', hall⟩ := selectAll_roundRobin env hnil i reqs
  refine ⟨_, _, hall, length_goRound (List.length_pos_iff.mpr hnil) i _, fun name hname => ?_⟩
  have hmem : name ∈ last.keys := by
    rw [← hlast] at hname
    exact hname
  rw [hcard]
  refine ⟨count_goRound last.keys_nodup hmem i _, fun hk => ?_⟩
  rw [hk]
  exact count_goRound_round last.keys_nodup hmem i

/-- Three servers, of which two remain after the index has gone to the end of the list: two more
calls reach each of them. -/
theorem round_robin_fair_shrunk :
    ∃ s out sel', Reach (step plainEnv) Any ⟨three.toFinmap, .roundRobin three.keys 0⟩ s ∧
      selectAll plainEnv s.selector [⟨0, [], [], []⟩, ⟨0, [], [], []⟩] = .ok (out, sel') ∧
      out.count [98, 64] = 1 ∧ out.count [99, 64] = 1 := by
  have hrun : Reach (step plainEnv) Any ⟨three.toFinmap, .roundRobin three.keys 0⟩ _ :=
    reach_of_exec [.select ⟨0, [], [], []⟩, .select ⟨0, [], [], []⟩, .select ⟨0, [], [], []⟩,
      .updateServer (fun _ => .unresolved) (three.erase [97, 64])] rfl
  have hsel : newSelector plainEnv (fun _ => .unresolved) .roundRobin three =
      .ok (.roundRobin three.keys 0) := rfl
  obtain ⟨out, sel', hall, -, hfair⟩ :=
    round_robin_fair hsel hrun (by decide) [⟨0, [], [], []⟩, ⟨0, [], [], []⟩]
  refine ⟨_, out, sel', hrun, hall, ?_, ?_⟩
  · exact (hfair [98, 64] (by decide)).2 rfl
  · exact (hfair [99, 64] (by decide)).2 rfl

end Frpc.Selectors.Updates
