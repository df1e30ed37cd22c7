import Frpc.Registry.Discovery
import Frpc.Selectors.Modes

/-! # Selection and discovery

The list of servers lives in two places: `Client.Discovery` and `Client.watch` store it in
`registryClient.servers`, and `Client.Selector` gives the selector a copy of what is there. Nobody
calls `UpdateServer`, so a selector answers from the list it was made from. Where every list that is
processed has the names that the selector has (`InStep`), the selection follows the discovery
(`selection_follows`). -/

namespace Frpc.Client.Selection

open Frpc.Basic Frpc.Lib.Floats Frpc.Lib.Slices Frpc.Lib.Runs Frpc.Registry.Discovery
  Frpc.Selectors.Modes

/-- The fields `registryClient.servers`, which is `nil` as long as no discovery is set, and
`controllerClient.selector`. -/
structure State where
  servers : Option Servers
  selector : Option Selector

/-- The steps. -/
inductive Label (V : Type) where
  /-- `Discovery`, which has read `pairs`. -/
  | discovery (pairs : List KV)
  /-- `Selector(mode)`, which visits the servers in the order `order` and pings them. -/
  | selector (mode : SelectMode) (pings : Bytes → PingOutcome) (order : MetaOrder)
  /-- `watch` processes a list. -/
  | watch (pairs : List KV)
  /-- The start of `Call` if there is no selector. -/
  | default (order : MetaOrder)
  /-- `Select` in `selectClient`, with the random number `x`. -/
  | select (x : UInt32) (servicePath serviceMethod : Bytes) (args : V)

variable {V : Type}

/-- `Selector`: the order is one of the map, which may be `nil`. A panic ends the program. -/
def setSelector (env : Env V) (s : State) (mode : SelectMode) (pings : Bytes → PingOutcome)
    (order : MetaOrder) : Option State :=
  if order.toFinmap = s.servers.getD ∅ then
    match newSelector env pings mode order with
    | .ok sel => some { s with selector := some sel }
    | .error _ => none
  else none

/-- `Select` in `selectClient`: the name that it returns, and the state afterwards. -/
def selectName (env : Env V) (s : State) (x : UInt32) (servicePath serviceMethod : Bytes)
    (args : V) :
    Option (Except Fault (Bytes × State)) :=
  s.selector.map fun sel => do
    let (cname, sel) ← select env x servicePath serviceMethod args sel
    return (cname, { s with selector := some sel })

/-- One step. -/
def step (env : Env V) (s : State) : Label V → Option State
  | .discovery pairs => some { s with servers := some (serversOf pairs) }
  | .selector mode pings order => setSelector env s mode pings order
  | .watch pairs =>
    if s.servers.isSome then some { s with servers := some (serversOf pairs) } else none
  | .default order =>
    if s.selector.isNone then setSelector env s .random (fun _ => .unresolved) order else none
  | .select x servicePath serviceMethod args =>
    -- without a discovery `Call` has returned before
    if s.servers.isSome then
      match selectName env s x servicePath serviceMethod args with
      | some (.ok (_, s)) => some s
      | _ => none
    else none

/-- A new client. -/
def init : State := ⟨none, none⟩

/-- The condition on the steps: a list that is processed has no empty name, and the names that the
selector has, if there is one. -/
def InStep (s : State) : Label V → Prop
  | .discovery pairs | .watch pairs =>
    [] ∉ serversOf pairs ∧ ∀ sel, s.selector = some sel → ∀ cname, cname ∈ names sel ↔
      cname ∈ serversOf pairs
  | _ => True

/-- The invariant: the selector has the names of the list that was processed last. -/
structure Following (s : State) : Prop where
  nonempty : ∀ {m}, s.servers = some m → [] ∉ m
  names : ∀ {m sel}, s.servers = some m → s.selector = some sel →
    ∀ cname, cname ∈ names sel ↔ cname ∈ m

section Steps

variable {env : Env V} {s t : State}

theorem Following.init : Following init := ⟨fun h => (by cases h), fun h => (by cases h)⟩

/-- The list is replaced by one with the names that the selector has. -/
theorem Following.setServers {m : Metadata} (hne : [] ∉ m)
    (hnames : ∀ sel, s.selector = some sel → ∀ cname, cname ∈ Frpc.Selectors.Modes.names sel ↔
      cname ∈ m) :
    Following { s with servers := some m } where
  nonempty hm := by
    cases hm
    exact hne
  names hm hsel := by
    cases hm
    exact hnames _ hsel

theorem Following.setSelector {mode : SelectMode} {pings : Bytes → PingOutcome} {order : MetaOrder}
    (hf : Following s) (h : setSelector env s mode pings order = some t) : Following t := by
  unfold Selection.setSelector at h
  split_ifs at h with horder
  split at h
  · rename_i sel hsel
    cases h
    refine ⟨hf.nonempty, fun {m sel'} hm hsel' cname => ?_⟩
    cases hsel'
    change s.servers = some m at hm
    rw [hm, Option.getD_some] at horder
    rw [names_newSelector hsel, ← horder]
    exact Iff.rfl
  · cases h

variable (env) in
/-- What `Select` does: the selector keeps its names, and returns one of them if it has any. -/
theorem selectName_cases {sel : Selector} (hsel : s.selector = some sel) (x : UInt32)
    (servicePath serviceMethod : Bytes) (args : V) :
    ∃ cname sel', selectName env s x servicePath serviceMethod args =
        some (.ok (cname, { s with selector := some sel' })) ∧ names sel' = names sel ∧
      ((names sel = [] ∧ cname = []) ∨ cname ∈ names sel) := by
  by_cases hnil : names sel = []
  · refine ⟨[], sel, ?_, rfl, Or.inl ⟨hnil, rfl⟩⟩
    rw [selectName, hsel, Option.map_some, select_nil env x servicePath serviceMethod args hnil]
    rfl
  · obtain ⟨cname, sel', hok, hmem, hnames⟩ := select_ok env x servicePath serviceMethod args hnil
    refine ⟨cname, sel', ?_, hnames, Or.inr hmem⟩
    rw [selectName, hsel, Option.map_some, hok]
    rfl

theorem Following.step {l : Label V} (hf : Following s) (hok : InStep s l)
    (h : step env s l = some t) :
    Following t := by
  cases l with
  | discovery pairs =>
    cases h
    exact .setServers hok.1 hok.2
  | selector mode pings order => exact hf.setSelector h
  | watch pairs =>
    simp only [Selection.step] at h
    split_ifs at h
    cases h
    exact .setServers hok.1 hok.2
  | default order =>
    simp only [Selection.step] at h
    split_ifs at h
    exact hf.setSelector h
  | select x p q args =>
    simp only [Selection.step] at h
    split_ifs at h
    cases hsel : s.selector with
    | none =>
      rw [selectName, hsel] at h
      cases h
    | some sel =>
      obtain ⟨cname, sel', hname, hnames, -⟩ := selectName_cases env hsel x p q args
      rw [hname] at h
      cases h
      refine ⟨hf.nonempty, fun {m sel''} hm hsel'' => ?_⟩
      cases hsel''
      rw [hnames]
      exact hf.names hm hsel

end Steps

/-- **Selection follows discovery.** In every run in which the lists that are processed have the
names of the selector, after a list has been processed `Select` returns a name, which is a key of
that list or empty, and it is empty only if the list is. -/
theorem selection_follows {env : Env V} {s : State} (h : Reach (step env) InStep init s)
    {m : Servers}
    (hm : s.servers = some m) {sel : Selector} (hsel : s.selector = some sel) (x : UInt32)
    (servicePath serviceMethod : Bytes) (args : V) :
    ∃ cname t, selectName env s x servicePath serviceMethod args = some (.ok (cname, t)) ∧
      (cname ≠ [] → cname ∈ m) ∧ (cname = [] → m = ∅) := by
  have hf : Following s := h.invariant .init fun _ hf hok hs => hf.step hok hs
  have hnames := hf.names hm hsel
  obtain ⟨cname, sel', hname, -, hcase⟩ :=
    selectName_cases env hsel x servicePath serviceMethod args
  refine ⟨cname, _, hname, fun hne => ?_, fun hnil => ?_⟩
  · rcases hcase with ⟨-, hnil⟩ | hmem
    · exact absurd hnil hne
    · exact (hnames cname).mp hmem
  · rcases hcase with ⟨hno, -⟩ | hmem
    · refine Finmap.ext_lookup fun k => ?_
      rw [Finmap.lookup_empty]
      refine Finmap.lookup_eq_none.mpr fun hk => ?_
      rw [← hnames k, hno] at hk
      cases hk
    · rw [hnil] at hmem
      exact absurd ((hnames []).mp hmem) (hf.nonempty hm)

/-- The server `a@`. -/
def first : Bytes := [97, 64]

/-- The server `b@`. -/
def second : Bytes := [98, 64]

/-- The list of one server. -/
def listOf (cname metadata : Bytes) : List KV := [⟨cname, metadata⟩]

/-- Every host answers at once. -/
def quick : Bytes → PingOutcome := fun _ => .ran (some 0) false

/-- A list in which only the metadata have changed. -/
theorem selection_follows_metadata :
    ∃ s m cname t, Reach (step plainEnv) InStep init s ∧ s.servers = some m ∧
      selectName plainEnv s 7 [65] [77] [] = some (.ok (cname, t)) ∧ cname ≠ [] ∧ cname ∈ m := by
  have hconf : Reach (step plainEnv) InStep init _ :=
    .tail (.tail .refl ⟨by decide, fun _ h => (by cases h)⟩ rfl (l := .discovery (listOf first [])))
      trivial rfl (l := .selector .weighted quick (AList.singleton first []))
  have hrun : Reach (step plainEnv) InStep init _ :=
    .tail hconf ⟨by decide, fun sel hsel cname => by cases hsel; rfl⟩ rfl
      (l := .watch (listOf first [119]))
  obtain ⟨cname, t, hname, hkey, hempty⟩ := selection_follows hrun rfl rfl 7 [65] [77] []
  have hne : cname ≠ [] := fun h => absurd (hempty h) (by decide)
  exact ⟨_, _, cname, t, hrun, rfl, hname, hne, hkey hne⟩

/-- The selector is made from the first list, and a second one is processed. -/
def madeBetween (mode : SelectMode) : List (Label Bytes) :=
  [.discovery (listOf first []), .selector mode quick (AList.singleton first []),
    .watch (listOf second [])]

/-- The selector is made before the discovery is set. -/
def madeBefore (mode : SelectMode) : List (Label Bytes) :=
  [.selector mode quick ∅, .discovery (listOf first [])]

/-- In this mode a server is selected that is not in the list any more, and none of a list that
arrived after the selector was made. -/
def Stale (mode : SelectMode) : Prop :=
  (∃ s m, exec (step plainEnv) init (madeBetween mode) = some s ∧ s.servers = some m ∧ first ∉ m ∧
    ∀ x p q args, ∃ t, selectName plainEnv s x p q args = some (.ok (first, t))) ∧
  ∃ s m, exec (step plainEnv) init (madeBefore mode) = some s ∧ s.servers = some m ∧ m ≠ ∅ ∧
    ∀ x p q args, ∃ t, selectName plainEnv s x p q args = some (.ok ([], t))

theorem selectName_one {env : Env V} {s : State} {sel : Selector} {cname : Bytes}
    (hsel : s.selector = some sel) (hnames : names sel = [cname]) (x : UInt32) (p q : Bytes)
    (args : V) :
    ∃ t, selectName env s x p q args = some (.ok (cname, t)) := by
  obtain ⟨cname', sel', hname, -, hcase⟩ := selectName_cases env hsel x p q args
  rw [hnames, List.mem_singleton] at hcase
  obtain ⟨hnil, -⟩ | rfl := hcase
  · cases hnil
  · exact ⟨_, hname⟩

theorem selectName_none {env : Env V} {s : State} {sel : Selector} (hsel : s.selector = some sel)
    (hnames : names sel = []) (x : UInt32) (p q : Bytes) (args : V) :
    ∃ t, selectName env s x p q args = some (.ok ([], t)) := by
  obtain ⟨cname', sel', hname, -, hcase⟩ := selectName_cases env hsel x p q args
  rw [hnames] at hcase
  obtain ⟨-, rfl⟩ | hmem := hcase
  · exact ⟨_, hname⟩
  · cases hmem

theorem stale_of_mode (mode : SelectMode) : Stale mode := by
  cases mode <;>
    exact ⟨⟨_, _, rfl, rfl, by decide, selectName_one rfl rfl⟩,
      ⟨_, _, rfl, rfl, by decide, selectName_none rfl rfl⟩⟩

/-- The selection is stale in every mode. -/
theorem selection_stale :
    Stale .random ∧ Stale .roundRobin ∧ Stale .weighted ∧ Stale .hash ∧ Stale .ping ∧
    Stale .closest :=
  ⟨stale_of_mode _, stale_of_mode _, stale_of_mode _, stale_of_mode _, stale_of_mode _,
    stale_of_mode _⟩

end Frpc.Client.Selection
