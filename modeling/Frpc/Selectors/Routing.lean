import Frpc.Selectors.Modes
import Mathlib.Data.List.Rotate

/-! # Hash routing

A `hashSelector` hashes the request to an index into its list of names, and the list has the order
in which the `range` loop visited the map. So the server depends on that order: `Hash` gives the
same index in two runs, but the lists differ. If the map has two servers or more, then for every
request there is another order of the same map that routes the request elsewhere
(`hash_routing`). -/

namespace Frpc.Selectors.Routing

open Frpc.Basic Frpc.Lib.Floats Frpc.Lib.Slices Frpc.Selectors.Hash Frpc.Selectors.Modes

variable {V : Type}

/-- A `hashSelector` that is built from the map `servers`. -/
inductive Built (env : Env V) (servers : Metadata) : Selector → Prop where
  /-- `newHashSelector` -/
  | new {pings : Bytes → PingOutcome} {order : MetaOrder} {sel : Selector}
      (horder : order.toFinmap = servers)
      (hsel : newSelector env pings .hash order = .ok sel) : Built env servers sel
  /-- `UpdateServer` of a `hashSelector`. -/
  | updated {pings : Bytes → PingOutcome} {order : MetaOrder} {ss : List Bytes} {sel : Selector}
      (horder : order.toFinmap = servers)
        (hsel : updateServer env pings order (.hash ss) = .ok sel) :
      Built env servers sel

/-- The server that a selector selects. -/
def route (env : Env V) (x : UInt32) (servicePath serviceMethod : Bytes) (args : V)
    (sel : Selector) :
    Except Fault Bytes :=
  (select env x servicePath serviceMethod args sel).map Prod.fst

/-! ### Orders of one map -/

/-- The same map, visited from its second entry on. -/
def rotate (order : MetaOrder) : MetaOrder :=
  ⟨order.entries.rotate 1, (List.perm_nodupKeys (List.rotate_perm _ _)).mpr order.nodupKeys⟩

theorem rotate_toFinmap (order : MetaOrder) : (rotate order).toFinmap = order.toFinmap :=
  AList.toFinmap_eq.mpr (List.rotate_perm _ _)

theorem rotate_keys (order : MetaOrder) : (rotate order).keys = order.keys.rotate 1 :=
  List.map_rotate _ _ _

theorem length_keys {order : MetaOrder} {servers : Metadata} (h : order.toFinmap = servers) :
    order.keys.length = servers.keys.card := by
  subst h
  rfl

theorem keys_eq {order order' : MetaOrder} (h : order.toFinmap = order'.toFinmap)
    (hlen : order.keys.length ≤ 1) : order.keys = order'.keys := by
  have hperm : order.keys.Perm order'.keys := (AList.toFinmap_eq.mp h).map Sigma.fst
  rcases Nat.le_one_iff_eq_zero_or_eq_one.mp hlen with hzero | hone
  · have hnil := List.length_eq_zero_iff.mp hzero
    rw [hnil] at hperm ⊢
    exact hperm.nil_eq
  · obtain ⟨k, hk⟩ := List.length_eq_one_iff.mp hone
    rw [hk] at hperm ⊢
    exact (List.perm_singleton.mp hperm.symm).symm

/-- With two servers or more, the rotated list has another server at every index. -/
theorem rotate_getElem_ne {ss : List Bytes} (hnodup : ss.Nodup) (hlen : 2 ≤ ss.length) {i : ℕ}
    (hi : i < ss.length) (hi' : i < (ss.rotate 1).length) : (ss.rotate 1)[i] ≠ ss[i] := by
  intro heq
  rw [List.getElem_rotate] at heq
  have hidx : (i + 1) % ss.length = i := hnodup.getElem_inj_iff.mp heq
  by_cases hlast : i + 1 = ss.length
  · rw [hlast, Nat.mod_self] at hidx
    omega
  · rw [Nat.mod_eq_of_lt (by omega)] at hidx
    omega

/-! ### The route -/

section Route

variable {env : Env V} {servers : Metadata} {servicePath serviceMethod : Bytes} {args : V}

/-- The list of a `hashSelector` is the list of keys in one of the orders. -/
theorem Built.order {sel : Selector} (h : Built env servers sel) :
    ∃ order : MetaOrder, order.toFinmap = servers ∧ sel = .hash order.keys := by
  cases h with
  | new horder hsel =>
    cases hsel
    exact ⟨_, horder, rfl⟩
  | updated horder hsel =>
    cases hsel
    exact ⟨_, horder, rfl⟩

theorem Built.of_order {order : MetaOrder} (h : order.toFinmap = servers) :
    Built env servers (.hash order.keys) :=
  @Built.new _ env servers (fun _ => .unresolved) order _ h rfl

theorem route_hash (env : Env V) (servicePath serviceMethod : Bytes) (args : V) {n : ℕ}
    (hn : 0 < n) :
    ∃ i, i < n ∧ ∀ (x : UInt32) (ss : List Bytes), ss.length = n →
      route env x servicePath serviceMethod args (.hash ss) = index ss i := by
  obtain ⟨i, hi, h0, hlt⟩ := jumpConsistentHash_spec env.rounding hn
    [servicePath, serviceMethod, env.sprint args]
  refine ⟨i.toNat, by omega, fun x ss hlen => ?_⟩
  have hne : ss ≠ [] := List.ne_nil_of_length_pos (by omega)
  unfold route
  rw [select, if_neg hne, hlen, hi, ok_bind]
  cases index ss i.toNat <;> rfl

/-- Two servers or more: the rotated order routes the request elsewhere. -/
theorem route_rotate_ne (x x' : UInt32) {order : MetaOrder} (hlen : 2 ≤ order.keys.length) :
    route env x' servicePath serviceMethod args (.hash (rotate order).keys) ≠
      route env x servicePath serviceMethod args (.hash order.keys) := by
  obtain ⟨i, hi, hroute⟩ := route_hash env servicePath serviceMethod args
    (n := order.keys.length) (by omega)
  have hrot : (order.keys.rotate 1).length = order.keys.length := List.length_rotate _ _
  have hi' : i < (order.keys.rotate 1).length := by omega
  rw [rotate_keys, hroute x' _ hrot, hroute x _ rfl, index, index, List.getElem?_eq_getElem hi,
    List.getElem?_eq_getElem hi']
  intro heq
  exact rotate_getElem_ne order.keys_nodup hlen hi hi' (Except.ok.inj heq)

end Route

/-- **Hash routing.** Every two `hashSelector`s that are built from the same map select the same
server for a request if and only if the map has at most one server, and only then `UpdateServer`
with the same map does not move the request. -/
theorem hash_routing (env : Env V) (pings : Bytes → PingOutcome) (servers : Metadata)
    (servicePath serviceMethod : Bytes) (args : V) :
    ((∀ x x' sel sel', Built env servers sel → Built env servers sel' →
        route env x servicePath serviceMethod args sel =
          route env x' servicePath serviceMethod args sel') ↔
      servers.keys.card ≤ 1) ∧
    ((∀ x x' sel sel' (order : MetaOrder), Built env servers sel → order.toFinmap = servers →
        updateServer env pings order sel = .ok sel' →
        route env x' servicePath serviceMethod args sel' =
          route env x servicePath serviceMethod args sel) ↔
      servers.keys.card ≤ 1) := by
  obtain ⟨entry, rfl⟩ : ∃ order : MetaOrder, order.toFinmap = servers :=
    Finmap.induction_on servers fun order => ⟨order, rfl⟩
  have hlen : entry.keys.length = entry.toFinmap.keys.card := length_keys rfl
  -- a map with at most one server
  have hone : ∀ x x' (order order' : MetaOrder), entry.toFinmap.keys.card ≤ 1 →
      order.toFinmap = entry.toFinmap → order'.toFinmap = entry.toFinmap →
      route env x servicePath serviceMethod args (.hash order.keys) =
        route env x' servicePath serviceMethod args (.hash order'.keys) := by
    intro x x' order order' hcard horder horder'
    have hkeys : order.keys = order'.keys :=
      keys_eq (horder.trans horder'.symm) ((length_keys horder).trans_le hcard)
    rw [hkeys]
    rfl
  refine ⟨⟨fun h => ?_, fun hcard x x' sel sel' hsel hsel' => ?_⟩,
    ⟨fun h => ?_, fun hcard x x' sel sel' order hsel horder hupdate => ?_⟩⟩
  · by_contra hcard
    exact route_rotate_ne 0 0 (by omega) (h 0 0 _ _ (Built.of_order (rotate_toFinmap entry))
      (Built.of_order rfl))
  · obtain ⟨order, horder, rfl⟩ := hsel.order
    obtain ⟨order', horder', rfl⟩ := hsel'.order
    exact hone x x' order order' hcard horder horder'
  · by_contra hcard
    exact route_rotate_ne 0 0 (by omega)
      (h 0 0 _ _ _ (Built.of_order rfl) (rotate_toFinmap entry) rfl)
  · obtain ⟨order', horder', rfl⟩ := hsel.order
    cases hupdate
    exact hone x' x order order' hcard horder horder'

/-- A map with two servers, in one of its orders. -/
def oneTwo : MetaOrder := (AList.singleton (str "tcp@two") []).insert (str "tcp@one") []

/-- The same map, in the other order. -/
def twoOne : MetaOrder := (AList.singleton (str "tcp@one") []).insert (str "tcp@two") []

/-- A selector is made from two servers, and is updated with the same two servers: the request
`Arith.Mul` goes to another server than before. -/
theorem hash_routing_moves :
    oneTwo.toFinmap = twoOne.toFinmap ∧
      newSelector plainEnv (fun _ => .unresolved) .hash oneTwo =
        .ok (.hash [str "tcp@one", str "tcp@two"]) ∧
      updateServer plainEnv (fun _ => .unresolved) twoOne (.hash [str "tcp@one", str "tcp@two"]) =
        .ok (.hash [str "tcp@two", str "tcp@one"]) ∧
      route plainEnv 0 (str "Arith") (str "Mul") (str "1") (.hash [str "tcp@one", str "tcp@two"]) =
        .ok (str "tcp@two") ∧
      route plainEnv 0 (str "Arith") (str "Mul") (str "1") (.hash [str "tcp@two", str "tcp@one"]) =
        .ok (str "tcp@one") := by
  refine ⟨AList.toFinmap_eq.mpr (List.Perm.swap _ _ _), rfl, rfl, ?_, ?_⟩
  · with_unfolding_all rfl
  · with_unfolding_all rfl

end Frpc.Selectors.Routing
