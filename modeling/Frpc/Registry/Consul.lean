import Frpc.Lib.Slices
import Frpc.Lib.Tables
import Frpc.Registry.Discovery

/-! # Registration and discovery in Consul

`registry/registry_consul.go` and `registry/discovery_consul.go` over one store. A `ConsulRegister`
stores its base path, a directory for every service, and in it one node for its own address; a
`ConsulDiscovery` lists the keys that start with the path of a service, and takes that path from
them. A directory is queried by string comparison only, so the list of a service also has the keys
of every service whose name extends its name. And the ticker of a started register writes a `tps`
into the metadata of its nodes.

The node is stored with a TTL if the register has an update interval. The store then ties the key to
a session first: it locks the key, which writes an empty value, renews the session, and writes the
metadata with a request of its own. What is listed in between, or after that request has failed, is
an address without metadata.

Where none of this happens (`Apart`, and no node is locked and not yet written), the discovery has
exactly what was registered (`discovery_inverts`). -/

namespace Frpc.Registry.Consul

open Frpc.Basic Frpc.Lib.Runs Frpc.Lib.Slices Frpc.Lib.Tables Frpc.Registry.Discovery

/-- What is stored at a key: the value, and whether a session holds it. -/
structure KVPair where
  value : Bytes
  session : Bool

/-- The keys and what is stored at them. -/
abbrev Store := AList fun _ : Bytes => KVPair

/-- The libraries: whether nothing of a name is left by `strings.TrimSpace`, and what
`url.ParseQuery`, `Set("tps", "")` and `Encode` make of metadata. -/
structure Env where
  blank : Bytes → Bool
  blank_nil : blank [] = true
  setTps : Bytes → Bytes

/-- `type ConsulRegister struct`; `connected` says that its store has been made, `ticking` that the
ticker has been started. -/
structure Register where
  serviceAddress : Bytes
  basePath : Bytes
  services : List Bytes
  metas : AList fun _ : Bytes => Bytes
  updateInterval : ℤ
  connected : Bool
  ticking : Bool

/-- A `Put` of a node that is under way, by `Register` or by the ticker of the register `i`.
`renewed` says that the session has been renewed, or that there is no TTL. -/
structure NodePut where
  i : ℕ
  basePath : Bytes
  name : Bytes
  serviceAddress : Bytes
  value : Bytes
  ticker : Bool
  renewed : Bool

/-- Consul, the registers, and what they are putting there. The last two fields are for the
statements only: the metadata with which an address was last registered, by base path, service name
and address; and the keys that were locked and have not been written since. -/
structure State where
  store : Store
  registers : ℕ → Option Register
  puts : List NodePut
  registered : AList fun _ : Bytes × Bytes × Bytes => Bytes
  emptied : List Bytes

/-- The steps. An `Option Error` is what the store answers to a request; a request that is answered
with an error has changed nothing. -/
inductive Label where
  /-- `NewConsulRegistry` -/
  | new (i : ℕ) (basePath serviceAddress : Bytes) (interval : ℤ)
  /-- `Start` -/
  | start (i : ℕ) (newStore put : Option Error)
  /-- `Register`, up to the `Put` of the node. -/
  | register (i : ℕ) (name metadata : Bytes) (newStore put₁ put₂ : Option Error)
  /-- One service in a round of the ticker, up to its `Put`. -/
  | tick (i : ℕ) (name : Bytes) (get : Option Error)
  /-- A `Put` with a TTL finds no session at its key, makes one, and locks the key with it. -/
  | acquire (k : ℕ)
  /-- The session is renewed, or it is not in any of the `RenewSessionRetryMax` tries. -/
  | renew (k : ℕ) (renewed : Bool)
  /-- The last request of a `Put`. -/
  | write (k : ℕ) (put : Option Error)

/-! ### Paths -/

/-- `fmt.Sprintf("%s/%s", a, b)` -/
def join (a b : Bytes) : Bytes := a ++ 47 :: b

/-- A leading `/` is taken away. -/
def strip (p : Bytes) : Bytes := if p.head? = some 47 then p.tail else p

/-- `strings.TrimPrefix(s, p)` -/
def trimPrefix (p s : Bytes) : Bytes := if p.isPrefixOf s then s.drop p.length else s

/-- `strings.Contains(s, p)` -/
def contains (s p : Bytes) : Bool := s.tails.any p.isPrefixOf

/-- The node of a service. -/
def Register.node (r : Register) (name : Bytes) : Bytes :=
  join (join r.basePath name) r.serviceAddress

def NodePut.key (p : NodePut) : Bytes := join (join p.basePath p.name) p.serviceAddress

/-! ### The store -/

/-- A session holds the key. -/
def locked (store : Store) (key : Bytes) : Bool := (store.lookup key).any (·.session)

/-- `KV().Put`, which leaves the session at the key. The client refuses a key that starts with
`/`. -/
def put (store : Store) (key value : Bytes) (answer : Option Error) : Except Error Store :=
  if key.head? = some 47 then
    .error (.other (str "Invalid key. Key must not begin with a '/': " ++ key))
  else
    match answer with
    | some err => .error err
    | none => .ok (store.insert key ⟨value, locked store key⟩)

/-- `KV().Acquire` with the empty value of `lockEntry`, if nobody holds the key. -/
def acquire (store : Store) (key : Bytes) : Option Store :=
  if key.head? = some 47 || locked store key then none else some (store.insert key ⟨[], true⟩)

/-- What happens to the requests of a `Put` with a TTL: whether the key is locked, whether the
session is renewed, and the answer to the last request. -/
structure PutAnswers where
  acquired : Bool
  renewed : Bool
  put : Option Error

def errSessionRenew : Error :=
  .other (str "cannot set or renew session for ttl, unable to operate on sessions")

/-- The last request of a `Put`. -/
def putValue (store : Store) (key value : Bytes) (answer : Option Error) : Store × Option Error :=
  match put store key value answer with
  | .error err => (store, some err)
  | .ok store => (store, none)

/-- `Put` with a TTL, if nothing comes in between: the store afterwards, and the error. -/
def putTTL (store : Store) (key value : Bytes) (ttl : ℤ) (a : PutAnswers) : Store × Option Error :=
  if 0 < ttl then
    let store := if a.acquired then (acquire store key).getD store else store
    if a.renewed then putValue store key value a.put else (store, some errSessionRenew)
  else putValue store key value a.put

/-! ### Registers -/

/-- `libkv.NewStore`, if there is no store yet. -/
def Register.connect (r : Register) (newStore : Option Error) : Except Error Register :=
  match r.connected, newStore with
  | false, some err => .error err
  | _, _ => .ok { r with connected := true }

/-- `Start`: the register and the store afterwards, and the error that is returned. -/
def start (r : Register) (store : Store) (newStore answer : Option Error) :
    Except Fault (Register × Store × Option Error) :=
  match r.connect newStore with
  | .error err => .ok (r, store, some err)
  | .ok r =>
    match r.basePath with
    | [] => .error .bounds
    | _ :: _ =>
      let r := { r with basePath := strip r.basePath }
      match put store r.basePath (str "frpc_path") answer with
      | .error err => .ok (r, store, some err)
      | .ok store =>
        .ok ({ r with ticking := r.ticking || decide (0 < r.updateInterval) }, store, none)

/-- `Register`, up to the `Put` of the node. -/
def registerDirs (env : Env) (r : Register) (store : Store) (name : Bytes)
    (newStore put₁ put₂ : Option Error) : Register × Store × Option Error :=
  if env.blank name then (r, store, some (.other (str "Register service `name` can't be empty")))
  else
    match r.connect newStore with
    | .error err => (r, store, some err)
    | .ok r =>
      match put store r.basePath (str "frpc_path") put₁ with
      | .error err => (r, store, some err)
      | .ok store =>
        match put store (join r.basePath name) name put₂ with
        | .error err => (r, store, if contains err.text (str "Not a file") then none else some err)
        | .ok store => (r, store, none)

/-- The end of `Register`: the service is added to `Services` and `metas`. -/
def Register.add (r : Register) (name metadata : Bytes) : Register :=
  { r with services := r.services ++ [name], metas := r.metas.insert name metadata }

/-- The TTL of the node that `Register` stores. -/
def Register.ttl (r : Register) : ℤ := r.updateInterval * 2

/-- `Register`, if nothing comes in between. -/
def register (env : Env) (r : Register) (store : Store) (name metadata : Bytes)
    (newStore put₁ put₂ : Option Error) (put₃ : PutAnswers) : Register × Store × Option Error :=
  match registerDirs env r store name newStore put₁ put₂ with
  | (r, store, some err) => (r, store, some err)
  | (r, store, none) =>
    match putTTL store (r.node name) metadata r.ttl put₃ with
    | (store, some err) => (r, store, some err)
    | (store, none) => (r.add name metadata, store, none)

/-- The value that the ticker writes: the old one with a `tps`, or the metadata if `Get` fails. -/
def tickValue (env : Env) (r : Register) (store : Store) (name : Bytes) (get : Option Error) :
    Bytes :=
  match get, store.lookup (r.node name) with
  | none, some pair => env.setTps pair.value
  | _, _ => (r.metas.lookup name).getD []

/-! ### The steps -/

/-- A `Put` of a node begins. -/
def State.begin (s : State) (i : ℕ) (r : Register) (name value : Bytes) (ttl : ℤ) (ticker : Bool) :
    State :=
  { s with
    puts := s.puts ++ [⟨i, r.basePath, name, r.serviceAddress, value, ticker, decide (ttl ≤ 0)⟩] }

/-- A `Put` has ended without an error. What the ticker has put does not concern its register. -/
def State.finish (s : State) (k : ℕ) (p : NodePut) (store : Store) : State :=
  let s := { s with
    store
    puts := s.puts.eraseIdx k
    emptied := s.emptied.filter (· != p.key) }
  if p.ticker then s
  else
    { s with
      registers := Function.update s.registers p.i ((s.registers p.i).map (·.add p.name p.value))
      registered := s.registered.insert (p.basePath, p.name, p.serviceAddress) p.value }

/-- One step. -/
def step (env : Env) (s : State) : Label → Option State
  | .new i basePath serviceAddress interval =>
    match s.registers i with
    | some _ => none
    | none =>
      let r : Register := ⟨serviceAddress, basePath, [], ∅, interval, false, false⟩
      some { s with registers := Function.update s.registers i (some r) }
  | .start i newStore answer =>
    (s.registers i).bind fun r =>
      match start r s.store newStore answer with
      | .error _ => none
      | .ok (r, store, _) =>
        some { s with store, registers := Function.update s.registers i (some r) }
  | .register i name metadata newStore put₁ put₂ =>
    (s.registers i).map fun r =>
      match registerDirs env r s.store name newStore put₁ put₂ with
      | (r, store, some _) => { s with store, registers := Function.update s.registers i (some r) }
      | (r, store, none) =>
        State.begin { s with store, registers := Function.update s.registers i (some r) } i r name
          metadata r.ttl false
  | .tick i name get =>
    (s.registers i).bind fun r =>
      if r.ticking && r.services.contains name then
        some (s.begin i r name (tickValue env r s.store name get) (r.updateInterval * 3) true)
      else none
  | .acquire k =>
    (s.puts[k]?).bind fun p =>
      if p.renewed then none
      else (acquire s.store p.key).map fun store =>
        { s with store, emptied := p.key :: s.emptied }
  | .renew k renewed =>
    (s.puts[k]?).bind fun p =>
      if p.renewed then none
      else if renewed then some { s with puts := s.puts.set k { p with renewed := true } }
      else some { s with puts := s.puts.eraseIdx k }
  | .write k answer =>
    (s.puts[k]?).bind fun p =>
      if p.renewed then
        match put s.store p.key p.value answer with
        | .error _ => some { s with puts := s.puts.eraseIdx k }
        | .ok store => some (s.finish k p store)
      else none

/-- An empty store, and no register. -/
def init : State := ⟨∅, fun _ => none, [], ∅, []⟩

/-! ### Discoveries -/

/-- `NewConsulDiscoveryOption` and the start of `newConsulDiscoveryStore`: the path of a service. -/
def discoveryPath (basePath servicePath : Bytes) : Bytes :=
  let path := strip (join basePath servicePath)
  if 1 < path.length ∧ path.getLast? = some 47 then path.dropLast else path

/-- What Consul has for a directory. -/
def listAll (store : Store) (directory : Bytes) : List ((_ : Bytes) × KVPair) :=
  store.entries.filter fun e => directory.isPrefixOf e.1

/-- What `List` and `WatchTree` return of it. -/
def children (store : Store) (directory : Bytes) : List ((_ : Bytes) × KVPair) :=
  (listAll store directory).filter fun e => e.1 ≠ directory

/-- The loop that makes the pairs. -/
def pairsOf (directory : Bytes) (ps : List ((_ : Bytes) × KVPair)) : List KV :=
  ps.map fun e => ⟨trimPrefix (join directory []) e.1, e.2.value⟩

/-- `newConsulDiscoveryStore`: `GetServices` of the discovery, or the error with which it panics. -/
def newConsulDiscovery (basePath servicePath : Bytes) (store : Store) : Except Error (List KV) :=
  let path := discoveryPath basePath servicePath
  if (listAll store path).isEmpty then .error (.other (str "Key not found in store"))
  else .ok (pairsOf path (children store path))

/-- `ConsulDiscovery.watch`: the pairs of a snapshot. -/
def snapshot (basePath servicePath : Bytes) (store : Store) : List KV :=
  let path := discoveryPath basePath servicePath
  pairsOf path (children store path)

/-- The pairs are those that were registered under the name. -/
def Exact (s : State) (basePath name : Bytes) (pairs : List KV) : Prop :=
  (pairs.map (·.key)).Nodup ∧
    ∀ a v, KV.mk a v ∈ pairs ↔ s.registered.lookup (strip basePath, name, a) = some v

/-- What is found at an address: the metadata of the last registration, or nothing but the lock. -/
def State.found (s : State) (basePath name a : Bytes) : Option Bytes :=
  if s.emptied.contains (join (discoveryPath basePath name) a) then some []
  else s.registered.lookup (strip basePath, name, a)

/-- The pairs are those that were registered under the name, but for the addresses that are locked
and not yet written. -/
def Shows (s : State) (basePath name : Bytes) (pairs : List KV) : Prop :=
  (pairs.map (·.key)).Nodup ∧ ∀ a v, KV.mk a v ∈ pairs ↔ s.found basePath name a = some v

/-! ### Paths and prefixes -/

section Paths

variable {base name dir k a : Bytes}

theorem join_ne (a b : Bytes) : join a b ≠ a := by
  intro h
  have := congrArg List.length h
  simp [join] at this

theorem dir_prefix_join (dir a : Bytes) : dir <+: join dir a := ⟨_, rfl⟩

/-- The path of a service is the directory that its registers have stored. -/
theorem discoveryPath_eq (hbase : base ≠ []) (hne : name ≠ []) (hname : 47 ∉ name) :
    discoveryPath base name = join (strip base) name := by
  have hstrip : strip (join base name) = join (strip base) name := by
    obtain ⟨c, cs, rfl⟩ := List.exists_cons_of_ne_nil hbase
    by_cases hc : c = 47 <;> simp [strip, join, hc]
  have hlast : (join (strip base) name).getLast? ≠ some 47 := by
    rw [join, List.getLast?_append, List.getLast?_cons, List.getLast?_eq_some_getLast hne]
    intro h
    simp only [Option.getD_some, Option.some_or, Option.some.injEq] at h
    exact hname (h ▸ List.getLast_mem hne)
  simp only [discoveryPath, hstrip]
  exact if_neg fun h => hlast h.2

theorem trimPrefix_join (dir a : Bytes) : trimPrefix (join dir []) (join dir a) = a := by
  have hsplit : join dir a = join dir [] ++ a := by simp [join]
  have hpre : (join dir []).isPrefixOf (join dir a) = true := by
    rw [hsplit, List.isPrefixOf_iff_prefix]
    exact List.prefix_append ..
  rw [trimPrefix, if_pos hpre, hsplit, List.drop_left]

/-- A key that does not concern the directory: it is the directory itself, or does not start with
it. -/
def Clear (dir k : Bytes) : Prop := k = dir ∨ ¬ dir <+: k

theorem not_clear_join (dir a : Bytes) : ¬ Clear dir (join dir a) := by
  rintro (h | h)
  · exact join_ne dir a h
  · exact h (dir_prefix_join dir a)

theorem clear_base (base name : Bytes) : Clear (join base name) base := by
  right
  intro h
  have := h.length_le
  rw [join, List.length_append, List.length_cons] at this
  omega

end Paths

/-! ### What is stored -/

/-- A key of a node: it belongs to the service, or does not concern its path. -/
def Fits (base name basePath m key : Bytes) : Prop :=
  (basePath = strip base ∧ m = name) ∨ Clear (discoveryPath base name) key

/-- The condition on the steps, for a base path and a service name: no key of another base path or
another service starts with the path of the service, and what the ticker writes to a node of the
service is what was last registered for it. -/
def Apart (base name : Bytes) (s : State) : Label → Prop
  | .start i _ _ => ∀ r ∈ s.registers i, Clear (discoveryPath base name) (strip r.basePath)
  | .register i m _ _ _ _ => ∀ r ∈ s.registers i,
    (r.basePath = strip base ∧ m = name) ∨
      (Clear (discoveryPath base name) r.basePath ∧
        Clear (discoveryPath base name) (join r.basePath m) ∧
          Clear (discoveryPath base name) (r.node m))
  | .tick i m _ => ∀ r ∈ s.registers i, Fits base name r.basePath m (r.node m)
  | .write k _ => ∀ p ∈ s.puts[k]?, p.ticker = true → p.basePath = strip base → p.name = name →
    s.registered.lookup (strip base, name, p.serviceAddress) = some p.value
  | _ => True

instance (dir k : Bytes) : Decidable (Clear dir k) := inferInstanceAs (Decidable (_ ∨ ¬ _))

instance (base name basePath m key : Bytes) : Decidable (Fits base name basePath m key) :=
  inferInstanceAs (Decidable (_ ∨ _))

instance (base name : Bytes) (s : State) : (l : Label) → Decidable (Apart base name s l)
  | .start i _ _ => inferInstanceAs (Decidable (∀ r ∈ s.registers i, _))
  | .register i _ _ _ _ _ => inferInstanceAs (Decidable (∀ r ∈ s.registers i, _ ∨ _ ∧ _ ∧ _))
  | .tick i _ _ => inferInstanceAs (Decidable (∀ r ∈ s.registers i, _))
  | .write k _ => inferInstanceAs (Decidable (∀ p ∈ s.puts[k]?, _ → _ → _ → _))
  | .new _ _ _ _ => inferInstanceAs (Decidable True)
  | .acquire _ => inferInstanceAs (Decidable True)
  | .renew _ _ => inferInstanceAs (Decidable True)

/-- Under the path of the service there are its nodes and nothing else, and each has what should be
found there. -/
structure Holds (base name : Bytes) (s : State) : Prop where
  only : ∀ {k p}, s.store.lookup k = some p → discoveryPath base name <+: k →
    k = discoveryPath base name ∨ ∃ a, k = join (discoveryPath base name) a
  value : ∀ a, (s.store.lookup (join (discoveryPath base name) a)).map (·.value) =
    s.found base name a

/-- The invariant. -/
structure Good (base name : Bytes) (s : State) : Prop extends Holds base name s where
  puts : ∀ p ∈ s.puts, p.name ≠ [] ∧ Fits base name p.basePath p.name p.key
  services : ∀ {i r}, s.registers i = some r → [] ∉ r.services

section Steps

variable {env : Env} {base name : Bytes} {store store' : Store} {s t : State}

theorem put_eq_ok {key value : Bytes} {answer : Option Error}
    (h : put store key value answer = .ok store') :
    store' = store.insert key ⟨value, locked store key⟩ := by
  unfold put at h
  split_ifs at h
  split at h
  · cases h
  · cases h
    rfl

theorem join_inj {dir a b : Bytes} (h : join dir a = join dir b) : a = b := by simpa [join] using h

theorem Holds.insert_clear {k : Bytes} {p : KVPair} (h : Holds base name s)
    (hk : Clear (discoveryPath base name) k) (hstore : t.store = s.store.insert k p)
    (hfound : ∀ a, t.found base name a = s.found base name a) : Holds base name t := by
  constructor
  · intro k' p' hk' hpre
    rw [hstore] at hk'
    obtain ⟨rfl, -⟩ | ⟨-, hold⟩ := lookup_insert_eq_some.mp hk'
    · exact Or.inl (hk.resolve_right fun hno => hno hpre)
    · exact h.only hold hpre
  · intro a
    have hne : join (discoveryPath base name) a ≠ k := by
      rintro rfl
      exact not_clear_join _ _ hk
    rw [hstore, AList.lookup_insert_ne hne, hfound, h.value]

theorem Holds.insert_node {a : Bytes} {p : KVPair} (h : Holds base name s)
    (hstore : t.store = s.store.insert (join (discoveryPath base name) a) p)
    (hself : t.found base name a = some p.value)
    (hfound : ∀ b, b ≠ a → t.found base name b = s.found base name b) : Holds base name t := by
  constructor
  · intro k p' hk hpre
    rw [hstore] at hk
    obtain ⟨rfl, -⟩ | ⟨-, hold⟩ := lookup_insert_eq_some.mp hk
    · exact Or.inr ⟨a, rfl⟩
    · exact h.only hold hpre
  · intro b
    by_cases hb : b = a
    · rw [hb, hstore, AList.lookup_insert, Option.map_some, hself]
    · rw [hstore, AList.lookup_insert_ne fun heq => hb (join_inj heq), hfound b hb, h.value]

theorem Holds.congr (h : Holds base name s) (hstore : t.store = s.store)
    (hfound : ∀ a, t.found base name a = s.found base name a) : Holds base name t := by
  refine ⟨fun hk hpre => h.only (hstore ▸ hk) hpre, fun a => ?_⟩
  rw [hstore, hfound, h.value]

theorem connect_eq_ok {r r' : Register} {newStore : Option Error}
    (h : r.connect newStore = .ok r') :
    r' = { r with connected := true } := by
  unfold Register.connect at h
  split at h
  · cases h
  · cases h
    rfl

theorem start_eq_ok {r r' : Register} {newStore answer err : Option Error}
    (h : start r store newStore answer = .ok (r', store', err)) :
    r'.services = r.services ∧
      (store' = store ∨ ∃ p, store' = store.insert (strip r.basePath) p) := by
  unfold start at h
  split at h
  · cases h
    exact ⟨rfl, Or.inl rfl⟩
  · rename_i r₁ hconn
    obtain rfl := connect_eq_ok hconn
    split at h
    · cases h
    · dsimp only at h
      split at h
      · cases h
        exact ⟨rfl, Or.inl rfl⟩
      · rename_i st hput
        cases h
        exact ⟨rfl, Or.inr ⟨_, put_eq_ok hput⟩⟩

/-- What `Register` does before the node. What holds of the store, and is kept when the base path
and the directory of the service are stored, holds afterwards. -/
theorem registerDirs_spec (env : Env) (r : Register) (m : Bytes) (newStore put₁ put₂ : Option Error)
    {P : Store → Prop} {s : Store} (h0 : P s) (hbase : ∀ {st p}, P st → P (st.insert r.basePath p))
    (hdir : ∀ {st p}, P st → P (st.insert (join r.basePath m) p)) :
    let x := registerDirs env r s m newStore put₁ put₂
    P x.2.1 ∧ (x.2.2 = none → m ≠ []) ∧ ∃ c, x.1 = { r with connected := c } := by
  dsimp only
  unfold registerDirs
  split_ifs with hm
  · exact ⟨h0, fun h => (by cases h), _, rfl⟩
  · have hne : m ≠ [] := by
      rintro rfl
      exact hm env.blank_nil
    split
    · exact ⟨h0, fun h => (by cases h), _, rfl⟩
    · rename_i r' hconn
      obtain rfl := connect_eq_ok hconn
      split
      · exact ⟨h0, fun h => (by cases h), _, rfl⟩
      · rename_i st₁ hput₁
        have h1 : P st₁ := by
          rw [put_eq_ok hput₁]
          exact hbase h0
        split
        · exact ⟨h1, fun _ => hne, _, rfl⟩
        · rename_i st₂ hput₂
          refine ⟨?_, fun _ => hne, _, rfl⟩
          rw [put_eq_ok hput₂]
          exact hdir h1

theorem clear_dirs (hb : base ≠ []) (hn : 47 ∉ name) (hname : name ≠ []) :
    Clear (discoveryPath base name) (strip base) ∧
      Clear (discoveryPath base name) (join (strip base) name) := by
  rw [discoveryPath_eq hb hname hn]
  exact ⟨clear_base _ _, Or.inl rfl⟩

theorem Good.init : Good base name init where
  only hk := by cases hk
  value _ := rfl
  puts _ hp := by cases hp
  services hr := by cases hr

theorem Holds.registerDirs (env : Env) (hb : base ≠ []) (hn : 47 ∉ name) {r : Register} {m : Bytes}
    (newStore put₁ put₂ : Option Error) (h : Holds base name s)
    (hok : (r.basePath = strip base ∧ m = name) ∨ (Clear (discoveryPath base name) r.basePath ∧
      Clear (discoveryPath base name) (join r.basePath m) ∧
        Clear (discoveryPath base name) (r.node m))) :
    Holds base name { s with store := (registerDirs env r s.store m newStore put₁ put₂).2.1 } := by
  by_cases hm : m = []
  · -- a blank name is refused
    subst hm
    rw [Consul.registerDirs, if_pos env.blank_nil]
    exact h
  · have hclear : Clear (discoveryPath base name) r.basePath ∧
        Clear (discoveryPath base name) (join r.basePath m) := by
      rcases hok with ⟨hr, rfl⟩ | ⟨hbase, hdir, -⟩
      · rw [hr]
        exact clear_dirs hb hn hm
      · exact ⟨hbase, hdir⟩
    refine (registerDirs_spec env r m newStore put₁ put₂
      (P := fun st => Holds base name { s with store := st })
      h ?_ ?_).1
    · intro st p hst
      exact hst.insert_clear hclear.1 rfl fun _ => rfl
    · intro st p hst
      exact hst.insert_clear hclear.2 rfl fun _ => rfl

theorem Good.begin (h : Good base name s) (i : ℕ) {r : Register} {m : Bytes} (hm : m ≠ [])
    (hfit : Fits base name r.basePath m (r.node m)) (value : Bytes) (ttl : ℤ) (ticker : Bool) :
    Good base name (s.begin i r m value ttl ticker) := by
  refine ⟨h.toHolds.congr rfl fun _ => rfl, fun p hp => ?_, h.services⟩
  rcases List.mem_append.mp hp with hp | hp
  · exact h.puts p hp
  · cases List.mem_singleton.mp hp
    exact ⟨hm, hfit⟩

/-- A `Put` ends with an error. -/
theorem Good.abandon (h : Good base name s) (k : ℕ) :
    Good base name { s with puts := s.puts.eraseIdx k } :=
  ⟨h.toHolds.congr rfl fun _ => rfl, fun p hp => h.puts p (List.mem_of_mem_eraseIdx hp), h.services⟩

theorem services_update {regs : ℕ → Option Register}
    (h : ∀ {i r}, regs i = some r → [] ∉ r.services) {j : ℕ}
    {x : Option Register} (hx : ∀ r, x = some r → [] ∉ r.services) {i : ℕ} {r : Register}
    (hr : Function.update regs j x i = some r) : [] ∉ r.services := by
  rw [Function.update_apply] at hr
  split_ifs at hr
  · exact hx r hr
  · exact h hr

theorem key_eq (hb : base ≠ []) (hn : 47 ∉ name) {p : NodePut} (hne : p.name ≠ [])
    (hbase : p.basePath = strip base) (hname : p.name = name) :
    p.key = join (discoveryPath base name) p.serviceAddress := by
  rw [discoveryPath_eq hb (hname ▸ hne) hn, NodePut.key, hbase, hname]

theorem contains_cons_of_ne {k key : Bytes} (hne : k ≠ key) (l : List Bytes) :
    (key :: l).contains k = l.contains k := by
  simp [hne]

theorem contains_filter_of_ne {k key : Bytes} (hne : k ≠ key) (l : List Bytes) :
    (l.filter (· != key)).contains k = l.contains k := by
  rw [Bool.eq_iff_iff, List.contains_iff_mem, List.contains_iff_mem, List.mem_filter]
  simp [hne]

theorem contains_filter_self (key : Bytes) (l : List Bytes) :
    (l.filter (· != key)).contains key = false := by
  rw [← Bool.not_eq_true, List.contains_iff_mem, List.mem_filter]
  simp

/-- What is found at an address whose key stays locked, or written, and whose metadata stay. -/
theorem found_congr {a : Bytes} (hem : t.emptied.contains (join (discoveryPath base name) a) =
      s.emptied.contains (join (discoveryPath base name) a))
    (hreg : t.registered.lookup (strip base, name, a) = s.registered.lookup (strip base, name, a)) :
    t.found base name a = s.found base name a := by
  unfold State.found
  rw [hem, hreg]

theorem Holds.acquire (hb : base ≠ []) (hn : 47 ∉ name) (h : Holds base name s) {p : NodePut}
    (hne : p.name ≠ []) (hfit : Fits base name p.basePath p.name p.key)
    (hs : acquire s.store p.key = some store) :
    Holds base name { s with store := store, emptied := p.key :: s.emptied } := by
  unfold Consul.acquire at hs
  split_ifs at hs
  cases hs
  rcases hfit with ⟨hbase, hname⟩ | hclear
  · have hkey := key_eq hb hn hne hbase hname
    refine h.insert_node (a := p.serviceAddress) (p := ⟨[], true⟩) (by rw [← hkey]) ?_ fun b hba =>
      ?_
    · simp [State.found, ← hkey]
    · exact found_congr (contains_cons_of_ne (fun heq => hba (join_inj (heq.trans hkey))) _) rfl
  · refine h.insert_clear hclear rfl fun a =>
      found_congr (contains_cons_of_ne (fun heq => ?_) _) rfl
    exact not_clear_join _ a (heq ▸ hclear)

theorem finish_fields (s : State) (k : ℕ) (p : NodePut) (store : Store) :
    (s.finish k p store).store = store ∧ (s.finish k p store).puts = s.puts.eraseIdx k ∧
      (s.finish k p store).emptied = s.emptied.filter (· != p.key) ∧
      (s.finish k p store).registered = (if p.ticker then s.registered
        else s.registered.insert (p.basePath, p.name, p.serviceAddress) p.value) := by
  unfold State.finish
  split_ifs <;> simp

theorem finish_services (h : ∀ {i r}, s.registers i = some r → [] ∉ r.services) {k : ℕ}
    {p : NodePut}
    (hne : p.name ≠ []) {i : ℕ} {r : Register} (hr : (s.finish k p store).registers i = some r) :
    [] ∉ r.services := by
  unfold State.finish at hr
  split_ifs at hr
  · exact h hr
  · refine services_update h (fun r' hr' => ?_) hr
    obtain ⟨r₀, hr₀, rfl⟩ := Option.map_eq_some_iff.mp hr'
    show [] ∉ r₀.services ++ [p.name]
    simp [h hr₀, hne.symm]

theorem Holds.finish (hb : base ≠ []) (hn : 47 ∉ name) (h : Holds base name s) {k : ℕ} {p : NodePut}
    {b : Bool} (hne : p.name ≠ []) (hfit : Fits base name p.basePath p.name p.key)
    (htick : p.ticker = true → p.basePath = strip base → p.name = name →
      s.registered.lookup (strip base, name, p.serviceAddress) = some p.value) :
    Holds base name (s.finish k p (s.store.insert p.key ⟨p.value, b⟩)) := by
  obtain ⟨hstore, -, hem, hreg⟩ := finish_fields s k p (s.store.insert p.key ⟨p.value, b⟩)
  by_cases hsame : p.basePath = strip base ∧ p.name = name
  · obtain ⟨hbase, hname⟩ := hsame
    have hkey := key_eq hb hn hne hbase hname
    refine h.insert_node (a := p.serviceAddress) (by rw [hstore, ← hkey]) ?_ fun a hane => ?_
    · rw [State.found, hem, ← hkey, contains_filter_self, if_neg Bool.false_ne_true, hreg]
      split_ifs with hp
      · exact htick hp hbase hname
      · rw [hbase, hname, AList.lookup_insert]
    · refine found_congr ?_ ?_
      · rw [hem, contains_filter_of_ne fun heq => hane (join_inj (heq.trans hkey))]
      rw [hreg]
      split_ifs
      · rfl
      · exact AList.lookup_insert_ne fun heq => hane (congrArg (·.2.2) heq)
  · have hclear := hfit.resolve_left hsame
    refine h.insert_clear hclear hstore fun a => found_congr ?_ ?_
    · rw [hem, contains_filter_of_ne fun heq => not_clear_join _ a (heq ▸ hclear)]
    · rw [hreg]
      split_ifs
      · rfl
      · refine AList.lookup_insert_ne fun heq => hsame ?_
        exact ⟨congrArg Prod.fst heq.symm, congrArg (·.2.1) heq.symm⟩

theorem Good.step (hb : base ≠ []) (hn : 47 ∉ name) {l : Label} (h : Good base name s)
    (hok : Apart base name s l) (hs : step env s l = some t) : Good base name t := by
  cases l with
  | new i p a interval =>
    simp only [Consul.step] at hs
    split at hs
    · cases hs
    · cases hs
      refine ⟨h.toHolds.congr rfl fun _ => rfl, h.puts, services_update h.services ?_⟩
      rintro r ⟨⟩
      exact List.not_mem_nil
  | start i newStore answer =>
    obtain ⟨r, hr, hs⟩ := Option.bind_eq_some_iff.mp hs
    split at hs
    · cases hs
    · rename_i r' store' err hstart
      cases hs
      obtain ⟨hservices, hstore⟩ := start_eq_ok hstart
      have hregs : ∀ x, some r' = some x → [] ∉ x.services := by
        rintro x ⟨⟩
        rw [hservices]
        exact h.services hr
      refine ⟨?_, h.puts, services_update h.services hregs⟩
      rcases hstore with rfl | ⟨p, rfl⟩
      · exact h.toHolds.congr rfl fun _ => rfl
      · exact h.toHolds.insert_clear (hok r hr) rfl fun _ => rfl
  | register i m metadata newStore put₁ put₂ =>
    obtain ⟨r, hr, rfl⟩ := Option.map_eq_some_iff.mp hs
    have hdirs := h.toHolds.registerDirs env hb hn newStore put₁ put₂ (hok r hr)
    obtain ⟨-, hname, hr'⟩ := registerDirs_spec env r m newStore put₁ put₂ (P := fun _ => True)
      (s := s.store) trivial (fun _ => trivial) fun _ => trivial
    rcases hx : registerDirs env r s.store m newStore put₁ put₂ with ⟨r', store', err⟩
    rw [hx] at hdirs hname hr'
    dsimp only at hr'
    obtain ⟨c, rfl⟩ := hr'
    have hregs : ∀ x, some { r with connected := c } = some x → [] ∉ x.services := by
      rintro x ⟨⟩
      show [] ∉ r.services
      exact h.services hr
    have hgood : Good base name
        { s with
          store := store'
          registers := Function.update s.registers i (some { r with connected := c }) } :=
      ⟨hdirs.congr rfl fun _ => rfl, h.puts, services_update h.services hregs⟩
    cases err with
    | some err => exact hgood
    | none =>
      exact hgood.begin i (hname rfl) ((hok r hr).imp id fun hclear => hclear.2.2) _ _ _
  | tick i m get =>
    obtain ⟨r, hr, hs⟩ := Option.bind_eq_some_iff.mp hs
    split_ifs at hs with hc
    cases hs
    refine h.begin i ?_ (hok r hr) _ _ _
    rintro rfl
    exact h.services hr (List.contains_iff_mem.mp (Bool.and_eq_true_iff.mp hc).2)
  | acquire k =>
    obtain ⟨p, hp, hs⟩ := Option.bind_eq_some_iff.mp hs
    split_ifs at hs
    obtain ⟨store, hstore, rfl⟩ := Option.map_eq_some_iff.mp hs
    obtain ⟨hne, hfit⟩ := h.puts p (List.mem_of_getElem? hp)
    exact ⟨h.toHolds.acquire hb hn hne hfit hstore, h.puts, h.services⟩
  | renew k renewed =>
    obtain ⟨p, hp, hs⟩ := Option.bind_eq_some_iff.mp hs
    split_ifs at hs
    · cases hs
      refine ⟨h.toHolds.congr rfl fun _ => rfl, fun q hq => ?_, h.services⟩
      rcases List.mem_or_eq_of_mem_set hq with hq | rfl
      · exact h.puts q hq
      · exact h.puts p (List.mem_of_getElem? hp)
    · cases hs
      exact h.abandon k
  | write k answer =>
    obtain ⟨p, hp, hs⟩ := Option.bind_eq_some_iff.mp hs
    obtain ⟨hne, hfit⟩ := h.puts p (List.mem_of_getElem? hp)
    split_ifs at hs
    split at hs
    · cases hs
      exact h.abandon k
    · rename_i store hput
      cases hs
      obtain rfl := put_eq_ok hput
      refine ⟨h.toHolds.finish hb hn hne hfit (hok p hp), fun q hq => ?_, ?_⟩
      · rw [(finish_fields s k p _).2.1] at hq
        exact h.puts q (List.mem_of_mem_eraseIdx hq)
      · exact finish_services h.services hne

theorem good_of_reach (hb : base ≠ []) (hn : 47 ∉ name)
    (h : Reach (step env) (Apart base name) init s) :
    Good base name s :=
  h.invariant (P := Good base name) .init fun _ ht hok hs => ht.step hb hn hok hs

end Steps

/-! ### `Register` as a run of steps -/

section Run

variable {env : Env} {s : State} {ps : List NodePut} {p : NodePut} {r : Register}

theorem getElem?_puts (hputs : s.puts = ps ++ [p]) : s.puts[ps.length]? = some p := by simp [hputs]

theorem eraseIdx_puts (hputs : s.puts = ps ++ [p]) : s.puts.eraseIdx ps.length = ps := by
  rw [hputs, List.eraseIdx_append_of_length_le le_rfl, Nat.sub_self, List.eraseIdx_cons_zero,
    List.append_nil]

/-- The last request of the last `Put`, which is that of a `Register`. -/
theorem write_run (env : Env) (hputs : s.puts = ps ++ [p]) (hren : p.renewed = true)
    (htick : p.ticker = false) (hr : s.registers p.i = some r) (answer : Option Error) :
    let x := putValue s.store p.key p.value answer
    ∃ t, Reach (step env) Any s t ∧ t.puts = ps ∧ t.store = x.1 ∧
      t.registers p.i = some (match x.2 with
        | none => r.add p.name p.value
        | some _ => r) := by
  have hk := getElem?_puts hputs
  have herase := eraseIdx_puts hputs
  dsimp only
  unfold putValue
  cases hput : put s.store p.key p.value answer with
  | error err =>
    have hs : step env s (.write ps.length answer) = some { s with puts := ps } := by
      simp [step, hk, hren, hput, herase]
    exact ⟨_, .tail .refl trivial hs, rfl, rfl, hr⟩
  | ok store =>
    have hs : step env s (.write ps.length answer) = some (s.finish ps.length p store) := by
      simp [step, hk, hren, hput]
    refine ⟨_, .tail .refl trivial hs, ?_, ?_, ?_⟩
    · rw [(finish_fields s ps.length p store).2.1, herase]
    · exact (finish_fields s ps.length p store).1
    · simp [State.finish, htick, hr]

theorem putTTL_run (hputs : s.puts = ps ++ [p]) (hren : p.renewed = false)
    (htick : p.ticker = false)
    (hr : s.registers p.i = some r) {ttl : ℤ} (httl : 0 < ttl) (a : PutAnswers) :
    let x := putTTL s.store p.key p.value ttl a
    ∃ t, Reach (step env) Any s t ∧ t.puts = ps ∧ t.store = x.1 ∧
      t.registers p.i = some (match x.2 with
        | none => r.add p.name p.value
        | some _ => r) := by
  have hk := getElem?_puts hputs
  -- the lock, if it is taken
  obtain ⟨em, hlock⟩ : ∃ em, Reach (step env) Any s { s with
      store := if a.acquired then (acquire s.store p.key).getD s.store else s.store
      emptied := em } := by
    by_cases hacq : a.acquired = true
    · cases h : acquire s.store p.key with
      | none => exact ⟨s.emptied, by simpa [hacq] using Reach.refl⟩
      | some store =>
        have hs : step env s (.acquire ps.length) =
            some { s with store := store, emptied := p.key :: s.emptied } := by
          simp [step, hk, hren, h]
        exact ⟨_, by simpa [hacq] using Reach.tail .refl trivial hs⟩
    · exact ⟨s.emptied, by simpa [hacq] using Reach.refl⟩
  dsimp only
  unfold putTTL
  rw [if_pos httl]
  dsimp only
  generalize (if a.acquired then (acquire s.store p.key).getD s.store else s.store) =
    store at hlock ⊢
  by_cases hok : a.renewed = true
  · -- the session is renewed, and the value is written
    have hs : step env { s with store := store, emptied := em } (.renew ps.length true) =
        some { s with
          store := store, emptied := em, puts := ps ++ [{ p with renewed := true }] } := by
      simp [step, hputs, hren]
    obtain ⟨t, ht, hrest⟩ := write_run env
      (s := { s with store := store, emptied := em, puts := ps ++ [{ p with renewed := true }] })
      (p := { p with renewed := true }) rfl rfl htick hr a.put
    rw [if_pos hok]
    exact ⟨t, (hlock.tail trivial hs).trans ht, hrest⟩
  · have hs : step env { s with store := store, emptied := em } (.renew ps.length false) =
        some { s with store := store, emptied := em, puts := ps } := by
      simp [step, hk, hren, eraseIdx_puts hputs]
    rw [if_neg hok]
    exact ⟨_, hlock.tail trivial hs, rfl, rfl, hr⟩

theorem register_run {i : ℕ} (hr : s.registers i = some r) (name metadata : Bytes)
    (newStore put₁ put₂ : Option Error) (put₃ : PutAnswers) :
    let x := register env r s.store name metadata newStore put₁ put₂ put₃
    ∃ t, Reach (step env) Any s t ∧ t.puts = s.puts ∧ t.store = x.2.1 ∧
      t.registers i = some x.1 := by
  rcases hx : registerDirs env r s.store name newStore put₁ put₂ with ⟨r', store, err⟩
  have hs : step env s (.register i name metadata newStore put₁ put₂) = some (match err with
      | some _ => { s with store := store, registers := Function.update s.registers i (some r') }
      | none =>
        State.begin { s with store := store, registers := Function.update s.registers i (some r') }
        i
          r' name metadata r'.ttl false) := by
    cases err <;> simp [step, hr, hx]
  cases err with
  | some err =>
    dsimp only
    rw [register, hx]
    exact ⟨_, .tail .refl trivial hs, rfl, rfl, Function.update_self ..⟩
  | none =>
    have hself : Function.update s.registers i (some r') i = some r' := Function.update_self ..
    obtain ⟨t, ht, hputs, hstore, hreg⟩ : ∃ t, Reach (step env) Any
        (State.begin { s with store := store, registers := Function.update s.registers i (some r') }
          i r' name
          metadata r'.ttl false) t ∧ t.puts = s.puts ∧
        t.store = (putTTL store (r'.node name) metadata r'.ttl put₃).1 ∧
        t.registers i = some (match (putTTL store (r'.node name) metadata r'.ttl put₃).2 with
          | none => r'.add name metadata
          | some _ => r') := by
      by_cases httl : 0 < r'.ttl
      · exact putTTL_run (p := ⟨i, r'.basePath, name, r'.serviceAddress, metadata, false, _⟩) rfl
          (decide_eq_false (by omega)) rfl hself httl put₃
      · rw [putTTL, if_neg httl]
        exact write_run env (p := ⟨i, r'.basePath, name, r'.serviceAddress, metadata, false, _⟩) rfl
          (decide_eq_true (by omega)) rfl hself put₃.put
    refine ⟨t, (Reach.tail .refl trivial hs).trans ht, hputs, ?_, ?_⟩
    · rw [hstore, register, hx]
      dsimp only
      rcases putTTL store (r'.node name) metadata r'.ttl put₃ with ⟨_, _ | _⟩ <;> rfl
    · rw [hreg, register, hx]
      dsimp only
      rcases putTTL store (r'.node name) metadata r'.ttl put₃ with ⟨_, _ | _⟩ <;> rfl

end Run

/-! ### What the discovery finds -/

section Found

variable {base name : Bytes} {store : Store} {dir : Bytes} {e : (_ : Bytes) × KVPair} {s : State}

theorem mem_listAll : e ∈ listAll store dir ↔ store.lookup e.1 = some e.2 ∧ dir <+: e.1 := by
  rw [listAll, List.mem_filter, List.isPrefixOf_iff_prefix]
  exact and_congr_left' AList.mem_lookup_iff.symm

theorem mem_children :
    e ∈ children store dir ↔ store.lookup e.1 = some e.2 ∧ dir <+: e.1 ∧ e.1 ≠ dir := by
  rw [children, List.mem_filter, mem_listAll, and_assoc, decide_eq_true_iff]

theorem children_nodup : (children store dir).Nodup := (store.nodupKeys.nodup.filter _).filter _

theorem Holds.child (h : Holds base name s) (he : e ∈ children s.store (discoveryPath base name)) :
    ∃ a, e.1 = join (discoveryPath base name) a := by
  obtain ⟨hlook, hpre, hne⟩ := mem_children.mp he
  exact (h.only hlook hpre).resolve_left hne

theorem Holds.shows (h : Holds base name s) : Shows s base name (snapshot base name s.store) := by
  constructor
  · -- the keys are distinct because they were before they were cut
    rw [snapshot, pairsOf, List.map_map]
    refine children_nodup.map_on fun x hx y hy hxy => ?_
    obtain ⟨a, hxa⟩ := h.child hx
    obtain ⟨b, hyb⟩ := h.child hy
    simp only [Function.comp, hxa, hyb, trimPrefix_join] at hxy
    have hkey : x.1 = y.1 := by rw [hxa, hyb, hxy]
    have hlook := (mem_children.mp hx).1
    rw [hkey, (mem_children.mp hy).1, Option.some.injEq] at hlook
    exact Sigma.ext hkey (heq_of_eq hlook.symm)
  · intro a v
    rw [snapshot, pairsOf, List.mem_map, ← h.value a, Option.map_eq_some_iff]
    constructor
    · rintro ⟨e, he, heq⟩
      obtain ⟨b, hb⟩ := h.child he
      rw [hb, trimPrefix_join] at heq
      cases heq
      exact ⟨e.2, hb ▸ (mem_children.mp he).1, rfl⟩
    · rintro ⟨p, hp, rfl⟩
      refine ⟨⟨join (discoveryPath base name) a, p⟩, ?_, by rw [trimPrefix_join]⟩
      exact mem_children.mpr ⟨hp, dir_prefix_join _ _, join_ne _ _⟩

/-- No node of the service is locked and not yet written. -/
def Written (s : State) (base name : Bytes) : Prop :=
  ∀ a, s.emptied.contains (join (discoveryPath base name) a) = false

theorem Shows.exact {pairs : List KV} (h : Shows s base name pairs) (hw : Written s base name) :
    Exact s base name pairs := by
  refine ⟨h.1, fun a v => ?_⟩
  rw [h.2 a v, State.found, hw a, if_neg Bool.false_ne_true]

theorem newConsulDiscovery_eq_ok {pairs : List KV}
    (h : newConsulDiscovery base name store = .ok pairs) :
    pairs = snapshot base name store := by
  unfold newConsulDiscovery at h
  dsimp only at h
  split_ifs at h
  cases h
  rfl

theorem Holds.newConsulDiscovery (h : Holds base name s) {a v : Bytes}
    (hf : s.found base name a = some v) :
    ∃ pairs, newConsulDiscovery base name s.store = .ok pairs := by
  refine ⟨_, if_neg fun hnil => ?_⟩
  rw [← h.value, Option.map_eq_some_iff] at hf
  obtain ⟨p, hp, -⟩ := hf
  have hmem : (⟨join (discoveryPath base name) a, p⟩ : (_ : Bytes) × KVPair) ∈
      listAll s.store (discoveryPath base name) := mem_listAll.mpr ⟨hp, dir_prefix_join _ _⟩
  rw [List.isEmpty_iff.mp hnil] at hmem
  cases hmem

end Found

/-- **Discovery inverts registration.** In every run whose steps keep apart from a base path and a
service name, a snapshot for that name and the list of a new discovery have exactly the addresses
and the metadata that were registered under it, provided that no node of the service is locked and
not yet written; otherwise they have the locked addresses too, without metadata. A new discovery is
made if something is registered. -/
theorem discovery_inverts {env : Env} {base name : Bytes} (hbase : base ≠ []) (hname : 47 ∉ name)
    {s : State} (h : Reach (step env) (Apart base name) init s) :
    Shows s base name (snapshot base name s.store) ∧
    (∀ pairs, newConsulDiscovery base name s.store = .ok pairs → Shows s base name pairs) ∧
    (Written s base name → Exact s base name (snapshot base name s.store) ∧
      ∀ pairs, newConsulDiscovery base name s.store = .ok pairs → Exact s base name pairs) ∧
    ((∃ a v, s.registered.lookup (strip base, name, a) = some v) →
      ∃ pairs, newConsulDiscovery base name s.store = .ok pairs) := by
  have hgood := (good_of_reach hbase hname h).toHolds
  have hnew : ∀ pairs, newConsulDiscovery base name s.store = .ok pairs →
      Shows s base name pairs := by
    intro pairs hpairs
    rw [newConsulDiscovery_eq_ok hpairs]
    exact hgood.shows
  refine ⟨hgood.shows, hnew,
    fun hw => ⟨hgood.shows.exact hw, fun pairs hp => (hnew pairs hp).exact hw⟩, ?_⟩
  rintro ⟨a, v, hreg⟩
  by_cases hem : s.emptied.contains (join (discoveryPath base name) a) = true
  · exact hgood.newConsulDiscovery (if_pos hem)
  · exact hgood.newConsulDiscovery ((if_neg hem).trans hreg)

/-- Names are blank if they are empty, and metadata are empty or one key that comes before `tps`. -/
def plainEnv : Env := ⟨List.isEmpty, rfl, fun v => if v = [] then str "tps=" else v ++ str "=&tps="⟩

/-- A register with the base path `/b` and the address `1` is started. -/
def started : List Label := [.new 0 [47, 98] [49] 1, .start 0 none none]

/-- A service is registered, with the metadata `m`: its node is locked, the session renewed, and the
metadata written. -/
def registers (name : Bytes) : List Label :=
  [.register 0 name [109] none none none, .acquire 0, .renew 0 true, .write 0 none]

theorem apart_of_decide {base name : Bytes} (s : State) (l : Label)
    (h : decide (Apart base name s l) = true) :
    Apart base name s l := of_decide_eq_true h

/-- The services `A` and `C`. -/
theorem discovery_inverts_two :
    ∃ s, Reach (step plainEnv) (Apart [47, 98] [65]) init s ∧
      newConsulDiscovery [47, 98] [65] s.store = .ok [⟨[49], [109]⟩] ∧
      Exact s [47, 98] [65] [⟨[49], [109]⟩] := by
  have hrun : Reach (step plainEnv) (Apart [47, 98] [65]) init _ :=
    reach_of_guarded apart_of_decide (started ++ registers [65] ++ registers [67]) rfl
  exact ⟨_, hrun, rfl,
    ((discovery_inverts (by decide) (by decide) hrun).2.2.1 fun _ => rfl).2 _ rfl⟩

/-- The discovery of `A` also finds what belongs to `AB`. After a tick it finds other metadata than
were registered. And as long as the node is locked and not yet written, which is forever if that
request fails, it finds the address without metadata. -/
theorem discovery_differs :
    (∃ s pairs, exec (step plainEnv) init (started ++ registers [65] ++ registers [65, 66]) =
      some s ∧
      newConsulDiscovery [47, 98] [65] s.store = .ok pairs ∧
        snapshot [47, 98] [65] s.store = pairs ∧
      pairs = [⟨[98, 47, 65, 66, 47, 49], [109]⟩, ⟨[98, 47, 65, 66], [65, 66]⟩, ⟨[49], [109]⟩] ∧
      ¬ Exact s [47, 98] [65] pairs) ∧
    (∃ s pairs, exec (step plainEnv) init (started ++ registers [65] ++
        [.tick 0 [65] none, .renew 0 true, .write 0 none]) = some s ∧
      newConsulDiscovery [47, 98] [65] s.store = .ok pairs ∧
        snapshot [47, 98] [65] s.store = pairs ∧
      pairs = [⟨[49], 109 :: str "=&tps="⟩] ∧ ¬ Exact s [47, 98] [65] pairs) ∧
    (∃ s pairs, exec (step plainEnv) init
      (started ++ [.register 0 [65] [109] none none none, .acquire 0,
        .renew 0 true, .write 0 (some .eof)]) = some s ∧
      newConsulDiscovery [47, 98] [65] s.store = .ok pairs ∧
        snapshot [47, 98] [65] s.store = pairs ∧
      pairs = [⟨[49], []⟩] ∧ ¬ Exact s [47, 98] [65] pairs) := by
  refine ⟨⟨_, _, rfl, rfl, rfl, rfl, fun h => ?_⟩, ⟨_, _, rfl, rfl, rfl, rfl, fun h => ?_⟩,
    ⟨_, _, rfl, rfl, rfl, rfl, fun h => ?_⟩⟩
  · cases (h.2 [98, 47, 65, 66] [65, 66]).mp (by decide)
  · exact absurd ((h.2 [49] [109]).mpr rfl) (by decide)
  · cases (h.2 [49] []).mp (by decide)

end Frpc.Registry.Consul
