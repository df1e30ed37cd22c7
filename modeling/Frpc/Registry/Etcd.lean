import Frpc.Lib.Trees
import Frpc.Registry.Consul

/-! # Registration and discovery in etcd

`registry/registry_etcd.go` and `registry/discovery_etcd.go` over one store. An `EtcdRegister` makes
a directory for its base path and for every service, and in it one node for its own address. The
store is a tree: the client cleans the path of a key as `path.Clean` does, and `List` returns the
children of a directory, each with its absolute path. An `EtcdDiscovery` takes the path of the
service from the front of these, as it was given to it. So the addresses are found only where that
path is the absolute one, which the documented base path `com/example/frpc` is not; and an address
with a `/` in it is no child of the directory. As in Consul the ticker of a started register writes
a `tps` into the metadata of its nodes.

Where none of this happens the discovery has exactly what was registered
(`etcd_discovery_inverts`). -/

namespace Frpc.Registry.Etcd

open Frpc.Basic Frpc.Lib.Runs Frpc.Lib.Slices Frpc.Lib.Tables Frpc.Lib.Trees
open Frpc.Registry.Discovery (KV)
open Frpc.Registry.Consul (Register join trimPrefix trimPrefix_join contains connect_eq_ok)

/-- What etcd has stored. -/
abbrev Store := Tree Bytes Bytes

/-- The libraries, and the errors of etcd. -/
structure Env extends Consul.Env where
  refused : Refused → Bytes → Error

/-- etcd, and the registers; an `EtcdRegister` has the fields of a `ConsulRegister`. `registered` is
there for the statements only: the metadata with which an address was last registered, by base path,
service name and address. -/
structure State where
  store : Store
  registers : ℕ → Option Register
  registered : AList fun _ : Bytes × Bytes × Bytes => Bytes

/-- The steps. An `Option Error` is what the store answers to a request. -/
inductive Label where
  /-- `NewEtcdRegistry` -/
  | new (i : ℕ) (basePath serviceAddress : Bytes) (interval : ℤ)
  /-- `Start` -/
  | start (i : ℕ) (newStore put : Option Error)
  /-- `Register` -/
  | register (i : ℕ) (name metadata : Bytes) (newStore put₁ put₂ put₃ : Option Error)
  /-- One service in a round of the ticker. -/
  | tick (i : ℕ) (name : Bytes) (get put : Option Error)

/-! ### Paths -/

/-- One component of a path that is cleaned. -/
def push (path : List Bytes) (c : Bytes) : List Bytes :=
  if c = [] ∨ c = str "." then path
  else if c = str ".." then path.dropLast
  else path ++ [c]

/-- The path of a key. A key that leads out of the root is not modelled: it stays there. -/
def clean (key : Bytes) : List Bytes := (key.splitOn 47).foldl push []

/-- The absolute path, as etcd returns it. -/
def absolute (path : List Bytes) : Bytes := path.flatMap fun c => 47 :: c

/-- What can be the last component of a path: not empty, no `.` and no `..`, and without a `/`. -/
def Component (c : Bytes) : Prop := 47 ∉ c ∧ c ≠ [] ∧ c ≠ str "." ∧ c ≠ str ".."

instance (c : Bytes) : Decidable (Component c) := inferInstanceAs (Decidable (_ ∧ _ ∧ _ ∧ _))

/-! ### Registers -/

/-- `Put` -/
def put (env : Env) (store : Store) (key : Bytes) (node : Node Bytes) (answer : Option Error) :
    Except Error Store :=
  match answer with
  | some err => .error err
  | none =>
    match Lib.Trees.put store (clean key) node with
    | .error refused => .error (env.refused refused key)
    | .ok store => .ok store

/-- `Put` of a directory. That there is one already is no error. -/
def putDir (env : Env) (store : Store) (key : Bytes) (answer : Option Error) : Except Error Store :=
  match put env store key .dir answer with
  | .error err => if contains err.text (str "Not a file") then .ok store else .error err
  | .ok store => .ok store

/-- `Start`: the register and the store afterwards, and the error that is returned. -/
def start (env : Env) (r : Register) (store : Store) (newStore answer : Option Error) :
    Register × Store × Option Error :=
  match r.connect newStore with
  | .error err => (r, store, some err)
  | .ok r =>
    match putDir env store r.basePath answer with
    | .error err => (r, store, some err)
    | .ok store => ({ r with ticking := r.ticking || decide (0 < r.updateInterval) }, store, none)

/-- The end of `Register`: the node. -/
def registerNode (env : Env) (r : Register) (store : Store) (name metadata : Bytes)
    (answer : Option Error) :
    Register × Store × Option Error :=
  match put env store (r.node name) (.file metadata) answer with
  | .error err => (r, store, some err)
  | .ok store =>
    ({ r with services := r.services ++ [name], metas := r.metas.insert name metadata },
      store, none)

/-- `Register` -/
def register (env : Env) (r : Register) (store : Store) (name metadata : Bytes)
    (newStore put₁ put₂ put₃ : Option Error) : Register × Store × Option Error :=
  if env.blank name then (r, store, some (.other (str "Register service `name` can't be empty")))
  else
    match r.connect newStore with
    | .error err => (r, store, some err)
    | .ok r =>
      match putDir env store r.basePath put₁ with
      | .error err => (r, store, some err)
      | .ok store =>
        match putDir env store (join r.basePath name) put₂ with
        | .error err => (r, store, some err)
        | .ok store => registerNode env r store name metadata put₃

/-- The value of a node; a directory has none. -/
def valueOf : Node Bytes → Bytes
  | .dir => []
  | .file value => value

/-- The value that the ticker writes: the old one with a `tps`, or the metadata if `Get` fails. -/
def tickValue (env : Env) (r : Register) (store : Store) (name : Bytes) (get : Option Error) :
    Bytes :=
  match get, store.lookup (clean (r.node name)) with
  | none, some node => env.setTps (valueOf node)
  | _, _ => (r.metas.lookup name).getD []

/-- The ticker, for one service. An error is only logged. -/
def tick (env : Env) (r : Register) (store : Store) (name : Bytes) (get answer : Option Error) :
    Store :=
  match put env store (r.node name) (.file (tickValue env r store name get)) answer with
  | .error _ => store
  | .ok store => store

/-- One step. -/
def step (env : Env) (s : State) : Label → Option State
  | .new i basePath serviceAddress interval =>
    match s.registers i with
    | some _ => none
    | none =>
      let r : Register := ⟨serviceAddress, basePath, [], ∅, interval, false, false⟩
      some { s with registers := Function.update s.registers i (some r) }
  | .start i newStore answer =>
    (s.registers i).map fun r =>
      let (r, store, _) := start env r s.store newStore answer
      { s with store, registers := Function.update s.registers i (some r) }
  | .register i name metadata newStore put₁ put₂ put₃ =>
    (s.registers i).map fun r =>
      let (r', store, err) := register env r s.store name metadata newStore put₁ put₂ put₃
      { store
        registers := Function.update s.registers i (some r')
        registered := match err with
          | none => s.registered.insert (r.basePath, name, r.serviceAddress) metadata
          | some _ => s.registered }
  | .tick i name get answer =>
    (s.registers i).bind fun r =>
      if r.ticking && r.services.contains name
        then some { s with store := tick env r s.store name get answer }
      else none

/-- An empty store, and no register. -/
def init : State := ⟨∅, fun _ => none, ∅⟩

/-! ### Discoveries -/

/-- `NewEtcdDiscoveryOption` and the start of `newEtcdDiscoveryStore`: the path of a service. -/
def discoveryPath (basePath servicePath : Bytes) : Bytes :=
  let path := join basePath servicePath
  if 1 < path.length ∧ path.getLast? = some 47 then path.dropLast else path

/-- The node at a path; the root is a directory. -/
def nodeAt (store : Store) (path : List Bytes) : Option (Node Bytes) :=
  if path = [] then some .dir else store.lookup path

/-- `List`: the absolute paths and the values of the children, in some order. -/
def list (store : Store) (directory : Bytes) : Except Error (List (Bytes × Bytes)) :=
  let path := clean directory
  match nodeAt store path with
  | none => .error (.other (str "Key not found in store"))
  | some (.file _) => .ok []
  | some .dir => .ok ((children store path).map fun e => (absolute e.1, valueOf e.2))

/-- The loop that makes the pairs. -/
def pairsOf (directory : Bytes) (kv : List (Bytes × Bytes)) : List KV :=
  kv.map fun e => ⟨trimPrefix (join directory []) e.1, e.2⟩

/-- `newEtcdDiscoveryStore`: `GetServices` of the discovery, or the error with which it panics. -/
def newEtcdDiscovery (basePath servicePath : Bytes) (store : Store) : Except Error (List KV) := do
  let path := discoveryPath basePath servicePath
  let kv ← list store path
  return pairsOf path kv

/-- `EtcdDiscovery.watch`: the pairs of a snapshot, which `WatchTree` gets from `List`; without them
it closes the channel. -/
def snapshot (basePath servicePath : Bytes) (store : Store) : Option (List KV) :=
  let path := discoveryPath basePath servicePath
  match list store path with
  | .ok kv => some (pairsOf path kv)
  | .error _ => none

/-- The pairs are those that were registered under the name. -/
def Exact (s : State) (basePath name : Bytes) (pairs : List KV) : Prop :=
  (pairs.map (·.key)).Nodup ∧
    ∀ a v, KV.mk a v ∈ pairs ↔ s.registered.lookup (basePath, name, a) = some v

/-! ### Cleaning -/

section Paths

variable {base name a : Bytes} {path : List Bytes}

theorem clean_join (p : Bytes) (ha : Component a) : clean (join p a) = clean p ++ [a] := by
  obtain ⟨hslash, hne, hdot, hdots⟩ := ha
  have hpush : ∀ path, push path a = path ++ [a] := by
    intro path
    unfold push
    rw [if_neg (not_or.mpr ⟨hne, hdot⟩), if_neg hdots]
  unfold clean join
  rw [List.splitOn_append_cons_self, List.foldl_append, List.splitOn_eq_singleton hslash]
  exact hpush _

theorem absolute_concat (path : List Bytes) (c : Bytes) :
    absolute (path ++ [c]) = join (absolute path) c := by
  simp [absolute, join]

/-- The path of a service is that of the directory of its registers. -/
theorem discoveryPath_eq (base : Bytes) (hname : Component name) :
    discoveryPath base name = join base name := by
  obtain ⟨hslash, hne, -, -⟩ := hname
  have hlast : (join base name).getLast? ≠ some 47 := by
    rw [join, List.getLast?_append, List.getLast?_cons, List.getLast?_eq_some_getLast hne]
    intro h
    simp only [Option.getD_some, Option.some_or, Option.some.injEq] at h
    exact hslash (h ▸ List.getLast_mem hne)
  exact if_neg fun h => hlast h.2

end Paths

/-! ### What is stored -/

/-- The directory of a service. -/
def dirOf (base name : Bytes) : List Bytes := clean base ++ [name]

/-- The condition on the steps, for a base path and a service name: the addresses that are
registered are components, nothing else is put below the directory of the service, and the ticker
leaves the values of its nodes as they are. -/
def Apart (env : Env) (base name : Bytes) (s : State) : Label → Prop
  | .start i _ _ => ∀ r, s.registers i = some r → ¬ Below (dirOf base name) (clean r.basePath)
  | .register i m _ _ _ _ _ => ∀ r, s.registers i = some r →
    (r.basePath = base ∧ m = name ∧ Component r.serviceAddress) ∨
      (¬ (r.basePath = base ∧ m = name) ∧ ¬ Below (dirOf base name) (clean r.basePath) ∧
        ¬ Below (dirOf base name) (clean (join r.basePath m)) ∧
          ¬ Below (dirOf base name) (clean (r.node m)))
  | .tick i m get _ => ∀ r, s.registers i = some r →
    ¬ Below (dirOf base name) (clean (r.node m)) ∨
      ∃ a v, clean (r.node m) = dirOf base name ++ [a] ∧
        s.store.lookup (dirOf base name ++ [a]) = some (.file v) ∧
        (get = none → env.setTps v = v) ∧ (get ≠ none → r.metas.lookup m = some v)
  | .new _ _ _ _ => True

/-- In the directory of the service there is what was registered under its name, and nothing
else. -/
structure Holds (base name : Bytes) (store : Store)
    (registered : AList fun _ : Bytes × Bytes × Bytes => Bytes) : Prop where
  stored : ∀ {a node}, store.lookup (dirOf base name ++ [a]) = some node →
    ∃ v, node = .file v ∧ registered.lookup (base, name, a) = some v
  kept : ∀ {a v}, registered.lookup (base, name, a) = some v →
    store.lookup (dirOf base name ++ [a]) = some (.file v)
  isDir : ∀ {a v}, registered.lookup (base, name, a) = some v →
    store.lookup (dirOf base name) = some .dir

section Steps

variable {env : Env} {base name : Bytes} {store store' : Store}
  {registered : AList fun _ : Bytes × Bytes × Bytes => Bytes} {s t : State}

theorem put_eq_ok {key : Bytes} {node : Node Bytes} {answer : Option Error}
    (h : put env store key node answer = .ok store') :
    Lib.Trees.put store (clean key) node = .ok store' := by
  unfold put at h
  split at h
  · cases h
  · split at h
    · cases h
    · rename_i hput
      cases h
      exact hput

theorem Holds.congr (h : Holds base name store registered)
    (hchild : ∀ a, store'.lookup (dirOf base name ++ [a]) = store.lookup (dirOf base name ++ [a]))
    (hdir : store.lookup (dirOf base name) = some .dir →
      store'.lookup (dirOf base name) = some .dir) :
    Holds base name store' registered where
  stored ha := h.stored ((hchild _).symm.trans ha)
  kept ha := (hchild _).trans (h.kept ha)
  isDir ha := hdir (h.isDir ha)

theorem Holds.put_other {key : Bytes} {node : Node Bytes} {answer : Option Error}
    (h : Holds base name store registered) (hnot : ¬ Below (dirOf base name) (clean key))
    (hput : put env store key node answer = .ok store') : Holds base name store' registered :=
  h.congr (lookup_put_of_not_below (put_eq_ok hput) hnot) (lookup_put_dir (put_eq_ok hput))

theorem Holds.putDir_other {key : Bytes} {answer : Option Error}
    (h : Holds base name store registered) (hnot : ¬ Below (dirOf base name) (clean key))
    (hput : putDir env store key answer = .ok store') :
    Holds base name store' registered := by
  unfold putDir at hput
  split at hput
  · split_ifs at hput
    cases hput
    exact h
  · rename_i st hst
    cases hput
    exact h.put_other hnot hst

theorem Holds.put_node {key a v : Bytes} {answer : Option Error}
    (h : Holds base name store registered) (hkey : clean key = dirOf base name ++ [a])
    (hput : put env store key (.file v) answer = .ok store') :
    Holds base name store' (registered.insert (base, name, a) v) := by
  have hput' := put_eq_ok hput
  rw [hkey] at hput'
  have hchild := lookup_put_child hput'
  have hinsert : ∀ a' w, (registered.insert (base, name, a) v).lookup (base, name, a') = some w ↔
      (a' = a ∧ w = v) ∨ (a' ≠ a ∧ registered.lookup (base, name, a') = some w) := by
    intro a' w
    rw [lookup_insert_eq_some]
    simp
  refine ⟨fun {a' node} ha => ?_, fun {a' w} ha => ?_, fun _ => ?_⟩
  · rw [hchild] at ha
    split_ifs at ha with heq
    · cases ha
      exact ⟨v, rfl, (hinsert a' v).mpr (Or.inl ⟨heq, rfl⟩)⟩
    · obtain ⟨w, rfl, hw⟩ := h.stored ha
      exact ⟨w, rfl, (hinsert a' w).mpr (Or.inr ⟨heq, hw⟩)⟩
  · rw [hchild]
    rcases (hinsert a' w).mp ha with ⟨rfl, rfl⟩ | ⟨hne, hold⟩
    · rw [if_pos rfl]
    · rw [if_neg hne]
      exact h.kept hold
  · obtain ⟨-, -, -, hdir⟩ := put_spec hput'
    rw [List.dropLast_concat] at hdir
    exact hdir.resolve_left (by simp [dirOf])

/-- What `Register` does to the store: the directories of the base path and of the service, and if
there is no error, at last the node. -/
theorem register_store (env : Env) {r : Register} (m metadata : Bytes)
    (newStore put₁ put₂ put₃ : Option Error) {P : Store → Prop} (h0 : P store)
    (hbase : ∀ {st st' answer}, P st → putDir env st r.basePath answer = .ok st' → P st')
    (hdir : ∀ {st st' answer}, P st → putDir env st (join r.basePath m) answer = .ok st' → P st') :
    let x := register env r store m metadata newStore put₁ put₂ put₃
    (x.2.2 ≠ none → P x.2.1) ∧
      (x.2.2 = none → ∃ st, P st ∧ put env st (r.node m) (.file metadata) put₃ = .ok x.2.1) := by
  dsimp only
  unfold register
  split_ifs with hm
  · exact ⟨fun _ => h0, nofun⟩
  · split
    · exact ⟨fun _ => h0, nofun⟩
    · rename_i r' hconn
      obtain rfl := connect_eq_ok hconn
      split
      · exact ⟨fun _ => h0, nofun⟩
      · rename_i st₁ hput₁
        have h1 : P st₁ := hbase h0 hput₁
        split
        · exact ⟨fun _ => h1, nofun⟩
        · rename_i st₂ hput₂
          have h2 : P st₂ := hdir h1 hput₂
          unfold registerNode
          split
          · exact ⟨fun _ => h2, nofun⟩
          · rename_i st₃ hput₃
            exact ⟨fun h => absurd rfl h, fun _ => ⟨st₂, h2, hput₃⟩⟩

theorem not_below_of_isPrefix {dir path : List Bytes} (h : path <+: dir) : ¬ Below dir path := by
  intro hbelow
  have hlen := (below_iff.mp hbelow).2
  have hle := h.length_le
  omega

/-- The node of another service is stored, or one with another base path. -/
theorem Holds.put_other_node {r : Register} {m metadata : Bytes} {st : Store}
    {answer : Option Error}
    (h : Holds base name store registered) (hne : ¬ (r.basePath = base ∧ m = name))
    (hnode : ¬ Below (dirOf base name) (clean (r.node m)))
    (hput : put env store (r.node m) (.file metadata) answer = .ok st) :
    Holds base name st (registered.insert (r.basePath, m, r.serviceAddress) metadata) := by
  have hholds := h.put_other hnode hput
  have hkey : ∀ a, (registered.insert (r.basePath, m, r.serviceAddress) metadata).lookup
      (base, name, a) =
      registered.lookup (base, name, a) := by
    intro a
    refine AList.lookup_insert_ne fun heq => hne ?_
    exact ⟨congrArg Prod.fst heq.symm, congrArg (·.2.1) heq.symm⟩
  refine ⟨fun {a node} ha => ?_, fun {a v} ha => ?_, fun {a v} ha => ?_⟩
  · rw [hkey]
    exact hholds.stored ha
  · rw [hkey] at ha
    exact hholds.kept ha
  · rw [hkey] at ha
    exact hholds.isDir ha

theorem Holds.register_of {r : Register} {m metadata : Bytes}
    {newStore put₁ put₂ put₃ : Option Error}
    (h : Holds base name store registered) (hbase : ¬ Below (dirOf base name) (clean r.basePath))
    (hdir : ¬ Below (dirOf base name) (clean (join r.basePath m)))
    (hnode : ∀ {st st'}, Holds base name st registered →
      put env st (r.node m) (.file metadata) put₃ = .ok st' →
        Holds base name st' (registered.insert (r.basePath, m, r.serviceAddress) metadata)) :
    let x := register env r store m metadata newStore put₁ put₂ put₃
    Holds base name x.2.1 (match x.2.2 with
      | none => registered.insert (r.basePath, m, r.serviceAddress) metadata
      | some _ => registered) := by
  dsimp only
  obtain ⟨hfail, hdone⟩ := register_store env m metadata newStore put₁ put₂ put₃
    (P := (Holds base name · registered)) h (fun hst => hst.putDir_other hbase)
    (fun hst => hst.putDir_other hdir)
  split
  · rename_i herr
    obtain ⟨st, hst, hput⟩ := hdone herr
    exact hnode hst hput
  · rename_i err herr
    exact hfail (by rw [herr]; simp)

theorem Holds.register (hname : Component name) {r : Register} {m metadata : Bytes}
    {newStore put₁ put₂ put₃ : Option Error} (h : Holds base name store registered)
    (hok : (r.basePath = base ∧ m = name ∧ Component r.serviceAddress) ∨
      (¬ (r.basePath = base ∧ m = name) ∧ ¬ Below (dirOf base name) (clean r.basePath) ∧
        ¬ Below (dirOf base name) (clean (join r.basePath m)) ∧
          ¬ Below (dirOf base name) (clean (r.node m)))) :
    let x := register env r store m metadata newStore put₁ put₂ put₃
    Holds base name x.2.1 (match x.2.2 with
      | none => registered.insert (r.basePath, m, r.serviceAddress) metadata
      | some _ => registered) := by
  rcases hok with ⟨rfl, rfl, haddr⟩ | ⟨hne, hbase, hdir, hnode⟩
  · -- a register of the service itself
    have hjoin : clean (join r.basePath m) = dirOf r.basePath m := clean_join _ hname
    have hkey : clean (r.node m) = dirOf r.basePath m ++ [r.serviceAddress] := by
      rw [← hjoin]
      exact clean_join _ haddr
    have hbelow : ¬ Below (dirOf r.basePath m) (clean r.basePath) :=
      not_below_of_isPrefix (List.prefix_append _ _)
    have hbelow' : ¬ Below (dirOf r.basePath m) (clean (join r.basePath m)) := by
      rw [hjoin]
      exact not_below_of_isPrefix (List.prefix_refl _)
    exact h.register_of hbelow hbelow' fun hst hput => hst.put_node hkey hput
  · -- a register of another service, or with another base path
    exact h.register_of hbase hdir fun hst hput => hst.put_other_node hne hnode hput

/-- The ticker puts its node elsewhere, or writes the value that is there. -/
theorem Holds.tick {r : Register} {m : Bytes} {get answer : Option Error}
    (h : Holds base name store registered) (hok : ¬ Below (dirOf base name) (clean (r.node m)) ∨
      ∃ a v, clean (r.node m) = dirOf base name ++ [a] ∧
        store.lookup (dirOf base name ++ [a]) = some (.file v) ∧
        (get = none → env.setTps v = v) ∧ (get ≠ none → r.metas.lookup m = some v)) :
    Holds base name (tick env r store m get answer) registered := by
  unfold Etcd.tick
  split
  · exact h
  · rename_i st hput
    rcases hok with hnot | ⟨a, v, hkey, hv, htps, hmeta⟩
    · exact h.put_other hnot hput
    · have hvalue : tickValue env r store m get = v := by
        unfold tickValue
        rw [hkey, hv]
        cases get with
        | none => exact htps rfl
        | some err => simp [hmeta]
      rw [hvalue] at hput
      have hput' := put_eq_ok hput
      rw [hkey] at hput'
      refine h.congr (fun a' => ?_) (lookup_put_dir hput')
      rw [lookup_put_child hput']
      split_ifs with ha
      · rw [ha, hv]
      · rfl

theorem Holds.step (hname : Component name) {l : Label} (h : Holds base name s.store s.registered)
    (hok : Apart env base name s l) (hs : step env s l = some t) :
    Holds base name t.store t.registered := by
  cases l with
  | new i p a interval =>
    simp only [Etcd.step] at hs
    split at hs
    · cases hs
    · cases hs
      exact h
  | start i newStore answer =>
    obtain ⟨r, hr, rfl⟩ := Option.map_eq_some_iff.mp hs
    have hnot := hok r hr
    show Holds base name (start env r s.store newStore answer).2.1 s.registered
    unfold start
    split
    · exact h
    · rename_i r' hconn
      obtain rfl := connect_eq_ok hconn
      split
      · exact h
      · rename_i st hput
        exact h.putDir_other hnot hput
  | register i m metadata newStore put₁ put₂ put₃ =>
    obtain ⟨r, hr, rfl⟩ := Option.map_eq_some_iff.mp hs
    exact h.register hname (hok r hr)
  | tick i m get answer =>
    obtain ⟨r, hr, hs⟩ := Option.bind_eq_some_iff.mp hs
    split_ifs at hs
    cases hs
    exact h.tick (hok r hr)

end Steps

/-! ### What the discovery finds -/

section Discover

variable {base name : Bytes} {s : State}

theorem list_join (store : Store) (hname : Component name) :
    list store (join base name) =
      match store.lookup (dirOf base name) with
      | none => .error (.other (str "Key not found in store"))
      | some (.file _) => .ok []
      | some .dir =>
        .ok ((children store (dirOf base name)).map fun e => (absolute e.1, valueOf e.2)) := by
  have hclean : clean (join base name) = dirOf base name := clean_join _ hname
  have hnode : nodeAt store (dirOf base name) = store.lookup (dirOf base name) :=
    if_neg (by simp [dirOf])
  simp only [list, hclean, hnode]

/-- An absolute path without the path of the service is the address. -/
theorem trimPrefix_absolute (hbase : base = absolute (clean base)) (a : Bytes) :
    trimPrefix (join (join base name) []) (absolute (dirOf base name ++ [a])) = a := by
  have habs : absolute (dirOf base name ++ [a]) = join (join base name) a := by
    rw [absolute_concat, dirOf, absolute_concat, ← hbase]
  rw [habs, trimPrefix_join]

theorem Holds.exact_children (h : Holds base name s.store s.registered)
    (hbase : base = absolute (clean base)) :
    Exact s base name (pairsOf (join base name)
      ((children s.store (dirOf base name)).map fun e => (absolute e.1, valueOf e.2))) := by
  have hchild : ∀ e ∈ children s.store (dirOf base name), ∃ a v,
      e = ⟨dirOf base name ++ [a], .file v⟩ ∧ s.registered.lookup (base, name, a) = some v := by
    rintro ⟨p, node⟩ he
    obtain ⟨hlook, a, rfl⟩ := mem_children.mp he
    obtain ⟨v, rfl, hreg⟩ := h.stored hlook
    exact ⟨a, v, rfl, hreg⟩
  have hpair : ∀ a v,
      KV.mk (trimPrefix (join (join base name) []) (absolute (dirOf base name ++ [a]))) v =
      ⟨a, v⟩ := fun a v => by rw [trimPrefix_absolute hbase]
  constructor
  · -- the addresses are distinct because the paths are
    rw [pairsOf, List.map_map, List.map_map]
    have hnodup : (children s.store (dirOf base name)).Nodup := s.store.nodupKeys.nodup.filter _
    refine hnodup.map_on fun x hx y hy hxy => ?_
    obtain ⟨a, v, rfl, hv⟩ := hchild x hx
    obtain ⟨b, w, rfl, hw⟩ := hchild y hy
    simp only [Function.comp, trimPrefix_absolute hbase] at hxy
    subst hxy
    rw [hv] at hw
    cases hw
    rfl
  · intro a v
    rw [pairsOf, List.map_map, List.mem_map]
    constructor
    · rintro ⟨e, he, heq⟩
      obtain ⟨b, w, rfl, hreg⟩ := hchild e he
      have hkv : (⟨b, w⟩ : KV) = ⟨a, v⟩ := (hpair b w).symm.trans heq
      cases hkv
      exact hreg
    · intro hreg
      exact ⟨⟨dirOf base name ++ [a], .file v⟩, mem_children.mpr ⟨h.kept hreg, a, rfl⟩, hpair a v⟩

theorem Holds.exact (h : Holds base name s.store s.registered)
    (hbase : base = absolute (clean base)) (hname : Component name) {kv : List (Bytes × Bytes)}
    (hkv : list s.store (join base name) = .ok kv) :
    Exact s base name (pairsOf (join base name) kv) := by
  rw [list_join s.store hname] at hkv
  split at hkv
  · cases hkv
  · rename_i hfile
    cases hkv
    -- a file is in the place of the directory, so nothing was registered
    refine ⟨List.nodup_nil, fun a v => ⟨nofun, fun hreg => ?_⟩⟩
    have hdir := h.isDir hreg
    rw [hfile] at hdir
    cases hdir
  · cases hkv
    exact h.exact_children hbase

end Discover

/-- **Discovery inverts registration.** For every base path that is an absolute path in normal form,
every name that can be a component, and every run whose steps keep apart from them: the list of a
new discovery and every snapshot for that name have exactly the addresses and the metadata that were
registered under it; and if there are any, there is such a list. -/
theorem etcd_discovery_inverts {env : Env} {base name : Bytes}
    (hbase : base = absolute (clean base))
    (hname : Component name) {s : State} (h : Reach (step env) (Apart env base name) init s) :
    (∀ pairs, newEtcdDiscovery base name s.store = .ok pairs → Exact s base name pairs) ∧
    (∀ pairs, snapshot base name s.store = some pairs → Exact s base name pairs) ∧
    ((∃ a v, s.registered.lookup (base, name, a) = some v) →
      ∃ pairs, newEtcdDiscovery base name s.store = .ok pairs ∧
        snapshot base name s.store = some pairs) := by
  have hholds : Holds base name s.store s.registered := by
    refine h.invariant (P := fun s => Holds base name s.store s.registered) ?_ ?_
    · exact ⟨fun ha => (by simp [init] at ha), fun ha => (by simp [init] at ha),
        fun ha => (by simp [init] at ha)⟩
    · intro t u l _ ht hok hs
      exact ht.step hname hok hs
  have hpath := discoveryPath_eq base hname
  refine ⟨fun pairs hpairs => ?_, fun pairs hpairs => ?_, fun ⟨a, v, hreg⟩ => ?_⟩
  · simp only [newEtcdDiscovery, hpath] at hpairs
    cases hkv : list s.store (join base name) with
    | error err =>
      rw [hkv, error_bind] at hpairs
      cases hpairs
    | ok kv =>
      rw [hkv, ok_bind] at hpairs
      cases hpairs
      exact hholds.exact hbase hname hkv
  · simp only [snapshot, hpath] at hpairs
    cases hkv : list s.store (join base name) with
    | error err =>
      rw [hkv] at hpairs
      cases hpairs
    | ok kv =>
      rw [hkv] at hpairs
      cases hpairs
      exact hholds.exact hbase hname hkv
  · obtain ⟨kv, hkv⟩ : ∃ kv, list s.store (join base name) = .ok kv := by
      rw [list_join s.store hname, hholds.isDir hreg]
      exact ⟨_, rfl⟩
    refine ⟨pairsOf (join base name) kv, ?_, ?_⟩
    · simp only [newEtcdDiscovery, hpath, hkv]
      rfl
    · simp only [snapshot, hpath, hkv]

/-- Names and metadata as in `Consul.plainEnv`; the errors have the texts of etcd. -/
def plainEnv : Env where
  toEnv := Consul.plainEnv
  refused
    | .root, key => .other (str "107: Root is read only (" ++ key ++ str ")")
    | .notDir, key => .other (str "104: Not a directory (" ++ key ++ str ")")
    | .notFile, key => .other (str "102: Not a file (" ++ key ++ str ")")

/-- A register with this base path and this address is started, and registers the service `A` with
the metadata `m`. -/
def registering (base address : Bytes) : List Label :=
  [.new 0 base address 1, .start 0 none none, .register 0 [65] [109] none none none none]

/-- The services `A` and `AB`, with the base path `/b`. -/
theorem etcd_discovery_inverts_two :
    ∃ s, Reach (step plainEnv) (Apart plainEnv [47, 98] [65]) init s ∧
      newEtcdDiscovery [47, 98] [65] s.store = .ok [⟨[49], [109]⟩] ∧
      Exact s [47, 98] [65] [⟨[49], [109]⟩] := by
  have hnew : Reach (step plainEnv) (Apart plainEnv [47, 98] [65]) init _ :=
    .tail .refl trivial rfl (l := .new 0 [47, 98] [49] 1)
  have hstarted : Reach _ (Apart plainEnv [47, 98] [65]) init _ :=
    hnew.tail (l := .start 0 none none) (fun r hr => by cases hr; decide) rfl
  have hone : Reach _ (Apart plainEnv [47, 98] [65]) init _ :=
    hstarted.tail (l := .register 0 [65] [109] none none none none)
      (fun r hr => by cases hr; exact Or.inl ⟨rfl, rfl, by decide⟩) rfl
  have hrun : Reach (step plainEnv) (Apart plainEnv [47, 98] [65]) init _ :=
    hone.tail (l := .register 0 [65, 66] [109] none none none none)
      (fun r hr => by cases hr; exact Or.inr (by decide)) rfl
  exact ⟨_, hrun, rfl, (etcd_discovery_inverts rfl (by decide) hrun).1 _ rfl⟩

/-- The base path of the documentation, which is not absolute: the discovery does not find the
address `1`, but its absolute path. With the base path `/b`: an address with a `/` is not found, and
after a tick there are other metadata than were registered. -/
theorem etcd_discovery_differs :
    (∃ s pairs, exec (step plainEnv) init (registering (str "com/example/frpc") [49]) = some s ∧
      newEtcdDiscovery (str "com/example/frpc") [65] s.store = .ok pairs ∧
      snapshot (str "com/example/frpc") [65] s.store = some pairs ∧
      pairs = [⟨str "/com/example/frpc/A/1", [109]⟩] ∧
        ¬ Exact s (str "com/example/frpc") [65] pairs) ∧
    (∃ s pairs, exec (step plainEnv) init (registering [47, 98] (str "unix@/tmp/s")) = some s ∧
      newEtcdDiscovery [47, 98] [65] s.store = .ok pairs ∧
        snapshot [47, 98] [65] s.store = some pairs ∧
      pairs = [⟨str "unix@", []⟩] ∧ ¬ Exact s [47, 98] [65] pairs) ∧
    (∃ s pairs, exec (step plainEnv) init (registering [47, 98] [49] ++ [.tick 0 [65] none none]) =
      some s ∧
      newEtcdDiscovery [47, 98] [65] s.store = .ok pairs ∧
        snapshot [47, 98] [65] s.store = some pairs ∧
      pairs = [⟨[49], 109 :: str "=&tps="⟩] ∧ ¬ Exact s [47, 98] [65] pairs) := by
  refine ⟨⟨_, _, rfl, rfl, rfl, rfl, fun h => ?_⟩, ⟨_, _, rfl, rfl, rfl, rfl, fun h => ?_⟩,
    ⟨_, _, rfl, rfl, rfl, rfl, fun h => ?_⟩⟩
  · exact absurd ((h.2 [49] [109]).mpr rfl) (by decide)
  · exact absurd ((h.2 (str "unix@/tmp/s") [109]).mpr rfl) (by decide)
  · exact absurd ((h.2 [49] [109]).mpr rfl) (by decide)

end Frpc.Registry.Etcd
