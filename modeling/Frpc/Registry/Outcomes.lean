import Frpc.Registry.Etcd

/-! # What a `Register` leaves behind

`Register` of a Consul or an etcd registry makes three requests to its store, and the last one is
several requests if the node gets a TTL. It stops at the first error, but what was stored before
stays. When it returns `nil` (`Accepts`), when it has changed nothing (`Untouched`), and when the
node is in the store although it has failed (`Keeps`), in terms of the name, of what the store has,
and of its answers. -/

namespace Frpc.Registry.Outcomes

open Frpc.Basic Frpc.Lib.Tables Frpc.Lib.Trees
open Frpc.Registry.Consul
  (KVPair PutAnswers Register acquire connect_eq_ok contains join join_ne locked
  putTTL putValue registerDirs)
open Frpc.Registry.Etcd (clean)

/-- What the store answers to the requests of a `Register`. For etcd the last one is a single
request. -/
structure Answers where
  newStore : Option Error
  put₁ : Option Error
  put₂ : Option Error
  put₃ : PutAnswers

/-- The registry of a server, with what it has stored. -/
inductive ServerRegistry where
  | consul (r : Register) (store : Consul.Store)
  | etcd (r : Register) (store : Etcd.Store)

/-- `Register` of the registry. -/
def ServerRegistry.register (env : Etcd.Env) (name metadata : Bytes) (a : Answers) :
    ServerRegistry → ServerRegistry × Option Error
  | .consul r store =>
    let (r, store, err) :=
      Consul.register env.toEnv r store name metadata a.newStore a.put₁ a.put₂ a.put₃
    (.consul r store, err)
  | .etcd r store =>
    let (r, store, err) :=
      Etcd.register env r store name metadata a.newStore a.put₁ a.put₂ a.put₃.put
    (.etcd r store, err)

/-- The stores have the same keys and values. -/
def Agree (store store' : Consul.Store) : Prop :=
  ∀ k, (store'.lookup k).map (·.value) = (store.lookup k).map (·.value)

/-- The entries of the store, `Services` and `metas` are the same. -/
def ServerRegistry.Same : ServerRegistry → ServerRegistry → Prop
  | .consul r store, .consul r' store' =>
    r'.services = r.services ∧ r'.metas = r.metas ∧ Agree store store'
  | .etcd r store, .etcd r' store' =>
    r'.services = r.services ∧ r'.metas = r.metas ∧ ∀ k, store'.lookup k = store.lookup k
  | _, _ => False

/-- The key has this value. -/
def Has (store : Consul.Store) (key value : Bytes) : Prop :=
  (store.lookup key).map (·.value) = some value

/-- The node of the service is stored, with this metadata. -/
def ServerRegistry.Stored (name metadata : Bytes) : ServerRegistry → Prop
  | .consul r store => Has store (r.node name) metadata
  | .etcd r store => store.lookup (clean (r.node name)) = some (.file metadata)

/-! ### Conditions -/

/-- There is a connection to the store, or one is made. -/
def Connects (r : Register) (a : Answers) : Prop := r.connected = true ∨ a.newStore = none

section Consul

variable (env : Consul.Env) (r : Register) (store : Consul.Store) (name metadata : Bytes)
  (a : Answers)

/-- The error with which the client or Consul answers to a `Put` of the key. -/
def refusal (key : Bytes) (answer : Option Error) : Option Error :=
  if key.head? = some 47
    then some (.other (str "Invalid key. Key must not begin with a '/': " ++ key))
  else answer

/-- The error that `Register` ignores for a directory. -/
def notAFile (err : Error) : Bool := contains err.text (str "Not a file")

/-- Nothing stops a `Register` before the node. -/
structure ReachesNode : Prop where
  named : env.blank name = false
  connects : Connects r a
  base : refusal r.basePath a.put₁ = none
  dir : ∀ err, refusal (join r.basePath name) a.put₂ = some err → notAFile err = true

/-- The `Put` of the node is refused: its session is not renewed, or the last request is answered
with an error. -/
def NodeRefused : Prop :=
  (0 < r.ttl ∧ a.put₃.renewed = false) ∨ refusal (r.node name) a.put₃.put ≠ none

/-- The `Put` of the node locks it, and leaves it without a value. -/
def LocksNode : Prop :=
  0 < r.ttl ∧ a.put₃.acquired = true ∧ (r.node name).head? ≠ some 47 ∧
    locked store (r.node name) = false

/-- The directories are not stored, or were there. -/
def DirsUntouched : Prop :=
  env.blank name = true ∨ ¬ Connects r a ∨ refusal r.basePath a.put₁ ≠ none ∨
    (Has store r.basePath (str "frpc_path") ∧
      (refusal (join r.basePath name) a.put₂ ≠ none ∨ Has store (join r.basePath name) name))

/-- `Register` changes nothing: it fails, the directories are not stored or were there, and the node
is not locked or was empty. -/
def ConsulUntouched : Prop :=
  DirsUntouched env r store name a ∧
    (ReachesNode env r name a → NodeRefused r name a ∧
      (LocksNode r store name a → Has store (r.node name) []))

/-- `Register` returns `nil`. -/
def ConsulAccepts : Prop := ReachesNode env r name a ∧ ¬ NodeRefused r name a

/-- The node has this metadata although `Register` fails: it had it and is not locked, or there is
none. -/
def ConsulKeeps : Prop :=
  (ReachesNode env r name a ∧ LocksNode r store name a ∧ metadata = []) ∨
    (¬ (ReachesNode env r name a ∧ LocksNode r store name a) ∧ Has store (r.node name) metadata)

end Consul

section Etcd

variable (env : Etcd.Env) (r : Register) (store : Etcd.Store) (name metadata : Bytes) (a : Answers)

/-- `Register` changes nothing: the first request that is not answered with the error for a
directory that is there is answered with another error. -/
inductive EtcdUntouched : Prop
  | blank (h : env.blank name = true)
  | connects (h : ¬ Connects r a)
  | base {err : Error} (h : Etcd.putDir env store r.basePath a.put₁ = .error err)
  | dir {err : Error} (h₁ : Etcd.putDir env store r.basePath a.put₁ = .ok store)
      (h₂ : Etcd.putDir env store (join r.basePath name) a.put₂ = .error err)
  | node {err : Error} (h₁ : Etcd.putDir env store r.basePath a.put₁ = .ok store)
      (h₂ : Etcd.putDir env store (join r.basePath name) a.put₂ = .ok store)
      (h₃ : Etcd.put env store (r.node name) (.file metadata) a.put₃.put = .error err)

/-- `Register` returns `nil`: no request is answered with an error, but for that for a directory
that is there. -/
def EtcdAccepts : Prop :=
  env.blank name = false ∧ Connects r a ∧ ∃ store₁ store₂ store₃,
    Etcd.putDir env store r.basePath a.put₁ = .ok store₁ ∧
    Etcd.putDir env store₁ (join r.basePath name) a.put₂ = .ok store₂ ∧
    Etcd.put env store₂ (r.node name) (.file metadata) a.put₃.put = .ok store₃

/-- A directory is made at the path of the node, where a file may have been. -/
def EtcdReplaces : Prop :=
  env.blank name = false ∧ Connects r a ∧
    ((clean r.basePath = clean (r.node name) ∧
      ∃ store₁, Etcd.put env store r.basePath .dir a.put₁ = .ok store₁) ∨
    (clean (join r.basePath name) = clean (r.node name) ∧
      ∃ store₁ store₂, Etcd.putDir env store r.basePath a.put₁ = .ok store₁ ∧
        Etcd.put env store₁ (join r.basePath name) .dir a.put₂ = .ok store₂))

/-- The node has this metadata although `Register` fails: it had it, and no directory has come in
its place. -/
def EtcdKeeps : Prop :=
  store.lookup (clean (r.node name)) = some (.file metadata) ∧ ¬ EtcdReplaces env r store name a

end Etcd

/-- `Register` changes nothing. -/
def ServerRegistry.Untouched (env : Etcd.Env) (name metadata : Bytes) (a : Answers) :
    ServerRegistry → Prop
  | .consul r store => ConsulUntouched env.toEnv r store name a
  | .etcd r store => EtcdUntouched env r store name metadata a

/-- `Register` returns `nil`. -/
def ServerRegistry.Accepts (env : Etcd.Env) (name metadata : Bytes) (a : Answers) :
    ServerRegistry → Prop
  | .consul r _ => ConsulAccepts env.toEnv r name a
  | .etcd r store => EtcdAccepts env r store name metadata a

/-- The node has this metadata although `Register` fails. -/
def ServerRegistry.Keeps (env : Etcd.Env) (name metadata : Bytes) (a : Answers) :
    ServerRegistry → Prop
  | .consul r store => ConsulKeeps env.toEnv r store name metadata a
  | .etcd r store => EtcdKeeps env r store name metadata a

theorem connect_cases (r : Register) (a : Answers) :
    (∃ err, r.connect a.newStore = .error err ∧ ¬ Connects r a) ∨
      (r.connect a.newStore = .ok { r with connected := true } ∧ Connects r a) := by
  unfold Register.connect Connects
  cases r.connected <;> cases a.newStore <;> simp

/-! ### Consul -/

section ConsulOutcomes

variable {env : Consul.Env} {r : Register} {store st : Consul.Store} {name metadata : Bytes}
  {a : Answers}

theorem put_eq (key value : Bytes) (answer : Option Error) :
    Consul.put store key value answer = match refusal key answer with
      | some err => .error err
      | none => .ok (store.insert key ⟨value, locked store key⟩) := by
  unfold Consul.put refusal
  split_ifs <;> rfl

theorem Agree.refl (store : Consul.Store) : Agree store store := fun _ => rfl

theorem agree_insert {key : Bytes} {p : KVPair} (hkey : st.lookup key = store.lookup key) :
    Agree store (st.insert key p) ↔ Has store key p.value ∧ Agree store st := by
  constructor
  · intro h
    have hself := h key
    rw [AList.lookup_insert] at hself
    refine ⟨hself.symm, fun k => ?_⟩
    by_cases hk : k = key
    · rw [hk, hkey]
    · rw [← h k, AList.lookup_insert_ne hk]
  · rintro ⟨hhas, hagree⟩ k
    by_cases hk : k = key
    · rw [hk, AList.lookup_insert]
      exact hhas.symm
    · rw [AList.lookup_insert_ne hk, hagree k]

theorem node_ne_dir (r : Register) (name : Bytes) : r.node name ≠ join r.basePath name :=
  join_ne _ _

theorem dir_ne_base (r : Register) (name : Bytes) : join r.basePath name ≠ r.basePath := join_ne _ _

theorem node_ne_base (r : Register) (name : Bytes) : r.node name ≠ r.basePath := by
  intro h
  have := congrArg List.length h
  simp [Register.node, join] at this

theorem dirsUntouched_iff (hblank : env.blank name = false) (hconn : Connects r a)
    (hbase : refusal r.basePath a.put₁ = none) :
    DirsUntouched env r store name a ↔ Has store r.basePath (str "frpc_path") ∧
      (refusal (join r.basePath name) a.put₂ ≠ none ∨ Has store (join r.basePath name) name) := by
  simp [DirsUntouched, hblank, hconn, hbase]

/-- `Register`, before the node: whether it goes on, and what it has changed. -/
theorem registerDirs_outcome (env : Consul.Env) (r : Register) (store : Consul.Store) (name : Bytes)
    (a : Answers) :
    let x := registerDirs env r store name a.newStore a.put₁ a.put₂
    (x.2.2 = none ↔ ReachesNode env r name a) ∧ (∃ c, x.1 = { r with connected := c }) ∧
      x.2.1.lookup (r.node name) = store.lookup (r.node name) ∧
      (Agree store x.2.1 ↔ DirsUntouched env r store name a) := by
  dsimp only
  unfold registerDirs
  split_ifs with hblank
  · refine ⟨⟨nofun, fun h => ?_⟩, ⟨_, rfl⟩, rfl, fun _ => Or.inl hblank, fun _ => .refl store⟩
    cases hblank.symm.trans h.named
  · rw [Bool.not_eq_true] at hblank
    rcases connect_cases r a with ⟨err, hconn, hno⟩ | ⟨hconn, hyes⟩
    · rw [hconn]
      exact ⟨⟨nofun, fun h => absurd h.connects hno⟩, ⟨_, rfl⟩, rfl, fun _ => Or.inr (Or.inl hno),
        fun _ => .refl store⟩
    · rw [hconn]
      dsimp only
      rw [put_eq]
      cases hbase : refusal r.basePath a.put₁ with
      | some err =>
        refine ⟨⟨nofun, fun h => ?_⟩, ⟨_, rfl⟩, rfl, fun _ => ?_, fun _ => .refl store⟩
        · cases hbase.symm.trans h.base
        · exact Or.inr (Or.inr (Or.inl (by rw [hbase]; exact nofun)))
      | none =>
        have hold : ∀ {k}, k ≠ r.basePath → (store.insert r.basePath
            ⟨str "frpc_path", locked store r.basePath⟩).lookup k = store.lookup k :=
          fun hk => AList.lookup_insert_ne hk
        have hagree :
            Agree store (store.insert r.basePath ⟨str "frpc_path", locked store r.basePath⟩) ↔
            Has store r.basePath (str "frpc_path") := by
          rw [agree_insert rfl]
          exact and_iff_left (.refl store)
        dsimp only
        rw [put_eq, dirsUntouched_iff hblank hyes hbase]
        cases hdir : refusal (join r.basePath name) a.put₂ with
        | some err =>
          refine ⟨?_, ⟨_, rfl⟩, hold (node_ne_base r name), by simpa using hagree⟩
          show (if notAFile err = true then none else some err) = none ↔ _
          constructor
          · intro h
            refine ⟨hblank, hyes, hbase, fun err' herr => ?_⟩
            cases hdir.symm.trans herr
            by_contra hno
            rw [if_neg hno] at h
            cases h
          · exact fun h => if_pos (h.dir err hdir)
        | none =>
          refine ⟨iff_of_true rfl ⟨hblank, hyes, hbase, fun err herr => ?_⟩, ⟨_, rfl⟩, ?_, ?_⟩
          · cases hdir.symm.trans herr
          · exact (AList.lookup_insert_ne (node_ne_dir r name)).trans (hold (node_ne_base r name))
          · rw [agree_insert (hold (dir_ne_base r name)), hagree, and_comm]
            simp

theorem putValue_cases (u : Consul.Store) (key value : Bytes) (answer : Option Error) :
    (∃ err, refusal key answer = some err ∧ putValue u key value answer = (u, some err)) ∨
      (refusal key answer = none ∧ (putValue u key value answer).2 = none ∧
        Has (putValue u key value answer).1 key value) := by
  unfold putValue
  rw [put_eq]
  cases refusal key answer with
  | some err => exact Or.inl ⟨err, rfl, rfl⟩
  | none => exact Or.inr ⟨rfl, rfl, by simp [Has]⟩

/-- The `Put` of the node, from the store `u` that the lock leaves. -/
theorem putTTL_cases (metadata : Bytes)
    (hnode : st.lookup (r.node name) = store.lookup (r.node name)) :
    ∃ u, (LocksNode r store name a ∧ u = st.insert (r.node name) ⟨[], true⟩ ∨
        ¬ LocksNode r store name a ∧ u = st) ∧
      (NodeRefused r name a ∧
        (∃ err, putTTL st (r.node name) metadata r.ttl a.put₃ = (u, some err)) ∨
        ¬ NodeRefused r name a ∧ (putTTL st (r.node name) metadata r.ttl a.put₃).2 = none ∧
          Has (putTTL st (r.node name) metadata r.ttl a.put₃).1 (r.node name) metadata) := by
  have hlocked : locked st (r.node name) =
      locked store (r.node name) := by rw [locked, hnode, locked]
  by_cases httl : 0 < r.ttl
  · refine ⟨if a.put₃.acquired then (acquire st (r.node name)).getD st else st, ?_, ?_⟩
    · unfold LocksNode acquire
      rw [hlocked]
      by_cases hacq : a.put₃.acquired = true <;> by_cases hkey : (r.node name).head? = some 47 <;>
        cases locked store (r.node name) <;> simp [httl, hacq, hkey]
    · unfold putTTL
      rw [if_pos httl]
      dsimp only
      cases hren : a.put₃.renewed with
      | false => exact Or.inl ⟨Or.inl ⟨httl, hren⟩, _, rfl⟩
      | true =>
        rcases putValue_cases (if a.put₃.acquired then (acquire st (r.node name)).getD st else st)
          (r.node name)
          metadata a.put₃.put with ⟨err, herr, heq⟩ | ⟨hnone, hok⟩
        · exact Or.inl ⟨Or.inr (by simp [herr]), err, heq⟩
        · exact Or.inr ⟨by simp [NodeRefused, hren, hnone], hok⟩
  · refine ⟨st, Or.inr ⟨fun h => httl h.1, rfl⟩, ?_⟩
    unfold putTTL
    rw [if_neg httl]
    rcases putValue_cases st (r.node name) metadata a.put₃.put with ⟨err, herr, heq⟩ | ⟨hnone, hok⟩
    · exact Or.inl ⟨Or.inr (by simp [herr]), err, heq⟩
    · exact Or.inr ⟨by simp [NodeRefused, httl, hnone], hok⟩

theorem has_insert_self {key value : Bytes} {b : Bool} {v : Bytes} :
    Has (st.insert key ⟨value, b⟩) key v ↔ v = value := by
  simp [Has, eq_comm]

theorem has_congr {key value : Bytes} (h : st.lookup key = store.lookup key) :
    Has st key value ↔ Has store key value := by
  rw [Has, h, Has]

theorem append_singleton_ne (l : List Bytes) (x : Bytes) : l ++ [x] ≠ l := by simp

section Register

variable {r' : Register} {u : Consul.Store} {newStore put₁ put₂ : Option Error} {put₃ : PutAnswers}
  {err : Error}

theorem register_of_error
    (hdirs : registerDirs env r store name newStore put₁ put₂ = (r', st, some err)) :
    Consul.register env r store name metadata newStore put₁ put₂ put₃ = (r', st, some err) := by
  rw [Consul.register, hdirs]

theorem register_of_refused
    (hdirs : registerDirs env r store name newStore put₁ put₂ = (r', st, none))
    (hput : putTTL st (r'.node name) metadata r'.ttl put₃ = (u, some err)) :
    Consul.register env r store name metadata newStore put₁ put₂ put₃ = (r', u, some err) := by
  simp only [Consul.register, hdirs, hput]

theorem register_of_put
    (hdirs : registerDirs env r store name newStore put₁ put₂ = (r', st, none))
    (hput : putTTL st (r'.node name) metadata r'.ttl put₃ = (u, none)) :
    Consul.register env r store name metadata newStore put₁ put₂ put₃ =
      (r'.add name metadata, u, none) := by
  simp only [Consul.register, hdirs, hput]

end Register

/-- **What `Register` does in Consul**: when it returns `nil`, when the node is stored afterwards,
and when nothing has changed. -/
theorem consul_outcome (env : Consul.Env) (r : Register) (store : Consul.Store)
    (name metadata : Bytes) (a : Answers) :
    let x := Consul.register env r store name metadata a.newStore a.put₁ a.put₂ a.put₃
    (x.2.2 = none ↔ ConsulAccepts env r name a) ∧
    (Has x.2.1 (x.1.node name) metadata ↔ ConsulAccepts env r name a ∨
      ConsulKeeps env r store name metadata a) ∧
    (x.1.services = r.services ∧ x.1.metas = r.metas ∧ Agree store x.2.1 ↔
      ConsulUntouched env r store name a) := by
  obtain ⟨hreach, ⟨c, hr⟩, hnode, hagree⟩ := registerDirs_outcome env r store name a
  rcases hx : registerDirs env r store name a.newStore a.put₁ a.put₂ with ⟨r', st, err⟩
  rw [hx] at hreach hr hnode hagree
  dsimp only at hreach hr hnode hagree
  subst hr
  dsimp only
  cases err with
  | some err =>
    -- it does not come to the node
    have hno : ¬ ReachesNode env r name a := fun h => (by cases hreach.mpr h)
    rw [register_of_error hx]
    refine ⟨iff_of_false (fun h => by cases h) fun h => hno h.1, ?_, ?_⟩
    · show Has st (r.node name) metadata ↔ _
      simp [has_congr hnode, ConsulAccepts, ConsulKeeps, hno]
    · simp [hagree, ConsulUntouched, hno]
  | none =>
    have hyes := hreach.mp rfl
    obtain ⟨u, hu, hcase⟩ := putTTL_cases metadata hnode (a := a)
    rcases hcase with ⟨href, err, hput⟩ | ⟨hok, hnone, hhas⟩
    · -- the node is refused, and may be locked
      rw [register_of_refused hx hput]
      refine ⟨iff_of_false (fun h => by cases h) fun h => h.2 href, ?_, ?_⟩
      · show Has u (r.node name) metadata ↔ _
        rcases hu with ⟨hl, rfl⟩ | ⟨hl, rfl⟩
        · simp [has_insert_self, ConsulAccepts, ConsulKeeps, hyes, href, hl]
        · simp [has_congr hnode, ConsulAccepts, ConsulKeeps, href, hl]
      · rcases hu with ⟨hl, rfl⟩ | ⟨hl, rfl⟩
        · simp [agree_insert hnode, hagree, ConsulUntouched, hyes, href, hl, and_comm]
        · simp [hagree, ConsulUntouched, href, hl]
    · rcases hput : putTTL st (r.node name) metadata r.ttl a.put₃ with ⟨st', err⟩
      rw [hput] at hnone hhas
      obtain rfl : err = none := hnone
      rw [register_of_put hx hput]
      refine ⟨iff_of_true rfl ⟨hyes, hok⟩, iff_of_true hhas (Or.inl ⟨hyes, hok⟩),
        iff_of_false ?_ ?_⟩
      · exact fun h => append_singleton_ne r.services name h.1
      · exact fun h => hok (h.2 hyes).1

end ConsulOutcomes

/-! ### etcd -/

section EtcdOutcomes

variable {env : Etcd.Env} {r : Register} {store st st' : Etcd.Store} {name metadata : Bytes}
  {a : Answers} {key : Bytes} {answer : Option Error}

theorem putDir_eq_ok (h : Etcd.putDir env st key answer = .ok st') :
    Etcd.put env st key .dir answer = .ok st' ∨
      (st' = st ∧ ∀ u, Etcd.put env st key .dir answer ≠ .ok u) := by
  unfold Etcd.putDir at h
  cases hput : Etcd.put env st key .dir answer with
  | ok u =>
    rw [hput] at h
    exact Or.inl h
  | error err =>
    rw [hput] at h
    dsimp only at h
    split_ifs at h
    cases h
    exact Or.inr ⟨rfl, nofun⟩

theorem putDir_of_put {u : Etcd.Store} (h : Etcd.put env st key .dir answer = .ok u) :
    Etcd.putDir env st key answer = .ok u := by
  rw [Etcd.putDir, h]

theorem put_dir_new (h : Etcd.put env st key .dir answer = .ok st') :
    st.lookup (clean key) ≠ some .dir ∧ st'.lookup (clean key) = some .dir := by
  obtain ⟨hno, hself, -⟩ := put_spec (Etcd.put_eq_ok h)
  exact ⟨hno, hself⟩

theorem lookup_dir_putDir (h : Etcd.putDir env st key answer = .ok st') {q : List Bytes}
    (hq : st.lookup q = some .dir) : st'.lookup q = some .dir := by
  rcases putDir_eq_ok h with hput | ⟨rfl, -⟩
  · exact lookup_put_dir (Etcd.put_eq_ok hput) hq
  · exact hq

theorem putDir_same (h : Etcd.putDir env st key answer = .ok st') :
    (∀ k, st'.lookup k = st.lookup k) ↔ st' = st := by
  refine ⟨fun hsame => ?_, fun heq k => by rw [heq]⟩
  rcases putDir_eq_ok h with hput | ⟨heq, -⟩
  · obtain ⟨hno, hself⟩ := put_dir_new hput
    exact absurd ((hsame _).symm.trans hself) hno
  · exact heq

/-- A file is still there, unless the directory has taken its place. -/
theorem lookup_file_putDir (h : Etcd.putDir env st key answer = .ok st') {q : List Bytes}
    {v : Bytes} :
    st'.lookup q = some (.file v) ↔
      st.lookup q = some (.file v) ∧
        ¬ (clean key = q ∧ ∃ u, Etcd.put env st key .dir answer = .ok u) := by
  rcases putDir_eq_ok h with hput | ⟨rfl, hno⟩
  · obtain ⟨-, hself, hother, -⟩ := put_spec (Etcd.put_eq_ok hput)
    by_cases hq : q = clean key
    · subst hq
      refine iff_of_false (by rw [hself]; simp) fun hfile => hfile.2 ⟨rfl, _, hput⟩
    · have hne : ¬ (clean key = q ∧ ∃ u, Etcd.put env st key .dir answer = .ok u) := fun hq' =>
        hq hq'.1.symm
      rcases hother q hq with hsame | ⟨hnone, hdir, -⟩
      · rw [hsame, and_iff_left hne]
      · simp [hnone, hdir]
  · refine (and_iff_left ?_).symm
    rintro ⟨-, u, hu⟩
    exact hno u hu

/-- The two directories: nothing has changed, or one of them is new. -/
theorem putDirs_same {st₁ st₂ : Etcd.Store} {key' : Bytes} {answer' : Option Error}
    (h₁ : Etcd.putDir env store key answer = .ok st₁)
    (h₂ : Etcd.putDir env st₁ key' answer' = .ok st₂) :
    (∀ k, st₂.lookup k = store.lookup k) ↔ st₁ = store ∧ st₂ = store := by
  refine ⟨fun hsame => ?_, ?_⟩
  · obtain rfl : st₁ = store := by
      rcases putDir_eq_ok h₁ with hput | ⟨heq, -⟩
      · obtain ⟨hno, hself⟩ := put_dir_new hput
        exact absurd ((hsame _).symm.trans (lookup_dir_putDir h₂ hself)) hno
      · exact heq
    exact ⟨rfl, (putDir_same h₂).mp hsame⟩
  · rintro ⟨rfl, rfl⟩ k
    rfl

/-- When `Register` has returned `nil`, when the node is stored afterwards, and when nothing has
changed. -/
def EtcdOutcome (env : Etcd.Env) (r : Register) (store : Etcd.Store) (name metadata : Bytes)
    (a : Answers) (x : Register × Etcd.Store × Option Error) : Prop :=
  (x.2.2 = none ↔ EtcdAccepts env r store name metadata a) ∧
  (x.2.1.lookup (clean (x.1.node name)) = some (.file metadata) ↔
    EtcdAccepts env r store name metadata a ∨ EtcdKeeps env r store name metadata a) ∧
  (x.1.services = r.services ∧ x.1.metas = r.metas ∧ (∀ k, x.2.1.lookup k = store.lookup k) ↔
    EtcdUntouched env r store name metadata a)

theorem EtcdOutcome.failed {c : Bool} {err : Error}
    (hno : ¬ EtcdAccepts env r store name metadata a)
    (hkeeps : st.lookup (clean (r.node name)) = some (.file metadata) ↔
      store.lookup (clean (r.node name)) = some (.file metadata) ∧
        ¬ EtcdReplaces env r store name a)
    (hsame : (∀ k, st.lookup k = store.lookup k) ↔ EtcdUntouched env r store name metadata a) :
    EtcdOutcome env r store name metadata a ({ r with connected := c }, st, some err) := by
  refine ⟨iff_of_false nofun hno, ?_, ?_⟩
  · rw [or_iff_right hno]
    exact hkeeps
  · show r.services = r.services ∧ r.metas = r.metas ∧ _ ↔ _
    rw [← hsame, and_iff_right rfl, and_iff_right rfl]

theorem EtcdOutcome.failed_same {c : Bool} {err : Error}
    (hno : ¬ EtcdAccepts env r store name metadata a)
    (hrep : ¬ EtcdReplaces env r store name a) (hsame : EtcdUntouched env r store name metadata a) :
    EtcdOutcome env r store name metadata a ({ r with connected := c }, store, some err) :=
  .failed hno (and_iff_left hrep).symm (iff_of_true (fun _ => rfl) hsame)

theorem EtcdUntouched.dirs (h : EtcdUntouched env r store name metadata a)
    (hblank : env.blank name = false) (hconn : Connects r a) {st₁ : Etcd.Store}
    (h₁ : Etcd.putDir env store r.basePath a.put₁ = .ok st₁) :
    st₁ = store ∧ ∀ st₂, Etcd.putDir env st₁ (join r.basePath name) a.put₂ = .ok st₂ → st₂ = store ∧
      ∃ err, Etcd.put env st₂ (r.node name) (.file metadata) a.put₃.put = .error err := by
  cases h with
  | blank hb => cases hblank.symm.trans hb
  | connects hno => exact absurd hconn hno
  | base herr => cases h₁.symm.trans herr
  | dir hok herr =>
    cases h₁.symm.trans hok
    exact ⟨rfl, fun st₂ h₂ => by cases h₂.symm.trans herr⟩
  | node hok hok' herr =>
    cases h₁.symm.trans hok
    refine ⟨rfl, fun st₂ h₂ => ?_⟩
    cases h₂.symm.trans hok'
    exact ⟨rfl, _, herr⟩

section Connected

variable {c : Bool} {st₁ st₂ st₃ : Etcd.Store} {err : Error} (hblank : env.blank name = false)
  (hconn : Connects r a) (h₁ : Etcd.putDir env store r.basePath a.put₁ = .ok st₁)

include hblank hconn h₁

theorem EtcdOutcome.dir_refused
    (h₂ : Etcd.putDir env st₁ (join r.basePath name) a.put₂ = .error err) :
    EtcdOutcome env r store name metadata a ({ r with connected := c }, st₁, some err) := by
  have hno : ∀ u, Etcd.put env st₁ (join r.basePath name) .dir a.put₂ ≠ .ok u := by
    intro u hu
    cases h₂.symm.trans (putDir_of_put hu)
  refine .failed (by simp [EtcdAccepts, h₁, h₂]) ?_ ?_
  · rw [lookup_file_putDir h₁]
    simp [EtcdReplaces, h₁, hblank, hconn, hno]
  · rw [putDir_same h₁]
    constructor
    · rintro rfl
      exact .dir h₁ h₂
    · exact fun h => (h.dirs hblank hconn h₁).1

theorem EtcdOutcome.node_refused
    (h₂ : Etcd.putDir env st₁ (join r.basePath name) a.put₂ = .ok st₂)
    (h₃ : Etcd.put env st₂ (r.node name) (.file metadata) a.put₃.put = .error err) :
    EtcdOutcome env r store name metadata a ({ r with connected := c }, st₂, some err) := by
  refine .failed ?_ ?_ ?_
  · rintro ⟨-, -, _, _, st₃, hok₁, hok₂, hok₃⟩
    cases h₁.symm.trans hok₁
    cases h₂.symm.trans hok₂
    cases h₃.symm.trans hok₃
  · rw [lookup_file_putDir h₂, lookup_file_putDir h₁]
    simp [EtcdReplaces, h₁, hblank, hconn, and_assoc]
  · rw [putDirs_same h₁ h₂]
    constructor
    · rintro ⟨rfl, rfl⟩
      exact .node h₁ h₂ h₃
    · intro h
      obtain ⟨hst₁, hrest⟩ := h.dirs hblank hconn h₁
      exact ⟨hst₁, (hrest st₂ h₂).1⟩

theorem EtcdOutcome.accepted
    (h₂ : Etcd.putDir env st₁ (join r.basePath name) a.put₂ = .ok st₂)
    (h₃ : Etcd.put env st₂ (r.node name) (.file metadata) a.put₃.put = .ok st₃) :
    EtcdOutcome env r store name metadata a
      (Register.add { r with connected := c } name metadata, st₃, none) := by
  have hacc : EtcdAccepts env r store name metadata a :=
    ⟨hblank, hconn, st₁, st₂, st₃, h₁, h₂, h₃⟩
  refine ⟨iff_of_true rfl hacc, iff_of_true ?_ (Or.inl hacc), iff_of_false ?_ ?_⟩
  · exact (put_spec (Etcd.put_eq_ok h₃)).2.1
  · exact fun h => append_singleton_ne r.services name h.1
  · intro h
    obtain ⟨err, herr⟩ := ((h.dirs hblank hconn h₁).2 st₂ h₂).2
    cases h₃.symm.trans herr

end Connected

theorem registerNode_of_error {err : Error}
    (h : Etcd.put env st (r.node name) (.file metadata) answer = .error err) :
    Etcd.registerNode env r st name metadata answer = (r, st, some err) := by
  rw [Etcd.registerNode, h]

theorem registerNode_of_ok (h : Etcd.put env st (r.node name) (.file metadata) answer = .ok st') :
    Etcd.registerNode env r st name metadata answer = (r.add name metadata, st', none) := by
  rw [Etcd.registerNode, h]
  rfl

/-- **What `Register` does in etcd.** -/
theorem etcd_outcome (env : Etcd.Env) (r : Register) (store : Etcd.Store) (name metadata : Bytes)
    (a : Answers) :
    EtcdOutcome env r store name metadata a
      (Etcd.register env r store name metadata a.newStore a.put₁ a.put₂ a.put₃.put) := by
  cases hblank : env.blank name with
  | true =>
    rw [Etcd.register, if_pos hblank]
    exact .failed_same (by simp [EtcdAccepts, hblank]) (by simp [EtcdReplaces, hblank])
      (.blank hblank)
  | false =>
    rw [Etcd.register, if_neg (by simp [hblank])]
    rcases connect_cases r a with ⟨err, hconnect, hno⟩ | ⟨hconnect, hconn⟩
    · rw [hconnect]
      exact .failed_same (by simp [EtcdAccepts, hno]) (by simp [EtcdReplaces, hno]) (.connects hno)
    · rw [hconnect]
      dsimp only
      cases h₁ : Etcd.putDir env store r.basePath a.put₁ with
      | error err =>
        have hno : ∀ u, Etcd.put env store r.basePath .dir a.put₁ ≠ .ok u := by
          intro u hu
          cases h₁.symm.trans (putDir_of_put hu)
        exact .failed_same (by simp [EtcdAccepts, h₁]) (by simp [EtcdReplaces, h₁, hno]) (.base h₁)
      | ok st₁ =>
        dsimp only
        cases h₂ : Etcd.putDir env st₁ (join r.basePath name) a.put₂ with
        | error err => exact .dir_refused hblank hconn h₁ h₂
        | ok st₂ =>
          dsimp only
          cases h₃ : Etcd.put env st₂ (r.node name) (.file metadata) a.put₃.put with
          | error err =>
            rw [registerNode_of_error (r := { r with connected := true }) h₃]
            exact .node_refused hblank hconn h₁ h₂ h₃
          | ok st₃ =>
            rw [registerNode_of_ok (r := { r with connected := true }) h₃]
            exact .accepted hblank hconn h₁ h₂ h₃

end EtcdOutcomes

section Registries

variable (env : Etcd.Env) (name metadata : Bytes) (a : Answers) (reg : ServerRegistry)

theorem register_eq_none_iff :
    (reg.register env name metadata a).2 = none ↔ reg.Accepts env name metadata a := by
  cases reg with
  | consul r store => exact (consul_outcome env.toEnv r store name metadata a).1
  | etcd r store => exact (etcd_outcome env r store name metadata a).1

/-- The node is stored if `Register` returns `nil`, or if it was there. -/
theorem stored_iff :
    (reg.register env name metadata a).1.Stored name metadata ↔
      reg.Accepts env name metadata a ∨ reg.Keeps env name metadata a := by
  cases reg with
  | consul r store => exact (consul_outcome env.toEnv r store name metadata a).2.1
  | etcd r store => exact (etcd_outcome env r store name metadata a).2.1

theorem same_iff :
    reg.Same (reg.register env name metadata a).1 ↔ reg.Untouched env name metadata a := by
  cases reg with
  | consul r store => exact (consul_outcome env.toEnv r store name metadata a).2.2
  | etcd r store => exact (etcd_outcome env r store name metadata a).2.2

end Registries

end Frpc.Registry.Outcomes
