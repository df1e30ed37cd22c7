import Frpc.Client.Group

/-! # The cache of clients

`getCachedClient` and `removeClient`, with any number of goroutines in them. `getCachedClient` looks
into the cache under the read lock, and if it finds no client there that is alive, once more under
the write lock, where it dials if there is none. `removeClient` deletes an entry of the cache only
if it is the client that it was called with. What happens to the clients (their readers stop, they
are closed) happens at any time.

A client leaves the cache only by its own eviction, so there is one client for each server
(`one_client_per_server`). The second look does not ask whether the client is alive:
`getCachedClient` returns a dead client exactly if one is in the cache (`live_client_iff`). The
steps are those of `Client.Group`, seen from the cache (`reach_of_group`). -/

namespace Frpc.Client.Cache

open Frpc.Basic Frpc.Lib.Runs Frpc.Lib.Tables
open Frpc.Client.FailMod (ClientId)

/-- The fields of a client that `getCachedClient` looks at. -/
structure Status where
  closing : Bool
  shutdown : Bool
deriving DecidableEq

/-- A goroutine in `getCachedClient`, by the section that comes next. -/
inductive Caller where
  /-- The section under the read lock. -/
  | lookup (cname : Bytes)
  /-- The section under the write lock. -/
  | dial (cname : Bytes)
deriving DecidableEq

/-- A client with its cache. -/
structure State where
  /-- All clients that were ever connected for the cache. -/
  children : ClientId → Option Status
  cachedClient : AList fun _ : Bytes => ClientId
  callers : ℕ → Option Caller

/-- The steps. -/
inductive Label where
  /-- The goroutine `g` enters `getCachedClient`. -/
  | getCachedClient (g : ℕ) (cname : Bytes)
  /-- Its section under the read lock. -/
  | lookup (g : ℕ)
  /-- Its section under the write lock. If there is no client in the cache, `Connect` fails, or
  opens the connection of a new client. -/
  | dial (g : ℕ) (r : Except Error ClientId)
  /-- The locked section of `removeClient`. -/
  | remove (cname : Bytes) (client : Option ClientId)
  /-- A client is closed, or its reader stops. -/
  | change (i : ClientId) (status : Status)

/-- `!client.closing && !client.shutdown` -/
def usable (s : State) (i : ClientId) : Bool :=
  (s.children i).any fun c => !c.closing && !c.shutdown

/-- The section of `getCachedClient` under the read lock: the client that it returns, if it does. -/
def cached (s : State) (cname : Bytes) : Option ClientId :=
  match s.cachedClient.lookup cname with
  | some i => if usable s i then some i else none
  | none => none

/-- The section of `getCachedClient` under the write lock. -/
def dial (s : State) (cname : Bytes) (r : Except Error ClientId) :
    Option (Except Error ClientId × State) :=
  match s.cachedClient.lookup cname with
  | some i => some (.ok i, s)
  | none =>
    match r with
    | .error err => some (.error err, s)
    | .ok i =>
      if s.children i = none then
        some (.ok i,
          { s with
            children := Function.update s.children i (some ⟨false, false⟩)
            cachedClient := s.cachedClient.insert cname i })
      else none

/-- `getCachedClient`, if nothing happens between its two sections. -/
def getCachedClient (s : State) (cname : Bytes) (r : Except Error ClientId) :
    Option (Except Error ClientId × State) :=
  match cached s cname with
  | some i => some (.ok i, s)
  | none => dial s cname r

/-- The locked section of `removeClient`. -/
def removeClient (s : State) (cname : Bytes) (client : Option ClientId) : State :=
  if s.cachedClient.lookup cname = client
    then { s with cachedClient := s.cachedClient.erase cname } else s

/-- Set where a goroutine stands. -/
def State.setCaller (s : State) (g : ℕ) (caller : Option Caller) : State :=
  { s with callers := Function.update s.callers g caller }

/-- One step. -/
def step (s : State) : Label → Option State
  | .getCachedClient g cname =>
    if s.callers g = none then some (s.setCaller g (some (.lookup cname))) else none
  | .lookup g =>
    match s.callers g with
    | some (.lookup cname) =>
      match cached s cname with
      | some _ => some (s.setCaller g none)
      | none => some (s.setCaller g (some (.dial cname)))
    | _ => none
  | .dial g r =>
    match s.callers g with
    | some (.dial cname) => (dial s cname r).map fun x => x.2.setCaller g none
    | _ => none
  | .remove cname client =>
    if ∀ i ∈ client, (s.children i).isSome then some (removeClient s cname client) else none
  | .change i status =>
    if (s.children i).isSome
      then some { s with children := Function.update s.children i (some status) }
    else none

/-- The cache of a new client. -/
def init : State := ⟨fun _ => none, ∅, fun _ => none⟩

/-! ### What a step does -/

/-- The step connects the client `i` for `cname`. -/
def Connects (s : State) (l : Label) (cname : Bytes) (i : ClientId) : Prop :=
  s.cachedClient.lookup cname = none ∧ ∃ g, l = .dial g (.ok i) ∧ s.callers g = some (.dial cname)

/-- In the step a `getCachedClient(cname)` comes to return the client `i`. -/
def Returns (s : State) (l : Label) (cname : Bytes) (i : ClientId) : Prop :=
  ∃ g, (l = .lookup g ∧ s.callers g = some (.lookup cname) ∧ cached s cname = some i) ∨
    ∃ r t, l = .dial g r ∧ s.callers g = some (.dial cname) ∧ dial s cname r = some (.ok i, t)

/-- The step evicts the client of `cname`. -/
def Evicts (s : State) (l : Label) (cname : Bytes) : Prop :=
  ∃ i, l = .remove cname (some i) ∧ s.cachedClient.lookup cname = some i

section Steps

variable {s t : State} {l : Label} {cname : Bytes} {i j : ClientId}

theorem cached_eq_some :
    cached s cname = some i ↔ s.cachedClient.lookup cname = some i ∧ usable s i = true := by
  unfold cached
  constructor
  · intro h
    split at h
    · rename_i i' hi'
      split_ifs at h with hlive
      cases h
      exact ⟨hi', hlive⟩
    · cases h
  · rintro ⟨hi, hlive⟩
    rw [hi]
    exact if_pos hlive

theorem dial_found (r : Except Error ClientId) (h : s.cachedClient.lookup cname = some i) :
    dial s cname r = some (.ok i, s) := by
  unfold dial
  rw [h]

theorem dial_error (err : Error) (h : s.cachedClient.lookup cname = none) :
    dial s cname (.error err) = some (.error err, s) := by
  unfold dial
  rw [h]

theorem dial_ok (h : s.cachedClient.lookup cname = none) (hnew : s.children i = none) :
    dial s cname (.ok i) = some (.ok i,
      { s with
        children := Function.update s.children i (some ⟨false, false⟩)
        cachedClient := s.cachedClient.insert cname i }) := by
  unfold dial
  rw [h]
  exact if_pos hnew

theorem dial_cases {r res : Except Error ClientId} (h : dial s cname r = some (res, t)) :
    (∃ i, s.cachedClient.lookup cname = some i ∧ res = .ok i ∧ t = s) ∨
      (s.cachedClient.lookup cname = none ∧ ∃ err, r = .error err ∧ res = .error err ∧ t = s) ∨
      (s.cachedClient.lookup cname = none ∧ ∃ i, r = .ok i ∧ res = .ok i ∧ s.children i = none ∧
        t = { s with
          children := Function.update s.children i (some ⟨false, false⟩)
          cachedClient := s.cachedClient.insert cname i }) := by
  cases hi : s.cachedClient.lookup cname with
  | some i =>
    rw [dial_found r hi] at h
    cases h
    exact Or.inl ⟨i, rfl, rfl, rfl⟩
  | none =>
    cases r with
    | error err =>
      rw [dial_error err hi] at h
      cases h
      exact Or.inr (Or.inl ⟨rfl, err, rfl, rfl, rfl⟩)
    | ok i =>
      by_cases hnew : s.children i = none
      · rw [dial_ok hi hnew] at h
        cases h
        exact Or.inr (Or.inr ⟨rfl, i, rfl, rfl, hnew, rfl⟩)
      · unfold dial at h
        rw [hi] at h
        simp only [hnew, if_false] at h
        cases h

theorem step_hit {g : ℕ} (hg : s.callers g = some (.lookup cname)) (hi : cached s cname = some i) :
    step s (.lookup g) = some (s.setCaller g none) := by
  simp only [step, hg, hi]

theorem step_miss {g : ℕ} (hg : s.callers g = some (.lookup cname)) (hno : cached s cname = none) :
    step s (.lookup g) = some (s.setCaller g (some (.dial cname))) := by
  simp only [step, hg, hno]

theorem step_of_dial {g : ℕ} {r res : Except Error ClientId} (hg : s.callers g = some (.dial cname))
    (hdial : dial s cname r = some (res, t)) : step s (.dial g r) = some (t.setCaller g none) := by
  simp only [step, hg, hdial]
  rfl

/-- A step of a goroutine in its section under the write lock. -/
theorem step_dial {g : ℕ} {r : Except Error ClientId} (h : step s (.dial g r) = some t) :
    ∃ cname res u, s.callers g = some (.dial cname) ∧ dial s cname r = some (res, u) ∧
      t = u.setCaller g none := by
  simp only [step] at h
  split at h
  · rename_i cname hg
    obtain ⟨⟨res, u⟩, hdial, rfl⟩ := Option.map_eq_some_iff.mp h
    exact ⟨cname, res, u, hg, hdial, rfl⟩
  · cases h

/-- What a step does to the clients and the cache. -/
inductive Effect (s : State) : Label → State → Prop
  | idle {l : Label} {t : State} (hchildren : t.children = s.children)
      (hcache : t.cachedClient = s.cachedClient) : Effect s l t
  | connect {g : ℕ} {cname : Bytes} {i : ClientId} {callers : ℕ → Option Caller}
      (hg : s.callers g = some (.dial cname)) (hno : s.cachedClient.lookup cname = none)
      (hnew : s.children i = none) :
      Effect s (.dial g (.ok i))
        ⟨Function.update s.children i (some ⟨false, false⟩), s.cachedClient.insert cname i, callers⟩
  | remove {cname : Bytes} {client : Option ClientId} :
      Effect s (.remove cname client) (removeClient s cname client)
  | change {i : ClientId} {status : Status} :
      Effect s (.change i status) { s with children := Function.update s.children i (some status) }

theorem effect_of_step (h : step s l = some t) : Effect s l t := by
  cases l with
  | getCachedClient g cname =>
    simp only [step] at h
    split_ifs at h
    cases h
    exact .idle rfl rfl
  | lookup g =>
    simp only [step] at h
    split at h
    · split at h <;> cases h <;> exact .idle rfl rfl
    · cases h
  | dial g r =>
    obtain ⟨cname, res, u, hg, hdial, rfl⟩ := step_dial h
    rcases dial_cases hdial with ⟨i, -, -, rfl⟩ | ⟨-, err, -, -, rfl⟩ | ⟨hno, i, rfl, -, hnew, rfl⟩
    · exact .idle rfl rfl
    · exact .idle rfl rfl
    · exact .connect hg hno hnew
  | remove cname client =>
    simp only [step] at h
    split_ifs at h
    cases h
    exact .remove
  | change i status =>
    simp only [step] at h
    split_ifs at h
    cases h
    exact .change

/-- The entry of `cname` stays as it is, or it is evicted, or there was none and a new client is
connected. -/
theorem lookup_cases (h : Effect s l t) (cname : Bytes) :
    t.cachedClient.lookup cname = s.cachedClient.lookup cname ∨
      (Evicts s l cname ∧ t.cachedClient.lookup cname = none) ∨
      ∃ i, Connects s l cname i ∧ s.children i = none ∧ t.cachedClient.lookup cname = some i := by
  cases h with
  | idle _ hcache => exact Or.inl (by rw [hcache])
  | @connect g cname' i _ hg hno hnew =>
    by_cases hc : cname = cname'
    · subst hc
      exact Or.inr (Or.inr ⟨i, ⟨hno, g, rfl, hg⟩, hnew, AList.lookup_insert _⟩)
    · exact Or.inl (AList.lookup_insert_ne hc)
  | @remove cname' client =>
    unfold removeClient
    split_ifs with heq
    · by_cases hc : cname = cname'
      · subst hc
        cases client with
        | none => exact Or.inl (by rw [heq]; exact AList.lookup_erase _ _)
        | some i => exact Or.inr (Or.inl ⟨⟨i, rfl, heq⟩, AList.lookup_erase _ _⟩)
      · exact Or.inl (AList.lookup_erase_ne hc)
    · exact Or.inl rfl
  | change => exact Or.inl rfl

theorem children_isSome (h : Effect s l t) (hi : (s.children i).isSome) :
    (t.children i).isSome := by
  cases h with
  | idle hchildren _ =>
    rw [hchildren]
    exact hi
  | connect => exact isSome_update _ hi
  | remove =>
    unfold removeClient
    split_ifs <;> exact hi
  | change => exact isSome_update _ hi

/-- The client that is connected is a new one, and the one in the cache. -/
theorem Connects.step (hc : Connects s l cname i) (h : step s l = some t) :
    s.children i = none ∧ (t.children i).isSome ∧ t.cachedClient.lookup cname = some i := by
  obtain ⟨hno, g, rfl, hg⟩ := hc
  obtain ⟨cname', res, u, hg', hdial, rfl⟩ := step_dial h
  obtain rfl : cname' = cname := by
    rw [hg] at hg'
    cases hg'
    rfl
  rcases dial_cases hdial with ⟨k, hk, -, -⟩ | ⟨-, err, herr, -, -⟩ | ⟨-, k, hk, -, hnew, rfl⟩
  · rw [hno] at hk
    cases hk
  · cases herr
  · cases hk
    refine ⟨hnew, ?_, AList.lookup_insert _⟩
    show (Function.update s.children i _ i).isSome
    rw [Function.update_self]
    rfl

theorem Returns.eq_of_lookup (hr : Returns s l cname j)
    (hi : s.cachedClient.lookup cname = some i) : j = i := by
  obtain ⟨g, ⟨-, -, hj⟩ | ⟨r, t, -, -, hj⟩⟩ := hr
  · rw [(cached_eq_some.mp hj).1] at hi
    exact Option.some.inj hi
  · rw [dial_found r hi] at hj
    cases hj
    rfl

/-- The client that a caller gets is in the cache afterwards. -/
theorem Returns.lookup (hr : Returns s l cname i) (h : step s l = some t) :
    t.cachedClient.lookup cname = some i := by
  obtain ⟨g, ⟨rfl, hg, hi⟩ | ⟨r, u, rfl, hg, hdial⟩⟩ := hr
  · rw [step_hit hg hi] at h
    cases h
    exact (cached_eq_some.mp hi).1
  · rw [step_of_dial hg hdial] at h
    cases h
    rcases dial_cases hdial with ⟨k, hk, hres, rfl⟩ | ⟨-, err, -, hres, -⟩ | ⟨-, k, -, hres, -, rfl⟩
    · cases hres
      exact hk
    · cases hres
    · cases hres
      exact AList.lookup_insert _

end Steps

/-! ### One client for each server -/

section Runs

variable {s t u : State} {cname : Bytes} {i : ClientId}

/-- What is logged: the clients that are connected, and the calls of `removeClient`. -/
inductive Event where
  | connected (cname : Bytes) (i : ClientId)
  | removed (cname : Bytes) (client : Option ClientId)
deriving DecidableEq

/-- What is logged of a step. -/
def obs (s : State) (l : Label) (_ : State) : List Event :=
  match l with
  | .dial g (.ok i) =>
    match s.callers g with
    | some (.dial cname) => if s.cachedClient.lookup cname = none then [.connected cname i] else []
    | _ => []
  | .remove cname client => [.removed cname client]
  | _ => []

theorem connects_of_obs {l : Label} (h : Event.connected cname i ∈ obs s l t) :
    Connects s l cname i := by
  unfold obs at h
  split at h
  · rename_i g k
    split at h
    · rename_i cname' hg
      split_ifs at h with hno
      · cases List.mem_singleton.mp h
        exact ⟨hno, g, rfl, hg⟩
      · cases h
    · cases h
  · cases List.mem_singleton.mp h
  · cases h

/-- Every client that was connected for a server is in the cache, or has gone through
`removeClient`. -/
def Accounted (x : State × List Event) : Prop :=
  ∀ cname i, .connected cname i ∈ x.2 →
    x.1.cachedClient.lookup cname = some i ∨ .removed cname (some i) ∈ x.2

theorem accounted_step {x y : State × List Event} {l : Label} (hx : Accounted x)
    (h : logged step obs x l = some y) : Accounted y := by
  obtain ⟨t, hs, rfl⟩ := logged_eq_some.mp h
  intro cname i hi
  rcases List.mem_append.mp hi with hold | hnew
  · rcases hx cname i hold with hcached | hremoved
    · rcases lookup_cases (effect_of_step hs) cname with hsame | ⟨⟨k, rfl, hk⟩, -⟩ | ⟨k, hc, -, -⟩
      · exact Or.inl (hsame.trans hcached)
      · -- the eviction is that of this client
        rw [hcached] at hk
        cases hk
        exact Or.inr (List.mem_append_right _ (List.mem_singleton.mpr rfl))
      · rw [hc.1] at hcached
        cases hcached
    · exact Or.inr (List.mem_append_left _ hremoved)
  · exact Or.inl ((connects_of_obs hnew).step hs).2.2

theorem accounted_of_reach {x : State × List Event} (h : Reach (logged step obs) Any (init, []) x) :
    Accounted x :=
  h.invariant nofun fun _ hx _ hs => accounted_step hx hs

theorem lookup_of_reach (h : Reach step (fun s l => ¬ Evicts s l cname) s t)
    (hi : s.cachedClient.lookup cname = some i) : t.cachedClient.lookup cname = some i := by
  refine h.invariant (P := fun t => t.cachedClient.lookup cname = some i) hi ?_
  intro t u l _ ht hkeep hs
  rcases lookup_cases (effect_of_step hs) cname with hsame | ⟨hev, -⟩ | ⟨k, hc, -, -⟩
  · exact hsame.trans ht
  · exact absurd hev hkeep
  · rw [hc.1] at ht
    cases ht

/-- A client that was connected and is not in the cache does not come back. -/
theorem gone_of_reach (h : Reach step Any s t) (hi : (s.children i).isSome)
    (hgone : s.cachedClient.lookup cname ≠ some i) :
    (t.children i).isSome ∧ t.cachedClient.lookup cname ≠ some i := by
  refine h.invariant (P := fun t => (t.children i).isSome ∧ t.cachedClient.lookup cname ≠ some i)
    ⟨hi, hgone⟩ ?_
  rintro t u l - ⟨hsome, hne⟩ - hs
  refine ⟨children_isSome (effect_of_step hs) hsome, ?_⟩
  rcases lookup_cases (effect_of_step hs) cname with hsame | ⟨-, hnone⟩ | ⟨k, -, hnew, hk⟩
  · rwa [hsame]
  · rw [hnone]
    exact nofun
  · rw [hk]
    intro heq
    cases heq
    rw [hnew] at hsome
    cases hsome

theorem children_of_reach (h : Reach step Any s t) (hi : (s.children i).isSome) :
    (t.children i).isSome :=
  h.invariant (P := fun t => (t.children i).isSome) hi fun _ ht _ hs =>
    children_isSome (effect_of_step hs) ht

/-- `removeClient` of a client that has been replaced does nothing. -/
theorem remove_replaced {s s' t t' u u' : State} {l l' : Label} {j : ClientId}
    (hi : Connects s l cname i) (hs : step s l = some s') (hst : Reach step Any s' t)
    (hj : Connects t l' cname j) (ht : step t l' = some t') (htu : Reach step Any t' u)
    (hu : step u (.remove cname (some i)) = some u') : u' = u := by
  obtain ⟨-, hsome, -⟩ := hi.step hs
  obtain ⟨hnew, -, hcached⟩ := hj.step ht
  have hsome' : (t.children i).isSome := children_of_reach hst hsome
  have hgone : t'.cachedClient.lookup cname ≠ some i := by
    rw [hcached]
    intro heq
    cases heq
    rw [hnew] at hsome'
    cases hsome'
  obtain ⟨-, hne⟩ := gone_of_reach htu (children_isSome (effect_of_step ht) hsome') hgone
  simp only [step] at hu
  split_ifs at hu
  cases hu
  exact if_neg hne

end Runs

/-- **One client for each server.** In every interleaving of the locked sections of
`getCachedClient` and `removeClient`: of the clients that were connected for one server at most one
has not gone through `removeClient`; two callers between which nobody is evicted get the same
client; a `Connect` that fails leaves the cache as it is; and `removeClient` of a client that was
replaced does not evict the new one. -/
theorem one_client_per_server :
    (∀ x, Reach (logged step obs) Any (init, []) x → ∀ cname i j,
      .connected cname i ∈ x.2 → .connected cname j ∈ x.2 →
      .removed cname (some i) ∉ x.2 → .removed cname (some j) ∉ x.2 → i = j) ∧
    (∀ s s' t l l' cname i j, step s l = some s' → Returns s l cname i →
      Reach step (fun s l => ¬ Evicts s l cname) s' t → Returns t l' cname j → i = j) ∧
    (∀ s s' g err, step s (.dial g (.error err)) = some s' → s'.cachedClient = s.cachedClient) ∧
    (∀ s s' t t' u u' l l' cname i j, Connects s l cname i → step s l = some s' →
      Reach step Any s' t → Connects t l' cname j → step t l' = some t' → Reach step Any t' u →
      step u (.remove cname (some i)) = some u' → u'.cachedClient = u.cachedClient) := by
  refine ⟨?_, ?_, ?_, ?_⟩
  · intro x hx cname i j hi hj hri hrj
    have hacc := accounted_of_reach hx
    have hci := (hacc cname i hi).resolve_right hri
    have hcj := (hacc cname j hj).resolve_right hrj
    rw [hci] at hcj
    exact Option.some.inj hcj
  · intro s s' t l l' cname i j hs hi hst hj
    exact (hj.eq_of_lookup (lookup_of_reach hst (hi.lookup hs))).symm
  · intro s s' g err hs
    cases effect_of_step hs with
    | idle _ hcache => exact hcache
  · intro s s' t t' u u' l l' cname i j hi hs hst hj ht htu hu
    rw [remove_replaced hi hs hst hj ht htu hu]

/-- A goroutine goes through `getCachedClient` of the server `s`. -/
def getting (g : ℕ) (r : Except Error ClientId) : List Label :=
  [.getCachedClient g [115], .lookup g, .dial g r]

/-- Client 0 is connected for the server `s`, evicted and replaced by client 1; then somebody else
who had client 0 calls `removeClient`. -/
def replaced : List Label :=
  getting 0 (.ok 0) ++ .remove [115] (some 0) :: getting 0 (.ok 1) ++ [.remove [115] (some 0)]

/-- In that run client 1 stays. -/
theorem one_client_per_server_replaced :
    ∃ x, exec (logged step obs) (init, []) replaced = some x ∧
      x.1.cachedClient.lookup [115] = some 1 ∧ .connected [115] 0 ∈ x.2 ∧ .connected [115] 1 ∈ x.2 ∧
      ∀ j, .connected [115] j ∈ x.2 → .removed [115] (some j) ∉ x.2 → j = 1 := by
  have hx : exec (logged step obs) (init, []) replaced = some _ := rfl
  refine ⟨_, hx, rfl, by decide, by decide, fun j hj hrj => ?_⟩
  exact one_client_per_server.1 _ (reach_of_exec replaced hx) [115] j 1 hj
    (by decide) hrj (by decide)

/-! ### Live clients -/

/-- **`getCachedClient` returns an error or a client that is alive, exactly if there is no dead
client in the cache.** A dead one is returned as it is. -/
theorem live_client_iff {s s' : State} {cname : Bytes} {r res : Except Error ClientId}
    (h : getCachedClient s cname r = some (res, s')) :
    (∀ i, res = .ok i → usable s' i = true) ↔
      ∀ i, s.cachedClient.lookup cname = some i → usable s i = true := by
  unfold getCachedClient at h
  cases hc : cached s cname with
  | some i =>
    rw [hc] at h
    cases h
    obtain ⟨hi, hlive⟩ := cached_eq_some.mp hc
    constructor
    · intro _ k hk
      rw [hi] at hk
      cases hk
      exact hlive
    · rintro _ k ⟨⟩
      exact hlive
  | none =>
    rw [hc] at h
    rcases dial_cases h with ⟨i, hi, rfl, rfl⟩ | ⟨hno, err, -, rfl, rfl⟩
      | ⟨hno, i, -, rfl, hnew, rfl⟩
    · -- the second look finds the client that the first one has passed over
      constructor
      · intro hres k hk
        rw [hi] at hk
        cases hk
        exact hres i rfl
      · rintro hlive k ⟨⟩
        exact hlive i hi
    · refine ⟨fun _ k hk => ?_, fun _ k hk => ?_⟩
      · rw [hno] at hk
        cases hk
      · cases hk
    · refine ⟨fun _ k hk => ?_, ?_⟩
      · rw [hno] at hk
        cases hk
      · rintro - k ⟨⟩
        unfold usable
        show (Function.update s.children i _ i).any _ = true
        rw [Function.update_self]
        rfl

/-- Client 0 is connected for the server `s`. -/
def oneCached : State := (exec step init (getting 0 (.ok 0))).getD init

/-- Client 0 is in the cache and alive, and is returned; for another server client 1 is
connected. -/
theorem live_client_cached :
    exec step init (getting 0 (.ok 0)) = some oneCached ∧
      oneCached.cachedClient.lookup [115] = some 0 ∧
      getCachedClient oneCached [115] (.ok 1) = some (.ok 0, oneCached) ∧
        usable oneCached 0 = true ∧
      ∃ s', getCachedClient oneCached [116] (.ok 1) = some (.ok 1, s') ∧ usable s' 1 = true := by
  have hold : getCachedClient oneCached [115] (.ok 1) = some (.ok 0, oneCached) := rfl
  obtain ⟨s', hnew⟩ : ∃ s', getCachedClient oneCached [116] (.ok 1) = some (.ok 1, s') := ⟨_, rfl⟩
  refine ⟨rfl, rfl, hold, ?_, s', hnew, ?_⟩
  · refine (live_client_iff hold).mpr ?_ 0 rfl
    rintro i ⟨⟩
    rfl
  · refine (live_client_iff hnew).mpr ?_ 1 rfl
    rintro i ⟨⟩

/-- The connection of client 0 is lost, so its reader has set `shutdown`. `getCachedClient` returns
it. -/
theorem dead_client_returned :
    ∃ s, exec step init (getting 0 (.ok 0) ++ [.change 0 ⟨false, true⟩]) = some s ∧
      getCachedClient s [115] (.ok 1) = some (.ok 0, s) ∧ usable s 0 = false := by
  exact ⟨_, rfl, rfl, rfl⟩

theorem setCaller_self {s : State} {g : ℕ} {caller : Option Caller} (h : s.callers g = caller) :
    s.setCaller g caller = s := by
  subst h
  unfold State.setCaller
  rw [Function.update_eq_self]

theorem setCaller_setCaller (s : State) (g : ℕ) (caller caller' : Option Caller) :
    (s.setCaller g caller).setCaller g caller' = s.setCaller g caller' := by
  unfold State.setCaller
  rw [Function.update_idem]

/-- `getCachedClient` is what a goroutine does that nobody interferes with. -/
theorem reach_of_getCachedClient {s s' : State} {cname : Bytes}
    {r res : Except Error ClientId} {g : ℕ}
    (hg : s.callers g = none) (h : getCachedClient s cname r = some (res, s')) :
    Reach step Any s s' := by
  have hself : ∀ caller, (s.setCaller g caller).callers g = caller := fun caller =>
    Function.update_self ..
  have hbegin : Reach step Any s (s.setCaller g (some (.lookup cname))) :=
    Reach.refl.next (l := .getCachedClient g cname) (if_pos hg)
  unfold getCachedClient at h
  cases hc : cached s cname with
  | some i =>
    rw [hc] at h
    cases h
    have hhit := step_hit (hself (some (.lookup cname)))
        (show cached (s.setCaller g _) cname = some i from hc)
    rw [setCaller_setCaller, setCaller_self hg] at hhit
    exact hbegin.next hhit
  | none =>
    rw [hc] at h
    have hmiss := step_miss (hself (some (.lookup cname)))
        (show cached (s.setCaller g _) cname = none from hc)
    rw [setCaller_setCaller] at hmiss
    have hdial : dial (s.setCaller g (some (.dial cname))) cname r =
        some (res, s'.setCaller g (some (.dial cname))) ∧ s'.callers g = none := by
      rcases dial_cases h with ⟨i, hi, rfl, rfl⟩ | ⟨hno, err, rfl, rfl, rfl⟩
        | ⟨hno, i, rfl, rfl, hnew, rfl⟩
      · exact ⟨dial_found r hi, hg⟩
      · exact ⟨dial_error err hno, hg⟩
      · exact ⟨dial_ok hno hnew, hg⟩
    have hstep := step_of_dial (hself (some (.dial cname))) hdial.1
    rw [setCaller_setCaller, setCaller_self hdial.2] at hstep
    exact (hbegin.next hmiss).next hstep

/-! ### The cache of a client with all its goroutines -/

section Group

open Frpc.Client.Group (Call CallPc CallMove CallEffect Config FailMode)

/-- Where a `Call` stands in `getCachedClient`. -/
def callerOf : CallPc → Option Caller
  | .lookup cname => some (.lookup cname)
  | .dial cname => some (.dial cname)
  | _ => none

/-- The client that a `Call` has in its hands. -/
def clientOf : CallPc → Option ClientId
  | .loop _ client => client
  | .attempt _ i => some i
  | .calling _ i _ => some i
  | .remove _ client => client
  | .close _ i => some i
  | _ => none

variable {V : Type}

/-- What the cache sees of a client. -/
def view (s : Group.State V) : State where
  children i := (s.children i).map fun m => ⟨m.closing, m.shutdown⟩
  cachedClient := s.cachedClient
  callers j := (s.calls j).bind fun call => callerOf call.pc

/-- A `Call` has only clients that exist. -/
structure Known (s : Group.State V) : Prop where
  unlocked : s.locked = none
  cached : ∀ cname i, s.cachedClient.lookup cname = some i → (s.children i).isSome
  held : ∀ j call, s.calls j = some call → ∀ i ∈ clientOf call.pc, (s.children i).isSome

variable {env : Codecs.Env V} {cfg : Config} {s t : Group.State V} {call call' : Call}
  {cname : Bytes} {j : ℕ} {i : ClientId}

theorem view_setCall (j : ℕ) (call' : Call) :
    view (s.setCall j call') = (view s).setCaller j (callerOf call'.pc) := by
  unfold view State.setCaller Group.State.setCall
  congr 1
  funext k
  by_cases hk : k = j
  · subst hk
    simp
  · simp [hk]

theorem view_callers (hj : s.calls j = some call) : (view s).callers j = callerOf call.pc := by
  simp [view, hj]

theorem view_usable : usable (view s) i = Group.usable s i := by
  simp [usable, view, Group.usable, Option.any_map]

/-! What the functions of a `Call` lead to. -/

theorem callerOf_got (client : Option ClientId) (err : Option Error) :
    callerOf (call.got cname client err).pc = none := by
  unfold Call.got
  split_ifs <;> rfl

theorem clientOf_got {client : Option ClientId} {err : Option Error}
    (h : i ∈ clientOf (call.got cname client err).pc) : client = some i := by
  unfold Call.got at h
  split_ifs at h
  · cases h
  · exact h

theorem clientOf_goOn (h : i ∈ clientOf (call.goOn cfg cname).pc) : False := by
  unfold Call.goOn at h
  split at h <;> cases h

theorem next_pc {client : Option ClientId} (h : call.next cfg cname client = some call') :
    callerOf call'.pc = none ∧ ∀ i ∈ clientOf call'.pc, client = some i := by
  unfold Call.next at h
  split at h
  · obtain ⟨k, rfl, rfl⟩ := Option.map_eq_some_iff.mp h
    exact ⟨rfl, fun _ hi => hi⟩
  · split_ifs at h with hret
    · cases client <;> cases h <;> exact ⟨rfl, fun _ hi => hi⟩
    · cases h
      exact ⟨rfl, nofun⟩

theorem attempted_pc (err : Option Error) :
    callerOf (call.attempted cfg cname i err).pc = none ∧
      ∀ k ∈ clientOf (call.attempted cfg cname i err).pc, k = i := by
  unfold Call.attempted
  split
  · exact ⟨rfl, nofun⟩
  · split
    · exact ⟨rfl, nofun⟩
    · exact ⟨rfl, fun k hk => (Option.some.inj hk).symm⟩

/-- After `removeClient` a goroutine is outside of `getCachedClient`, or enters it once more. -/
theorem reach_goOn {x : State} (hx : x.callers j = none) :
    Reach step Any x (x.setCaller j (callerOf (call.goOn cfg cname).pc)) := by
  unfold Call.goOn
  cases cfg.failMode with
  | failTry => exact Reach.refl.next (l := .getCachedClient j cname) (if_pos hx)
  | failFast | failOver =>
    have hself : x.setCaller j none = x := setCaller_self hx
    show Reach step Any x (x.setCaller j none)
    rw [hself]
    exact .refl

/-! The steps. -/

theorem Known.of_children (h : Known s) (hunlocked : t.locked = s.locked)
    (hcached : ∀ cname i, t.cachedClient.lookup cname = some i → (t.children i).isSome)
    (hchildren : ∀ i, (s.children i).isSome → (t.children i).isSome)
    (hcalls : t.calls = Function.update s.calls j (some call'))
    (hclient : ∀ i ∈ clientOf call'.pc, (t.children i).isSome) : Known t where
  unlocked := hunlocked.trans h.unlocked
  cached := hcached
  held k call hk i hi := by
    rw [hcalls] at hk
    rcases update_eq_some.mp hk with ⟨-, rfl⟩ | ⟨-, hk⟩
    · exact hclient i hi
    · exact hchildren i (h.held k call hk i hi)

theorem view_child (m : Machine.State V) :
    view { s with children := Function.update s.children i (some m) } =
      { view s with
        children := Function.update (view s).children i (some ⟨m.closing, m.shutdown⟩) } := by
  unfold view
  congr 1
  funext k
  by_cases hk : k = i
  · subst hk
    simp
  · simp [hk]

theorem reach_child {m : Machine.State V} (hm : s.children i = some m) (m' : Machine.State V) :
    Reach step Any (view s)
      (view { s with children := Function.update s.children i (some m') }) := by
  have hsome : ((view s).children i).isSome := by simp [view, hm]
  rw [view_child]
  exact Reach.refl.next (l := .change i ⟨m'.closing, m'.shutdown⟩) (if_pos hsome)

/-- A client changes, and the `Call` that has changed it goes on. -/
theorem reach_child_call {m : Machine.State V} (hm : s.children i = some m) (m' : Machine.State V)
    (hcall : ∀ x : State, x.callers j = (view s).callers j →
      Reach step Any x (x.setCaller j (callerOf call'.pc))) :
    Reach step Any (view s)
      (view (Group.State.setCall { s with children := Function.update s.children i (some m') } j
        call')) := by
  rw [view_setCall]
  exact (reach_child hm m').trans (hcall _ rfl)

theorem view_removeClient (cname : Bytes) (client : Option ClientId) :
    view (Group.removeClient s cname client) = removeClient (view s) cname client := by
  unfold Group.removeClient removeClient
  show view (if s.cachedClient.lookup cname = client then _ else _) =
    if s.cachedClient.lookup cname = client then _ else _
  split_ifs <;> rfl

/-- A step by which a `Call` changes only its own variables. -/
theorem simulate_move {a : Group.Action V} (h : CallMove cfg s call a call') (hk : Known s)
    (hj : s.calls j = some call) :
    (∀ i ∈ clientOf call'.pc, (s.children i).isSome) ∧
      Reach step Any (view s) ((view s).setCaller j (callerOf call'.pc)) := by
  have hcaller := view_callers hj
  have hheld := hk.held j call hj
  -- a `Call` that is outside of `getCachedClient` and stays there
  have houtside : callerOf call.pc = none → callerOf call'.pc = none →
      Reach step Any (view s) ((view s).setCaller j (callerOf call'.pc)) := by
    intro hold hnew
    rw [hnew, setCaller_self (hcaller.trans hold)]
    exact .refl
  have hattempted : ∀ cname i err, call' = call.attempted cfg cname i err →
      callerOf call.pc = none →
      clientOf call.pc = some i → (∀ k ∈ clientOf call'.pc, (s.children k).isSome) ∧
        Reach step Any (view s) ((view s).setCaller j (callerOf call'.pc)) := by
    rintro cname i err rfl hold hi
    have ⟨hcaller', hclient⟩ : callerOf (call.attempted cfg cname i err).pc = none ∧
        _ := attempted_pc err
    refine ⟨fun k hk' => ?_, houtside hold hcaller'⟩
    obtain rfl := hclient k hk'
    exact hheld k hi
  cases h with
  | @select cname hpc =>
    rw [hpc] at hcaller houtside
    unfold Call.select at houtside ⊢
    split_ifs at houtside ⊢ with hnil
    · exact ⟨fun i hi => (by cases clientOf_got hi), houtside rfl (callerOf_got _ _)⟩
    · exact ⟨nofun, Reach.refl.next (l := .getCachedClient j cname) (if_pos hcaller)⟩
  | @lookup cname hpc hlock =>
    rw [hpc] at hcaller
    have hmiss : cached (view s) cname = none → Reach step Any (view s)
        ((view s).setCaller j (some (.dial cname))) := fun hno =>
          Reach.refl.next (step_miss hcaller hno)
    unfold Call.lookup
    cases hi : s.cachedClient.lookup cname with
    | none =>
      refine ⟨nofun, hmiss ?_⟩
      unfold Cache.cached
      rw [show (view s).cachedClient.lookup cname = none from hi]
    | some i =>
      by_cases hlive : Group.usable s i = true
      · have hhit : cached (view s) cname = some i :=
          cached_eq_some.mpr ⟨hi, view_usable.trans hlive⟩
        simp only [hlive, if_true, callerOf_got]
        refine ⟨fun k hk' => ?_, Reach.refl.next (step_hit hcaller hhit)⟩
        cases clientOf_got hk'
        exact hk.cached cname i hi
      · simp only [hlive]
        refine ⟨nofun, hmiss ?_⟩
        unfold Cache.cached
        rw [show (view s).cachedClient.lookup cname = some i from hi]
        exact if_neg (by rwa [view_usable])
  | @cached cname i r hpc hlock hi =>
    rw [hpc] at hcaller
    rw [callerOf_got]
    have hfound : dial (view s) cname r = some (.ok i, view s) := dial_found r hi
    refine ⟨fun k hk' => ?_, Reach.refl.next (step_of_dial hcaller hfound)⟩
    cases clientOf_got hk'
    exact hk.cached cname i hi
  | @dialErr cname err hpc hlock hno =>
    rw [hpc] at hcaller
    rw [callerOf_got]
    have herror : dial (view s) cname (.error err) = some (.error err, view s) := dial_error err hno
    exact ⟨fun k hk' => (by cases clientOf_got hk'), Reach.refl.next (step_of_dial hcaller herror)⟩
  | next hpc hnext =>
    obtain ⟨hcaller', hclient⟩ := next_pc hnext
    refine ⟨fun i hi => hheld i ?_, houtside (by rw [hpc]; rfl) hcaller'⟩
    rw [hpc]
    exact hclient i hi
  | callReturn hpc _ => exact hattempted _ _ _ rfl (by rw [hpc]; rfl) (by rw [hpc]; rfl)
  | breaker _ hpc =>
    rcases hpc with hpc | ⟨c, hpc⟩
    · exact hattempted _ _ _ rfl (by rw [hpc]; rfl) (by rw [hpc]; rfl)
    · exact hattempted _ _ _ rfl (by rw [hpc]; rfl) (by rw [hpc]; rfl)

theorem Known.removeClient (h : Known s) (cname : Bytes) (client : Option ClientId) :
    Known (Group.removeClient s cname client) := by
  unfold Group.removeClient
  split_ifs
  · exact ⟨h.unlocked, fun cname' k hk => h.cached cname' k (lookup_erase_eq_some.mp hk).2, h.held⟩
  · exact h

/-- The locked section of `removeClient`, after which the `Call` goes on or closes the client. -/
theorem simulate_remove {client : Option ClientId} (hk : Known s) (hj : s.calls j = some call)
    (hpc : call.pc = .remove cname client) :
    Known ((Group.removeClient s cname client).setCall j (call.removed cfg cname client)) ∧
      Reach step Any (view s)
        (view ((Group.removeClient s cname client).setCall j (call.removed cfg cname client))) := by
  have hheld : ∀ i ∈ client, (s.children i).isSome := by
    intro i hi
    refine hk.held j call hj i ?_
    rw [hpc]
    exact hi
  have hchildren : (Group.removeClient s cname client).children = s.children := by
    unfold Group.removeClient
    split_ifs <;> rfl
  have hremove : step (view s) (.remove cname client) =
      some (view (Group.removeClient s cname client)) := by
    rw [view_removeClient]
    exact if_pos fun i hi => by simpa [view] using hheld i hi
  have hcaller : (view (Group.removeClient s cname client)).callers j = none := by
    have hbefore : (view s).callers j = none := by rw [view_callers hj, hpc]; rfl
    rw [view_removeClient]
    unfold removeClient
    split_ifs <;> exact hbefore
  have hk' := hk.removeClient cname client
  constructor
  · refine hk'.of_children rfl hk'.cached (fun _ hi => hi) rfl fun k hclient => ?_
    show ((Group.removeClient s cname client).children k).isSome
    rw [hchildren]
    cases client with
    | none => exact (clientOf_goOn hclient).elim
    | some i => exact hheld k hclient
  · rw [view_setCall]
    refine (Reach.refl.next hremove).trans ?_
    cases client with
    | none => exact reach_goOn hcaller
    | some i =>
      have hself : (view (Group.removeClient s cname (some i))).setCaller j none = _ :=
        setCaller_self hcaller
      show Reach step Any _ ((view (Group.removeClient s cname (some i))).setCaller j none)
      rw [hself]
      exact .refl

theorem simulate_call {a : Group.Action V} (h : CallEffect env cfg s j call a t) (hk : Known s)
    (hj : s.calls j = some call) : Known t ∧ Reach step Any (view s) (view t) := by
  have hcaller := view_callers hj
  have hheld := hk.held j call hj
  cases h with
  | @move a call' hmove =>
    obtain ⟨hclient, hreach⟩ := simulate_move hmove hk hj
    rw [view_setCall]
    exact ⟨hk.of_children rfl hk.cached (fun _ hi => hi) rfl hclient, hreach⟩
  | @dial cname i hpc hlock hno hnew =>
    rw [hpc] at hcaller
    have hchildren : ∀ k, (s.children k).isSome →
        (Function.update s.children i (some (Machine.init : Machine.State V)) k).isSome :=
      fun k => isSome_update _
    have hself :
        (Function.update s.children i (some (Machine.init : Machine.State V)) i).isSome := by simp
    refine ⟨hk.of_children rfl ?_ hchildren rfl ?_, Reach.refl.next (l := .dial j (.ok i)) ?_⟩
    · intro cname' k hk'
      rcases lookup_insert_eq_some.mp hk' with ⟨-, rfl⟩ | ⟨-, hk'⟩
      · exact hself
      · exact hchildren k (hk.cached cname' k hk')
    · intro k hk'
      cases clientOf_got hk'
      exact hself
    · have hnew' : (view s).children i = none := by simp [view, hnew]
      have hok := dial_ok (show (view s).cachedClient.lookup cname = none from hno) hnew'
      rw [step_of_dial hcaller hok]
      have hview :=
        congrArg (fun x : State => { x with cachedClient := s.cachedClient.insert cname i })
        (view_child (s := s) (i := i) Machine.init)
      have hset := view_setCall (s := { s with
          children := Function.update s.children i (some Machine.init)
          cachedClient := s.cachedClient.insert cname i }) j (call.got cname (some i) none)
      rw [callerOf_got] at hset
      exact congrArg some
        ((congrArg (fun x : State => x.setCaller j none) hview).symm.trans hset.symm)
  | @callDirect cname i c ctx p q args reply m m' hpc hm hstep =>
    rw [hpc] at hcaller hheld
    refine ⟨hk.of_children rfl (fun cname' k hk' => isSome_update _ (hk.cached cname' k hk'))
      (fun k => isSome_update _) rfl (fun k hk' => isSome_update _ (hheld k hk')), ?_⟩
    refine @reach_child_call _ s { call with pc := .calling cname i c } j i m hm m' fun x hx => ?_
    have hself : x.setCaller j (callerOf (.calling cname i c)) = x :=
      setCaller_self (hx.trans hcaller)
    rw [hself]
    exact .refl
  | @remove cname client hpc hlock => exact simulate_remove hk hj hpc
  | @closeChild cname i m m' hpc hm hstep =>
    rw [hpc] at hcaller
    refine ⟨hk.of_children rfl (fun cname' k hk' => isSome_update _ (hk.cached cname' k hk'))
      (fun k => isSome_update _) rfl (fun k hk' => (clientOf_goOn hk').elim), ?_⟩
    exact reach_child_call hm m' fun x hx => reach_goOn (hx.trans hcaller)

/-- Nobody closes the client. -/
def NotClosed (_ : Group.State V) : Group.Label V → Prop
  | .close => False
  | _ => True

theorem simulate_step {l : Group.Label V} (h : Group.Effect env cfg s l t) (hk : Known s)
    (hok : NotClosed s l) : Known t ∧ Reach step Any (view s) (view t) := by
  have hlocked : ∀ {x}, s.locked = some x → False := fun hx => by rw [hk.unlocked] at hx; cases hx
  cases h with
  | act hcall ha => exact simulate_call ha hk hcall
  | @call j hnew =>
    have hpc : callerOf (Group.newCall cfg s.registryClient).pc = none ∧
        clientOf (Group.newCall cfg s.registryClient).pc = none := by
      unfold Group.newCall
      split <;> exact ⟨rfl, rfl⟩
    have hcaller : (view s).callers j = none := by simp [view, hnew]
    rw [view_setCall, hpc.1, setCaller_self hcaller]
    refine ⟨hk.of_children rfl hk.cached (fun _ hi => hi) rfl fun i hi => ?_, .refl⟩
    rw [hpc.2] at hi
    cases hi
  | @child i l m m' hl hm hstep =>
    exact ⟨⟨hk.unlocked, fun cname k hk' => isSome_update _ (hk.cached cname k hk'),
      fun j call hj k hk' => isSome_update _ (hk.held j call hj k hk')⟩, reach_child hm m'⟩
  | close => exact hok.elim
  | closeNext hlock => exact (hlocked hlock).elim
  | closeSkip hlock => exact (hlocked hlock).elim
  | connClose hlock => exact (hlocked hlock).elim
  | closeReturn hlock => exact (hlocked hlock).elim
  | _ => exact ⟨⟨hk.unlocked, hk.cached, hk.held⟩, .refl⟩

theorem known_init (pairs : Option (List Registry.Discovery.KV)) :
    Known (Group.init pairs : Group.State V) where
  unlocked := rfl
  cached _ _ hi := by cases hi
  held _ _ hj := by cases hj

/-- **The cache of a client.** In every run of a client that nobody closes, what happens to its
cache is a run of the steps above. -/
theorem reach_of_group {pairs : Option (List Registry.Discovery.KV)}
    (h : Reach (Group.step env cfg) NotClosed (Group.init pairs) s) :
    Known s ∧ Reach step Any init (view s) := by
  induction h with
  | refl => exact ⟨known_init pairs, .refl⟩
  | tail _ hok hs ih =>
    obtain ⟨hk, hr⟩ := simulate_step (Group.effect_of_step hs) ih.1 hok
    exact ⟨hk, ih.2.trans hr⟩

end Group

end Frpc.Client.Cache
