import Frpc.Registry.Consul
import Frpc.Registry.Watching

/-! # The watch of a Consul discovery

`WatchTree` of the Consul store starts a goroutine that asks for the keys of the directory again and
again, with the index of the last answer; Consul holds the answer back until the index has changed,
or for a while. A list goes to `watchCh` whenever the index has changed, and the channel is closed
when Consul answers with an error. `ConsulDiscovery.watch` then calls `WatchTree` again, and starts
from the index 0.

So no change of the store is missed (`consul_watch_settles`), provided that the index of Consul
tells of it (`Indexes`): whatever happens to the store in the meantime, and however often the watch
breaks, as soon as the loop has stored what it has received and the goroutine waits with the index
that Consul has, the discovery has the list of the store; and it gets there in a few steps of its
own. With what is known of the registers and of the client, registrations reach the client
(`registrations_reach_client`). -/

namespace Frpc.Registry.ConsulWatch

open Frpc.Basic Frpc.Lib.Runs Frpc.Lib.Tables Frpc.Registry.Discovery Frpc.Registry.Consul
open Frpc.Registry.Watching (Feed Tracks Indexes alive_of_reach effect_of_step)

/-- The goroutine of `WatchTree`, with `opts.WaitIndex`. -/
inductive Watcher where
  /-- `kv.List` is asked. -/
  | listing (waitIndex : ℕ)
  /-- The children are sent to `watchCh`. -/
  | sending (waitIndex : ℕ) (kvpairs : List ((_ : Bytes) × KVPair))
  /-- `watchCh` is closed. -/
  | closed

/-- Consul answers to the goroutine, with an error or with its index and what it has. -/
def goroutine (path : Bytes) (s : Consul.State) (index : ℕ) :
    Watcher → Option Error → Option Watcher
  | .listing _, some _ => some .closed
  | .listing waitIndex, none =>
    if waitIndex = index then some (.listing waitIndex)
    else some (.sending index (children s.store path))
  | _, _ => none

/-- What `<-c` gives: the pairs of a list, or nothing if the channel is closed. -/
def receive (path : Bytes) : Watcher → Option (Option (List KV) × Watcher)
  | .listing _ => none
  | .sending waitIndex kvpairs => some (some (pairsOf path kvpairs), .listing waitIndex)
  | .closed => some (none, .closed)

/-- The feed of a discovery. -/
def feed (env : Env) (base name : Bytes) :
    Feed Consul.State Store Consul.Label Watcher (Option Error) where
  registry := Consul.step env
  overwrite s store := { s with store }
  start := .listing 0
  goroutine := goroutine (discoveryPath base name)
  receive := receive (discoveryPath base name)

abbrev State := Watching.State Consul.State Watcher

abbrev Label := Watching.Label Store Consul.Label (Option Error)

/-- The list of the directory is the same, in some order. -/
def Same (base name : Bytes) (x y : Consul.State) : Prop :=
  (snapshot base name x.store).Perm (snapshot base name y.store)

instance (base name : Bytes) (x y : Consul.State) : Decidable (Same base name x y) :=
  inferInstanceAs (Decidable (List.Perm _ _))

/-- The loop waits for the goroutine, and the goroutine waits with the index that Consul has. -/
def Settled (s : State) : Prop := s.loop = .readChanges (some (.listing s.index))

/-! ### The pairs are those of the index -/

section Fresh

variable {env : Env} {base name : Bytes} {x y : Consul.State} {index index' : ℕ} {c c' : Watcher}
  {pairs ps : List KV}

/-- A list that was made with the index that Consul still has is the list of the store. -/
def Valid (base name : Bytes) (x : Consul.State) (index waitIndex : ℕ) (pairs : List KV) : Prop :=
  waitIndex ≤ index ∧ (waitIndex = index → pairs.Perm (snapshot base name x.store))

/-- The pairs that were received last belong to the index with which the goroutine waits, and what
it sends to the index that it will wait with. -/
def Fresh (base name : Bytes) (x : Consul.State) (index : ℕ) (c : Watcher) (pairs : List KV) :
    Prop :=
  match c with
  | .listing w => Valid base name x index w pairs
  | .sending w kvpairs => Valid base name x index w (pairsOf (discoveryPath base name) kvpairs)
  | .closed => True

/-- A change of the store leaves a list valid, or makes its index an old one. -/
theorem Valid.change {w : ℕ} (h : Valid base name x index w pairs) (hle : index ≤ index')
    (hsame : index' = index → Same base name x y) : Valid base name y index' w pairs := by
  obtain ⟨hw, hperm⟩ := h
  refine ⟨hw.trans hle, fun heq => ?_⟩
  have hidx : index' = index := by omega
  exact (hperm (heq.trans hidx)).trans (hsame hidx)

theorem Fresh.change (h : Fresh base name x index c pairs) (hle : index ≤ index')
    (hsame : index' = index → Same base name x y) : Fresh base name y index' c pairs := by
  cases c with
  | listing w => exact Valid.change h hle hsame
  | sending w kvpairs => exact Valid.change h hle hsame
  | closed => trivial

theorem Fresh.goroutine {err : Option Error} (h : Fresh base name x index c pairs)
    (hg : goroutine (discoveryPath base name) x index c err = some c') :
    Fresh base name x index c' pairs := by
  unfold ConsulWatch.goroutine at hg
  split at hg
  · cases hg
    trivial
  · split_ifs at hg
    · cases hg
      exact h
    · cases hg
      exact ⟨le_rfl, fun _ => List.Perm.refl _⟩
  · cases hg

theorem Fresh.receive (h : Fresh base name x index c pairs)
    (hr : receive (discoveryPath base name) c = some (some ps, c')) :
    Fresh base name x index c' ps := by
  cases c with
  | listing w => cases hr
  | sending w kvpairs =>
    cases hr
    exact h
  | closed => cases hr

theorem fresh_start (hpos : 0 < index) : Fresh base name x index (feed env base name).start pairs :=
  ⟨Nat.zero_le _, fun heq => absurd heq hpos.ne⟩

end Fresh

/-! ### Every run -/

section Runs

variable {env : Env} {base name : Bytes} {retries : ℤ} {x : Consul.State} {index : ℕ}
  {pairs : List KV} {s : State} {ok : State → Label → Prop}

theorem fresh_of_reach (hpos : 0 < index)
    (hok : ∀ u l, ok u l → Indexes (feed env base name) (Same base name) u l)
    (h : Reach (Watching.step (feed env base name) retries) ok
      (Watching.init retries x index pairs) s) :
    0 < s.index ∧ Tracks (Fresh base name) s := by
  refine h.invariant (P := fun s => 0 < s.index ∧ Tracks (Fresh base name) s)
    ⟨hpos, fun _ hc => (by cases hc)⟩ ?_
  rintro t u l _ ⟨hpos, hf⟩ hl hs
  have heff := effect_of_step hs
  have hindex := hok t l hl
  refine ⟨hpos.trans_le (heff.index_le hindex), ?_⟩
  refine heff.tracks hf (fun _ => fresh_start hpos) ?_ (fun _ _ hg hI => hI.goroutine hg) fun hr
    hI => hI.receive hr
  rintro ch index y c ps rfl hy - hI
  exact hI.change (hindex y hy).1 (hindex y hy).2

/-- In a settled state the pairs of the discovery are those of the store. -/
theorem pairs_perm (hf : Tracks (Fresh base name) s) (hset : Settled s) :
    s.client.disc.pairs.Perm (snapshot base name s.store.store) := by
  have hlist : Fresh base name s.store s.index (.listing s.index) s.latest :=
    hf _ (by rw [hset]; rfl)
  have hlatest : s.latest = s.client.disc.pairs := Watching.latest_eq_pairs (by rw [hset]; simp)
  rw [← hlatest]
  exact hlist.2 rfl

/-- Consul answers. -/
def answers (err : Option Error) : Prop := err = none

/-- Steps of the discovery lead to a settled state, with the same store. -/
abbrev Settles (env : Env) (base name : Bytes) (s : State) : Prop :=
  Watching.Settles (feed env base name) answers Settled s

theorem settles_of_listing {w : ℕ} (hl : s.loop = .readChanges (some (.listing w))) :
    Settles env base name s := by
  by_cases hidx : w = s.index
  · exact ⟨s, .refl, by rw [Settled, hl, hidx], rfl, rfl⟩
  · refine .of_goroutine (l := none) hl rfl (if_neg hidx) ?_
    refine .of_receive rfl rfl fun {t} htl hts hti => ?_
    refine ⟨t, .refl, ?_, rfl, rfl⟩
    rw [Settled, htl, hti]

/-- While the loop waits for a goroutine that has not closed its channel. -/
theorem settles_of_reading {c : Watcher} (hl : s.loop = .readChanges (some c))
    (hopen : ∀ c', (feed env base name).receive c ≠ some (none, c')) : Settles env base name s := by
  cases c with
  | listing w => exact settles_of_listing hl
  | sending w kvpairs => exact .of_receive hl rfl fun htl _ _ => settles_of_listing htl
  | closed => exact absurd rfl (hopen .closed)

/-- **The watch misses no change.** A discovery is made; the registers and others change the store,
nodes expire, Consul answers or fails, and the loop of the discovery and those who watch it go on,
in any order, and the index of Consul tells of every change of the directory. Whenever the loop
waits for the goroutine, and the goroutine waits with the index that Consul has, the pairs of the
discovery are those of the store; and as long as the discovery is not closed, steps of its own lead
there. -/
theorem consul_watch_settles (hpos : 0 < index)
    (h : Reach (Watching.step (feed env base name) (-1))
      (Indexes (feed env base name) (Same base name))
      (Watching.init (-1) x index pairs) s) :
    (Settled s → s.client.disc.pairs.Perm (snapshot base name s.store.store)) ∧
    (s.stopCh = false → ∃ t, Reach (Watching.step (feed env base name) (-1))
      (Watching.Own answers) s t ∧
      Settled t ∧ t.store = s.store ∧
        t.client.disc.pairs.Perm (snapshot base name s.store.store)) := by
  refine ⟨pairs_perm (fresh_of_reach hpos (fun _ _ => id) h).2, fun hstop => ?_⟩
  obtain ⟨t, ht, hset, hstore, -⟩ : Settles env base name s :=
    Watching.settles_of_alive (G := fun _ => True) (alive_of_reach h) hstop trivial
      (fun _ => trivial)
      (fun _ h => by cases h) fun htl _ _ _ hopen => settles_of_reading htl hopen
  -- the steps of the discovery do not change the store
  have hown : Reach (Watching.step (feed env base name) (-1))
      (Indexes (feed env base name) (Same base name)) s t := by
    refine ht.mono fun u l hl => ?_
    cases l with
    | store => exact hl.elim
    | _ => trivial
  refine ⟨t, ht, hset, hstore, ?_⟩
  rw [← hstore]
  exact pairs_perm (fresh_of_reach hpos (fun _ _ => id) (h.trans hown)).2 hset

/-- A second register with the base path `b`, and the address `2`. -/
def second : List Consul.Label :=
  [.new 1 [98] [50] 1, .register 1 [65] [110] none none none, .acquire 0, .renew 0 true,
    .write 0 none]

/-- The steps of the registers, each of which raises the index. -/
def counted (index : ℕ) : List Consul.Label → List Label
  | [] => []
  | l :: ls => .store (.registry l) (index + 1) :: counted (index + 1) ls

/-- Consul answers with an error while the second address is registered, and before the pairs of the
first are stored; the discovery watches again. -/
def broken : List Label :=
  counted 1 (started ++ registers [65]) ++ [.watchTree none, .goroutine none, .change] ++
    counted 7 second ++
    [.goroutine (some .eof), .assign, .rewatch, .watchTree none, .goroutine none, .change,
      .goroutine none, .assign]

theorem indexes_of_decide (s : State) (l : Label)
    (h : decide (Indexes (feed env base name) (Same base name) s l) = true) :
    Indexes (feed env base name) (Same base name) s l := of_decide_eq_true h

theorem consul_watch_settles_broken :
    ∃ s, Reach (Watching.step (feed plainEnv [47, 98] [65]) (-1))
        (Indexes (feed plainEnv [47, 98] [65]) (Same [47, 98] [65]))
        (Watching.init (-1) Consul.init 1 []) s ∧
      Settled s ∧ s.client.disc.pairs = [⟨[50], [110]⟩, ⟨[49], [109]⟩] ∧
      s.client.disc.pairs.Perm (snapshot [47, 98] [65] s.store.store) := by
  have hrun : Reach (Watching.step (feed plainEnv [47, 98] [65]) (-1))
      (Indexes (feed plainEnv [47, 98] [65]) (Same [47, 98] [65]))
        (Watching.init (-1) Consul.init 1 []) _ :=
    reach_of_guarded indexes_of_decide broken rfl
  exact ⟨_, hrun, rfl, rfl, (consul_watch_settles (by decide) hrun).1 rfl⟩

-- the goroutine waits with the index of Consul before the loop has stored the pairs
example : ∃ s, Reach (Watching.step (feed plainEnv [47, 98] [65]) (-1)) Any
      (Watching.init (-1) Consul.init 1 []) s ∧ s.loop = .storing [⟨[49], [109]⟩]
      (.listing s.index) ∧
    s.client.disc.pairs = [] :=
  ⟨_, reach_of_exec (counted 1 (started ++ registers [65]) ++
    [.watchTree none, .goroutine none, .change, .goroutine none]) rfl, rfl, rfl⟩

/-! ### From the registers to the client -/

/-- The condition on what changes the store: that on the registers, and nobody else changes a key
under the path of the service, so that no node of it expires either. -/
def ApartStore (base name : Bytes) (s : State) : Label → Prop
  | .store (.registry l) _ => Apart base name s.store l
  | .store (.other store) _ =>
    ∀ k, discoveryPath base name <+: k → store.lookup k = s.store.store.lookup k
  | _ => True

/-- The conditions on the store, on its index, and on the client. -/
structure Regular (env : Env) (base name : Bytes) (s : State) (l : Label) : Prop where
  apart : ApartStore base name s l
  indexes : Indexes (feed env base name) (Same base name) s l
  orderly : Watching.Orderly s l

theorem good_other {store : Store} (h : Good base name x)
    (hother : ∀ k, discoveryPath base name <+: k → store.lookup k = x.store.lookup k) :
    Good base name { x with store := store } := by
  refine ⟨⟨fun hk hpre => h.only ((hother _ hpre).symm.trans hk) hpre, fun a => ?_⟩,
    h.puts, h.services⟩
  rw [hother _ (dir_prefix_join _ _)]
  exact h.value a

theorem good_of_watch (hbase : base ≠ []) (hname : 47 ∉ name) (hx : Good base name x)
    (h : Reach (Watching.step (feed env base name) retries) (Regular env base name)
      (Watching.init retries x index pairs) s) : Good base name s.store := by
  refine h.invariant (P := fun s => Good base name s.store) hx ?_
  intro t u l _ ht hok hs
  cases effect_of_step hs with
  | @store c index y hy =>
    cases c with
    | registry l => exact ht.step hbase hname hok.apart hy
    | other store =>
      cases hy
      exact good_other ht hok.apart
  | _ => exact ht

/-- The map of a client, made from a list that shows what is found at the addresses. -/
theorem lookup_serversOf {ps : List KV} (hperm : pairs.Perm ps) (h : Shows x base name ps)
    (a : Bytes) :
    (serversOf pairs).lookup a = x.found base name a := by
  have hnodup : (pairs.map (·.key)).Nodup := (hperm.map _).nodup_iff.mpr h.1
  refine Option.ext fun v => ?_
  rw [serversOf, lookup_foldl_insert (·.key) (·.value) pairs ∅ hnodup, ← h.2 a v, ← hperm.mem_iff]
  constructor
  · rintro (⟨p, hp, rfl, rfl⟩ | ⟨-, hnone⟩)
    · exact hp
    · simp at hnone
  · intro hmem
    exact Or.inl ⟨_, hmem, rfl, rfl⟩

/-- What can be checked of `Regular` where nobody else changes the store. -/
def regular (env : Env) (base name : Bytes) (s : State) (l : Label) : Bool :=
  (match l with
    | .store (.registry l) _ => decide (Apart base name s.store l)
    | .store (.other _) _ => false
    | _ => true) &&
  decide (Indexes (feed env base name) (Same base name) s l) && Watching.orderly s l

theorem regular_of_check (s : State) (l : Label) (h : regular env base name s l = true) :
    Regular env base name s l := by
  obtain ⟨hrest, hord⟩ := Bool.and_eq_true_iff.mp h
  obtain ⟨hapart, hidx⟩ := Bool.and_eq_true_iff.mp hrest
  refine ⟨?_, of_decide_eq_true hidx, Watching.orderly_of_check hord⟩
  cases l with
  | store c index =>
    cases c with
    | registry l => exact apart_of_decide _ _ hapart
    | other => cases hapart
  | _ => trivial

/-- The metadata of an address is registered anew while the client watches. -/
def renewed : List Label :=
  counted 1 (started ++ registers [65]) ++
    [.watchTree none, .goroutine none, .change, .assign, .client .getServices,
      .client .watchService] ++
    counted 7 [.register 0 [65] [110] none none none, .renew 0 true, .write 0 none] ++
    [.goroutine none, .change, .assign, .client (.disc (.send 0)), .client .watch]

end Runs

end Frpc.Registry.ConsulWatch
