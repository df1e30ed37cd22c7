import Frpc.Registry.Etcd
import Frpc.Registry.Watching

/-! # The watch of an etcd discovery

`WatchTree` of the etcd store starts a goroutine that lists the directory, sends the list to
`watchCh`, and then waits for an event and lists again. The first wait has no index: etcd answers it
with the first event after the request has come in. Every later wait has the index after that of the
last event. The index of the store is here the number of the events below the directory; those
elsewhere are not counted.

So a change after the first list and before the first wait is missed, until there is another one.
Where there is none (`Prompt`), and every change of the list is an event (`Indexes`), the discovery
has the list of the store as soon as the loop has stored what it has received, the goroutine waits
and there is no event that it has not seen; and it gets there in steps of its own
(`etcd_watch_settles`). -/

namespace Frpc.Registry.EtcdWatch

open Frpc.Basic Frpc.Lib.Runs Frpc.Registry.Discovery Frpc.Registry.Etcd
open Frpc.Registry.Watching (Feed Tracks Indexes alive_of_reach effect_of_step)

/-- The goroutine of `WatchTree`, with `nextWait.WaitIndex` of its watcher. -/
inductive Watcher where
  /-- `List` comes next. -/
  | listing (waitIndex : ℕ)
  /-- The children are sent to `watchCh`. -/
  | sending (waitIndex : ℕ) (list : List (Bytes × Bytes))
  /-- `Next` sends its request. -/
  | asking (waitIndex : ℕ)
  /-- etcd holds the request until there is an event after that with the index `seen`. -/
  | waiting (waitIndex seen : ℕ)
  /-- `watchCh` is closed. -/
  | closed

/-- The steps of the goroutine. -/
inductive WatcherLabel where
  /-- etcd answers to `List`. -/
  | list (err : Option Error)
  /-- The request of `Next` comes in. -/
  | ask
  /-- etcd answers to it with an event or an error. -/
  | answer (err : Option Error)
  /-- etcd answers to it with an empty body; the request is sent again. -/
  | emptyBody

/-- A step of the goroutine. -/
def goroutine (path : Bytes) (s : Etcd.State) (index : ℕ) : Watcher → WatcherLabel → Option Watcher
  | .listing _, .list (some _) => some .closed
  | .listing waitIndex, .list none =>
    match Etcd.list s.store path with
    | .error _ => some .closed
    | .ok list => some (.sending waitIndex list)
  | .asking waitIndex, .ask =>
    some (.waiting waitIndex (if waitIndex = 0 then index else waitIndex - 1))
  | .waiting _ _, .answer (some _) => some .closed
  | .waiting _ seen, .answer none => if seen < index then some (.listing (seen + 1 + 1)) else none
  | .waiting waitIndex _, .emptyBody => some (.asking waitIndex)
  | _, _ => none

/-- What `<-c` gives: the pairs of a list, or nothing if the channel is closed. -/
def receive (path : Bytes) : Watcher → Option (Option (List KV) × Watcher)
  | .sending waitIndex list => some (some (pairsOf path list), .asking waitIndex)
  | .closed => some (none, .closed)
  | _ => none

/-- The feed of a discovery. -/
def feed (env : Env) (base name : Bytes) :
    Feed Etcd.State Store Etcd.Label Watcher WatcherLabel where
  registry := Etcd.step env
  overwrite s store := { s with store }
  start := .listing 0
  goroutine := goroutine (discoveryPath base name)
  receive := receive (discoveryPath base name)

abbrev State := Watching.State Etcd.State Watcher

abbrev Label := Watching.Label Store Etcd.Label WatcherLabel

/-- The lists are the same, in some order. -/
def same : Option (List KV) → Option (List KV) → Bool
  | some ps, some qs => decide (ps.Perm qs)
  | none, none => true
  | _, _ => false

/-- The list of the directory is the same, or there is none. -/
def Same (base name : Bytes) (x y : Etcd.State) : Prop :=
  same (snapshot base name x.store) (snapshot base name y.store) = true

instance (base name : Bytes) (x y : Etcd.State) : Decidable (Same base name x y) :=
  inferInstanceAs (Decidable (_ = true))

/-- The loop waits for the goroutine, the goroutine waits for etcd, and there is no event that it
has not seen. -/
def Settled (s : State) : Prop :=
  ∃ waitIndex, s.loop = .readChanges (some (.waiting waitIndex s.index))

/-- The goroutine has listed the directory, and does not wait for the first event yet. -/
def Starting (s : State) : Prop :=
  (∃ list, s.loop.goroutine = some (.sending 0 list)) ∨ s.loop.goroutine = some (.asking 0)

/-- Nothing changes between the first list and the first wait, and no event is lost with an empty
body there. -/
def Prompt (env : Env) (base name : Bytes) (s : State) : Label → Prop
  | .store c _ => Starting s → ∀ x ∈ (feed env base name).change s.store c, Same base name s.store x
  | .goroutine .emptyBody => ∀ seen, s.loop.goroutine = some (.waiting 0 seen) → seen = s.index
  | _ => True

/-- The conditions on the steps. -/
structure Noticed (env : Env) (base name : Bytes) (s : State) (l : Label) : Prop where
  prompt : Prompt env base name s l
  indexes : Indexes (feed env base name) (Same base name) s l

/-! ### The pairs are those of the last event -/

section Fresh

variable {env : Env} {base name : Bytes} {x y : Etcd.State} {index index' : ℕ} {c c' : Watcher}
  {pairs ps : List KV}

/-- The pairs are those of the store. -/
def Current (base name : Bytes) (x : Etcd.State) (pairs : List KV) : Prop :=
  ∃ ps, snapshot base name x.store = some ps ∧ pairs.Perm ps

/-- Pairs with which the goroutine will wait are those of the store, if there is no event to come in
that it would be told of. -/
def Valid (base name : Bytes) (x : Etcd.State) (index waitIndex : ℕ) (pairs : List KV) : Prop :=
  waitIndex ≤ index + 1 ∧ (waitIndex = 0 ∨ waitIndex = index + 1 → Current base name x pairs)

/-- What holds of the goroutine and of the pairs that were received last. -/
def Fresh (base name : Bytes) (x : Etcd.State) (index : ℕ) (c : Watcher) (pairs : List KV) : Prop :=
  match c with
  | .listing w => w ≤ index + 1
  | .sending w list => Valid base name x index w (pairsOf (discoveryPath base name) list)
  | .asking w => Valid base name x index w pairs
  | .waiting w seen =>
    (w = 0 ∨ w = seen + 1) ∧ seen ≤ index ∧ (seen = index → Current base name x pairs)
  | .closed => True

theorem Current.of_same (h : Current base name x pairs) (hsame : Same base name x y) :
    Current base name y pairs := by
  obtain ⟨ps, hps, hperm⟩ := h
  rw [Same, hps] at hsame
  cases hq : snapshot base name y.store with
  | none =>
    rw [hq] at hsame
    cases hsame
  | some qs =>
    rw [hq] at hsame
    exact ⟨qs, hq, hperm.trans (of_decide_eq_true hsame)⟩

theorem current_of_list {list : List (Bytes × Bytes)}
    (h : Etcd.list x.store (discoveryPath base name) = .ok list) :
    Current base name x (pairsOf (discoveryPath base name) list) := by
  refine ⟨_, ?_, List.Perm.refl _⟩
  simp [snapshot, h]

theorem Valid.change {w : ℕ} (h : Valid base name x index w pairs) (hle : index ≤ index')
    (hsame : index' = index → Same base name x y) (hzero : w = 0 → Same base name x y) :
    Valid base name y index' w pairs := by
  obtain ⟨hw, hcur⟩ := h
  refine ⟨by omega, ?_⟩
  rintro (h0 | h1)
  · exact (hcur (Or.inl h0)).of_same (hzero h0)
  · have hidx : index' = index := by omega
    exact (hcur (Or.inr (by omega))).of_same (hsame hidx)

theorem Fresh.change (h : Fresh base name x index c pairs) (hle : index ≤ index')
    (hsame : index' = index → Same base name x y)
    (hprompt : (∃ list, c = .sending 0 list) ∨ c = .asking 0 → Same base name x y) :
    Fresh base name y index' c pairs := by
  cases c with
  | listing w =>
    have hw : w ≤ index + 1 := h
    show w ≤ index' + 1
    omega
  | sending w list =>
    refine Valid.change h hle hsame ?_
    rintro rfl
    exact hprompt (Or.inl ⟨list, rfl⟩)
  | asking w =>
    refine Valid.change h hle hsame ?_
    rintro rfl
    exact hprompt (Or.inr rfl)
  | waiting w seen =>
    obtain ⟨hw, hseen, hcur⟩ := h
    refine ⟨hw, hseen.trans hle, fun heq => ?_⟩
    have hidx : index' = index := by omega
    exact (hcur (heq.trans hidx)).of_same (hsame hidx)
  | closed => trivial

theorem Fresh.goroutine {l : WatcherLabel} (h : Fresh base name x index c pairs)
    (hempty : l = .emptyBody → ∀ seen, c = .waiting 0 seen → seen = index)
    (hg : goroutine (discoveryPath base name) x index c l = some c') :
    Fresh base name x index c' pairs := by
  unfold EtcdWatch.goroutine at hg
  split at hg
  · cases hg
    trivial
  · split at hg
    · cases hg
      trivial
    · rename_i hlist
      cases hg
      exact ⟨h, fun _ => current_of_list hlist⟩
  · rename_i w
    obtain ⟨hle, hcur⟩ := h
    cases hg
    by_cases hw : w = 0
    · rw [if_pos hw]
      exact ⟨Or.inl hw, le_rfl, fun _ => hcur (Or.inl hw)⟩
    · rw [if_neg hw]
      exact ⟨Or.inr (by omega), by omega, fun heq => hcur (Or.inr (by omega))⟩
  · cases hg
    trivial
  · rename_i seen
    split_ifs at hg with hlt
    cases hg
    show seen + 1 + 1 ≤ index + 1
    omega
  · rename_i w seen
    obtain ⟨hw, hseen, hcur⟩ := h
    cases hg
    refine ⟨by omega, ?_⟩
    rintro (rfl | heq)
    · exact hcur (hempty rfl seen rfl)
    · exact hcur (by omega)
  · cases hg

theorem Fresh.receive (h : Fresh base name x index c pairs)
    (hr : receive (discoveryPath base name) c = some (some ps, c')) :
    Fresh base name x index c' ps := by
  cases c with
  | sending w list =>
    cases hr
    exact h
  | _ => cases hr

theorem fresh_start (x : Etcd.State) (index : ℕ) (pairs : List KV) :
    Fresh base name x index (feed env base name).start pairs :=
  Nat.zero_le _

end Fresh

/-! ### Every run -/

section Runs

variable {env : Env} {base name : Bytes} {retries : ℤ} {x : Etcd.State} {index : ℕ}
  {pairs : List KV} {s : State}

theorem fresh_of_reach
    (h : Reach (Watching.step (feed env base name) retries) (Noticed env base name)
      (Watching.init retries x index pairs) s) : Tracks (Fresh base name) s := by
  refine h.invariant (P := Tracks (Fresh base name)) (fun _ hc => (by cases hc)) ?_
  intro t u l _ hf hok hs
  refine (effect_of_step hs).tracks hf (fresh_start _ _) ?_ ?_ fun hr hI => hI.receive hr
  · rintro ch index y c ps rfl hy hc hI
    refine hI.change (hok.indexes y hy).1 (hok.indexes y hy).2 fun hstart => hok.prompt ?_ y hy
    rcases hstart with ⟨list, rfl⟩ | rfl
    · exact Or.inl ⟨list, hc⟩
    · exact Or.inr hc
  · rintro l' c c' ps rfl hc hg hI
    refine hI.goroutine ?_ hg
    rintro rfl seen rfl
    exact hok.prompt seen hc

/-- In a settled state the pairs of the discovery are those of the store. -/
theorem current_of_settled (hf : Tracks (Fresh base name) s) (hset : Settled s) :
    Current base name s.store s.client.disc.pairs := by
  obtain ⟨w, hl⟩ := hset
  have hwait : Fresh base name s.store s.index (.waiting w s.index) s.latest :=
    hf _ (by rw [hl]; rfl)
  have hlatest : s.latest = s.client.disc.pairs := Watching.latest_eq_pairs (by rw [hl]; simp)
  rw [← hlatest]
  exact hwait.2.2 rfl

/-- etcd answers. -/
def answers : WatcherLabel → Prop
  | .list none => True
  | .ask => True
  | .answer none => True
  | _ => False

theorem noticed_of_own {l : Label} (h : Watching.Own answers s l) : Noticed env base name s l := by
  cases l with
  | store => exact h.elim
  | goroutine l =>
    refine ⟨?_, trivial⟩
    cases l with
    | emptyBody => exact h.elim
    | _ => trivial
  | _ => exact ⟨trivial, trivial⟩

/-- Steps of the discovery lead to a settled state, with the same store. -/
abbrev Settles (env : Env) (base name : Bytes) (s : State) : Prop :=
  Watching.Settles (feed env base name) answers Settled s

/-- The goroutine lists the directory, and the loop stores the list. -/
theorem settles_of_list {w : ℕ} (hl : s.loop = .readChanges (some (.listing w)))
    (hdir : snapshot base name s.store.store ≠ none)
    (h : ∀ {t : State}, t.loop = .readChanges (some (.asking w)) → t.store = s.store →
      t.index = s.index → Settles env base name t) : Settles env base name s := by
  cases hlist : Etcd.list s.store.store (discoveryPath base name) with
  | error err => exact absurd (by simp [snapshot, hlist]) hdir
  | ok list =>
    have hg : (feed env base name).goroutine s.store s.index (.listing w) (.list none) =
        some (.sending w list) := by
      simp [feed, goroutine, hlist]
    exact .of_goroutine (l := .list none) hl trivial hg (.of_receive rfl rfl h)

/-- The events that the goroutine has not seen come in one after the other. -/
theorem settles_of_waiting (n : ℕ) : ∀ {s : State} {w seen : ℕ},
    s.loop = .readChanges (some (.waiting w seen)) → snapshot base name s.store.store ≠ none →
    s.index = seen + n → Settles env base name s := by
  induction n with
  | zero =>
    intro s w seen hl _ hidx
    have hseen : seen = s.index := by omega
    exact ⟨s, .refl, ⟨w, by rw [hl, hseen]⟩, rfl, rfl⟩
  | succ n ih =>
    intro s w seen hl hdir hidx
    have hlt : seen < s.index := by omega
    refine .of_goroutine (l := .answer none) hl trivial (if_pos hlt) ?_
    refine settles_of_list rfl hdir fun {t} htl hts hti => ?_
    refine .of_goroutine (l := .ask) htl trivial rfl ?_
    have hnext : t.index = seen + 1 + n := by
      rw [hti]
      show s.index = seen + 1 + n
      omega
    exact ih rfl (by rw [hts]; exact hdir) hnext

theorem settles_of_asking {w : ℕ} (hl : s.loop = .readChanges (some (.asking w)))
    (hdir : snapshot base name s.store.store ≠ none) (hle : w ≤ s.index + 1) :
    Settles env base name s := by
  refine .of_goroutine (l := .ask) hl trivial rfl ?_
  refine settles_of_waiting (s.index - if w = 0 then s.index else w - 1) rfl hdir ?_
  show s.index = _
  split_ifs
  · omega
  · omega

/-- While the loop waits for a goroutine that has not closed its channel. -/
theorem settles_of_reading {c : Watcher} (hl : s.loop = .readChanges (some c))
    (hf : Fresh base name s.store s.index c pairs) (hdir : snapshot base name s.store.store ≠ none)
    (hopen : ∀ c', (feed env base name).receive c ≠ some (none, c')) : Settles env base name s := by
  cases c with
  | listing w =>
    refine settles_of_list hl hdir fun htl hts hti => ?_
    exact settles_of_asking htl (by rw [hts]; exact hdir) (by rw [hti]; exact hf)
  | sending w list =>
    refine .of_receive hl rfl fun htl hts hti => ?_
    exact settles_of_asking htl (by rw [hts]; exact hdir) (by rw [hti]; exact hf.1)
  | asking w => exact settles_of_asking hl hdir hf.1
  | waiting w seen =>
    have hle : seen ≤ s.index := hf.2.1
    exact settles_of_waiting (s.index - seen) hl hdir (by omega)
  | closed => exact absurd rfl (hopen .closed)

/-- **The watch of etcd.** A discovery is made; the registers and others change the store, nodes
expire, etcd answers or fails, and the loop of the discovery and those who watch it go on, in any
order, but nothing changes between the first list of a `WatchTree` and its first wait, no event is
lost with an empty body there, and every change of the list is an event. Whenever the loop waits for
the goroutine, the goroutine waits for etcd, and there is no event that it has not seen, the pairs
of the discovery are those of the store; and as long as the discovery is not closed and the
directory is there, steps of its own lead there. -/
theorem etcd_watch_settles
    (h : Reach (Watching.step (feed env base name) (-1)) (Noticed env base name)
      (Watching.init (-1) x index pairs) s) :
    (Settled s → Current base name s.store s.client.disc.pairs) ∧
    (s.stopCh = false → snapshot base name s.store.store ≠ none →
      ∃ t, Reach (Watching.step (feed env base name) (-1)) (Watching.Own answers) s t ∧ Settled t ∧
        t.store = s.store ∧ Current base name t.store t.client.disc.pairs) := by
  have hf := fresh_of_reach h
  refine ⟨current_of_settled hf, fun hstop hdir => ?_⟩
  obtain ⟨t, ht, hset, hstore, -⟩ : Settles env base name s := by
    refine Watching.settles_of_alive
      (G := fun c => ∃ pairs, Fresh base name s.store s.index c pairs)
      (alive_of_reach h) hstop ⟨[], fresh_start _ _ _⟩ (fun hc => ⟨_, hf _ hc⟩)
        (fun _ h => by cases h) ?_
    rintro t c htl hts hti ⟨pairs, hc⟩ hopen
    have hct : Fresh base name t.store t.index c pairs := by
      rw [hts, hti]
      exact hc
    exact settles_of_reading htl hct (by rw [hts]; exact hdir) hopen
  have hrun := h.trans (ht.mono fun _ _ => noticed_of_own)
  exact ⟨t, ht, hset, hstore, current_of_settled (fresh_of_reach hrun) hset⟩

/-- etcd with the address `1` of the service `A`. -/
def oneNode : Etcd.State :=
  (exec (Etcd.step plainEnv) Etcd.init (registering [47, 98] [49])).getD Etcd.init

/-- The metadata are registered anew, which is one event below the directory. -/
def renewal : Label := .store (.registry (.register 0 [65] [110] none none none none)) 2

/-- What can be checked of `Noticed`: nothing at all happens between the first list and the first
wait. -/
def noticed (env : Env) (base name : Bytes) (s : State) (l : Label) : Bool :=
  (match l, s.loop.goroutine with
    | .store _ _, some (.sending 0 _) => false
    | .store _ _, some (.asking 0) => false
    | .goroutine .emptyBody, _ => false
    | _, _ => true) &&
  decide (Indexes (feed env base name) (Same base name) s l)

theorem noticed_of_check (s : State) (l : Label) (h : noticed env base name s l = true) :
    Noticed env base name s l := by
  obtain ⟨hprompt, hidx⟩ := Bool.and_eq_true_iff.mp h
  refine ⟨?_, of_decide_eq_true hidx⟩
  cases l with
  | store c index =>
    rintro (⟨list, hc⟩ | hc)
    · simp [hc] at hprompt
    · simp [hc] at hprompt
  | goroutine l =>
    cases l with
    | emptyBody => cases hprompt
    | _ => trivial
  | _ => trivial

/-- The metadata are registered anew while the goroutine waits; it waits again before the loop has
stored the new list. -/
theorem etcd_watch_settles_renewed :
    ∃ s, Reach (Watching.step (feed plainEnv [47, 98] [65]) (-1)) (Noticed plainEnv [47, 98] [65])
        (Watching.init (-1) oneNode 1 []) s ∧ Settled s ∧ s.client.disc.pairs = [⟨[49], [110]⟩] ∧
      Current [47, 98] [65] s.store s.client.disc.pairs := by
  have hrun : Reach (Watching.step (feed plainEnv [47, 98] [65]) (-1))
      (Noticed plainEnv [47, 98] [65])
      (Watching.init (-1) oneNode 1 []) _ :=
    reach_of_guarded noticed_of_check [.watchTree none, .goroutine (.list none), .change, .assign,
      .goroutine .ask, renewal, .goroutine (.answer none), .goroutine (.list none), .change,
        .goroutine .ask,
      .assign] rfl
  exact ⟨_, hrun, ⟨_, rfl⟩, rfl, (etcd_watch_settles hrun).1 ⟨_, rfl⟩⟩

-- the same change between the first list and the first wait: the goroutine waits, and the old
-- metadata stay
example : ∃ s, Reach (Watching.step (feed plainEnv [47, 98] [65]) (-1)) Any
    (Watching.init (-1) oneNode 1 []) s ∧ Settled s ∧ s.client.disc.pairs = [⟨[49], [109]⟩] ∧
    snapshot [47, 98] [65] s.store.store = some [⟨[49], [110]⟩] :=
  ⟨_, reach_of_exec [.watchTree none, .goroutine (.list none), .change, renewal, .goroutine .ask,
    .assign] rfl, ⟨_, rfl⟩, rfl, rfl⟩

end Runs

end Frpc.Registry.EtcdWatch
