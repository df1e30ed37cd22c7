import Frpc.Client.Group
import Frpc.Client.Correlation
import Frpc.Lib.Tables

/-! # Evictions

What an evicted client leaves behind. `removeClient` calls `Close`, not `close`: the connection
stays open, the calls in it stay pending, and the subscription of the user's client ends. `Close` of
the user's client closes the connections of the cache that are not shut down, and no other; nothing
stops a later `Call` from dialling.

As long as no call fails in a way that evicts a client (`Calm`), the subscription lasts until the
user calls `Close` (`subscription_kept`). If moreover `Close` is called on a client without a
connection of its own, after its last `Call`, and with no shut-down client in the cache
(`Disciplined`), then every connection that the client has given up is closed and drained
(`discarded_closed`). -/

namespace Frpc.Client.Evictions

open Frpc.Basic Frpc.Codecs Frpc.Lib.Runs Frpc.Lib.Ledgers Frpc.Lib.Tables Frpc.Registry
open Frpc.Registry.Discovery (KV Subscribed chanCap receive send)
open Frpc.Client.FailMod (ClientId)
open Frpc.Client.Group Frpc.Client.Custody Frpc.Client.Correlation
open Frpc.Protocol.Messages Frpc.Protocol.Wire Frpc.Protocol.Headers

variable {V : Type} {env : Env V} {cfg : Config} {s t : Group.State V} {l : Group.Label V}

/-! ### Calls that evict nobody -/

/-- The result of a `CallDirect` after which the fail mode evicts nobody. -/
def Quiet (cfg : Config) : Option Error → Prop
  | none => True
  | some (.serviceError _) => cfg.failMode = .failFast
  | some _ => False

/-- The condition on the steps: every `CallDirect` succeeds, or is answered by an error of the
service in `FailFast` mode. -/
def Calm (cfg : Config) (_ : Group.State V) : Group.Label V → Prop
  | .act _ (.callReturn err) => Quiet cfg err
  | .act _ (.breaker err) => Quiet cfg (some err)
  | _ => True

/-- The call is about to evict a client. -/
def Evicts : CallPc → Prop
  | .remove _ (some _) => True
  | .close _ _ => True
  | _ => False

section Calls

variable {call call' : Call} {j : ℕ} {a : Action V}

theorem not_evicts_newCall (r : Option RegistryClient) : ¬ Evicts (newCall cfg r).pc := by
  cases r <;> exact id

theorem not_evicts_got (cname : Bytes) (client : Option ClientId) (err : Option Error) :
    ¬ Evicts (call.got cname client err).pc := by
  unfold Call.got
  split_ifs <;> exact id

theorem not_evicts_goOn (cname : Bytes) : ¬ Evicts (call.goOn cfg cname).pc := by
  unfold Call.goOn
  split <;> exact id

theorem not_evicts_next {cname : Bytes} {client : Option ClientId}
    (h : call.next cfg cname client = some call') : ¬ Evicts call'.pc := by
  unfold Call.next at h
  split at h
  · obtain ⟨i, -, rfl⟩ := Option.map_eq_some_iff.mp h
    exact id
  · split_ifs at h
    · split at h <;> cases h <;> exact id
    · cases h
      exact id

theorem not_evicts_attempted {cname : Bytes} {i : ClientId} {err : Option Error}
    (h : Quiet cfg err) :
    ¬ Evicts (call.attempted cfg cname i err).pc := by
  cases err with
  | none => exact id
  | some e =>
    cases e with
    | serviceError text =>
      have hmode : cfg.failMode = .failFast := h
      simp only [Call.attempted, hmode]
      exact id
    | _ => exact h.elim

theorem not_evicts_of_move (h : CallMove cfg s call a call') (hok : Calm cfg s (.act j a)) :
    ¬ Evicts call'.pc := by
  cases h with
  | select hpc =>
    unfold Call.select
    split_ifs
    · exact not_evicts_got _ _ _
    · exact id
  | lookup hpc hlock =>
    unfold Call.lookup
    split
    · split_ifs
      · exact not_evicts_got _ _ _
      · exact id
    · exact id
  | cached hpc hlock hi => exact not_evicts_got _ _ _
  | dialErr hpc hlock hno => exact not_evicts_got _ _ _
  | next hpc hnext => exact not_evicts_next hnext
  | callReturn hpc hres => exact not_evicts_attempted hok
  | breaker hcfg hpc => exact not_evicts_attempted hok

/-- `removeClient` without a client finds nothing to remove. -/
theorem removeClient_none (cname : Bytes) : removeClient s cname none = s := by
  unfold removeClient
  split_ifs with h
  · rw [erase_of_lookup_eq_none h]
  · rfl

theorem calm_of_effect (h : CallEffect env cfg s j call a t) (hcall : ¬ Evicts call.pc)
    (hok : Calm cfg s (.act j a)) :
    (∃ call', t.calls = Function.update s.calls j (some call') ∧ ¬ Evicts call'.pc) ∧
      t.registryClient = s.registryClient ∧ t.closers = s.closers ∧ t.locked = s.locked ∧
      t.called = s.called ∧ t.closed = s.closed := by
  cases h with
  | move hmove => exact ⟨⟨_, rfl, not_evicts_of_move hmove hok⟩, rfl, rfl, rfl, rfl, rfl⟩
  | dial hpc hlock hno hnew => exact ⟨⟨_, rfl, not_evicts_got _ _ _⟩, rfl, rfl, rfl, rfl, rfl⟩
  | callDirect hpc hm hstep => exact ⟨⟨_, rfl, id⟩, rfl, rfl, rfl, rfl, rfl⟩
  | @remove cname client hpc hlock =>
    cases client with
    | none =>
      rw [removeClient_none]
      exact ⟨⟨_, rfl, not_evicts_goOn _⟩, rfl, rfl, rfl, rfl, rfl⟩
    | some i =>
      rw [hpc] at hcall
      exact absurd trivial hcall
  | closeChild hpc hm hstep =>
    rw [hpc] at hcall
    exact absurd trivial hcall

end Calls

/-- No call is about to evict a client. -/
def NoneEvicts (s : Group.State V) : Prop := ∀ j call, s.calls j = some call → ¬ Evicts call.pc

theorem NoneEvicts.update {j : ℕ} {call : Call} (h : NoneEvicts s) (hcall : ¬ Evicts call.pc)
    (ht : t.calls = Function.update s.calls j (some call)) : NoneEvicts t := by
  intro k call' hk
  rw [ht] at hk
  obtain ⟨-, rfl⟩ | ⟨-, hk⟩ := update_eq_some.mp hk
  · exact hcall
  · exact h k call' hk

theorem NoneEvicts.step (h : NoneEvicts s) (hok : Calm cfg s l) (hs : Effect env cfg s l t) :
    NoneEvicts t := by
  cases hs with
  | call hnew => exact h.update (not_evicts_newCall _) rfl
  | act hcall ha =>
    obtain ⟨⟨call', ht, hcall'⟩, -⟩ := calm_of_effect ha (h _ _ hcall) hok
    exact h.update hcall' ht
  | _ => exact h

/-! ### The subscription -/

/-- The invariant of calm runs of a client with a discovery, before the user calls `Close`. -/
structure Kept (s : Group.State V) : Prop where
  evicts : NoneEvicts s
  unlocked : s.called = false → s.locked = none
  closers : s.called = false → s.closers = []
  subscribed : s.called = false → ∃ r, s.registryClient = some r ∧ Subscribed r.discovery r.ch

theorem Kept.init (pairs : List KV) : Kept (init (some pairs) : Group.State V) where
  evicts _ _ h := by cases h
  unlocked _ := rfl
  closers _ := rfl
  subscribed _ := ⟨_, rfl, ⟨List.mem_singleton_self _, rfl⟩⟩

theorem Kept.congr (h : Kept s) (he : NoneEvicts t) (hr : t.registryClient = s.registryClient)
    (hc : t.closers = s.closers) (hl : t.locked = s.locked) (hcl : t.called = s.called) :
    Kept t where
  evicts := he
  unlocked hn := hl.trans (h.unlocked (hcl ▸ hn))
  closers hn := hc.trans (h.closers (hcl ▸ hn))
  subscribed hn := by
    rw [hr]
    exact h.subscribed (hcl ▸ hn)

theorem Kept.of_called (he : NoneEvicts t) (hc : t.called = true) : Kept t where
  evicts := he
  unlocked hn := by simp [hc] at hn
  closers hn := by simp [hc] at hn
  subscribed hn := by simp [hc] at hn

/-- Outside of `Close` nobody holds its lock, and nobody runs what it starts. -/
theorem Kept.called_of_locked (h : Kept s) (hl : s.locked ≠ none) : s.called = true := by
  by_contra hn
  exact hl (h.unlocked (by simpa using hn))

theorem Kept.called_of_closer (h : Kept s) {k : ℕ} {closer : Closer}
    (hk : s.closers[k]? = some closer) :
    s.called = true := by
  by_contra hn
  rw [h.closers (by simpa using hn)] at hk
  cases hk

theorem Kept.step (h : Kept s) (hok : Calm cfg s l) (hs : Effect env cfg s l t) : Kept t := by
  have he := h.evicts.step hok hs
  cases hs with
  | connect hown => exact h.congr he rfl rfl rfl rfl
  | own hown hl hstep => exact h.congr he rfl rfl rfl rfl
  | call hnew => exact h.congr he rfl rfl rfl rfl
  | act hcall ha =>
    obtain ⟨-, hr, hc, hl, hcl, -⟩ := calm_of_effect ha (h.evicts _ _ hcall) hok
    exact h.congr he hr hc hl hcl
  | child hl hm hstep => exact h.congr he rfl rfl rfl rfl
  | close hlock => exact .of_called he rfl
  | closeNext hlock => exact .of_called he (h.called_of_locked (by simp [hlock]))
  | closeSkip hlock => exact .of_called he (h.called_of_locked (by simp [hlock]))
  | connClose hlock => exact .of_called he (h.called_of_locked (by simp [hlock]))
  | closeReturn hlock => exact .of_called he (h.called_of_locked (by simp [hlock]))
  | closerNone hk hr => exact .of_called he (h.called_of_closer hk)
  | closerRemove hk hr => exact .of_called he (h.called_of_closer hk)
  | closerClose hk hr => exact .of_called he (h.called_of_closer hk)
  | @disc l r d hr hl hd =>
    refine ⟨he, h.unlocked, h.closers, fun hn => ⟨_, rfl, ?_⟩⟩
    obtain ⟨r', hr', hsub⟩ := h.subscribed hn
    cases hr.symm.trans hr'
    refine hsub.step ?_ ?_ (Discovery.effect_of_step hd)
    · rintro rfl
      cases hl
    · rintro rfl
      cases hl

/-- **The subscription is kept.** In every calm run of a client with a discovery, until the user
calls `Close`, the channel of the client is open and in `chans`; so every later snapshot is sent to
it, and what is sent arrives as soon as there is room for it. -/
theorem subscription_kept {pairs : List KV} {s : Group.State V}
    (h : Reach (Group.step env cfg) (Calm cfg) (init (some pairs)) s) (hopen : s.called = false) :
    ∃ r, s.registryClient = some r ∧ Subscribed r.discovery r.ch ∧
      (∀ pairs, (r.ch, pairs) ∈ (receive r.discovery pairs).sends) ∧
      ∀ i pairs, r.discovery.sends[i]? = some (r.ch, pairs) →
        (r.discovery.channel r.ch).buffer.length < chanCap →
        ∃ d, send r.discovery i = some d ∧
          (d.channel r.ch).buffer = (r.discovery.channel r.ch).buffer ++ [pairs] := by
  have hk : Kept s := h.invariant (.init pairs) fun _ hk hok hs => hk.step hok (effect_of_step hs)
  obtain ⟨r, hr, hsub⟩ := hk.subscribed hopen
  exact ⟨r, hr, hsub, hsub.mem_receive, fun i pairs hi hroom => hsub.send_room hi hroom⟩

/-! ### Runs of one client -/

/-- Three retries, no heartbeats, no breaker. -/
def plainConfig (mode : FailMode) : Config := ⟨Machine.jsonOption, mode, 3, false, false⟩

/-- A `Call` that dials the server `s`, up to `CallDirect`. -/
def dialling : List (Group.Label (Option Bytes)) :=
  [.call 0, .act 0 (.select [115]), .act 0 .lookup, .act 0 (.dial (.ok 0)), .act 0 .next]

/-- The start of `CallDirect` in the `Call` `j`. -/
def callDirect (j : ℕ) (args : Option Bytes) : Group.Label (Option Bytes) :=
  .act j (.callDirect j ⟨none, none, false⟩ [65] [77] args (some []))

/-- The call is answered. -/
def answered : List (Group.Label (Option Bytes)) :=
  [callDirect 0 (some [97]), .child 0 (.act 0 (.prepare magicNumber)), .child 0 (.act 0 (.write ∅)),
    .child 0 (.act 0 (.free false)), .child 0 (.net (frame (emptyResponse 0) ∅)),
      .child 0 (.read .eof),
    .child 0 .respond, .child 0 (.act 0 .receive), .act 0 (.callReturn none)]

/-- The server hangs up before the call; the client is evicted. -/
def hungUp : List (Group.Label (Option Bytes)) :=
  [.child 0 (.read .eof), .child 0 .exit, callDirect 0 (some [97]), .child 0 (.act 0 .receive),
    .act 0 (.callReturn (some .errShutdown)), .act 0 .remove, .act 0 .closeChild]

/-- The server list of the runs. -/
def servers : List KV := [⟨[115], []⟩]

/-- A call that succeeds. -/
theorem subscription_kept_answered :
    ∃ s r, Reach (Group.step quoteEnv (plainConfig .failFast)) (Calm (plainConfig .failFast))
        (init (some servers)) s ∧ s.called = false ∧
          (s.calls 0).map (·.pc) = some (.returned none) ∧
      s.registryClient = some r ∧ Subscribed r.discovery r.ch := by
  have hrun : Reach (Group.step quoteEnv (plainConfig .failFast)) (Calm (plainConfig .failFast))
      (init (some servers)) _ :=
    reach_of_labels (dialling ++ answered)
      (by simp [dialling, answered, callDirect, Calm, Quiet]) rfl
  obtain ⟨r, hr, hsub, -⟩ := subscription_kept hrun rfl
  exact ⟨_, r, hrun, rfl, rfl, hr, hsub⟩

/-- A run of a client in the fail mode `mode` whose user has not called `Close`, and whose channel
is closed and not in `chans`, so that a later snapshot is sent to nobody. -/
def LosesSubscription (mode : FailMode) : Prop :=
  ∃ s r, Reach (Group.step quoteEnv (plainConfig mode)) Any (init (some servers)) s ∧
    s.called = false ∧ s.registryClient = some r ∧ r.ch ∉ r.discovery.chans ∧
    (r.discovery.channel r.ch).closed = true ∧ ∀ pairs, (receive r.discovery pairs).sends = []

/-- In every fail mode: the server hangs up, a call fails, the client is evicted, and the goroutine
that its `Close` starts ends the subscription of the user's client. -/
theorem subscription_lost :
    LosesSubscription .failFast ∧ LosesSubscription .failOver ∧ LosesSubscription .failTry := by
  refine ⟨?_, ?_, ?_⟩
  all_goals
    exact ⟨_, _, reach_of_exec (dialling ++ hungUp ++ [.closer 0, .closer 0]) rfl, rfl, rfl,
      List.not_mem_nil, rfl, fun _ => rfl⟩

/-! ### One connection -/

section Connection

variable {opt : Machine.ClientOption} {m m' : Machine.State V} {k : Machine.Label V}

/-- `close` was called, and no call is pending. -/
structure Drained (m : Machine.State V) : Prop where
  closing : m.closing = true
  pending : ∀ q, m.pending.lookup q = none

theorem closing_of_effect (h : Steps.Effect env opt m k m') (hk : k ≠ .close) :
    m'.closing = m.closing := by
  cases h with
  | act _ ha => cases ha <;> rfl
  | close => exact absurd rfl hk
  | _ => rfl

theorem connClosed_of_effect (h : Steps.Effect env opt m k m') (hc : m.connClosed = true) :
    m'.connClosed = true := by
  cases h with
  | act _ ha => cases ha <;> exact hc
  | connClose => rfl
  | _ => exact hc

theorem Drained.step (hd : Drained m) (h : Steps.Effect env opt m k m') : Drained m' where
  closing := by
    by_cases hk : k = .close
    · subst hk
      cases h
      simp [hd.closing]
    · rw [closing_of_effect h hk, hd.closing]
  pending q := by
    by_contra hne
    obtain ⟨d, hq⟩ := Option.ne_none_iff_exists'.mp hne
    rcases Steps.pending_cases h hq with hq | ⟨hopen, -⟩
    · rw [hd.pending q] at hq
      cases hq
    · simp [hd.closing] at hopen

theorem drained_of_close (hopen : m.shutdown = false) (h : Steps.Effect env opt m .close m') :
    Drained m' := by
  cases h
  exact ⟨by cases hc : m.closing <;> simp [hopen], fun q => by simp⟩

/-- A connection that was given up: `conn.Close` was called, nothing is pending, and every call was
completed or is in the hands of a goroutine that completes it next. -/
structure Discarded (m : Machine.State V) : Prop where
  connClosed : m.connClosed = true
  pending : ∀ q, m.pending.lookup q = none
  completed : m.registered ≤ 2 ^ 64 → ∀ d f, m.flights d = some f →
    f.delivered ≠ [] ∨ (ledger m).InHand d

theorem Discarded.of_drained (hr : Reach (Machine.step env opt) Any Machine.init m) (hd : Drained m)
    (hc : m.connClosed = true) : Discarded m where
  connClosed := hc
  pending := hd.pending
  completed hle d f hf := by
    have hissued : (ledger m).issued d := by simp [ledger, hf]
    rcases Sequence.covered_of_reach hr hle d hissued with ⟨q, hq⟩ | hh | hset
    · change m.pending.lookup q = some d at hq
      rw [hd.pending q] at hq
      cases hq
    · exact Or.inr hh
    · left
      simpa [ledger, deliveredTo, hf] using hset

end Connection

/-! ### The cache -/

section Cache

variable {opt : Machine.ClientOption} {children : ClientId → Option (Machine.State V)}
  {cache : AList fun _ : Bytes => ClientId} {locked : Option (Option Bytes)}

variable (env opt) in
/-- The clients of the cache are not closed, except for one that `Close` is about to; those outside
of it are. -/
structure Stored (children : ClientId → Option (Machine.State V))
    (cache : AList fun _ : Bytes => ClientId) (locked : Option (Option Bytes)) : Prop where
  reach : ∀ {i m}, children i = some m → Reach (Machine.step env opt) Any Machine.init m
  cached : ∀ {cname i}, cache.lookup cname = some i → ∃ m, children i = some m ∧
    (m.closing = false ∨ locked = some (some cname) ∧ Drained m)
  inj : ∀ {cname cname' i}, cache.lookup cname = some i → cache.lookup cname' = some i →
    cname = cname'
  outside : ∀ {i m}, children i = some m → (∀ cname, cache.lookup cname ≠ some i) →
    Drained m ∧ m.connClosed = true

variable {i : ClientId} {m m' : Machine.State V} {k : Machine.Label V} {cname : Bytes}

theorem Stored.empty : Stored env opt (fun _ => none) ∅ none where
  reach h := by cases h
  cached h := by simp at h
  inj h := by simp at h
  outside h := by cases h

/-- After a step of one connection every connection is one that a run leads to. -/
theorem Stored.reach_child (h : Stored env opt children cache locked) (hm : children i = some m)
    (hstep : Machine.step env opt m k = some m') {j : ClientId} {n : Machine.State V}
    (hj : Function.update children i (some m') j = some n) :
    Reach (Machine.step env opt) Any Machine.init n := by
  obtain ⟨-, rfl⟩ | ⟨-, hj⟩ := update_eq_some.mp hj
  · exact (h.reach hm).next hstep
  · exact h.reach hj

theorem Stored.child (h : Stored env opt children cache locked) (hm : children i = some m)
    (hk : k ≠ .close) (hstep : Machine.step env opt m k = some m') :
    Stored env opt (Function.update children i (some m')) cache locked := by
  have heff := Steps.effect_of_step hstep
  refine ⟨h.reach_child hm hstep, fun {cn j} hj => ?_, h.inj, fun {j n} hj hno => ?_⟩
  · obtain ⟨n, hn, hcase⟩ := h.cached hj
    by_cases hji : j = i
    · subst hji
      cases hm.symm.trans hn
      refine ⟨m', Function.update_self .., ?_⟩
      rcases hcase with hc | ⟨hl, hd⟩
      · exact Or.inl ((closing_of_effect heff hk).trans hc)
      · exact Or.inr ⟨hl, hd.step heff⟩
    · exact ⟨n, update_eq_some.mpr (Or.inr ⟨hji, hn⟩), hcase⟩
  · obtain ⟨rfl, rfl⟩ | ⟨-, hj⟩ := update_eq_some.mp hj
    · obtain ⟨hd, hc⟩ := h.outside hm hno
      exact ⟨hd.step heff, connClosed_of_effect heff hc⟩
    · exact h.outside hj hno

theorem Stored.dial (h : Stored env opt children cache locked) (hno : cache.lookup cname = none)
    (hnew : children i = none) :
    Stored env opt (Function.update children i (some Machine.init))
      (cache.insert cname i) locked := by
  have hfresh : ∀ {cn j}, cache.lookup cn = some j → j ≠ i := by
    rintro cn j hj rfl
    obtain ⟨n, hn, -⟩ := h.cached hj
    rw [hnew] at hn
    cases hn
  refine ⟨fun {j n} hj => ?_, fun {cn j} hj => ?_,
    fun {cn cn' j} hj hj' => ?_, fun {j n} hj hout => ?_⟩
  · obtain ⟨-, rfl⟩ | ⟨-, hj⟩ := update_eq_some.mp hj
    · exact .refl
    · exact h.reach hj
  · obtain ⟨-, rfl⟩ | ⟨-, hj⟩ := lookup_insert_eq_some.mp hj
    · exact ⟨Machine.init, Function.update_self .., Or.inl rfl⟩
    · obtain ⟨n, hn, hcase⟩ := h.cached hj
      exact ⟨n, update_eq_some.mpr (Or.inr ⟨hfresh hj, hn⟩), hcase⟩
  · obtain ⟨rfl, hji⟩ | ⟨-, hold⟩ := lookup_insert_eq_some.mp hj <;>
      obtain ⟨rfl, hji'⟩ | ⟨-, hold'⟩ := lookup_insert_eq_some.mp hj'
    · rfl
    · exact absurd hji (hfresh hold')
    · exact absurd hji' (hfresh hold)
    · exact h.inj hold hold'
  · obtain ⟨rfl, -⟩ | ⟨-, hj⟩ := update_eq_some.mp hj
    · exact absurd (AList.lookup_insert cache) (hout cname)
    · refine h.outside hj fun cn hcn => hout cn (lookup_insert_eq_some.mpr (Or.inr ⟨?_, hcn⟩))
      rintro rfl
      rw [hno] at hcn
      cases hcn

theorem Stored.relock {locked' : Option (Option Bytes)} (h : Stored env opt children cache locked)
    (hl : ∀ cname, locked ≠ some (some cname)) : Stored env opt children cache locked' := by
  refine ⟨h.reach, fun {cn j} hj => ?_, h.inj, h.outside⟩
  obtain ⟨n, hn, hc | ⟨hlock, -⟩⟩ := h.cached hj
  · exact ⟨n, hn, Or.inl hc⟩
  · exact absurd hlock (hl cn)

/-- `Close` calls `close` of a client in the cache that is not shut down. -/
theorem Stored.closeNext (h : Stored env opt children cache (some none))
    (hi : cache.lookup cname = some i) (hm : children i = some m) (hopen : m.shutdown = false)
    (hstep : Machine.step env opt m .close = some m') :
    Stored env opt (Function.update children i (some m')) cache (some (some cname)) := by
  refine ⟨h.reach_child hm hstep, fun {cn j} hj => ?_, h.inj, fun {j n} hj hno => ?_⟩
  · by_cases hji : j = i
    · subst hji
      cases h.inj hi hj
      have hd := drained_of_close hopen (Steps.effect_of_step hstep)
      exact ⟨m', Function.update_self .., Or.inr ⟨rfl, hd⟩⟩
    · obtain ⟨n, hn, hc | ⟨hlock, -⟩⟩ := h.cached hj
      · exact ⟨n, update_eq_some.mpr (Or.inr ⟨hji, hn⟩), Or.inl hc⟩
      · cases hlock
  · obtain ⟨rfl, -⟩ | ⟨-, hj⟩ := update_eq_some.mp hj
    · exact absurd hi (hno cname)
    · exact h.outside hj hno

/-- `conn.Close` of that client, which then leaves the cache. -/
theorem Stored.connClose (h : Stored env opt children cache (some (some cname)))
    (hi : cache.lookup cname = some i) (hm : children i = some m)
    (hstep : Machine.step env opt m .connClose = some m') :
    Stored env opt (Function.update children i (some m')) (cache.erase cname) (some none) := by
  have heff := Steps.effect_of_step hstep
  obtain ⟨hclosing, hclosed⟩ : m.closing = true ∧ m'.connClosed = true := by
    cases heff with
    | connClose hclosing => exact ⟨hclosing, rfl⟩
  have hdrained : Drained m := by
    obtain ⟨n, hn, hcase⟩ := h.cached hi
    cases hm.symm.trans hn
    rcases hcase with hc | ⟨-, hd⟩
    · simp [hclosing] at hc
    · exact hd
  refine ⟨h.reach_child hm hstep, fun {cn j} hj => ?_, fun {cn cn' j} hj hj' => ?_,
    fun {j n} hj hno => ?_⟩
  · obtain ⟨hne, hj⟩ := lookup_erase_eq_some.mp hj
    have hji : j ≠ i := by
      rintro rfl
      exact hne (h.inj hj hi)
    obtain ⟨n, hn, hc | ⟨hlock, -⟩⟩ := h.cached hj
    · exact ⟨n, update_eq_some.mpr (Or.inr ⟨hji, hn⟩), Or.inl hc⟩
    · cases hlock
      exact absurd rfl hne
  · exact h.inj (lookup_erase_eq_some.mp hj).2 (lookup_erase_eq_some.mp hj').2
  · obtain ⟨-, rfl⟩ | ⟨hji, hj⟩ := update_eq_some.mp hj
    · exact ⟨hdrained.step heff, hclosed⟩
    · refine h.outside hj fun cn hcn => hno cn (lookup_erase_eq_some.mpr ⟨?_, hcn⟩)
      rintro rfl
      cases hi.symm.trans hcn
      exact hji rfl

end Cache

/-! ### Every run -/

/-- The condition on the steps. No call evicts a client; `Close` is called on a client without a
connection of its own and after every `Call` has returned, `Connect` and `Call` are not called
afterwards; and no client that `Close` finds in the cache has been shut down. -/
def Disciplined (cfg : Config) (s : Group.State V) (l : Group.Label V) : Prop :=
  Calm cfg s l ∧
    match l with
    | .connect => s.called = false
    | .call _ => s.called = false
    | .close => s.own = none ∧ ∀ j call, s.calls j = some call → ∃ err, call.pc = .returned err
    | .closeNext cname => ∀ i m, s.cachedClient.lookup cname = some i → s.children i = some m →
      m.shutdown = false
    | _ => True

/-- The invariant of disciplined runs. -/
structure Tidy (env : Env V) (cfg : Config) (s : Group.State V) : Prop where
  evicts : NoneEvicts s
  stored : Stored env cfg.opt s.children s.cachedClient s.locked
  locked : s.locked ≠ none → s.called = true
  quiet : s.called = true → s.own = none ∧ ∀ j call, s.calls j = some call →
    ∃ err, call.pc = .returned err
  empty : s.closed = true → s.called = true ∧ ∀ cname, s.cachedClient.lookup cname = none

theorem Tidy.init (pairs : Option (List KV)) : Tidy env cfg (init pairs : Group.State V) where
  evicts _ _ h := by cases h
  stored := .empty
  locked h := absurd rfl h
  quiet h := by cases h
  empty h := by cases h

theorem Tidy.not_returned {j : ℕ} {call : Call} {a : Action V} (h : Tidy env cfg s)
    (hcall : s.calls j = some call) (ha : CallEffect env cfg s j call a t) : s.called = false := by
  by_contra hn
  obtain ⟨err, hpc⟩ := (h.quiet (by simpa using hn)).2 j call hcall
  cases ha with
  | move hmove => cases hmove <;> simp_all
  | _ => simp_all

/-- What a call does to the connections in a disciplined run. -/
theorem Stored.act {j : ℕ} {call : Call} {a : Action V}
    (h : Stored env cfg.opt s.children s.cachedClient s.locked) (hcall : ¬ Evicts call.pc)
    (ha : CallEffect env cfg s j call a t) :
    Stored env cfg.opt t.children t.cachedClient t.locked := by
  cases ha with
  | move hmove => exact h
  | dial hpc hlock hno hnew => exact h.dial hno hnew
  | callDirect hpc hm hstep => exact h.child hm (fun hk => by cases hk) hstep
  | @remove cname client hpc hlock =>
    cases client with
    | none =>
      rw [removeClient_none]
      exact h
    | some i =>
      rw [hpc] at hcall
      exact absurd trivial hcall
  | closeChild hpc hm hstep =>
    rw [hpc] at hcall
    exact absurd trivial hcall

/-- The connection of a client of the cache does not call `close` by itself. -/
theorem ne_close_of_ofChild {k : Machine.Label V} (hk : ofChild cfg k = true) : k ≠ .close := by
  rintro rfl
  cases hk

theorem Stored.step (h : Tidy env cfg s) (hok : Disciplined cfg s l) (hs : Effect env cfg s l t) :
    Stored env cfg.opt t.children t.cachedClient t.locked := by
  have hst := h.stored
  cases hs with
  | act hcall ha => exact hst.act (h.evicts _ _ hcall) ha
  | child hl hm hstep => exact hst.child hm (ne_close_of_ofChild hl) hstep
  | close hlock => exact hst.relock (by simp [hlock])
  | closeNext hlock hi hm hopen hstep =>
    rw [hlock] at hst
    exact hst.closeNext hi hm (hok.2 _ _ hi hm) hstep
  | @closeSkip cname i m m' hlock hi hm hopen hstep =>
    -- the client is not shut down, and nobody has closed it before
    obtain ⟨n, hn, hc | ⟨hl, -⟩⟩ := hst.cached hi
    · cases hm.symm.trans hn
      have hsd : m.shutdown = false := hok.2 i m hi hm
      simp [usable, hm, hc, hsd] at hopen
    · cases hlock.symm.trans hl
  | connClose hlock hi hm hstep =>
    rw [hlock] at hst
    exact hst.connClose hi hm hstep
  | closeReturn hlock hempty => exact hst.relock (by simp [hlock])
  | _ => exact hst

theorem Tidy.step (h : Tidy env cfg s) (hok : Disciplined cfg s l) (hs : Effect env cfg s l t) :
    Tidy env cfg t := by
  have he := h.evicts.step hok.1 hs
  have hst := Stored.step h hok hs
  cases hs with
  | connect hown =>
    have hn : s.called = false := hok.2
    exact ⟨he, hst, h.locked, fun hc => by simp [hn] at hc, h.empty⟩
  | own hown =>
    refine ⟨he, hst, h.locked, fun hc => ?_, h.empty⟩
    rw [(h.quiet hc).1] at hown
    cases hown
  | call hnew =>
    have hn : s.called = false := hok.2
    exact ⟨he, hst, h.locked, fun hc => by simp [State.setCall, hn] at hc, h.empty⟩
  | act hcall ha =>
    have hn := h.not_returned hcall ha
    obtain ⟨-, -, -, hl, hcl, hclosed⟩ := calm_of_effect ha (h.evicts _ _ hcall) hok.1
    refine ⟨he, hst, fun hne => ?_, fun hc => ?_, fun hc => ?_⟩
    · rw [hl] at hne
      rw [h.locked hne] at hn
      cases hn
    · rw [hcl, hn] at hc
      cases hc
    · rw [hclosed] at hc
      rw [(h.empty hc).1] at hn
      cases hn
  | child hl hm hstep => exact ⟨he, hst, h.locked, h.quiet, h.empty⟩
  | close hlock =>
    refine ⟨he, hst, fun _ => rfl, fun _ => ⟨?_, hok.2.2⟩, fun hc => ⟨rfl, (h.empty hc).2⟩⟩
    show s.own.map _ = none
    rw [hok.2.1]
    rfl
  | closeNext hlock => exact ⟨he, hst, fun _ => h.locked (by simp [hlock]), h.quiet, h.empty⟩
  | closeSkip hlock hi =>
    refine ⟨he, hst, h.locked, h.quiet, fun hc => ?_⟩
    rw [(h.empty hc).2] at hi
    cases hi
  | connClose hlock hi =>
    refine ⟨he, hst, fun _ => h.locked (by simp [hlock]), h.quiet, fun hc => ?_⟩
    rw [(h.empty hc).2] at hi
    cases hi
  | closeReturn hlock hempty =>
    have hc := h.locked (by simp [hlock])
    refine ⟨he, hst, fun hne => absurd rfl hne, h.quiet, fun _ => ⟨hc, fun cname => ?_⟩⟩
    simp [AList.lookup, hempty]
  | closerNone hk hr => exact ⟨he, hst, h.locked, h.quiet, h.empty⟩
  | closerRemove hk hr => exact ⟨he, hst, h.locked, h.quiet, h.empty⟩
  | closerClose hk hr => exact ⟨he, hst, h.locked, h.quiet, h.empty⟩
  | disc hr hl hd => exact ⟨he, hst, h.locked, h.quiet, h.empty⟩

theorem tidy_of_reach {pairs : Option (List KV)}
    (h : Reach (Group.step env cfg) (Disciplined cfg) (init pairs) s) : Tidy env cfg s :=
  h.invariant (.init pairs) fun _ ht hok hs => ht.step hok (effect_of_step hs)

/-- The same connections have been opened. -/
def SameConns (s t : Group.State V) : Prop :=
  t.own.isSome = s.own.isSome ∧ ∀ i, (t.children i).isSome = (s.children i).isSome

theorem SameConns.child {i : ClientId} {m m' : Machine.State V} (hm : s.children i = some m)
    (hown : t.own = s.own) (ht : t.children = Function.update s.children i (some m')) :
    SameConns s t := by
  refine ⟨by rw [hown], fun j => ?_⟩
  rw [ht, Function.update_apply]
  split_ifs with hj
  · rw [hj, hm]
    rfl
  · rfl

/-- After `Close` no step of a disciplined run opens a connection. -/
theorem SameConns.step (h : Tidy env cfg s) (hc : s.called = true) (hok : Disciplined cfg s l)
    (hs : Effect env cfg s l t) : SameConns s t ∧ t.called = true := by
  cases hs with
  | connect hown =>
    have hn : s.called = false := hok.2
    simp [hn] at hc
  | own hown =>
    rw [(h.quiet hc).1] at hown
    cases hown
  | call hnew =>
    have hn : s.called = false := hok.2
    simp [hn] at hc
  | act hcall ha =>
    rw [h.not_returned hcall ha] at hc
    cases hc
  | child hl hm hstep => exact ⟨.child hm rfl rfl, hc⟩
  | close hlock => exact ⟨⟨by simp, fun _ => rfl⟩, rfl⟩
  | closeNext hlock hi hm hopen hstep => exact ⟨.child hm rfl rfl, hc⟩
  | closeSkip hlock hi hm hopen hstep => exact ⟨.child hm rfl rfl, hc⟩
  | connClose hlock hi hm hstep => exact ⟨.child hm rfl rfl, hc⟩
  | _ => exact ⟨⟨rfl, fun _ => rfl⟩, hc⟩

/-- **Discarded connections are closed.** In every disciplined run, every connection of a client
that is not in the cache any more is closed and drained; after `Close` has returned so is every
connection of the user's client, and it opens no other. -/
theorem discarded_closed {pairs : Option (List KV)} {s : Group.State V}
    (h : Reach (Group.step env cfg) (Disciplined cfg) (init pairs) s) :
    (∀ i m, s.children i = some m → (∀ cname, s.cachedClient.lookup cname ≠ some i) → Discarded m) ∧
    (s.closed = true → (∀ m, s.own = some m → Discarded m) ∧
      (∀ i m, s.children i = some m → Discarded m) ∧
      ∀ t, Reach (Group.step env cfg) (Disciplined cfg) s t → SameConns s t) := by
  have ht := tidy_of_reach h
  have hout : ∀ i m, s.children i = some m → (∀ cname, s.cachedClient.lookup cname ≠ some i) →
      Discarded m := by
    intro i m hm hno
    obtain ⟨hd, hc⟩ := ht.stored.outside hm hno
    exact .of_drained (ht.stored.reach hm) hd hc
  refine ⟨hout, fun hclosed => ⟨fun m hm => ?_, fun i m hm => ?_, fun t hrun => ?_⟩⟩
  · rw [(ht.quiet (ht.empty hclosed).1).1] at hm
    cases hm
  · exact hout i m hm fun cname => by simp [(ht.empty hclosed).2 cname]
  · have hinv : SameConns s t ∧ t.called = true := by
      refine hrun.invariant (P := fun t => SameConns s t ∧ t.called = true)
        ⟨⟨rfl, fun _ => rfl⟩, (ht.empty hclosed).1⟩ ?_
      intro u v l hu ⟨hsame, hc⟩ hok hs
      obtain ⟨hsame', hc'⟩ := SameConns.step (tidy_of_reach (h.trans hu)) hc hok (effect_of_step hs)
      exact ⟨⟨hsame'.1.trans hsame.1, fun i => (hsame'.2 i).trans (hsame.2 i)⟩, hc'⟩
    exact hinv.1

/-- A call that succeeds, and `Close` after it. -/
theorem discarded_closed_answered :
    ∃ s m, Reach (Group.step quoteEnv (plainConfig .failFast)) (Disciplined (plainConfig .failFast))
        (init (some servers)) s ∧ s.closed = true ∧ s.children 0 = some m ∧ Discarded m := by
  have hcall : Reach (Group.step quoteEnv (plainConfig .failFast))
      (Disciplined (plainConfig .failFast))
      (init (some servers)) _ := .tail .refl ⟨trivial, rfl⟩ rfl (l := .call 0)
  have hanswered := hcall.trans (reach_of_labels (dialling.tail ++ answered)
    (by simp [dialling, answered, callDirect, Disciplined, Calm, Quiet]) rfl)
  have hclose : Reach _ (Disciplined (plainConfig .failFast)) (init (some servers)) _ :=
    hanswered.tail (l := .close) ⟨trivial, rfl, fun j call hj => by
      cases j with
      | zero => cases hj; exact ⟨_, rfl⟩
      | succ j => cases hj⟩ rfl
  have hnext : Reach _ (Disciplined (plainConfig .failFast)) (init (some servers)) _ :=
    hclose.tail (l := .closeNext [115]) ⟨trivial, fun i m hi hm => by cases hi; cases hm; rfl⟩ rfl
  have hrun : Reach (Group.step quoteEnv (plainConfig .failFast))
      (Disciplined (plainConfig .failFast))
      (init (some servers)) _ :=
    hnext.trans (reach_of_labels [.connClose, .closeReturn] (by simp [Disciplined, Calm]) rfl)
  exact ⟨_, _, hrun, rfl, rfl, ((discarded_closed hrun).2 rfl).2.1 0 _ rfl⟩

/-- A call that cannot be encoded evicts the client on which another call waits. -/
def sharedEvicted : List (Group.Label (Option Bytes)) :=
  [callDirect 0 (some [97]), .call 1, .act 1 (.select [115]), .act 1 .lookup, .act 1 .next,
    callDirect 1 none, .child 0 (.act 1 (.prepare magicNumber)), .child 0 (.act 1 .receive),
    .act 1 (.callReturn (some (.other (str "json: unsupported type: chan int")))), .act 1 .remove,
    .act 1 .closeChild]

/-- Connections that are not closed: that of an evicted client, on which a call is still pending;
that of a client on which `Connect` and `Close` were called; that of a client in the cache that was
shut down before `Close`. And a connection that `Call` opens after `Close`. -/
theorem discarded_open :
    (∃ s m f, Reach (Group.step quoteEnv (plainConfig .failFast)) Any (init (some servers)) s ∧
      s.children 0 = some m ∧ s.cachedClient.entries = [] ∧ m.connClosed = false ∧
      m.pending.lookup 0 = some 0 ∧ m.flights 0 = some f ∧ f.delivered = []) ∧
    (∃ s m, Reach (Group.step quoteEnv (plainConfig .failFast)) Any (init none) s ∧
      s.closed = true ∧ s.own = some m ∧ m.connClosed = false) ∧
    (∃ s m, Reach (Group.step quoteEnv (plainConfig .failFast)) Any (init (some servers)) s ∧
      s.closed = true ∧ s.children 0 = some m ∧ m.connClosed = false) ∧
    (∃ s t m, Reach (Group.step quoteEnv (plainConfig .failFast)) Any (init (some servers)) s ∧
      s.closed = true ∧ s.children 0 = none ∧
      Reach (Group.step quoteEnv (plainConfig .failFast)) Any s t ∧ t.children 0 = some m ∧
      m.connClosed = false) := by
  refine ⟨⟨_, _, _, reach_of_exec (dialling ++ sharedEvicted) rfl, rfl, rfl, rfl, rfl, rfl, rfl⟩,
    ⟨_, _, reach_of_exec [.connect, .close, .closeReturn] rfl, rfl, rfl, rfl⟩,
    ⟨_, _, reach_of_exec
      (dialling ++ [.child 0 (.read .eof), .child 0 .exit, .close, .closeNext [115],
      .closeReturn]) rfl, rfl, rfl, rfl⟩,
    ⟨_, _, _, reach_of_exec [.close, .closeReturn] rfl, rfl, rfl,
      reach_of_exec dialling rfl, rfl, rfl⟩⟩

end Frpc.Client.Evictions
