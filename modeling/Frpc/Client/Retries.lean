import Frpc.Client.Group
import Frpc.Lib.Runs

/-! # A call is a run of its fail mode

`Client/FailMod.lean` computes what a fail mode does from what it meets in each of its rounds. In
`Client/Group.lean` a `Call` takes its steps among those of all the other goroutines of the client.
In every run, what a `Call` has done is what the function of its fail mode computes from some rounds
(`call_of_failMod`), so what is proved about the loops holds for the calls of a client that others
use at the same time (`call_tries`).

The proof goes back from the end: `Ends` says which outcomes a `Call` may still come to, and a step
of the `Call` only narrows them down. -/

namespace Frpc.Client.Retries

open Frpc.Basic Frpc.Codecs Frpc.Lib.Runs Frpc.Client.FailMod Frpc.Client.Group

variable {V : Type} {env : Env V} {cfg : Config} {s t : Group.State V} {call call' : Call}

/-! ### What is seen of a call -/

/-- What a fail mode does to others. -/
inductive Event where
  /-- `CallDirect` has returned. -/
  | attempt (err : Option Error)
  /-- `removeClient` -/
  | remove (cname : Bytes) (client : Option ClientId)

/-- The outcome of a fail mode that has done something before. -/
def Event.cons : Event → Outcome → Outcome
  | .attempt err, o => { o with attempts := err :: o.attempts }
  | .remove cname client, o => { o with removed := (cname, client) :: o.removed }

/-- The outcome of a fail mode that has done all of `log` before. -/
def follow (log : List Event) (o : Outcome) : Outcome := log.foldr Event.cons o

theorem follow_append (log log' : List Event) (o : Outcome) :
    follow (log ++ log') o = follow log (follow log' o) := List.foldr_append

/-- What a step of a `Call` does to others. -/
def events (call : Call) : Action V → List Event
  | .callReturn err => [.attempt err]
  | .breaker err => [.attempt (some err)]
  | .remove =>
    match call.pc with
    | .remove cname client => [.remove cname client]
    | _ => []
  | _ => []

/-- What the `Call` `j` does to others. -/
def observe (j : ℕ) (s : Group.State V) (l : Group.Label V) (_ : Group.State V) : List Event :=
  match l with
  | .act k a => if k = j then ((s.calls j).map fun call => events call a).getD [] else []
  | _ => []

/-! ### What may still come -/

/-- The outcomes of a fail mode with `retries` rounds left, at the head of its loop with the server,
the client and the error `x`. -/
def Loop (cfg : Config) (retries : ℤ) (x : Bytes × Option ClientId × Option Error) (o : Outcome) :
    Prop :=
  match cfg.failMode with
  | .failFast => ∃ r i, x.2.1 = some i ∧ failFastCall r i x.1 = o
  | .failOver => ∃ rounds, retryLoop reselectOver rounds retries.toNat 0 x = o
  | .failTry => ∃ rounds, retryLoop reselectTry rounds retries.toNat 0 x = o

/-- The outcomes after `removeClient`. -/
def Rest (cfg : Config) (call : Call) (cname : Bytes) (o : Outcome) : Prop :=
  match cfg.failMode with
  | .failFast => o = ⟨[], [], call.err⟩
  | .failOver => ∃ r, Loop cfg call.retries (selectClient r) o
  | .failTry => ∃ r, Loop cfg call.retries (cname, getCachedClient r cname) o

/-- The outcomes after `CallDirect`. -/
def Settles (cfg : Config) (call : Call) (o : Outcome) : Prop :=
  match call.pc with
  | .returned err => o = ⟨[], [], err⟩
  | .remove cname client => ∃ o', Rest cfg call cname o' ∧ o = follow [.remove cname client] o'
  | .close cname _ => Rest cfg call cname o
  | _ => False

/-- The outcomes that a `Call` in its fail mode may come to. -/
def Ends (cfg : Config) (call : Call) (o : Outcome) : Prop :=
  match call.pc with
  | .select => ∃ r, Loop cfg call.retries (selectClient r) o
  | .lookup cname => ∃ r, Loop cfg call.retries (cname, getCachedClient r cname) o
  | .dial cname => ∃ r, Loop cfg call.retries (cname, getCachedClient r cname) o
  | .loop cname client => Loop cfg call.retries (cname, client, call.err) o
  | .attempt cname i =>
    ∃ err o', Settles cfg (call.attempted cfg cname i err) o' ∧ o = follow [.attempt err] o'
  | .calling cname i _ =>
    ∃ err o', Settles cfg (call.attempted cfg cname i err) o' ∧ o = follow [.attempt err] o'
  | _ => Settles cfg call o

/-! ### One round -/

section Round

variable {R : Round → Bytes → Bytes × Option ClientId × Option Error} {r : Round}
  {rounds : ℕ → Round} {n : ℕ} {cname : Bytes} {err : Option Error} {i : ClientId} {o : Outcome}

/-- One round more in front. -/
def consRound (r : Round) (rounds : ℕ → Round) : ℕ → Round
  | 0 => r
  | k + 1 => rounds k

theorem retryLoop_consRound (r : Round) (rounds : ℕ → Round) (n k : ℕ)
    (x : Bytes × Option ClientId × Option Error) :
    retryLoop R (consRound r rounds) n (k + 1) x = retryLoop R rounds n k x := by
  induction n generalizing k x with
  | zero => rfl
  | succ n ih =>
    obtain ⟨cname, client, err⟩ := x
    simp only [retryLoop, ih]
    rfl

theorem loop_success :
    ∃ rounds, retryLoop R rounds (n + 1) 0 (cname, some i, err) =
      follow [.attempt none] ⟨[], [], none⟩ :=
  ⟨fun _ => ⟨fun _ => none, [], fun _ => none, fun _ => none, fun _ => .ok 0⟩, rfl⟩

theorem loop_failure {e : Error} (hR : ∀ r f, R { r with callDirect := f } cname = R r cname)
    (h : retryLoop R rounds n 0 (R r cname) = o) :
    ∃ rounds, retryLoop R rounds (n + 1) 0 (cname, some i, err) =
      follow [.attempt (some e)] (follow [.remove cname (some i)] o) := by
  refine ⟨consRound { r with callDirect := fun _ => some e } rounds, ?_⟩
  simp only [retryLoop, retryLoop_consRound]
  simp only [consRound, hR, h]
  rfl

theorem loop_noClient (h : retryLoop R rounds n 0 (R r cname) = o) :
    ∃ rounds, retryLoop R rounds (n + 1) 0 (cname, none, err) = follow [.remove cname none] o := by
  refine ⟨consRound r rounds, ?_⟩
  simp only [retryLoop, retryLoop_consRound]
  simp only [consRound, h]
  rfl

end Round

/-! ### One step of a call -/

section Step

variable {cname : Bytes} {client : Option ClientId} {i : ClientId} {o : Outcome}

theorem ends_attempted {err : Option Error} (h : Ends cfg (call.attempted cfg cname i err) o) :
    Settles cfg (call.attempted cfg cname i err) o := by
  unfold Call.attempted at h ⊢
  split at h
  · exact h
  · split at h <;> exact h

theorem ends_goOn (h : Ends cfg (call.goOn cfg cname) o) : Rest cfg call cname o := by
  unfold Rest
  unfold Call.goOn at h
  cases hmode : cfg.failMode with
  | failFast =>
    rw [hmode] at h
    exact h
  | failOver =>
    rw [hmode] at h
    exact h
  | failTry =>
    rw [hmode] at h
    exact h

theorem fast_attempted {err : Option Error} (hmode : cfg.failMode = .failFast)
    (h : Settles cfg (call.attempted cfg cname i err) o) :
    ∃ r, failFastCall r i cname = follow [.attempt err] o := by
  refine ⟨⟨fun _ => err, [], fun _ => none, fun _ => none, fun _ => .ok 0⟩, ?_⟩
  cases err with
  | none =>
    cases h
    rfl
  | some e =>
    cases e with
    | serviceError text =>
      simp only [Call.attempted, hmode, Settles] at h
      subst h
      rfl
    | _ =>
      simp only [Call.attempted, hmode, Settles, Rest] at h
      obtain ⟨o', rfl, rfl⟩ := h
      rfl

/-- The other fail modes make an attempt in a round in which there is a client. -/
theorem loop_attempted {R : Round → Bytes → Bytes × Option ClientId × Option Error}
    {err e : Option Error}
    (hmode : cfg.failMode ≠ .failFast) (hR : ∀ r f, R { r with callDirect := f } cname = R r cname)
    (hrest : ∀ {call o}, Rest cfg call cname o →
      ∃ r rounds, retryLoop R rounds call.retries.toNat 0 (R r cname) = o)
    (h : Settles cfg (call.attempted cfg cname i err) o) :
    ∃ rounds, retryLoop R rounds (call.retries.toNat + 1) 0 (cname, some i, e) =
      follow [.attempt err] o := by
  cases err with
  | none =>
    cases h
    exact loop_success
  | some err =>
    have hpc : call.attempted cfg cname i (some err) =
        { call with err := some err, pc := .remove cname (some i) } := by
      simp only [Call.attempted]
      split
      · rename_i hfast
        exact absurd hfast hmode
      · rfl
    rw [hpc] at h
    obtain ⟨o', hrest', rfl⟩ := h
    obtain ⟨r, rounds, hloop⟩ := hrest hrest'
    exact loop_failure hR hloop

theorem loop_next {R : Round → Bytes → Bytes × Option ClientId × Option Error}
    (hmode : cfg.failMode ≠ .failFast) (hR : ∀ r f, R { r with callDirect := f } cname = R r cname)
    (hrest : ∀ {call o}, Rest cfg call cname o →
      ∃ r rounds, retryLoop R rounds call.retries.toNat 0 (R r cname) = o)
    (hnext : call.next cfg cname client = some call') (h : Ends cfg call' o) :
    ∃ rounds, retryLoop R rounds call.retries.toNat 0 (cname, client, call.err) = o := by
  unfold Call.next at hnext
  split at hnext
  · rename_i hfast
    exact absurd hfast hmode
  · split_ifs at hnext with hpos
    · have hn : call.retries.toNat = (call.retries - 1).toNat + 1 := by omega
      rw [hn]
      cases client with
      | some i =>
        cases hnext
        obtain ⟨err, o', hset, rfl⟩ := h
        exact loop_attempted hmode hR hrest hset
      | none =>
        cases hnext
        obtain ⟨o', hrest', rfl⟩ := h
        obtain ⟨r, rounds, hloop⟩ := hrest hrest'
        exact loop_noClient hloop
    · cases hnext
      cases h
      have hn : call.retries.toNat = 0 := by omega
      rw [hn]
      exact ⟨fun _ => ⟨fun _ => none, [], fun _ => none, fun _ => none, fun _ => .ok 0⟩, rfl⟩

theorem ends_next (hpc : call.pc = .loop cname client)
    (hnext : call.next cfg cname client = some call') (h : Ends cfg call' o) : Ends cfg call o := by
  unfold Ends
  rw [hpc]
  show Loop cfg call.retries (cname, client, call.err) o
  unfold Loop
  cases hmode : cfg.failMode with
  | failFast =>
    simp only [Call.next, hmode] at hnext
    obtain ⟨i, rfl, rfl⟩ := Option.map_eq_some_iff.mp hnext
    obtain ⟨err, o', hset, rfl⟩ := h
    obtain ⟨r, hr⟩ := fast_attempted hmode hset
    exact ⟨r, i, rfl, hr⟩
  | failOver =>
    refine loop_next (by simp [hmode]) (fun _ _ => rfl) (fun {call o} hrest => ?_) hnext h
    simp only [Rest, Loop, hmode] at hrest
    exact hrest
  | failTry =>
    refine loop_next (by simp [hmode]) (fun _ _ => rfl) (fun {call o} hrest => ?_) hnext h
    simp only [Rest, Loop, hmode] at hrest
    exact hrest

end Step

/-! ### A call in a run -/

/-- The places of a `Call` in front of its fail mode. -/
def Outside : CallPc → Prop
  | .select => True
  | .lookup _ => True
  | .dial _ => True
  | .returned _ => True
  | _ => False

/-- What a `Call` has done, and what it may still do, is what its fail mode does. -/
def Follows (cfg : Config) (call : Call) (log : List Event) : Prop :=
  match call.entered with
  | false => call.retries = cfg.retries ∧ log = [] ∧ Outside call.pc
  | true => ∃ cname client, ∀ o, Ends cfg call o →
      Loop cfg cfg.retries (cname, client, none) (follow log o)

section Run

variable {log : List Event} {cname : Bytes} {client : Option ClientId} {i : ClientId}

theorem follows_outside (h : call.entered = false) :
    Follows cfg call log ↔ call.retries = cfg.retries ∧ log = [] ∧ Outside call.pc := by
  rw [Follows, h]

theorem follows_entered (h : call.entered = true) :
    Follows cfg call log ↔
      ∃ cname client, ∀ o, Ends cfg call o →
        Loop cfg cfg.retries (cname, client, none) (follow log o) := by
  rw [Follows, h]

theorem Follows.entered (h : Follows cfg call log) (hpc : ¬ Outside call.pc) :
    call.entered = true := by
  by_contra hn
  exact hpc ((follows_outside (by simpa using hn)).mp h).2.2

theorem Follows.inside {ev : List Event} (h : Follows cfg call log) (hin : call.entered = true)
    (hin' : call'.entered = true) (he : ∀ o, Ends cfg call' o → Ends cfg call (follow ev o)) :
    Follows cfg call' (log ++ ev) := by
  obtain ⟨cname, client, hends⟩ := (follows_entered hin).mp h
  refine (follows_entered hin').mpr ⟨cname, client, fun o ho => ?_⟩
  rw [follow_append]
  exact hends _ (he o ho)

theorem Follows.goTo {pc : CallPc} (h : Follows cfg call log) (hpc : Outside pc)
    (he : ∀ o, Ends cfg { call with pc } o → Ends cfg call o) :
    Follows cfg { call with pc } log := by
  by_cases hin : call.entered = true
  · have hstep : Follows cfg { call with pc } (log ++ []) := h.inside hin hin he
    rwa [List.append_nil] at hstep
  · obtain ⟨hr, hlog, -⟩ := (follows_outside (by simpa using hin)).mp h
    refine (follows_outside ?_).mpr ⟨hr, hlog, hpc⟩
    simpa using hin

theorem Follows.got {err : Option Error} (h : Follows cfg call log)
    (he : ∀ o, Loop cfg call.retries (cname, client, err) o → Ends cfg call o) :
    Follows cfg (call.got cname client err) log := by
  unfold Call.got
  by_cases hin : call.entered = true
  · have hstep : Follows cfg { call with entered := true, err, pc := .loop cname client }
      (log ++ []) :=
      h.inside hin rfl he
    rw [List.append_nil] at hstep
    rwa [if_neg (by simp [hin])]
  · obtain ⟨hr, rfl, -⟩ := (follows_outside (by simpa using hin)).mp h
    split_ifs with herr
    · refine (follows_outside ?_).mpr ⟨hr, rfl, trivial⟩
      exact herr.1
    · obtain rfl : err = none := by simpa [hin] using herr
      refine (follows_entered rfl).mpr ⟨cname, client, fun o ho => ?_⟩
      rw [← hr]
      exact ho

theorem exists_getCachedClient_ok (cname : Bytes) (i : ClientId) :
    ∃ r, getCachedClient r cname = (some i, none) :=
  ⟨⟨fun _ => none, [], fun _ => none, fun _ => some i, fun _ => .ok 0⟩, rfl⟩

theorem exists_getCachedClient_error (cname : Bytes) (err : Error) :
    ∃ r, getCachedClient r cname = (none, some err) :=
  ⟨⟨fun _ => none, [], fun _ => none, fun _ => none, fun _ => .error err⟩, rfl⟩

theorem Follows.cached {err : Option Error} (h : Follows cfg call log)
    (hpc : call.pc = .lookup cname ∨ call.pc = .dial cname)
    (hr : ∃ r, getCachedClient r cname = (client, err)) :
    Follows cfg (call.got cname client err) log := by
  obtain ⟨r, hr⟩ := hr
  refine h.got fun o ho => ?_
  rw [← hr] at ho
  rcases hpc with hpc | hpc
  · rw [Ends, hpc]
    exact ⟨r, ho⟩
  · rw [Ends, hpc]
    exact ⟨r, ho⟩

theorem Follows.select (h : Follows cfg call log) (hpc : call.pc = .select) :
    Follows cfg (call.select cname) log := by
  unfold Call.select
  split_ifs with hname
  · refine h.got fun o ho => ?_
    rw [Ends, hpc]
    exact ⟨⟨fun _ => none, [], fun _ => none, fun _ => none, fun _ => .ok 0⟩, ho⟩
  · refine h.goTo trivial fun o ho => ?_
    rw [Ends, hpc]
    obtain ⟨r, hr⟩ := ho
    refine ⟨{ r with select := cname }, ?_⟩
    rw [selectClient, if_neg hname]
    exact hr

theorem Follows.lookup (h : Follows cfg call log) (hpc : call.pc = .lookup cname) :
    Follows cfg (call.lookup s cname) log := by
  have hdial : Follows cfg { call with pc := .dial cname } log := by
    refine h.goTo trivial fun o ho => ?_
    rw [Ends, hpc]
    exact ho
  unfold Call.lookup
  split
  · split_ifs
    · exact h.cached (Or.inl hpc) (exists_getCachedClient_ok cname _)
    · exact hdial
  · exact hdial

theorem Follows.attempted {err : Option Error} (h : Follows cfg call log)
    (hpc : call.pc = .attempt cname i ∨ ∃ c, call.pc = .calling cname i c) :
    Follows cfg (call.attempted cfg cname i err) (log ++ [.attempt err]) := by
  have hin : call.entered = true := by
    rcases hpc with hpc | ⟨c, hpc⟩ <;> exact h.entered (by rw [hpc]; exact id)
  have hin' : (call.attempted cfg cname i err).entered = true := by
    unfold Call.attempted
    split
    · exact hin
    · split <;> exact hin
  refine h.inside hin hin' fun o ho => ?_
  rcases hpc with hpc | ⟨c, hpc⟩ <;> rw [Ends, hpc] <;> exact ⟨err, o, ends_attempted ho, rfl⟩

theorem entered_next (hnext : call.next cfg cname client = some call') :
    call'.entered = call.entered := by
  unfold Call.next at hnext
  split at hnext
  · obtain ⟨i, -, rfl⟩ := Option.map_eq_some_iff.mp hnext
    rfl
  · split_ifs at hnext
    · split at hnext <;> cases hnext <;> rfl
    · cases hnext
      rfl

theorem entered_goOn : (call.goOn cfg cname).entered = call.entered := by
  unfold Call.goOn
  split <;> rfl

theorem Follows.move {a : Action V} (h : Follows cfg call log) (ha : CallMove cfg s call a call') :
    Follows cfg call' (log ++ events call a) := by
  cases ha with
  | select hpc => simpa [events] using h.select hpc
  | lookup hpc => simpa [events] using h.lookup hpc
  | cached hpc => simpa [events] using h.cached (Or.inr hpc) (exists_getCachedClient_ok _ _)
  | dialErr hpc => simpa [events] using h.cached (Or.inr hpc) (exists_getCachedClient_error _ _)
  | next hpc hnext =>
    have hin := h.entered (by rw [hpc]; exact id)
    exact h.inside hin ((entered_next hnext).trans hin) fun o ho => ends_next hpc hnext ho
  | callReturn hpc => exact h.attempted (Or.inr ⟨_, hpc⟩)
  | breaker _ hpc => exact h.attempted hpc

theorem calls_removeClient (cname : Bytes) (client : Option ClientId) :
    (removeClient s cname client).calls = s.calls := by
  unfold removeClient
  split_ifs <;> rfl

theorem Follows.step {j : ℕ} {a : Action V} (h : Follows cfg call log)
    (ha : CallEffect env cfg s j call a t) :
    ∃ call', t.calls = Function.update s.calls j (some call') ∧
      Follows cfg call' (log ++ events call a) := by
  cases ha with
  | move hmove => exact ⟨_, rfl, h.move hmove⟩
  | dial hpc =>
    refine ⟨_, rfl, ?_⟩
    simpa [events] using h.cached (Or.inr hpc) (exists_getCachedClient_ok _ _)
  | callDirect hpc =>
    have hin := h.entered (by rw [hpc]; exact id)
    refine ⟨_, rfl, h.inside hin hin fun o ho => ?_⟩
    rw [Ends, hpc]
    exact ho
  | @remove cname client hpc =>
    have hin := h.entered (by rw [hpc]; exact id)
    refine ⟨call.removed cfg cname client, by rw [State.setCall, calls_removeClient], ?_⟩
    have hev : events call (.remove : Action V) = [.remove cname client] := by simp [events, hpc]
    rw [hev]
    cases client with
    | none =>
      refine h.inside hin (entered_goOn.trans hin) fun o ho => ?_
      rw [Ends, hpc, Settles, hpc]
      exact ⟨o, ends_goOn ho, rfl⟩
    | some i =>
      refine h.inside hin hin fun o ho => ?_
      rw [Ends, hpc, Settles, hpc]
      exact ⟨o, ho, rfl⟩
  | closeChild hpc =>
    have hin := h.entered (by rw [hpc]; exact id)
    refine ⟨_, rfl, h.inside hin (entered_goOn.trans hin) fun o ho => ?_⟩
    rw [Ends, hpc, Settles, hpc]
    exact ends_goOn ho

end Run

theorem calls_of_effect {j : ℕ} {a : Action V} (ha : CallEffect env cfg s j call a t) :
    ∃ call', t.calls = Function.update s.calls j (some call') := by
  cases ha with
  | @remove cname client =>
    exact ⟨call.removed cfg cname client, by rw [State.setCall, calls_removeClient]⟩
  | _ => exact ⟨_, rfl⟩

theorem Follows.new (r : Option RegistryClient) : Follows cfg (newCall cfg r) [] := by
  cases r <;> exact ⟨rfl, rfl, trivial⟩

/-- The log has what the `Call` `j` has done. -/
structure Logged (cfg : Config) (j : ℕ) (s : Group.State V) (log : List Event) : Prop where
  new : s.calls j = none → log = []
  follows : ∀ {call}, s.calls j = some call → Follows cfg call log

theorem Logged.congr {j : ℕ} {log : List Event} (h : Logged cfg j s log)
    (hcalls : t.calls j = s.calls j) :
    Logged cfg j t log where
  new hn := h.new (hcalls ▸ hn)
  follows hcall := h.follows (hcalls ▸ hcall)

theorem Logged.step {j : ℕ} {l : Group.Label V} {log : List Event} (h : Logged cfg j s log)
    (hs : Effect env cfg s l t) : Logged cfg j t (log ++ observe j s l t) := by
  have hother : t.calls j = s.calls j → observe j s l t = [] →
      Logged cfg j t (log ++ observe j s l t) := by
    intro hcalls hobs
    rw [hobs, List.append_nil]
    exact h.congr hcalls
  cases hs with
  | @call k hnew =>
    by_cases hk : j = k
    · subst hk
      rw [h.new hnew]
      refine ⟨fun hn => ?_, fun {call} hcall => ?_⟩
      · cases (Function.update_self j _ s.calls).symm.trans hn
      · cases (Function.update_self j _ s.calls).symm.trans hcall
        exact .new _
    · exact hother (Function.update_of_ne hk ..) rfl
  | @act k call a _ hcall ha =>
    by_cases hk : j = k
    · subst hk
      obtain ⟨call', ht, hf⟩ := (h.follows hcall).step ha
      have hcalls : t.calls j = some call' := by rw [ht, Function.update_self]
      have hobs : observe j s (.act j a) t = events call a := by simp [observe, hcall]
      rw [hobs]
      refine ⟨fun hn => ?_, fun {call''} hcall'' => ?_⟩
      · cases hcalls.symm.trans hn
      · cases hcalls.symm.trans hcall''
        exact hf
    · obtain ⟨call', ht⟩ := calls_of_effect ha
      refine hother ?_ (if_neg fun hkj => hk hkj.symm)
      rw [ht, Function.update_of_ne hk]
  | _ => exact hother rfl rfl

/-! ### Every run -/

/-- `o` is an outcome of the fail mode of the client, entered with the server `cname` and a client
of it. -/
def FailModCall (cfg : Config) (cname : Bytes) (client : Option ClientId) (o : Outcome) : Prop :=
  match cfg.failMode with
  | .failFast => ∃ r i, client = some i ∧ failFastCall r i cname = o
  | .failOver => ∃ rounds, failOverCall rounds client cname cfg.retries = o
  | .failTry => ∃ rounds, failTryCall rounds client cname cfg.retries = o

/-- **A call is a run of its fail mode.** In every run of a client, a `Call` that has returned has
not entered the fail mode and has done nothing, or its attempts, its evictions and its error are
those that the fail mode computes from some rounds. -/
theorem call_of_failMod {pairs : Option (List Registry.Discovery.KV)} {j : ℕ} {log : List Event}
    {err : Option Error}
    (h : Reach (logged (Group.step env cfg) (observe j)) Any (Group.init pairs, []) (s, log))
    (hcall : s.calls j = some call) (hpc : call.pc = .returned err) :
    (call.entered = false ∧ log = []) ∨
      ∃ cname client, FailModCall cfg cname client (follow log ⟨[], [], err⟩) := by
  have hlogged : Logged cfg j s log := by
    refine h.invariant (P := fun x => Logged cfg j x.1 x.2) ⟨fun _ => rfl, fun hn => by cases hn⟩ ?_
    intro x y l _ hx _ hs
    obtain ⟨u, hu, rfl⟩ := logged_eq_some.mp hs
    exact hx.step (effect_of_step hu)
  have hf := hlogged.follows hcall
  by_cases hin : call.entered = true
  · obtain ⟨cname, client, hends⟩ := (follows_entered hin).mp hf
    refine Or.inr ⟨cname, client, hends _ ?_⟩
    rw [Ends, hpc, Settles, hpc]
  · have hout : call.entered = false := by simpa using hin
    exact Or.inl ⟨hout, ((follows_outside hout).mp hf).2.1⟩

/-- At most `retries` attempts, none after one that succeeds, and `nil` is returned if one
succeeds. -/
def Tries (retries : ℤ) (o : Outcome) : Prop :=
  o.attempts.length ≤ retries.toNat ∧ (∀ a ∈ o.attempts.dropLast, a ≠ none) ∧
    (none ∈ o.attempts → o.err = none)

theorem tries_retryLoop (R : Round → Bytes → Bytes × Option ClientId × Option Error)
    (rounds : ℕ → Round) (retries : ℤ) (cname : Bytes) (client : Option ClientId) :
    Tries retries (retryLoop R rounds retries.toNat 0 (cname, client, none)) := by
  have hok := retryLoop_ok R rounds (cname, client, none) retries.toNat 0
  refine ⟨hok.length_le, hok.stops, fun hnone => ?_⟩
  by_contra herr
  refine (hok.failure fun k hk hsucc => herr ?_).1 hnone
  exact (hok.success ⟨k, hk, hsucc⟩).2

/-- What holds for the loops holds for every `Call` of every run. -/
theorem call_tries {pairs : Option (List Registry.Discovery.KV)} {j : ℕ} {log : List Event}
    {err : Option Error} (hmode : cfg.failMode ≠ .failFast)
    (h : Reach (logged (Group.step env cfg) (observe j)) Any (Group.init pairs, []) (s, log))
    (hcall : s.calls j = some call) (hpc : call.pc = .returned err) :
    Tries cfg.retries (follow log ⟨[], [], err⟩) := by
  rcases call_of_failMod h hcall hpc with ⟨-, rfl⟩ | ⟨cname, client, hloop⟩
  · exact ⟨Nat.zero_le _, by simp [follow], by simp [follow]⟩
  · unfold FailModCall at hloop
    split at hloop
    · rename_i hfast
      exact absurd hfast hmode
    · obtain ⟨rounds, hrounds⟩ := hloop
      rw [← hrounds]
      exact tries_retryLoop _ _ _ _ _
    · obtain ⟨rounds, hrounds⟩ := hloop
      rw [← hrounds]
      exact tries_retryLoop _ _ _ _ _

end Frpc.Client.Retries
