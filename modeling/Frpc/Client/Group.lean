import Frpc.Client.FailMod
import Frpc.Client.Steps
import Frpc.Registry.Discovery

/-! # A client and the connections it keeps

`client/client.go`, `client/connection.go` and the fail modes, from the outside of the connections.
A user has a client, which may have a connection of its own (`Connect`) and keeps one client for
each server in `cachedClient` (`getCachedClient`). `Call` selects a server, takes or dials the
client of it, and leaves the rest to the fail mode, which evicts clients (`removeClient`). `Close`
closes the clients in the cache, and starts a goroutine that ends the subscription of the discovery.
A client of the cache is built with the `registryClient` of the user's client, so its own `Close`
ends the same subscription.

Every connection is a `Client.Machine`, the discovery is that of `Registry.Discovery`. A step is
what one goroutine does between two points at which another may interfere. What the selector chooses
and what a dial comes to is arbitrary. A panic in one connection stops only this connection here, so
the model has more runs than the program. -/

namespace Frpc.Client.Group

open Frpc.Basic Frpc.Codecs Frpc.Registry
open Frpc.Client.FailMod (ClientId)

/-- `core.FailMode` -/
inductive FailMode where
  | failFast
  | failOver
  | failTry

/-- What is configured before the first `Call`. -/
structure Config where
  opt : Machine.ClientOption
  failMode : FailMode
  retries : ℤ
  heartbeat : Bool
  breaker : Bool

/-- Where a `Call` stands. -/
inductive CallPc where
  /-- `selectClient`: `Select` comes next. -/
  | select
  /-- `getCachedClient`: the section under the read lock comes next. -/
  | lookup (cname : Bytes)
  /-- `getCachedClient`: the section under the write lock comes next. -/
  | dial (cname : Bytes)
  /-- The fail mode is at the head of its loop. -/
  | loop (cname : Bytes) (client : Option ClientId)
  /-- `CallDirect` comes next. -/
  | attempt (cname : Bytes) (client : ClientId)
  /-- `CallDirect` runs as the call `c` of the client. -/
  | calling (cname : Bytes) (client : ClientId) (c : Machine.CallId)
  /-- `removeClient`: the locked section comes next. -/
  | remove (cname : Bytes) (client : Option ClientId)
  /-- `removeClient`: `client.Close()` comes next. -/
  | close (cname : Bytes) (client : ClientId)
  /-- `Call` has returned. -/
  | returned (err : Option Error)

/-- A goroutine in `Call`: whether the fail mode has been entered, and its variables. -/
structure Call where
  entered : Bool
  retries : ℤ
  err : Option Error
  pc : CallPc

/-- The goroutine that `Close` starts, by what it does next. -/
inductive Closer where
  /-- `RemoveWatcher(ch)` -/
  | removeWatcher
  /-- `close(ch)` -/
  | close

/-- `type registryClient struct`, once it is set. -/
structure RegistryClient where
  discovery : Discovery.State
  ch : Discovery.ChanId

/-- A client of a user, with all its goroutines. -/
structure State (V : Type) where
  /-- The connection that `Connect` opened on this client. -/
  own : Option (Machine.State V)
  /-- All clients that were ever put into the cache. -/
  children : ClientId → Option (Machine.State V)
  cachedClient : AList fun _ : Bytes => ClientId
  calls : ℕ → Option Call
  registryClient : Option RegistryClient
  closers : List Closer
  /-- Whether `Close` is in its locked section, and the server whose `conn.Close` comes next
  there. -/
  locked : Option (Option Bytes)
  /-- The user has called `Close`. -/
  called : Bool
  /-- `Close` has returned. -/
  closed : Bool

/-- What a goroutine in `Call` does. -/
inductive Action (V : Type) where
  /-- `Select`, which returns `cname`. -/
  | select (cname : Bytes)
  /-- The section under the read lock. -/
  | lookup
  /-- The section under the write lock. If there is no client in the cache, `Connect` fails, or
  opens the connection of a new client. -/
  | dial (r : Except Error ClientId)
  /-- The head of the loop. -/
  | next
  /-- The start of `CallDirect`. -/
  | callDirect (c : Machine.CallId) (ctx : Machine.Context) (servicePath serviceMethod : Bytes)
    (args reply : V)
  /-- `CallDirect` returns what `call` returned. -/
  | callReturn (err : Option Error)
  /-- `CallDirect` returns an error of the breaker. -/
  | breaker (err : Error)
  /-- The locked section of `removeClient`. -/
  | remove
  /-- `client.Close()` in `removeClient`. -/
  | closeChild

/-- The steps. -/
inductive Label (V : Type) where
  /-- `Connect`, if it succeeds. -/
  | connect
  /-- The connection of the client itself. -/
  | own (l : Machine.Label V)
  /-- `Call`, up to `Select`. -/
  | call (j : ℕ)
  /-- A later step of the `Call` `j`. -/
  | act (j : ℕ) (a : Action V)
  /-- The connection of a client of the cache. -/
  | child (i : ClientId) (l : Machine.Label V)
  /-- `Close`, up to the loop. -/
  | close
  /-- A round of the loop of `Close`: `close` of the client of `cname`, up to `conn.Close`. -/
  | closeNext (cname : Bytes)
  /-- `conn.Close`, and the end of the round. -/
  | connClose
  /-- The end of `Close`. -/
  | closeReturn
  /-- The `k`-th goroutine that a `Close` has started. -/
  | closer (k : ℕ)
  /-- The goroutines of the discovery, and `watch`. -/
  | disc (l : Discovery.Label)

variable {V : Type}

/-! ### Calls -/

/-- `Call`, up to `Select`. -/
def newCall (cfg : Config) : Option RegistryClient → Call
  | none => ⟨false, cfg.retries, none,
      .returned (some (.other (str "please set registryClient first,or use callDirect")))⟩
  | some _ => ⟨false, cfg.retries, none, .select⟩

/-- What `selectClient` or `getCachedClient` returns. In front of the fail mode an error ends
`Call`: the fail modes are pointers, so the type assertion to `FailFastMod` always fails. -/
def Call.got (call : Call) (cname : Bytes) (client : Option ClientId) (err : Option Error) : Call :=
  if call.entered = false ∧ err.isSome then { call with pc := .returned err }
  else { call with entered := true, err, pc := .loop cname client }

/-- `selectClient`, up to `getCachedClient`. -/
def Call.select (call : Call) (cname : Bytes) : Call :=
  if cname = [] then call.got [] none (some .errClientNoServer)
    else { call with pc := .lookup cname }

/-- The head of the loop of a fail mode, up to `CallDirect` or `removeClient`. `FailFastMod` has no
loop. -/
def Call.next (cfg : Config) (call : Call) (cname : Bytes) (client : Option ClientId) :
    Option Call :=
  match cfg.failMode with
  | .failFast => client.map fun i => { call with pc := .attempt cname i }
  | _ =>
    if 0 < call.retries then
      let call := { call with retries := call.retries - 1 }
      match client with
      | some i => some { call with pc := .attempt cname i }
      | none => some { call with pc := .remove cname none }
    else some { call with pc := .returned call.err }

/-- What a fail mode does with the result of `CallDirect`. -/
def Call.attempted (cfg : Config) (call : Call) (cname : Bytes) (client : ClientId) :
    Option Error → Call
  | none => { call with pc := .returned none }
  | some err =>
    match cfg.failMode, err with
    | .failFast, .serviceError _ => { call with pc := .returned (some err) }
    | _, _ => { call with err := some err, pc := .remove cname (some client) }

/-- How a fail mode goes on after `removeClient`. -/
def Call.goOn (cfg : Config) (call : Call) (cname : Bytes) : Call :=
  match cfg.failMode with
  | .failFast => { call with pc := .returned call.err }
  | .failOver => { call with pc := .select }
  | .failTry => { call with pc := .lookup cname }

/-- `removeClient`, up to `client.Close()`. -/
def Call.removed (cfg : Config) (call : Call) (cname : Bytes) : Option ClientId → Call
  | none => call.goOn cfg cname
  | some i => { call with pc := .close cname i }

/-! ### Steps -/

/-- Set the state of a `Call`. -/
def State.setCall (s : State V) (j : ℕ) (call : Call) : State V :=
  { s with calls := Function.update s.calls j (some call) }

/-- A step of the connection of a client of the cache. -/
def stepChild (env : Env V) (cfg : Config) (s : State V) (i : ClientId) (l : Machine.Label V) :
    Option (State V) :=
  (s.children i).bind fun m => (Machine.step env cfg.opt m l).map fun m' =>
    { s with children := Function.update s.children i (some m') }

/-- `!client.closing && !client.shutdown` -/
def usable (s : State V) (i : ClientId) : Bool :=
  (s.children i).any fun m => !m.closing && !m.shutdown

/-- The section of `getCachedClient` under the read lock. -/
def Call.lookup (s : State V) (call : Call) (cname : Bytes) : Call :=
  match s.cachedClient.lookup cname with
  | some i => if usable s i then call.got cname (some i) none else { call with pc := .dial cname }
  | none => { call with pc := .dial cname }

/-- The section of `getCachedClient` under the write lock. -/
def dial (s : State V) (j : ℕ) (call : Call) (cname : Bytes) (r : Except Error ClientId) :
    Option (State V) :=
  match s.cachedClient.lookup cname with
  | some i => some (s.setCall j (call.got cname (some i) none))
  | none =>
    match r with
    | .error err => some (s.setCall j (call.got cname none (some err)))
    | .ok i =>
      if (s.children i).isNone then
        some { s.setCall j (call.got cname (some i) none) with
          children := Function.update s.children i (some Machine.init)
          cachedClient := s.cachedClient.insert cname i }
      else none

/-- The locked section of `removeClient`. -/
def removeClient (s : State V) (cname : Bytes) (client : Option ClientId) : State V :=
  if s.cachedClient.lookup cname = client
    then { s with cachedClient := s.cachedClient.erase cname } else s

/-- What the `call` of `c` has returned, if it has. -/
def resultOf (s : State V) (i : ClientId) (c : Machine.CallId) : Option (Option Error) :=
  (s.children i).bind fun m => (m.flights c).bind fun f =>
    match f.wait with
    | .returned err => some err
    | _ => none

/-- The steps of the `Call` `j`. -/
def stepCall (env : Env V) (cfg : Config) (s : State V) (j : ℕ) (call : Call) :
    Action V → Option (State V)
  | .select cname =>
    match call.pc with
    | .select => some (s.setCall j (call.select cname))
    | _ => none
  | .lookup =>
    match call.pc, s.locked with
    | .lookup cname, none => some (s.setCall j (call.lookup s cname))
    | _, _ => none
  | .dial r =>
    match call.pc, s.locked with
    | .dial cname, none => dial s j call cname r
    | _, _ => none
  | .next =>
    match call.pc with
    | .loop cname client => (call.next cfg cname client).map (s.setCall j)
    | _ => none
  | .callDirect c ctx servicePath serviceMethod args reply =>
    match call.pc with
    | .attempt cname i =>
      (stepChild env cfg s i (.send c true ctx servicePath serviceMethod args reply)).map fun s =>
        s.setCall j { call with pc := .calling cname i c }
    | _ => none
  | .callReturn err =>
    match call.pc with
    | .calling cname i c =>
      if resultOf s i c = some err then some (s.setCall j (call.attempted cfg cname i err))
        else none
    | _ => none
  | .breaker err =>
    if cfg.breaker then
      match call.pc with
      | .attempt cname i => some (s.setCall j (call.attempted cfg cname i (some err)))
      | .calling cname i _ => some (s.setCall j (call.attempted cfg cname i (some err)))
      | _ => none
    else none
  | .remove =>
    match call.pc, s.locked with
    | .remove cname client, none =>
      some ((removeClient s cname client).setCall j (call.removed cfg cname client))
    | _, _ => none
  | .closeChild =>
    match call.pc with
    | .close cname i =>
      -- the client has no cache, and shares the discovery and the channel
      (stepChild env cfg s i .closeClient).map fun s =>
        { s.setCall j (call.goOn cfg cname) with closers := s.closers ++ [.removeWatcher] }
    | _ => none

/-- The steps of a connection that the functions above do not take. -/
def ofConnection : Machine.Label V → Bool
  | .close | .connClose | .closeClient => false
  | _ => true

/-- The steps that the connection of a client of the cache takes by itself: only `heartbeat` sends
there. -/
def ofChild (cfg : Config) : Machine.Label V → Bool
  | .send _ viaCall _ servicePath serviceMethod _ _ =>
    cfg.heartbeat && viaCall && servicePath.isEmpty && serviceMethod.isEmpty
  | l => ofConnection l

/-- A round of the loop of `Close`, up to `conn.Close`. If there is nothing to close, it ends. -/
def closeNext (env : Env V) (cfg : Config) (s : State V) (cname : Bytes) : Option (State V) :=
  (s.cachedClient.lookup cname).bind fun i =>
    (stepChild env cfg s i .close).map fun t =>
      if usable s i then { t with locked := some (some cname) }
      else { t with cachedClient := t.cachedClient.erase cname }

/-- The rest of the round. -/
def connClose (env : Env V) (cfg : Config) (s : State V) (cname : Bytes) : Option (State V) :=
  (s.cachedClient.lookup cname).bind fun i =>
    (stepChild env cfg s i .connClose).map fun t =>
      { t with cachedClient := t.cachedClient.erase cname, locked := some none }

/-- A goroutine that a `Close` has started. Without a discovery it panics, and the panic is
recovered. -/
def stepCloser (s : State V) (k : ℕ) : Option (State V) :=
  (s.closers[k]?).map fun closer =>
    match s.registryClient, closer with
    | none, _ => { s with closers := s.closers.eraseIdx k }
    | some r, .removeWatcher =>
      { s with
        registryClient := some { r with discovery := Discovery.removeWatcher r.discovery r.ch }
        closers := s.closers.set k .close }
    | some r, .close =>
      { s with
        registryClient := some { r with discovery := Discovery.closeChan r.discovery r.ch }
        closers := s.closers.eraseIdx k }

/-- The steps of the discovery itself, and of `watch`. Nobody else has this discovery. -/
def ofDiscovery (ch : Discovery.ChanId) : Discovery.Label → Bool
  | .receive _ | .send _ | .giveUp _ => true
  | .take ch' => ch' == ch
  | _ => false

/-- One step. -/
def step (env : Env V) (cfg : Config) (s : State V) : Label V → Option (State V)
  | .connect =>
    match s.own with
    | none => some { s with own := some { Machine.init with shutdown := s.called } }
    | some _ => none
  | .own l =>
    s.own.bind fun m =>
      if ofConnection l then
        (Machine.step env cfg.opt m l).map fun m' => { s with own := some m' }
      else none
  | .call j =>
    match s.calls j with
    | none => some (s.setCall j (newCall cfg s.registryClient))
    | some _ => none
  | .act j a => (s.calls j).bind fun call => stepCall env cfg s j call a
  | .child i l => if ofChild cfg l then stepChild env cfg s i l else none
  | .close =>
    match s.locked with
    | none =>
      some { s with
        own := s.own.map fun m => { m with shutdown := true }
        locked := some none
        called := true }
    | some _ => none
  | .closeNext cname =>
    match s.locked with
    | some none => closeNext env cfg s cname
    | _ => none
  | .connClose =>
    match s.locked with
    | some (some cname) => connClose env cfg s cname
    | _ => none
  | .closeReturn =>
    if s.locked = some none ∧ s.cachedClient.entries = [] then
      some { s with locked := none, closed := true, closers := s.closers ++ [.removeWatcher] }
    else none
  | .closer k => stepCloser s k
  | .disc l =>
    s.registryClient.bind fun r =>
      if ofDiscovery r.ch l then
        (Discovery.step r.discovery l).map fun d =>
          { s with registryClient := some { r with discovery := d } }
      else none

/-- A new client, with a discovery that has listed `pairs`, or without one. -/
def init (pairs : Option (List Discovery.KV)) : State V where
  own := none
  children _ := none
  cachedClient := ∅
  calls _ := none
  registryClient := pairs.map fun pairs => ⟨Discovery.watchService (Discovery.init pairs), 0⟩
  closers := []
  locked := none
  called := false
  closed := false

/-! ### What a step does -/

section Effects

variable (env : Env V) (cfg : Config) (s : State V)

/-- What a goroutine in `Call` does if it changes only its own variables. -/
inductive CallMove (call : Call) : Action V → Call → Prop
  | select {cname : Bytes} (hpc : call.pc = .select) :
      CallMove call (.select cname) (call.select cname)
  | lookup {cname : Bytes} (hpc : call.pc = .lookup cname) (hlock : s.locked = none) :
      CallMove call .lookup (call.lookup s cname)
  | cached {cname : Bytes} {i : ClientId} {r : Except Error ClientId} (hpc : call.pc = .dial cname)
      (hlock : s.locked = none) (hi : s.cachedClient.lookup cname = some i) :
      CallMove call (.dial r) (call.got cname (some i) none)
  | dialErr {cname : Bytes} {err : Error} (hpc : call.pc = .dial cname) (hlock : s.locked = none)
      (hno : s.cachedClient.lookup cname = none) :
      CallMove call (.dial (.error err)) (call.got cname none (some err))
  | next {cname : Bytes} {client : Option ClientId} {call' : Call}
      (hpc : call.pc = .loop cname client)
      (hnext : call.next cfg cname client = some call') : CallMove call .next call'
  | callReturn {cname : Bytes} {i : ClientId} {c : Machine.CallId} {err : Option Error}
      (hpc : call.pc = .calling cname i c) (hres : resultOf s i c = some err) :
      CallMove call (.callReturn err) (call.attempted cfg cname i err)
  | breaker {cname : Bytes} {i : ClientId} {err : Error} (hcfg : cfg.breaker = true)
      (hpc : call.pc = .attempt cname i ∨ ∃ c, call.pc = .calling cname i c) :
      CallMove call (.breaker err) (call.attempted cfg cname i (some err))

/-- What a goroutine in `Call` does. -/
inductive CallEffect (j : ℕ) (call : Call) : Action V → State V → Prop
  | move {a : Action V} {call' : Call} (hmove : CallMove cfg s call a call') :
      CallEffect j call a (s.setCall j call')
  | dial {cname : Bytes} {i : ClientId} (hpc : call.pc = .dial cname) (hlock : s.locked = none)
      (hno : s.cachedClient.lookup cname = none) (hnew : s.children i = none) :
      CallEffect j call (.dial (.ok i))
        { s.setCall j (call.got cname (some i) none) with
          children := Function.update s.children i (some Machine.init)
          cachedClient := s.cachedClient.insert cname i }
  | callDirect {cname : Bytes} {i : ClientId} {c : Machine.CallId} {ctx : Machine.Context}
      {p q : Bytes} {args reply : V} {m m' : Machine.State V} (hpc : call.pc = .attempt cname i)
      (hm : s.children i = some m)
      (hstep : Machine.step env cfg.opt m (.send c true ctx p q args reply) = some m') :
      CallEffect j call (.callDirect c ctx p q args reply)
        { s.setCall j { call with pc := .calling cname i c } with
          children := Function.update s.children i (some m') }
  | remove {cname : Bytes} {client : Option ClientId} (hpc : call.pc = .remove cname client)
      (hlock : s.locked = none) :
      CallEffect j call .remove
        ((removeClient s cname client).setCall j (call.removed cfg cname client))
  | closeChild {cname : Bytes} {i : ClientId} {m m' : Machine.State V}
      (hpc : call.pc = .close cname i)
      (hm : s.children i = some m) (hstep : Machine.step env cfg.opt m .closeClient = some m') :
      CallEffect j call .closeChild
        { s.setCall j (call.goOn cfg cname) with
          children := Function.update s.children i (some m')
          closers := s.closers ++ [.removeWatcher] }

/-- What a step does. -/
inductive Effect : Label V → State V → Prop
  | connect (hown : s.own = none) :
      Effect .connect { s with own := some { Machine.init with shutdown := s.called } }
  | own {l : Machine.Label V} {m m' : Machine.State V} (hown : s.own = some m)
      (hl : ofConnection l = true) (hstep : Machine.step env cfg.opt m l = some m') :
      Effect (.own l) { s with own := some m' }
  | call {j : ℕ} (hnew : s.calls j = none) :
      Effect (.call j) (s.setCall j (newCall cfg s.registryClient))
  | act {j : ℕ} {call : Call} {a : Action V} {t : State V} (hcall : s.calls j = some call)
      (ha : CallEffect env cfg s j call a t) : Effect (.act j a) t
  | child {i : ClientId} {l : Machine.Label V} {m m' : Machine.State V} (hl : ofChild cfg l = true)
      (hm : s.children i = some m) (hstep : Machine.step env cfg.opt m l = some m') :
      Effect (.child i l) { s with children := Function.update s.children i (some m') }
  | close (hlock : s.locked = none) :
      Effect .close
        { s with
          own := s.own.map fun m => { m with shutdown := true }
          locked := some none
          called := true }
  | closeNext {cname : Bytes} {i : ClientId} {m m' : Machine.State V} (hlock : s.locked = some none)
      (hi : s.cachedClient.lookup cname = some i) (hm : s.children i = some m)
      (hopen : usable s i = true) (hstep : Machine.step env cfg.opt m .close = some m') :
      Effect (.closeNext cname)
        { s with children := Function.update s.children i (some m'), locked := some (some cname) }
  | closeSkip {cname : Bytes} {i : ClientId} {m m' : Machine.State V} (hlock : s.locked = some none)
      (hi : s.cachedClient.lookup cname = some i) (hm : s.children i = some m)
      (hopen : usable s i = false) (hstep : Machine.step env cfg.opt m .close = some m') :
      Effect (.closeNext cname)
        { s with
          children := Function.update s.children i (some m')
          cachedClient := s.cachedClient.erase cname }
  | connClose {cname : Bytes} {i : ClientId} {m m' : Machine.State V}
      (hlock : s.locked = some (some cname)) (hi : s.cachedClient.lookup cname = some i)
      (hm : s.children i = some m) (hstep : Machine.step env cfg.opt m .connClose = some m') :
      Effect .connClose
        { s with
          children := Function.update s.children i (some m')
          cachedClient := s.cachedClient.erase cname
          locked := some none }
  | closeReturn (hlock : s.locked = some none) (hempty : s.cachedClient.entries = []) :
      Effect .closeReturn
        { s with locked := none, closed := true, closers := s.closers ++ [.removeWatcher] }
  | closerNone {k : ℕ} {closer : Closer} (hk : s.closers[k]? = some closer)
      (hr : s.registryClient = none) : Effect (.closer k) { s with closers := s.closers.eraseIdx k }
  | closerRemove {k : ℕ} {r : RegistryClient} (hk : s.closers[k]? = some .removeWatcher)
      (hr : s.registryClient = some r) :
      Effect (.closer k)
        { s with
          registryClient := some { r with discovery := Discovery.removeWatcher r.discovery r.ch }
          closers := s.closers.set k .close }
  | closerClose {k : ℕ} {r : RegistryClient} (hk : s.closers[k]? = some .close)
      (hr : s.registryClient = some r) :
      Effect (.closer k)
        { s with
          registryClient := some { r with discovery := Discovery.closeChan r.discovery r.ch }
          closers := s.closers.eraseIdx k }
  | disc {l : Discovery.Label} {r : RegistryClient} {d : Discovery.State}
      (hr : s.registryClient = some r) (hl : ofDiscovery r.ch l = true)
      (hd : Discovery.step r.discovery l = some d) :
      Effect (.disc l) { s with registryClient := some { r with discovery := d } }

variable {env cfg s} {t : State V}

theorem stepChild_eq_some {i : ClientId} {l : Machine.Label V} :
    stepChild env cfg s i l = some t ↔ ∃ m m', s.children i = some m ∧
      Machine.step env cfg.opt m l = some m' ∧
      t = { s with children := Function.update s.children i (some m') } := by
  simp only [stepChild, Option.bind_eq_some_iff, Option.map_eq_some_iff, eq_comm (b := t)]
  constructor
  · rintro ⟨m, hm, m', hstep, rfl⟩
    exact ⟨m, m', hm, hstep, rfl⟩
  · rintro ⟨m, m', hm, hstep, rfl⟩
    exact ⟨m, hm, m', hstep, rfl⟩

theorem callEffect_of_stepCall {j : ℕ} {call : Call} {a : Action V}
    (h : stepCall env cfg s j call a = some t) : CallEffect env cfg s j call a t := by
  cases a with
  | select cname =>
    simp only [stepCall] at h
    split at h
    · rename_i hpc
      cases h
      exact .move (.select hpc)
    · cases h
  | lookup =>
    simp only [stepCall] at h
    split at h
    · rename_i cname hpc hlock
      cases h
      exact .move (.lookup hpc hlock)
    · cases h
  | dial r =>
    simp only [stepCall] at h
    split at h
    · rename_i cname hpc hlock
      unfold dial at h
      split at h
      · rename_i i hi
        cases h
        exact .move (.cached hpc hlock hi)
      · rename_i hno
        split at h
        · cases h
          exact .move (.dialErr hpc hlock hno)
        · split_ifs at h with hnew
          cases h
          exact .dial hpc hlock hno (Option.isNone_iff_eq_none.mp hnew)
    · cases h
  | next =>
    simp only [stepCall] at h
    split at h
    · rename_i cname client hpc
      obtain ⟨call', hnext, rfl⟩ := Option.map_eq_some_iff.mp h
      exact .move (.next hpc hnext)
    · cases h
  | callDirect c ctx p q args reply =>
    simp only [stepCall] at h
    split at h
    · rename_i cname i hpc
      obtain ⟨u, hu, rfl⟩ := Option.map_eq_some_iff.mp h
      obtain ⟨m, m', hm, hstep, rfl⟩ := stepChild_eq_some.mp hu
      exact .callDirect hpc hm hstep
    · cases h
  | callReturn err =>
    simp only [stepCall] at h
    split at h
    · rename_i cname i c hpc
      split_ifs at h with hres
      cases h
      exact .move (.callReturn hpc hres)
    · cases h
  | breaker err =>
    simp only [stepCall] at h
    split_ifs at h with hcfg
    split at h
    · rename_i cname i hpc
      cases h
      exact .move (.breaker hcfg (Or.inl hpc))
    · rename_i cname i c hpc
      cases h
      exact .move (.breaker hcfg (Or.inr ⟨c, hpc⟩))
    · cases h
  | remove =>
    simp only [stepCall] at h
    split at h
    · rename_i cname client hpc hlock
      cases h
      exact .remove hpc hlock
    · cases h
  | closeChild =>
    simp only [stepCall] at h
    split at h
    · rename_i cname i hpc
      obtain ⟨u, hu, rfl⟩ := Option.map_eq_some_iff.mp h
      obtain ⟨m, m', hm, hstep, rfl⟩ := stepChild_eq_some.mp hu
      exact .closeChild hpc hm hstep
    · cases h

theorem effect_of_closeNext {cname : Bytes} (hlock : s.locked = some none)
    (h : closeNext env cfg s cname = some t) : Effect env cfg s (.closeNext cname) t := by
  obtain ⟨i, hi, h⟩ := Option.bind_eq_some_iff.mp h
  obtain ⟨u, hu, rfl⟩ := Option.map_eq_some_iff.mp h
  obtain ⟨m, m', hm, hstep, rfl⟩ := stepChild_eq_some.mp hu
  by_cases hopen : usable s i = true
  · rw [if_pos hopen]
    exact .closeNext hlock hi hm hopen hstep
  · rw [if_neg hopen]
    exact .closeSkip hlock hi hm (by simpa using hopen) hstep

theorem effect_of_stepCloser {k : ℕ} (h : stepCloser s k = some t) :
    Effect env cfg s (.closer k) t := by
  obtain ⟨closer, hk, rfl⟩ := Option.map_eq_some_iff.mp h
  split
  · rename_i hr
    exact .closerNone hk hr
  · rename_i r hr
    exact .closerRemove hk hr
  · rename_i r hr
    exact .closerClose hk hr

theorem effect_of_step {l : Label V} (h : step env cfg s l = some t) : Effect env cfg s l t := by
  cases l with
  | connect =>
    simp only [step] at h
    split at h
    · rename_i hown
      cases h
      exact .connect hown
    · cases h
  | own l =>
    obtain ⟨m, hm, h⟩ := Option.bind_eq_some_iff.mp h
    split_ifs at h with hl
    obtain ⟨m', hstep, rfl⟩ := Option.map_eq_some_iff.mp h
    exact .own hm hl hstep
  | call j =>
    simp only [step] at h
    split at h
    · rename_i hnew
      cases h
      exact .call hnew
    · cases h
  | act j a =>
    obtain ⟨call, hcall, h⟩ := Option.bind_eq_some_iff.mp h
    exact .act hcall (callEffect_of_stepCall h)
  | child i l =>
    simp only [step] at h
    split_ifs at h with hl
    obtain ⟨m, m', hm, hstep, rfl⟩ := stepChild_eq_some.mp h
    exact .child hl hm hstep
  | close =>
    simp only [step] at h
    split at h
    · rename_i hlock
      cases h
      exact .close hlock
    · cases h
  | closeNext cname =>
    simp only [step] at h
    split at h
    · rename_i hlock
      exact effect_of_closeNext hlock h
    · cases h
  | connClose =>
    simp only [step] at h
    split at h
    · rename_i cname hlock
      obtain ⟨i, hi, h⟩ := Option.bind_eq_some_iff.mp h
      obtain ⟨u, hu, rfl⟩ := Option.map_eq_some_iff.mp h
      obtain ⟨m, m', hm, hstep, rfl⟩ := stepChild_eq_some.mp hu
      exact .connClose hlock hi hm hstep
    · cases h
  | closeReturn =>
    simp only [step] at h
    split_ifs at h with hc
    cases h
    exact .closeReturn hc.1 hc.2
  | closer k => exact effect_of_stepCloser h
  | disc l =>
    obtain ⟨r, hr, h⟩ := Option.bind_eq_some_iff.mp h
    split_ifs at h with hl
    obtain ⟨d, hd, rfl⟩ := Option.map_eq_some_iff.mp h
    exact .disc hr hl hd

end Effects

end Frpc.Client.Group
