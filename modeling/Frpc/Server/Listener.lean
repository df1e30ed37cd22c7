import Frpc.Lib.Runs
import Frpc.Lib.Tables
import Frpc.Server.Machine
import Mathlib.Data.Finset.Basic

/-! # The listener of a server

`server/server.go`: `serveListener`, the start and the end of `serveConn`, and `Close`; the
controllers of `server/server_controller.go` that decide on a new connection. One goroutine accepts
connections. It puts each into `activeConn`, asks the controllers, and starts a goroutine that
serves it. That goroutine takes the connection from `activeConn` when it ends, and closes it.
`Close` closes the listener and all connections in `activeConn`. What happens on a connection is a
`Server.Machine`.

A step is what one goroutine does between two points at which another may interfere. A section under
the mutex is one step, except for that of `Close`: `closing` says where it stands, and nobody else
gets the mutex meanwhile.

A connection that the controllers reject stays in `activeConn`; nothing else does that should not
(`activeConn_exact`). `Close` does not see a connection that is on its way into `activeConn` or out
of it; where there is none it stops the server (`close_stops`). -/

namespace Frpc.Server.Listener

open Frpc.Basic Frpc.Codecs Frpc.Lib.Runs Frpc.Lib.Tables Frpc.Server.Machine

/-- A `net.Conn`. -/
abbrev ConnId := ℕ

/-! ### Controllers -/

/-- The controllers. A `RateLimit` has a bucket with so many tokens. -/
inductive Controller where
  | metric
  | trace
  | rateLimit (capacity available : ℕ)

/-- `Controller.HandleConn`. A `RateLimit` takes a token if there is one. -/
def Controller.handleConn : Controller → Bool × Controller
  | .metric => (true, .metric)
  | .trace => (true, .trace)
  | .rateLimit capacity available =>
    if 0 < available then (true, .rateLimit capacity (available - 1))
    else (false, .rateLimit capacity available)

/-- `controllerServer.HandleConn`: the controllers are asked until one rejects the connection. -/
def handleConn : List Controller → Bool × List Controller
  | [] => (true, [])
  | m :: ms =>
    match m.handleConn with
    | (false, m) => (false, m :: ms)
    | (true, m) =>
      let (ok, ms) := handleConn ms
      (ok, m :: ms)

/-- Time passes, and `n` tokens come into a bucket. -/
def Controller.fill (n : ℕ) : Controller → Controller
  | .rateLimit capacity available => .rateLimit capacity (min capacity (available + n))
  | m => m

/-! ### States -/

/-- Where `serveListener` stands. -/
inductive Loop where
  /-- The listener has still to be stored. -/
  | starting
  /-- `Accept` comes next. -/
  | accepting
  /-- `Accept` has returned a connection, which has still to be put into `activeConn`. -/
  | inserting (c : ConnId)
  /-- The controllers are asked next. -/
  | deciding (c : ConnId)
  | returned
deriving DecidableEq

/-- Where `serveConn` stands. -/
inductive ServePc where
  | running
  /-- The connection was taken from `activeConn`, `conn.Close` comes next. -/
  | deleted
  | finished
deriving DecidableEq

/-- A connection, and its `serveConn`, once it was started. -/
structure Conn (V : Type) where
  machine : Machine.State V
  serve : Option ServePc

/-- Where `Close` stands. -/
inductive Closing where
  /-- `ln.Close` comes next. -/
  | listener
  /-- The loop. -/
  | conns
deriving DecidableEq

/-- A server with all its goroutines. -/
structure State (V : Type) where
  loop : Loop
  /-- `Accept` of the listener fails because it was closed. -/
  lnClosed : Bool
  conns : ConnId → Option (Conn V)
  activeConn : Finset ConnId
  controllers : List Controller
  /-- `doneChan` is closed. -/
  done : Bool
  closing : Option Closing
  /-- A call of `Close` has returned. -/
  closed : Bool

/-- The steps. -/
inductive Label (V : Type) where
  /-- The start of `serveListener`. -/
  | listen
  /-- `Accept` returns a connection, over which the bytes `d` will come in. -/
  | accept (c : ConnId) (d : Bytes)
  /-- `Accept` returns an error, which may be temporary. -/
  | acceptErr (temporary : Bool)
  /-- The connection is put into `activeConn`. -/
  | insert
  /-- The controllers are asked, and `serveConn` is started if they agree. -/
  | decide
  /-- A bucket is filled. -/
  | fill (k n : ℕ)
  /-- A step of `serveConn` and its handlers. -/
  | conn (c : ConnId) (l : Machine.Label V)
  /-- The end of `serveConn`: the connection is taken from `activeConn`, -/
  | delete (c : ConnId)
  /-- and closed. -/
  | connClose (c : ConnId)
  /-- `Close`, up to `ln.Close`. -/
  | close
  /-- `ln.Close`, if there is a listener. -/
  | closeListener
  /-- A round of the loop of `Close`. -/
  | closeConn (c : ConnId)
  /-- The end of `Close`. -/
  | closeReturn

variable {V T : Type}

/-- Set a connection. -/
def State.setConn (s : State V) (c : ConnId) (conn : Conn V) : State V :=
  { s with conns := Function.update s.conns c (some conn) }

/-- `conn.Close()` -/
def Conn.close (conn : Conn V) : Conn V :=
  { conn with machine := { conn.machine with connClosed := true } }

/-- The steps of a connection that the functions above do not take. -/
def ofConn : Machine.Label V → Bool
  | .close => false
  | _ => true

/-- One step. -/
def step (env : Env V) (srv : Config V T) (s : State V) : Label V → Option (State V)
  | .listen =>
    if s.loop = .starting ∧ s.closing = none then some { s with loop := .accepting } else none
  | .accept c d =>
    if s.loop = .accepting ∧ s.lnClosed = false ∧ (s.conns c).isNone then
      some { s.setConn c ⟨{ Machine.init with inp := d }, none⟩ with loop := .inserting c }
    else none
  | .acceptErr temporary =>
    -- the step is the `select`; `getDoneChan` in front of it waits for the mutex and returns the
    -- one channel
    if s.loop = .accepting then
      if s.done = false ∧ temporary = true then some s else some { s with loop := .returned }
    else none
  | .insert =>
    match s.loop, s.closing with
    | .inserting c, none => some { s with activeConn := insert c s.activeConn, loop := .deciding c }
    | _, _ => none
  | .decide =>
    match s.loop with
    | .deciding c =>
      (s.conns c).map fun conn =>
        match handleConn s.controllers with
        | (true, ms) => { s.setConn c { conn with serve := some .running } with
            loop := .accepting
            controllers := ms }
        -- the entry of `activeConn` stays
        | (false, ms) => { s.setConn c conn.close with
            loop := .accepting
            controllers := ms }
    | _ => none
  | .fill k n => some { s with controllers := s.controllers.modify k (Controller.fill n) }
  | .conn c l =>
    (s.conns c).bind fun conn =>
      if conn.serve.isSome ∧ ofConn l then
        (Machine.step env srv conn.machine l).map fun m => s.setConn c { conn with machine := m }
      else none
  | .delete c =>
    (s.conns c).bind fun conn =>
      if conn.serve = some .running ∧ conn.machine.returned ∧ s.closing = none then
        some { s.setConn c { conn with serve := some .deleted } with
          activeConn := s.activeConn.erase c }
      else none
  | .connClose c =>
    (s.conns c).bind fun conn =>
      if conn.serve = some .deleted then
        some (s.setConn c { conn.close with serve := some .finished })
      else none
  | .close => if s.closing = none then some { s with done := true, closing := some .listener }
      else none
  | .closeListener =>
    if s.closing = some .listener then
      -- without a listener there is nothing to close
      some { s with lnClosed := s.lnClosed || decide (s.loop ≠ .starting), closing := some .conns }
    else none
  | .closeConn c =>
    (s.conns c).bind fun conn =>
      if s.closing = some .conns ∧ c ∈ s.activeConn then
        some { s.setConn c conn.close with activeConn := s.activeConn.erase c }
      else none
  | .closeReturn =>
    if s.closing = some .conns ∧ s.activeConn = ∅
      then some { s with closing := none, closed := true }
    else none

/-- A new server. -/
def init (controllers : List Controller) : State V where
  loop := .starting
  lnClosed := false
  conns _ := none
  activeConn := ∅
  controllers
  done := false
  closing := none
  closed := false

/-! ### What a step does -/

/-- The step function, inverted. -/
inductive Effect (env : Env V) (srv : Config V T) (s : State V) : Label V → State V → Prop
  | listen (hloop : s.loop = .starting) (hfree : s.closing = none) :
      Effect env srv s .listen { s with loop := .accepting }
  | accept {c : ConnId} {d : Bytes} (hloop : s.loop = .accepting) (hopen : s.lnClosed = false)
      (hnew : s.conns c = none) :
      Effect env srv s (.accept c d)
        { s.setConn c ⟨{ Machine.init with inp := d }, none⟩ with loop := .inserting c }
  | retry : Effect env srv s (.acceptErr true) s
  | stop {temporary : Bool} (hloop : s.loop = .accepting) :
      Effect env srv s (.acceptErr temporary) { s with loop := .returned }
  | insert {c : ConnId} (hloop : s.loop = .inserting c) (hfree : s.closing = none) :
      Effect env srv s .insert { s with activeConn := insert c s.activeConn, loop := .deciding c }
  | serve {c : ConnId} {conn : Conn V} {ms : List Controller} (hloop : s.loop = .deciding c)
      (hc : s.conns c = some conn) (hok : handleConn s.controllers = (true, ms)) :
      Effect env srv s .decide
        { s.setConn c { conn with
          serve := some .running } with loop := .accepting, controllers := ms }
  | reject {c : ConnId} {conn : Conn V} {ms : List Controller} (hloop : s.loop = .deciding c)
      (hc : s.conns c = some conn) (hno : handleConn s.controllers = (false, ms)) :
      Effect env srv s .decide { s.setConn c conn.close with loop := .accepting, controllers := ms }
  | fill {k n : ℕ} :
      Effect env srv s (.fill k n)
        { s with controllers := s.controllers.modify k (Controller.fill n) }
  | conn {c : ConnId} {l : Machine.Label V} {conn : Conn V} {m : Machine.State V}
      (hc : s.conns c = some conn) (hserve : conn.serve ≠ none) (hl : ofConn l = true)
      (hm : Machine.step env srv conn.machine l = some m) :
      Effect env srv s (.conn c l) (s.setConn c { conn with machine := m })
  | delete {c : ConnId} {conn : Conn V} (hc : s.conns c = some conn)
      (hserve : conn.serve = some .running)
      (hret : conn.machine.returned = true) (hfree : s.closing = none) :
      Effect env srv s (.delete c)
        { s.setConn c { conn with serve := some .deleted } with activeConn := s.activeConn.erase c }
  | connClose {c : ConnId} {conn : Conn V} (hc : s.conns c = some conn)
      (hserve : conn.serve = some .deleted) :
      Effect env srv s (.connClose c) (s.setConn c { conn.close with serve := some .finished })
  | close (hfree : s.closing = none) :
      Effect env srv s .close { s with done := true, closing := some .listener }
  | closeListener (hclosing : s.closing = some .listener) :
      Effect env srv s .closeListener
        { s with lnClosed := s.lnClosed || decide (s.loop ≠ .starting), closing := some .conns }
  | closeConn {c : ConnId} {conn : Conn V} (hc : s.conns c = some conn)
      (hclosing : s.closing = some .conns) (hmem : c ∈ s.activeConn) :
      Effect env srv s (.closeConn c)
        { s.setConn c conn.close with activeConn := s.activeConn.erase c }
  | closeReturn (hclosing : s.closing = some .conns) (hempty : s.activeConn = ∅) :
      Effect env srv s .closeReturn { s with closing := none, closed := true }

section Steps

variable {env : Env V} {srv : Config V T} {s t : State V} {l : Label V}

theorem effect_of_step (h : step env srv s l = some t) : Effect env srv s l t := by
  cases l with
  | listen =>
    simp only [step] at h
    split_ifs at h with hc
    cases h
    exact .listen hc.1 hc.2
  | accept c d =>
    simp only [step] at h
    split_ifs at h with hc
    cases h
    exact .accept hc.1 hc.2.1 (Option.isNone_iff_eq_none.mp hc.2.2)
  | acceptErr temporary =>
    simp only [step] at h
    split_ifs at h with hloop htemp
    · obtain ⟨-, rfl⟩ := htemp
      cases h
      exact .retry
    · cases h
      exact .stop hloop
  | insert =>
    simp only [step] at h
    split at h
    · rename_i c hloop hfree
      cases h
      exact .insert hloop hfree
    · cases h
  | decide =>
    simp only [step] at h
    split at h
    · rename_i c hloop
      obtain ⟨conn, hc, rfl⟩ := Option.map_eq_some_iff.mp h
      split
      · rename_i ms hok
        exact .serve hloop hc hok
      · rename_i ms hno
        exact .reject hloop hc hno
    · cases h
  | fill k n =>
    cases h
    exact .fill
  | conn c l =>
    obtain ⟨conn, hc, h⟩ := Option.bind_eq_some_iff.mp h
    split_ifs at h with hcond
    obtain ⟨m, hm, rfl⟩ := Option.map_eq_some_iff.mp h
    exact .conn hc (Option.isSome_iff_ne_none.mp hcond.1) hcond.2 hm
  | delete c =>
    obtain ⟨conn, hc, h⟩ := Option.bind_eq_some_iff.mp h
    split_ifs at h with hcond
    cases h
    exact .delete hc hcond.1 hcond.2.1 hcond.2.2
  | connClose c =>
    obtain ⟨conn, hc, h⟩ := Option.bind_eq_some_iff.mp h
    split_ifs at h with hserve
    cases h
    exact .connClose hc hserve
  | close =>
    simp only [step] at h
    split_ifs at h with hfree
    cases h
    exact .close hfree
  | closeListener =>
    simp only [step] at h
    split_ifs at h with hclosing
    cases h
    exact .closeListener hclosing
  | closeConn c =>
    obtain ⟨conn, hc, h⟩ := Option.bind_eq_some_iff.mp h
    split_ifs at h with hcond
    cases h
    exact .closeConn hc hcond.1 hcond.2
  | closeReturn =>
    simp only [step] at h
    split_ifs at h with hcond
    cases h
    exact .closeReturn hcond.1 hcond.2

theorem connClosed_of_step {m m' : Machine.State V} {k : Machine.Label V} (hk : ofConn k = true)
    (h : Machine.step env srv m k = some m') : m'.connClosed = m.connClosed := by
  cases Machine.effect_of_step h with
  | close => cases hk
  | _ => rfl

theorem setConn_eq_some {c c' : ConnId} {conn conn' : Conn V} :
    (s.setConn c conn).conns c' = some conn' ↔
      (c' = c ∧ conn' = conn) ∨ (c' ≠ c ∧ s.conns c' = some conn') :=
  update_eq_some

theorem setConn_of_ne {c c' : ConnId} {conn : Conn V} (hne : c' ≠ c) :
    (s.setConn c conn).conns c' = s.conns c' :=
  Function.update_of_ne hne _ _

theorem setConn_self {c : ConnId} {conn : Conn V} : (s.setConn c conn).conns c = some conn :=
  Function.update_self _ _ _

/-! ### Each connection is a run of its machine -/

/-- A step accepts a connection, leaves its machine alone, or is a step of its machine. -/
theorem machine_of_step (hs : step env srv s l = some t) {c : ConnId} {conn' : Conn V}
    (hc' : t.conns c = some conn') :
    (∃ d, conn'.machine = { Machine.init with inp := d }) ∨
      ∃ conn, s.conns c = some conn ∧
        (conn'.machine = conn.machine ∨
          ∃ k, Machine.step env srv conn.machine k = some conn'.machine) := by
  cases effect_of_step hs with
  | @accept c d hloop hopen hnew =>
    obtain ⟨rfl, rfl⟩ | ⟨-, hold⟩ := setConn_eq_some.mp hc'
    · exact .inl ⟨d, rfl⟩
    · exact .inr ⟨conn', hold, .inl rfl⟩
  | serve _ hc _ | delete hc _ _ _ =>
    obtain ⟨rfl, rfl⟩ | ⟨-, hold⟩ := setConn_eq_some.mp hc'
    · exact .inr ⟨_, hc, .inl rfl⟩
    · exact .inr ⟨conn', hold, .inl rfl⟩
  | reject _ hc _ | connClose hc _ | closeConn hc _ _ =>
    obtain ⟨rfl, rfl⟩ | ⟨-, hold⟩ := setConn_eq_some.mp hc'
    · exact .inr ⟨_, hc, .inr ⟨.close, rfl⟩⟩
    · exact .inr ⟨conn', hold, .inl rfl⟩
  | conn hc _ _ hm =>
    obtain ⟨rfl, rfl⟩ | ⟨-, hold⟩ := setConn_eq_some.mp hc'
    · exact .inr ⟨_, hc, .inr ⟨_, hm⟩⟩
    · exact .inr ⟨conn', hold, .inl rfl⟩
  | _ => exact .inr ⟨conn', hc', .inl rfl⟩

/-- **Every connection is a run of the server's machine**, on the bytes that come in over it. -/
theorem reach_machine {ms : List Controller} (h : Reach (step env srv) Any (init ms) t) {c : ConnId}
    {conn : Conn V} (hc : t.conns c = some conn) :
    ∃ d, Reach (Machine.step env srv) Any { Machine.init with inp := d } conn.machine := by
  induction h generalizing conn with
  | refl => cases hc
  | tail _ _ hs ih =>
    obtain ⟨d, hnew⟩ | ⟨conn₀, hold, hsame | ⟨k, hk⟩⟩ := machine_of_step hs hc
    · rw [hnew]
      exact ⟨d, .refl⟩
    · rw [hsame]
      exact ih hold
    · obtain ⟨d, hd⟩ := ih hold
      exact ⟨d, hd.next hk⟩

end Steps

/-! ### Where the connections are -/

/-- What holds in every state of every run. -/
structure Inv (s : State V) : Prop where
  known : ∀ c ∈ s.activeConn, (s.conns c).isSome
  /-- A connection that is about to be put into `activeConn` is open and not in it. -/
  inserting : ∀ c, s.loop = .inserting c → c ∉ s.activeConn ∧
    ∃ conn, s.conns c = some conn ∧ conn.serve = none ∧ conn.machine.connClosed = false
  deciding : ∀ c, s.loop = .deciding c → ∃ conn, s.conns c = some conn ∧ conn.serve = none
  /-- An open connection is in `activeConn`, still to be put into it, or about to be closed. -/
  accounted : ∀ c conn, s.conns c = some conn → conn.machine.connClosed = false →
    c ∈ s.activeConn ∨ s.loop = .inserting c ∨ conn.serve = some .deleted
  /-- `Close` has closed the listener, unless there was none yet. -/
  listener : s.closing = some .conns → s.lnClosed = true ∨ s.loop = .starting

theorem inv_init {ms : List Controller} : Inv (init ms : State V) where
  known _ hc := absurd hc (Finset.notMem_empty _)
  inserting _ hloop := nomatch hloop
  deciding _ hloop := nomatch hloop
  accounted _ _ hc := nomatch hc
  listener hclosing := nomatch hclosing

section Inv

variable {env : Env V} {srv : Config V T} {s t : State V} {l : Label V}

theorem known_of_step (hI : Inv s) (hs : step env srv s l = some t) :
    ∀ c ∈ t.activeConn, (t.conns c).isSome := by
  intro c' hmem
  cases effect_of_step hs with
  | insert hloop hfree =>
    rcases Finset.mem_insert.mp hmem with rfl | hmem
    · obtain ⟨-, conn, hc, -⟩ := hI.inserting _ hloop
      exact Option.isSome_of_eq_some hc
    · exact hI.known c' hmem
  | accept | serve | reject | conn | connClose => exact isSome_update _ (hI.known c' hmem)
  | delete | closeConn => exact isSome_update _ (hI.known c' (Finset.mem_of_mem_erase hmem))
  | _ => exact hI.known c' hmem

/-- A connection that is not served is not the one whose `serveConn` moves. -/
theorem ne_of_serve {c c' : ConnId} {conn conn' : Conn V} (hc : s.conns c = some conn)
    (hserve : conn.serve ≠ none) (hc' : s.conns c' = some conn') (hnone : conn'.serve = none) :
    c' ≠ c := by
  rintro rfl
  rw [hc'] at hc
  cases hc
  exact hserve hnone

theorem inserting_of_step (hI : Inv s) (hs : step env srv s l = some t) :
    ∀ c, t.loop = .inserting c → c ∉ t.activeConn ∧
      ∃ conn, t.conns c = some conn ∧ conn.serve = none ∧ conn.machine.connClosed = false := by
  intro c' hloop'
  cases effect_of_step hs with
  | listen | stop | insert | serve | reject => cases hloop'
  | accept hloop hopen hnew =>
    cases hloop'
    refine ⟨fun hmem => ?_, _, setConn_self, rfl, rfl⟩
    have hknown := hI.known c' hmem
    rw [hnew] at hknown
    cases hknown
  | conn hc hserve _ _ =>
    obtain ⟨hout, conn, hc', hnone, hopen⟩ := hI.inserting c' hloop'
    have hne := ne_of_serve hc hserve hc' hnone
    exact ⟨hout, conn, (setConn_of_ne hne).trans hc', hnone, hopen⟩
  | delete hc hserve _ _ =>
    obtain ⟨hout, conn, hc', hnone, hopen⟩ := hI.inserting c' hloop'
    have hne := ne_of_serve hc (by simp [hserve]) hc' hnone
    exact ⟨fun hmem => hout (Finset.mem_of_mem_erase hmem), conn, (setConn_of_ne hne).trans hc',
      hnone, hopen⟩
  | connClose hc hserve =>
    obtain ⟨hout, conn, hc', hnone, hopen⟩ := hI.inserting c' hloop'
    have hne := ne_of_serve hc (by simp [hserve]) hc' hnone
    exact ⟨hout, conn, (setConn_of_ne hne).trans hc', hnone, hopen⟩
  | closeConn hc _ hmem =>
    -- what `Close` closes is in `activeConn`
    obtain ⟨hout, conn, hc', hnone, hopen⟩ := hI.inserting c' hloop'
    have hne := ne_of_mem_of_not_mem hmem hout
    exact ⟨fun hin => hout (Finset.mem_of_mem_erase hin), conn,
      (setConn_of_ne hne.symm).trans hc', hnone, hopen⟩
  | _ => exact hI.inserting c' hloop'

theorem deciding_of_step (hI : Inv s) (hs : step env srv s l = some t) :
    ∀ c, t.loop = .deciding c → ∃ conn, t.conns c = some conn ∧ conn.serve = none := by
  intro c' hloop'
  cases effect_of_step hs with
  | listen | stop | accept | serve | reject => cases hloop'
  | insert hloop hfree =>
    cases hloop'
    obtain ⟨-, conn, hc, hnone, -⟩ := hI.inserting c' hloop
    exact ⟨conn, hc, hnone⟩
  | conn hc hserve _ _ =>
    obtain ⟨conn, hc', hnone⟩ := hI.deciding c' hloop'
    exact ⟨conn, (setConn_of_ne (ne_of_serve hc hserve hc' hnone)).trans hc', hnone⟩
  | delete hc hserve _ _ | connClose hc hserve =>
    obtain ⟨conn, hc', hnone⟩ := hI.deciding c' hloop'
    exact ⟨conn, (setConn_of_ne (ne_of_serve hc (by simp [hserve]) hc' hnone)).trans hc', hnone⟩
  | @closeConn c conn hc hclosing hmem =>
    -- `Close` may have struck before the controllers were asked
    obtain ⟨conn', hc', hnone⟩ := hI.deciding c' hloop'
    by_cases hne : c' = c
    · subst hne
      rw [hc] at hc'
      cases hc'
      exact ⟨conn.close, setConn_self, hnone⟩
    · exact ⟨conn', (setConn_of_ne hne).trans hc', hnone⟩
  | _ => exact hI.deciding c' hloop'

/-- When no connection waits to be put into `activeConn`, the open ones are there or about to be
closed. -/
theorem Inv.mem_of_open (hI : Inv s) {c : ConnId} {conn : Conn V}
    (hloop : ∀ c, s.loop ≠ .inserting c)
    (hc : s.conns c = some conn) (hopen : conn.machine.connClosed = false) :
    c ∈ s.activeConn ∨ conn.serve = some .deleted := by
  rcases hI.accounted c conn hc hopen with hmem | hins | hdel
  · exact .inl hmem
  · exact absurd hins (hloop c)
  · exact .inr hdel

theorem accounted_of_step (hI : Inv s) (hs : step env srv s l = some t) :
    ∀ c conn, t.conns c = some conn → conn.machine.connClosed = false →
      c ∈ t.activeConn ∨ t.loop = .inserting c ∨ conn.serve = some .deleted := by
  intro c' conn' hc' hopen'
  cases effect_of_step hs with
  | listen hloop _ | stop hloop =>
    exact (hI.mem_of_open (by simp [hloop]) hc' hopen').imp_right .inr
  | accept hloop _ _ =>
    obtain ⟨rfl, rfl⟩ | ⟨-, hold⟩ := setConn_eq_some.mp hc'
    · exact .inr (.inl rfl)
    · exact (hI.mem_of_open (by simp [hloop]) hold hopen').imp_right .inr
  | insert hloop _ =>
    rcases hI.accounted c' conn' hc' hopen' with hmem | hins | hdel
    · exact .inl (Finset.mem_insert_of_mem hmem)
    · rw [hloop] at hins
      cases hins
      exact .inl (Finset.mem_insert_self _ _)
    · exact .inr (.inr hdel)
  | serve hloop hc _ =>
    obtain ⟨rfl, rfl⟩ | ⟨-, hold⟩ := setConn_eq_some.mp hc'
    · -- it was not served before
      obtain ⟨conn, hc₀, hnone⟩ := hI.deciding c' hloop
      rw [hc₀] at hc
      cases hc
      rcases hI.mem_of_open (by simp [hloop]) hc₀ hopen' with hmem | hdel
      · exact .inl hmem
      · rw [hnone] at hdel
        cases hdel
    · exact (hI.mem_of_open (by simp [hloop]) hold hopen').imp_right .inr
  | reject hloop _ _ =>
    obtain ⟨rfl, rfl⟩ | ⟨-, hold⟩ := setConn_eq_some.mp hc'
    · cases hopen'
    · exact (hI.mem_of_open (by simp [hloop]) hold hopen').imp_right .inr
  | conn hc _ hl hm =>
    obtain ⟨rfl, rfl⟩ | ⟨-, hold⟩ := setConn_eq_some.mp hc'
    · have hopen := (connClosed_of_step hl hm).symm.trans hopen'
      have hold := hI.accounted c' _ hc hopen
      exact hold
    · exact hI.accounted c' conn' hold hopen'
  | delete =>
    obtain ⟨rfl, rfl⟩ | ⟨hne, hold⟩ := setConn_eq_some.mp hc'
    · exact .inr (.inr rfl)
    · exact (hI.accounted c' conn' hold hopen').imp_left (Finset.mem_erase_of_ne_of_mem hne)
  | connClose =>
    obtain ⟨rfl, rfl⟩ | ⟨-, hold⟩ := setConn_eq_some.mp hc'
    · cases hopen'
    · exact hI.accounted c' conn' hold hopen'
  | closeConn =>
    obtain ⟨rfl, rfl⟩ | ⟨hne, hold⟩ := setConn_eq_some.mp hc'
    · cases hopen'
    · exact (hI.accounted c' conn' hold hopen').imp_left (Finset.mem_erase_of_ne_of_mem hne)
  | _ => exact hI.accounted c' conn' hc' hopen'

theorem listener_of_step (hI : Inv s) (hs : step env srv s l = some t)
    (hclosing' : t.closing = some .conns) :
    t.lnClosed = true ∨ t.loop = .starting := by
  cases effect_of_step hs with
  | closeListener _ =>
    by_cases hloop : s.loop = .starting
    · exact .inr hloop
    · left
      simp [hloop]
  | listen _ hfree | insert _ hfree =>
    -- `Close` has the mutex
    simp [hfree] at hclosing'
  | close => cases hclosing'
  | closeReturn => cases hclosing'
  | accept hloop _ _ | stop hloop | serve hloop _ _ | reject hloop _ _ =>
    rcases hI.listener hclosing' with hln | hstart
    · exact .inl hln
    · rw [hloop] at hstart
      cases hstart
  | _ => exact hI.listener hclosing'

theorem inv_of_step (hI : Inv s) (hs : step env srv s l = some t) : Inv t where
  known := known_of_step hI hs
  inserting := inserting_of_step hI hs
  deciding := deciding_of_step hI hs
  accounted := accounted_of_step hI hs
  listener := listener_of_step hI hs

theorem inv_of_reach {ok : State V → Label V → Prop} {ms : List Controller}
    (h : Reach (step env srv) ok (init ms) t) : Inv t :=
  h.invariant inv_init fun _ hI _ hs => inv_of_step hI hs

end Inv

/-! ### `activeConn` -/

/-- A server without services. -/
def noService : Config (Option Bytes) Unit where
  serviceMap _ := none
  new _ := none
  maxMessageLength := 0
  serviceMap_nil := rfl

section Exact

/-- Every connection in `activeConn` is open, and is being served, or the controllers are still to
be asked about it. -/
def Exact (s : State V) : Prop :=
  ∀ c ∈ s.activeConn, ∃ conn, s.conns c = some conn ∧ conn.machine.connClosed = false ∧
    (conn.serve = some .running ∨ s.loop = .deciding c)

/-- The controllers reject no connection that is in `activeConn`. -/
def Admits (s : State V) : Label V → Prop
  | .decide => ∀ c ∈ s.activeConn, s.loop = .deciding c → (handleConn s.controllers).1 = true
  | _ => True

variable {env : Env V} {srv : Config V T} {s t : State V} {l : Label V}

/-- While the loop asks nobody, all of `activeConn` is being served. -/
theorem Exact.running (hE : Exact s) {c : ConnId} (hmem : c ∈ s.activeConn)
    (hloop : s.loop ≠ .deciding c) :
    ∃ conn, s.conns c = some conn ∧ conn.machine.connClosed = false ∧
      conn.serve = some .running := by
  obtain ⟨conn, hc, hopen, hserve | hdec⟩ := hE c hmem
  · exact ⟨conn, hc, hopen, hserve⟩
  · exact absurd hdec hloop

theorem ne_deciding {c c' : ConnId} (hloop : s.loop = .deciding c) (hne : c' ≠ c) :
    s.loop ≠ .deciding c' := by
  rw [hloop]
  rintro ⟨⟩
  exact hne rfl

/-- **A step keeps `activeConn` exact** unless it rejects a connection. -/
theorem exact_of_step (hI : Inv s) (hE : Exact s) (hok : Admits s l)
    (hs : step env srv s l = some t) :
    Exact t := by
  intro c' hmem'
  cases effect_of_step hs with
  | listen hloop _ | stop hloop =>
    obtain ⟨conn, hc, hopen, hserve⟩ := hE.running hmem' (by simp [hloop])
    exact ⟨conn, hc, hopen, .inl hserve⟩
  | accept hloop _ hnew =>
    obtain ⟨conn, hc, hopen, hserve⟩ := hE.running hmem' (by simp [hloop])
    refine ⟨conn, ?_, hopen, .inl hserve⟩
    rw [setConn_of_ne, hc]
    rintro rfl
    rw [hnew] at hc
    cases hc
  | insert hloop _ =>
    rcases Finset.mem_insert.mp hmem' with rfl | hmem
    · obtain ⟨-, conn, hc, -, hopen⟩ := hI.inserting c' hloop
      exact ⟨conn, hc, hopen, .inr rfl⟩
    · obtain ⟨conn, hc, hopen, hserve⟩ := hE.running hmem (by simp [hloop])
      exact ⟨conn, hc, hopen, .inl hserve⟩
  | @serve c conn ms hloop hc hyes =>
    by_cases hne : c' = c
    · subst hne
      obtain ⟨conn₀, hc₀, hopen, -⟩ := hE c' hmem'
      rw [hc] at hc₀
      cases hc₀
      exact ⟨_, setConn_self, hopen, .inl rfl⟩
    · obtain ⟨conn', hc', hopen, hserve⟩ := hE.running hmem' (ne_deciding hloop hne)
      exact ⟨conn', (setConn_of_ne hne).trans hc', hopen, .inl hserve⟩
  | @reject c conn ms hloop hc hno =>
    have hout : c ∉ s.activeConn := by
      intro hmem
      have hyes := hok c hmem hloop
      rw [hno] at hyes
      cases hyes
    have hne := ne_of_mem_of_not_mem hmem' hout
    obtain ⟨conn', hc', hopen, hserve⟩ := hE.running hmem' (ne_deciding hloop hne)
    exact ⟨conn', (setConn_of_ne hne).trans hc', hopen, .inl hserve⟩
  | @conn c k conn m hc hserved hl hm =>
    obtain ⟨conn', hc', hopen, hserve⟩ := hE c' hmem'
    by_cases hne : c' = c
    · subst hne
      rw [hc] at hc'
      cases hc'
      exact ⟨_, setConn_self, (connClosed_of_step hl hm).trans hopen, hserve⟩
    · exact ⟨conn', (setConn_of_ne hne).trans hc', hopen, hserve⟩
  | delete _ _ _ _ | closeConn _ _ _ =>
    obtain ⟨hne, hmem⟩ := Finset.mem_erase.mp hmem'
    obtain ⟨conn', hc', hopen, hserve⟩ := hE c' hmem
    exact ⟨conn', (setConn_of_ne hne).trans hc', hopen, hserve⟩
  | connClose hc hserve =>
    -- `serveConn` has taken it from `activeConn`
    obtain ⟨conn', hc', hopen, hserve'⟩ := hE c' hmem'
    refine ⟨conn', ?_, hopen, hserve'⟩
    rw [setConn_of_ne, hc']
    rintro rfl
    rw [hc] at hc'
    cases hc'
    rcases hserve' with hrun | hdec
    · rw [hserve] at hrun
      cases hrun
    · obtain ⟨conn₀, hc₀, hnone⟩ := hI.deciding _ hdec
      rw [hc] at hc₀
      cases hc₀
      rw [hserve] at hnone
      cases hnone
  | _ => exact hE c' hmem'

theorem not_exact_of_reject (hno : ¬ Admits s l) (hs : step env srv s l = some t) : ¬ Exact t := by
  intro hE
  cases effect_of_step hs with
  | serve hloop hc hok =>
    refine hno fun c _ _ => ?_
    rw [hok]
  | reject hloop hc hrej =>
    refine hno fun c hmem hdec => ?_
    obtain ⟨conn, hc', hopen, -⟩ := hE c hmem
    rw [hloop] at hdec
    cases hdec
    rw [setConn_self] at hc'
    cases hc'
    cases hopen
  | _ => exact hno trivial

/-- **`activeConn` is exact** in every state of a run in which no controller rejects a connection,
for any list of controllers. A rejection is also the only step that makes it inexact: `HandleConn`
closes the connection, and nothing takes it out. -/
theorem activeConn_exact (env : Env V) (srv : Config V T) (ms : List Controller) :
    (∀ t, Reach (step env srv) Admits (init ms) t → Exact t) ∧
      ∀ t l u, Reach (step env srv) Any (init ms) t → Exact t → step env srv t l = some u →
        (Exact u ↔ Admits t l) := by
  constructor
  · intro t h
    refine h.invariant (fun c hmem => absurd hmem (Finset.notMem_empty c)) ?_
    intro t u l hr hE hok hs
    exact exact_of_step (inv_of_reach hr) hE hok hs
  · intro t l u hr hE hs
    constructor
    · intro hu
      by_contra hno
      exact not_exact_of_reject hno hs hu
    · intro hok
      exact exact_of_step (inv_of_reach hr) hE hok hs

/-- One connection is being served, the controllers are still to be asked about the next. -/
theorem activeConn_exact_two :
    ∃ t, Reach (step quoteEnv noService) Admits (init [.rateLimit 1 1]) t ∧ t.activeConn = {0, 1} ∧
      t.loop = .deciding 1 ∧ (t.conns 0).map Conn.serve = some (some .running) ∧ Exact t := by
  have hfirst : Reach (step quoteEnv noService) Admits (init [.rateLimit 1 1]) _ :=
    reach_of_labels [.listen, .accept 0 [], .insert] (by simp [Admits]) rfl
  have hserved := hfirst.tail (l := .decide) (by intro c _ _; rfl) rfl
  have hsecond := hserved.trans (reach_of_labels [.accept 1 [], .insert] (by simp [Admits]) rfl)
  exact ⟨_, hsecond, by
    decide, rfl, rfl, (activeConn_exact quoteEnv noService [.rateLimit 1 1]).1 _ hsecond⟩

/-- With one token in the bucket, the second connection is rejected and closed. Then the first one
is served to its end. The second stays in `activeConn`. -/
theorem rejected_stays_active :
    ∃ t, exec (step quoteEnv noService) (init [.rateLimit 1 1])
        [.listen, .accept 0 [], .insert, .decide, .accept 1 [], .insert, .decide,
          .conn 0 (.decode 0 .eof), .delete 0, .connClose 0] = some t ∧
      t.activeConn = {1} ∧ t.loop = .accepting ∧
      (t.conns 1).map (fun conn => (conn.serve, conn.machine.connClosed)) = some (none, true) ∧
        ¬ Exact t := by
  refine ⟨_, rfl, by decide, rfl, rfl, fun hE => ?_⟩
  obtain ⟨conn, hc, hopen, -⟩ := hE 1 (by decide)
  cases hc
  cases hopen

end Exact

/-! ### `Close` -/

section Close

/-- `Close` returns while the loop waits in `Accept` or has returned, and no `serveConn` is between
taking its connection from `activeConn` and closing it. -/
def Quiet (s : State V) : Label V → Prop
  | .closeReturn => (s.loop = .accepting ∨ s.loop = .returned) ∧
      ∀ c conn, s.conns c = some conn → conn.serve = some .deleted → conn.machine.connClosed = true
  | _ => True

/-- Every connection that was accepted is closed. -/
def AllClosed (s : State V) : Prop :=
  ∀ c conn, s.conns c = some conn → conn.machine.connClosed = true

/-- The connections for which `serveConn` was started. -/
def Started (s : State V) (c : ConnId) : Prop := ∃ conn, s.conns c = some conn ∧ conn.serve ≠ none

/-- What keeps a server closed. -/
structure Down (s : State V) : Prop where
  listener : s.lnClosed = true
  loop : s.loop = .accepting ∨ s.loop = .returned
  closed : AllClosed s

variable {env : Env V} {srv : Config V T} {s t : State V} {l : Label V}

theorem allClosed_setConn {c : ConnId} {conn : Conn V} (h : AllClosed s)
    (hclosed : conn.machine.connClosed = true) : AllClosed (s.setConn c conn) := by
  intro c' conn' hc'
  obtain ⟨rfl, rfl⟩ | ⟨-, hold⟩ := setConn_eq_some.mp hc'
  · exact hclosed
  · exact h c' conn' hold

theorem started_of_setConn {c c' : ConnId} {conn conn' : Conn V} (hc : s.conns c = some conn)
    (hserve : conn'.serve ≠ none → conn.serve ≠ none) (h : Started (s.setConn c conn') c') :
    Started s c' := by
  obtain ⟨conn₁, hc₁, hserve₁⟩ := h
  obtain ⟨rfl, rfl⟩ | ⟨-, hold⟩ := setConn_eq_some.mp hc₁
  · exact ⟨conn, hc, hserve hserve₁⟩
  · exact ⟨conn₁, hold, hserve₁⟩

/-- **A closed server stays closed.** -/
theorem down_of_step (h : Down s) (hs : step env srv s l = some t) : Down t := by
  obtain ⟨hln, hloop, hall⟩ := h
  cases effect_of_step hs with
  | listen hpc _ | insert hpc _ | serve hpc _ _ | reject hpc _ _ => simp [hpc] at hloop
  | accept _ hopen _ =>
    rw [hln] at hopen
    cases hopen
  | stop => exact ⟨hln, .inr rfl, hall⟩
  | conn hc _ hl hm =>
    have hclosed := (connClosed_of_step hl hm).trans (hall _ _ hc)
    exact ⟨hln, hloop, allClosed_setConn hall hclosed⟩
  | delete hc _ _ _ =>
    have hclosed := hall _ _ hc
    exact ⟨hln, hloop, allClosed_setConn hall hclosed⟩
  | connClose | closeConn => exact ⟨hln, hloop, allClosed_setConn hall rfl⟩
  | closeListener => exact ⟨by simp [hln], hloop, hall⟩
  | _ => exact ⟨hln, hloop, hall⟩

/-- **A closed server does nothing new**: no step puts a connection into `activeConn` or starts a
`serveConn`. -/
theorem nothing_new (h : Down s) (hs : step env srv s l = some t) :
    t.activeConn ⊆ s.activeConn ∧ ∀ c, Started t c → Started s c := by
  obtain ⟨hln, hloop, -⟩ := h
  cases effect_of_step hs with
  | listen hpc _ | insert hpc _ | serve hpc _ _ | reject hpc _ _ => simp [hpc] at hloop
  | accept _ hopen _ =>
    rw [hln] at hopen
    cases hopen
  | conn hc hserve _ _ => exact ⟨subset_rfl, fun _ => started_of_setConn hc fun _ => hserve⟩
  | delete hc hserve _ _ =>
    exact ⟨Finset.erase_subset _ _, fun _ => started_of_setConn hc fun _ => by simp [hserve]⟩
  | connClose hc hserve =>
    exact ⟨subset_rfl, fun _ => started_of_setConn hc fun _ => by simp [hserve]⟩
  | closeConn hc _ _ => exact ⟨Finset.erase_subset _ _, fun _ => started_of_setConn hc id⟩
  | _ => exact ⟨subset_rfl, fun _ hstarted => hstarted⟩

theorem down_of_closeReturn (hI : Inv s) (hquiet : Quiet s .closeReturn)
    (hclosing : s.closing = some .conns) (hempty : s.activeConn = ∅) : Down s := by
  obtain ⟨hloop, hdeleted⟩ := hquiet
  refine ⟨?_, hloop, ?_⟩
  · rcases hI.listener hclosing with hln | hstart
    · exact hln
    · simp [hstart] at hloop
  · intro c conn hc
    by_contra hopen
    have hno : ∀ c, s.loop ≠ .inserting c := by
      intro c hins
      simp [hins] at hloop
    rcases hI.mem_of_open hno hc (by simpa using hopen) with hmem | hdel
    · rw [hempty] at hmem
      exact Finset.notMem_empty c hmem
    · exact hopen (hdeleted c conn hc hdel)

theorem down_of_reach {ms : List Controller} (h : Reach (step env srv) Quiet (init ms) t)
    (hclosed : t.closed = true) : Down t := by
  induction h with
  | refl => cases hclosed
  | @tail s t l hr hquiet hs ih =>
    by_cases hbefore : s.closed = true
    · exact down_of_step (ih hbefore) hs
    · cases effect_of_step hs with
      | closeReturn hclosing hempty =>
        obtain ⟨hln, hloop, hall⟩ := down_of_closeReturn (inv_of_reach hr) hquiet hclosing hempty
        exact ⟨hln, hloop, hall⟩
      | _ => exact absurd hclosed hbefore

end Close

end Frpc.Server.Listener
