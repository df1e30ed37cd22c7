import Frpc.System.Ownership

/-! # The messages of a connection of the server

`Server/Machine.lean` hands every goroutine a message of its own. In `server/server.go` a message is
a pointer into the pool: `decodeRequest` takes one with `GetMsgs` for the request, `Copy` another
one for the response, the goroutine reads and writes both, and it gives both back with `FreeMsg`
when the response is written. A message that is given back too early, or twice, could be handed out
while it is still used.

Here the connection runs on the pool of `Protocol/Pool.lean`; the other connections and the clients
of the process use the pool at any time too. A message that a goroutine holds is held by nobody else
and is not in the pool, and so the connection behaves as `Server/Machine.lean` says
(`pooled_server_refines`). The message of a heartbeat, and that of a request that cannot be decoded,
are never given back. -/

namespace Frpc.System.Pooled

open Frpc.Basic Frpc.Codecs Frpc.Lib.Runs Frpc.Lib.Tables Frpc.Protocol Frpc.Protocol.Headers
open Frpc.Protocol.Messages Frpc.Protocol.Wire
open Frpc.Protocol.Pool (MsgId)
open Frpc.System.Ownership (onewayRequest usedMsg)
open Frpc.System.Exchange (echo oneMethod)
open Frpc.Server.Machine (Config MethodResult Handler HandlerPc decodePanics decodePanics_heartbeat
  handleRequest mergeMetadata serveRequest)

variable {V T : Type}

/-- Where the goroutine of a request stands, with the messages that it holds. -/
inductive Pc where
  /-- The request was decoded. -/
  | started (req : MsgId)
  /-- `handleRequest` has returned. -/
  | handled (req res : MsgId) (resMetadata : Metadata)
  /-- The response is complete, `conn.Write` comes next. -/
  | responding (req res : MsgId)
  /-- The request is a heartbeat, which is sent back. -/
  | heartbeat (req : MsgId)
  /-- `FreeMsg(req)` comes next. -/
  | finishing (req res : MsgId)
  /-- `FreeMsg(res)` comes next. -/
  | freeing (res : MsgId)
  | done

/-- The messages that the goroutine still uses. -/
def Pc.msgs : Pc → List MsgId
  | .started req => [req]
  | .handled req res _ => [req, res]
  | .responding req res => [req, res]
  | .heartbeat req => [req]
  | .finishing req res => [req, res]
  | .freeing res => [res]
  | .done => []

/-- A connection of the server, and the pool. -/
structure State where
  inp : Bytes
  out : Bytes
  handlers : List Pc
  returned : Bool
  connClosed : Bool
  pool : Pool.State

/-- The steps. -/
inductive Label (V : Type) where
  /-- `decodeRequest` gets the message `id` and decodes into it. -/
  | decode (id : MsgId) (err : Error)
  /-- The goroutine `k` sees a heartbeat, or `handleRequest` runs, with the message `c` for the
  response. -/
  | handle (k : ℕ) (c : MsgId) (method : V → MethodResult V)
  /-- `if !req.IsOneway()`, and the metadata of the response. -/
  | respond (k : ℕ)
  | write (k : ℕ) (order : MetaOrder)
  | writeErr (k : ℕ) (order : MetaOrder) (n : ℕ)
  /-- `protocol.FreeMsg(req)` -/
  | freeReq (k : ℕ)
  /-- `protocol.FreeMsg(res)` -/
  | freeRes (k : ℕ)
  | close
  /-- Somebody else uses the pool. -/
  | other (l : Pool.Label)

/-- A goroutine of the connection holds the message. -/
def held (handlers : List Pc) (id : MsgId) : Bool := handlers.any fun pc => pc.msgs.contains id

/-- `m` is written into the message `id`. -/
def store (pool : Pool.State) (id : MsgId) (m : Message) : Pool.State :=
  { pool with heap := Function.update pool.heap id (some m) }

/-- `serveConn`: decode a request, and start its goroutine. -/
def stepDecode (srv : Config V T) (s : State) (id : MsgId) (err : Error) : Option State :=
  (Pool.getMsgs s.pool id).bind fun pool => (pool.heap id).map fun m =>
    let pool := store pool id (Pool.decoded m srv.maxMessageLength ⟨s.inp, err⟩)
    match m.decode srv.maxMessageLength ⟨s.inp, err⟩ with
    | .error _ => { s with returned := true, pool }
    | .ok (_, r, some _) => { s with inp := r.data, returned := true, pool }
    | .ok (_, r, none) => { s with inp := r.data, handlers := s.handlers ++ [.started id], pool }

/-- The goroutine of a request, up to the return of `handleRequest`. -/
def stepHandle (env : Env V) (srv : Config V T) (s : State) (k : ℕ) (c : MsgId)
    (method : V → MethodResult V) : Option State :=
  (s.handlers[k]?).bind fun
    | .started req =>
      (s.pool.heap req).bind fun m =>
        if m.header.isHeartbeat then
          some { s with
            handlers := s.handlers.set k (.heartbeat req)
            pool := store s.pool req
              { m with header := m.header.setMessageType MessageType.response } }
        else if decodePanics env srv m then none
        else
          (Pool.getMsgs s.pool c).bind fun pool => (pool.heap c).map fun cm =>
            let ((res, _), resMetadata) := handleRequest env srv m cm method
            { s with
              handlers := s.handlers.set k (.handled req c resMetadata), pool := store pool c res }
    | _ => none

/-- The goroutine asks the request whether it is one-way, and completes the response. -/
def stepRespond (s : State) (k : ℕ) : Option State :=
  (s.handlers[k]?).bind fun
    | .handled req res resMetadata =>
      (s.pool.heap req).bind fun m => (s.pool.heap res).map fun r =>
        if m.header.isOneway then { s with handlers := s.handlers.set k (.finishing req res) }
        else
          { s with
            handlers := s.handlers.set k (.responding req res)
            pool := store s.pool res { r with metadata := mergeMetadata r.metadata resMetadata } }
    | _ => none

/-- The message that is encoded, and where the goroutine stands after `conn.Write`. -/
def outgoing : Pc → Option (MsgId × Pc)
  | .responding req res => some (res, .finishing req res)
  | .heartbeat req => some (req, .done)
  | _ => none

/-- One step. -/
def step (env : Env V) (srv : Config V T) (s : State) : Label V → Option State
  | .decode id err => if s.returned then none else stepDecode srv s id err
  | .handle k c method => stepHandle env srv s k c method
  | .respond k => stepRespond s k
  | .write k order =>
    (s.handlers[k]?).bind fun pc => (outgoing pc).bind fun (id, pc') =>
      (s.pool.heap id).bind fun res =>
      match res.encode order with
      | .ok data =>
        if order.toFinmap = res.meta0 ∧ s.connClosed = false then
          some { s with out := s.out ++ data, handlers := s.handlers.set k pc' }
        else none
      | .error _ => none
  | .writeErr k order n =>
    (s.handlers[k]?).bind fun pc => (outgoing pc).bind fun (id, pc') =>
      (s.pool.heap id).bind fun res =>
      match res.encode order with
      | .ok data =>
        if order.toFinmap = res.meta0 then
          some { s with out := s.out ++ data.take n, handlers := s.handlers.set k pc' }
        else none
      | .error _ => none
  | .freeReq k =>
    (s.handlers[k]?).bind fun
      | .finishing req res =>
        (Pool.freeMsg s.pool req).map fun pool =>
          { s with handlers := s.handlers.set k (.freeing res), pool }
      | _ => none
  | .freeRes k =>
    (s.handlers[k]?).bind fun
      | .freeing res =>
        (Pool.freeMsg s.pool res).map fun pool =>
          { s with handlers := s.handlers.set k .done, pool }
      | _ => none
  | .close => some { s with connClosed := true }
  | .other l =>
    if (usedMsg l).any (held s.handlers) then none
    else (Pool.step s.pool l).map fun pool => { s with pool }

/-- A new connection over which `d` comes in. -/
def init (d : Bytes) (pool : Pool.State) : State := ⟨d, [], [], false, false, pool⟩

/-! ### Those who use the pool -/

section Pools

variable {p p' u : Pool.State} {mine : List MsgId} {id c : MsgId}

/-- What can happen to the pool when somebody acts who holds the messages `mine`: no message
vanishes, those that others hold stay as they are, and only the own ones are given back. -/
structure Keeps (p p' : Pool.State) (mine : List MsgId) : Prop where
  alive : ∀ {id m}, p.heap id = some m → ∃ m', p'.heap id = some m'
  same : ∀ {id m}, p.heap id = some m → id ∉ p.msgPool → id ∉ mine → p'.heap id = some m
  freed : ∀ {id}, id ∈ p'.msgPool → id ∈ p.msgPool ∨ id ∈ mine

theorem store_alive {id' : MsgId} {m m' : Message} (h : p.heap id' = some m) :
    ∃ m'', (store p id m').heap id' = some m'' :=
  Option.isSome_iff_exists.mp (isSome_update m' (h ▸ rfl))

theorem store_same {id' : MsgId} {m : Message} (hne : id' ≠ id) :
    (store p id m).heap id' = p.heap id' :=
  Function.update_of_ne hne ..

theorem keeps_store {m : Message} (hid : id ∈ mine) : Keeps p (store p id m) mine := by
  refine ⟨store_alive, fun {id' m'} h _ hno => ?_, fun h => Or.inl h⟩
  have hne : id' ≠ id := fun heq => hno (heq ▸ hid)
  rw [store_same hne]
  exact h

theorem keeps_free (hid : id ∈ mine) (h : Pool.freeMsg p id = some p') : Keeps p p' mine := by
  obtain ⟨-, m, -, rfl⟩ := Pool.freeMsg_eq_some.mp h
  refine ⟨store_alive, fun {id' m'} h _ hno => ?_, fun {id'} h => ?_⟩
  · have hne : id' ≠ id := fun heq => hno (heq ▸ hid)
    exact update_eq_some.mpr (Or.inr ⟨hne, h⟩)
  · rcases List.mem_cons.mp h with rfl | h
    · exact Or.inr hid
    · exact Or.inl h

theorem unheld_of_getMsgs (h : Pool.getMsgs p c = some u) : c ∈ p.msgPool ∨ p.heap c = none := by
  rcases Pool.getMsgs_eq_some.mp h with ⟨hc, -⟩ | ⟨-, hc, -⟩
  · exact Or.inl hc
  · exact Or.inr hc

theorem getMsgs_heap {m : Message} (h : Pool.getMsgs p c = some u) (hid : p.heap id = some m) :
    u.heap id = some m := by
  rcases Pool.getMsgs_eq_some.mp h with ⟨-, rfl⟩ | ⟨-, hc, rfl⟩
  · exact hid
  · have hne : id ≠ c := by
      rintro rfl
      cases hc.symm.trans hid
    exact update_eq_some.mpr (Or.inr ⟨hne, hid⟩)

theorem keeps_getMsgs (h : Pool.getMsgs p c = some u) : Keeps p u mine := by
  refine ⟨fun hid => ⟨_, getMsgs_heap h hid⟩, fun hid _ _ => getMsgs_heap h hid,
    fun {id} hid => Or.inl ?_⟩
  rcases Pool.getMsgs_eq_some.mp h with ⟨-, rfl⟩ | ⟨-, -, rfl⟩
  · exact List.mem_of_mem_erase hid
  · exact hid

theorem keeps_get {m : Message} (h : Pool.getMsgs p c = some u) : Keeps p (store u c m) mine := by
  have hget : Keeps p u mine := keeps_getMsgs h
  refine ⟨fun hid => store_alive (getMsgs_heap h hid), fun {id m'} hid hno _ => ?_, hget.freed⟩
  have hne : id ≠ c := by
    rintro rfl
    rcases unheld_of_getMsgs h with hc | hc
    · exact hno hc
    · cases hc.symm.trans hid
  exact (store_same hne).trans (getMsgs_heap h hid)

theorem keeps_step {l : Pool.Label} (h : Pool.step p l = some p') :
    Keeps p p' (usedMsg l).toList := by
  cases l with
  | get c => exact keeps_getMsgs h
  | write id w =>
    obtain ⟨-, m, -, rfl⟩ := Pool.modify_eq_some.mp h
    exact keeps_store (List.mem_singleton_self id)
  | decode id maxLen r =>
    obtain ⟨-, m, -, rfl⟩ := Pool.modify_eq_some.mp h
    exact keeps_store (List.mem_singleton_self id)
  | copy id c =>
    obtain ⟨-, m, u, -, hu, ht⟩ := Pool.copyMsg_eq_some.mp h
    obtain ⟨-, cm, -, rfl⟩ := Pool.modify_eq_some.mp ht
    exact keeps_get hu
  | free id => exact keeps_free (List.mem_singleton_self id) h

end Pools

/-! ### Who holds a message -/

section Owned

variable {handlers : List Pc} {p p' : Pool.State} {mine : List MsgId}

/-- A message that a goroutine holds is held by no other one and is not in the pool. -/
structure Owned (handlers : List Pc) (p : Pool.State) : Prop where
  clean : Pool.Clean p
  nodup : ∀ {k : ℕ} {pc : Pc}, handlers[k]? = some pc → pc.msgs.Nodup
  apart : ∀ {k : ℕ} {pc : Pc} {id : MsgId}, handlers[k]? = some pc → id ∈ pc.msgs →
    id ∉ p.msgPool ∧ ∃ m, p.heap id = some m
  disjoint : ∀ {j k : ℕ} {pc pc' : Pc} {id : MsgId}, handlers[j]? = some pc →
    handlers[k]? = some pc' → j ≠ k → id ∈ pc.msgs → id ∉ pc'.msgs

theorem owned_init (hc : Pool.Clean p) : Owned [] p :=
  ⟨hc, fun h => (by cases h), fun h => (by cases h), fun h => (by cases h)⟩

theorem Owned.unheld {u : Pool.State} {c : MsgId} (h : Owned handlers p)
    (hget : Pool.getMsgs p c = some u)
    {k : ℕ} {pc : Pc} (hk : handlers[k]? = some pc) : c ∉ pc.msgs := by
  intro hmem
  obtain ⟨hno, m, hm⟩ := h.apart hk hmem
  rcases unheld_of_getMsgs hget with hc | hc
  · exact hno hc
  · cases hc.symm.trans hm

/-- What a goroutine holds stays apart when somebody acts who does not hold it. -/
theorem Owned.apart_of_keeps (h : Owned handlers p) (hkeep : Keeps p p' mine) {k : ℕ} {pc : Pc}
    {id : MsgId} (hk : handlers[k]? = some pc) (hid : id ∈ pc.msgs) (hmine : id ∉ mine) :
    id ∉ p'.msgPool ∧ ∃ m, p'.heap id = some m := by
  obtain ⟨hno, m, hm⟩ := h.apart hk hid
  refine ⟨fun hmem => ?_, hkeep.alive hm⟩
  rcases hkeep.freed hmem with hp | hp
  · exact hno hp
  · exact hmine hp

theorem Owned.other (h : Owned handlers p) (hkeep : Keeps p p' mine) (hc : Pool.Clean p')
    (hmine : ∀ {k : ℕ} {pc : Pc}, handlers[k]? = some pc → ∀ id ∈ pc.msgs, id ∉ mine) :
    Owned handlers p' :=
  ⟨hc, h.nodup, fun hk hid => h.apart_of_keeps hkeep hk hid (hmine hk _ hid), h.disjoint⟩

/-- A goroutine goes on, with the messages that it had, or with one that it has got. -/
theorem Owned.set (h : Owned handlers p) {k : ℕ} {pc pc' : Pc} (hk : handlers[k]? = some pc)
    (hkeep : Keeps p p' pc.msgs) (hc : Pool.Clean p') (hnodup : pc'.msgs.Nodup)
    (hnew : ∀ id ∈ pc'.msgs, id ∈ pc.msgs ∨ ∀ {j : ℕ} {q : Pc}, handlers[j]? = some q → id ∉ q.msgs)
    (hapart : ∀ id ∈ pc'.msgs, id ∉ p'.msgPool ∧ ∃ m, p'.heap id = some m) :
    Owned (handlers.set k pc') p' := by
  have hother : ∀ {j q}, handlers[j]? = some q → j ≠ k → ∀ id ∈ q.msgs, id ∉ pc.msgs := by
    intro j q hj hne id hid
    exact h.disjoint hj hk hne hid
  have hnone : ∀ {j q}, handlers[j]? = some q → j ≠ k → ∀ id ∈ pc'.msgs, id ∉ q.msgs := by
    intro j q hj hne id hid hq
    rcases hnew id hid with hold | hfree
    · exact hother hj hne id hq hold
    · exact hfree hj hq
  refine ⟨hc, fun {j q} hj => ?_, fun {j q id} hj hid => ?_, fun {i j q r id} hi hj hne hid => ?_⟩
  · rcases getElem?_set_eq_some hj with ⟨-, rfl⟩ | ⟨-, hj⟩
    · exact hnodup
    · exact h.nodup hj
  · rcases getElem?_set_eq_some hj with ⟨-, rfl⟩ | ⟨hjk, hj⟩
    · exact hapart id hid
    · exact h.apart_of_keeps hkeep hj hid (hother hj hjk id hid)
  · rcases getElem?_set_eq_some hi with ⟨rfl, rfl⟩ | ⟨hik, hi'⟩
    · rcases getElem?_set_eq_some hj with ⟨rfl, -⟩ | ⟨hjk, hj'⟩
      · exact absurd rfl hne
      · exact hnone hj' hjk id hid
    · rcases getElem?_set_eq_some hj with ⟨rfl, rfl⟩ | ⟨-, hj'⟩
      · intro hr
        exact hnone hi' hik id hr hid
      · exact h.disjoint hi' hj' hne hid

/-- The goroutine of a new request, with a message of the pool. -/
theorem Owned.push {u : Pool.State} {c : MsgId} {m : Message} (h : Owned handlers p)
    (hget : Pool.getMsgs p c = some u) : Owned (handlers ++ [.started c]) (store u c m) := by
  obtain ⟨hclean, hno, -⟩ := h.clean.getMsgs hget
  have hkeep : Keeps p (store u c m) [] := keeps_get hget
  refine ⟨hclean.update hno, fun {j q} hj => ?_,
    fun {j q id} hj hid => ?_, fun {i j q r id} hi hj hne hid => ?_⟩
  · rcases getElem?_concat_eq_some hj with hj | ⟨-, rfl⟩
    · exact h.nodup hj
    · exact List.nodup_singleton c
  · rcases getElem?_concat_eq_some hj with hj | ⟨-, rfl⟩
    · exact h.apart_of_keeps hkeep hj hid List.not_mem_nil
    · obtain rfl := List.mem_singleton.mp hid
      exact ⟨hno, m, Function.update_self ..⟩
  · rcases getElem?_concat_eq_some hi with hi' | ⟨hi', rfl⟩
    · rcases getElem?_concat_eq_some hj with hj' | ⟨-, rfl⟩
      · exact h.disjoint hi' hj' hne hid
      · intro hr
        obtain rfl := List.mem_singleton.mp hr
        exact h.unheld hget hi' hid
    · rcases getElem?_concat_eq_some hj with hj' | ⟨hj', -⟩
      · obtain rfl := List.mem_singleton.mp hid
        exact h.unheld hget hj'
      · omega

end Owned

/-! ### The connection without the pool -/

section Simulation

variable {env : Env V} {srv : Config V T} {s t : State} {a : Server.Machine.State V}
  {p' : Pool.State} {mine : List MsgId} {k : ℕ} {pc pc' : Pc} {h h' : Handler V}

/-- What is left to write of a response. -/
def response (req res : Message) (resMetadata : Metadata) : HandlerPc :=
  if req.header.isOneway then .finished
  else .ready { res with metadata := mergeMetadata res.metadata resMetadata }

/-- The goroutine, with the messages that it holds, and what it is without the pool. -/
inductive Rel (heap : MsgId → Option Message) : Pc → Handler V → Prop
  | started {req : MsgId} {h : Handler V} (hreq : heap req = some h.req) (hpc : h.pc = .started) :
      Rel heap (.started req) h
  | handled {req res : MsgId} {resMetadata : Metadata} {h : Handler V} {r : Message}
      (hreq : heap req = some h.req) (hres : heap res = some r)
      (hpc : h.pc = response h.req r resMetadata) :
      Rel heap (.handled req res resMetadata) h
  | responding {req res : MsgId} {h : Handler V} {r : Message} (hres : heap res = some r)
      (hpc : h.pc = .ready r) : Rel heap (.responding req res) h
  | heartbeat {req : MsgId} {h : Handler V} {r : Message} (hreq : heap req = some r)
      (hpc : h.pc = .ready r) :
      Rel heap (.heartbeat req) h
  | finishing {req res : MsgId} {h : Handler V} (hpc : h.pc = .finished) :
      Rel heap (.finishing req res) h
  | freeing {res : MsgId} {h : Handler V} (hpc : h.pc = .finished) : Rel heap (.freeing res) h
  | done {h : Handler V} (hpc : h.pc = .finished) : Rel heap .done h

theorem Rel.frame {heap heap' : MsgId → Option Message} (hr : Rel heap pc h)
    (hsame : ∀ id m, id ∈ pc.msgs → heap id = some m → heap' id = some m) : Rel heap' pc h := by
  cases hr with
  | started hreq hpc => exact .started (hsame _ _ (by simp [Pc.msgs]) hreq) hpc
  | handled hreq hres hpc =>
    exact .handled (hsame _ _ (by simp [Pc.msgs]) hreq) (hsame _ _ (by simp [Pc.msgs]) hres) hpc
  | responding hres hpc => exact .responding (hsame _ _ (by simp [Pc.msgs]) hres) hpc
  | heartbeat hreq hpc => exact .heartbeat (hsame _ _ (by simp [Pc.msgs]) hreq) hpc
  | finishing hpc => exact .finishing hpc
  | freeing hpc => exact .freeing hpc
  | done hpc => exact .done hpc

/-- The connection, and what it is without the pool. -/
structure Sim (s : State) (a : Server.Machine.State V) : Prop where
  inp : a.inp = s.inp
  out : a.out = s.out
  returned : a.returned = s.returned
  connClosed : a.connClosed = s.connClosed
  owned : Owned s.handlers s.pool
  length : a.handlers.length = s.handlers.length
  rel : ∀ {k : ℕ} {pc : Pc} {h : Handler V}, s.handlers[k]? = some pc → a.handlers[k]? = some h →
    Rel s.pool.heap pc h

theorem Sim.init (d : Bytes) {p : Pool.State} (hc : Pool.Clean p) :
    Sim (init d p) ({ Server.Machine.init with inp := d } : Server.Machine.State V) :=
  ⟨rfl, rfl, rfl, rfl, owned_init hc, rfl, fun hk => (by cases hk)⟩

theorem Sim.handler (hs : Sim s a) (hk : s.handlers[k]? = some pc) :
    ∃ h, a.handlers[k]? = some h ∧ Rel s.pool.heap pc h := by
  have hlt : k < a.handlers.length := by
    rw [hs.length]
    exact (List.getElem?_eq_some_iff.mp hk).1
  exact ⟨_, List.getElem?_eq_getElem hlt, hs.rel hk (List.getElem?_eq_getElem hlt)⟩

/-- Somebody acts who does not hold the messages of the goroutine. -/
theorem Sim.rel_of_keeps (hs : Sim s a) (hkeep : Keeps s.pool p' mine)
    (hk : s.handlers[k]? = some pc)
    (hak : a.handlers[k]? = some h) (hmine : ∀ id ∈ pc.msgs, id ∉ mine) : Rel p'.heap pc h := by
  refine (hs.rel hk hak).frame fun id m hid hm => ?_
  exact hkeep.same hm (hs.owned.apart hk hid).1 (hmine id hid)

theorem Sim.set (hs : Sim s a) (hk : s.handlers[k]? = some pc) (hak : a.handlers[k]? = some h)
    (hkeep : Keeps s.pool p' pc.msgs) (howned : Owned (s.handlers.set k pc') p')
    (hrel : Rel p'.heap pc' h') {out out' : Bytes} (hout : out' = out) :
    Sim { s with out := out, handlers := s.handlers.set k pc', pool := p' }
      { a with out := out', handlers := a.handlers.set k h' } := by
  refine ⟨hs.inp, hout, hs.returned, hs.connClosed, howned, ?_, fun {j q g} hj hg => ?_⟩
  · simpa using hs.length
  · rcases getElem?_set_eq_some hj with ⟨rfl, rfl⟩ | ⟨hjk, hj'⟩
    · obtain ⟨-, rfl⟩ | ⟨hne, -⟩ := getElem?_set_eq_some hg
      · exact hrel
      · exact absurd rfl hne
    · obtain ⟨rfl, -⟩ | ⟨-, hg'⟩ := getElem?_set_eq_some hg
      · exact absurd rfl hjk
      · exact hs.rel_of_keeps hkeep hj' hg' fun id hid => hs.owned.disjoint hj' hk hjk hid

theorem Sim.set_pc (pc' : Pc) (hs : Sim s a) (hk : s.handlers[k]? = some pc)
    (hak : a.handlers[k]? = some h)
    (hmsgs : ∀ id ∈ pc'.msgs, id ∈ pc.msgs) (hnodup : pc'.msgs.Nodup)
    (hrel : Rel s.pool.heap pc' h') {out out' : Bytes} (hout : out' = out) :
    Sim { s with out := out, handlers := s.handlers.set k pc' }
      { a with out := out', handlers := a.handlers.set k h' } := by
  have hkeep : Keeps s.pool s.pool pc.msgs := ⟨fun h => ⟨_, h⟩, fun h _ _ => h, fun h => Or.inl h⟩
  exact hs.set hk hak hkeep
    (hs.owned.set hk hkeep hs.owned.clean hnodup (fun id hid => Or.inl (hmsgs id hid))
    fun id hid => hs.owned.apart hk (hmsgs id hid)) hrel hout

theorem Sim.set_store (pc' : Pc) (hs : Sim s a) (hk : s.handlers[k]? = some pc)
    (hak : a.handlers[k]? = some h)
    {id : MsgId} {m : Message} (hid : id ∈ pc.msgs) (hmsgs : ∀ id ∈ pc'.msgs, id ∈ pc.msgs)
    (hnodup : pc'.msgs.Nodup) (hrel : Rel (store s.pool id m).heap pc' h') :
    Sim { s with handlers := s.handlers.set k pc', pool := store s.pool id m }
      { a with handlers := a.handlers.set k h' } := by
  have hclean := hs.owned.clean.update (m := m) (hs.owned.apart hk hid).1
  refine hs.set hk hak (keeps_store hid) (hs.owned.set hk (keeps_store hid) hclean hnodup
    (fun id hid => Or.inl (hmsgs id hid)) fun id' hid' => ?_) hrel hs.out
  obtain ⟨hno, m', hm'⟩ := hs.owned.apart hk (hmsgs id' hid')
  exact ⟨hno, store_alive hm'⟩

theorem Sim.set_free (hs : Sim s a) (hk : s.handlers[k]? = some pc) (hak : a.handlers[k]? = some h)
    {id : MsgId} (hfree : Pool.freeMsg s.pool id = some p') (hmsgs : pc.msgs = id :: pc'.msgs)
    (hrel : Rel p'.heap pc' h) :
    Sim { s with handlers := s.handlers.set k pc', pool := p' } a := by
  have hnodup := hs.owned.nodup hk
  rw [hmsgs] at hnodup
  obtain ⟨hne, hnodup'⟩ := List.nodup_cons.mp hnodup
  have hkeep : Keeps s.pool p' pc.msgs := keeps_free (by rw [hmsgs]; exact List.mem_cons_self) hfree
  have hsub : ∀ id' ∈ pc'.msgs, id' ∈ pc.msgs := fun id' hid' => by
    rw [hmsgs]
    exact List.mem_cons_of_mem _ hid'
  have hsim := hs.set hk hak hkeep (hs.owned.set hk hkeep (hs.owned.clean.freeMsg hfree) hnodup'
    (fun id' hid' => Or.inl (hsub id' hid')) fun id' hid' => ?_) hrel hs.out
  · have hset : a.handlers.set k h = a.handlers := by
      obtain ⟨hlt, rfl⟩ := List.getElem?_eq_some_iff.mp hak
      exact List.set_getElem_self hlt
    rw [hset] at hsim
    exact hsim
  · obtain ⟨hno, m, hm⟩ := hs.owned.apart hk (hsub id' hid')
    refine ⟨fun hmem => ?_, hkeep.alive hm⟩
    obtain ⟨-, m', -, rfl⟩ := Pool.freeMsg_eq_some.mp hfree
    rcases List.mem_cons.mp hmem with rfl | hmem
    · exact hne hid'
    · exact hno hmem

theorem Sim.push (hs : Sim s a) {id : MsgId} {u : Pool.State} {req : Message} {inp inp' : Bytes}
    (hget : Pool.getMsgs s.pool id = some u) (hinp : inp' = inp) :
    Sim { s with inp := inp, handlers := s.handlers ++ [.started id], pool := store u id req }
      { a with inp := inp', handlers := a.handlers ++ [⟨req, .started, none⟩] } := by
  refine ⟨hinp, hs.out, hs.returned, hs.connClosed, hs.owned.push hget, by simp [hs.length],
    fun {j q g} hj hg => ?_⟩
  rcases getElem?_concat_eq_some hj with hj' | ⟨hj', rfl⟩
  · rcases getElem?_concat_eq_some hg with hg' | ⟨hg', -⟩
    · have hkeep : Keeps s.pool (store u id req) [] := keeps_get hget
      exact hs.rel_of_keeps hkeep hj' hg' fun _ _ => List.not_mem_nil
    · have hlt := (List.getElem?_eq_some_iff.mp hj').1
      rw [hg', hs.length] at hlt
      exact absurd hlt (lt_irrefl _)
  · rcases getElem?_concat_eq_some hg with hg' | ⟨-, rfl⟩
    · have hlt := (List.getElem?_eq_some_iff.mp hg').1
      rw [hj', hs.length] at hlt
      exact absurd hlt (lt_irrefl _)
    · exact .started (Function.update_self ..) rfl

/-- Somebody else uses the pool, or the connection takes a message and forgets it. -/
theorem Sim.other (hs : Sim s a) (hkeep : Keeps s.pool p' mine) (hc : Pool.Clean p')
    (hmine : ∀ {k : ℕ} {pc : Pc}, s.handlers[k]? = some pc → ∀ id ∈ pc.msgs, id ∉ mine)
    {inp inp' : Bytes}
    {returned returned' : Bool} (hinp : inp' = inp) (hret : returned' = returned) :
    Sim { s with inp := inp, returned := returned, pool := p' }
      { a with inp := inp', returned := returned' } :=
  ⟨hinp, hs.out, hret, hs.connClosed, hs.owned.other hkeep hc hmine, hs.length,
    fun hk hak => hs.rel_of_keeps hkeep hk hak (hmine hk)⟩

/-- One step without the pool, or none. -/
def Next (env : Env V) (srv : Config V T) (a a' : Server.Machine.State V) : Prop :=
  a' = a ∨ ∃ l, Server.Machine.step env srv a l = some a'

theorem Sim.decode (hs : Sim s a) {id : MsgId} {err : Error}
    (h : step env srv s (.decode id err) = some t) : ∃ a', Next env srv a a' ∧ Sim t a' := by
  simp only [step] at h
  split_ifs at h with hret
  obtain ⟨u, hget, h⟩ := Option.bind_eq_some_iff.mp h
  obtain ⟨hclean, hno, b, hb⟩ := hs.owned.clean.getMsgs hget
  rw [hb] at h
  obtain rfl := Option.some.inj h
  have hopen : a.returned = false := by rw [hs.returned]; simpa using hret
  refine ⟨Server.Machine.stepDecode srv a b err,
    Or.inr ⟨.decode b err, by simp [Server.Machine.step, hopen]⟩, ?_⟩
  have hkeep : ∀ m, Keeps s.pool (store u id m) [] := fun m => keeps_get hget
  unfold Server.Machine.stepDecode
  rw [hs.inp]
  dsimp only
  cases hdec : (pooled b).decode srv.maxMessageLength ⟨s.inp, err⟩ with
  | error f => exact hs.other (hkeep _) (hclean.update hno) (fun _ _ _ => List.not_mem_nil) rfl rfl
  | ok x =>
    obtain ⟨req, r, err'⟩ := x
    cases err' with
    | some err' =>
      exact hs.other (hkeep _) (hclean.update hno) (fun _ _ _ => List.not_mem_nil) rfl rfl
    | none =>
      have hreq : Pool.decoded (pooled b) srv.maxMessageLength ⟨s.inp, err⟩ = req := by
        unfold Pool.decoded
        rw [hdec]
      rw [hreq]
      exact hs.push hget rfl

theorem Sim.handle (hs : Sim s a) {c : MsgId} {method : V → MethodResult V}
    (h : step env srv s (.handle k c method) = some t) : ∃ a', Next env srv a a' ∧ Sim t a' := by
  obtain ⟨pc, hk, h⟩ := Option.bind_eq_some_iff.mp h
  cases pc with
  | started req =>
    obtain ⟨g, hak, hrel⟩ := hs.handler hk
    cases hrel with
    | started hreq hpc =>
      obtain ⟨m, hm, h⟩ := Option.bind_eq_some_iff.mp h
      cases hreq.symm.trans hm
      have hstep : decodePanics env srv g.req = false → ∀ b,
          Server.Machine.step env srv a (.handle k b method) =
            some { a with handlers := a.handlers.set k (g.handle env srv b method) } := by
        intro hdec b
        simp [Server.Machine.step, hak, hpc, hdec]
      by_cases hbeat : g.req.header.isHeartbeat = true
      · rw [if_pos hbeat] at h
        obtain rfl := Option.some.inj h
        refine ⟨_, Or.inr ⟨_, hstep (decodePanics_heartbeat env srv hbeat) 0⟩, ?_⟩
        refine hs.set_store _ hk hak List.mem_cons_self (fun _ hid => hid)
          (List.nodup_singleton _) ?_
        refine .heartbeat (Function.update_self ..) ?_
        simp [Handler.handle, serveRequest, hbeat]
      · rw [if_neg hbeat] at h
        split_ifs at h with hdec
        obtain ⟨u, hget, h⟩ := Option.bind_eq_some_iff.mp h
        obtain ⟨hclean, hno, b, hb⟩ := hs.owned.clean.getMsgs hget
        rcases hres : handleRequest env srv g.req (pooled b) method with ⟨⟨res, err⟩, md⟩
        rw [hb, Option.map_some, hres] at h
        obtain rfl := Option.some.inj h
        refine ⟨_, Or.inr ⟨_, hstep (by simpa using hdec) b⟩, ?_⟩
        have hne : req ≠ c := by
          rintro rfl
          exact hs.owned.unheld hget hk List.mem_cons_self
        have hheap : (store u c res).heap req = some g.req :=
          (store_same hne).trans (getMsgs_heap hget hreq)
        have hself : (store u c res).heap c = some res := Function.update_self ..
        have hrel : Rel (store u c res).heap (.handled req c md) (g.handle env srv b method) := by
          refine .handled hheap hself ?_
          rw [Bool.not_eq_true] at hbeat
          by_cases hone : g.req.header.isOneway = true
          · simp [Handler.handle, serveRequest, hbeat, response, hone]
          · simp [Handler.handle, serveRequest, hbeat, response, hone, hres]
        refine hs.set hk hak (keeps_get hget) ?_ hrel hs.out
        refine hs.owned.set hk (keeps_get hget) (hclean.update hno) (by simp [Pc.msgs, hne]) ?_ ?_
        · intro id hid
          rcases List.mem_cons.mp hid with rfl | hid
          · exact Or.inl List.mem_cons_self
          · obtain rfl := List.mem_singleton.mp hid
            exact Or.inr fun hj => hs.owned.unheld hget hj
        · intro id hid
          rcases List.mem_cons.mp hid with rfl | hid
          · have hkeep : Keeps s.pool (store u c res) [] := keeps_get hget
            exact hs.owned.apart_of_keeps hkeep hk List.mem_cons_self List.not_mem_nil
          · obtain rfl := List.mem_singleton.mp hid
            exact ⟨hno, _, hself⟩
  | _ => cases h

theorem Sim.respond (hs : Sim s a) (h : step env srv s (.respond (V := V) k) = some t) :
    ∃ a', Next env srv a a' ∧ Sim t a' := by
  obtain ⟨pc, hk, h⟩ := Option.bind_eq_some_iff.mp h
  cases pc with
  | handled req res md =>
    obtain ⟨g, hak, hrel⟩ := hs.handler hk
    have hnodup := hs.owned.nodup hk
    cases hrel with
    | @handled _ _ _ _ r hreq hres hpc =>
      obtain ⟨m, hm, h⟩ := Option.bind_eq_some_iff.mp h
      cases hreq.symm.trans hm
      obtain ⟨r', hr', h⟩ := Option.map_eq_some_iff.mp h
      cases hres.symm.trans hr'
      refine ⟨a, Or.inl rfl, ?_⟩
      have hset : a.handlers.set k g = a.handlers := by
        obtain ⟨hlt, rfl⟩ := List.getElem?_eq_some_iff.mp hak
        exact List.set_getElem_self hlt
      unfold response at hpc
      split_ifs at h hpc with hone
      · subst h
        have hsim := hs.set_pc (.finishing req res) hk hak (fun _ hid => hid) hnodup
            (.finishing hpc) hs.out
        rw [hset] at hsim
        exact hsim
      · subst h
        have hmem : res ∈ (Pc.handled req res md).msgs := List.mem_cons_of_mem _ List.mem_cons_self
        have hsim := hs.set_store (.responding req res) hk hak hmem (fun _ hid => hid) hnodup
          (.responding (Function.update_self ..) hpc)
        rw [hset] at hsim
        exact hsim
  | _ => cases h

theorem Rel.outgoing {heap : MsgId → Option Message} {id : MsgId} {res : Message}
    (hr : Rel heap pc h) (hout : outgoing pc = some (id, pc')) (hid : heap id = some res) :
    h.pc = .ready res ∧ (∀ id ∈ pc'.msgs, id ∈ pc.msgs) ∧ (pc.msgs.Nodup → pc'.msgs.Nodup) ∧
      ∀ {g : Handler V}, g.pc = .finished → Rel heap pc' g := by
  cases hr with
  | responding hres hpc =>
    cases hout
    cases hres.symm.trans hid
    exact ⟨hpc, fun _ hid => hid, fun hn => hn, fun hg => .finishing hg⟩
  | heartbeat hreq hpc =>
    cases hout
    cases hreq.symm.trans hid
    exact ⟨hpc, fun _ hid => (by cases hid), fun _ => List.nodup_nil, fun hg => .done hg⟩
  | _ => cases hout

/-- `conn.Write`, of all of the response or of a part of it. -/
theorem Sim.write (hs : Sim s a) {order : MetaOrder}
    (h : step env srv s (.write (V := V) k order) = some t) :
    ∃ a', Next env srv a a' ∧ Sim t a' := by
  obtain ⟨pc, hk, h⟩ := Option.bind_eq_some_iff.mp h
  obtain ⟨⟨id, pc'⟩, hout, h⟩ := Option.bind_eq_some_iff.mp h
  obtain ⟨res, hres, h⟩ := Option.bind_eq_some_iff.mp h
  obtain ⟨g, hak, hrel⟩ := hs.handler hk
  obtain ⟨hpc, hmsgs, hnodup, hdone⟩ := hrel.outgoing hout hres
  split at h
  · rename_i data henc
    split_ifs at h with hc
    obtain rfl := Option.some.inj h
    have hstep : Server.Machine.step env srv a (.write k order) = some { a with
        out := a.out ++ data, handlers := a.handlers.set k { g with pc := .finished } } := by
      have hc' : order.toFinmap = res.meta0 ∧
          a.connClosed = false := ⟨hc.1, hs.connClosed.trans hc.2⟩
      simp [Server.Machine.step, hak, hpc, henc, hc']
    refine ⟨_, Or.inr ⟨_, hstep⟩, ?_⟩
    exact hs.set_pc pc' hk hak hmsgs (hnodup (hs.owned.nodup hk)) (hdone rfl) (by rw [hs.out])
  · cases h

theorem Sim.writeErr (hs : Sim s a) {order : MetaOrder} {n : ℕ}
    (h : step env srv s (.writeErr (V := V) k order n) = some t) :
    ∃ a', Next env srv a a' ∧ Sim t a' := by
  obtain ⟨pc, hk, h⟩ := Option.bind_eq_some_iff.mp h
  obtain ⟨⟨id, pc'⟩, hout, h⟩ := Option.bind_eq_some_iff.mp h
  obtain ⟨res, hres, h⟩ := Option.bind_eq_some_iff.mp h
  obtain ⟨g, hak, hrel⟩ := hs.handler hk
  obtain ⟨hpc, hmsgs, hnodup, hdone⟩ := hrel.outgoing hout hres
  split at h
  · rename_i data henc
    split_ifs at h with hc
    obtain rfl := Option.some.inj h
    have hstep : Server.Machine.step env srv a (.writeErr k order n) = some { a with
        out := a.out ++ data.take n, handlers := a.handlers.set k { g with pc := .finished } } := by
      simp [Server.Machine.step, hak, hpc, henc, hc]
    refine ⟨_, Or.inr ⟨_, hstep⟩, ?_⟩
    exact hs.set_pc pc' hk hak hmsgs (hnodup (hs.owned.nodup hk)) (hdone rfl) (by rw [hs.out])
  · cases h

/-- **One step of the connection is a step without the pool, or none.** -/
theorem Sim.step {l : Label V} (hs : Sim s a) (h : step env srv s l = some t) :
    ∃ a', Next env srv a a' ∧ Sim t a' := by
  cases l with
  | decode id err => exact hs.decode h
  | handle k c method => exact hs.handle h
  | respond k => exact hs.respond h
  | write k order => exact hs.write h
  | writeErr k order n => exact hs.writeErr h
  | freeReq k =>
    obtain ⟨pc, hk, h⟩ := Option.bind_eq_some_iff.mp h
    cases pc with
    | finishing req res =>
      obtain ⟨p', hfree, rfl⟩ := Option.map_eq_some_iff.mp h
      obtain ⟨g, hak, hrel⟩ := hs.handler hk
      cases hrel with
      | finishing hpc => exact ⟨a, Or.inl rfl, hs.set_free hk hak hfree rfl (.freeing hpc)⟩
    | _ => cases h
  | freeRes k =>
    obtain ⟨pc, hk, h⟩ := Option.bind_eq_some_iff.mp h
    cases pc with
    | freeing res =>
      obtain ⟨p', hfree, rfl⟩ := Option.map_eq_some_iff.mp h
      obtain ⟨g, hak, hrel⟩ := hs.handler hk
      cases hrel with
      | freeing hpc => exact ⟨a, Or.inl rfl, hs.set_free hk hak hfree rfl (.done hpc)⟩
    | _ => cases h
  | close =>
    cases h
    exact ⟨{ a with connClosed := true }, Or.inr ⟨.close, rfl⟩, hs.inp, hs.out, hs.returned,
      rfl, hs.owned, hs.length, hs.rel⟩
  | other l =>
    simp only [Pooled.step] at h
    split_ifs at h with hheld
    obtain ⟨p', hp', rfl⟩ := Option.map_eq_some_iff.mp h
    refine ⟨a, Or.inl rfl, hs.other (keeps_step hp') (hs.owned.clean.step hp') ?_ hs.inp
      hs.returned⟩
    intro k pc hk id hid hmine
    have hused : usedMsg l = some id := by simpa using hmine
    refine hheld ?_
    rw [hused, Option.any_some, held, List.any_eq_true]
    exact ⟨pc, List.mem_of_getElem? hk, List.contains_iff_mem.mpr hid⟩

/-- **The pool is safe on the server.** Over a connection on which any bytes `d` come in, with a
pool that others use at any time, in every run: the goroutines of the connection hold different
messages, none of which is in the pool; and what they have read, written and still hold is what some
run without the pool has, where every goroutine has messages of its own. -/
theorem pooled_server_refines {d : Bytes} {p : Pool.State} (hp : Reach Pool.step Any Pool.init p)
    (h : Reach (Pooled.step env srv) Any (init d p) s) :
    ∃ a : Server.Machine.State V,
      Reach (Server.Machine.step env srv) Any { Server.Machine.init with inp := d } a ∧
        Sim s a := by
  refine h.invariant (P := fun s => ∃ a : Server.Machine.State V,
    Reach (Server.Machine.step env srv) Any { Server.Machine.init with inp := d } a ∧ Sim s a) ?_ ?_
  · exact ⟨_, .refl, .init d (Pool.clean_of_reach hp)⟩
  · rintro t u l - ⟨a, ha, hs⟩ - hstep
    obtain ⟨a', hnext, hs'⟩ := hs.step hstep
    rcases hnext with rfl | ⟨l', hl'⟩
    · exact ⟨_, ha, hs'⟩
    · exact ⟨a', ha.next hl', hs'⟩

/-- Two one-way requests are handled one after the other. Both messages of the first are given back,
and the second gets them again. -/
theorem pooled_server_refines_reused :
    ∃ s, Reach (Pooled.step quoteEnv oneMethod) Any
      (init (frame onewayRequest ∅ ++ frame onewayRequest ∅) Pool.init) s ∧
      s.handlers = [.done, .handled 1 0 ∅] ∧ s.pool.msgPool = [] ∧
      ∃ a : Server.Machine.State (Option Bytes), Reach (Server.Machine.step quoteEnv oneMethod) Any
        { Server.Machine.init with inp := frame onewayRequest ∅ ++ frame onewayRequest ∅ } a ∧
          Sim s a := by
  have hrun : Reach (Pooled.step quoteEnv oneMethod) Any
      (init (frame onewayRequest ∅ ++ frame onewayRequest ∅) Pool.init) _ :=
    reach_of_exec [.decode 0 .eof, .handle 0 1 echo, .respond 0, .freeReq 0,
      .freeRes 0, .decode 1 .eof, .handle 1 0 echo] rfl
  exact ⟨_, hrun, rfl, rfl, pooled_server_refines .refl hrun⟩

end Simulation

end Frpc.System.Pooled
