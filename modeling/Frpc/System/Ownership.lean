import Frpc.Protocol.Pool
import Frpc.System.Exchange

/-! # Who owns the message of a request

`send` takes a message from the pool, fills it, writes it, gives it back with `FreeMsg`, and then
asks it whether it is one-way. The client connection and the pool in one system: the messages are
those of `Protocol/Pool.lean`, and anybody else in the process may use the pool at any time. So
every `send` that comes to its end reads a message that it has given back. A message that was handed
out again before that may say that it is one-way, and then a call is completed without a response
(`completed_without_response`); as long as that does not happen, the message still says what the
request said (`oneway_of_request`). -/

namespace Frpc.System.Ownership

open Frpc.Basic Frpc.Codecs Frpc.Lib.Runs Frpc.Lib.Tables Frpc.Protocol.Headers
open Frpc.Protocol.Messages Frpc.Protocol.Wire
open Frpc.Client.Machine
  (CallId Action ClientOption Flight SendPc WaitPc fillRequest modifyCall modifyFound
  newFlight handleCall jsonOption sendCall)
open Frpc.Client.Steps (Effect FlightEffect effect_of_step modifyCall_apply modifyFound_apply)
open Frpc.Protocol Frpc.System.Exchange
open Frpc.Protocol.Pool (MsgId)

variable {V : Type} {env : Env V} {opt : ClientOption}

/-- A connection of the client, the pool, and the variable `req` of each `send`: the message, and
whether it was given to `FreeMsg`. The entry is there until `send` has read the message for the last
time. -/
structure State (V : Type) where
  client : Client.Machine.State V
  pool : Pool.State
  reqs : AList fun _ : CallId => MsgId × Bool

/-- The steps. -/
inductive Label (V : Type) where
  /-- A step of the connection that does not concern the pool. -/
  | client (l : Client.Machine.Label V)
  /-- `send` gets the message `id` from the pool, and fills it. -/
  | prepare (c : CallId) (id : MsgId)
  /-- `protocol.FreeMsg(req)` -/
  | freeMsg (c : CallId)
  /-- `if req.IsOneway()` -/
  | test (c : CallId)
  /-- Somebody else uses the pool. -/
  | other (l : Pool.Label)

/-- The steps of the connection that do not concern the pool. -/
def leavesPool : Client.Machine.Label V → Bool
  | .act _ (.prepare _) => false
  | .act _ (.free _) => false
  | _ => true

/-- The message that the holder of a message reads, writes or frees. -/
def usedMsg : Pool.Label → Option MsgId
  | .get _ => none
  | .write id _ => some id
  | .decode id _ _ => some id
  | .copy id _ => some id
  | .free id => some id

/-- The message belongs to a `send`. -/
def heldBySend (s : State V) (id : MsgId) : Bool := s.reqs.entries.any fun e => e.2 == (id, false)

/-- The request of `c` is written into its message. -/
def storeRequest (client : Client.Machine.State V) (c : CallId) (pool : Pool.State) (id : MsgId) :
    Pool.State :=
  match client.flights c with
  | some f =>
    match f.send with
    | .ready req => { pool with heap := Function.update pool.heap id (some req) }
    | _ => pool
  | none => pool

/-- One step. -/
def step (env : Env V) (opt : ClientOption) (s : State V) : Label V → Option (State V)
  | .client l =>
    if leavesPool l then (Client.Machine.step env opt s.client l).map fun client =>
      { s with client }
    else none
  | .prepare c id =>
    (Pool.getMsgs s.pool id).bind fun pool => (pool.heap id).bind fun m =>
      (Client.Machine.step env opt s.client (.act c (.prepare (m.header.get 0)))).map fun client =>
        ⟨client, storeRequest client c pool id, s.reqs.insert c (id, false)⟩
  | .freeMsg c =>
    (s.client.flights c).bind fun f =>
      match f.send, s.reqs.lookup c with
      | .written, some (id, false) =>
        (Pool.freeMsg s.pool id).map fun pool => { s with pool, reqs := s.reqs.insert c (id, true) }
      | _, _ => none
  | .test c =>
    match s.reqs.lookup c with
    | some (id, true) =>
      (s.pool.heap id).bind fun m =>
        (Client.Machine.step env opt s.client (.act c (.free m.header.isOneway))).map fun client =>
          { s with client, reqs := s.reqs.erase c }
    | _ => none
  | .other l =>
    if (usedMsg l).any (heldBySend s) then none
    else (Pool.step s.pool l).map fun pool => { s with pool }

/-- A new connection, and an empty pool. -/
def init : State V := ⟨Client.Machine.init, Pool.init, ∅⟩

/-- `GetMsgs` does not return a message that a `send` has freed and has still to read. -/
def NotHandedOut (s : State V) : Label V → Prop
  | .prepare _ id => ∀ c, s.reqs.lookup c ≠ some (id, true)
  | .other (.get id) => ∀ c, s.reqs.lookup c ≠ some (id, true)
  | .other (.copy _ id) => ∀ c, s.reqs.lookup c ≠ some (id, true)
  | _ => True

/-! ### Calls that are not one-way -/

/-- `send` is not in its one-way branch. -/
def notOnewayPc : SendPc → Prop
  | .oneway => False
  | .holdOneway _ => False
  | _ => True

/-- The `send` of the call has not taken the one-way branch, and a call that was completed without
an error was answered. -/
structure TwoWay (f : Flight V) : Prop where
  send : notOnewayPc f.send
  answered : none ∈ f.delivered → f.frames ≠ []

theorem TwoWay.setSend {f : Flight V} (h : TwoWay f) {pc : SendPc} (hpc : notOnewayPc pc) :
    TwoWay (f.setSend pc) := ⟨hpc, h.answered⟩

theorem TwoWay.setWait {f : Flight V} (h : TwoWay f) (pc : WaitPc) : TwoWay (f.setWait pc) :=
  ⟨h.send, h.answered⟩

theorem TwoWay.received {f : Flight V} (h : TwoWay f) : TwoWay f.received := ⟨h.send, h.answered⟩

theorem TwoWay.fail {f : Flight V} (h : TwoWay f) (err : Error) : TwoWay (f.fail err) := by
  refine ⟨h.send, fun hmem => h.answered ?_⟩
  change none ∈ f.delivered ++ [some err] at hmem
  simpa using hmem

section Update

variable {fl : CallId → Option (Flight V)} {g : Flight V → Flight V} {d : CallId} {f : Flight V}
  (hi : ∀ d f, fl d = some f → TwoWay f)

include hi

theorem twoWay_modifyCall {c : CallId} (hf : modifyCall fl c g d = some f)
    (hg : ∀ f, TwoWay f → TwoWay (g f)) : TwoWay f := by
  rw [modifyCall_apply] at hf
  split_ifs at hf
  · obtain ⟨f', hf', rfl⟩ := Option.map_eq_some_iff.mp hf
    exact hg f' (hi d f' hf')
  · exact hi d f hf

theorem twoWay_modifyFound {t : Option CallId} (hf : modifyFound fl t g d = some f)
    (hg : ∀ f, TwoWay f → TwoWay (g f)) : TwoWay f := by
  cases t with
  | none => exact hi d f hf
  | some c => exact twoWay_modifyCall hi hf hg

theorem twoWay_update {c : CallId} {f' : Flight V} (hf : Function.update fl c (some f') d = some f)
    (hf' : TwoWay f') : TwoWay f := by
  obtain ⟨-, rfl⟩ | ⟨-, hf⟩ := update_eq_some.mp hf
  · exact hf'
  · exact hi d f hf

end Update

theorem twoWay_failAll {err : Error} : ∀ (es : List ((_ : UInt64) × CallId))
    (fl : CallId → Option (Flight V)), (∀ d f, fl d = some f → TwoWay f) → ∀ d f,
      es.foldl (fun fl e => modifyCall fl e.2 (Flight.fail err)) fl d = some f → TwoWay f
  | [], _, hi, d, f, hf => hi d f hf
  | _ :: es, _, hi, d, f, hf =>
    twoWay_failAll es _ (fun _ _ hf' => twoWay_modifyCall hi hf' fun _ h => h.fail err) d f hf

/-- The message said that it is not one-way. -/
def NotOneway : Client.Machine.Label V → Prop
  | .act _ (.free oneway) => oneway = false
  | _ => True

section Step

variable {s s' : Client.Machine.State V} (hi : ∀ d f, s.flights d = some f → TwoWay f)

include hi

theorem twoWay_flightEffect {c : CallId} {f : Flight V} {a : Action} (hf : s.flights c = some f)
    (hl : NotOneway (V := V) (.act c a)) (h : FlightEffect env opt s c f a s') {d : CallId}
    {g : Flight V} (hg : s'.flights d = some g) : TwoWay g := by
  cases h with
  | prepare => exact twoWay_modifyCall hi hg fun _ h => h.setSend trivial
  | prepareFail => exact twoWay_modifyCall hi hg fun _ h => (h.fail _).setSend trivial
  | write => exact twoWay_modifyCall hi hg fun _ h => h.setSend trivial
  | writeErr => exact twoWay_modifyCall hi hg fun _ h => h.setSend trivial
  | takeFailed => exact twoWay_modifyCall hi hg fun _ h => h.setSend trivial
  | completeFailed =>
    refine twoWay_modifyCall (fun _ _ hf' => ?_) hg fun _ h => h.setSend trivial
    exact twoWay_modifyFound hi hf' fun _ h => h.fail _
  | @free oneway =>
    have hno : oneway = false := hl
    subst hno
    exact twoWay_modifyCall hi hg fun _ h => h.setSend trivial
  | takeOneway hpc =>
    have hsend := (hi c f hf).send
    rw [hpc] at hsend
    exact hsend.elim
  | completeOneway hpc =>
    have hsend := (hi c f hf).send
    rw [hpc] at hsend
    exact hsend.elim
  | cancel => exact twoWay_modifyCall hi hg fun _ h => h.setWait _
  | completeCancel =>
    refine twoWay_modifyCall (fun _ _ hf' => ?_) hg fun _ h => h.setWait _
    exact twoWay_modifyFound hi hf' fun _ h => h.fail _
  | receive => exact twoWay_modifyCall hi hg fun _ h => h.received

theorem twoWay_step {l : Client.Machine.Label V} (hl : NotOneway l) (h : Effect env opt s l s')
    {d : CallId} {g : Flight V} (hg : s'.flights d = some g) : TwoWay g := by
  cases h with
  | refuse => exact twoWay_update hi hg ⟨trivial, by simp [newFlight]⟩
  | register => exact twoWay_update hi hg ⟨trivial, by simp [newFlight, Flight.register]⟩
  | act hf ha => exact twoWay_flightEffect hi hf hl ha hg
  | respond hpc hf => exact twoWay_update hi hg ⟨(hi _ _ hf).send, fun _ => by simp [Flight.done]⟩
  | exit => exact twoWay_failAll _ _ hi _ _ hg
  | close => exact twoWay_failAll _ _ hi _ _ hg
  | _ => exact hi _ _ hg

end Step

/-- **A call that was completed without an error was answered**, as long as no message says that it
is one-way. -/
theorem twoWay_of_reach {s : Client.Machine.State V}
    (h : Reach (Client.Machine.step env opt) (fun _ l => NotOneway l) Client.Machine.init s)
    {d : CallId} {f : Flight V} (hf : s.flights d = some f) : TwoWay f := by
  refine h.invariant (P := fun s => ∀ d f, s.flights d = some f → TwoWay f) ?_ ?_ d f hf
  · intro d f hf
    cases hf
  · intro t u l _ hi hl hs d f hf
    exact twoWay_step hi hl (effect_of_step hs) hf

/-! ### The messages of the requests -/

variable {s s' : State V} {l : Label V}

/-- What a step does: a step of the connection without the pool; a request in a new message; a
message that is given back; a message that is read for the last time; or somebody else's step. -/
inductive StepEffect (env : Env V) (opt : ClientOption) (s : State V) : Label V → State V → Prop
  | client {l : Client.Machine.Label V} {client : Client.Machine.State V} (hl : leavesPool l = true)
      (hs : Client.Machine.step env opt s.client l = some client) :
      StepEffect env opt s (.client l) { s with client := client }
  | prepare {c : CallId} {id : MsgId} {pool : Pool.State} {m : Message}
      {client : Client.Machine.State V}
      (hget : Pool.getMsgs s.pool id = some pool) (hm : pool.heap id = some m)
      (hs : Client.Machine.step env opt s.client (.act c (.prepare (m.header.get 0))) =
        some client) :
      StepEffect env opt s (.prepare c id)
        ⟨client, storeRequest client c pool id, s.reqs.insert c (id, false)⟩
  | freeMsg {c : CallId} {id : MsgId} {pool : Pool.State} {f : Flight V}
      (hf : s.client.flights c = some f)
      (hpc : f.send = .written) (hreq : s.reqs.lookup c = some (id, false))
      (hs : Pool.freeMsg s.pool id = some pool) :
      StepEffect env opt s (.freeMsg c) { s with pool := pool, reqs := s.reqs.insert c (id, true) }
  | test {c : CallId} {id : MsgId} {m : Message} {client : Client.Machine.State V}
      (hreq : s.reqs.lookup c = some (id, true)) (hm : s.pool.heap id = some m)
      (hs : Client.Machine.step env opt s.client (.act c (.free m.header.isOneway)) = some client) :
      StepEffect env opt s (.test c) { s with client := client, reqs := s.reqs.erase c }
  | other {l : Pool.Label} {pool : Pool.State} (hs : Pool.step s.pool l = some pool) :
      StepEffect env opt s (.other l) { s with pool := pool }

theorem stepEffect_of_step (h : step env opt s l = some s') : StepEffect env opt s l s' := by
  cases l with
  | client l =>
    simp only [step] at h
    split_ifs at h with hl
    obtain ⟨client, hs, rfl⟩ := Option.map_eq_some_iff.mp h
    exact .client hl hs
  | prepare c id =>
    obtain ⟨pool, hget, h⟩ := Option.bind_eq_some_iff.mp h
    obtain ⟨m, hm, h⟩ := Option.bind_eq_some_iff.mp h
    obtain ⟨client, hs, rfl⟩ := Option.map_eq_some_iff.mp h
    exact .prepare hget hm hs
  | freeMsg c =>
    obtain ⟨f, hf, h⟩ := Option.bind_eq_some_iff.mp h
    split at h
    · rename_i id hpc hreq
      obtain ⟨pool, hs, rfl⟩ := Option.map_eq_some_iff.mp h
      exact .freeMsg hf hpc hreq hs
    · cases h
  | test c =>
    simp only [step] at h
    split at h
    · rename_i id hreq
      obtain ⟨m, hm, h⟩ := Option.bind_eq_some_iff.mp h
      obtain ⟨client, hs, rfl⟩ := Option.map_eq_some_iff.mp h
      exact .test hreq hm hs
    · cases h
  | other l =>
    simp only [step] at h
    split_ifs at h
    obtain ⟨pool, hs, rfl⟩ := Option.map_eq_some_iff.mp h
    exact .other hs

theorem mem_getMsgs {p q : Pool.State} {id j : MsgId} (h : Pool.getMsgs p id = some q)
    (hj : j ∈ p.msgPool) (hne : j ≠ id) : j ∈ q.msgPool := by
  rcases Pool.getMsgs_eq_some.mp h with ⟨-, rfl⟩ | ⟨-, -, rfl⟩
  · exact (List.mem_erase_of_ne hne).mpr hj
  · exact hj

/-- A message that `GetMsgs` does not return stays in the pool. -/
theorem mem_pool_step {p q : Pool.State} {l : Pool.Label} {j : MsgId} (h : Pool.step p l = some q)
    (hj : j ∈ p.msgPool) (hget : ∀ id, l = .get id → j ≠ id)
    (hcopy : ∀ id c, l = .copy id c → j ≠ c) :
    j ∈ q.msgPool := by
  cases l with
  | get id => exact mem_getMsgs h hj (hget id rfl)
  | write id w =>
    obtain ⟨-, m, -, rfl⟩ := Pool.modify_eq_some.mp h
    exact hj
  | decode id maxLen r =>
    obtain ⟨-, m, -, rfl⟩ := Pool.modify_eq_some.mp h
    exact hj
  | copy id c =>
    obtain ⟨-, m, u, -, hu, ht⟩ := Pool.copyMsg_eq_some.mp h
    have hju : j ∈ u.msgPool := mem_getMsgs hu hj (hcopy id c rfl)
    obtain ⟨-, m', -, rfl⟩ := Pool.modify_eq_some.mp ht
    exact hju
  | free id =>
    obtain ⟨-, m, -, rfl⟩ := Pool.freeMsg_eq_some.mp h
    exact List.mem_cons_of_mem id hj

theorem msgPool_storeRequest (client : Client.Machine.State V) (c : CallId) (p : Pool.State)
    (id : MsgId) :
    (storeRequest client c p id).msgPool = p.msgPool := by
  unfold storeRequest
  split
  · split <;> rfl
  · rfl

theorem clean_storeRequest {p : Pool.State} {id : MsgId} (hc : Pool.Clean p) (hid : id ∉ p.msgPool)
    (client : Client.Machine.State V) (c : CallId) : Pool.Clean (storeRequest client c p id) := by
  unfold storeRequest
  split
  · split
    · exact hc.update hid
    · exact hc
  · exact hc

/-- The invariant: a message that a `send` has still to read after `FreeMsg` is in the pool. -/
structure Owned (env : Env V) (opt : ClientOption) (s : State V) : Prop where
  clean : Pool.Clean s.pool
  freed : ∀ {c id}, s.reqs.lookup c = some (id, true) → id ∈ s.pool.msgPool
  client : Reach (Client.Machine.step env opt) (fun _ l => NotOneway l) Client.Machine.init s.client

theorem Owned.init : Owned env opt (init : State V) := ⟨.init, fun h => (by cases h), .refl⟩

theorem Owned.isOneway (ho : Owned env opt s) {c : CallId} {id : MsgId} {m : Message}
    (hreq : s.reqs.lookup c = some (id, true)) (hm : s.pool.heap id = some m) :
    m.header.isOneway = false := by
  obtain ⟨b, hb⟩ := ho.clean.pooled (ho.freed hreq)
  cases hm.symm.trans hb
  show ((0 : UInt8) &&& 0x20 == 0x20) = false
  decide

theorem notOneway_of_leavesPool {l : Client.Machine.Label V} (hl : leavesPool l = true) :
    NotOneway l := by
  cases l with
  | act c a =>
    cases a with
    | free oneway => cases hl
    | _ => trivial
  | _ => trivial

theorem Owned.step (ho : Owned env opt s) (hok : NotHandedOut s l) (h : StepEffect env opt s l s') :
    Owned env opt s' := by
  cases h with
  | client hl hs => exact ⟨ho.clean, ho.freed, ho.client.tail (notOneway_of_leavesPool hl) hs⟩
  | @prepare c id pool m client hget hm hs =>
    obtain ⟨hclean, hid, -⟩ := ho.clean.getMsgs hget
    refine ⟨clean_storeRequest hclean hid client c, fun {d j} hd => ?_,
      ho.client.tail (l := .act c (.prepare _)) trivial hs⟩
    show j ∈ (storeRequest client c pool id).msgPool
    rw [msgPool_storeRequest]
    obtain ⟨-, heq⟩ | ⟨-, hold⟩ := lookup_insert_eq_some.mp hd
    · cases heq
    · refine mem_getMsgs hget (ho.freed hold) ?_
      rintro rfl
      exact hok d hold
  | @freeMsg c id pool f hf hpc hreq hs =>
    refine ⟨ho.clean.freeMsg hs, fun {d j} hd => ?_, ho.client⟩
    obtain ⟨-, m, -, rfl⟩ := Pool.freeMsg_eq_some.mp hs
    obtain ⟨-, heq⟩ | ⟨-, hd⟩ := lookup_insert_eq_some.mp hd
    · cases heq
      exact List.mem_cons_self
    · exact List.mem_cons_of_mem id (ho.freed hd)
  | @test c id m client hreq hm hs =>
    refine ⟨ho.clean, fun {d j} hd => ?_,
      ho.client.tail (l := .act c (.free _)) (ho.isOneway hreq hm) hs⟩
    exact ho.freed (lookup_erase_eq_some.mp hd).2
  | @other l pool hs =>
    refine ⟨ho.clean.step hs, fun {d j} hd => mem_pool_step hs (ho.freed hd) ?_ ?_, ho.client⟩
    · rintro id rfl rfl
      exact hok d hd
    · rintro id c rfl rfl
      exact hok d hd

theorem owned_of_reach (h : Reach (step env opt) NotHandedOut init s) : Owned env opt s :=
  h.invariant (P := Owned env opt) .init fun _ ho hok hs => ho.step hok (stepEffect_of_step hs)

theorem fillRequest_isOneway {codec : Codec V} {call : Client.Machine.Call V}
    {q : UInt64} {b : UInt8}
    {req : Message} (h : fillRequest env opt codec call q (pooled b) = .ok req) :
    req.header.isOneway = false := by
  have hflags : ((Header.clean b).setMessageType MessageType.request |>.setSeq q).get 2 = 0 := by
    rw [Header.get_setSeq _ _ (by omega), Header.get_setMessageType, if_pos rfl]
    show (0 : UInt8) ||| MessageType.request <<< 7 = 0
    decide
  rcases fillRequest_eq_ok h with ⟨-, hm⟩ | ⟨data, -, ⟨hz, z, -, rfl⟩ | ⟨-, rfl⟩⟩
  · rw [hm]
    show (Header.set _ 2 _).isOneway = false
    rw [Header.isOneway, Header.get_set _ (by omega), if_pos rfl]
    exact (congrArg (fun x => (x ||| 0x40) &&& 0x20 == 0x20) hflags).trans (by decide)
  · rw [Header.isOneway, Header.get_setCompressType, if_pos rfl, requestHeader_flags, hz.2]
    decide
  · rw [Header.isOneway, requestHeader_flags]
    decide

/-! ### Reading after `FreeMsg` -/

/-- The `send` of the call has written its request. -/
def Wrote (fl : CallId → Option (Flight V)) (c : CallId) : Prop :=
  ∃ f, fl c = some f ∧ f.send = .written

section Wrote

variable {fl : CallId → Option (Flight V)} {c d : CallId} (h : Wrote fl c)

include h

theorem Wrote.keep {g : Flight V → Flight V} (hg : ∀ f, (g f).send = f.send) (d : CallId) :
    Wrote (modifyCall fl d g) c := by
  obtain ⟨f, hf, hpc⟩ := h
  unfold Wrote
  rw [modifyCall_apply]
  split_ifs
  · exact ⟨g f, by rw [hf, Option.map_some], (hg f).trans hpc⟩
  · exact ⟨f, hf, hpc⟩

theorem Wrote.keep_ne (hne : d ≠ c) (g : Flight V → Flight V) : Wrote (modifyCall fl d g) c := by
  obtain ⟨f, hf, hpc⟩ := h
  refine ⟨f, ?_, hpc⟩
  rw [modifyCall_apply, if_neg hne.symm, hf]

theorem Wrote.keep_found {g : Flight V → Flight V} (hg : ∀ f, (g f).send = f.send)
    (t : Option CallId) :
    Wrote (modifyFound fl t g) c := by
  cases t with
  | none => exact h
  | some d => exact h.keep hg d

theorem Wrote.update {f : Flight V} (hf : d = c → f.send = .written) :
    Wrote (Function.update fl d (some f)) c := by
  obtain ⟨f', hf', hpc⟩ := h
  by_cases hd : c = d
  · subst hd
    exact ⟨f, Function.update_self .., hf rfl⟩
  · exact ⟨f', (Function.update_of_ne hd ..).trans hf', hpc⟩

end Wrote

theorem Wrote.failAll {c : CallId} {err : Error} : ∀ (es : List ((_ : UInt64) × CallId))
    {fl : CallId → Option (Flight V)}, Wrote fl c →
      Wrote (es.foldl (fun fl e => Client.Machine.modifyCall fl e.2 (Flight.fail err)) fl) c
  | [], _, h => h
  | e :: es, _, h => Wrote.failAll es (h.keep (g := Flight.fail err) (fun _ => rfl) e.2)

section Written

variable {s s' : Client.Machine.State V} {c : CallId} (hw : Wrote s.flights c)

include hw

/-- Where `send` has written its request, it goes on only with the test. -/
theorem wrote_flightEffect {d : CallId} {f : Flight V} {a : Action} (hf : s.flights d = some f)
    (ha : d = c → ∀ oneway, a ≠ .free oneway) (h : FlightEffect env opt s d f a s') :
    Wrote s'.flights c := by
  -- a step from another place of `send` belongs to another call
  have hother : f.send ≠ .written → d ≠ c := by
    rintro hne rfl
    obtain ⟨f', hf', hpc⟩ := hw
    cases hf.symm.trans hf'
    exact hne hpc
  cases h with
  | prepare hpc => exact hw.keep_ne (hother (by simp [hpc])) _
  | prepareFail hpc => exact hw.keep_ne (hother (by simp [hpc])) _
  | write hpc => exact hw.keep_ne (hother (by simp [hpc])) _
  | writeErr hpc => exact hw.keep_ne (hother (by simp [hpc])) _
  | takeFailed hpc => exact hw.keep_ne (hother (by simp [hpc])) _
  | @completeFailed t err hpc =>
    have hfail := hw.keep_found (g := Flight.fail err) (fun _ => rfl) t
    exact hfail.keep_ne (hother (by simp [hpc])) _
  | free => exact hw.keep_ne (fun hd => ha hd _ rfl) _
  | takeOneway hpc => exact hw.keep_ne (hother (by simp [hpc])) _
  | @completeOneway t hpc =>
    have hdone := hw.keep_found (g := Flight.done) (fun _ => rfl) t
    exact hdone.keep_ne (hother (by simp [hpc])) _
  | cancel hpc => exact hw.keep_ne (hother (by simp [hpc])) _
  | @completeCancel t err =>
    have hfail := hw.keep_found (g := Flight.fail err) (fun _ => rfl) t
    exact hfail.keep (g := (·.setWait (.returned (some err)))) (fun _ => rfl) d
  | receive hpc => exact hw.keep_ne (hother (by simp [hpc])) _

theorem wrote_step {l : Client.Machine.Label V} (hl : ∀ oneway, l ≠ .act c (.free oneway))
    (h : Effect env opt s l s') : Wrote s'.flights c := by
  have hold : ∀ {d f}, s.flights d = some f → d = c → f.send = .written := by
    rintro d f hf rfl
    obtain ⟨f', hf', hpc⟩ := hw
    cases hf.symm.trans hf'
    exact hpc
  have hnew : ∀ {d}, s.flights d = none → d ≠ c := by
    rintro d hnone rfl
    obtain ⟨f, hf, -⟩ := hw
    cases hnone.symm.trans hf
  cases h with
  | refuse hnone => exact hw.update fun hd => absurd hd (hnew hnone)
  | register hnone => exact hw.update fun hd => absurd hd (hnew hnone)
  | act hf ha =>
    refine wrote_flightEffect hw hf ?_ ha
    rintro rfl oneway rfl
    exact hl oneway rfl
  | respond hpc hf =>
    refine hw.update fun hd => ?_
    have hsend := hold hf hd
    exact hsend
  | exit => exact Wrote.failAll _ hw
  | close => exact Wrote.failAll _ hw
  | _ => exact hw

end Written

/-- A `send` that has given its message back, and has still to read it, has written its request. -/
def PastFreeMsg (s : State V) (c : CallId) (id : MsgId) : Prop :=
  s.reqs.lookup c = some (id, true) ∧ Wrote s.client.flights c

theorem PastFreeMsg.step {c : CallId} {id : MsgId} (hp : PastFreeMsg s c id) (hl : l ≠ .test c)
    (h : StepEffect env opt s l s') : PastFreeMsg s' c id := by
  obtain ⟨hreq, hw⟩ := hp
  cases h with
  | client hleaves hs =>
    refine ⟨hreq, wrote_step hw ?_ (effect_of_step hs)⟩
    rintro oneway rfl
    cases hleaves
  | @prepare d _ _ _ _ _ _ hs =>
    have hw' := wrote_step hw (by simp) (effect_of_step hs)
    refine ⟨lookup_insert_eq_some.mpr (Or.inr ⟨?_, hreq⟩), hw'⟩
    rintro rfl
    obtain ⟨f, hf, hpc⟩ := hw
    cases effect_of_step hs with
    | act hf' ha =>
      cases hf.symm.trans hf'
      cases ha with
      | prepare hpc' => cases hpc.symm.trans hpc'
      | prepareFail hpc' => cases hpc.symm.trans hpc'
  | @freeMsg d _ _ _ _ _ hreq' =>
    refine ⟨lookup_insert_eq_some.mpr (Or.inr ⟨?_, hreq⟩), hw⟩
    rintro rfl
    cases hreq.symm.trans hreq'
  | @test d _ _ _ _ _ hs =>
    have hne : d ≠ c := fun hd => hl (by rw [hd])
    refine ⟨lookup_erase_eq_some.mpr ⟨hne.symm, hreq⟩, wrote_step hw ?_ (effect_of_step hs)⟩
    rintro oneway heq
    cases heq
    exact hne rfl
  | other => exact ⟨hreq, hw⟩

theorem pastFreeMsg_of_reach {t : State V} {c : CallId} {id : MsgId} (hp : PastFreeMsg s c id)
    (h : Reach (step env opt) (fun _ l => l ≠ .test c) s t) : PastFreeMsg t c id :=
  h.invariant (P := (PastFreeMsg · c id)) hp fun _ ht hl hs => ht.step hl (stepEffect_of_step hs)

theorem pastFreeMsg_of_freed {ok : State V → Label V → Prop} (h : Reach (step env opt) ok init s)
    {c : CallId} {id : MsgId} (hreq : s.reqs.lookup c = some (id, true)) : PastFreeMsg s c id := by
  refine h.invariant (P := fun s => ∀ c id, s.reqs.lookup c = some (id, true) → PastFreeMsg s c id)
    ?_ ?_ c id hreq
  · intro c id hreq
    cases hreq
  · intro t u l _ ht _ hs c id hreq
    have hold : t.reqs.lookup c = some (id, true) → l ≠ .test c → PastFreeMsg u c id :=
      fun hreq' hl => (ht c id hreq').step hl (stepEffect_of_step hs)
    cases stepEffect_of_step hs with
    | client => exact hold hreq (by simp)
    | prepare =>
      obtain ⟨-, heq⟩ | ⟨-, hreq'⟩ := lookup_insert_eq_some.mp hreq
      · cases heq
      · exact hold hreq' (by simp)
    | freeMsg hf hpc =>
      obtain ⟨rfl, -⟩ | ⟨-, hreq'⟩ := lookup_insert_eq_some.mp hreq
      · exact ⟨hreq, _, hf, hpc⟩
      · exact hold hreq' (by simp)
    | @test d =>
      obtain ⟨hne, hreq'⟩ := lookup_erase_eq_some.mp hreq
      exact hold hreq' (by simpa using hne.symm)
    | other => exact hold hreq (by simp)

theorem test_eq_none_of_reach (h : Reach (step env opt) (fun _ l => ∀ c, l ≠ .freeMsg c) init s)
    (c : CallId) :
    step env opt s (.test c) = none := by
  have hnone : ∀ c id, s.reqs.lookup c ≠ some (id, true) := by
    refine h.invariant (P := fun s => ∀ c id, s.reqs.lookup c ≠ some (id, true))
      (fun c id hreq => ?_) ?_
    · cases hreq
    · intro t u l _ ht hl hs c id hreq
      cases stepEffect_of_step hs with
      | client => exact ht c id hreq
      | prepare =>
        obtain ⟨-, heq⟩ | ⟨-, hreq'⟩ := lookup_insert_eq_some.mp hreq
        · cases heq
        · exact ht c id hreq'
      | freeMsg => exact hl _ rfl
      | test => exact ht c id (lookup_erase_eq_some.mp hreq).2
      | other => exact ht c id hreq
  simp only [step]
  split
  · rename_i id hreq
    exact absurd hreq (hnone c id)
  · rfl

/-- **The one-way decision.** While no `send` has come past `FreeMsg`, none reads a message that it
has given back; and one that has comes to its end only by reading it.

In every run in which no message is handed out between the `FreeMsg` of a `send` and the moment when
that `send` asks whether it is one-way: the message is still in the pool then, it says what the
request of the call said, and a call that was completed without an error was answered. -/
theorem oneway_of_request (h : Reach (step env opt) NotHandedOut init s) :
    (∀ t, Reach (step env opt) (fun _ l => ∀ c, l ≠ .freeMsg c) init t →
      ∀ c, step env opt t (.test c) = none) ∧
    (∀ u t c id, Reach (step env opt) Any init u → u.reqs.lookup c = some (id, true) →
      Reach (step env opt) (fun _ l => l ≠ .test c) u t →
        t.reqs.lookup c = some (id, true) ∧ ∃ f, t.client.flights c = some f ∧ f.send = .written) ∧
    (∀ c f id m, s.client.flights c = some f → s.reqs.lookup c = some (id, true) →
      s.pool.heap id = some m → id ∈ s.pool.msgPool ∧
        ∀ codec q b req, codecs env opt.serializeType = some codec → f.seq = some q →
          fillRequest env opt codec f.init q (pooled b) = .ok req →
            m.header.isOneway = req.header.isOneway) ∧
    ∀ c f, s.client.flights c = some f → none ∈ f.delivered → f.frames ≠ [] := by
  have ho := owned_of_reach h
  refine ⟨fun t ht c => test_eq_none_of_reach ht c,
    fun u t c id hu hreq ht => pastFreeMsg_of_reach (pastFreeMsg_of_freed hu hreq) ht,
    fun c f id m _ hreq hm => ⟨ho.freed hreq, fun codec q b req _ _ hfill => ?_⟩, fun c f hf => ?_⟩
  · rw [ho.isOneway hreq hm, fillRequest_isOneway hfill]
  · exact (twoWay_of_reach ho.client hf).answered

/-- A call whose `send` has given its message back and has still to look at it. -/
theorem oneway_of_request_freed :
    ∃ s f m, Reach (step quoteEnv jsonOption) NotHandedOut init s ∧ s.client.flights 0 = some f ∧
      s.reqs.lookup 0 = some (7, true) ∧ s.pool.heap 7 = some m ∧ 7 ∈ s.pool.msgPool := by
  have hsent : Reach (step quoteEnv jsonOption) NotHandedOut init _ :=
    .tail .refl trivial rfl (l := .client (sendCall 0 (some [97])))
  have hprepared : Reach _ NotHandedOut init _ :=
    hsent.tail (l := .prepare 0 7) (fun _ h => by cases h) rfl
  have hrun : Reach (step quoteEnv jsonOption) NotHandedOut init _ :=
    hprepared.trans
      (reach_of_labels [.client (.act 0 (.write ∅)), .freeMsg 0] (by simp [NotHandedOut]) rfl)
  exact ⟨_, _, _, hrun, rfl, rfl, rfl, ((oneway_of_request hrun).2.2.1 0 _ 7 _ rfl rfl rfl).1⟩

/-- A one-way request of some peer. -/
def onewayRequest : Message := { newMessage with header := newMessage.header.setOneway true }

/-- A call is written and its message is given back. Before `send` looks at it again, a server in
the same process gets that message and decodes a one-way request into it. The call is completed
without an error, and no response was read. -/
theorem completed_without_response :
    ∃ s f, Reach (step quoteEnv jsonOption) Any init s ∧ s.client.flights 0 = some f ∧
      f.delivered = [none] ∧ f.frames = [] :=
  ⟨_, _, reach_of_exec [.client (sendCall 0 (some [97])), .prepare 0 7, .client (.act 0 (.write ∅)),
    .freeMsg 0, .other (.get 7), .other (.decode 7 0 ⟨frame onewayRequest ∅, .eof⟩), .test 0,
    .client (.act 0 .takeOneway), .client (.act 0 .completeOneway)] rfl, rfl, rfl, rfl⟩

end Frpc.System.Ownership
