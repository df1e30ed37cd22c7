import Frpc.System.EndToEnd
import Frpc.System.Ownership
import Frpc.System.Responses

/-! # What is on its way

A healthy connection: no write fails, nobody closes it, a read waits until its frame is there, every
request and every response fits the limits of the side that reads it, and the payload of a response
can be decoded for its call. The calls themselves, the methods and the order of all steps are
arbitrary (`Healthy`).

On such a connection nothing is lost. The frames on their way to the server and to the client are
the frames of two lists of messages, and as long as a call is in `pending`, its number is to be
found somewhere on the way: the request is not written, or it is in the first list, or a handler has
it, or its response is in the second list (`Flowing`). -/

namespace Frpc.System.Flow

open Frpc.Basic Frpc.Codecs Frpc.Lib.Runs Frpc.Lib.Tables Frpc.Protocol.Messages Frpc.Protocol.Wire
open Frpc.Protocol.RoundTrip Frpc.Protocol.Streams Frpc.Client.Answers Frpc.Client.Correlation
open Frpc.Client.Machine
  (ClientOption CallId Flight Call SendPc WaitPc newCall newFlight fillRequest
  handleCall replyPanics isServerMessage decodeAlone modifyCall)
open Frpc.Client.Custody (ledger)
open Frpc.Client.Steps (flight_step flight_cases ne_of_new modifyCall_apply)
open Frpc.Client.Sequence (numbered_of_reach)
open Frpc.Server.Machine (Config Handler MethodResult serveRequest)
open Frpc.System.Machine Frpc.System.Links

variable {V T : Type} {env : Env V} {opt : ClientOption} {srv : Config V T} {s s' : State V}
  {l : Label V}

/-! ### Healthy connections -/

/-- The message fits, in whichever order its metadata are written. -/
def Deliverable (maxLen : ℤ) (m : Message) : Prop :=
  ∀ order : MetaOrder, order.toFinmap = m.meta0 → Fits maxLen m order

/-- The request of the call can be made, and it fits the limit of the server. -/
def Sendable (env : Env V) (opt : ClientOption) (srv : Config V T) (call : Call V) : Prop :=
  ∀ codec q b, codecs env opt.serializeType = some codec →
    ∃ req, fillRequest env opt codec call q (pooled b) = .ok req ∧
      Deliverable srv.maxMessageLength req

/-- The response fits the limit of the client, and the call that it answers can take it. Otherwise
the reader of the client would stop. -/
def Acceptable (env : Env V) (c : Client.Machine.State V) (res : Message) : Prop :=
  Deliverable env.maxMessageLength res ∧ ∃ d f, c.flights d = some f ∧ f.seq = some res.header.seq ∧
    replyPanics env (norm res) f.init = false ∧ (handleCall env (norm res) f.init).2 = none

/-- The steps of a healthy connection. -/
def Healthy (env : Env V) (opt : ClientOption) (srv : Config V T) (s : State V) (l : Label V) :
    Prop :=
  Atomic s l ∧
    match l with
    | .client (.send _ _ ctx p m args reply) => Sendable env opt srv (newCall ctx p m args reply)
    | .client (.read err) =>
      ∃ res r, s.client.res.decode env.maxMessageLength ⟨s.client.inp, err⟩ = .ok (res, r, none)
    | .server (.decode b err) =>
      ∃ req r, (pooled b).decode srv.maxMessageLength ⟨s.server.inp, err⟩ = .ok (req, r, none)
    | .server (.handle k b method) => ∀ h res, s.server.handlers[k]? = some h →
        serveRequest env srv h.req (pooled b) method = some res → Acceptable env s.client res
    | .server .close => False
    | _ => True

/-! ### The connection and its calls -/

/-- Nobody has closed anything, and both sides read. -/
structure Alive (s : State V) : Prop where
  returned : s.server.returned = false
  serverOpen : s.server.connClosed = false
  clientOpen : s.client.connClosed = false
  usable : (s.client.shutdown || s.client.closing) = false
  reader : s.client.reader = .loop ∨ ∃ t fr, s.client.reader = .holding t fr

/-- Where the `send` of a call with the number `seq` may stand. -/
def SendOk (srv : Config V T) (seq : Option UInt64) : SendPc → Prop
  | .registered => True
  | .ready m => seq = some m.header.seq ∧ Deliverable srv.maxMessageLength m
  | .written => True
  | .finished => True
  | _ => False

/-- A call of a healthy connection. -/
structure Tended (env : Env V) (opt : ClientOption) (srv : Config V T) (f : Flight V) : Prop where
  numbered : f.seq ≠ none
  sendable : Sendable env opt srv f.init
  send : SendOk srv f.seq f.send
  wait : ∀ t err, f.wait ≠ .cancelled t err

section Client

variable {c c' : Client.Machine.State V} {l : Client.Machine.Label V} {codec : Codec V}

/-- A call that is made on a usable connection is registered. -/
theorem register_of_new (heff : Client.Steps.Effect env opt c l c')
    (husable : (c.shutdown || c.closing) = false)
    (hcodec : codecs env opt.serializeType = some codec)
    {d : CallId} {f' : Flight V} (hnew : c.flights d = none) (hf' : c'.flights d = some f') :
    ∃ viaCall ctx p m args reply, l = .send d viaCall ctx p m args reply ∧
      f' = (newFlight viaCall ctx p m args reply).register c.seq := by
  rcases flight_cases heff hf' with ⟨f, hf, -⟩ | ⟨-, viaCall, ctx, p, m, args, reply, rfl, -, hmade⟩
  · cases hnew.symm.trans hf
  · refine ⟨viaCall, ctx, p, m, args, reply, rfl, ?_⟩
    cases heff with
    | refuse _ _ hwhy =>
      rcases hwhy with ⟨hclosed, -⟩ | ⟨-, hnone, -⟩
      · cases husable.symm.trans hclosed
      · cases hcodec.symm.trans hnone
    | register =>
      simp only [Function.update_self, Option.some.injEq] at hf'
      exact hf'.symm

theorem tended_step (hi : ∀ {d f}, c.flights d = some f → Tended env opt srv f)
    (hreq : ∀ {d f}, c.flights d = some f → SameRequest f.call f.init) (hc : (ledger c).Custody)
    (husable : (c.shutdown || c.closing) = false)
    (hcodec : codecs env opt.serializeType = some codec)
    (hsend : ∀ e v ctx p m args reply, l = .send e v ctx p m args reply →
      Sendable env opt srv (newCall ctx p m args reply))
    (heff : Client.Steps.Effect env opt c l c') (hq : Quiet l) {d : CallId} {f' : Flight V}
    (hf' : c'.flights d = some f') : Tended env opt srv f' := by
  cases hd : c.flights d with
  | none =>
    obtain ⟨v, ctx, p, m, args, reply, hl, rfl⟩ := register_of_new heff husable hcodec hd hf'
    have hcall : ((newFlight v ctx p m args reply).register c.seq).init =
        newCall ctx p m args reply := by
      cases v <;> rfl
    refine ⟨Option.some_ne_none _, ?_, trivial, ?_⟩
    · rw [hcall]
      exact hsend d v ctx p m args reply hl
    · intro t err
      cases v <;> exact nofun
  | some f =>
    have ht := hi hd
    have hfill : ∀ {codec q b}, codecs env opt.serializeType = some codec →
        ∃ req, fillRequest env opt codec f.call q (pooled b) = .ok req ∧
          Deliverable srv.maxMessageLength req := by
      intro codec q b hcodec
      rw [(hreq hd).fillRequest_eq]
      exact ht.sendable codec q b hcodec
    cases quietMove_of_effect hc heff hq hd hf' with
    | same => exact ht
    | prepare hseq hcodec hok =>
      obtain ⟨req, hfill', hdel⟩ := hfill hcodec
      cases hfill'.symm.trans hok
      exact ⟨ht.numbered, ht.sendable, ⟨by rw [fillRequest_seq hok]; exact hseq, hdel⟩, ht.wait⟩
    | prepareFail hcodec herr =>
      obtain ⟨req, hfill', -⟩ := hfill hcodec
      cases hfill'.symm.trans herr
    | write => exact ⟨ht.numbered, ht.sendable, trivial, ht.wait⟩
    | free => exact ⟨ht.numbered, ht.sendable, trivial, ht.wait⟩
    | receive => exact ⟨ht.numbered, ht.sendable, ht.send, nofun⟩
    | respond hl hans =>
      obtain ⟨fr, -, rfl⟩ := hans
      exact ⟨ht.numbered, ht.sendable, ht.send, ht.wait⟩
    | exit => exact ⟨ht.numbered, ht.sendable, ht.send, ht.wait⟩

theorem Acceptable.step {m : Message} (h : Acceptable env c m)
    (heff : Client.Steps.Effect env opt c l c') :
    Acceptable env c' m := by
  obtain ⟨hfit, d, f, hf, hseq, hok⟩ := h
  obtain ⟨f', hf', hmv⟩ := flight_step heff hf
  exact ⟨hfit, d, f', hf', hmv.seq.trans hseq, by rw [hmv.init]; exact hok⟩

end Client

/-! ### The way of a call -/

/-- The request is not written yet. -/
def unsent : SendPc → Bool
  | .registered => true
  | .ready _ => true
  | _ => false

/-- Where the number `q` of the call `d` is found, with the requests `ups` on their way to the
server and the responses `downs` on their way back. -/
inductive OnWay (c : Client.Machine.State V) (t : Server.Machine.State V) (ups downs : List Message)
    (q : UInt64) (d : CallId) : Prop
  | unsent {f : Flight V} (hf : c.flights d = some f) (hpc : unsent f.send = true)
  | up {m : Message} (hm : m ∈ ups) (hq : m.header.seq = q)
  | started {h : Handler V} (hh : h ∈ t.handlers) (hpc : h.pc = .started)
      (hq : h.req.header.seq = q)
  | ready {h : Handler V} {res : Message} (hh : h ∈ t.handlers) (hpc : h.pc = .ready res)
      (hq : res.header.seq = q)
  | down {m : Message} (hm : m ∈ downs) (hq : m.header.seq = q)

/-- What holds on a healthy connection. -/
structure Flowing (env : Env V) (opt : ClientOption) (srv : Config V T) (s : State V)
    (ups downs : List Message) :
    Prop where
  alive : Alive s
  calls : ∀ {d f}, s.client.flights d = some f → Tended env opt srv f
  up : Carries srv.maxMessageLength ups (s.server.inp ++ s.client.out.drop s.up)
  down : Carries env.maxMessageLength downs (s.client.inp ++ s.server.out.drop s.down)
  ready : ∀ {h res}, h ∈ s.server.handlers → h.pc = .ready res → Acceptable env s.client res
  acceptable : ∀ m ∈ downs, Acceptable env s.client m
  holding : ∀ {t fr}, s.client.reader = .holding t fr → ∃ m, fr = norm m ∧ Acceptable env s.client m
  routed : ∀ {q d}, s.client.pending.lookup q = some d → OnWay s.client s.server ups downs q d

theorem flowing_init : Flowing env opt srv (init : State V) [] [] where
  alive := ⟨rfl, rfl, rfl, rfl, Or.inl rfl⟩
  calls h := by cases h
  up := .nil
  down := .nil
  ready h := by cases h
  acceptable m h := by cases h
  holding h := by cases h
  routed h := by simp [init, Client.Machine.init] at h

variable {ups downs : List Message} {codec : Codec V}

/-- A call that takes a response which the client accepts does not stop the reader. -/
theorem Flowing.accepts (h : Flowing env opt srv s ups downs) (hlink : Linked env opt srv s)
    (hle : s.client.registered ≤ 2 ^ 64) (hcodec : codecs env opt.serializeType = some codec)
    {d : CallId} {fr : Message} {f : Flight V} (hpc : s.client.reader = .holding (some d) fr)
    (hf : s.client.flights d = some f) :
    replyPanics env s.client.res f.call = false ∧ (handleCall env s.client.res f.call).2 = none := by
  have hcor := correlated_of_reach (hlink.client.mono fun _ _ h => h.1)
  obtain ⟨hres, -, g, hg, hseq⟩ := hcor.reader hpc
  cases hf.symm.trans hg
  obtain ⟨m, rfl, -, d', f', hf', hseq', hok⟩ := h.holding hpc
  have hd : d = d' := (numbered_of_reach hlink.client).distinct hle hf hf' hseq hseq'
  subst hd
  cases hf.symm.trans hf'
  have hcall : f.call = f.init := by
    obtain ⟨req, hfill, -⟩ := (h.calls hf).sendable codec 0 0 hcodec
    have henc := EndToEnd.encodable_of_fillRequest hcodec hfill
    rcases settled_of_reach hlink.client hf (h.calls hf).numbered henc with ⟨-, hfresh⟩
      | ⟨fr', hfr', -⟩
    · exact (hfresh (by rw [hpc]; exact nofun)).1
    · rw [hcor.frames_nil hpc hf] at hfr'
      cases hfr'
  rw [hres, hcall]
  exact hok

/-- The connection stays alive when the client makes a step. -/
theorem Flowing.alive_client (h : Flowing env opt srv s ups downs) (hlink : Linked env opt srv s)
    (hle : s.client.registered ≤ 2 ^ 64) (hcodec : codecs env opt.serializeType = some codec)
    {l : Client.Machine.Label V} {c : Client.Machine.State V}
    (hok : Healthy env opt srv s (.client l))
    (heff : Client.Steps.Effect env opt s.client l c) : Alive { s with client := c } := by
  have ha := h.alive
  cases heff with
  | act _ hact =>
    cases hact <;> exact ⟨ha.returned, ha.serverOpen, ha.clientOpen, ha.usable, ha.reader⟩
  | readCrash _ hdec =>
    obtain ⟨res, r, hdec'⟩ := hok.2
    cases hdec.symm.trans hdec'
  | readErr _ hdec =>
    obtain ⟨res, r, hdec'⟩ := hok.2
    cases hdec.symm.trans hdec'
  | readPush => exact ⟨ha.returned, ha.serverOpen, ha.clientOpen, ha.usable, Or.inl rfl⟩
  | read => exact ⟨ha.returned, ha.serverOpen, ha.clientOpen, ha.usable, Or.inr ⟨_, _, rfl⟩⟩
  | respondNone => exact ⟨ha.returned, ha.serverOpen, ha.clientOpen, ha.usable, Or.inl rfl⟩
  | respond hpc hf =>
    refine ⟨ha.returned, ha.serverOpen, ha.clientOpen, ha.usable, Or.inl ?_⟩
    show Client.Machine.ReaderPc.next _ = _
    rw [(h.accepts hlink hle hcodec hpc hf).2]
    rfl
  | exit hpc =>
    rcases ha.reader with hr | ⟨t, fr, hr⟩ <;> cases hr.symm.trans hpc
  | close => exact hok.1.1.elim
  | connClose => exact hok.1.1.elim
  | closeClient => exact hok.1.1.elim
  | _ => exact ⟨ha.returned, ha.serverOpen, ha.clientOpen, ha.usable, ha.reader⟩

/-- A frame that the client reads is the first of those on their way. -/
theorem Flowing.read (h : Flowing env opt srv s ups downs) {res : Message} {r : Reader}
    {err : Error}
    (hdec : s.client.res.decode env.maxMessageLength ⟨s.client.inp, err⟩ = .ok (res, r, none)) :
    ∃ m downs', downs = m :: downs' ∧ res.header = m.header ∧
      decodeAlone env ⟨s.client.inp, err⟩ = norm m ∧
      Carries env.maxMessageLength downs' (r.data ++ s.server.out.drop s.down) ∧
      r.data.length < s.client.inp.length := by
  obtain ⟨m₀, hnew, rfl⟩ := decode_reuse.mp hdec
  obtain ⟨m, downs', hdowns, rfl, hrest, hlt⟩ := h.down.decode hnew
  refine ⟨m, downs', hdowns, rfl, ?_, hrest, hlt⟩
  rw [decodeAlone, hnew]
  exact decoded_eq rfl

/-- Nothing that the client reads is a message of the server's own. -/
theorem not_push (hlink : Linked env opt srv s) {res : Message} {r : Reader} {err : Error}
    (hpc : s.client.reader = .loop)
    (hdec : s.client.res.decode env.maxMessageLength ⟨s.client.inp, err⟩ = .ok (res, r, none)) :
    isServerMessage res = false := by
  have hrecv := hlink.downstream
  simp only [Receiving, hpc] at hrecv
  obtain ⟨m, hm, rfl, -⟩ := hrecv.2.decode hdec
  rw [decoded_eq hrecv.1]
  exact isResponse_not_push m hm

theorem Flowing.client (h : Flowing env opt srv s ups downs) (hlink : Linked env opt srv s)
    (hle : s.client.registered ≤ 2 ^ 64) (hcodec : codecs env opt.serializeType = some codec)
    {l : Client.Machine.Label V} {c : Client.Machine.State V}
    (hok : Healthy env opt srv s (.client l))
    (heff : Client.Steps.Effect env opt s.client l c) {ups' downs' : List Message}
    (hup : Carries srv.maxMessageLength ups' (s.server.inp ++ c.out.drop s.up))
    (hdown : Carries env.maxMessageLength downs' (c.inp ++ s.server.out.drop s.down))
    (hsub : ∀ m ∈ downs', m ∈ downs)
    (hholding : ∀ {t fr}, c.reader = .holding t fr → s.client.reader = .holding t fr ∨
      ∃ m ∈ downs, fr = norm m)
    (hrouted : ∀ {q d}, c.pending.lookup q = some d → OnWay c s.server ups' downs' q d) :
    Flowing env opt srv { s with client := c } ups' downs' where
  alive := h.alive_client hlink hle hcodec hok heff
  calls := by
    refine tended_step h.calls (request_of_reach hlink.client)
      (Client.Custody.custody_of_reach hlink.client.any) h.alive.usable hcodec ?_ heff hok.1.1
    rintro e v ctx p m args reply rfl
    exact hok.2
  up := hup
  down := hdown
  ready hh hpc := (h.ready hh hpc).step heff
  acceptable m hm := (h.acceptable m (hsub m hm)).step heff
  holding := by
    intro t fr hpc
    rcases hholding hpc with hold | ⟨m, hm, hfr⟩
    · obtain ⟨m, hfr, hacc⟩ := h.holding hold
      exact ⟨m, hfr, hacc.step heff⟩
    · exact ⟨m, hfr, (h.acceptable m hm).step heff⟩
  routed := hrouted

theorem OnWay.map {c c' : Client.Machine.State V} {t : Server.Machine.State V}
    {ups' downs' : List Message} {q : UInt64} {d : CallId} (h : OnWay c t ups downs q d)
    (hsend : ∀ {f}, c.flights d = some f → Flow.unsent f.send = true → OnWay c' t ups' downs' q d)
    (hup : ∀ m ∈ ups, m ∈ ups') (hdown : ∀ m ∈ downs, m.header.seq = q → m ∈ downs') :
    OnWay c' t ups' downs' q d := by
  cases h with
  | unsent hf hpc => exact hsend hf hpc
  | up hm hq => exact .up (hup _ hm) hq
  | started hh hpc hq => exact .started hh hpc hq
  | ready hh hpc hq => exact .ready hh hpc hq
  | down hm hq => exact .down (hdown _ hm hq) hq

theorem onWay_modifyCall {c c' : Client.Machine.State V} {t : Server.Machine.State V} {q : UInt64}
    {d e : CallId} {fe : Flight V} {g : Flight V → Flight V} (he : c.flights e = some fe)
    (hg : unsent (g fe).send = unsent fe.send) (hc' : c'.flights = modifyCall c.flights e g)
    (h : OnWay c t ups downs q d) : OnWay c' t ups downs q d := by
  refine h.map (fun {f} hf hpc => ?_) (fun m hm => hm) (fun m hm _ => hm)
  by_cases hd : d = e
  · subst hd
    cases hf.symm.trans he
    exact .unsent (f := g fe) (by rw [hc', modifyCall_apply, if_pos rfl, hf, Option.map_some])
      (hg.trans hpc)
  · exact .unsent (by rw [hc', modifyCall_apply, if_neg hd, hf]) hpc

/-- **The client keeps everything on its way.** -/
theorem Flowing.step_client (h : Flowing env opt srv s ups downs) (hlink : Linked env opt srv s)
    (hle : s.client.registered ≤ 2 ^ 64) (hcodec : codecs env opt.serializeType = some codec)
    {l : Client.Machine.Label V} {c : Client.Machine.State V} (hnet : ∀ data, l ≠ .net data)
    (hok : Healthy env opt srv s (.client l)) (heff : Client.Steps.Effect env opt s.client l c) :
    ∃ ups' downs', Flowing env opt srv { s with client := c } ups' downs' := by
  have hflow := @Flowing.client _ _ _ _ _ _ _ _ _ h hlink hle hcodec _ _ hok heff
  cases heff with
  | refuse hnew hctx hwhy =>
    rcases hwhy with ⟨hclosed, -⟩ | ⟨-, hnone, -⟩
    · cases h.alive.usable.symm.trans hclosed
    · cases hcodec.symm.trans hnone
  | @register e viaCall ctx p m args reply codec' hnew =>
    refine ⟨ups, downs, hflow h.up h.down (fun m hm => hm) Or.inl fun {q d} hq => ?_⟩
    rcases lookup_insert_eq_some.mp hq with ⟨-, rfl⟩ | ⟨-, hq⟩
    · exact .unsent (Function.update_self ..) rfl
    · refine (h.routed hq).map (fun {f} hf hpc => ?_) (fun m hm => hm) (fun m hm _ => hm)
      exact .unsent ((Function.update_of_ne (ne_of_new hf hnew) ..).trans hf) hpc
  | @act e fe a _ he ha =>
    have hsame : ∀ {g : Flight V → Flight V},
        c = { s.client with flights := modifyCall s.client.flights e g } →
        unsent (g fe).send = unsent fe.send →
        ∃ ups' downs', Flowing env opt srv { s with client := c } ups' downs' := by
      rintro g rfl hg
      exact ⟨ups, downs, hflow h.up h.down (fun m hm => hm) Or.inl fun hq =>
        onWay_modifyCall he hg rfl (h.routed hq)⟩
    cases ha with
    | prepare hpc => exact hsame rfl (by rw [hpc]; rfl)
    | prepareFail hpc hseq hcodec' herr =>
      obtain ⟨req, hfill, -⟩ := (h.calls he).sendable _ _ _ hcodec'
      rw [(request_of_reach hlink.client he).fillRequest_eq] at herr
      cases hfill.symm.trans herr
    | @write order req hpc horder =>
      have hsend := (h.calls he).send
      rw [hpc] at hsend
      refine ⟨ups ++ [req], downs, hflow ?_ h.down (fun m hm => hm) Or.inl fun {q d} hq => ?_⟩
      · show Carries _ _ (s.server.inp ++ (s.client.out ++ frame req order).drop s.up)
        rw [List.drop_append_of_le_length hlink.up_le, ← List.append_assoc]
        exact h.up.snoc horder (hsend.2 order horder)
      · refine (h.routed hq).map (fun {f} hf hpc' => ?_) (fun m hm => List.mem_append_left _ hm)
          (fun m hm _ => hm)
        by_cases hd : d = e
        · -- the request that is written carries the number of the call
          subst hd
          obtain ⟨f', hf', hseq⟩ := (numbered_of_reach hlink.client).pending_seq hq
          cases hf'.symm.trans he
          exact .up (List.mem_append_right _ List.mem_cons_self)
            (Option.some.inj (hsend.1.symm.trans hseq))
        · exact .unsent (f := f) (by simp only [modifyCall_apply, if_neg hd, hf]) hpc'
    | free hpc =>
      obtain rfl : _ = false := hok.1.1
      exact hsame rfl (by rw [hpc]; rfl)
    | receive => exact hsame rfl rfl
    | _ => exact hok.1.1.elim
  | readCrash _ hdec =>
    obtain ⟨res, r, hdec'⟩ := hok.2
    cases hdec.symm.trans hdec'
  | readErr _ hdec =>
    obtain ⟨res, r, hdec'⟩ := hok.2
    cases hdec.symm.trans hdec'
  | readPush hpc hdec hpush => cases (not_push hlink hpc hdec).symm.trans hpush
  | @read err res r hpc hdec =>
    obtain ⟨m, downs', rfl, hhead, halone, hrest, -⟩ := h.read hdec
    refine ⟨ups, downs', hflow h.up hrest (fun m hm => List.mem_cons_of_mem _ hm) ?_ fun {q d} hq =>
      ?_⟩
    · rintro t fr ⟨⟩
      exact Or.inr ⟨m, List.mem_cons_self, halone⟩
    · obtain ⟨hne, hq⟩ := lookup_erase_eq_some.mp hq
      refine (h.routed hq).map (fun hf hpc' => .unsent hf hpc') (fun m hm => hm)
        (fun m' hm' hseq => ?_)
      -- the entry of the frame that is read is gone
      rcases List.mem_cons.mp hm' with rfl | hm'
      · exact absurd (by rw [hhead, hseq]) hne
      · exact hm'
  | respondNone =>
    exact ⟨ups, downs, hflow h.up h.down (fun m hm => hm) nofun fun hq =>
      (h.routed hq).map (fun hf hpc' => .unsent hf hpc') (fun m hm => hm) (fun m hm _ => hm)⟩
  | @respond e fe fr hpc he =>
    have hnext := (h.accepts hlink hle hcodec hpc he).2
    refine ⟨ups, downs, hflow h.up h.down (fun m hm => hm) ?_ fun {q d} hq => ?_⟩
    · intro t fr' hr
      rw [hnext] at hr
      cases hr
    · refine (h.routed hq).map (fun {f} hf hpc' => ?_) (fun m hm => hm) (fun m hm _ => hm)
      by_cases hd : d = e
      · subst hd
        cases hf.symm.trans he
        exact .unsent (Function.update_self ..) hpc'
      · exact .unsent ((Function.update_of_ne hd ..).trans hf) hpc'
  | exit hpc =>
    rcases h.alive.reader with hr | ⟨t, fr, hr⟩ <;> cases hr.symm.trans hpc
  | close => exact hok.1.1.elim
  | connClose => exact hok.1.1.elim
  | closeClient => exact hok.1.1.elim
  | net => exact absurd rfl (hnet _)

/-! ### Steps of the server and of the network -/

theorem decode_of_healthy {t : Server.Machine.State V} {b : UInt8} {err : Error}
    (hok : Healthy env opt srv s (.server (.decode b err)))
    (hs : Server.Machine.step env srv s.server (.decode b err) = some t) :
    ∃ req r, (pooled b).decode srv.maxMessageLength ⟨s.server.inp, err⟩ = .ok (req, r, none) ∧
      t = { s.server with inp := r.data, handlers := s.server.handlers ++
        [⟨req, .started, none⟩] } := by
  obtain ⟨req, r, hdec⟩ := hok.2
  refine ⟨req, r, hdec, ?_⟩
  simp only [Server.Machine.step, Server.Machine.stepDecode, hdec] at hs
  split_ifs at hs
  exact (Option.some.inj hs).symm

/-- The server answers every request, since none of them is one-way. -/
theorem answered_of_linked (hlink : Linked env opt srv s) {h : Handler V}
    (hh : h ∈ s.server.handlers) (b : UInt8) (method : V → MethodResult V) :
    ∃ res, serveRequest env srv h.req (pooled b) method = some res := by
  obtain ⟨m, ⟨d, f, q, codec, b', -, -, -, hreq⟩, hnorm⟩ := hlink.serving.request hh
  refine Option.ne_none_iff_exists'.mp fun hnone => ?_
  have hone := (System.Responses.serveRequest_eq_none.mp hnone).2
  rw [hnorm] at hone
  cases (Ownership.fillRequest_isOneway hreq).symm.trans hone

theorem OnWay.set {c : Client.Machine.State V} {t t' : Server.Machine.State V}
    {downs' : List Message}
    {q : UInt64} {d : CallId} {k : ℕ} {g g' : Handler V} (h : OnWay c t ups downs q d)
    (hk : t.handlers[k]? = some g) (hset : t'.handlers = t.handlers.set k g')
    (hdown : ∀ m ∈ downs, m ∈ downs')
    (hstarted : g.pc = .started → g.req.header.seq = q → OnWay c t' ups downs' q d)
    (hready : ∀ res, g.pc = .ready res → res.header.seq = q → OnWay c t' ups downs' q d) :
    OnWay c t' ups downs' q d := by
  cases h with
  | unsent hf hpc => exact .unsent hf hpc
  | up hm hseq => exact .up hm hseq
  | started hh hpc hseq =>
    rcases mem_set_or (y := g') hh k with hh | hh
    · exact .started (hset ▸ hh) hpc hseq
    · cases hk.symm.trans hh
      exact hstarted hpc hseq
  | ready hh hpc hseq =>
    rcases mem_set_or (y := g') hh k with hh | hh
    · exact .ready (hset ▸ hh) hpc hseq
    · cases hk.symm.trans hh
      exact hready _ hpc hseq
  | down hm hseq => exact .down (hdown _ hm) hseq

/-- **The server keeps everything on its way.** -/
theorem Flowing.step_server (h : Flowing env opt srv s ups downs) (hlink : Linked env opt srv s)
    {l : Server.Machine.Label V} {t : Server.Machine.State V}
    (hok : Healthy env opt srv s (.server l))
    (hs : Server.Machine.step env srv s.server l = some t) :
    ∃ ups' downs', Flowing env opt srv { s with server := t } ups' downs' := by
  have ha := h.alive
  cases l with
  | decode b err =>
    obtain ⟨req, r, hdec, rfl⟩ := decode_of_healthy hok hs
    obtain ⟨m, ups', rfl, rfl, hrest, -⟩ := h.up.decode hdec
    refine ⟨ups', downs, ⟨ha.returned, ha.serverOpen, ha.clientOpen, ha.usable, ha.reader⟩,
      h.calls, hrest, h.down, fun {g res} hg hpc => ?_, h.acceptable, h.holding, fun {q d} hq => ?_⟩
    · rcases List.mem_append.mp hg with hg | hg
      · exact h.ready hg hpc
      · rw [List.mem_singleton.mp hg] at hpc
        cases hpc
    · cases h.routed hq with
      | unsent hf hpc => exact .unsent hf hpc
      | up hm hseq =>
        rcases List.mem_cons.mp hm with rfl | hm
        · exact .started (List.mem_append_right _ List.mem_cons_self) rfl hseq
        · exact .up hm hseq
      | started hh hpc hseq => exact .started (List.mem_append_left _ hh) hpc hseq
      | ready hh hpc hseq => exact .ready (List.mem_append_left _ hh) hpc hseq
      | down hm hseq => exact .down hm hseq
  | handle k b method =>
    cases Server.Machine.effect_of_step hs with
    | @handle _ _ _ g hk hpc =>
      obtain ⟨res, hres⟩ := answered_of_linked hlink (List.mem_of_getElem? hk) b method
      have hready : (g.handle env srv b method).pc = .ready res := by
        show Option.elim _ _ _ = _
        rw [hres]
        rfl
      refine ⟨ups, downs, ⟨ha.returned, ha.serverOpen, ha.clientOpen, ha.usable, ha.reader⟩,
        h.calls, h.up,
        h.down, fun {g' res'} hg' hpc' => ?_, h.acceptable, h.holding, fun {q d} hq => ?_⟩
      · rcases List.mem_or_eq_of_mem_set hg' with hg' | rfl
        · exact h.ready hg' hpc'
        · cases hready.symm.trans hpc'
          exact hok.2 g res hk hres
      · refine (h.routed hq).set hk rfl (fun m hm => hm) (fun _ hseq => ?_) fun res' hpc' => ?_
        · exact .ready (mem_set_self hk) hready ((serveRequest_header hres).1.trans hseq)
        · cases hpc.symm.trans hpc'
  | write k order =>
    cases Server.Machine.effect_of_step hs with
    | @write _ _ g res hk hpc horder =>
      have hacc := h.ready (List.mem_of_getElem? hk) hpc
      refine ⟨ups, downs ++ [res],
        ⟨ha.returned, ha.serverOpen, ha.clientOpen, ha.usable, ha.reader⟩, h.calls,
        h.up, ?_, fun {g' res'} hg' hpc' => ?_, fun m hm => ?_, h.holding, fun {q d} hq => ?_⟩
      · show Carries _ _ (s.client.inp ++ (s.server.out ++ frame res order).drop s.down)
        rw [List.drop_append_of_le_length hlink.down_le, ← List.append_assoc]
        exact h.down.snoc horder (hacc.1 order horder)
      · rcases List.mem_or_eq_of_mem_set hg' with hg' | rfl
        · exact h.ready hg' hpc'
        · cases hpc'
      · rcases List.mem_append.mp hm with hm | hm
        · exact h.acceptable m hm
        · rw [List.mem_singleton.mp hm]
          exact hacc
      · refine (h.routed hq).set hk rfl (fun m hm => List.mem_append_left _ hm) (fun hpc' => ?_)
          fun res' hpc' hseq => ?_
        · cases hpc.symm.trans hpc'
        · cases hpc.symm.trans hpc'
          exact .down (List.mem_append_right _ List.mem_cons_self) hseq
  | writeErr k order n => exact hok.1.elim
  | close => exact hok.2.elim

theorem Flowing.toServer (h : Flowing env opt srv s ups downs) {data rest : Bytes}
    (hdata : s.client.out.drop s.up = data ++ rest) :
    Flowing env opt srv
      { s with server := { s.server with inp := s.server.inp ++ data }, up := s.up + data.length }
        ups downs := by
  have ha := h.alive
  have hup := h.up
  refine ⟨⟨ha.returned, ha.serverOpen, ha.clientOpen, ha.usable, ha.reader⟩, h.calls, ?_,
    h.down, h.ready, h.acceptable, h.holding, fun hq => ?_⟩
  · show Carries _ _ (s.server.inp ++ data ++ s.client.out.drop (s.up + data.length))
    rwa [← List.drop_drop, hdata, List.drop_left, List.append_assoc, ← hdata]
  · cases h.routed hq with
    | unsent hf hpc => exact .unsent hf hpc
    | up hm hseq => exact .up hm hseq
    | started hh hpc hseq => exact .started hh hpc hseq
    | ready hh hpc hseq => exact .ready hh hpc hseq
    | down hm hseq => exact .down hm hseq

theorem Flowing.toClient (h : Flowing env opt srv s ups downs) {data rest : Bytes}
    (hdata : s.server.out.drop s.down = data ++ rest) :
    Flowing env opt srv
      { s with
        client := { s.client with inp := s.client.inp ++ data }, down := s.down + data.length } ups
      downs := by
  have ha := h.alive
  have hdown := h.down
  refine ⟨⟨ha.returned, ha.serverOpen, ha.clientOpen, ha.usable, ha.reader⟩, h.calls, h.up,
    ?_, h.ready, h.acceptable, h.holding, fun hq => ?_⟩
  · show Carries _ _ (s.client.inp ++ data ++ s.server.out.drop (s.down + data.length))
    rwa [← List.drop_drop, hdata, List.drop_left, List.append_assoc, ← hdata]
  · exact (h.routed hq).map (fun hf hpc => .unsent hf hpc) (fun m hm => hm) (fun m hm _ => hm)

/-! ### Runs -/

theorem Flowing.step (h : Flowing env opt srv s ups downs) (hlink : Linked env opt srv s)
    (hle : s.client.registered ≤ 2 ^ 64) (hcodec : codecs env opt.serializeType = some codec)
    (hok : Healthy env opt srv s l) (hstep : Machine.step env opt srv s l = some s') :
    ∃ ups' downs', Flowing env opt srv s' ups' downs' := by
  cases effect_of_step hstep with
  | client hnet hs => exact h.step_client hlink hle hcodec hnet hok (Client.Steps.effect_of_step hs)
  | server hs => exact h.step_server hlink hok hs
  | toServer hdata => exact ⟨ups, downs, h.toServer hdata⟩
  | toClient hdata hs =>
    cases Client.Steps.effect_of_step hs with
    | net => exact ⟨ups, downs, h.toClient hdata⟩

theorem linked_of_healthy (h : Reach (step env opt srv) (Healthy env opt srv) init s) :
    Linked env opt srv s :=
  linked_of_reach (h.mono fun _ _ hok => hok.1)

theorem registered_le (hstep : step env opt srv s l = some s') :
    s.client.registered ≤ s'.client.registered := by
  cases effect_of_step hstep with
  | client _ hs => exact Client.Sequence.registered_le (Client.Steps.effect_of_step hs)
  | server => exact le_rfl
  | toServer => exact le_rfl
  | toClient _ hs => exact Client.Sequence.registered_le (Client.Steps.effect_of_step hs)

/-- **Nothing is lost** on a healthy connection, as long as the numbers do not repeat. -/
theorem flowing_of_reach (hcodec : codecs env opt.serializeType = some codec)
    (h : Reach (Machine.step env opt srv) (Healthy env opt srv) init s)
    (hle : s.client.registered ≤ 2 ^ 64) :
    ∃ ups downs, Flowing env opt srv s ups downs := by
  refine h.invariant (P := fun s => s.client.registered ≤ 2 ^ 64 →
    ∃ ups downs, Flowing env opt srv s ups downs)
    (fun _ => ⟨[], [], flowing_init⟩) ?_ hle
  intro t u l hr hi hok hs hu
  have hle' := (registered_le hs).trans hu
  obtain ⟨ups, downs, hflow⟩ := hi hle'
  exact hflow.step (linked_of_healthy hr) hle' hcodec hok hs

end Frpc.System.Flow
