import Frpc.Protocol.Streams
import Frpc.System.Exchange
import Frpc.System.Machine

/-! # What travels between client and server

In a run whose writes are atomic, the bytes on the way to the server are frames of requests, those
on the way to the client are frames of responses to such requests (`Linked`). The two halves of the
proof: what a step of the client does to the requests it has made and to the responses it reads, and
what a step of the server does to the requests it has read and to the responses it writes. -/

namespace Frpc.System.Links

open Frpc.Basic Frpc.Codecs Frpc.Lib.Runs Frpc.Protocol.Headers Frpc.Protocol.Messages
  Frpc.Protocol.Wire
open Frpc.Protocol.RoundTrip Frpc.Protocol.Streams Frpc.Client.Answers Frpc.Client.Correlation
open Frpc.Client.Machine
  (ClientOption CallId Flight fillRequest handleCall isServerMessage decodeAlone)
open Frpc.Client.Custody (ledger)
open Frpc.Client.Steps (flight_step flight_cases)
open Frpc.Server.Machine (Config Handler MethodResult serveRequest)
open Frpc.System.Exchange Frpc.System.Machine

variable {V T : Type} {env : Env V} {opt : ClientOption} {srv : Config V T}

/-- The message is the request of a call of the client. -/
def IsRequest (env : Env V) (opt : ClientOption) (c : Client.Machine.State V) (m : Message) :
    Prop :=
  ∃ d f q codec b, c.flights d = some f ∧ f.seq = some q ∧
    codecs env opt.serializeType = some codec ∧
    fillRequest env opt codec f.init q (pooled b) = .ok m

/-- The message is the response of a handler of the server. -/
def IsResponse (env : Env V) (srv : Config V T) (t : Server.Machine.State V) (m : Message) : Prop :=
  ∃ h ∈ t.handlers, ∃ method b, h.method = some method ∧
    serveRequest env srv h.req (pooled b) method = some m

/-! ### Headers -/

theorem fillRequest_seq {codec : Codec V} {call : Client.Machine.Call V} {q : UInt64} {b : UInt8}
    {m : Message} (h : fillRequest env opt codec call q (pooled b) = .ok m) : m.header.seq = q := by
  rcases fillRequest_eq_ok h with ⟨-, hm⟩ | ⟨data, -, ⟨-, z, -, rfl⟩ | ⟨-, rfl⟩⟩
  · rw [hm]
    show (Header.set _ 2 _).seq = q
    rw [Header.seq_set _ (by omega), Header.seq_setSeq]
  · show (Header.set _ 2 _).seq = q
    rw [Header.seq_set _ (by omega), requestHeader_seq]
  · exact requestHeader_seq q b _

/-- A response has the header of its request, with the bit of a response. -/
theorem serveRequest_header {req m : Message} {b : UInt8} {method : V → MethodResult V}
    (h : serveRequest env srv req (pooled b) method = some m) :
    m.header.seq = req.header.seq ∧ ∃ x, m.header.get 2 = x ||| 0x80 := by
  have hblank : (blankResponse req).header.seq = req.header.seq := Header.seq_set _ (by omega) _
  have hflags := blankResponse_flags (rfl : req.header.get 2 = _)
  unfold serveRequest at h
  split_ifs at h with hhb how
  · cases h
    exact ⟨hblank, _, hflags⟩
  · rw [Option.some.injEq] at h
    rw [← h]
    rcases handleRequest_cases env srv req b method with
      ⟨err, md, heq, -⟩ | ⟨_, _, _, _, -, -, -, heq⟩ <;> rw [heq]
    · refine ⟨(Header.seq_set _ (by omega) _).trans hblank, req.header.get 2 ||| 0x01, ?_⟩
      refine (handleError_flags (rfl : req.header.get 2 = _) err).trans ?_
      rw [UInt8.or_assoc, UInt8.or_comm 0x80, UInt8.or_assoc]
    · exact ⟨hblank, _, hflags⟩

theorem not_isServerMessage {m : Message} {x : UInt8} (hx : m.header.get 2 = x ||| 0x80) :
    isServerMessage (norm m) = false := by
  have hmt : (norm m).header.messageType = MessageType.response := Header.messageType_of_bit hx
  unfold isServerMessage
  rw [hmt]
  rfl

/-! ### Steps of the client -/

section Client

variable {c c' : Client.Machine.State V} {l : Client.Machine.Label V} {P Q : Message → Prop}
  {tail : Bytes}

theorem IsRequest.step {m : Message} (h : IsRequest env opt c m)
    (hs : Client.Steps.Effect env opt c l c') :
    IsRequest env opt c' m := by
  obtain ⟨d, f, q, codec, b, hf, hq, hcodec, hreq⟩ := h
  obtain ⟨f', hf', hm⟩ := flight_step hs hf
  exact ⟨d, f', q, codec, b, hf', hm.seq.trans hq, hcodec, by rw [hm.init]; exact hreq⟩

/-- What is about to be written is a request. -/
def Prepared (env : Env V) (opt : ClientOption) (c : Client.Machine.State V) : Prop :=
  ∀ d f m, c.flights d = some f → f.send = .ready m → IsRequest env opt c m

/-- A request that is about to be written was so before, or has just been filled. -/
theorem ready_cases (hc : (ledger c).Custody) (hs : Client.Steps.Effect env opt c l c')
    (hq : Quiet l) {d : CallId} {f f' : Flight V} {m : Message} (hf : c.flights d = some f)
    (hf' : c'.flights d = some f') (hpc : f'.send = .ready m) :
    f.send = .ready m ∨ ∃ q codec b, f.seq = some q ∧ codecs env opt.serializeType = some codec ∧
      fillRequest env opt codec f.call q (pooled b) = .ok m := by
  cases quietMove_of_effect hc hs hq hf hf' with
  | same => exact Or.inl hpc
  | prepare hseq hcodec hreq =>
    cases hpc
    exact Or.inr ⟨_, _, _, hseq, hcodec, hreq⟩
  | receive => exact Or.inl hpc
  | respond hl hans =>
    obtain ⟨fr, -, rfl⟩ := hans
    exact Or.inl hpc
  | exit => exact Or.inl hpc
  | _ => cases hpc

theorem Prepared.step (hp : Prepared env opt c) (hc : (ledger c).Custody)
    (hreq : ∀ {d f}, c.flights d = some f → SameRequest f.call f.init)
    (hs : Client.Steps.Effect env opt c l c') (hq : Quiet l) : Prepared env opt c' := by
  intro d f' m hf' hpc
  rcases flight_cases hs hf' with ⟨f, hf, -⟩ | ⟨-, hmade⟩
  · rcases ready_cases hc hs hq hf hf' hpc with hpc | ⟨q, codec, b, hseq, hcodec, hfill⟩
    · exact (hp d f m hf hpc).step hs
    · rw [(hreq hf).fillRequest_eq] at hfill
      exact IsRequest.step ⟨d, f, q, codec, b, hf, hseq, hcodec, hfill⟩ hs
  · obtain ⟨viaCall, ctx, p, m', args, reply, -, -, ⟨err, rfl⟩ | ⟨rfl, -⟩⟩ := hmade <;> cases hpc

theorem out_cases (hs : Client.Steps.Effect env opt c l c') (hq : Quiet l) :
    c'.out = c.out ∨ ∃ d f order m, l = .act d (.write order) ∧ c.flights d = some f ∧
      f.send = .ready m ∧ order.toFinmap = m.meta0 ∧ c'.out = c.out ++ frame m order := by
  cases hs with
  | @act d f a _ hf ha =>
    cases ha with
    | write hpc horder => exact Or.inr ⟨d, f, _, _, rfl, hf, hpc, horder, rfl⟩
    | writeErr => exact hq.elim
    | _ => exact Or.inl rfl
  | _ => exact Or.inl rfl

/-- The client still reads, and what is left to read, with `tail` behind it, are frames with the
property `P`; what it holds is such a frame. -/
def Receiving (P : Message → Prop) (c : Client.Machine.State V) (tail : Bytes) : Prop :=
  match c.reader with
  | .loop => c.res.metadata = none ∧ Stream P (c.inp ++ tail)
  | .holding _ fr => (∃ m, P m ∧ fr = norm m) ∧ Stream P (c.inp ++ tail)
  | _ => True

theorem Receiving.mono (hPQ : ∀ m, P m → Q m) (h : Receiving P c tail) : Receiving Q c tail := by
  unfold Receiving at h ⊢
  split at h
  · exact ⟨h.1, h.2.mono hPQ⟩
  · obtain ⟨⟨m, hm, hfr⟩, hst⟩ := h
    exact ⟨⟨m, hPQ m hm, hfr⟩, hst.mono hPQ⟩
  · trivial

theorem Receiving.snoc {m : Message} {order : MetaOrder} (h : Receiving P c tail) (hm : P m)
    (ho : order.toFinmap = m.meta0) (hb : (frame m order).length < 2 ^ 32) :
    Receiving P c (tail ++ frame m order) := by
  unfold Receiving at h ⊢
  split at h
  · exact ⟨h.1, by rw [← List.append_assoc]; exact h.2.snoc hm ho hb⟩
  · exact ⟨h.1, by rw [← List.append_assoc]; exact h.2.snoc hm ho hb⟩
  · trivial

theorem Receiving.net {data : Bytes} (h : Receiving P c (data ++ tail))
    (hs : Client.Steps.Effect env opt c (.net data) c') : Receiving P c' tail := by
  cases hs with
  | net hopen =>
    unfold Receiving at h ⊢
    simp only [List.append_assoc]
    exact h

/-- Without metadata left in the message, a decoded frame is as it was written. -/
theorem decoded_eq {m : Message} {md : Option Metadata} (hmd : md = none) :
    ({ norm m with metadata := (norm m).metadata.or md } : Message) = norm m := by
  rw [hmd, Option.or_none]

/-- **The client reads the frames one by one.** -/
theorem Receiving.step (h : Receiving P c tail) (hP : ∀ m, P m → isServerMessage (norm m) = false)
    (hs : Client.Steps.Effect env opt c l c') (hnet : ∀ data, l ≠ .net data) :
    Receiving P c' tail := by
  cases hs with
  | readCrash => trivial
  | readErr => trivial
  | readPush hpc hdec hpush =>
    simp only [Receiving, hpc] at h
    obtain ⟨m, hm, rfl, -⟩ := h.2.decode hdec
    rw [decoded_eq h.1, hP m hm] at hpush
    cases hpush
  | @read err res r hpc hdec hpush =>
    simp only [Receiving, hpc] at h
    obtain ⟨m₀, hnew, -⟩ := decode_reuse.mp hdec
    obtain ⟨m, hm, hm₀, hst⟩ := h.2.decode hnew
    have hfr : decodeAlone env ⟨c.inp, err⟩ = norm m := by
      rw [decodeAlone, hnew]
      exact hm₀.trans (decoded_eq rfl)
    exact ⟨⟨m, hm, hfr⟩, hst⟩
  | respondNone hpc ht =>
    simp only [Receiving, hpc] at h
    exact ⟨rfl, h.2⟩
  | @respond d f fr hpc hf =>
    simp only [Receiving, hpc] at h
    unfold Receiving
    cases (handleCall env c.res f.call).2 with
    | none => exact ⟨rfl, h.2⟩
    | some e => trivial
  | exit => trivial
  | net => exact absurd rfl (hnet _)
  | act _ ha => cases ha <;> exact h
  | _ => exact h

theorem Receiving.noLeak (h : Receiving P c tail) (hs : Client.Steps.Effect env opt c l c') :
    NoLeak env c l := by
  unfold NoLeak
  split
  · rename_i err
    have hpc : c.reader = .loop := by
      cases hs <;> assumption
    simp only [Receiving, hpc] at h
    exact fun _ _ _ _ _ _ => h.1
  · trivial

end Client

/-! ### Steps of the server -/

section Server

variable {t t' : Server.Machine.State V} {l : Server.Machine.Label V} {R : Message → Prop}
  {tail : Bytes}

/-- What the server has made of requests with the property `R`. -/
structure Serving (env : Env V) (srv : Config V T) (R : Message → Prop)
    (t : Server.Machine.State V) :
    Prop where
  fresh : ∀ {h}, h ∈ t.handlers → h.pc = .started → h.method = none
  request : ∀ {h}, h ∈ t.handlers → ∃ m, R m ∧ h.req = norm m
  ready : ∀ {h m}, h ∈ t.handlers → h.pc = .ready m → IsResponse env srv t m

theorem mem_set_or {α : Type*} {xs : List α} {x y : α} (hx : x ∈ xs) (k : ℕ) :
    x ∈ xs.set k y ∨ xs[k]? = some x := by
  obtain ⟨i, hi⟩ := List.mem_iff_getElem?.mp hx
  by_cases hk : k = i
  · exact Or.inr (hk ▸ hi)
  · exact Or.inl (List.mem_iff_getElem?.mpr ⟨i, by rw [List.getElem?_set_ne hk]; exact hi⟩)

theorem mem_set_self {α : Type*} {xs : List α} {x y : α} {k : ℕ} (hk : xs[k]? = some x) :
    y ∈ xs.set k y := by
  obtain ⟨hlt, -⟩ := List.getElem?_eq_some_iff.mp hk
  exact List.mem_set hlt y

theorem IsResponse.set {m : Message} {k : ℕ} {h h' : Handler V} {t' : Server.Machine.State V}
    (hm : IsResponse env srv t m) (hk : t.handlers[k]? = some h)
    (hset : t'.handlers = t.handlers.set k h')
    (hreq : h'.req = h.req) (hmethod : h.method = none ∨ h'.method = h.method) :
    IsResponse env srv t' m := by
  obtain ⟨g, hg, method, b, hmd, hres⟩ := hm
  unfold IsResponse
  rw [hset]
  rcases mem_set_or (y := h') hg k with hg' | hg'
  · exact ⟨g, hg', method, b, hmd, hres⟩
  · cases hk.symm.trans hg'
    rcases hmethod with hnone | hsame
    · rw [hnone] at hmd
      cases hmd
    · exact ⟨h', mem_set_self hk, method, b, hsame.trans hmd, by rw [hreq]; exact hres⟩

theorem IsResponse.step {m : Message} (hm : IsResponse env srv t m) (hsv : Serving env srv R t)
    (hs : Server.Machine.Effect env srv t l t') : IsResponse env srv t' m := by
  cases hs with
  | decode =>
    obtain ⟨g, hg, hrest⟩ := hm
    exact ⟨g, List.mem_append_left _ hg, hrest⟩
  | stop => exact hm
  | handle hk hpc => exact hm.set hk rfl rfl (Or.inl (hsv.fresh (List.mem_of_getElem? hk) hpc))
  | write hk => exact hm.set hk rfl rfl (Or.inr rfl)
  | writeErr hk => exact hm.set hk rfl rfl (Or.inr rfl)
  | close => exact hm

theorem server_out_cases (hs : Server.Machine.Effect env srv t l t')
    (herr : ∀ k order n, l ≠ .writeErr k order n) :
    t'.out = t.out ∨ ∃ k order h m, l = .write k order ∧ t.handlers[k]? = some h ∧ h.pc = .ready m ∧
      order.toFinmap = m.meta0 ∧ t'.out = t.out ++ frame m order := by
  cases hs with
  | write hk hpc horder => exact Or.inr ⟨_, _, _, _, rfl, hk, hpc, horder, rfl⟩
  | writeErr => exact absurd rfl (herr _ _ _)
  | _ => exact Or.inl rfl

theorem Serving.set {k : ℕ} {h h' : Handler V} (hsv : Serving env srv R t)
    (hs : Server.Machine.Effect env srv t l t') (hk : t.handlers[k]? = some h)
    (hset : t'.handlers = t.handlers.set k h') (hreq : h'.req = h.req) (hpc : h'.pc ≠ .started)
    (hready : ∀ m, h'.pc = .ready m → IsResponse env srv t' m) : Serving env srv R t' := by
  have hcases : ∀ {g}, g ∈ t'.handlers → g ∈ t.handlers ∨ g = h' := fun hg =>
    List.mem_or_eq_of_mem_set (hset ▸ hg)
  constructor
  · intro g hg hstart
    rcases hcases hg with hg | rfl
    · exact hsv.fresh hg hstart
    · exact absurd hstart hpc
  · intro g hg
    rcases hcases hg with hg | rfl
    · exact hsv.request hg
    · rw [hreq]
      exact hsv.request (List.mem_of_getElem? hk)
  · intro g m hg hm
    rcases hcases hg with hg | rfl
    · exact (hsv.ready hg hm).step hsv hs
    · exact hready m hm

/-- **The server answers the requests it reads.** -/
theorem Serving.step (hsv : Serving env srv R t)
    (hst : t.returned = false → Stream R (t.inp ++ tail))
    (hs : Server.Machine.Effect env srv t l t') :
    Serving env srv R t' ∧ (t'.returned = false → Stream R (t'.inp ++ tail)) := by
  have hstep := hs
  cases hs with
  | @decode b err req r hopen hdec =>
    obtain ⟨m, hm, hreq, hrest⟩ := (hst hopen).decode hdec
    have hreq' : req = norm m := hreq.trans (decoded_eq rfl)
    refine ⟨⟨?_, ?_, ?_⟩, fun _ => hrest⟩ <;> intro g
    · intro hg hstart
      rcases List.mem_append.mp hg with hg | hg
      · exact hsv.fresh hg hstart
      · rw [List.mem_singleton.mp hg]
    · intro hg
      rcases List.mem_append.mp hg with hg | hg
      · exact hsv.request hg
      · rw [List.mem_singleton.mp hg]
        exact ⟨m, hm, hreq'⟩
    · intro m' hg hpc
      rcases List.mem_append.mp hg with hg | hg
      · exact (hsv.ready hg hpc).step hsv hstep
      · rw [List.mem_singleton.mp hg] at hpc
        cases hpc
  | stop => exact ⟨⟨hsv.fresh, hsv.request, hsv.ready⟩, fun h => by cases h⟩
  | @handle k b method h hk hpc =>
    have hpc' : (h.handle env srv b method).pc =
        (serveRequest env srv h.req (pooled b) method).elim .finished .ready := rfl
    refine ⟨hsv.set hstep hk rfl rfl ?_ ?_, hst⟩ <;> rw [hpc'] <;>
      cases hres : serveRequest env srv h.req (pooled b) method
    · simp
    · simp
    · simp
    · rintro m ⟨⟩
      exact ⟨h.handle env srv b method, mem_set_self hk, method, b, rfl, hres⟩
  | write hk hpc => exact ⟨hsv.set hstep hk rfl rfl (by simp) (by simp), hst⟩
  | writeErr hk hpc => exact ⟨hsv.set hstep hk rfl rfl (by simp) (by simp), hst⟩
  | close => exact ⟨⟨hsv.fresh, hsv.request, hsv.ready⟩, hst⟩

end Server

/-! ### Runs -/

/-- What holds of both sides in a run whose writes are atomic. -/
structure Linked (env : Env V) (opt : ClientOption) (srv : Config V T) (s : State V) : Prop where
  client : Reach (Client.Machine.step env opt) (fun c l => NoLeak env c l ∧ Quiet l)
    Client.Machine.init
    s.client
  prepared : Prepared env opt s.client
  up_le : s.up ≤ s.client.out.length
  upstream : s.server.returned = false →
    Stream (IsRequest env opt s.client) (s.server.inp ++ s.client.out.drop s.up)
  serving : Serving env srv (IsRequest env opt s.client) s.server
  down_le : s.down ≤ s.server.out.length
  downstream : Receiving (IsResponse env srv s.server) s.client (s.server.out.drop s.down)
  frames : ∀ {d f}, s.client.flights d = some f → ∀ fr ∈ f.frames,
    ∃ m, IsResponse env srv s.server m ∧ fr = norm m

theorem Linked.init : Linked env opt srv (init : State V) where
  client := .refl
  prepared _ _ _ h := by cases h
  up_le := Nat.le_refl 0
  upstream _ := .nil
  serving := ⟨(fun h => by cases h), (fun h => by cases h), (fun h => by cases h)⟩
  down_le := Nat.le_refl 0
  downstream := ⟨rfl, .nil⟩
  frames h := by cases h

theorem Serving.mono {R R' : Message → Prop} {t : Server.Machine.State V} (hR : ∀ m, R m → R' m)
    (h : Serving env srv R t) : Serving env srv R' t where
  fresh := h.fresh
  ready := h.ready
  request hg := by
    obtain ⟨m, hm, hreq⟩ := h.request hg
    exact ⟨m, hR m hm, hreq⟩

theorem isResponse_not_push {t : Server.Machine.State V} (m : Message)
    (h : IsResponse env srv t m) :
    isServerMessage (norm m) = false := by
  obtain ⟨_, _, _, _, _, hres⟩ := h
  obtain ⟨-, x, hx⟩ := serveRequest_header hres
  exact not_isServerMessage hx

variable {s s' : State V} {l : Label V}

theorem frames_step {P : Message → Prop} {c c' : Client.Machine.State V}
    {l : Client.Machine.Label V}
    {tail : Bytes} (hfr : ∀ {d f}, c.flights d = some f → ∀ fr ∈ f.frames, ∃ m, P m ∧ fr = norm m)
    (hrecv : Receiving P c tail) (hs : Client.Steps.Effect env opt c l c') {d : CallId}
    {f' : Flight V} (hf' : c'.flights d = some f') : ∀ fr ∈ f'.frames, ∃ m, P m ∧ fr = norm m := by
  intro fr hmem
  rcases flight_cases hs hf' with ⟨f, hf, hk | ⟨-, fr', hr, rfl⟩⟩ | ⟨-, hmade⟩
  · rw [hk.frames] at hmem
    exact hfr hf fr hmem
  · rcases List.mem_append.mp hmem with hmem | hmem
    · exact hfr hf fr hmem
    · simp only [Receiving, hr] at hrecv
      rw [List.mem_singleton.mp hmem]
      exact hrecv.1
  · rw [(fromOneFrame_of_made env hmade).1] at hmem
    cases hmem

theorem Linked.step_client (h : Linked env opt srv s) {l : Client.Machine.Label V}
    {c : Client.Machine.State V} (hs : Client.Machine.step env opt s.client l = some c)
    (hq : Quiet l) (hb : ∀ e order f req, l = .act e (.write order) → s.client.flights e = some f →
      f.send = .ready req → (frame req order).length < 2 ^ 32)
    {down : ℕ} (hdown : down ≤ s.server.out.length)
    (hrecv : Receiving (IsResponse env srv s.server) c (s.server.out.drop down)) :
    Linked env opt srv { s with client := c, down := down } := by
  have heff := Client.Steps.effect_of_step hs
  have hmono : ∀ m, IsRequest env opt s.client m → IsRequest env opt c m := fun m hm => hm.step heff
  have hcust := Client.Custody.custody_of_reach h.client.any
  refine ⟨.tail h.client ⟨h.downstream.noLeak heff, hq⟩ hs,
    h.prepared.step hcust (request_of_reach h.client) heff hq, ?_,
      fun hret => ?_, h.serving.mono hmono,
    hdown, hrecv, frames_step h.frames h.downstream heff⟩
  · rcases out_cases heff hq with hout | ⟨_, _, _, _, -, -, -, -, hout⟩ <;> rw [hout]
    · exact h.up_le
    · exact h.up_le.trans (by simp)
  · have hst := (h.upstream hret).mono hmono
    rcases out_cases heff hq with hout | ⟨e, f, order, m, hl, hf, hpc, horder, hout⟩
    · show Stream _ (s.server.inp ++ c.out.drop s.up)
      rw [hout]
      exact hst
    · show Stream _ (s.server.inp ++ c.out.drop s.up)
      rw [hout, List.drop_append_of_le_length h.up_le, ← List.append_assoc]
      exact hst.snoc (hmono m (h.prepared e f m hf hpc)) horder (hb e order f m hl hf hpc)

theorem Linked.step (h : Linked env opt srv s) (hat : Atomic s l)
    (hstep : step env opt srv s l = some s') :
    Linked env opt srv s' := by
  cases effect_of_step hstep with
  | client hnet hs =>
    have heff := Client.Steps.effect_of_step hs
    exact h.step_client hs hat.1 hat.2 h.down_le (h.downstream.step isResponse_not_push heff hnet)
  | @toClient n data rest c hdata hs =>
    have hlen := congrArg List.length hdata
    rw [List.length_drop, List.length_append] at hlen
    have hrest : s.server.out.drop (s.down + data.length) = rest := by
      rw [← List.drop_drop, hdata, List.drop_left]
    have hrecv := h.downstream
    rw [hdata] at hrecv
    refine h.step_client hs trivial (by simp) (by have := h.down_le; omega) ?_
    rw [hrest]
    exact hrecv.net (Client.Steps.effect_of_step hs)
  | @toServer n data rest hdata =>
    have hlen := congrArg List.length hdata
    rw [List.length_drop, List.length_append] at hlen
    refine ⟨h.client, h.prepared, ?_,
      fun hret => ?_, ⟨h.serving.fresh, h.serving.request, h.serving.ready⟩,
      h.down_le, h.downstream, h.frames⟩
    · show s.up + data.length ≤ s.client.out.length
      have := h.up_le
      omega
    · show Stream _ (s.server.inp ++ data ++ s.client.out.drop (s.up + data.length))
      have hst := h.upstream hret
      rwa [← List.drop_drop, hdata, List.drop_left, List.append_assoc, ← hdata]
  | @server l t hs =>
    have heff := Server.Machine.effect_of_step hs
    have hmono : ∀ m, IsResponse env srv s.server m → IsResponse env srv t m := fun m hm =>
      hm.step h.serving heff
    have herr : ∀ k order n, l ≠ .writeErr k order n := by
      rintro k order n rfl
      exact hat
    obtain ⟨hserving, hup⟩ := h.serving.step h.upstream heff
    have hrecv := h.downstream.mono hmono
    have hframes : ∀ {d f}, s.client.flights d = some f → ∀ fr ∈ f.frames,
        ∃ m, IsResponse env srv t m ∧ fr = norm m := by
      intro d f hf fr hfr
      obtain ⟨m, hm, heq⟩ := h.frames hf fr hfr
      exact ⟨m, hmono m hm, heq⟩
    refine ⟨h.client, h.prepared, h.up_le, hup, hserving, ?_, ?_, hframes⟩ <;>
      rcases server_out_cases heff herr with hout
        | ⟨k, order, g, m, rfl, hk, hpc, horder, hout⟩ <;> rw [hout]
    · exact h.down_le
    · rw [List.length_append]
      exact h.down_le.trans (by omega)
    · exact hrecv
    · rw [List.drop_append_of_le_length h.down_le]
      exact hrecv.snoc (hmono m (h.serving.ready (List.mem_of_getElem? hk) hpc)) horder
        (hat g m hk hpc)

theorem linked_of_reach (h : Reach (step env opt srv) Atomic init s) : Linked env opt srv s :=
  h.invariant .init fun _ hl hat hs => hl.step hat hs

end Frpc.System.Links
