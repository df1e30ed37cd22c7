import Frpc.System.Links

/-! # From the call to the method and back

Many calls share a connection, the server handles them in any order, and the responses come back in
any order. From the links: what a call gets is one exchange of its own, with the handler that served
its request (`answered_exchange`). With a codec that round-trips and without compression that is the
error of `handleRequest`, or the reply and the metadata of the method for its arguments
(`end_to_end`). Both need distinct sequence numbers: call number `2 ^ 64` gets what was meant for
call number `0` (`reply_of_other_call`). -/

namespace Frpc.System.EndToEnd

open Frpc.Basic Frpc.Codecs Frpc.Lib.Runs Frpc.Protocol.Headers Frpc.Protocol.Messages
  Frpc.Protocol.Wire
open Frpc.Protocol.RoundTrip Frpc.Client.Answers Frpc.Client.Correlation
open Frpc.Client.Machine (ClientOption CallId Flight Call fillRequest jsonOption)
open Frpc.Client.Custody (Encodable)
open Frpc.Client.Steps (flight_cases)
open Frpc.Server.Machine (Config Handler MethodResult serveRequest findMethod)
open Frpc.System.Exchange Frpc.System.Machine Frpc.System.Links

variable {V T : Type} {env : Env V} {opt : ClientOption} {srv : Config V T} {s s' : State V}
  {l : Label V}

/-! ### Exchanges -/

theorem encodable_of_fillRequest {codec : Codec V} {call : Call V} {q : UInt64} {b : UInt8}
    {m : Message} (hcodec : codecs env opt.serializeType = some codec)
    (h : fillRequest env opt codec call q (pooled b) = .ok m) : Encodable env opt call := by
  intro codec' hcodec'
  cases hcodec.symm.trans hcodec'
  rcases fillRequest_eq_ok h with ⟨hheart, -⟩ | ⟨data, hdata, ⟨-, z, hzip, -⟩ | ⟨hplain, -⟩⟩
  · exact Or.inl hheart
  · exact Or.inr ⟨data, hdata, fun _ _ => ⟨z, hzip⟩⟩
  · exact Or.inr ⟨data, hdata, fun hlen hz => absurd ⟨hlen, hz⟩ hplain⟩

/-- **One exchange for each call.** In every run with atomic writes and at most `2 ^ 64` registered
calls, a call that was answered is what one exchange makes of it, with a handler that has served its
request, and its caller gets the error of that exchange. -/
theorem answered_exchange (h : Reach (step env opt srv) Atomic init s)
    (hle : s.client.registered ≤ 2 ^ 64)
    {d : CallId} {f : Flight V} (hf : s.client.flights d = some f) (hans : f.frames ≠ []) :
    ∃ k ∈ s.server.handlers, ∃ method codec q b b' m res, k.method = some method ∧ f.seq = some q ∧
      codecs env opt.serializeType = some codec ∧
        fillRequest env opt codec f.init q (pooled b) = .ok m ∧
      k.req = norm m ∧ serveRequest env srv (norm m) (pooled b') method = some res ∧
      f.call = exchange env opt srv f.init q b b' method ∧ f.delivered = [f.call.error] ∧
      ∀ e, f.wait = .returned e → e = f.call.error := by
  have hlink := linked_of_reach h
  have hcor := correlated_of_reach (hlink.client.mono fun _ _ h => h.1)
  obtain ⟨fr, hfr, hseq⟩ : ∃ fr, f.frames = [fr] ∧ f.seq = some fr.header.seq := by
    rcases hcor.calls hf with ⟨hnil, -⟩ | ⟨fr, hfr, hseq, -⟩
    · exact absurd hnil hans
    · exact ⟨fr, hfr, hseq⟩
  obtain ⟨res, ⟨k, hk, method, b', hmethod, hres⟩, rfl⟩ := hlink.frames hf fr (by rw [hfr]; simp)
  obtain ⟨m, ⟨d', f', q, codec, b, hf', hq, hcodec, hreq⟩, hkreq⟩ := hlink.serving.request hk
  -- the response has the number of its request, and only this call has that number
  have hnum : f.seq = some q := by
    rw [hseq, show (norm res).header.seq = res.header.seq from rfl,
      (serveRequest_header hres).1, hkreq,
      show (norm m).header.seq = m.header.seq from rfl, fillRequest_seq hreq]
  obtain rfl := (Client.Sequence.numbered_of_reach hlink.client).distinct hle hf hf' hnum hq
  cases hf.symm.trans hf'
  rw [hkreq] at hres
  rcases settled_of_reach hlink.client hf (by rw [hnum]; simp)
    (encodable_of_fillRequest hcodec hreq) with
    ⟨hnil, -⟩ | ⟨fr, hfr', hcall, hdel, hwait⟩
  · exact absurd hnil hans
  · cases hfr.symm.trans hfr'
    rw [← exchange_eq hcodec hreq hres] at hcall
    exact ⟨k, hk, method, codec, q, b, b', m, res, hmethod, hnum, hcodec, hreq, hkreq, hres, hcall,
      hdel, hwait⟩

/-! ### Types -/

/-- The call has arguments of the type of the method, and a new reply. -/
def TypedCall (typeOf : V → T) (srv : Config V T) (p m : Bytes) (args reply : V) : Prop :=
  ∀ mtype, findMethod srv p m = .ok mtype → typeOf args = mtype.argType ∧
    reply = srv.new mtype.replyType

/-- The method leaves a reply of its type, and does not write the key of error texts. -/
def TypedMethod (typeOf : V → T) (srv : Config V T) (req : Message) (method : V → MethodResult V) :
    Prop :=
  (∀ v, serviceErrorKey ∉ (method v).resMetadata) ∧
    ∀ mtype, findMethod srv req.servicePath req.serviceMethod = .ok mtype →
      ∀ v, typeOf (method v).reply = mtype.replyType

/-- The steps that keep to the types. -/
def Typed (typeOf : V → T) (srv : Config V T) (s : State V) : Label V → Prop
  | .client (.send _ _ _ p m args reply) => TypedCall typeOf srv p m args reply
  | .server (.handle k _ method) =>
    ∀ h, s.server.handlers[k]? = some h → TypedMethod typeOf srv h.req method
  | _ => True

/-- What follows for the calls and the handlers. -/
structure WellFormed (typeOf : V → T) (srv : Config V T) (s : State V) : Prop where
  calls : ∀ {d f}, s.client.flights d = some f → f.init.error = none ∧
    TypedCall typeOf srv f.init.servicePath f.init.serviceMethod f.init.args f.init.reply
  methods : ∀ {h method}, h ∈ s.server.handlers → h.method = some method →
    TypedMethod typeOf srv h.req method

variable {typeOf : V → T}

theorem calls_step {c c' : Client.Machine.State V} {l : Client.Machine.Label V}
    (hi : ∀ {d f}, c.flights d = some f → f.init.error = none ∧
      TypedCall typeOf srv f.init.servicePath f.init.serviceMethod f.init.args f.init.reply)
    (ht : Typed typeOf srv s (.client l)) (hs : Client.Steps.Effect env opt c l c') {d : CallId}
    {f' : Flight V} (hf' : c'.flights d = some f') : f'.init.error = none ∧
      TypedCall typeOf srv f'.init.servicePath f'.init.serviceMethod f'.init.args
        f'.init.reply := by
  rcases flight_cases hs hf' with ⟨f, hf, hmv⟩ | ⟨-, hmade⟩
  · rw [hmv.init]
    exact hi hf
  · obtain ⟨viaCall, ctx, p, m, args, reply, rfl, -, ⟨err, rfl⟩ | ⟨rfl, -⟩⟩ :=
      hmade <;> exact ⟨rfl, ht⟩

theorem methods_step {t t' : Server.Machine.State V} {l : Server.Machine.Label V}
    (hi : ∀ {h method}, h ∈ t.handlers → h.method = some method →
      TypedMethod typeOf srv h.req method)
    (ht : ∀ k b method h, l = .handle k b method → t.handlers[k]? = some h →
      TypedMethod typeOf srv h.req method)
    (hs : Server.Machine.Effect env srv t l t') {h : Handler V} {method : V → MethodResult V}
    (hh : h ∈ t'.handlers) (hm : h.method = some method) : TypedMethod typeOf srv h.req method := by
  cases hs with
  | decode =>
    rcases List.mem_append.mp hh with hh | hh
    · exact hi hh hm
    · rw [List.mem_singleton.mp hh] at hm
      cases hm
  | @handle k b _ g hk =>
    rcases List.mem_or_eq_of_mem_set hh with hh | rfl
    · exact hi hh hm
    · cases hm
      exact ht k b method g rfl hk
  | @write _ _ g _ hk =>
    rcases List.mem_or_eq_of_mem_set hh with hh | rfl
    · exact hi hh hm
    · exact hi (h := g) (List.mem_of_getElem? hk) hm
  | @writeErr _ _ _ g _ hk =>
    rcases List.mem_or_eq_of_mem_set hh with hh | rfl
    · exact hi hh hm
    · exact hi (h := g) (List.mem_of_getElem? hk) hm
  | stop => exact hi hh hm
  | close => exact hi hh hm

theorem wellFormed_of_reach (h : Reach (step env opt srv) (Typed typeOf srv) init s) :
    WellFormed typeOf srv s := by
  refine h.invariant ⟨fun h => ?_, fun h => ?_⟩ ?_
  · cases h
  · cases h
  · intro t u l _ hi ht hstep
    cases effect_of_step hstep with
    | client _ hs => exact ⟨calls_step hi.calls ht (Client.Steps.effect_of_step hs), hi.methods⟩
    | @toClient _ data _ _ _ hs =>
      have hnet : Typed typeOf srv t (.client (.net data)) := trivial
      exact ⟨calls_step hi.calls hnet (Client.Steps.effect_of_step hs), hi.methods⟩
    | toServer => exact ⟨hi.calls, hi.methods⟩
    | server hs =>
      refine ⟨hi.calls, methods_step hi.methods ?_ (Server.Machine.effect_of_step hs)⟩
      rintro k b method h rfl hk
      exact ht h hk

/-! ### End to end -/

/-- The request that `send` makes of a call, as the server has decoded it. -/
structure RequestOf (codec : Codec V) (f : Flight V) (req : Message) : Prop where
  seq : f.seq = some req.header.seq
  servicePath : req.servicePath = f.init.servicePath
  serviceMethod : req.serviceMethod = f.init.serviceMethod
  metadata : req.meta0 = f.init.metadata.getD ∅
  payload : codec.encode f.init.args = .ok req.payload

/-- A handler has served the request of the call, the call has the outcome of that run, it was
completed once, and its caller got its error. -/
def OwnOutcome (env : Env V) (srv : Config V T) (codec : Codec V) (s : State V) (f : Flight V) :
    Prop :=
  ∃ k ∈ s.server.handlers, ∃ method, k.method = some method ∧ RequestOf codec f k.req ∧
    Outcome env srv k.req method f.init f.call ∧ f.delivered = [f.call.error] ∧
    ∀ e, f.wait = .returned e → e = f.call.error

/-- **End to end.** Without compression, and with a codec that round-trips: in every run with atomic
writes, well-typed calls and methods, and at most `2 ^ 64` registered calls, every call that was
completed by a response has the outcome of its own request. -/
theorem end_to_end {codec : Codec V} (hlaw : RoundTrips codec typeOf srv.new)
    (hcodec : codecs env opt.serializeType = some codec) (hz : opt.compressType = CompressType.none)
    (h : Reach (step env opt srv) (fun s l => Atomic s l ∧ Typed typeOf srv s l) init s)
    (hle : s.client.registered ≤ 2 ^ 64) {d : CallId} {f : Flight V}
    (hf : s.client.flights d = some f)
    (hans : f.frames ≠ []) (hcall : ¬ (f.init.servicePath = [] ∧ f.init.serviceMethod = [])) :
    OwnOutcome env srv codec s f := by
  obtain ⟨k, hk, method, codec', q, b, b', m, res, hmethod, hq, hcodec', hreq, hkreq, hres, hx,
    hdel, hwait⟩ :=
    answered_exchange (h.mono fun _ _ h => h.1) hle hf hans
  cases hcodec.symm.trans hcodec'
  have hwf := wellFormed_of_reach (h.mono fun _ _ h => h.2)
  have hz' : opt.compressType ≠ CompressType.gzip := by rw [hz]; decide
  obtain ⟨data, hdata, hm⟩ := request_cases hcall hz' hreq
  obtain ⟨herr, hargs⟩ := hwf.calls hf
  obtain ⟨hkey, hresult⟩ := hwf.methods hk hmethod
  have htyped : WellTyped typeOf srv f.init method := by
    refine ⟨fun hmt => (hargs _ hmt).1, fun hmt => (hargs _ hmt).2, fun hmt => ?_, hkey⟩
    refine hresult _ ?_
    rw [hkreq, hm]
    exact hmt
  have hout := exchange_outcome hlaw hcodec hcall htyped herr hz' hreq hres
  rw [← exchange_eq hcodec hreq hres, ← hx, ← hkreq] at hout
  refine ⟨k, hk, method, hmethod, ?_, hout, hdel, hwait⟩
  rw [hkreq]
  refine ⟨?_, by rw [hm]; rfl, by rw [hm]; rfl, ?_, by rw [hm]; exact hdata⟩
  · rw [hq, show (norm m).header.seq = m.header.seq from rfl, fillRequest_seq hreq]
  · rw [norm_meta0, hm]
    rfl

/-! ### Concrete runs -/

/-- The steps of the runs below. -/
def Scope : State (Option Bytes) → Label (Option Bytes) → Prop :=
  fun s l => Atomic s l ∧ Typed (fun _ => ()) oneMethod s l

theorem scope_send {t : State (Option Bytes)} (c : CallId) (args : Option Bytes) :
    Scope t (.client (Client.Machine.sendCall c args)) :=
  ⟨⟨trivial, by rintro _ _ _ _ ⟨⟩⟩, fun _ _ => ⟨rfl, rfl⟩⟩

theorem scope_quiet {t : State (Option Bytes)} {l : Client.Machine.Label (Option Bytes)}
    (hq : Quiet l)
    (hw : ∀ c order, l ≠ .act c (.write order)) (ht : Typed (fun _ => ()) oneMethod t (.client l)) :
    Scope t (.client l) := ⟨⟨hq, fun c order _ _ hl => absurd hl (hw c order)⟩, ht⟩

theorem scope_write {t : State (Option Bytes)} {c : CallId} {o : MetaOrder}
    {f : Flight (Option Bytes)}
    {m : Message} (hf : t.client.flights c = some f) (hpc : f.send = .ready m)
    (hb : (frame m o).length < 2 ^ 32) : Scope t (.client (.act c (.write o))) := by
  refine ⟨⟨trivial, ?_⟩, trivial⟩
  rintro _ _ f' m' ⟨⟩ hf' hpc'
  cases hf.symm.trans hf'
  cases hpc.symm.trans hpc'
  exact hb

theorem scope_respond {t : State (Option Bytes)} {k : ℕ} {o : MetaOrder}
    {h : Handler (Option Bytes)}
    {m : Message} (hk : t.server.handlers[k]? = some h) (hpc : h.pc = .ready m)
    (hb : (frame m o).length < 2 ^ 32) : Scope t (.server (.write k o)) := by
  refine ⟨fun h' m' hk' hpc' => ?_, trivial⟩
  cases hk.symm.trans hk'
  cases hpc.symm.trans hpc'
  exact hb

theorem scope_handle {t : State (Option Bytes)} {k : ℕ} {b : UInt8} :
    Scope t (.server (.handle k b echo)) :=
  ⟨trivial, fun _ _ => ⟨fun _ => Finmap.notMem_empty, fun _ _ _ => rfl⟩⟩

/-- Two calls are made. -/
def making : List (Label (Option Bytes)) :=
  [.client (Client.Machine.sendCall 0 (some [97])), .client (Client.Machine.sendCall 1 (some [98])),
    .client (.act 0 (.prepare magicNumber)), .client (.act 1 (.prepare magicNumber))]

/-- The server reads `n + 1` requests, and handles the last one. -/
def serving (n : ℕ) : List (Label (Option Bytes)) :=
  .toServer 100 :: List.replicate (n + 1) (.server (.decode magicNumber .eof)) ++
    [.server (.handle n magicNumber echo)]

/-- The client reads a response. -/
def receiving : List (Label (Option Bytes)) :=
  [.toClient 100, .client (.read .eof), .client .respond]

theorem scope_making (t : State (Option Bytes)) : ∀ l ∈ making, Scope t l := by
  simp only [making, List.forall_mem_cons]
  exact ⟨scope_send _ _, scope_send _ _, scope_quiet trivial nofun trivial,
    scope_quiet trivial nofun trivial, nofun⟩

theorem scope_serving (n : ℕ) (t : State (Option Bytes)) : ∀ l ∈ serving n, Scope t l := by
  intro l hl
  simp only [serving, List.cons_append, List.mem_cons, List.mem_append, List.mem_replicate,
    List.not_mem_nil, or_false] at hl
  rcases hl with rfl | ⟨-, rfl⟩ | rfl
  · exact ⟨trivial, trivial⟩
  · exact ⟨trivial, trivial⟩
  · exact scope_handle

theorem scope_receiving (t : State (Option Bytes)) : ∀ l ∈ receiving, Scope t l := by
  simp only [receiving, List.forall_mem_cons]
  exact ⟨⟨trivial, trivial⟩, scope_quiet trivial nofun trivial,
    scope_quiet trivial nofun trivial, nofun⟩

set_option maxRecDepth 20000 in
/-- Two calls; the requests arrive in the other order, and the call that was made first is
answered. -/
theorem end_to_end_two :
    ∃ s f, Reach (step quoteEnv jsonOption oneMethod) Scope init s ∧ s.client.registered = 2 ∧
      s.client.flights 0 = some f ∧ f.frames ≠ [] ∧ f.call.error = none ∧ f.call.reply = some [97] ∧
      OwnOutcome quoteEnv oneMethod quoteCodec s f := by
  have hmade : Reach (step quoteEnv jsonOption oneMethod) Scope init _ :=
    reach_of_labels making scope_making rfl
  have hwritten := (hmade.tail (scope_write (c := 1) (o := ∅) rfl rfl (by decide +kernel)) rfl).tail
    (scope_write (c := 0) (o := ∅) rfl rfl (by decide +kernel)) rfl
  have hserved := hwritten.trans (reach_of_labels (serving 1) (scope_serving 1) rfl)
  have hrun :=
    (hserved.tail (scope_respond (k := 1) (o := ∅) rfl rfl (by decide +kernel)) rfl).trans
    (reach_of_labels receiving scope_receiving rfl)
  have hall : ∀ {s f}, Reach (step quoteEnv jsonOption oneMethod) Scope init s →
      s.client.registered = 2 → s.client.flights 0 = some f → f.frames ≠ [] →
        f.init.servicePath = [65] →
      OwnOutcome quoteEnv oneMethod quoteCodec s f := fun h hle hf hans hp =>
    end_to_end quoteCodec_roundTrips rfl rfl h (by omega) hf hans (by rw [hp]; simp)
  exact ⟨_, _, hrun, rfl, rfl, List.cons_ne_nil _ _, rfl, rfl,
    hall hrun rfl rfl (List.cons_ne_nil _ _) rfl⟩

theorem reach_flood : ∀ n, Reach (step quoteEnv jsonOption oneMethod) Scope init
    ⟨Client.Completion.flood n, Server.Machine.init, 0, 0⟩
  | 0 => by
    rw [Client.Completion.flood_zero]
    exact .refl
  | n + 1 => by
    refine .tail (reach_flood n) (scope_send n (some [97])) ?_
    show (Client.Machine.step quoteEnv jsonOption (Client.Completion.flood n) _).map _ = _
    rw [Client.Completion.step_flood]
    rfl

set_option maxRecDepth 20000 in
/-- The counter has come round: call number `2 ^ 64` is filed under the number of call number `0`.
Then call number `0` is written and served, and its response completes the other call, of which the
server has seen nothing. -/
theorem reply_of_other_call :
    ∃ s f, Reach (step quoteEnv jsonOption oneMethod) Scope init s ∧
      s.client.flights (2 ^ 64) = some f ∧ f.init.servicePath = [65] ∧ f.init.args = some [98] ∧
      f.frames ≠ [] ∧ f.call.error = none ∧ f.call.reply = some [97] ∧
      ¬ OwnOutcome quoteEnv oneMethod quoteCodec s f := by
  have hmade := ((reach_flood (2 ^ 64)).tail (scope_send (2 ^ 64) (some [98])) rfl).tail
    (scope_quiet (l := .act 0 (.prepare magicNumber)) trivial nofun trivial) rfl
  have hwritten := hmade.tail (scope_write (c := 0) (o := ∅) rfl rfl (by decide +kernel)) rfl
  have hserved := hwritten.trans (reach_of_labels (serving 0) (scope_serving 0) rfl)
  have hrun :=
    (hserved.tail (scope_respond (k := 0) (o := ∅) rfl rfl (by decide +kernel)) rfl).trans
    (reach_of_labels receiving scope_receiving rfl)
  refine ⟨_, _, hrun, rfl, rfl, rfl, List.cons_ne_nil _ _, rfl, rfl, ?_⟩
  rintro ⟨k, hk, method, -, hreq, -⟩
  cases List.mem_singleton.mp hk
  exact absurd (Except.ok.inj hreq.payload) (by decide +kernel)

end Frpc.System.EndToEnd
