import Frpc.Lib.Runs
import Frpc.System.Links

/-! # One response per request

A connection of the server, over any bytes that its peer sends: `serveConn` starts a goroutine for
every request, and the goroutines end in any order. The log of a run lists the requests that were
decoded and what each goroutine handed to `conn.Write`. When all goroutines have ended, each of them
has handed over one frame, the response to its own request, except those of one-way requests, which
have handed over nothing (`one_response_per_request`). -/

namespace Frpc.System.Responses

open Frpc.Basic Frpc.Codecs Frpc.Lib.Runs Frpc.Protocol.Headers Frpc.Protocol.Messages
  Frpc.Protocol.Wire
open Frpc.Server.Machine Frpc.System.Exchange Frpc.System.Links

variable {V T : Type} {env : Env V} {srv : Config V T} {req : Message} {method : V → MethodResult V}

/-! ### When `handleRequest` fails -/

/-- The service of the request is registered, and has the method. -/
def Finds (srv : Config V T) (req : Message) (mtype : MethodType T) : Prop :=
  ∃ service, srv.serviceMap req.servicePath = some service ∧ service req.serviceMethod = some mtype

/-- The codec that the request names decodes the arguments. -/
def Decodes (env : Env V) (srv : Config V T) (req : Message) (mtype : MethodType T)
    (codec : Codec V) (argv : V) : Prop :=
  codecs env req.header.serializeType = some codec ∧
    codec.decode req.payload (srv.new mtype.argType) = (argv, none)

/-- The ways in which `handleRequest` fails, with the error: the service, the method or the codec is
not known, the arguments cannot be decoded, the method returns an error or panics, or the reply
cannot be encoded. -/
inductive Fails (env : Env V) (srv : Config V T) (req : Message) (method : V → MethodResult V) :
    Error → Prop
  | service (hs : srv.serviceMap req.servicePath = none) :
      Fails env srv req method (.other (str "frpc: can't find service " ++ req.servicePath))
  | method {service : Bytes → Option (MethodType T)}
      (hs : srv.serviceMap req.servicePath = some service) (hm : service req.serviceMethod = none) :
      Fails env srv req method (.other (str "frpc: can't find method " ++ req.serviceMethod))
  | codec {mtype : MethodType T} (hm : Finds srv req mtype)
      (hc : codecs env req.header.serializeType = none) :
      Fails env srv req method
        (.other (str "can not find codec for " ++ str (toString req.header.serializeType.toNat)))
  | args {mtype : MethodType T} {codec : Codec V} {argv : V} {err : Error}
      (hm : Finds srv req mtype) (hc : codecs env req.header.serializeType = some codec)
      (hd : codec.decode req.payload (srv.new mtype.argType) = (argv, some err)) :
      Fails env srv req method err
  | returned {mtype : MethodType T} {codec : Codec V} {argv : V} {err : Error}
      (hm : Finds srv req mtype)
      (ha : Decodes env srv req mtype codec argv) (hx : (method argv).exit = .returned (some err)) :
      Fails env srv req method err
  | panicked {mtype : MethodType T} {codec : Codec V} {argv : V} {text : Bytes}
      (hm : Finds srv req mtype)
      (ha : Decodes env srv req mtype codec argv) (hx : (method argv).exit = .panicked text) :
      Fails env srv req method (.other (str "internal error: " ++ text))
  | reply {mtype : MethodType T} {codec : Codec V} {argv : V} {err : Error}
      (hm : Finds srv req mtype)
      (ha : Decodes env srv req mtype codec argv) (hx : (method argv).exit = .returned none)
      (he : codec.encode (method argv).reply = .error err) : Fails env srv req method err

theorem findMethod_eq_ok {mtype : MethodType T} :
    findMethod srv req.servicePath req.serviceMethod = .ok mtype ↔ Finds srv req mtype := by
  unfold findMethod Finds
  cases srv.serviceMap req.servicePath with
  | none => simp
  | some service => cases hm : service req.serviceMethod <;> simp [hm]

theorem decodeArgs_eq_ok {mtype : MethodType T} {codec : Codec V} {argv : V} :
    decodeArgs env srv req mtype = .ok (codec, argv) ↔ Decodes env srv req mtype codec argv := by
  constructor
  · intro h
    unfold decodeArgs at h
    cases hc : codecs env req.header.serializeType with
    | none =>
      rw [hc] at h
      cases h
    | some codec' =>
      simp only [hc] at h
      split at h
      · cases h
      · rename_i hd
        cases h
        exact ⟨hc, hd⟩
  · rintro ⟨hc, hd⟩
    simp only [decodeArgs, hc, hd]

theorem fails_of_findMethod {err : Error}
    (h : findMethod srv req.servicePath req.serviceMethod = .error err) :
    Fails env srv req method err := by
  unfold findMethod at h
  cases hs : srv.serviceMap req.servicePath with
  | none =>
    rw [hs] at h
    cases h
    exact .service hs
  | some service =>
    rw [hs] at h
    cases hm : service req.serviceMethod with
    | none =>
      simp only [hm] at h
      cases h
      exact .method hs hm
    | some mtype =>
      simp only [hm] at h
      cases h

theorem fails_of_decodeArgs {mtype : MethodType T} {err : Error} (hm : Finds srv req mtype)
    (h : decodeArgs env srv req mtype = .error err) : Fails env srv req method err := by
  unfold decodeArgs at h
  cases hc : codecs env req.header.serializeType with
  | none =>
    rw [hc] at h
    cases h
    exact .codec hm hc
  | some codec =>
    simp only [hc] at h
    split at h
    · rename_i hd
      cases h
      exact .args hm hc hd
    · cases h

/-- A method that panics fails as one that returns an error. -/
theorem fails_of_serviceCall {mtype : MethodType T} {codec : Codec V} {argv : V} {err : Error}
    (hm : Finds srv req mtype) (ha : Decodes env srv req mtype codec argv)
    (h : serviceCall (method argv).exit = some err) : Fails env srv req method err := by
  cases hx : (method argv).exit with
  | returned e =>
    rw [hx] at h
    obtain rfl : e = some err := h
    exact .returned hm ha hx
  | panicked text =>
    rw [hx] at h
    cases h
    exact .panicked hm ha hx

theorem serviceCall_eq_none {exit : MethodExit} :
    serviceCall exit = none ↔ exit = .returned none := by
  cases exit <;> simp [serviceCall]

/-- **`handleRequest` returns an error** exactly in these cases. -/
theorem handleRequest_error_iff {b : UInt8} {err : Error} :
    (handleRequest env srv req (pooled b) method).1.2 = some err ↔
      Fails env srv req method err := by
  rw [handleRequest_eq]
  constructor
  · intro h
    cases hm : findMethod srv req.servicePath req.serviceMethod with
    | error e =>
      rw [hm] at h
      cases h
      exact fails_of_findMethod hm
    | ok mtype =>
      have hfind := findMethod_eq_ok.mp hm
      cases ha : decodeArgs env srv req mtype with
      | error e =>
        simp only [hm, ha] at h
        cases h
        exact fails_of_decodeArgs hfind ha
      | ok x =>
        obtain ⟨codec, argv⟩ := x
        have hargs := decodeArgs_eq_ok.mp ha
        cases hx : serviceCall (method argv).exit with
        | some e =>
          simp only [hm, ha, hx] at h
          cases h
          exact fails_of_serviceCall hfind hargs hx
        | none =>
          cases he : codec.encode (method argv).reply with
          | error e =>
            simp only [hm, ha, hx, he] at h
            cases h
            exact .reply hfind hargs (serviceCall_eq_none.mp hx) he
          | ok data =>
            simp only [hm, ha, hx, he] at h
            cases h
  · intro h
    cases h with
    | service hs => simp only [findMethod, hs]; rfl
    | method hs hm => simp only [findMethod, hs, hm]; rfl
    | codec hm hc => simp only [findMethod_eq_ok.mpr hm, decodeArgs, hc]; rfl
    | args hm hc hd => simp only [findMethod_eq_ok.mpr hm, decodeArgs, hc, hd]; rfl
    | returned hm ha hx =>
      simp only [findMethod_eq_ok.mpr hm, decodeArgs_eq_ok.mpr ha, hx, serviceCall]
      rfl
    | panicked hm ha hx =>
      simp only [findMethod_eq_ok.mpr hm, decodeArgs_eq_ok.mpr ha, hx, serviceCall]
      rfl
    | reply hm ha hx he =>
      simp only [findMethod_eq_ok.mpr hm, decodeArgs_eq_ok.mpr ha, hx, serviceCall, he]
      rfl

/-! ### The response to one request -/

/-- The method does not write the key that `handleError` uses. -/
def KeepsKey (method : V → MethodResult V) : Prop := ∀ v, serviceErrorKey ∉ (method v).resMetadata

/-- The frame is a response to the request. It has the number, the path, the method and the
serialize type of the request; if that was an ordinary one, its status says whether `handleRequest`
has failed, and then it carries the text of the error and no payload. -/
def ResponseFrame (env : Env V) (srv : Config V T) (req : Message) (method : V → MethodResult V)
    (data : Bytes) : Prop :=
  ∃ (res : Message) (order : MetaOrder), res.encode order = .ok data ∧ order.toFinmap = res.meta0 ∧
    res.header.messageType = MessageType.response ∧ res.header.seq = req.header.seq ∧
    res.servicePath = req.servicePath ∧ res.serviceMethod = req.serviceMethod ∧
    res.header.serializeType = req.header.serializeType ∧
    (req.header.isHeartbeat = false → req.header.messageStatusType = MessageStatusType.normal →
      (res.header.messageStatusType = MessageStatusType.error ↔
        ∃ err, Fails env srv req method err) ∧
      ∀ err, Fails env srv req method err →
        res.meta0.lookup serviceErrorKey = some err.text ∧ res.payload = [])

section Status

variable {h : Header} {x : UInt8} (hx : x &&& 0x03 = 0)

include hx

theorem status_of_error (hh : h.get 2 = x ||| 0x80 ||| 0x01) :
    h.messageStatusType = MessageStatusType.error := by
  have hbit : ∀ v : BitVec 8, v &&& 0x03 = 0 → (v ||| 0x80 ||| 0x01) &&& 0x03 = 1 := by decide
  rw [Header.messageStatusType, hh]
  exact UInt8.eq_of_toBitVec_eq (hbit x.toBitVec (congrArg UInt8.toBitVec hx))

theorem status_of_ok (hh : h.get 2 = x ||| 0x80) :
    h.messageStatusType ≠ MessageStatusType.error := by
  have hbit : ∀ v : BitVec 8, v &&& 0x03 = 0 → (v ||| 0x80) &&& 0x03 ≠ 1 := by decide
  rw [Header.messageStatusType, hh]
  intro he
  exact hbit x.toBitVec (congrArg UInt8.toBitVec hx) (congrArg UInt8.toBitVec he)

end Status

/-- Path, method and serialize type of a response are those of the request. -/
theorem serveRequest_fields {res : Message} {b : UInt8}
    (h : serveRequest env srv req (pooled b) method = some res) :
    res.servicePath = req.servicePath ∧ res.serviceMethod = req.serviceMethod ∧
      res.header.serializeType = req.header.serializeType := by
  have hblank := blankResponse_serializeType req
  unfold Header.serializeType
  unfold serveRequest at h
  split_ifs at h with hhb how
  · cases h
    exact ⟨rfl, rfl, by rw [← hblank]; rfl⟩
  · rw [Option.some.injEq] at h
    rw [← h]
    rcases handleRequest_cases env srv req b method with
      ⟨err, md, heq, -⟩ | ⟨_, _, _, _, -, -, -, heq⟩ <;> rw [heq]
    · refine ⟨rfl, rfl, ?_⟩
      show (((blankResponse req).header.setMessageStatusType MessageStatusType.error).get 3 &&&
        0xF0) >>> 4 = _
      rw [Header.get_setMessageStatusType, if_neg (by omega), hblank]
    · exact ⟨rfl, rfl, by rw [← hblank]⟩

/-- **The goroutine of a request makes a response to it.** -/
theorem responseFrame_of_serveRequest {res : Message} {b : UInt8} {order : MetaOrder}
    (h : serveRequest env srv req (pooled b) method = some res) (hkey : KeepsKey method)
    (horder : order.toFinmap = res.meta0) : ResponseFrame env srv req method (frame res order) := by
  obtain ⟨hseq, x, hx⟩ := serveRequest_header h
  obtain ⟨hpath, hmethod, hst⟩ := serveRequest_fields h
  refine ⟨res, order, encode_eq res order, horder, Header.messageType_of_bit hx, hseq, hpath,
    hmethod, hst, fun hhb hstatus => ?_⟩
  have hflags : req.header.get 2 &&& 0x03 = 0 := hstatus
  unfold serveRequest at h
  rw [hhb] at h
  simp only [Bool.false_eq_true, if_false] at h
  split_ifs at h with how
  rw [Option.some.injEq] at h
  rcases handleRequest_cases env srv req b method with ⟨err, md, heq, hmd⟩
    | ⟨_, _, _, data, -, -, -, heq⟩
  · have hfails : ∀ e, Fails env srv req method e ↔ err = e := by
      intro e
      rw [← handleRequest_error_iff (b := b), heq]
      exact Option.some_inj
    rw [heq] at h
    rw [← h]
    refine ⟨⟨fun _ => ⟨err, (hfails err).mpr rfl⟩, fun _ => ?_⟩, fun e he => ⟨?_, rfl⟩⟩
    · exact status_of_error hflags (handleError_flags rfl err)
    · have hnot : serviceErrorKey ∉ md := by
        rcases hmd with rfl | ⟨v, rfl⟩
        · exact Finmap.notMem_empty
        · exact hkey v
      rw [← (hfails e).mp he]
      exact lookup_mergeMetadata hnot (Finmap.lookup_insert _)
  · have hfails : ∀ e, ¬ Fails env srv req method e := by
      intro e
      rw [← handleRequest_error_iff (b := b), heq]
      simp
    rw [heq] at h
    rw [← h]
    refine ⟨⟨fun he => absurd he ?_, fun ⟨e, he⟩ => absurd he (hfails e)⟩,
      fun e he => absurd he (hfails e)⟩
    exact status_of_ok hflags (blankResponse_flags rfl)

/-! ### What can be observed of a connection -/

/-- Requests that are decoded, and frames that the goroutine of request `k` hands to
`conn.Write`. -/
inductive Event where
  | decoded (req : Message)
  | handed (k : ℕ) (data : Bytes)

/-- What the goroutine of request `k` hands to `conn.Write`. -/
def handOver (s : State V) (k : ℕ) (order : MetaOrder) : List Event :=
  match s.handlers[k]? with
  | some ⟨_, .ready res, _⟩ =>
    match res.encode order with
    | .ok data => [.handed k data]
    | .error _ => []
  | _ => []

/-- What a step shows of the connection; a write that fails has been given the whole frame. -/
def observe (s : State V) : Label V → State V → List Event
  | .decode _ _, s' => (s'.handlers.drop s.handlers.length).map fun h => .decoded h.req
  | .write k order, _ => handOver s k order
  | .writeErr k order _, _ => handOver s k order
  | _, _ => []

/-- All requests that were decoded. -/
def requests : List Event → List Message
  | [] => []
  | .decoded req :: es => req :: requests es
  | .handed _ _ :: es => requests es

/-- All that the goroutine of request `k` has handed to `conn.Write`. -/
def written (k : ℕ) : List Event → List Bytes
  | [] => []
  | .decoded _ :: es => written k es
  | .handed j data :: es => if j = k then data :: written k es else written k es

@[simp] theorem requests_append (es es' : List Event) :
    requests (es ++ es') = requests es ++ requests es' := by
  induction es with
  | nil => rfl
  | cons e es ih => cases e <;> simp [requests, ih]

@[simp] theorem written_append (k : ℕ) (es es' : List Event) :
    written k (es ++ es') = written k es ++ written k es' := by
  induction es with
  | nil => rfl
  | cons e es ih =>
    cases e with
    | decoded req => simpa [written] using ih
    | handed j data =>
      simp only [List.cons_append, written, ih]
      split_ifs <;> rfl

theorem handOver_ready {s : State V} {k : ℕ} {h : Handler V} {res : Message}
    (hk : s.handlers[k]? = some h) (hpc : h.pc = .ready res) (order : MetaOrder) :
    handOver s k order = [.handed k (frame res order)] := by
  obtain ⟨req, pc, method⟩ := h
  subst hpc
  simp only [handOver, hk, encode_eq]

/-! ### Every run -/

/-- Where the goroutine of a request stands, and what it has handed over. -/
inductive Stage (env : Env V) (srv : Config V T) (h : Handler V) (w : List Bytes) : Prop
  | started (hpc : h.pc = .started) (hw : w = [])
  | ready {b : UInt8} {method : V → MethodResult V} {res : Message} (hpc : h.pc = .ready res)
      (hm : h.method = some method) (hkey : KeepsKey method)
      (hres : serveRequest env srv h.req (pooled b) method = some res) (hw : w = [])
  | silent {b : UInt8} {method : V → MethodResult V} (hpc : h.pc = .finished)
      (hm : h.method = some method) (hres : serveRequest env srv h.req (pooled b) method = none)
      (hw : w = [])
  | answered {b : UInt8} {method : V → MethodResult V} {res : Message} {order : MetaOrder}
      (hpc : h.pc = .finished) (hm : h.method = some method) (hkey : KeepsKey method)
      (hres : serveRequest env srv h.req (pooled b) method = some res)
      (horder : order.toFinmap = res.meta0) (hw : w = [frame res order])

/-- The requests of the log are those of the goroutines, and each goroutine has handed over what it
should have by now. -/
structure Served (env : Env V) (srv : Config V T) (x : State V × List Event) : Prop where
  requests : requests x.2 = x.1.handlers.map (·.req)
  beyond : ∀ {k}, x.1.handlers.length ≤ k → written k x.2 = []
  stage : ∀ {k h}, x.1.handlers[k]? = some h → Stage env srv h (written k x.2)

/-- The condition on the methods, as one on the steps. -/
def MethodsKeepKey (_ : State V) : Label V → Prop
  | .handle _ _ method => KeepsKey method
  | _ => True

variable {x : State V × List Event} {s' : State V} {l : Label V}

theorem Served.init (d : Bytes) : Served env srv (({ init with inp := d } : State V), []) :=
  ⟨rfl, fun _ => rfl, fun h => by simp [Server.Machine.init] at h⟩

theorem Served.set {k : ℕ} {h h' : Handler V} {es : List Event} (hi : Served env srv x)
    (hk : x.1.handlers[k]? = some h) (hs : s'.handlers = x.1.handlers.set k h')
    (hreq : h'.req = h.req)
    (hes : Responses.requests es = []) (hother : ∀ j, j ≠ k → written j es = [])
    (hstage : Stage env srv h' (written k (x.2 ++ es))) : Served env srv (s', x.2 ++ es) where
  requests := by
    have hmap : (x.1.handlers.set k h').map (·.req) = x.1.handlers.map (·.req) := by
      have hreq' : (x.1.handlers.map (·.req))[k]? =
          some h'.req := by rw [List.getElem?_map, hk, hreq]; rfl
      obtain ⟨hlt', hget'⟩ := List.getElem?_eq_some_iff.mp hreq'
      rw [List.map_set, ← hget', List.set_getElem_self]
    rw [requests_append, hes, List.append_nil, hi.requests, hs, hmap]
  beyond := by
    intro j hj
    have hlt : k < x.1.handlers.length := (List.getElem?_eq_some_iff.mp hk).1
    rw [hs, List.length_set] at hj
    rw [written_append, hi.beyond hj, hother j (by omega)]
    rfl
  stage := by
    intro j g hg
    rw [hs, List.getElem?_set] at hg
    by_cases hjk : j = k
    · subst hjk
      have hlt : j < x.1.handlers.length := (List.getElem?_eq_some_iff.mp hk).1
      rw [if_pos rfl, if_pos hlt] at hg
      cases hg
      exact hstage
    · rw [if_neg (Ne.symm hjk)] at hg
      rw [written_append, hother j hjk, List.append_nil]
      exact hi.stage hg

theorem Served.hand {k : ℕ} {h : Handler V} {res : Message} {order : MetaOrder}
    (hi : Served env srv x)
    (hk : x.1.handlers[k]? = some h) (hpc : h.pc = .ready res) (horder : order.toFinmap = res.meta0)
    (hs : s'.handlers = x.1.handlers.set k { h with pc := .finished }) :
    Served env srv (s', x.2 ++ handOver x.1 k order) := by
  rw [handOver_ready hk hpc]
  refine hi.set hk hs rfl rfl (fun j hj => by simp [written, hj.symm]) ?_
  cases hi.stage hk with
  | ready hpc' hm hkey hres hw =>
    cases hpc.symm.trans hpc'
    exact .answered rfl hm hkey hres horder (by simp [written, hw])
  | started hpc' => cases hpc.symm.trans hpc'
  | silent hpc' => cases hpc.symm.trans hpc'
  | answered hpc' => cases hpc.symm.trans hpc'

theorem Served.step (hi : Served env srv x) (hkey : MethodsKeepKey x.1 l)
    (h : Effect env srv x.1 l s') :
    Served env srv (s', x.2 ++ observe x.1 l s') := by
  cases h with
  | @decode b err req r hopen hdec =>
    have hobs : observe x.1 (.decode b err)
        { x.1 with inp := r.data, handlers := x.1.handlers ++ [⟨req, .started, none⟩] } =
          [.decoded req] := by
      simp [observe]
    rw [hobs]
    refine ⟨?_, fun hj => ?_, fun {j g} hg => ?_⟩
    · simp [Responses.requests, hi.requests]
    · rw [written_append, hi.beyond (by simp at hj; omega)]
      rfl
    · rw [written_append]
      simp only [written, List.append_nil]
      rw [List.getElem?_append] at hg
      split_ifs at hg with hlt
      · exact hi.stage hg
      · rw [List.getElem?_singleton] at hg
        split_ifs at hg with h0
        cases hg
        exact .started rfl (hi.beyond (by omega))
  | @stop b err inp =>
    have hobs : observe x.1 (.decode b err) { x.1 with inp := inp, returned := true } = [] := by
      simp [observe]
    rw [hobs, List.append_nil]
    exact ⟨hi.requests, hi.beyond, hi.stage⟩
  | @handle k b method h hk hpc =>
    have hw : written k x.2 = [] := by
      cases hi.stage hk with
      | started _ hw => exact hw
      | ready hpc' => cases hpc.symm.trans hpc'
      | silent hpc' => cases hpc.symm.trans hpc'
      | answered hpc' => cases hpc.symm.trans hpc'
    show Served env srv (_, x.2 ++ [])
    refine hi.set hk rfl rfl rfl (fun _ _ => rfl) ?_
    rw [List.append_nil, hw]
    cases hres : serveRequest env srv h.req (pooled b) method with
    | none => exact .silent (by simp [Handler.handle, hres]) rfl hres rfl
    | some res => exact .ready (by simp [Handler.handle, hres]) rfl hkey hres rfl
  | write hk hpc horder => exact hi.hand hk hpc horder rfl
  | writeErr hk hpc horder => exact hi.hand hk hpc horder rfl
  | close =>
    show Served env srv (_, x.2 ++ [])
    rw [List.append_nil]
    exact ⟨hi.requests, hi.beyond, hi.stage⟩

theorem served_of_reach {d : Bytes}
    (h : Reach (logged (step env srv) observe) (fun x l => MethodsKeepKey x.1 l)
      ({ init with inp := d }, [])
      x) : Served env srv x := by
  refine h.invariant (P := Served env srv) (.init d) ?_
  intro y z l _ hi hkey hs
  obtain ⟨s', hs', rfl⟩ := logged_eq_some.mp hs
  exact hi.step hkey (effect_of_step hs')

/-- A one-way request that is not a heartbeat is the only one that is not answered. -/
theorem serveRequest_eq_none {b : UInt8} :
    serveRequest env srv req (pooled b) method = none ↔
      req.header.isHeartbeat = false ∧ req.header.isOneway = true := by
  unfold serveRequest
  cases req.header.isHeartbeat <;> cases req.header.isOneway <;> simp

/-! ### The goroutines come to their end -/

/-- The steps of the goroutine of request `k`, whose method does `method`. Its write fails only if
the connection is closed. -/
def OfRequest (k : ℕ) (method : V → MethodResult V) (s : State V) : Label V → Prop
  | .handle j _ m => j = k ∧ m = method
  | .write j _ => j = k
  | .writeErr j _ _ => j = k ∧ s.connClosed = true
  | _ => False

/-- Whatever the method of request `k` does, steps of its goroutine lead to its end. -/
def CanEnd (env : Env V) (srv : Config V T) (k : ℕ) (x : State V × List Event) : Prop :=
  ∀ method, ∃ y, Reach (logged (step env srv) observe) (fun x l => OfRequest k method x.1 l) x y ∧
    ∃ g, y.1.handlers[k]? = some g ∧ g.pc = .finished

theorem exists_order (md : Metadata) : ∃ order : MetaOrder, order.toFinmap = md :=
  Finmap.induction_on md fun order => ⟨order, rfl⟩

theorem step_of_ready (env : Env V) (srv : Config V T) {s : State V} {k : ℕ} {g : Handler V}
    {res : Message}
    (hk : s.handlers[k]? = some g) (hpc : g.pc = .ready res) (method : V → MethodResult V) :
    ∃ l out, OfRequest k method s l ∧ step env srv s l =
      some { s with out := out, handlers := s.handlers.set k { g with pc := .finished } } := by
  obtain ⟨order, horder⟩ := exists_order res.meta0
  cases hconn : s.connClosed with
  | false =>
    refine ⟨.write k order, s.out ++ frame res order, rfl, ?_⟩
    simp [step, hk, hpc, encode_eq, horder, hconn]
  | true =>
    refine ⟨.writeErr k order 0, s.out ++ (frame res order).take 0, ⟨rfl, hconn⟩, ?_⟩
    simp [step, hk, hpc, encode_eq, horder, hconn]

theorem canEnd_of_ready {k : ℕ} {g : Handler V} {res : Message} (hk : x.1.handlers[k]? = some g)
    (hpc : g.pc = .ready res) : CanEnd env srv k x := by
  intro method
  have hlt : k < x.1.handlers.length := (List.getElem?_eq_some_iff.mp hk).1
  obtain ⟨l, out, hok, hs⟩ := step_of_ready env srv hk hpc method
  exact ⟨_, .tail .refl hok (logged_eq_some.mpr ⟨_, hs, rfl⟩), _, List.getElem?_set_self hlt, rfl⟩

theorem decodePanics_eq_false (hdec : DecodeReturns env) (req : Message) :
    decodePanics env srv req = false := by
  unfold decodePanics
  split
  · rename_i mtype codec _ hc
    rw [hdec _ codec hc, Bool.and_false]
  · rfl

/-- If no `Decode` panics, the goroutine of a request ends when its method does. -/
theorem canEnd_of_handler (hdec : DecodeReturns env) {k : ℕ} {g : Handler V}
    (hk : x.1.handlers[k]? = some g) : CanEnd env srv k x := by
  have hlt : k < x.1.handlers.length := (List.getElem?_eq_some_iff.mp hk).1
  cases hpc : g.pc with
  | started =>
    intro method
    have hs : step env srv x.1 (.handle k 0 method) =
        some { x.1 with handlers := x.1.handlers.set k (g.handle env srv 0 method) } := by
      simp [step, hk, hpc, decodePanics_eq_false hdec]
    have hrun : Reach (logged (step env srv) observe) (fun x l => OfRequest k method x.1 l) x _ :=
      .tail (l := .handle k 0 method) .refl ⟨rfl, rfl⟩ (logged_eq_some.mpr ⟨_, hs, rfl⟩)
    cases hres : serveRequest env srv g.req (pooled 0) method with
    | none => exact ⟨_, hrun, _, List.getElem?_set_self hlt, by simp [Handler.handle, hres]⟩
    | some res =>
      have hready : (g.handle env srv 0 method).pc = .ready res := by simp [Handler.handle, hres]
      have hrest : CanEnd env srv k
          ({ x.1 with handlers := x.1.handlers.set k (g.handle env srv 0 method) }, x.2 ++ []) :=
        canEnd_of_ready (List.getElem?_set_self hlt) hready
      obtain ⟨y, hy, hend⟩ := hrest method
      exact ⟨y, hrun.trans hy, hend⟩
  | ready res => exact canEnd_of_ready hk hpc
  | finished => exact fun _ => ⟨x, .refl, g, hk, hpc⟩

/-- **One response per request.** On a connection over which any bytes `d` come in, in every run:
each goroutine can come to its end, if no `Decode` panics. When all have ended, the goroutine of a
one-way request that is not a heartbeat has handed nothing to `conn.Write`, that of every other
request one frame, which is a response to it; and no other frame was handed over. -/
theorem one_response_per_request (env : Env V) (srv : Config V T) {d : Bytes} {s : State V}
    {log : List Event}
    (h : Reach (logged (step env srv) observe) (fun x l => MethodsKeepKey x.1 l)
      ({ init with inp := d }, []) (s, log)) :
    (DecodeReturns env → ∀ k g, s.handlers[k]? = some g → CanEnd env srv k (s, log)) ∧
    ((∀ g ∈ s.handlers, g.pc = .finished) →
      requests log = s.handlers.map (·.req) ∧
      (∀ k, s.handlers.length ≤ k → written k log = []) ∧
      ∀ k g, s.handlers[k]? = some g →
        if g.req.header.isHeartbeat = false ∧ g.req.header.isOneway = true then written k log = []
        else ∃ method data, g.method = some method ∧ written k log = [data] ∧
          ResponseFrame env srv g.req method data) := by
  have hi := served_of_reach h
  refine ⟨fun hdec k g hg => canEnd_of_handler hdec hg, fun hend => ?_⟩
  refine ⟨hi.requests, fun k => hi.beyond, fun k g hg => ?_⟩
  have hfin := hend g (List.mem_of_getElem? hg)
  cases hi.stage hg with
  | started hpc => cases hfin.symm.trans hpc
  | ready hpc => cases hfin.symm.trans hpc
  | silent _ _ hres hw =>
    rw [if_pos (serveRequest_eq_none.mp hres)]
    exact hw
  | @answered b method res order _ hm hkey hres horder hw =>
    rw [if_neg fun hno => by rw [serveRequest_eq_none.mpr hno] at hres; cases hres]
    exact ⟨method, _, hm, hw, responseFrame_of_serveRequest hres hkey horder⟩

/-- A request for the method `M` of the service `A`, with the argument `a`. -/
def request (seq : UInt64) : Message :=
  { newMessage with
    header := newMessage.header.setSeq seq
    servicePath := [65]
    serviceMethod := [77]
    payload := [34, 97, 34] }

/-- The method panics, with the text `x`. -/
def panicking (v : Option Bytes) : MethodResult (Option Bytes) := ⟨v, ∅, .panicked [120]⟩

theorem decodeReturns_quoteEnv : DecodeReturns quoteEnv := by
  intro t codec hc data v
  unfold codecs at hc
  split_ifs at hc <;> cases hc <;> rfl

/-- The method panics for the first of two requests, and the second one is answered before it. -/
def twoRequests : List (Label (Option Bytes)) :=
  [.decode magicNumber .eof, .decode magicNumber .eof, .handle 1 magicNumber echo,
    .handle 0 magicNumber panicking, .write 1 ∅,
    .write 0 (AList.singleton serviceErrorKey (str "internal error: x"))]

theorem twoRequests_keepKey (x : State (Option Bytes) × List Event) {l : Label (Option Bytes)}
    (hl : l ∈ twoRequests) : MethodsKeepKey x.1 l := by
  simp only [twoRequests, List.mem_cons, List.not_mem_nil, or_false] at hl
  rcases hl with rfl | rfl | rfl | rfl | rfl | rfl
  · trivial
  · trivial
  · exact fun _ => Finmap.notMem_empty
  · exact fun _ => Finmap.notMem_empty
  · trivial
  · trivial

theorem one_response_two :
    DecodeReturns quoteEnv ∧ ∃ s log d₀ d₁,
      Reach (logged (step quoteEnv oneMethod) observe) (fun x l => MethodsKeepKey x.1 l)
        ({ init with inp := frame (request 1) ∅ ++ frame (request 2) ∅ }, []) (s, log) ∧
      s.handlers.length = 2 ∧ (∀ g ∈ s.handlers, g.pc = .finished) ∧
      written 0 log = [d₀] ∧ ResponseFrame quoteEnv oneMethod (request 1) panicking d₀ ∧
      Fails quoteEnv oneMethod (request 1) panicking (.other (str "internal error: " ++ [120])) ∧
      written 1 log = [d₁] ∧ ResponseFrame quoteEnv oneMethod (request 2) echo d₁ := by
  have hrun : Reach (logged (step quoteEnv oneMethod) observe) (fun x l => MethodsKeepKey x.1 l)
      ({ init with inp := frame (request 1) ∅ ++ frame (request 2) ∅ }, []) _ :=
    reach_of_labels twoRequests (fun x l hl => twoRequests_keepKey x hl) rfl
  have hend : ∀ g ∈ [(⟨request 1, .finished, some panicking⟩ : Handler (Option Bytes)),
      ⟨request 2, .finished, some echo⟩], g.pc = .finished := by simp
  obtain ⟨-, -, hall⟩ := (one_response_per_request quoteEnv oneMethod hrun).2 hend
  have h₀ := hall 0 _ rfl
  have h₁ := hall 1 _ rfl
  rw [if_neg (by decide)] at h₀ h₁
  obtain ⟨_, d₀, ⟨⟩, hw₀, hres₀⟩ := h₀
  obtain ⟨_, d₁, ⟨⟩, hw₁, hres₁⟩ := h₁
  refine ⟨decodeReturns_quoteEnv, _, _, d₀, d₁, hrun, rfl, hend, hw₀, hres₀, ?_, hw₁, hres₁⟩
  exact .panicked ⟨_, rfl, rfl⟩ ⟨rfl, rfl⟩ rfl

end Frpc.System.Responses
