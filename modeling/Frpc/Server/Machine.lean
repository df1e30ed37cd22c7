import Frpc.Codecs
import Frpc.Protocol.Wire

/-! # The server side of a connection

`server/server.go`: `handleRequest` and the goroutine that `serveConn` starts for every request, and
`serveConn` itself as a state machine. One goroutine decodes requests; each request gets a goroutine
that handles it and writes the response. What a registered method does is not determined by this
code, so `handleRequest` gets it as a function from the arguments to a `MethodResult`, a new one for
each request. `T` is the type of the `reflect.Type`s.

A handler remembers in `method` what the method did; nothing reads this field. -/

namespace Frpc.Server.Machine

open Frpc.Basic Frpc.Codecs Frpc.Protocol.Headers Frpc.Protocol.Messages Frpc.Protocol.Wire

/-- `type methodType struct`, what `handleRequest` reads of it. -/
structure MethodType (T : Type) where
  argType : T
  replyType : T

/-- `type Server struct`, what `serveConn` and `handleRequest` read of it, with `reflect.New` and
`protocol.MaxMessageLength`. `register` refuses a service without a name. -/
structure Config (V T : Type) where
  serviceMap : Bytes → Option (Bytes → Option (MethodType T))
  new : T → V
  maxMessageLength : ℤ
  serviceMap_nil : serviceMap [] = none

/-- How a method ends. -/
inductive MethodExit where
  | returned (err : Option Error)
  /-- With the text of what `recover` returns. -/
  | panicked (text : Bytes)

/-- What a method does: the reply it leaves, the metadata it writes into the map under
`ResMetaDataKey`, and how it ends. -/
structure MethodResult (V : Type) where
  reply : V
  resMetadata : Metadata
  exit : MethodExit

variable {V T : Type}

/-! ### Requests -/

/-- `service.call` -/
def serviceCall : MethodExit → Option Error
  | .returned err => err
  | .panicked text => some (.other (str "internal error: " ++ text))

/-- `handleRequest`: find service and method. -/
def findMethod (srv : Config V T) (serviceName methodName : Bytes) : Except Error (MethodType T) :=
  match srv.serviceMap serviceName with
  | none => .error (.other (str "frpc: can't find service " ++ serviceName))
  | some service =>
    match service methodName with
    | none => .error (.other (str "frpc: can't find method " ++ methodName))
    | some mtype => .ok mtype

/-- `handleRequest`: find the codec and decode the arguments. The payload is not unzipped. -/
def decodeArgs (env : Env V) (srv : Config V T) (req : Message) (mtype : MethodType T) :
    Except Error (Codec V × V) :=
  match codecs env req.header.serializeType with
  | none =>
    .error (.other (str "can not find codec for " ++ str (toString req.header.serializeType.toNat)))
  | some codec =>
    match codec.decode req.payload (srv.new mtype.argType) with
    | (_, some err) => .error err
    | (argv, none) => .ok (codec, argv)

/-- `handleError` -/
def handleError (res : Message) (err : Error) : Message × Option Error :=
  ({ res with
    header := res.header.setMessageStatusType MessageStatusType.error
    metadata := some ((res.metadata.getD ∅).insert serviceErrorKey err.text) }, some err)

/-- `handleRequest`, with the message `c` of the pool: the response, the error, and what is in the
map under `ResMetaDataKey` afterwards. -/
def handleRequest (env : Env V) (srv : Config V T) (req c : Message) (method : V → MethodResult V) :
    (Message × Option Error) × Metadata :=
  let res := req.copy c
  let res := { res with header := res.header.setMessageType MessageType.response }
  match findMethod srv res.servicePath res.serviceMethod with
  | .error err => (handleError res err, ∅)
  | .ok mtype =>
    match decodeArgs env srv req mtype with
    | .error err => (handleError res err, ∅)
    | .ok (codec, argv) =>
      let result := method argv
      match serviceCall result.exit with
      | some err => (handleError res err, result.resMetadata)
      | none =>
        match codec.encode result.reply with
        | .error err => (handleError res err, result.resMetadata)
        | .ok data => (({ res with payload := data }, none), result.resMetadata)

/-- The metadata of a response, when the method has set some. -/
def mergeMetadata (metadata : Option Metadata) (resMetadata : Metadata) : Option Metadata :=
  if resMetadata = ∅ then metadata
  else
    match metadata with
    | none => some resMetadata
    | some md => some (resMetadata ∪ md)

/-- The goroutine of a request: the response that it writes, if it writes one. -/
def serveRequest (env : Env V) (srv : Config V T) (req c : Message) (method : V → MethodResult V) :
    Option Message :=
  if req.header.isHeartbeat then
    some { req with header := req.header.setMessageType MessageType.response }
  else
    let ((res, _), resMetadata) := handleRequest env srv req c method
    if req.header.isOneway then none
    else some { res with metadata := mergeMetadata res.metadata resMetadata }

/-- `Decode` panics on the arguments of the request. The goroutine does not recover, so this is the
end of the process. -/
def decodePanics (env : Env V) (srv : Config V T) (req : Message) : Bool :=
  match findMethod srv req.servicePath req.serviceMethod, codecs env req.header.serializeType with
  | .ok mtype, some codec =>
    !req.header.isHeartbeat && codec.panics req.payload (srv.new mtype.argType)
  | _, _ => false

theorem decodePanics_heartbeat (env : Env V) (srv : Config V T) {req : Message}
    (h : req.header.isHeartbeat = true) : decodePanics env srv req = false := by
  unfold decodePanics
  split
  · rw [h, Bool.not_true, Bool.false_and]
  · rfl

/-! ### The connection -/

/-- Where the goroutine of a request stands. -/
inductive HandlerPc where
  /-- The request was decoded. -/
  | started
  /-- The response is there, `conn.Write` comes next. -/
  | ready (res : Message)
  /-- Nothing is left to write. -/
  | finished

/-- A request and its goroutine. -/
structure Handler (V : Type) where
  req : Message
  pc : HandlerPc
  method : Option (V → MethodResult V)

/-- A connection of the server. -/
structure State (V : Type) where
  inp : Bytes
  out : Bytes
  handlers : List (Handler V)
  /-- The loop of `serveConn` was left. -/
  returned : Bool
  connClosed : Bool

/-- The steps. -/
inductive Label (V : Type) where
  /-- Decode a request into a message of the pool, whose first header byte is `b`. The read fails
  with `err` if the frame is not there. -/
  | decode (b : UInt8) (err : Error)
  /-- The goroutine of request `k` handles it, with a message of the pool for the response, unless
  it panics. -/
  | handle (k : ℕ) (b : UInt8) (method : V → MethodResult V)
  /-- It writes the response. -/
  | write (k : ℕ) (order : MetaOrder)
  /-- It fails to write the response after `n` bytes of it. -/
  | writeErr (k : ℕ) (order : MetaOrder) (n : ℕ)
  /-- `conn.Close`, at the end of `serveConn` or by `Server.Close`. -/
  | close

/-- `serveConn`: decode a request and start its goroutine. An error ends the loop, and so does a
panic of `Decode`, which is recovered. -/
def stepDecode (srv : Config V T) (s : State V) (b : UInt8) (err : Error) : State V :=
  match (pooled b).decode srv.maxMessageLength ⟨s.inp, err⟩ with
  | .error _ => { s with returned := true }
  | .ok (_, r, some _) => { s with inp := r.data, returned := true }
  | .ok (req, r, none) =>
    { s with inp := r.data, handlers := s.handlers ++ [⟨req, .started, none⟩] }

/-- The goroutine of a request, up to `conn.Write`. -/
def Handler.handle (env : Env V) (srv : Config V T) (h : Handler V) (b : UInt8)
    (method : V → MethodResult V) : Handler V :=
  { h with
    pc := (serveRequest env srv h.req (pooled b) method).elim .finished .ready
    method := some method }

/-- One step of the connection. -/
def step (env : Env V) (srv : Config V T) (s : State V) : Label V → Option (State V)
  | .decode b err => if s.returned then none else some (stepDecode srv s b err)
  | .handle k b method =>
    (s.handlers[k]?).bind fun h =>
      match h.pc with
      | .started =>
        if decodePanics env srv h.req then none
        else some { s with handlers := s.handlers.set k (h.handle env srv b method) }
      | _ => none
  | .write k order =>
    (s.handlers[k]?).bind fun h =>
      match h.pc with
      | .ready res =>
        match res.encode order with
        | .ok data =>
          if order.toFinmap = res.meta0 ∧ s.connClosed = false then
            some { s with
              out := s.out ++ data
              handlers := s.handlers.set k { h with pc := .finished } }
          else none
        | .error _ => none
      | _ => none
  | .writeErr k order n =>
    (s.handlers[k]?).bind fun h =>
      match h.pc with
      | .ready res =>
        match res.encode order with
        | .ok data =>
          if order.toFinmap = res.meta0 then
            some { s with
              out := s.out ++ data.take n
              handlers := s.handlers.set k { h with pc := .finished } }
          else none
        | .error _ => none
      | _ => none
  | .close => some { s with connClosed := true }

/-- A new connection. -/
def init : State V := ⟨[], [], [], false, false⟩

/-! ### What a step does -/

/-- The step function, inverted. -/
inductive Effect (env : Env V) (srv : Config V T) (s : State V) : Label V → State V → Prop
  | decode {b : UInt8} {err : Error} {req : Message} {r : Reader} (hopen : s.returned = false)
      (hdec : (pooled b).decode srv.maxMessageLength ⟨s.inp, err⟩ = .ok (req, r, none)) :
      Effect env srv s (.decode b err)
        { s with inp := r.data, handlers := s.handlers ++ [⟨req, .started, none⟩] }
  | stop {b : UInt8} {err : Error} {inp : Bytes} :
      Effect env srv s (.decode b err) { s with inp := inp, returned := true }
  | handle {k : ℕ} {b : UInt8} {method : V → MethodResult V} {h : Handler V}
      (hk : s.handlers[k]? = some h) (hpc : h.pc = .started) :
      Effect env srv s (.handle k b method)
        { s with handlers := s.handlers.set k (h.handle env srv b method) }
  | write {k : ℕ} {order : MetaOrder} {h : Handler V} {res : Message} (hk : s.handlers[k]? = some h)
      (hpc : h.pc = .ready res) (horder : order.toFinmap = res.meta0) :
      Effect env srv s (.write k order)
        { s with
          out := s.out ++ frame res order
          handlers := s.handlers.set k { h with pc := .finished } }
  | writeErr {k : ℕ} {order : MetaOrder} {n : ℕ} {h : Handler V} {res : Message}
      (hk : s.handlers[k]? = some h) (hpc : h.pc = .ready res)
        (horder : order.toFinmap = res.meta0) :
      Effect env srv s (.writeErr k order n)
        { s with
          out := s.out ++ (frame res order).take n
          handlers := s.handlers.set k { h with pc := .finished } }
  | close : Effect env srv s .close { s with connClosed := true }

variable {env : Env V} {srv : Config V T} {s s' : State V} {l : Label V}

theorem effect_of_step (hs : step env srv s l = some s') : Effect env srv s l s' := by
  cases l with
  | decode b err =>
    simp only [step, stepDecode] at hs
    split_ifs at hs with hret
    rw [Option.some.injEq] at hs
    subst hs
    split
    · exact .stop
    · exact .stop
    · rename_i hdec
      exact .decode (by simpa using hret) hdec
  | handle k b method =>
    obtain ⟨h, hk, hs⟩ := Option.bind_eq_some_iff.mp hs
    split at hs
    · rename_i hpc
      split_ifs at hs
      cases hs
      exact .handle hk hpc
    · cases hs
  | write k order =>
    obtain ⟨h, hk, hs⟩ := Option.bind_eq_some_iff.mp hs
    simp only [encode_eq] at hs
    split at hs
    · rename_i res hpc
      split_ifs at hs with hc
      cases hs
      exact .write hk hpc hc.1
    · cases hs
  | writeErr k order n =>
    obtain ⟨h, hk, hs⟩ := Option.bind_eq_some_iff.mp hs
    simp only [encode_eq] at hs
    split at hs
    · rename_i res hpc
      split_ifs at hs with hc
      cases hs
      exact .writeErr hk hpc hc
    · cases hs
  | close =>
    cases hs
    exact .close

end Frpc.Server.Machine
