import Frpc.Codecs

/-! # One client connection

`client/client.go` as a state machine over one connection. Any number of goroutines run `call` or
`Go`, one runs `handleResponse`, others may run `close` or `Close`; a step is what one of them does
between two points at which another may interfere: a locked section, a write, the code after it.
What the source keeps in local variables is in the program counters (`SendPc`, `WaitPc`,
`ReaderPc`). The server is arbitrary: `net` delivers any bytes, and reads and writes may fail at any
time.

Three fields are there for the statements only: `init` and `frames` of a call in flight (the call as
`Go` made it, and the frames whose content was written into it) and the number `registered` of calls
that were given a sequence number. -/

namespace Frpc.Client.Machine

open Frpc.Basic Frpc.Codecs Frpc.Protocol.Headers Frpc.Protocol.Messages

/-- A `*Call`. -/
abbrev CallId := ℕ

/-- `type option struct`, what `send` reads of it. -/
structure ClientOption where
  serializeType : SerializeType
  compressType : CompressType

/-- A `context.Context`: the maps under `ReqMetaDataKey` and `ResMetaDataKey`, and whether it
carries the address of a sequence number under `seqKey`. -/
structure Context where
  reqMetaData : Option Metadata
  resMetaData : Option Metadata
  seqKey : Bool

/-- `type Call struct`, without the channel. -/
structure Call (V : Type) where
  servicePath : Bytes
  serviceMethod : Bytes
  metadata : Option Metadata
  resMetadata : Option Metadata
  args : V
  reply : V
  error : Option Error

/-- Where a `send` stands. -/
inductive SendPc where
  /-- The call is in `pending`, the message is not yet filled. -/
  | registered
  /-- The message is filled, `conn.Write` comes next. -/
  | ready (req : Message)
  /-- `conn.Write` returned an error. -/
  | writeFailed (err : Error)
  /-- The entry was removed after a failed write; the call found there gets the error next. -/
  | holdFailed (call : Option CallId) (err : Error)
  /-- `FreeMsg` comes next. -/
  | written
  /-- The message, given back to the pool, said that it is one-way. -/
  | oneway
  /-- The entry was removed by the one-way branch; the call found there is completed next. -/
  | holdOneway (call : Option CallId)
  /-- `send` has returned. -/
  | finished

/-- Where the caller of `call` stands. -/
inductive WaitPc where
  /-- There is no caller: the call was made by `Go`. -/
  | none
  /-- In front of the `select`, or blocked in it. -/
  | waiting
  /-- The context is done, an entry was removed; the call found there gets the error next. -/
  | cancelled (call : Option CallId) (err : Error)
  /-- `call` has returned. -/
  | returned (err : Option Error)

/-- Where `handleResponse` stands. -/
inductive ReaderPc where
  /-- `Decode` comes next. -/
  | loop
  /-- A frame was decoded and the entry of its sequence number removed. The frame is kept as it
  reads when it is decoded alone. -/
  | holding (call : Option CallId) (frame : Message)
  /-- The loop was left with an error. -/
  | exiting (err : Error)
  /-- `handleResponse` has returned. -/
  | returned
  /-- `Decode` panicked. -/
  | crashed

/-- A call, with the goroutine that sends it and the one that waits for it. `delivered` lists what
`call.Error` was at each `done()`. -/
structure Flight (V : Type) where
  call : Call V
  ctx : Context
  /-- The sequence number that `send` assigned. -/
  seq : Option UInt64
  /-- The variable `seq` of `call`. -/
  cell : UInt64
  send : SendPc
  wait : WaitPc
  delivered : List (Option Error)
  init : Call V
  frames : List Message

/-- `type Client struct`, with its goroutines and the two directions of its connection. -/
structure State (V : Type) where
  flights : CallId → Option (Flight V)
  pending : AList fun _ : UInt64 => CallId
  seq : UInt64
  closing : Bool
  shutdown : Bool
  connClosed : Bool
  /-- The message that `handleResponse` decodes into. -/
  res : Message
  reader : ReaderPc
  inp : Bytes
  out : Bytes
  registered : ℕ

/-- What the goroutines of one call do after it was registered. -/
inductive Action where
  /-- Fill a message of the pool, whose first header byte is `b`. -/
  | prepare (b : UInt8)
  /-- Write the request. -/
  | write (order : MetaOrder)
  /-- Fail to write the request after `n` bytes of it. -/
  | writeErr (order : MetaOrder) (n : ℕ) (err : Error)
  /-- The locked section after a failed write. -/
  | takeFailed
  /-- Complete what it removed. -/
  | completeFailed
  /-- `FreeMsg`, and read `IsOneway` from the message that somebody else may use by now. -/
  | free (oneway : Bool)
  /-- The locked section of the one-way branch. -/
  | takeOneway
  /-- Complete what it removed. -/
  | completeOneway
  /-- The context of `call` is done: the locked section of that branch. -/
  | cancel (err : Error)
  /-- Complete what it removed, and return from `call`. -/
  | completeCancel
  /-- Receive from `Done`, and return from `call`. -/
  | receive

/-- The steps. -/
inductive Label (V : Type) where
  /-- `call`, or `Go` if `viaCall` is false, up to the end of the first locked section of `send`. -/
  | send (c : CallId) (viaCall : Bool) (ctx : Context) (servicePath serviceMethod : Bytes)
      (args reply : V)
  /-- A later step of the `send` or the `call` of `c`. -/
  | act (c : CallId) (a : Action)
  /-- `Decode` the next frame, and remove its entry. The read fails with `err` if the frame is not
  there. -/
  | read (err : Error)
  /-- The `switch` of `handleResponse`, unless `Decode` panics. -/
  | respond
  /-- The end of `handleResponse`. -/
  | exit
  /-- `close`, up to `conn.Close`. -/
  | close
  /-- The call of `conn.Close` in `close`. -/
  | connClose
  /-- `Close`, what it does to this connection. -/
  | closeClient
  /-- The server sends bytes. -/
  | net (data : Bytes)

variable {V : Type}

/-! ### Calls -/

/-- `context.WithValue(ctx, seqKey{}, seq)` -/
def Context.withSeqKey (ctx : Context) : Context := { ctx with seqKey := true }

/-- The context that `call` passes to `Go`: what `WithValue` returns is not used. -/
def Context.ofCall (ctx : Context) : Context :=
  let _ := ctx.withSeqKey
  ctx

/-- `Go`: the new call. -/
def newCall (ctx : Context) (servicePath serviceMethod : Bytes) (args reply : V) : Call V :=
  ⟨servicePath, serviceMethod, ctx.reqMetaData, none, args, reply, none⟩

/-- A call as `send` gets it. -/
def newFlight (viaCall : Bool) (ctx : Context) (servicePath serviceMethod : Bytes)
    (args reply : V) :
    Flight V :=
  let ctx := if viaCall then ctx.ofCall else ctx
  let call := newCall ctx servicePath serviceMethod args reply
  ⟨call, ctx, none, 0, .finished, if viaCall then .waiting else .none, [], call, []⟩

/-- The call gets a sequence number. It is also written to where `seqKey` points, if the context has
it. -/
def Flight.register (f : Flight V) (seq : UInt64) : Flight V :=
  { f with seq := some seq, cell := if f.ctx.seqKey then seq else f.cell, send := .registered }

/-- Move the `send` of a call. -/
def Flight.setSend (f : Flight V) (pc : SendPc) : Flight V := { f with send := pc }

/-- Move the caller of a call. -/
def Flight.setWait (f : Flight V) (pc : WaitPc) : Flight V := { f with wait := pc }

/-- `call.done()` -/
def Flight.done (f : Flight V) : Flight V := { f with delivered := f.delivered ++ [f.call.error] }

/-- `call.Error = err`, `call.done()` -/
def Flight.fail (err : Error) (f : Flight V) : Flight V :=
  Flight.done { f with call := { f.call with error := some err } }

/-- The end of `call`: the error is returned, the response metadata are added to the map in the
context. -/
def Flight.received (f : Flight V) : Flight V :=
  { f with
    wait := .returned f.call.error
    ctx := { f.ctx with resMetaData := f.ctx.resMetaData.map ((f.call.resMetadata.getD ∅) ∪ ·) } }

/-- Apply `g` to a call. -/
def modifyCall (flights : CallId → Option (Flight V)) (c : CallId) (g : Flight V → Flight V) :
    CallId → Option (Flight V) := Function.update flights c ((flights c).map g)

/-- Apply `g` to the call found in `pending`, if there was one. -/
def modifyFound (flights : CallId → Option (Flight V)) : Option CallId → (Flight V → Flight V) →
    CallId → Option (Flight V)
  | none, _ => flights
  | some d, g => modifyCall flights d g

/-- The loop over `pending` that gives every call an error and completes it. Each call is treated
alike, so the order of the map does not matter. -/
def failAll (flights : CallId → Option (Flight V)) (err : Error)
    (pending : AList fun _ : UInt64 => CallId) :
    CallId → Option (Flight V) :=
  pending.entries.foldl (fun fl e => modifyCall fl e.2 (Flight.fail err)) flights

/-! ### The request -/

/-- `send`: fill the message `req` of the pool. An error of the codec or of `Zip` ends `send`. -/
def fillRequest (env : Env V) (opt : ClientOption) (codec : Codec V) (call : Call V) (seq : UInt64)
    (req : Message) : Except Error Message :=
  let header := (req.header.setMessageType MessageType.request).setSeq seq
  if call.servicePath = [] ∧ call.serviceMethod = [] then
    .ok { req with header := header.setHeartbeat true }
  else do
    let header := header.setSerializeType opt.serializeType
    let data ← codec.encode call.args
    let metadata := call.metadata.or req.metadata
    if data.length > 1024 ∧ opt.compressType = CompressType.gzip then
      let data ← env.zip data
      return ⟨header.setCompressType opt.compressType, call.servicePath, call.serviceMethod,
        metadata, data⟩
    else return ⟨header, call.servicePath, call.serviceMethod, metadata, data⟩

/-! ### The response -/

/-- The frame is a message of the server's own, not a response. -/
def isServerMessage (res : Message) : Bool :=
  res.header.messageType == MessageType.request && !res.header.isHeartbeat && res.header.isOneway

/-- `Unzip` the payload if it is compressed: the data, the error that `err` holds afterwards, and
the call. -/
def unzipPayload (env : Env V) (res : Message) (call : Call V) : Bytes × Option Error × Call V :=
  if res.header.compressType = CompressType.gzip then
    match env.unzip res.payload with
    | .ok data => (data, none, call)
    | .error err =>
      ([], some err,
        { call with error := some (.serviceError (str "unzip payload: " ++ err.text)) })
  else (res.payload, none, call)

/-- `codec.Decode` into the reply: the call, and the error that `err` holds afterwards. -/
def decodeReply (codec : Codec V) (data : Bytes) (call : Call V) : Call V × Option Error :=
  match codec.decode data call.reply with
  | (reply, none) => ({ call with reply }, none)
  | (reply, some err) => ({ call with reply, error := some (.serviceError err.text) }, some err)

/-- The payload of a response: the call, and the error that `err` holds afterwards. -/
def decodePayload (env : Env V) (res : Message) (call : Call V) : Call V × Option Error :=
  let (data, err, call) := unzipPayload env res call
  match codecs env res.header.serializeType with
  | none => ({ call with error := some (.serviceError Error.errUnsupportedCodec.text) }, err)
  | some codec => decodeReply codec data call

/-- `Decode` panics on the payload of a response. The goroutine does not recover, so this is the end
of the process. -/
def replyPanics (env : Env V) (res : Message) (call : Call V) : Bool :=
  match codecs env res.header.serializeType with
  | none => false
  | some codec =>
    res.header.messageStatusType != MessageStatusType.error && !res.header.isHeartbeat &&
      !res.payload.isEmpty && codec.panics (unzipPayload env res call).1 call.reply

/-- The `switch` of `handleResponse` for a call that was found. -/
def handleCall (env : Env V) (res : Message) (call : Call V) : Call V × Option Error :=
  if res.header.messageStatusType = MessageStatusType.error then
    ({ call with
      error := some (.serviceError ((res.meta0.lookup serviceErrorKey).getD []))
      resMetadata := res.metadata }, none)
  else if res.header.isHeartbeat then ({ call with resMetadata := res.metadata }, none)
  else
    let (call, err) := if res.payload.length > 0 then decodePayload env res call else (call, none)
    ({ call with resMetadata := res.metadata }, err)

/-- Where the loop of `handleResponse` goes on. -/
def ReaderPc.next : Option Error → ReaderPc
  | none => .loop
  | some err => .exiting err

/-- The error that the end of `handleResponse` gives to the calls in `pending`. -/
def exitError (closing : Bool) (err : Error) : Error :=
  if err = .eof then (if closing then .errShutdown else .unexpectedEOF) else err

/-! ### Steps -/

/-- `call` or `Go`, to the end of the first locked section of `send`. -/
def stepSend (env : Env V) (opt : ClientOption) (s : State V) (c : CallId) (viaCall : Bool)
    (ctx : Context) (servicePath serviceMethod : Bytes) (args reply : V) : State V :=
  let f := newFlight viaCall ctx servicePath serviceMethod args reply
  if s.shutdown || s.closing then
    { s with flights := Function.update s.flights c (some (f.fail .errShutdown)) }
  else if (codecs env opt.serializeType).isNone then
    { s with flights := Function.update s.flights c (some (f.fail .errUnsupportedCodec)) }
  else
    { s with
      flights := Function.update s.flights c (some (f.register s.seq))
      pending := s.pending.insert s.seq c
      seq := s.seq + 1
      registered := s.registered + 1 }

/-- The steps of `send` after the registration, and those of `call`, on the call `c`. -/
def stepFlight (env : Env V) (opt : ClientOption) (s : State V) (c : CallId) (f : Flight V) :
    Action → Option (State V)
  | .prepare b =>
    match f.send, f.seq, codecs env opt.serializeType with
    | .registered, some seq, some codec =>
      match fillRequest env opt codec f.call seq (pooled b) with
      | .ok req => some { s with flights := modifyCall s.flights c (·.setSend (.ready req)) }
      | .error err =>
        some { s with flights := modifyCall s.flights c fun f => (f.fail err).setSend .finished }
    | _, _, _ => none
  | .write order =>
    match f.send with
    | .ready req =>
      match req.encode order with
      | .ok data =>
        if order.toFinmap = req.meta0 ∧ s.connClosed = false then
          some { s with
            out := s.out ++ data
            flights := modifyCall s.flights c (·.setSend .written) }
        else none
      | .error _ => none
    | _ => none
  | .writeErr order n err =>
    match f.send with
    | .ready req =>
      match req.encode order with
      | .ok data =>
        if order.toFinmap = req.meta0 then
          some { s with
            out := s.out ++ data.take n
            flights := modifyCall s.flights c (·.setSend (.writeFailed err)) }
        else none
      | .error _ => none
    | _ => none
  | .takeFailed =>
    match f.send, f.seq with
    | .writeFailed err, some seq =>
      some { s with
        pending := s.pending.erase seq
        flights := modifyCall s.flights c (·.setSend (.holdFailed (s.pending.lookup seq) err)) }
    | _, _ => none
  | .completeFailed =>
    match f.send with
    | .holdFailed call err =>
      some { s with
        flights := modifyCall (modifyFound s.flights call (Flight.fail err)) c
          (·.setSend .written) }
    | _ => none
  | .free oneway =>
    match f.send with
    | .written =>
      some { s with
        flights := modifyCall s.flights c (·.setSend (if oneway then .oneway else .finished)) }
    | _ => none
  | .takeOneway =>
    match f.send, f.seq with
    | .oneway, some seq =>
      some { s with
        pending := s.pending.erase seq
        flights := modifyCall s.flights c (·.setSend (.holdOneway (s.pending.lookup seq))) }
    | _, _ => none
  | .completeOneway =>
    match f.send with
    | .holdOneway call =>
      some { s with
        flights := modifyCall (modifyFound s.flights call Flight.done) c (·.setSend .finished) }
    | _ => none
  | .cancel err =>
    match f.send, f.wait with
    | .finished, .waiting =>
      some { s with
        pending := s.pending.erase f.cell
        flights := modifyCall s.flights c (·.setWait (.cancelled (s.pending.lookup f.cell) err)) }
    | _, _ => none
  | .completeCancel =>
    match f.wait with
    | .cancelled call err =>
      some { s with
        flights := modifyCall (modifyFound s.flights call (Flight.fail err)) c
          (·.setWait (.returned (some err))) }
    | _ => none
  | .receive =>
    match f.send, f.wait, f.delivered with
    | .finished, .waiting, _ :: _ =>
      some { s with flights := modifyCall s.flights c Flight.received }
    | _, _, _ => none

/-- The next frame, decoded into a new message. -/
def decodeAlone (env : Env V) (r : Reader) : Message :=
  match newMessage.decode env.maxMessageLength r with
  | .ok (frame, _, _) => frame
  | .error _ => newMessage

/-- `handleResponse`: decode a frame, and remove the entry of its sequence number. -/
def stepRead (env : Env V) (s : State V) (err : Error) : State V :=
  match s.res.decode env.maxMessageLength ⟨s.inp, err⟩ with
  | .error _ => { s with reader := .crashed }
  | .ok (res, r, some err) => { s with res, inp := r.data, reader := .exiting err }
  | .ok (res, r, none) =>
    if isServerMessage res then { s with res, inp := r.data, reader := .loop }
    else
      let seq := res.header.seq
      { s with
        res
        inp := r.data
        pending := s.pending.erase seq
        reader := .holding (s.pending.lookup seq) (decodeAlone env ⟨s.inp, err⟩) }

/-- `handleResponse`: the `switch`, and `Reset`. -/
def stepRespond (env : Env V) (s : State V) : Option CallId → Message → State V
  | none, _ => { s with res := s.res.reset, reader := .loop }
  | some d, frame =>
    match s.flights d with
    | none => { s with res := s.res.reset, reader := .loop }
    | some f =>
      let (call, err) := handleCall env s.res f.call
      { s with
        flights := Function.update s.flights d
          (some (Flight.done { f with call, frames := f.frames ++ [frame] }))
        res := s.res.reset
        reader := .next err }

/-- What one of the goroutines does; `none` if it cannot take that step. -/
def move (env : Env V) (opt : ClientOption) (s : State V) : Label V → Option (State V)
  | .send c viaCall ctx servicePath serviceMethod args reply =>
    -- only this package has `seqKey`, and no context that carries it is ever passed on
    if (s.flights c).isNone ∧ ctx.seqKey = false then
      some (stepSend env opt s c viaCall ctx servicePath serviceMethod args reply)
    else none
  | .act c a => (s.flights c).bind fun f => stepFlight env opt s c f a
  | .read err =>
    match s.reader with
    | .loop => some (stepRead env s err)
    | _ => none
  | .respond =>
    match s.reader with
    | .holding call frame =>
      if (call.bind s.flights).any fun f => replyPanics env s.res f.call then none
      else some (stepRespond env s call frame)
    | _ => none
  | .exit =>
    match s.reader with
    | .exiting err =>
      some { s with
        shutdown := true
        flights := failAll s.flights (exitError s.closing err) s.pending
        reader := .returned }
    | _ => none
  | .close =>
    some { s with
      flights := failAll s.flights .errShutdown s.pending
      pending := ∅
      closing := s.closing || !(s.closing || s.shutdown) }
  | .connClose =>
    if s.closing ∧ s.connClosed = false then some { s with connClosed := true } else none
  | .closeClient => some { s with shutdown := true }
  | .net data => if s.connClosed = false then some { s with inp := s.inp ++ data } else none

/-- One step of the connection. A panic of the reader ends the process, so nothing follows it. -/
def step (env : Env V) (opt : ClientOption) (s : State V) (l : Label V) : Option (State V) :=
  match s.reader with
  | .crashed => none
  | _ => move env opt s l

/-- A new connection. -/
def init : State V :=
  ⟨fun _ => none, ∅, 0, false, false, false, newMessage, .loop, [], [], 0⟩

/-! ### Calls of concrete runs -/

/-- JSON without compression. -/
def jsonOption : ClientOption := ⟨SerializeType.json, CompressType.none⟩

/-- `call` with the arguments `args`, into an empty string. -/
def sendCall (c : CallId) (args : Option Bytes) : Label (Option Bytes) :=
  .send c true ⟨none, none, false⟩ [65] [77] args (some [])

end Frpc.Client.Machine
