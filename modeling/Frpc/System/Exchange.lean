import Frpc.Client.Responses
import Frpc.Server.Machine

/-! # One exchange

What becomes of a call when its request and the response are not mixed up with others: `send` fills
the request, the goroutine of the server makes the response, `handleResponse` reads it (`exchange`).
On the way each message goes through `Encode` and `Decode`, which is `norm`. Without compression,
and with a codec that reads back what it has written, the call gets what the method did
(`exchange_outcome`). With compression it does not, as soon as a payload is compressed: the server
does not unzip it, and its response carries the flag of the request without being compressed
(`gzip_transparent_iff`). -/

namespace Frpc.System.Exchange

open Frpc.Basic Frpc.Codecs Frpc.Protocol.Headers Frpc.Protocol.Messages Frpc.Protocol.RoundTrip
open Frpc.Client.Machine Frpc.Server.Machine

variable {V T : Type} {env : Env V} {opt : ClientOption} {srv : Config V T}

/-- A call, from `send` to the end of `handleResponse`. -/
def exchange (env : Env V) (opt : ClientOption) (srv : Config V T) (call : Call V) (q : UInt64)
    (b b' : UInt8) (method : V → MethodResult V) : Call V :=
  match codecs env opt.serializeType with
  | none => { call with error := some .errUnsupportedCodec }
  | some codec =>
    match fillRequest env opt codec call q (pooled b) with
    | .error err => { call with error := some err }
    | .ok req =>
      match serveRequest env srv (norm req) (pooled b') method with
      | none => call
      | some res => (handleCall env (norm res) call).1

/-- A codec that reads back what it has written, for values of a type `t` into a new value `new t`;
only that value may be written as nothing. -/
structure RoundTrips (codec : Codec V) (typeOf : V → T) (new : T → V) : Prop where
  reads_back : ∀ {v data}, codec.encode v = .ok data →
    codec.decode data (new (typeOf v)) = (v, none)
  new_of_empty : ∀ {v}, codec.encode v = .ok [] → v = new (typeOf v)

/-! ### The request -/

section Request

variable {codec : Codec V} {call : Call V} {data : Bytes} (q : UInt64) (b : UInt8)

/-- The header of a request that is not compressed. -/
def requestHeader (q : UInt64) (b : UInt8) (st : SerializeType) : Header :=
  (((Header.clean b).setMessageType MessageType.request).setSeq q).setSerializeType st

theorem requestHeader_seq (st : SerializeType) : (requestHeader q b st).seq = q := by
  unfold requestHeader Header.setSerializeType
  rw [Header.seq_set _ (by omega), Header.seq_setSeq]

theorem requestHeader_flags (st : SerializeType) : (requestHeader q b st).get 2 = 0 := by
  rw [requestHeader, Header.get_setSerializeType, if_neg (by omega),
    Header.get_setSeq _ _ (by omega), Header.get_setMessageType, if_pos rfl]
  show (0 : UInt8) ||| MessageType.request <<< 7 = 0
  decide

theorem requestHeader_serializeType (st : SerializeType) :
    (requestHeader q b st).get 3 = st <<< 4 := by
  rw [requestHeader, Header.get_setSerializeType, if_pos rfl, Header.get_setSeq _ _ (by omega)]
  exact UInt8.zero_or

/-- The serialize type of a request reads back, for those that have a codec. -/
theorem serializeType_of_codec {st : SerializeType} (hcodec : codecs env st = some codec)
    {h : Header} (hst : h.get 3 = st <<< 4) : h.serializeType = st := by
  unfold Header.serializeType
  rw [hst]
  unfold codecs at hcodec
  split_ifs at hcodec with h0 h1 h2
  · rw [h0]
    rfl
  · rw [h1]
    rfl
  · rw [h2]
    rfl

variable (hcall : ¬ (call.servicePath = [] ∧ call.serviceMethod = []))
  (hdata : codec.encode call.args = .ok data)

include hcall hdata

theorem fillRequest_plain (hz : ¬ (data.length > 1024 ∧ opt.compressType = CompressType.gzip)) :
    fillRequest env opt codec call q (pooled b) =
      .ok ⟨requestHeader q b opt.serializeType, call.servicePath, call.serviceMethod,
        call.metadata, data⟩ := by
  unfold fillRequest
  rw [if_neg hcall, hdata]
  simp only [bind, Except.bind, hz, if_false, pooled, Option.or_none]
  rfl

theorem fillRequest_zipped (hlen : data.length > 1024) (hz : opt.compressType = CompressType.gzip) :
    fillRequest env opt codec call q (pooled b) = (env.zip data).map fun z =>
      ⟨(requestHeader q b opt.serializeType).setCompressType opt.compressType, call.servicePath,
        call.serviceMethod, call.metadata, z⟩ := by
  unfold fillRequest
  rw [if_neg hcall, hdata]
  simp only [bind, Except.bind, hlen, hz, and_self, if_true, pooled, Option.or_none]
  cases env.zip data <;> rfl

end Request

theorem fillRequest_error {codec : Codec V} {call : Call V} {err : Error}
    (hcall : ¬ (call.servicePath = [] ∧ call.serviceMethod = []))
    (h : codec.encode call.args = .error err)
    (q : UInt64) (req : Message) : fillRequest env opt codec call q req = .error err := by
  unfold fillRequest
  rw [if_neg hcall, h]
  rfl

/-- **What `send` has made**: a heartbeat, or a request with the encoded arguments, zipped or as
they are. -/
theorem fillRequest_eq_ok {codec : Codec V} {call : Call V} {q : UInt64} {b : UInt8} {m : Message}
    (h : fillRequest env opt codec call q (pooled b) = .ok m) :
    ((call.servicePath = [] ∧ call.serviceMethod = []) ∧
        m.header = (((Header.clean b).setMessageType MessageType.request).setSeq q).setHeartbeat
          true) ∨
      ∃ data, codec.encode call.args = .ok data ∧
        (((data.length > 1024 ∧ opt.compressType = CompressType.gzip) ∧ ∃ z, env.zip data = .ok z ∧
            m = ⟨(requestHeader q b opt.serializeType).setCompressType opt.compressType,
              call.servicePath, call.serviceMethod, call.metadata, z⟩) ∨
          (¬ (data.length > 1024 ∧ opt.compressType = CompressType.gzip) ∧
            m = ⟨requestHeader q b opt.serializeType, call.servicePath, call.serviceMethod,
              call.metadata, data⟩)) := by
  by_cases hcall : call.servicePath = [] ∧ call.serviceMethod = []
  · unfold fillRequest at h
    rw [if_pos hcall] at h
    cases h
    exact Or.inl ⟨hcall, rfl⟩
  cases hdata : codec.encode call.args with
  | error err =>
    rw [fillRequest_error hcall hdata] at h
    cases h
  | ok data =>
    refine Or.inr ⟨data, rfl, ?_⟩
    by_cases hz : data.length > 1024 ∧ opt.compressType = CompressType.gzip
    · rw [fillRequest_zipped q b hcall hdata hz.1 hz.2] at h
      cases hzip : env.zip data with
      | error err =>
        rw [hzip] at h
        cases h
      | ok z =>
        rw [hzip] at h
        cases h
        exact Or.inl ⟨hz, z, rfl, rfl⟩
    · rw [fillRequest_plain q b hcall hdata hz] at h
      cases h
      exact Or.inr ⟨hz, rfl⟩

/-! ### The response -/

/-- The response before anything is written into it. -/
def blankResponse (req : Message) : Message :=
  ⟨req.header.setMessageType MessageType.response, req.servicePath, req.serviceMethod, none, []⟩

theorem handleRequest_eq (env : Env V) (srv : Config V T) (req : Message) (b : UInt8)
    (method : V → MethodResult V) :
    handleRequest env srv req (pooled b) method =
      match findMethod srv req.servicePath req.serviceMethod with
      | .error err => (handleError (blankResponse req) err, ∅)
      | .ok mtype =>
        match decodeArgs env srv req mtype with
        | .error err => (handleError (blankResponse req) err, ∅)
        | .ok (codec, argv) =>
          match serviceCall (method argv).exit with
          | some err => (handleError (blankResponse req) err, (method argv).resMetadata)
          | none =>
            match codec.encode (method argv).reply with
            | .error err => (handleError (blankResponse req) err, (method argv).resMetadata)
            | .ok data =>
              (({ blankResponse req with payload := data }, none), (method argv).resMetadata) := rfl

/-- **What `handleRequest` returns**: an error response, or the reply of the method. -/
theorem handleRequest_cases (env : Env V) (srv : Config V T) (req : Message) (b : UInt8)
    (method : V → MethodResult V) :
    (∃ err md, handleRequest env srv req (pooled b) method =
      (handleError (blankResponse req) err, md) ∧ (md = ∅ ∨ ∃ v, md = (method v).resMetadata)) ∨
    ∃ mtype codec argv data, findMethod srv req.servicePath req.serviceMethod = .ok mtype ∧
      decodeArgs env srv req mtype = .ok (codec, argv) ∧
        codec.encode (method argv).reply = .ok data ∧
      handleRequest env srv req (pooled b) method =
        (({ blankResponse req with payload := data }, none), (method argv).resMetadata) := by
  rw [handleRequest_eq]
  cases hm : findMethod srv req.servicePath req.serviceMethod with
  | error err => exact Or.inl ⟨err, _, rfl, Or.inl rfl⟩
  | ok mtype =>
    cases ha : decodeArgs env srv req mtype with
    | error err => exact Or.inl ⟨err, _, by simp only [ha], Or.inl rfl⟩
    | ok x =>
      obtain ⟨codec, argv⟩ := x
      cases hx : serviceCall (method argv).exit with
      | some err => exact Or.inl ⟨err, _, by simp only [ha, hx], Or.inr ⟨argv, rfl⟩⟩
      | none =>
        cases he : codec.encode (method argv).reply with
        | error err => exact Or.inl ⟨err, _, by simp only [ha, hx, he], Or.inr ⟨argv, rfl⟩⟩
        | ok data => exact Or.inr ⟨mtype, codec, argv, data, rfl, ha, he, by simp only [ha, hx, he]⟩

section Flags

variable {m : Message} {x : UInt8} (hx : m.header.get 2 = x)

include hx

theorem blankResponse_flags : (blankResponse m).header.get 2 = x ||| 0x80 := by
  show (m.header.setMessageType MessageType.response).get 2 = _
  rw [Header.get_setMessageType, if_pos rfl, hx]
  rfl

theorem handleError_flags (err : Error) :
    (handleError (blankResponse m) err).1.header.get 2 = x ||| 0x80 ||| 0x01 := by
  show ((blankResponse m).header.setMessageStatusType MessageStatusType.error).get 2 = _
  rw [Header.get_setMessageStatusType, if_pos rfl, blankResponse_flags hx]
  rfl

end Flags

theorem blankResponse_serializeType (req : Message) :
    (blankResponse req).header.get 3 = req.header.get 3 := by
  show (req.header.setMessageType MessageType.response).get 3 = _
  rw [Header.get_setMessageType, if_neg (by omega)]

/-- A response with the metadata that the method has set. -/
def withMetadata (res : Message) (md : Metadata) : Message :=
  { res with metadata := mergeMetadata res.metadata md }

theorem serveRequest_eq {m : Message} {x : UInt8} (hx : m.header.get 2 = x)
    (hhb : (x &&& 0x40 == 0x40) = false) (how : (x &&& 0x20 == 0x20) = false) (b : UInt8)
    (method : V → MethodResult V) :
    serveRequest env srv m (pooled b) method =
      some (withMetadata (handleRequest env srv m newMessage method).1.1
        (handleRequest env srv m newMessage method).2) := by
  have hhb' : m.header.isHeartbeat = false := by rw [Header.isHeartbeat, hx, hhb]
  have how' : m.header.isOneway = false := by rw [Header.isOneway, hx, how]
  unfold serveRequest
  rw [hhb', how']
  rfl

theorem mergeMetadata_none (md : Metadata) : (mergeMetadata none md).getD ∅ = md := by
  unfold mergeMetadata
  split_ifs with h
  · exact h.symm
  · rfl

theorem lookup_mergeMetadata {md old : Metadata} {k v : Bytes} (hk : k ∉ md)
    (hv : old.lookup k = some v) :
    ((mergeMetadata (some old) md).getD ∅).lookup k = some v := by
  unfold mergeMetadata
  split_ifs with h
  · exact hv
  · rw [Option.getD_some, Finmap.lookup_union_right hk, hv]

/-! ### The client -/

theorem handleCall_status {res : Message} (call : Call V)
    (h : res.header.messageStatusType = MessageStatusType.error) :
    (handleCall env res call).1.error =
      some (.serviceError ((res.meta0.lookup serviceErrorKey).getD [])) := by
  unfold handleCall
  rw [if_pos h]

section Normal

variable {m : Message} {x : UInt8} {codec : Codec V} {st : SerializeType} (call : Call V)
  (hx : m.header.get 2 = x) (hst : m.header.get 3 = st <<< 4) (hcodec : codecs env st = some codec)
  (hstatus : x &&& 0x03 ≠ 0x01) (hhb : (x &&& 0x40 == 0x40) = false)

include hx hstatus hhb

theorem handleCall_normal :
    (handleCall env m call).1 =
      { (if m.payload.length > 0 then (decodePayload env m call).1 else call) with
        resMetadata := m.metadata } := by
  have hstatus' : m.header.messageStatusType ≠ MessageStatusType.error := by
    rw [Header.messageStatusType, hx]
    exact hstatus
  have hhb' : m.header.isHeartbeat = false := by rw [Header.isHeartbeat, hx, hhb]
  unfold handleCall
  simp only [hstatus', hhb', Bool.false_eq_true, if_false]
  split_ifs <;> rfl

include hst hcodec

/-- A response with a payload that the codec reads as `v`, or without one if `v` is what the reply
was. -/
theorem handleCall_plain {v : V} (hz : (x &&& 0x1C) >>> 2 ≠ 1)
    (hv : m.payload ≠ [] → codec.decode m.payload call.reply = (v, none))
    (hempty : m.payload = [] → v = call.reply) :
    (handleCall env m call).1 = { call with reply := v, resMetadata := m.metadata } := by
  have hz' : m.header.compressType ≠ CompressType.gzip := by
    rw [Header.compressType, hx]
    exact hz
  rw [handleCall_normal call hx hstatus hhb]
  by_cases hp : m.payload = []
  · simp [hp, hempty hp]
  · simp [List.length_pos_iff.mpr hp, decodePayload, unzipPayload, hz',
      serializeType_of_codec hcodec hst, hcodec, decodeReply, hv hp]

theorem handleCall_rejected {e : Error} (hz : (x &&& 0x1C) >>> 2 = 1) (hp : m.payload ≠ [])
    (hunzip : env.unzip m.payload = .error e) : (handleCall env m call).1.error ≠ none := by
  have hz' : m.header.compressType = CompressType.gzip := by
    rw [Header.compressType, hx]
    exact hz
  rw [handleCall_normal call hx hstatus hhb]
  simp only [List.length_pos_iff.mpr hp, if_true, decodePayload, unzipPayload, hz', hunzip,
    serializeType_of_codec hcodec hst, hcodec, decodeReply]
  split <;> simp

end Normal

/-! ### Without compression -/

/-- What a call should get for its request `req`, if the method does `method`: the error of
`handleRequest` as a `ServiceError`, or the reply and the metadata of the method for its own
arguments. -/
def Outcome (env : Env V) (srv : Config V T) (req : Message) (method : V → MethodResult V)
    (call call' : Call V) : Prop :=
  match (handleRequest env srv req newMessage method).1.2 with
  | some err => call'.error = some (.serviceError err.text)
  | none => ∃ mtype codec, findMethod srv call.servicePath call.serviceMethod = .ok mtype ∧
      decodeArgs env srv req mtype = .ok (codec, call.args) ∧ call'.error = none ∧
      call'.reply = (method call.args).reply ∧
      call'.resMetadata.getD ∅ = (method call.args).resMetadata

/-- The call has arguments and a reply of the types of the method, which leaves a reply of its type,
and the method does not write the key of error texts. -/
structure WellTyped (typeOf : V → T) (srv : Config V T) (call : Call V)
    (method : V → MethodResult V) :
    Prop where
  args : ∀ {mtype}, findMethod srv call.servicePath call.serviceMethod = .ok mtype →
    typeOf call.args = mtype.argType
  reply : ∀ {mtype}, findMethod srv call.servicePath call.serviceMethod = .ok mtype →
    call.reply = srv.new mtype.replyType
  result : ∀ {mtype}, findMethod srv call.servicePath call.serviceMethod = .ok mtype →
    ∀ v, typeOf (method v).reply = mtype.replyType
  key : ∀ v, serviceErrorKey ∉ (method v).resMetadata

/-- The error response reaches the call as a `ServiceError`. -/
theorem handleCall_handleError {m : Message} {x : UInt8} (hx : m.header.get 2 = x)
    (hstatus : (x ||| 0x80 ||| 0x01) &&& 0x03 = 0x01) {err : Error} {md : Metadata}
    (hkey : serviceErrorKey ∉ md) (call : Call V) :
    (handleCall env (norm (withMetadata (handleError (blankResponse m) err).1 md)) call).1.error =
      some (.serviceError err.text) := by
  rw [handleCall_status, norm_meta0]
  · have hlook :
      ((mergeMetadata (some ((∅ : Metadata).insert serviceErrorKey err.text)) md).getD ∅).lookup
        serviceErrorKey = some err.text := lookup_mergeMetadata hkey (Finmap.lookup_insert _)
    exact congrArg (fun t => some (Error.serviceError (Option.getD t []))) hlook
  · show (handleError (blankResponse m) err).1.header.messageStatusType = _
    rw [Header.messageStatusType, handleError_flags hx]
    exact hstatus

section Plain

variable {typeOf : V → T} {codec : Codec V} {call : Call V} {method : V → MethodResult V}
  {q : UInt64} {b b' : UInt8} {m res : Message} (hlaw : RoundTrips codec typeOf srv.new)
  (hcodec : codecs env opt.serializeType = some codec)
  (hcall : ¬ (call.servicePath = [] ∧ call.serviceMethod = []))
    (htyped : WellTyped typeOf srv call method)

include hcall in
theorem request_cases (hz : opt.compressType ≠ CompressType.gzip)
    (hreq : fillRequest env opt codec call q (pooled b) = .ok m) :
    ∃ data, codec.encode call.args = .ok data ∧
      m = ⟨requestHeader q b opt.serializeType, call.servicePath, call.serviceMethod,
        call.metadata, data⟩ := by
  rcases fillRequest_eq_ok hreq with ⟨hheart, -⟩ | ⟨data, hdata, ⟨hzip, -⟩ | ⟨-, hm⟩⟩
  · exact absurd hheart hcall
  · exact absurd hzip.2 hz
  · exact ⟨data, hdata, hm⟩

include hlaw hcodec htyped

theorem decodeArgs_request {mtype : MethodType T} {data : Bytes}
    (hm : findMethod srv call.servicePath call.serviceMethod = .ok mtype)
    (hdata : codec.encode call.args = .ok data) (hst : m.header.get 3 = opt.serializeType <<< 4)
    (hp : m.payload = data) : decodeArgs env srv m mtype = .ok (codec, call.args) := by
  unfold decodeArgs
  rw [serializeType_of_codec hcodec hst, hcodec]
  simp only [hp, ← htyped.args hm, hlaw.reads_back hdata]

theorem handleCall_response {mtype : MethodType T} {data : Bytes} {v : V} {md : Metadata}
    (hm : findMethod srv call.servicePath call.serviceMethod = .ok mtype)
    (hdata : codec.encode (method v).reply = .ok data) (hflags : m.header.get 2 = 0)
    (hst : m.header.get 3 = opt.serializeType <<< 4) :
    (handleCall env (norm (withMetadata { blankResponse m with payload := data } md)) call).1 =
      { call with
        reply := (method v).reply
        resMetadata :=
          (norm (withMetadata { blankResponse m with payload := data } md)).metadata } := by
  set r := norm (withMetadata { blankResponse m with payload := data } md)
  have hx : r.header.get 2 = 0 ||| 0x80 := blankResponse_flags hflags
  have hst' : r.header.get 3 = opt.serializeType <<< 4 := (blankResponse_serializeType m).trans hst
  have hnew : call.reply =
      srv.new (typeOf (method v).reply) := by rw [htyped.result hm v, htyped.reply hm]
  refine handleCall_plain call hx hst' hcodec (by decide) (by decide) (by decide) (fun _ => ?_)
    (fun hp => ?_)
  · rw [hnew]
    exact hlaw.reads_back hdata
  · obtain rfl : data = [] := hp
    rw [hnew]
    exact hlaw.new_of_empty hdata

include hcall

/-- **An exchange without compression.** -/
theorem exchange_outcome (herr : call.error = none) (hz : opt.compressType ≠ CompressType.gzip)
    (hreq : fillRequest env opt codec call q (pooled b) = .ok m)
    (hres : serveRequest env srv (norm m) (pooled b') method = some res) :
    Outcome env srv (norm m) method call (handleCall env (norm res) call).1 := by
  obtain ⟨data, hdata, hm'⟩ := request_cases hcall hz hreq
  have hflags : (norm m).header.get 2 = 0 := by rw [hm']; exact requestHeader_flags q b _
  have hst : (norm m).header.get 3 = opt.serializeType <<< 4 := by
    rw [hm']
    exact requestHeader_serializeType q b _
  rw [serveRequest_eq hflags (by decide) (by decide), Option.some.injEq] at hres
  subst hres
  unfold Outcome
  rcases handleRequest_cases env srv (norm m) magicNumber method with
    ⟨err, md, heq, hmd⟩ | ⟨mtype, codec', argv, data', hm, hargs, henc, heq⟩ <;>
    rw [← newMessage] at heq <;> rw [heq]
  · refine handleCall_handleError hflags (by decide) ?_ call
    rcases hmd with rfl | ⟨v, rfl⟩
    · exact Finmap.notMem_empty
    · exact htyped.key v
  · replace hm : findMethod srv call.servicePath call.serviceMethod =
      .ok mtype := by rwa [hm'] at hm
    have hp : (norm m).payload = data := by rw [hm']; rfl
    cases (decodeArgs_request hlaw hcodec htyped hm hdata hst hp).symm.trans hargs
    refine ⟨mtype, codec, hm, hargs, ?_⟩
    rw [handleCall_response hlaw hcodec htyped hm henc hflags hst]
    exact ⟨herr, rfl, (norm_meta0 _).trans (mergeMetadata_none _)⟩

end Plain

/-! ### With compression -/

theorem exchange_eq {codec : Codec V} {call : Call V} {q : UInt64} {b b' : UInt8}
    {method : V → MethodResult V} {m res : Message}
    (hcodec : codecs env opt.serializeType = some codec)
    (hreq : fillRequest env opt codec call q (pooled b) = .ok m)
    (hres : serveRequest env srv (norm m) (pooled b') method = some res) :
    exchange env opt srv call q b b' method = (handleCall env (norm res) call).1 := by
  unfold exchange
  simp only [hcodec, hreq, hres]

theorem codec_of_decodeArgs {m : Message} {mtype : MethodType T} {codec : Codec V} {argv : V}
    (h : decodeArgs env srv m mtype = .ok (codec, argv)) :
    codecs env m.header.serializeType = some codec := by
  unfold decodeArgs at h
  split at h
  · cases h
  · rename_i c hc
    split at h
    · cases h
    · cases h
      exact hc

theorem named_of_findMethod {p m : Bytes} {mtype : MethodType T}
    (h : findMethod srv p m = .ok mtype) :
    ¬ (p = [] ∧ m = []) := by
  rintro ⟨rfl, rfl⟩
  unfold findMethod at h
  rw [srv.serviceMap_nil] at h
  cases h

/-- What the caller sees. -/
def Call.outcome (call : Call V) : Option Error × V := (call.error, call.reply)

/-- A method that leaves the reply `w` and sets no metadata. -/
def constant (w : V) : V → MethodResult V := fun _ => ⟨w, ∅, .returned none⟩

section Gzip

variable {typeOf : V → T} {st : SerializeType} {codec : Codec V} {call : Call V}
  {mtype : MethodType T}
  (hlaw : RoundTrips codec typeOf srv.new) (hcodec : codecs env st = some codec)
  (hm : findMethod srv call.servicePath call.serviceMethod = .ok mtype)
  {w : V} {data dw : Bytes} (hdata : codec.encode call.args = .ok data)
    (hdw : codec.encode w = .ok dw)
  (q : UInt64) (b b' : UInt8)

include hcodec hm hdata hdw

include hlaw in
theorem exchange_constant_plain (hargs : typeOf call.args = mtype.argType)
    (hreply : call.reply = srv.new mtype.replyType) (herr : call.error = none)
    (hw : typeOf w = mtype.replyType) :
    (exchange env ⟨st, CompressType.none⟩ srv call q b b' (constant w)).error = none := by
  have htyped : WellTyped typeOf srv call (constant w) := by
    refine ⟨fun h => ?_, fun h => ?_, fun h _ => ?_, fun _ => Finmap.notMem_empty⟩ <;>
      cases hm.symm.trans h
    exacts [hargs, hreply, hw]
  have hcall := named_of_findMethod hm
  let plain : ClientOption := ⟨st, CompressType.none⟩
  have hcodec' : codecs env plain.serializeType = some codec := hcodec
  have hz : plain.compressType ≠ CompressType.gzip := by show (0 : UInt8) ≠ 1; decide
  let m : Message :=
    ⟨requestHeader q b st, call.servicePath, call.serviceMethod, call.metadata, data⟩
  have hreq : fillRequest env plain codec call q (pooled b) = .ok m :=
    fillRequest_plain q b hcall hdata fun h => hz h.2
  have hres : serveRequest env srv (norm m) (pooled b') (constant w) = some _ :=
    serveRequest_eq (requestHeader_flags q b st) (by decide) (by decide) b' _
  have hout := exchange_outcome hlaw hcodec' hcall htyped herr hz hreq hres
  have hargs' : decodeArgs env srv (norm m) mtype = .ok (codec, call.args) :=
    decodeArgs_request hlaw hcodec' htyped hm hdata (requestHeader_serializeType q b st) rfl
  have hok : (handleRequest env srv (norm m) (pooled magicNumber) (constant w)).1.2 = none := by
    rw [handleRequest_eq]
    have hm' : findMethod srv (norm m).servicePath (norm m).serviceMethod = .ok mtype := hm
    simp only [hm', hargs', constant, serviceCall, hdw]
  rw [← newMessage] at hok
  unfold Outcome at hout
  rw [hok] at hout
  obtain ⟨_, _, _, _, hnil, -⟩ := hout
  rw [exchange_eq hcodec' hreq hres, hnil]

theorem exchange_constant_gzip (hlen : data.length > 1024) (hne : dw ≠ [])
    (hrej : ∀ d, env.unzip dw ≠ .ok d) :
    (exchange env ⟨st, CompressType.gzip⟩ srv call q b b' (constant w)).error ≠ none := by
  let gz : ClientOption := ⟨st, CompressType.gzip⟩
  have hcodec' : codecs env gz.serializeType = some codec := hcodec
  have hfill : fillRequest env gz codec call q (pooled b) = _ :=
    fillRequest_zipped q b (named_of_findMethod hm) hdata hlen rfl
  cases hzip : env.zip data with
  | error e =>
    rw [hzip] at hfill
    unfold exchange
    simp only [hcodec,
      show fillRequest env ⟨st, CompressType.gzip⟩ codec call q (pooled b) = .error e from hfill]
    simp
  | ok z =>
    rw [hzip] at hfill
    let m : Message := ⟨(requestHeader q b st).setCompressType CompressType.gzip, call.servicePath,
      call.serviceMethod, call.metadata, z⟩
    have hflags : (norm m).header.get 2 = 0x04 := by
      show ((requestHeader q b st).setCompressType CompressType.gzip).get 2 = _
      rw [Header.get_setCompressType, if_pos rfl, requestHeader_flags]
      decide
    have hst : (norm m).header.get 3 = st <<< 4 := by
      show ((requestHeader q b st).setCompressType CompressType.gzip).get 3 = _
      rw [Header.get_setCompressType, if_neg (by omega), requestHeader_serializeType]
    have hres : serveRequest env srv (norm m) (pooled b') (constant w) = some _ :=
      serveRequest_eq hflags (by decide) (by decide) b' _
    rw [show exchange env ⟨st, CompressType.gzip⟩ srv call q b b' (constant w) = _ from
      exchange_eq hcodec' hfill hres]
    rcases handleRequest_cases env srv (norm m) magicNumber (constant w) with
      ⟨err, md, heq, hmd⟩ | ⟨mtype', codec', argv, data', -, hargs, henc, heq⟩ <;>
      rw [← newMessage] at heq <;> rw [heq]
    · have hkey : serviceErrorKey ∉ md := by
        rcases hmd with rfl | ⟨v, rfl⟩ <;> exact Finmap.notMem_empty
      rw [handleCall_handleError hflags (by decide) hkey call]
      simp
    · have hcc := codec_of_decodeArgs hargs
      rw [serializeType_of_codec hcodec hst, hcodec] at hcc
      cases hcc
      cases hdw.symm.trans henc
      cases hunzip : env.unzip dw with
      | ok d => exact absurd hunzip (hrej d)
      | error e =>
        set r := norm
          (withMetadata { blankResponse (norm m) with payload := dw } (constant w argv).resMetadata)
        have hx : r.header.get 2 = 0x04 ||| 0x80 := blankResponse_flags hflags
        have hst' : r.header.get 3 = st <<< 4 := (blankResponse_serializeType (norm m)).trans hst
        exact handleCall_rejected call hx hst' hcodec (by decide) (by decide) (by decide) hne hunzip

end Gzip

/-- Compression changes nothing as long as `send` does not compress. -/
theorem exchange_small {st : SerializeType} {codec : Codec V} {call : Call V}
    (hcodec : codecs env st = some codec)
    (hsmall : ∀ data, codec.encode call.args = .ok data → data.length ≤ 1024) (q : UInt64)
    (b b' : UInt8) (method : V → MethodResult V) :
    exchange env ⟨st, CompressType.gzip⟩ srv call q b b' method =
      exchange env ⟨st, CompressType.none⟩ srv call q b b' method := by
  have hfill : fillRequest env ⟨st, CompressType.gzip⟩ codec call q (pooled b) =
      fillRequest env ⟨st, CompressType.none⟩ codec call q (pooled b) := by
    unfold fillRequest
    cases hdata : codec.encode call.args with
    | error err => rfl
    | ok data =>
      have hle : ¬ data.length > 1024 := by
        have := hsmall data hdata
        omega
      simp only [bind, Except.bind, hle, false_and, if_false]
  unfold exchange
  simp only [hcodec, hfill]

/-- **Compression.** For a registered method, let some reply be written as bytes that are not a gzip
stream. Then a call with `Compress(Gzip)` gets the same error and the same reply as with
`Compress(None)`, whatever the method does, exactly if its encoded arguments have at most 1024
bytes. -/
theorem gzip_transparent_iff {typeOf : V → T} {st : SerializeType} {codec : Codec V} {call : Call V}
    {mtype : MethodType T} (hlaw : RoundTrips codec typeOf srv.new)
    (hcodec : codecs env st = some codec)
    (hm : findMethod srv call.servicePath call.serviceMethod = .ok mtype)
    (hargs : typeOf call.args = mtype.argType) (hreply : call.reply = srv.new mtype.replyType)
    (herr : call.error = none)
    (hplain : ∃ w dw, codec.encode w = .ok dw ∧ typeOf w = mtype.replyType ∧ dw ≠ [] ∧
      ∀ d, env.unzip dw ≠ .ok d) (q : UInt64) (b b' : UInt8) :
    (∀ method : V → MethodResult V, (∀ v, typeOf (method v).reply = mtype.replyType) →
      Call.outcome (exchange env ⟨st, CompressType.gzip⟩ srv call q b b' method) =
        Call.outcome (exchange env ⟨st, CompressType.none⟩ srv call q b b' method)) ↔
    ∀ data, codec.encode call.args = .ok data → data.length ≤ 1024 := by
  constructor
  · intro hsame data hdata
    obtain ⟨w, dw, hdw, hw, hne, hrej⟩ := hplain
    by_contra hlong
    have hout := congrArg Prod.fst (hsame (constant w) fun _ => hw)
    have hgz := exchange_constant_gzip hcodec hm hdata hdw q b b' (by omega) hne hrej
    have hpl := exchange_constant_plain hlaw hcodec hm hdata hdw q b b' hargs hreply herr hw
    exact hgz (hout.trans hpl)
  · intro hsmall method _
    rw [exchange_small hcodec hsmall]

/-- A server with one service and one method. -/
def oneMethod : Config (Option Bytes) Unit where
  serviceMap p := if p = [65] then some fun m => if m = [77] then some ⟨(), ()⟩ else none else none
  new _ := some []
  maxMessageLength := 0
  serviceMap_nil := rfl

/-- A method that returns its arguments. -/
def echo (v : Option Bytes) : MethodResult (Option Bytes) := ⟨v, ∅, .returned none⟩

theorem quoteCodec_roundTrips : RoundTrips quoteCodec (fun _ => ()) oneMethod.new where
  reads_back := by
    intro v data h
    cases v with
    | none => cases h
    | some b =>
      cases h
      simp [quoteCodec]
  new_of_empty := by
    intro v h
    cases v <;> cases h

/-- A call of the method, into an empty string. -/
def stringCall (args : Bytes) : Call (Option Bytes) :=
  newCall ⟨none, none, false⟩ [65] [77] (some args) (some [])

/-- A short string. -/
theorem gzip_transparent_short :
    Call.outcome
      (exchange quoteEnv ⟨SerializeType.json, CompressType.gzip⟩ oneMethod (stringCall [97]) 0
        magicNumber magicNumber (constant (some [98]))) =
      Call.outcome
        (exchange quoteEnv ⟨SerializeType.json, CompressType.none⟩ oneMethod (stringCall [97]) 0
        magicNumber magicNumber (constant (some [98]))) := by
  have hm : findMethod oneMethod (stringCall [97]).servicePath (stringCall [97]).serviceMethod =
    .ok ⟨(), ()⟩ := rfl
  refine (gzip_transparent_iff quoteCodec_roundTrips rfl hm rfl rfl rfl ?_ _ _ _).mpr ?_ _ fun _ =>
    rfl
  · exact ⟨some [], [34, 34], rfl, rfl, by simp, fun d h => by cases h⟩
  · intro data h
    cases h
    decide

/-- A string of 1025 bytes. Without compression the call gets the reply, with compression it gets
the error of the codec that was given the compressed arguments. -/
theorem gzip_not_transparent :
    Call.outcome (exchange quoteEnv ⟨SerializeType.json, CompressType.none⟩ oneMethod
      (stringCall (List.replicate 1025 97)) 0 magicNumber magicNumber (constant (some [98]))) =
        (none, some [98]) ∧
    Call.outcome (exchange quoteEnv ⟨SerializeType.json, CompressType.gzip⟩ oneMethod
      (stringCall (List.replicate 1025 97)) 0 magicNumber magicNumber (constant (some [98]))) =
        (some (.serviceError (str "invalid character looking for beginning of value")),
          some []) := by
  constructor
  · decide +kernel
  · decide +kernel

end Frpc.System.Exchange
