import Frpc.Protocol.Messages

/-! # Codecs and compression

What client and server share besides the wire format: the table `core.Codecs`, and `Zip` and
`Unzip`. The libraries behind them (`json`, `proto`, `msgpack`, `gzip`) and the configured
`MaxMessageLength` are parameters of the development, collected in `Env`; `V` is the type of the
values behind an `interface{}`. -/

namespace Frpc.Codecs

open Frpc.Basic Frpc.Protocol.Headers

/-- `type Codec interface`. `Decode` writes into the value it is given. On some data it may panic
instead, as that of `msgpack` can; `decode` says what it does where it does not. -/
structure Codec (V : Type) where
  encode : V → Except Error Bytes
  decode : Bytes → V → V × Option Error
  panics : Bytes → V → Bool

/-- The libraries, and `protocol.MaxMessageLength`. -/
structure Env (V : Type) where
  jsonCodec : Codec V
  pbCodec : Codec V
  msgpackCodec : Codec V
  zip : Bytes → Except Error Bytes
  unzip : Bytes → Except Error Bytes
  maxMessageLength : ℤ

/-- `core.Codecs` -/
def codecs {V : Type} (env : Env V) (t : SerializeType) : Option (Codec V) :=
  if t = SerializeType.json then some env.jsonCodec
  else if t = SerializeType.protoBuffer then some env.pbCodec
  else if t = SerializeType.msgPack then some env.msgpackCodec
  else none

/-- No `Decode` panics. -/
def DecodeReturns {V : Type} (env : Env V) : Prop :=
  ∀ t codec, codecs env t = some codec → ∀ data v, codec.panics data v = false

/-- `protocol.ServiceError`, the metadata key of error texts. -/
def serviceErrorKey : Bytes := str "__frpc_error__"

/-! ### A small instance, for concrete runs -/

/-- A codec in the manner of JSON: `some b` is the string `b`, `none` a value that cannot be
encoded. -/
def quoteCodec : Codec (Option Bytes) where
  encode
    | some b => .ok (34 :: b ++ [34])
    | none => .error (.other (str "json: unsupported type: chan int"))
  decode data v :=
    match data with
    | [] => (v, some (.other (str "unexpected end of JSON input")))
    | a :: rest =>
      if a = 34 ∧ rest.getLast? = some 34 then (some rest.dropLast, none)
      else (v, some (.other (str "invalid character looking for beginning of value")))
  panics _ _ := false

/-- Strings as values, and a compression that only adds the two bytes every gzip stream starts
with. -/
def quoteEnv : Env (Option Bytes) where
  jsonCodec := quoteCodec
  pbCodec := quoteCodec
  msgpackCodec := quoteCodec
  zip data := .ok (0x1f :: 0x8b :: data)
  unzip
    | [] => .error .eof
    | [_] => .error .unexpectedEOF
    | a :: b :: data =>
      if a = 0x1f ∧ b = 0x8b then .ok data else .error (.other (str "gzip: invalid header"))
  maxMessageLength := 0

end Frpc.Codecs
