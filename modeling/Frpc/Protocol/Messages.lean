import Frpc.Lib.Slices
import Frpc.Protocol.Headers

/-! # Messages and their encoding

`protocol/message.go`: a message, `Encode`, `Decode` and the two functions for metadata, as the code
computes them. `encode` writes into a zeroed buffer at the offsets the code computes, `decode` reads
a header and a body from a reader and cuts the body with bounds-checked slices; metadata lengths are
`uint32`, with its wrap-around. A run-time panic is an `Except.error`, an error value of the source
is returned next to the message.

A frame is the header, the length of the body, and the body: four sections, each behind its
length. -/

namespace Frpc.Protocol.Messages

open Frpc.Basic Frpc.Lib.BigEndian Frpc.Lib.Slices Frpc.Protocol.Headers

/-- `type Message struct` -/
structure Message where
  header : Header
  servicePath : Bytes
  serviceMethod : Bytes
  metadata : Option Metadata
  payload : Bytes

/-- The metadata as a map, `nil` being the empty one. -/
def Message.meta0 (m : Message) : Metadata := m.metadata.getD ∅

/-- A message as `FreeMsg` puts it into the pool: only the first header byte is not determined. -/
def pooled (b : UInt8) : Message := ⟨.clean b, [], [], none, []⟩

/-- `NewMessage` -/
def newMessage : Message := pooled magicNumber

/-- `Message.Reset` -/
def Message.reset (m : Message) : Message :=
  { m with
    header := m.header.resetHeader
    metadata := none
    payload := []
    servicePath := []
    serviceMethod := [] }

/-- `Message.Copy`, into the message `c` of the pool. -/
def Message.copy (m c : Message) : Message :=
  { c with
    header := m.header
    servicePath := m.servicePath
    serviceMethod := m.serviceMethod }

theorem reset_eq_pooled (m : Message) : m.reset = pooled (m.header.get 0) := by
  rw [Message.reset, pooled, Header.resetHeader_eq_clean]

/-! ### Words on the wire -/

/-- `binary.BigEndian.PutUint32` -/
def putUint32 (v : UInt32) : Bytes := putBE 4 v.toNat

/-- `binary.BigEndian.Uint32` -/
def uint32 (b : Slice UInt8) : Except Fault UInt32 :=
  if 4 ≤ b.len then .ok (UInt32.ofNat (getBE (b.toList.take 4))) else .error .bounds

/-! ### Encode -/

/-- One key and value of `encodeMetadata`. -/
def encodeEntry (k v : Bytes) : Bytes :=
  putUint32 (.ofNat k.length) ++ k ++ (putUint32 (.ofNat v.length) ++ v)

/-- `encodeMetadata`, visiting the map in the given order. -/
def encodeMetadata (m : MetaOrder) : Bytes :=
  if m.entries.length = 0 then [] else m.entries.flatMap fun e => encodeEntry e.1 e.2

/-- `Message.Encode`, visiting the metadata in the given order. -/
def Message.encode (m : Message) (order : MetaOrder) : Except Fault Bytes := do
  let md := encodeMetadata order
  let spl := m.servicePath.length
  let sml := m.serviceMethod.length
  let allL := (4 + spl) + (4 + sml) + (4 + md.length) + (4 + m.payload.length)
  let metaStart := 12 + 4 + (4 + spl) + (4 + sml)
  let payLoadStart := metaStart + (4 + md.length)
  let l := 12 + 4 + allL
  let data ← copyAt (List.replicate l 0) 0 l m.header.bytes
  let data ← copyAt data 12 16 (putUint32 (.ofNat allL))
  let data ← copyAt data 16 20 (putUint32 (.ofNat spl))
  let data ← copyAt data 20 (20 + spl) m.servicePath
  let data ← copyAt data (20 + spl) (24 + spl) (putUint32 (.ofNat sml))
  let data ← copyAt data (24 + spl) metaStart m.serviceMethod
  let data ← copyAt data metaStart (metaStart + 4) (putUint32 (.ofNat md.length))
  let data ← copyAt data (metaStart + 4) l md
  let data ← copyAt data payLoadStart (payLoadStart + 4) (putUint32 (.ofNat m.payload.length))
  copyAt data (payLoadStart + 4) l m.payload

/-! ### Decode -/

/-- A reader: the bytes it will deliver, and the error it returns after them. -/
structure Reader where
  data : Bytes
  fail : Error

/-- `io.ReadFull` -/
def Reader.readFull (r : Reader) (buf : Bytes) : Bytes × Reader × Option Error :=
  let n := min buf.length r.data.length
  (r.data.take n ++ buf.drop n, { r with data := r.data.drop n },
    if buf.length ≤ r.data.length then none
    else if n = 0 then some r.fail
    else if r.fail = .eof then some .unexpectedEOF else some r.fail)

theorem length_readFull (r : Reader) (buf : Bytes) : (r.readFull buf).1.length = buf.length := by
  simp only [Reader.readFull, List.length_append, List.length_take, List.length_drop]
  omega

/-- One round of the loop of `decodeMetadata`: a key and a value from offset `n` on, and the offset
behind them; `none` is `ErrMetaKVMissing`. -/
def decodeEntry (l : UInt32) (data : Slice UInt8) (n : UInt32) :
    Except Fault (Option (Bytes × Bytes × UInt32)) := do
  let sl ← uint32 (← data.slice n.toNat (n + 4).toNat)
  let n := n + 4
  if n + sl > l - 4 then return none
  else
    let k ← data.slice n.toNat (n + sl).toNat
    let n := n + sl
    let sl ← uint32 (← data.slice n.toNat (n + 4).toNat)
    let n := n + 4
    if n + sl > l then return none
    else
      let v ← data.slice n.toNat (n + sl).toNat
      return some (k.toList, v.toList, n + sl)

/-- The loop of `decodeMetadata`. -/
def decodeEntries (l : UInt32) (data : Slice UInt8) :
    ℕ → UInt32 → Metadata → Except Fault (Metadata × Option Error)
  | 0, n, m => if n < l then .error .fuel else .ok (m, none)
  | fuel + 1, n, m =>
    if n < l then do
      match ← decodeEntry l data n with
      | none => return (m, some .errMetaKVMissing)
      | some (k, v, n) => decodeEntries l data fuel n (m.insert k v)
    else .ok (m, none)

/-- `decodeMetadata`. Every round moves the offset forward, so `l` rounds are enough. -/
def decodeMetadata (l : UInt32) (data : Slice UInt8) : Except Fault (Metadata × Option Error) :=
  decodeEntries l data l.toNat 0 ∅

/-- The first half of `Message.Decode`: read the header, the length and the body. -/
def Message.readFrame (message : Message) (maxMessageLength : ℤ) (reader : Reader) :
    Message × Reader × Except Error Bytes :=
  let header := reader.readFull message.header.bytes
  let message := { message with
    header := ⟨header.1, by rw [length_readFull, message.header.length_bytes]⟩ }
  match header.2.2 with
  | some err => (message, header.2.1, .error err)
  | none =>
    let lenData := header.2.1.readFull (List.replicate 4 0)
    match lenData.2.2 with
    | some err => (message, lenData.2.1, .error err)
    | none =>
      let l := getBE lenData.1
      if maxMessageLength > 0 ∧ (l : ℤ) > maxMessageLength then
        (message, lenData.2.1, .error .errMessageToLong)
      else
        let data := lenData.2.1.readFull (List.replicate l 0)
        match data.2.2 with
        | some err => (message, data.2.1, .error err)
        | none => (message, data.2.1, .ok data.1)

/-- A section of the body at offset `n`, read through its length, and the offset behind it. -/
def sectionAt (data : Slice UInt8) (n : ℕ) : Except Fault (Bytes × ℕ) := do
  let l ← uint32 (← data.slice n (n + 4))
  let n := n + 4
  let nEnd := n + l.toNat
  let s ← data.slice n nEnd
  return (s.toList, nEnd)

/-- The metadata section at offset `n`. An empty section leaves the metadata as they were. -/
def metaAt (data : Slice UInt8) (n : ℕ) (metadata : Option Metadata) :
    Except Fault (Option Metadata × Option Error × ℕ) := do
  let l ← uint32 (← data.slice n (n + 4))
  let n := n + 4
  let nEnd := n + l.toNat
  if l > 0 then
    let (m, err) ← decodeMetadata l (← data.slice n nEnd)
    return (some m, err, nEnd)
  else return (metadata, none, nEnd)

/-- The second half of `Message.Decode`: cut the body. The length of the payload is read and not
used. -/
def Message.parseBody (message : Message) (data : Slice UInt8) :
    Except Fault (Message × Option Error) := do
  let (servicePath, n) ← sectionAt data 0
  let (serviceMethod, n) ← sectionAt data n
  let (metadata, err, n) ← metaAt data n message.metadata
  let message := { message with servicePath, serviceMethod, metadata }
  match err with
  | some err => return (message, some err)
  | none =>
    let _ ← uint32 (← data.slice n (n + 4))
    let payload ← data.slice (n + 4) data.len
    return ({ message with payload := payload.toList }, none)

/-- `Message.Decode` -/
def Message.decode (message : Message) (maxMessageLength : ℤ) (reader : Reader) :
    Except Fault (Message × Reader × Option Error) :=
  match message.readFrame maxMessageLength reader with
  | (message, reader, .error err) => .ok (message, reader, some err)
  | (message, reader, .ok body) => do
    let (message, err) ← message.parseBody (.ofList body)
    return (message, reader, err)

end Frpc.Protocol.Messages
