import Frpc.Basic
import Frpc.Lib.BigEndian

/-! # The message header

Twelve bytes: the magic number, the version, a byte of flags (message type in bit 7, heartbeat in
bit 6, one-way in bit 5, compression in bits 4 to 2, status in bits 1 and 0), the serialize type in
the high half of byte 3, and the sequence number in the last eight bytes, big-endian. The setters
are those of `protocol/message.go`: `SetMessageType`, `SetCompressType`, `SetMessageStatusType` and
`SetSerializeType` only add bits. -/

namespace Frpc.Protocol.Headers

open Frpc.Basic Frpc.Lib.BigEndian

/-- `magicNumber` -/
def magicNumber : UInt8 := 0x08

/-- `MessageType`: `Request` and `Response`. -/
abbrev MessageType := UInt8

namespace MessageType
def request : MessageType := 0
def response : MessageType := 1
end MessageType

/-- `CompressType`: `None` and `Gzip`. -/
abbrev CompressType := UInt8

namespace CompressType
def none : CompressType := 0
def gzip : CompressType := 1
end CompressType

/-- `MessageStatusType`: `Normal` and `Error`. -/
abbrev MessageStatusType := UInt8

namespace MessageStatusType
def normal : MessageStatusType := 0
def error : MessageStatusType := 1
end MessageStatusType

/-- `SerializeType`: `JSON`, `ProtoBuffer` and `MsgPack`. -/
abbrev SerializeType := UInt8

namespace SerializeType
def json : SerializeType := 0
def protoBuffer : SerializeType := 1
def msgPack : SerializeType := 2
end SerializeType

/-- `type Header [12]byte` -/
@[ext] structure Header where
  bytes : Bytes
  length_bytes : bytes.length = 12
deriving DecidableEq

namespace Header

/-- `h[i]` -/
def get (h : Header) (i : ℕ) : UInt8 := h.bytes.getD i 0

/-- `h[i] = v` -/
def set (h : Header) (i : ℕ) (v : UInt8) : Header :=
  ⟨h.bytes.set i v, by rw [List.length_set, h.length_bytes]⟩

def checkMagicNumber (h : Header) : Bool := h.get 0 == magicNumber

def version (h : Header) : UInt8 := h.get 1

def setVersion (h : Header) (v : UInt8) : Header := h.set 1 v

def messageType (h : Header) : MessageType := (h.get 2 &&& 0x80) >>> 7

def setMessageType (h : Header) (mt : MessageType) : Header := h.set 2 (h.get 2 ||| (mt <<< 7))

def isHeartbeat (h : Header) : Bool := h.get 2 &&& 0x40 == 0x40

def setHeartbeat (h : Header) (hb : Bool) : Header :=
  if hb then h.set 2 (h.get 2 ||| 0x40) else h.set 2 (h.get 2 &&& ~~~0x40)

def isOneway (h : Header) : Bool := h.get 2 &&& 0x20 == 0x20

def setOneway (h : Header) (oneway : Bool) : Header :=
  if oneway then h.set 2 (h.get 2 ||| 0x20) else h.set 2 (h.get 2 &&& ~~~0x20)

def compressType (h : Header) : CompressType := (h.get 2 &&& 0x1C) >>> 2

def setCompressType (h : Header) (ct : CompressType) : Header :=
  h.set 2 (h.get 2 ||| ((ct <<< 2) &&& 0x1C))

def messageStatusType (h : Header) : MessageStatusType := h.get 2 &&& 0x03

def setMessageStatusType (h : Header) (mt : MessageStatusType) : Header :=
  h.set 2 (h.get 2 ||| (mt &&& 0x03))

def serializeType (h : Header) : SerializeType := (h.get 3 &&& 0xF0) >>> 4

def setSerializeType (h : Header) (st : SerializeType) : Header := h.set 3 (h.get 3 ||| (st <<< 4))

/-- `binary.BigEndian.Uint64(h[4:])` -/
def seq (h : Header) : UInt64 := UInt64.ofNat (getBE (h.bytes.drop 4))

/-- `binary.BigEndian.PutUint64(h[4:], seq)` -/
def setSeq (h : Header) (seq : UInt64) : Header :=
  ⟨h.bytes.take 4 ++ putBE 8 seq.toNat, by simp [h.length_bytes]⟩

/-- `resetHeader`: all bytes but the first become zero. -/
def resetHeader (h : Header) : Header :=
  ⟨h.bytes.take 1 ++ List.replicate 11 0, by simp [h.length_bytes]⟩

/-- A header that `resetHeader` has cleared, with `b` for its first byte. -/
def clean (b : UInt8) : Header := ⟨b :: List.replicate 11 0, by simp⟩

theorem resetHeader_eq_clean (h : Header) : h.resetHeader = clean (h.get 0) := by
  obtain ⟨_ | ⟨b, bs⟩, hl⟩ := h
  · simp at hl
  · ext1
    simp [resetHeader, clean, get]

/-! ### Bytes under the setters -/

theorem get_set (h : Header) {i : ℕ} (hi : i < 12) (j : ℕ) (v : UInt8) :
    (h.set i v).get j = if j = i then v else h.get j := by
  have hl : i < h.bytes.length := by rw [h.length_bytes]; exact hi
  unfold get set
  by_cases hj : j = i
  · subst hj
    simp [List.getD_eq_getElem?_getD, hl]
  · simp [List.getD_eq_getElem?_getD, hj, Ne.symm hj]

theorem get_setSeq (h : Header) (q : UInt64) {j : ℕ} (hj : j < 4) :
    (h.setSeq q).get j = h.get j := by
  have hl : j < (h.bytes.take 4).length := by simp [h.length_bytes, hj]
  unfold get setSeq
  rw [List.getD_eq_getElem?_getD, List.getElem?_append_left hl, List.getElem?_take_of_lt hj,
    List.getD_eq_getElem?_getD]

/-- **The sequence number reads back.** -/
theorem seq_setSeq (h : Header) (q : UInt64) : (h.setSeq q).seq = q := by
  have hdrop : (h.setSeq q).bytes.drop 4 = putBE 8 q.toNat := by
    unfold setSeq
    exact List.drop_left' (by simp [h.length_bytes])
  apply UInt64.toNat_inj.mp
  unfold seq
  rw [hdrop, getBE_putBE]
  simp

theorem seq_set (h : Header) {i : ℕ} (hi : i < 4) (v : UInt8) : (h.set i v).seq = h.seq := by
  unfold seq set
  simp [List.drop_set_of_lt hi]

/-- The byte of flags and the byte of the serialize type, under the setters. -/
theorem get_setMessageType (h : Header) (mt : MessageType) (j : ℕ) :
    (h.setMessageType mt).get j = if j = 2 then h.get 2 ||| (mt <<< 7) else h.get j :=
  h.get_set (by omega) j _

theorem get_setCompressType (h : Header) (ct : CompressType) (j : ℕ) :
    (h.setCompressType ct).get j = if j = 2 then h.get 2 ||| ((ct <<< 2) &&& 0x1C) else h.get j :=
  h.get_set (by omega) j _

theorem get_setMessageStatusType (h : Header) (mt : MessageStatusType) (j : ℕ) :
    (h.setMessageStatusType mt).get j = if j = 2 then h.get 2 ||| (mt &&& 0x03) else h.get j :=
  h.get_set (by omega) j _

theorem get_setSerializeType (h : Header) (st : SerializeType) (j : ℕ) :
    (h.setSerializeType st).get j = if j = 3 then h.get 3 ||| (st <<< 4) else h.get j :=
  h.get_set (by omega) j _

theorem messageType_of_bit {h : Header} {x : UInt8} (hx : h.get 2 = x ||| 0x80) :
    h.messageType = MessageType.response := by
  have hbit : ∀ v : BitVec 8, ((v ||| 0x80) &&& 0x80) >>> 7 = 1 := by decide
  unfold messageType
  rw [hx]
  exact UInt8.eq_of_toBitVec_eq (hbit x.toBitVec)

end Header

end Frpc.Protocol.Headers
