import Frpc.Protocol.Wire

/-! # The lengths in a frame

`Encode` computes five lengths as `int` and writes each as a `uint32`. The five words that stand in
the frame (`wordAt_total` and the four after it) are the true lengths modulo `2 ^ 32`; they are the
true lengths, and a reader that goes by the first of them stops where the frame ends, exactly if the
body is shorter than `2 ^ 32` bytes (`frame_self_delimiting`). -/

namespace Frpc.Protocol.Lengths

open Frpc.Basic Frpc.Lib.BigEndian Frpc.Lib.Slices Frpc.Protocol.Headers Frpc.Protocol.Messages
open Frpc.Protocol.Wire

/-- The word at offset `i`. -/
def wordAt (d : Bytes) (i : ℕ) : ℕ := getBE ((d.drop i).take 4)

/-- The length of the body: `allL`. -/
def allL (m : Message) (order : MetaOrder) : ℕ :=
  (4 + m.servicePath.length) + (4 + m.serviceMethod.length) + (4 + (encodeMetadata order).length) +
    (4 + m.payload.length)

/-- The words in the frame `f` of a message are the byte counts of what they stand for. -/
structure TrueLengths (m : Message) (order : MetaOrder) (f : Bytes) : Prop where
  total : 16 + wordAt f 12 = f.length
  servicePath : wordAt f 16 = m.servicePath.length
  serviceMethod : wordAt f (20 + m.servicePath.length) = m.serviceMethod.length
  metadata : wordAt f (24 + m.servicePath.length + m.serviceMethod.length) =
    (encodeMetadata order).length
  payload : wordAt f
    (28 + m.servicePath.length + m.serviceMethod.length + (encodeMetadata order).length) =
    m.payload.length

/-- A reader that goes by the length behind the header leaves what follows the frame, and nothing
else. -/
def StopsAtEnd (f : Bytes) : Prop :=
  ∀ (m : Message) (rest : Bytes) (fail : Error), (m.readFrame 0 ⟨f ++ rest, fail⟩).2.1 =
    ⟨rest, fail⟩

theorem length_bodyOf_eq (m : Message) (order : MetaOrder) :
    (bodyOf m order).length = allL m order :=
  length_bodyOf m order

/-! ### The words of a frame -/

theorem wordAt_append {d a r : Bytes} {n i : ℕ} (hd : d = a ++ (putUint32 (.ofNat n) ++ r))
    (ha : a.length = i) : wordAt d i = n % 2 ^ 32 := by
  unfold wordAt
  rw [hd, List.drop_left' ha, List.take_left' (length_putUint32 _), getBE_putUint32,
    UInt32.toNat_ofNat']

section Words

variable (m : Message) (order : MetaOrder)

theorem wordAt_total : wordAt (frame m order) 12 = allL m order % 2 ^ 32 := by
  rw [← length_bodyOf_eq]
  exact wordAt_append rfl m.header.length_bytes

theorem wordAt_servicePath : wordAt (frame m order) 16 = m.servicePath.length % 2 ^ 32 := by
  have hd : frame m order = (m.header.bytes ++ putUint32 (.ofNat (bodyOf m order).length)) ++
      (putUint32 (.ofNat m.servicePath.length) ++ (m.servicePath ++ (lenPrefixed m.serviceMethod ++
        (lenPrefixed (encodeMetadata order) ++ lenPrefixed m.payload)))) := by
    simp only [frame, bodyOf, lenPrefixed, List.append_assoc]
  refine wordAt_append hd ?_
  rw [List.length_append, m.header.length_bytes, length_putUint32]

theorem wordAt_serviceMethod :
    wordAt (frame m order) (20 + m.servicePath.length) = m.serviceMethod.length % 2 ^ 32 := by
  have hd : frame m order = (m.header.bytes ++ putUint32 (.ofNat (bodyOf m order).length) ++
      lenPrefixed m.servicePath) ++
        (putUint32 (.ofNat m.serviceMethod.length) ++ (m.serviceMethod ++
        (lenPrefixed (encodeMetadata order) ++ lenPrefixed m.payload))) := by
    simp only [frame, bodyOf, lenPrefixed, List.append_assoc]
  refine wordAt_append hd ?_
  simp only [List.length_append, m.header.length_bytes, length_putUint32, length_lenPrefixed]
  omega

theorem wordAt_metadata :
    wordAt (frame m order) (24 + m.servicePath.length + m.serviceMethod.length) =
    (encodeMetadata order).length % 2 ^ 32 := by
  have hd : frame m order = (m.header.bytes ++ putUint32 (.ofNat (bodyOf m order).length) ++
      lenPrefixed m.servicePath ++ lenPrefixed m.serviceMethod) ++
        (putUint32 (.ofNat (encodeMetadata order).length) ++ (encodeMetadata order ++
          lenPrefixed m.payload)) := by
    simp only [frame, bodyOf, lenPrefixed, List.append_assoc]
  refine wordAt_append hd ?_
  simp only [List.length_append, m.header.length_bytes, length_putUint32, length_lenPrefixed]
  omega

theorem wordAt_payload :
    wordAt (frame m order)
        (28 + m.servicePath.length + m.serviceMethod.length + (encodeMetadata order).length) =
      m.payload.length % 2 ^ 32 := by
  have hd : frame m order = (m.header.bytes ++ putUint32 (.ofNat (bodyOf m order).length) ++
      lenPrefixed m.servicePath ++ lenPrefixed m.serviceMethod ++
        lenPrefixed (encodeMetadata order)) ++
        (putUint32 (.ofNat m.payload.length) ++ m.payload) := by
    simp only [frame, bodyOf, lenPrefixed, List.append_assoc]
  refine wordAt_append hd ?_
  simp only [List.length_append, m.header.length_bytes, length_putUint32, length_lenPrefixed]
  omega

/-- **The lengths are true** exactly if the body is shorter than `2 ^ 32` bytes. -/
theorem trueLengths_iff : TrueLengths m order (frame m order) ↔ allL m order < 2 ^ 32 := by
  have hlen : (frame m order).length = 16 + allL m order := by rw [length_frame, length_bodyOf_eq]
  constructor
  · intro h
    have htotal := h.total
    rw [wordAt_total, hlen] at htotal
    omega
  · intro h
    have hall : allL m order = (4 + m.servicePath.length) + (4 + m.serviceMethod.length) +
      (4 + (encodeMetadata order).length) + (4 + m.payload.length) := rfl
    constructor
    · rw [wordAt_total, hlen, Nat.mod_eq_of_lt h]
    · rw [wordAt_servicePath, Nat.mod_eq_of_lt (by omega)]
    · rw [wordAt_serviceMethod, Nat.mod_eq_of_lt (by omega)]
    · rw [wordAt_metadata, Nat.mod_eq_of_lt (by omega)]
    · rw [wordAt_payload, Nat.mod_eq_of_lt (by omega)]

/-! ### The reader -/

/-- The reader takes as many bytes of the body as the written length says, and leaves the others in
front of what follows. -/
theorem readFrame_frame (m' : Message) (rest : Bytes) (fail : Error) :
    (m'.readFrame 0 ⟨frame m order ++ rest, fail⟩).2.1 =
      ⟨(bodyOf m order).drop (allL m order % 2 ^ 32) ++ rest, fail⟩ := by
  have hv : (UInt32.ofNat (bodyOf m order).length).toNat = allL m order % 2 ^ 32 := by
    rw [UInt32.toNat_ofNat', length_bodyOf_eq]
  have hle : allL m order % 2 ^ 32 ≤ (bodyOf m order).length := by
    rw [length_bodyOf_eq]
    exact Nat.mod_le _ _
  have hd : frame m order ++ rest = m.header.bytes ++ (putUint32 (.ofNat (bodyOf m order).length) ++
      ((bodyOf m order).take (allL m order % 2 ^ 32) ++
        ((bodyOf m order).drop (allL m order % 2 ^ 32) ++ rest))) := by
    rw [← List.append_assoc (List.take _ _), List.take_append_drop, frame]
    simp only [List.append_assoc]
  rw [readFrame_ok hd (by rw [List.length_take, hv]; omega) (by omega)]

/-- **The reader stops at the end of the frame** exactly if the body is shorter than `2 ^ 32`
bytes. -/
theorem stopsAtEnd_iff : StopsAtEnd (frame m order) ↔ allL m order < 2 ^ 32 := by
  constructor
  · intro h
    have hrest := h m [] .eof
    rw [readFrame_frame, Reader.mk.injEq, List.append_nil, List.drop_eq_nil_iff,
      length_bodyOf_eq] at hrest
    have hmod := Nat.mod_lt (allL m order) (show 2 ^ 32 > 0 by decide)
    omega
  · intro h m' rest fail
    have hdrop : (bodyOf m order).drop (allL m order % 2 ^ 32) = [] := by
      rw [List.drop_eq_nil_iff, length_bodyOf_eq, Nat.mod_eq_of_lt h]
    rw [readFrame_frame, hdrop, List.nil_append]

/-- **Frames are self-delimiting** up to a body of `2 ^ 32` bytes, and not from there on: for every
message and every order of its metadata, the lengths that `Encode` writes are true exactly if the
body is shorter, and so is it with a reader that trusts them. -/
theorem frame_self_delimiting :
    ∃ f, m.encode order = .ok f ∧ (TrueLengths m order f ↔ allL m order < 2 ^ 32) ∧
      (StopsAtEnd f ↔ allL m order < 2 ^ 32) :=
  ⟨frame m order, encode_eq m order, trueLengths_iff m order, stopsAtEnd_iff m order⟩

end Words

/-- A message with a payload of `n` zeros and nothing else. -/
def zeros (n : ℕ) : Message := { newMessage with payload := List.replicate n 0 }

theorem allL_zeros (n : ℕ) : allL (zeros n) ∅ = 16 + n := by
  have hpay : (zeros n).payload.length = n := List.length_replicate
  unfold allL
  rw [hpay]
  show 4 + 0 + (4 + 0) + (4 + 0) + (4 + n) = 16 + n
  omega

/-- With a payload of `2 ^ 32 - 16` bytes the length of the body reads as zero, and a reader that
goes by it leaves the whole body on the connection. -/
theorem frame_length_wraps :
    ∃ f, (zeros (2 ^ 32 - 16)).encode ∅ = .ok f ∧ f.length = 16 + 2 ^ 32 ∧ wordAt f 12 = 0 ∧
      ¬ StopsAtEnd f := by
  have hall : allL (zeros (2 ^ 32 - 16)) ∅ = 2 ^ 32 := by
    rw [allL_zeros]
    omega
  refine ⟨_, encode_eq _ _, ?_, ?_, ?_⟩
  · rw [length_frame, length_bodyOf_eq, hall]
  · rw [wordAt_total, hall]
    exact Nat.mod_self _
  · rw [stopsAtEnd_iff, hall]
    exact Nat.lt_irrefl _

end Frpc.Protocol.Lengths
