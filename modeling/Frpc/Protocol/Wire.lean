import Frpc.Protocol.Messages

/-! # The frame on the wire

`encode` computes every offset by hand; what it writes is the plain concatenation `frame`: the
header, the length of the body, and the four sections, each behind its length (`encode_eq`). On the
other side, `sectionAt` succeeds exactly on a complete section (`sectionAt_ok`, `sectionAt_fault`),
and `readFrame` returns the body exactly when all of it is there (`readFrame_ok`,
`readFrame_short`). -/

namespace Frpc.Protocol.Wire

open Frpc.Basic Frpc.Lib.BigEndian Frpc.Lib.Slices Frpc.Protocol.Headers Frpc.Protocol.Messages

/-- A section behind its length. -/
def lenPrefixed (b : Bytes) : Bytes := putUint32 (.ofNat b.length) ++ b

/-- The four sections of a message. -/
def bodyOf (m : Message) (order : MetaOrder) : Bytes :=
  lenPrefixed m.servicePath ++ (lenPrefixed m.serviceMethod ++
    (lenPrefixed (encodeMetadata order) ++ lenPrefixed m.payload))

/-- The frame of a message. -/
def frame (m : Message) (order : MetaOrder) : Bytes :=
  m.header.bytes ++ (putUint32 (.ofNat (bodyOf m order).length) ++ bodyOf m order)

@[simp] theorem length_putUint32 (v : UInt32) : (putUint32 v).length = 4 := length_putBE 4 _

@[simp] theorem length_lenPrefixed (b : Bytes) : (lenPrefixed b).length = 4 + b.length := by
  simp [lenPrefixed]

theorem length_bodyOf (m : Message) (order : MetaOrder) :
    (bodyOf m order).length = (4 + m.servicePath.length) + (4 + m.serviceMethod.length) +
      (4 + (encodeMetadata order).length) + (4 + m.payload.length) := by
  simp only [bodyOf, List.length_append, length_lenPrefixed]
  omega

theorem length_frame (m : Message) (order : MetaOrder) :
    (frame m order).length = 16 + (bodyOf m order).length := by
  simp only [frame, List.length_append, length_putUint32, m.header.length_bytes]
  omega

/-- **`Encode` writes the frame.** -/
theorem encode_eq (m : Message) (order : MetaOrder) : m.encode order = .ok (frame m order) := by
  have hh := m.header.length_bytes
  unfold Message.encode
  generalize hmd : encodeMetadata order = md
  simp only
  rw [← List.nil_append (List.replicate _ (0 : UInt8))]
  refine (copyAt_bind List.length_nil (by omega) (by omega) _).trans ?_
  refine (copyAt_bind (by simp [hh]) (by simp) (by omega) _).trans ?_
  refine (copyAt_bind (by simp [hh]) (by simp) (by simp; omega) _).trans ?_
  refine (copyAt_bind (by simp [hh]) (by simp) (by simp; omega) _).trans ?_
  refine (copyAt_bind (by simp [hh]; omega) (by simp; omega) (by simp; omega) _).trans ?_
  refine (copyAt_bind (by simp [hh]; omega) (by omega) (by simp; omega) _).trans ?_
  refine (copyAt_bind (by simp [hh]; omega) (by simp) (by simp; omega) _).trans ?_
  refine (copyAt_bind (by simp [hh]; omega) (by omega) (by simp; omega) _).trans ?_
  refine (copyAt_bind (by simp [hh]; omega) (by simp) (by simp; omega) _).trans ?_
  refine (copyAt_full (by simp [hh]; omega) (by simp [hh]; omega) (by simp [hh]; omega)).trans ?_
  rw [frame, length_bodyOf, bodyOf, hmd]
  simp only [lenPrefixed, List.nil_append, List.append_assoc]

/-! ### Reading words and sections -/

theorem toNat_ofNat_length {b : Bytes} (hb : b.length < 2 ^ 32) :
    (UInt32.ofNat b.length).toNat = b.length := by
  rw [UInt32.toNat_ofNat']
  exact Nat.mod_eq_of_lt hb

theorem getBE_putUint32 (v : UInt32) : getBE (putUint32 v) = v.toNat := by
  rw [putUint32, getBE_putBE]
  exact Nat.mod_eq_of_lt v.toNat_lt

theorem exists_putUint32 {x : Bytes} (hx : 4 ≤ x.length) : ∃ v r, x = putUint32 v ++ r := by
  have hl : (x.take 4).length = 4 := by simp [hx]
  have hlt : getBE (x.take 4) < 2 ^ 32 := by
    have := getBE_lt (x.take 4)
    rwa [hl] at this
  refine ⟨.ofNat (getBE (x.take 4)), x.drop 4, ?_⟩
  have hput := putBE_getBE (x.take 4)
  rw [hl] at hput
  rw [putUint32, UInt32.toNat_ofNat', Nat.mod_eq_of_lt hlt, hput, List.take_append_drop]

/-- **A word is read back** where it stands. -/
theorem uint32_slice {s : Slice UInt8} {a r : Bytes} {v : UInt32} {lo hi : ℕ}
    (hs : s.back = a ++ (putUint32 v ++ r)) (ha : a.length = lo) (hh : hi = lo + 4) :
    (s.slice lo hi >>= uint32) = .ok v := by
  rw [Slice.slice_append hs ha (by rw [length_putUint32]; exact hh), ok_bind, uint32]
  simp only [length_putUint32, le_refl, if_true, Slice.toList]
  rw [List.take_left' (length_putUint32 v), List.take_of_length_le (by simp), getBE_putUint32,
    UInt32.ofNat_toNat]

theorem uint32_fault {s : Slice UInt8} {lo hi : ℕ} (h : s.back.length < hi) :
    (s.slice lo hi >>= uint32) = .error .bounds := by
  rw [Slice.slice_fault (by omega), error_bind]

/-- **A complete section is read**, and the offset moves behind it. -/
theorem sectionAt_ok {s : Slice UInt8} {a b r : Bytes} {n : ℕ}
    (hs : s.back = a ++ (lenPrefixed b ++ r)) (ha : a.length = n) (hb : b.length < 2 ^ 32) :
    sectionAt s n = .ok (b, n + (4 + b.length)) := by
  have hw : s.back = a ++ (putUint32 (.ofNat b.length) ++ (b ++ r)) := by
    rw [hs, lenPrefixed, List.append_assoc]
  have hc : s.back = (a ++ putUint32 (.ofNat b.length)) ++ (b ++ r) := by
    rw [hw, List.append_assoc]
  unfold sectionAt
  rw [← bind_assoc, uint32_slice hw ha rfl, ok_bind]
  simp only [toNat_ofNat_length hb]
  rw [Slice.slice_append hc (by simp [ha]) rfl, ok_bind]
  simp only [Slice.toList, List.take_left, Nat.add_assoc]
  rfl

theorem sectionAt_fault {s : Slice UInt8} {n : ℕ} (hn : n ≤ s.back.length)
    (h : ∀ b r, s.back.drop n = lenPrefixed b ++ r → ¬ b.length < 2 ^ 32) :
    sectionAt s n = .error .bounds := by
  unfold sectionAt
  rw [← bind_assoc]
  by_cases h4 : n + 4 ≤ s.back.length
  · obtain ⟨v, r, hv⟩ := exists_putUint32 (show 4 ≤ (s.back.drop n).length by simp; omega)
    have hw : s.back = s.back.take n ++ (putUint32 v ++ r) := by
      rw [← hv, List.take_append_drop]
    rw [uint32_slice hw (by simp [hn]) rfl, ok_bind]
    have hr : r.length < v.toNat := by
      by_contra hle
      have hlen : (r.take v.toNat).length = v.toNat := by simp; omega
      refine h (r.take v.toNat) (r.drop v.toNat) ?_ (by rw [hlen]; exact v.toNat_lt)
      rw [hv, lenPrefixed, hlen, UInt32.ofNat_toNat, List.append_assoc, List.take_append_drop]
    have hlen := congrArg List.length hv
    simp only [List.length_drop, List.length_append, length_putUint32] at hlen
    simp only
    rw [Slice.slice_fault (by omega), error_bind]
  · rw [uint32_fault (by omega), error_bind]

/-! ### Reading header and body -/

theorem readFull_ok {r : Reader} {buf a b : Bytes} (hr : r.data = a ++ b)
    (ha : a.length = buf.length) :
    r.readFull buf = (a, { r with data := b }, none) := by
  have hmin : min buf.length r.data.length = a.length := by
    rw [hr, List.length_append]
    omega
  simp only [Reader.readFull, hmin]
  rw [if_pos (by rw [hr, List.length_append]; omega), hr, List.take_left, List.drop_left,
    ha, List.drop_length, List.append_nil]

theorem readFull_short (r : Reader) (buf : Bytes) (h : r.data.length < buf.length) :
    ∃ buf' r' e, r.readFull buf = (buf', r', some e) := by
  simp only [Reader.readFull]
  rw [if_neg (by omega)]
  split_ifs <;> exact ⟨_, _, _, rfl⟩

/-- The stream `d` starts with a header, a length that `MaxMessageLength` allows, and a body of that
length. -/
def BodyRead (maxMessageLength : ℤ) (d body : Bytes) : Prop :=
  ∃ (h : Header) (v : UInt32) (rest : Bytes), d = h.bytes ++ (putUint32 v ++ (body ++ rest)) ∧
    body.length = v.toNat ∧ ¬ (maxMessageLength > 0 ∧ (v.toNat : ℤ) > maxMessageLength)

/-- **The body is read**, and what follows it stays in the reader. -/
theorem readFrame_ok {maxLen : ℤ} {d body rest : Bytes} {h : Header} {v : UInt32}
    (hd : d = h.bytes ++ (putUint32 v ++ (body ++ rest))) (hb : body.length = v.toNat)
    (hmax : ¬ (maxLen > 0 ∧ (v.toNat : ℤ) > maxLen)) (m : Message) (fail : Error) :
    m.readFrame maxLen ⟨d, fail⟩ = ({ m with header := h }, ⟨rest, fail⟩, .ok body) := by
  have h1 : (Reader.mk d fail).readFull m.header.bytes =
      (h.bytes, ⟨putUint32 v ++ (body ++ rest), fail⟩, none) :=
    readFull_ok hd (by rw [h.length_bytes, m.header.length_bytes])
  have h2 : (Reader.mk (putUint32 v ++ (body ++ rest)) fail).readFull (List.replicate 4 0) =
      (putUint32 v, ⟨body ++ rest, fail⟩, none) := readFull_ok rfl (by simp)
  have h3 : (Reader.mk (body ++ rest) fail).readFull (List.replicate v.toNat 0) =
      (body, ⟨rest, fail⟩, none) := readFull_ok rfl (by simp [hb])
  simp only [Message.readFrame, h1, h2, getBE_putUint32, if_neg hmax, h3]

/-- A stream that does not hold a whole frame, or announces too long a one, is an error. -/
theorem readFrame_short {maxLen : ℤ} {d : Bytes} (hd : ∀ body, ¬ BodyRead maxLen d body)
    (m : Message)
    (fail : Error) : ∃ m' r' e, m.readFrame maxLen ⟨d, fail⟩ = (m', r', .error e) := by
  by_cases h12 : d.length < 12
  · obtain ⟨_, _, e, he⟩ := readFull_short ⟨d, fail⟩ m.header.bytes
      (by rw [m.header.length_bytes]; exact h12)
    simp only [Message.readFrame, he]
    exact ⟨_, _, _, rfl⟩
  have h1 : (Reader.mk d fail).readFull m.header.bytes = (d.take 12, ⟨d.drop 12, fail⟩, none) :=
    readFull_ok (List.take_append_drop 12 d).symm
      (by rw [m.header.length_bytes, List.length_take]; omega)
  by_cases h4 : (d.drop 12).length < 4
  · obtain ⟨_, _, e, he⟩ := readFull_short ⟨d.drop 12, fail⟩ (List.replicate 4 0)
      (by simpa using h4)
    simp only [Message.readFrame, h1, he]
    exact ⟨_, _, _, rfl⟩
  obtain ⟨v, x, hx⟩ := exists_putUint32 (not_lt.mp h4)
  have h2 : (Reader.mk (d.drop 12) fail).readFull (List.replicate 4 0) =
      (putUint32 v, ⟨x, fail⟩, none) := readFull_ok hx (by simp)
  by_cases hmax : maxLen > 0 ∧ (v.toNat : ℤ) > maxLen
  · simp only [Message.readFrame, h1, h2, getBE_putUint32, if_pos hmax]
    exact ⟨_, _, _, rfl⟩
  have hshort : x.length < v.toNat := by
    by_contra hle
    refine hd (x.take v.toNat) ⟨⟨d.take 12, by simp; omega⟩, v, x.drop v.toNat, ?_, ?_, hmax⟩
    · rw [List.take_append_drop, ← hx, List.take_append_drop]
    · simp; omega
  obtain ⟨_, _, e, he⟩ := readFull_short ⟨x, fail⟩ (List.replicate v.toNat 0)
    (by simpa using hshort)
  simp only [Message.readFrame, h1, h2, getBE_putUint32, if_neg hmax, he]
  exact ⟨_, _, _, rfl⟩

end Frpc.Protocol.Wire
