import Frpc.Protocol.Malformed
import Frpc.Protocol.Streams

/-! # What `Decode` accepts

`Encode` writes a magic number, the length of the body and four sections that fill it
(`WellFormed`). `Decode` returns without an error on more than that: it does not call
`CheckMagicNumber`, and it reads the length of the payload without using it, so that the payload is
whatever follows in the body (`decode_accepts`). A frame that it accepts is well formed exactly when
these two fields are right, and the message it returns encodes to the same frame, up to the order
and the repetition of metadata keys, exactly when the length of the payload is. -/

namespace Frpc.Protocol.Accepted

open Frpc.Basic Frpc.Lib.BigEndian Frpc.Lib.Slices Frpc.Protocol.Headers Frpc.Protocol.Messages
open Frpc.Protocol.Wire Frpc.Protocol.Metadata Frpc.Protocol.RoundTrip Frpc.Protocol.Malformed
open Frpc.Protocol.Streams

/-- A body whose four sections have the lengths in front of them, the third one made of records. -/
def sections (p q : Bytes) (kvs : List (Bytes × Bytes)) (y : Bytes) : Bytes :=
  lenPrefixed p ++ (lenPrefixed q ++ (lenPrefixed (encodeRecords kvs) ++ lenPrefixed y))

/-- A header, the length of a body, and the body. -/
def framed (h : Header) (body : Bytes) : Bytes :=
  h.bytes ++ (putUint32 (.ofNat body.length) ++ body)

/-- A frame of the format that `Encode` writes. -/
def WellFormed (f : Bytes) : Prop :=
  ∃ h p q kvs y, h.checkMagicNumber = true ∧ (sections p q kvs y).length < 2 ^ 32 ∧
    f = framed h (sections p q kvs y)

/-- `f` is the frame of `m`, up to the order and the repetition of metadata keys. -/
def EncodesTo (m : Message) (f : Bytes) : Prop :=
  ∃ kvs, foldRecords kvs ∅ = m.meta0 ∧
    f = framed m.header (sections m.servicePath m.serviceMethod kvs m.payload)

theorem encodesTo_encode {m : Message} {order : MetaOrder} (ho : order.toFinmap = m.meta0)
    {f : Bytes} (hf : m.encode order = .ok f) : EncodesTo m f := by
  rw [encode_eq, Except.ok.injEq] at hf
  refine ⟨order.entries.map fun e => (e.1, e.2), by rw [foldRecords_entries, ho], ?_⟩
  rw [← hf, frame, bodyOf, encodeMetadata_eq]
  rfl

theorem wellFormed_encode {m : Message} {order : MetaOrder} (ho : order.toFinmap = m.meta0)
    {f : Bytes}
    (hf : m.encode order = .ok f) (hm : m.header.checkMagicNumber = true) (hl : f.length < 2 ^ 32) :
    WellFormed f := by
  obtain ⟨kvs, -, rfl⟩ := encodesTo_encode ho hf
  refine ⟨_, _, _, _, _, hm, ?_, rfl⟩
  rw [framed, List.length_append, List.length_append] at hl
  omega

/-! ### The fields of a frame, read from its bytes -/

/-- The first frame of a stream, by the length behind the header. -/
def firstFrame (d : Bytes) : Bytes := d.take (16 + getBE ((d.drop 12).take 4))

/-- What follows a section. -/
def skipSection (b : Bytes) : Bytes := b.drop (4 + getBE (b.take 4))

/-- The payload of a frame, with the length in front of it: what follows the third section. -/
def payloadSection (f : Bytes) : Bytes := skipSection (skipSection (skipSection (f.drop 16)))

/-- The length in front of the payload is the number of bytes that follow it. -/
def PayloadFits (f : Bytes) : Prop :=
  (payloadSection f).length = 4 + getBE ((payloadSection f).take 4)

instance (f : Bytes) : Decidable (PayloadFits f) := inferInstanceAs (Decidable (_ = _))

theorem skipSection_lenPrefixed {b : Bytes} (hb : b.length < 2 ^ 32) (r : Bytes) :
    skipSection (lenPrefixed b ++ r) = r := by
  unfold skipSection
  rw [show (lenPrefixed b ++ r).take 4 = putUint32 (.ofNat b.length) by
      rw [lenPrefixed, List.append_assoc, List.take_left' (length_putUint32 _)],
    getBE_putUint32, toNat_ofNat_length hb]
  exact List.drop_left' (length_lenPrefixed b)

theorem firstFrame_append {h : Header} {v : UInt32} {body : Bytes} (hv : body.length = v.toNat)
    (rest : Bytes) :
    firstFrame (h.bytes ++ (putUint32 v ++ (body ++ rest))) = h.bytes ++ (putUint32 v ++ body) := by
  have hd : h.bytes ++ (putUint32 v ++ (body ++ rest)) = (h.bytes ++ (putUint32 v ++ body)) ++
      rest := by
    simp only [List.append_assoc]
  unfold firstFrame
  rw [List.drop_left' h.length_bytes, List.take_left' (length_putUint32 v), getBE_putUint32, hd]
  refine List.take_left' ?_
  simp only [List.length_append, h.length_bytes, length_putUint32]
  omega

theorem payloadSection_eq {h : Header} {v : UInt32} {body p q s t : Bytes}
    (hbody : body = lenPrefixed p ++ (lenPrefixed q ++ (lenPrefixed s ++ t)))
    (hb : body.length < 2 ^ 32) : payloadSection (h.bytes ++ (putUint32 v ++ body)) = t := by
  have hlen := congrArg List.length hbody
  simp only [List.length_append, length_lenPrefixed] at hlen
  have hdrop : (h.bytes ++ (putUint32 v ++ body)).drop 16 = body := by
    rw [← List.append_assoc]
    exact List.drop_left' (by rw [List.length_append, h.length_bytes, length_putUint32])
  rw [payloadSection, hdrop, hbody, skipSection_lenPrefixed (by omega),
    skipSection_lenPrefixed (by omega), skipSection_lenPrefixed (by omega)]

theorem head?_eq_magicNumber (h : Header) (x : Bytes) :
    (h.bytes ++ x).head? = some magicNumber ↔ h.checkMagicNumber = true := by
  obtain ⟨_ | ⟨b, bs⟩, hl⟩ := h
  · simp at hl
  · simp [Header.checkMagicNumber, Header.get]

theorem payloadFits_framed {h : Header} {p q y : Bytes} {kvs : List (Bytes × Bytes)}
    (hlt : (sections p q kvs y).length < 2 ^ 32) : PayloadFits (framed h (sections p q kvs y)) := by
  have hy : y.length < 2 ^ 32 := by
    simp only [sections, List.length_append, length_lenPrefixed] at hlt
    omega
  have hpay : payloadSection (framed h (sections p q kvs y)) = lenPrefixed y :=
    payloadSection_eq rfl hlt
  rw [PayloadFits, hpay, length_lenPrefixed, lenPrefixed, List.take_left' (length_putUint32 _),
    getBE_putUint32, toNat_ofNat_length hy]

theorem WellFormed.head? {f : Bytes} (hf : WellFormed f) : f.head? = some magicNumber := by
  obtain ⟨h, p, q, kvs, y, hm, -, rfl⟩ := hf
  exact (head?_eq_magicNumber h _).mpr hm

theorem WellFormed.payloadFits {f : Bytes} (hf : WellFormed f) : PayloadFits f := by
  obtain ⟨h, p, q, kvs, y, -, hlt, rfl⟩ := hf
  exact payloadFits_framed hlt

theorem EncodesTo.payloadFits {m : Message} {f : Bytes} (hf : EncodesTo m f)
    (hl : f.length < 16 + 2 ^ 32) : PayloadFits f := by
  obtain ⟨kvs, -, rfl⟩ := hf
  simp only [framed, List.length_append, m.header.length_bytes, length_putUint32] at hl
  exact payloadFits_framed (by omega)

/-! ### Accepted frames -/

/-- **What an accepted frame looks like**: a header, the length of the body, three sections, the
third one made of records, a word `w`, and the payload up to the end of the body. Neither the first
byte of the header nor `w` is checked. -/
theorem decode_accepts {msg m : Message} {maxLen : ℤ} {d : Bytes} {fail : Error} {r : Reader}
    (h : msg.decode maxLen ⟨d, fail⟩ = .ok (m, r, none)) :
    ∃ body v w kvs,
      d = m.header.bytes ++ (putUint32 v ++ (body ++ r.data)) ∧ body.length = v.toNat ∧
      body = lenPrefixed m.servicePath ++ (lenPrefixed m.serviceMethod ++
        (lenPrefixed (encodeRecords kvs) ++ (putUint32 w ++ m.payload))) ∧
      m.metadata = (recordsMap kvs).or msg.metadata := by
  obtain ⟨body, hbody⟩ := bodyRead_of_decode h
  have hr : Readable body := (decode_iff_readable msg maxLen d fail).mp ⟨_, h⟩ body hbody
  obtain ⟨hd, v, rest, rfl, hv, hmax⟩ := hbody
  have hb : body.length < 2 ^ 32 := by rw [hv]; exact v.toNat_lt
  rw [Message.decode, readFrame_ok rfl hv hmax] at h
  dsimp only at h
  obtain ⟨p, q, s, t, hsec, ⟨kvs, rfl, ht⟩ | ⟨kvs, x, hx, hlt, hrej⟩⟩ := hr
  · obtain ⟨w, y, rfl⟩ := exists_putUint32 ht
    rw [parseBody_records hsec hb, ok_bind] at h
    cases h
    exact ⟨body, v, w, kvs, rfl, hv, hsec, rfl⟩
  · obtain ⟨m', hm'⟩ := parseBody_rejected hsec hb hx hlt hrej { msg with header := hd }
    rw [hm', ok_bind] at h
    cases h

theorem meta0_recordsMap {m : Message} {kvs : List (Bytes × Bytes)}
    (h : m.metadata = recordsMap kvs) :
    foldRecords kvs ∅ = m.meta0 := by
  rw [Message.meta0, h, recordsMap]
  split_ifs with h0
  · rw [h0]
    rfl
  · rfl

/-- Where the length in front of the payload fits, the payload is a section like the others. -/
theorem framed_of_payloadFits {h : Header} {v w : UInt32} {body p q y : Bytes}
    {kvs : List (Bytes × Bytes)} (hv : body.length = v.toNat)
    (hbody : body = lenPrefixed p ++ (lenPrefixed q ++ (lenPrefixed (encodeRecords kvs) ++
      (putUint32 w ++ y)))) (hfits : PayloadFits (h.bytes ++ (putUint32 v ++ body))) :
    (sections p q kvs y).length < 2 ^ 32 ∧
      h.bytes ++ (putUint32 v ++ body) = framed h (sections p q kvs y) := by
  have hlt : body.length < 2 ^ 32 := by rw [hv]; exact v.toNat_lt
  rw [PayloadFits, payloadSection_eq hbody hlt, List.take_left' (length_putUint32 w),
    getBE_putUint32, List.length_append, length_putUint32] at hfits
  have hbody' : body = sections p q kvs y := by
    rw [hbody, sections, lenPrefixed, lenPrefixed, lenPrefixed, lenPrefixed,
      show y.length = w.toNat by omega, UInt32.ofNat_toNat]
  refine ⟨by rwa [← hbody'], ?_⟩
  rw [framed, ← hbody', hv, UInt32.ofNat_toNat]

/-- **What `Decode` leaves unchecked.** On every stream on which `Decode` returns no error it has
consumed the first frame of the stream. That frame is in the format of `Encode` exactly when its
first byte is the magic number and the length in front of the payload fits. The message decoded into
one without metadata encodes to that frame exactly when the length in front of the payload fits. -/
theorem decode_wellFormed_iff {msg m : Message} {maxLen : ℤ} {d : Bytes} {fail : Error} {r : Reader}
    (h : msg.decode maxLen ⟨d, fail⟩ = .ok (m, r, none)) :
    d = firstFrame d ++ r.data ∧
      (WellFormed (firstFrame d) ↔ d.head? = some magicNumber ∧ PayloadFits (firstFrame d)) ∧
      (msg.metadata = none → (EncodesTo m (firstFrame d) ↔ PayloadFits (firstFrame d))) := by
  obtain ⟨body, v, w, kvs, rfl, hv, hbody, hmeta⟩ := decode_accepts h
  rw [firstFrame_append hv]
  refine ⟨by
    simp only [List.append_assoc], ⟨fun hf => ⟨?_, hf.payloadFits⟩, ?_⟩, fun hnone => ⟨?_, ?_⟩⟩
  · exact (head?_eq_magicNumber m.header _).mpr ((head?_eq_magicNumber m.header _).mp hf.head?)
  · rintro ⟨hm, hfits⟩
    obtain ⟨hlt, heq⟩ := framed_of_payloadFits hv hbody hfits
    exact ⟨m.header, _, _, kvs, _, (head?_eq_magicNumber m.header _).mp hm, hlt, heq⟩
  · refine fun hf => hf.payloadFits ?_
    have hlt := v.toNat_lt
    simp only [List.length_append, m.header.length_bytes, length_putUint32]
    omega
  · intro hfits
    rw [hnone, Option.or_none] at hmeta
    exact ⟨kvs, meta0_recordsMap hmeta, (framed_of_payloadFits hv hbody hfits).2⟩

/-- The frame of a message with a path, a method, metadata and a payload, and two bytes of the next
one. -/
def fullFrame : Bytes :=
  frame ⟨.clean magicNumber, [65], [77], some (Finmap.singleton [107] [118]), [1, 2]⟩
    (AList.singleton [107] [118]) ++ [8, 0]

theorem decode_wellFormed_full :
    ∃ m, newMessage.decode 0 ⟨fullFrame, .eof⟩ = .ok (m, ⟨[8, 0], .eof⟩, none) ∧
      m.payload = [1, 2] ∧ fullFrame.head? = some magicNumber ∧ PayloadFits (firstFrame fullFrame) ∧
      WellFormed (firstFrame fullFrame) ∧ EncodesTo m (firstFrame fullFrame) := by
  obtain ⟨m, hdecode, hpayload⟩ : ∃ m, newMessage.decode 0 ⟨fullFrame, .eof⟩ =
      .ok (m, ⟨[8, 0], .eof⟩, none) ∧ m.payload = [1, 2] := ⟨_, rfl, rfl⟩
  obtain ⟨-, hformed, hencodes⟩ := decode_wellFormed_iff hdecode
  have hfits : PayloadFits (firstFrame fullFrame) := by decide
  exact ⟨m, hdecode, hpayload, rfl, hfits, hformed.mpr ⟨rfl, hfits⟩, (hencodes rfl).mpr hfits⟩

/-- Two frames that `Decode` accepts: one starts with a 9, and one announces a payload of five bytes
and ends there. Neither is well formed, and the second is not what its message encodes to. -/
theorem decode_accepts_malformed :
    (newMessage.decode 0 ⟨(Header.clean 9).bytes ++ [0, 0, 0, 16] ++ List.replicate 16 0, .eof⟩ =
        .ok (pooled 9, ⟨[], .eof⟩, none) ∧
      ¬ WellFormed ((Header.clean 9).bytes ++ [0, 0, 0, 16] ++ List.replicate 16 0)) ∧
    (newMessage.decode 0
      ⟨(Header.clean 8).bytes ++ [0, 0, 0, 16] ++ List.replicate 15 0 ++ [5], .eof⟩ =
        .ok (newMessage, ⟨[], .eof⟩, none) ∧
      ¬ WellFormed ((Header.clean 8).bytes ++ [0, 0, 0, 16] ++ List.replicate 15 0 ++ [5]) ∧
      ¬ EncodesTo newMessage
        ((Header.clean 8).bytes ++ [0, 0, 0, 16] ++ List.replicate 15 0 ++ [5])) := by
  refine ⟨⟨rfl, fun hf => ?_⟩, rfl, fun hf => ?_, fun hf => ?_⟩
  · exact absurd hf.head? (by decide)
  · exact absurd hf.payloadFits (by decide)
  · exact absurd (hf.payloadFits (by decide)) (by decide)

end Frpc.Protocol.Accepted
