import Frpc.Protocol.Metadata

/-! # Frames round-trip

`Decode` on the frame of a message gives the message back, `nil` metadata for empty ones (`norm`),
and leaves what follows the frame unread (`decode_frame`); an empty metadata section keeps the
metadata the message had before. On a proper prefix of a frame `Decode` returns an error. -/

namespace Frpc.Protocol.RoundTrip

open Frpc.Basic Frpc.Lib.BigEndian Frpc.Lib.Slices Frpc.Protocol.Headers Frpc.Protocol.Messages
open Frpc.Protocol.Wire Frpc.Protocol.Metadata

/-- The message as a fresh `Decode` returns it: empty metadata are `nil`. -/
def norm (m : Message) : Message :=
  { m with metadata := if m.meta0 = ∅ then none else some m.meta0 }

theorem norm_meta0 (m : Message) : (norm m).meta0 = m.meta0 := by
  show (if m.meta0 = ∅ then none else some m.meta0).getD ∅ = m.meta0
  split_ifs with h
  · exact h.symm
  · rfl

/-! ### The metadata section -/

theorem metaAt_nil {s : Slice UInt8} {a r : Bytes} {n : ℕ}
    (hs : s.back = a ++ (lenPrefixed [] ++ r))
    (ha : a.length = n) (old : Option Metadata) : metaAt s n old = .ok (old, none, n + 4) := by
  have hw : s.back = a ++ (putUint32 0 ++ r) := by rw [hs, lenPrefixed, List.append_nil]; rfl
  unfold metaAt
  rw [← bind_assoc, uint32_slice hw ha rfl, ok_bind]
  simp only [gt_iff_lt, UInt32.lt_irrefl, if_false]
  rfl

/-- A non-empty section is handed to `decodeMetadata`, with the rest of the body in its capacity. -/
theorem metaAt_eq {s : Slice UInt8} {a b r : Bytes} {n : ℕ}
    (hs : s.back = a ++ (lenPrefixed b ++ r))
    (ha : a.length = n) (hb : b.length < 2 ^ 32) (hb0 : b ≠ []) (old : Option Metadata) :
    metaAt s n old = do
      let (m, err) ← decodeMetadata (.ofNat b.length) ⟨b ++ r, b.length, by simp⟩
      return (some m, err, n + (4 + b.length)) := by
  have hw : s.back = a ++ (putUint32 (.ofNat b.length) ++ (b ++ r)) := by
    rw [hs, lenPrefixed, List.append_assoc]
  have hc : s.back = (a ++ putUint32 (.ofNat b.length)) ++ (b ++ r) := by
    rw [hw, List.append_assoc]
  have hpos : UInt32.ofNat b.length > 0 := by
    rw [gt_iff_lt, UInt32.lt_iff_toNat_lt, toNat_ofNat_length hb]
    exact List.length_pos_of_ne_nil hb0
  unfold metaAt
  rw [← bind_assoc, uint32_slice hw ha rfl, ok_bind]
  dsimp only
  rw [if_pos hpos, Slice.slice_append hc (by simp [ha]) (by rw [toNat_ofNat_length hb]), ok_bind]
  simp only [toNat_ofNat_length hb, Nat.add_assoc]

/-- What the records of a metadata section make of a message's metadata. -/
def recordsMap (kvs : List (Bytes × Bytes)) : Option Metadata :=
  if kvs = [] then none else some (foldRecords kvs ∅)

theorem encodeRecords_eq_nil {kvs : List (Bytes × Bytes)} : encodeRecords kvs = [] ↔ kvs = [] := by
  constructor
  · intro h
    cases kvs with
    | nil => rfl
    | cons e es =>
      have hlen := congrArg List.length h
      rw [encodeRecords_cons, List.length_append, length_encodeEntry, List.length_nil] at hlen
      omega
  · rintro rfl
    rfl

/-- **A metadata section of records** gives the map of its records; an empty one keeps the old
metadata. -/
theorem metaAt_records {s : Slice UInt8} {a r : Bytes} {n : ℕ} {kvs : List (Bytes × Bytes)}
    (hs : s.back = a ++ (lenPrefixed (encodeRecords kvs) ++ r)) (ha : a.length = n)
    (hcap : s.back.length < 2 ^ 32) (old : Option Metadata) :
    metaAt s n old = .ok ((recordsMap kvs).or old, none, n + (4 + (encodeRecords kvs).length)) := by
  have hlen := congrArg List.length hs
  rw [List.length_append, List.length_append, length_lenPrefixed] at hlen
  by_cases h0 : kvs = []
  · subst h0
    exact metaAt_nil hs ha old
  · have hb0 : encodeRecords kvs ≠ [] := fun he => h0 (encodeRecords_eq_nil.mp he)
    rw [metaAt_eq hs ha (by omega) hb0, recordsMap, if_neg h0,
      decodeMetadata_accept kvs (r := r) (by simp only [List.length_append]; omega) rfl
        (by rw [toNat_ofNat_length (by omega)]), ok_bind]
    rfl

/-- The records that `encodeMetadata` writes give the map back, in whatever order they were
written. -/
theorem recordsMap_entries (order : MetaOrder) :
    recordsMap (order.entries.map fun e => (e.1, e.2)) =
      if order.toFinmap = ∅ then none else some order.toFinmap := by
  rw [recordsMap, foldRecords_entries]
  refine if_congr (List.map_eq_nil_iff.trans ?_) rfl rfl
  constructor
  · intro h
    rw [show order = ∅ from AList.ext h]
    rfl
  · intro h
    have hperm : order.entries.Perm (∅ : MetaOrder).entries := AList.toFinmap_eq.mp h
    exact hperm.eq_nil

/-! ### The whole frame -/

/-- **The second half of `Decode`** on three sections, the third one made of records, and the bytes
behind the length of the payload: that length is read and not used. -/
theorem parseBody_records {body p q y : Bytes} {kvs : List (Bytes × Bytes)} {w : UInt32}
    (hbody : body = lenPrefixed p ++ (lenPrefixed q ++ (lenPrefixed (encodeRecords kvs) ++
      (putUint32 w ++ y)))) (hb : body.length < 2 ^ 32) (msg : Message) :
    msg.parseBody (.ofList body) =
      .ok (⟨msg.header, p, q, (recordsMap kvs).or msg.metadata, y⟩, none) := by
  have hlen := congrArg List.length hbody
  simp only [List.length_append, length_lenPrefixed, length_putUint32] at hlen
  have h3 : body = (lenPrefixed p ++ lenPrefixed q) ++ (lenPrefixed (encodeRecords kvs) ++
      (putUint32 w ++ y)) := by
    rw [hbody, List.append_assoc]
  have h4 : body = (lenPrefixed p ++ lenPrefixed q ++ lenPrefixed (encodeRecords kvs)) ++
      (putUint32 w ++ y) := by
    rw [h3, List.append_assoc (lenPrefixed p ++ lenPrefixed q)]
  have h5 : body =
      (lenPrefixed p ++ lenPrefixed q ++ lenPrefixed (encodeRecords kvs) ++ putUint32 w) ++
      (y ++ []) := by
    rw [h4, List.append_nil, List.append_assoc _ (putUint32 _)]
  unfold Message.parseBody
  rw [sectionAt_ok (s := .ofList body) (a := []) (n := 0) hbody rfl (by omega), ok_bind]
  dsimp only
  rw [sectionAt_ok (s := .ofList body) hbody (by simp) (by omega), ok_bind]
  dsimp only
  rw [metaAt_records (s := .ofList body) h3 (by simp) hb, ok_bind]
  dsimp only
  rw [← bind_assoc, uint32_slice (s := .ofList body) h4 (by simp [Nat.add_assoc]) rfl, ok_bind,
    Slice.slice_append (s := .ofList body) h5 (by simp [Nat.add_assoc])
      (by show body.length = _; omega),
    ok_bind]
  simp only [Slice.toList, List.append_nil, List.take_length]
  rfl

theorem parseBody_bodyOf {m : Message} {order : MetaOrder} (ho : order.toFinmap = m.meta0)
    (hb : (bodyOf m order).length < 2 ^ 32) (msg : Message) :
    msg.parseBody (.ofList (bodyOf m order)) =
      .ok ({ norm m with header := msg.header, metadata := (norm m).metadata.or msg.metadata },
        none) := by
  rw [parseBody_records (by rw [bodyOf, encodeMetadata_eq]; rfl) hb, recordsMap_entries, ho]
  rfl

/-- **`Decode` on a frame.** The message is overwritten with what was encoded; only metadata that
the frame does not have keep their old value. What follows the frame stays in the reader. -/
theorem decode_frame {maxLen : ℤ} {m : Message} {order : MetaOrder} (ho : order.toFinmap = m.meta0)
    (hb : (bodyOf m order).length < 2 ^ 32)
    (hmax : ¬ (maxLen > 0 ∧ ((bodyOf m order).length : ℤ) > maxLen)) (msg : Message) (rest : Bytes)
    (fail : Error) :
    msg.decode maxLen ⟨frame m order ++ rest, fail⟩ =
      .ok ({ norm m with metadata := (norm m).metadata.or msg.metadata }, ⟨rest, fail⟩, none) := by
  have hv := toNat_ofNat_length hb
  have hd : frame m order ++ rest = m.header.bytes ++
      (putUint32 (.ofNat (bodyOf m order).length) ++ (bodyOf m order ++ rest)) := by
    rw [frame]
    simp only [List.append_assoc]
  unfold Message.decode
  rw [readFrame_ok hd hv.symm (by rw [hv]; exact hmax)]
  dsimp only
  rw [parseBody_bodyOf ho hb, ok_bind]
  rfl

/-! ### Decoding into a used message -/

/-- An empty metadata section is the only place where the old metadata show. -/
theorem metaAt_or (data : Slice UInt8) (n : ℕ) (old : Option Metadata) :
    metaAt data n old = (metaAt data n none).map fun x => (x.1.or old, x.2) := by
  unfold metaAt
  rw [← bind_assoc, ← bind_assoc]
  cases data.slice n (n + 4) >>= uint32 with
  | error f => rfl
  | ok l =>
    rw [ok_bind, ok_bind]
    dsimp only
    split_ifs
    · rw [← bind_assoc]
      cases data.slice (n + 4) (n + 4 + l.toNat) >>= decodeMetadata l with
      | error f => rfl
      | ok x => rfl
    · rfl

/-- What the second half of `Decode` makes of a body does not depend on the message it is written
to, except for metadata and payload that the body does not give. -/
theorem parseBody_eq (msg : Message) (data : Slice UInt8) :
    msg.parseBody data = (newMessage.parseBody data).map fun x =>
      (⟨msg.header, x.1.servicePath, x.1.serviceMethod, x.1.metadata.or msg.metadata,
        if x.2 = none then x.1.payload else msg.payload⟩, x.2) := by
  unfold Message.parseBody
  rw [show newMessage.metadata = none from rfl]
  cases sectionAt data 0 with
  | error f => rfl
  | ok x =>
    simp only [ok_bind]
    cases sectionAt data x.2 with
    | error f => rfl
    | ok y =>
      simp only [ok_bind]
      rw [metaAt_or]
      cases metaAt data y.2 none with
      | error f => rfl
      | ok z =>
        obtain ⟨md, _ | err, n⟩ := z
        · simp only [Except.map, ok_bind]
          cases data.slice n (n + 4) with
          | error f => rfl
          | ok c =>
            simp only [ok_bind]
            cases uint32 c with
            | error f => rfl
            | ok w => cases data.slice (n + 4) data.len <;> rfl
        · rfl

/-- **Decoding into a used message**: `Decode` returns a message exactly when it would return one
into a new message, and both are the same, except that metadata which the frame does not have keep
their old value. -/
theorem decode_reuse {msg m : Message} {maxLen : ℤ} {r r' : Reader} :
    msg.decode maxLen r = .ok (m, r', none) ↔
      ∃ m₀, newMessage.decode maxLen r = .ok (m₀, r', none) ∧
        m = { m₀ with metadata := m₀.metadata.or msg.metadata } := by
  obtain ⟨d, fail⟩ := r
  by_cases hbody : ∃ body, BodyRead maxLen d body
  · obtain ⟨body, hd, v, rest, hd', hv, hmax⟩ := hbody
    simp only [Message.decode, readFrame_ok hd' hv hmax]
    rw [parseBody_eq { msg with header := hd }, parseBody_eq { newMessage with header := hd }]
    cases hp : newMessage.parseBody (.ofList body) with
    | error f => simp [Except.map]
    | ok x =>
      obtain ⟨m₀, err⟩ := x
      cases err with
      | none =>
        simp only [Except.map, ok_bind, newMessage, pooled, Option.or_none]
        constructor
        · rintro ⟨⟩
          exact ⟨_, rfl, rfl⟩
        · rintro ⟨_, ⟨⟩, rfl⟩
          rfl
      | some e =>
        simp only [Except.map, ok_bind]
        constructor
        · rintro ⟨⟩
        · rintro ⟨_, ⟨⟩, -⟩
  · have hshort := fun msg => readFrame_short (fun body hb => hbody ⟨body, hb⟩) msg fail
    obtain ⟨_, _, e, he⟩ := hshort msg
    obtain ⟨_, _, e', he'⟩ := hshort newMessage
    simp [Message.decode, he, he']

/-- A stream that starts with a frame starts with its header, the length of its body and its
body. -/
theorem frame_inj {m : Message} {order : MetaOrder} {h : Header} {v : UInt32} {x y : Bytes}
    (hb : (bodyOf m order).length < 2 ^ 32)
    (heq : h.bytes ++ (putUint32 v ++ x) = frame m order ++ y) :
    h = m.header ∧ v = .ofNat (bodyOf m order).length ∧ v.toNat = (bodyOf m order).length ∧
      x = bodyOf m order ++ y := by
  rw [frame, List.append_assoc, List.append_assoc] at heq
  obtain ⟨hh, heq⟩ := List.append_inj heq (by rw [h.length_bytes, m.header.length_bytes])
  obtain ⟨hv, hx⟩ := List.append_inj heq (by simp)
  have hv' := congrArg getBE hv
  rw [getBE_putUint32, getBE_putUint32] at hv'
  exact ⟨Header.ext hh, UInt32.toNat_inj.mp hv', hv'.trans (toNat_ofNat_length hb), hx⟩

theorem not_bodyRead_of_append {maxLen : ℤ} {m : Message} {order : MetaOrder} {p : Bytes}
    (hb : (bodyOf m order).length < 2 ^ 32) (hp : p <+: frame m order) (hne : p ≠ frame m order)
    (body : Bytes) : ¬ BodyRead maxLen p body := by
  rintro ⟨h, v, rest, rfl, hlen, -⟩
  obtain ⟨q, hq⟩ := hp
  rw [← List.append_nil (frame m order), List.append_assoc, List.append_assoc] at hq
  obtain ⟨rfl, rfl, hv, hx⟩ := frame_inj hb hq
  have hl := congrArg List.length hx
  simp only [List.length_append, List.length_nil] at hl
  have hrest : rest = [] := List.eq_nil_of_length_eq_zero (by omega)
  have hq0 : q = [] := List.eq_nil_of_length_eq_zero (by omega)
  simp only [hrest, hq0, List.append_nil] at hx
  rw [hrest, List.append_nil, hx] at hne
  exact hne rfl

/-- **Frame round trip.** Let the encoded body be shorter than `2 ^ 32` bytes and within
`MaxMessageLength`. For every order in which `encodeMetadata` visits the map, `Decode` on a new or
reset message reads `Encode m` back, with the same metadata as a map, and leaves exactly what
follows unread; on every proper prefix of `Encode m` it returns an error. -/
theorem decode_encode (maxLen : ℤ) (m : Message) (order : MetaOrder) (ho : order.toFinmap = m.meta0)
    (hb : (bodyOf m order).length < 2 ^ 32)
    (hmax : maxLen > 0 → ((bodyOf m order).length : ℤ) ≤ maxLen) (msg : Message)
    (hmsg : msg = newMessage ∨ ∃ m0 : Message, msg = m0.reset) :
    ∃ data, m.encode order = .ok data ∧ data.length = 16 + (bodyOf m order).length ∧
      (∀ rest fail, ∃ m', msg.decode maxLen ⟨data ++ rest, fail⟩ = .ok (m', ⟨rest, fail⟩, none) ∧
        m'.header = m.header ∧ m'.servicePath = m.servicePath ∧ m'.serviceMethod = m.serviceMethod ∧
        m'.payload = m.payload ∧ m'.meta0 = m.meta0) ∧
      ∀ p fail, p <+: data → p ≠ data →
        ∃ m' r' e, msg.decode maxLen ⟨p, fail⟩ = .ok (m', r', some e) := by
  have hnone : msg.metadata = none := by
    rcases hmsg with rfl | ⟨m0, rfl⟩ <;> rfl
  refine ⟨frame m order, encode_eq m order, length_frame m order, fun rest fail => ?_,
    fun p fail hp hne => ?_⟩
  · refine ⟨_, decode_frame ho hb (by omega) msg rest fail, rfl, rfl, rfl, rfl, ?_⟩
    rw [hnone, Option.or_none]
    exact norm_meta0 m
  · obtain ⟨m', r', e, he⟩ : ∃ m' r' e, msg.readFrame maxLen ⟨p, fail⟩ = (m', r', .error e) :=
      readFrame_short (not_bodyRead_of_append hb hp hne) msg fail
    exact ⟨m', r', e, by rw [Message.decode, he]⟩

/-- The round trip of a call with one metadata entry. -/
theorem decode_encode_call :
    ∃ data, Message.encode
      ⟨.clean magicNumber, [65], [77], some (Finmap.singleton [107] [118]), [1, 2]⟩
        (AList.singleton [107] [118]) = .ok data ∧ data.length = 16 + 30 ∧
      (∀ rest fail, ∃ m', newMessage.decode 0 ⟨data ++ rest, fail⟩ = .ok (m', ⟨rest, fail⟩, none) ∧
        m'.header = .clean magicNumber ∧ m'.servicePath = [65] ∧ m'.serviceMethod = [77] ∧
        m'.payload = [1, 2] ∧ m'.meta0 = Finmap.singleton [107] [118]) ∧
      ∀ p fail, p <+: data → p ≠ data →
        ∃ m' r' e, newMessage.decode 0 ⟨p, fail⟩ = .ok (m', r', some e) :=
  decode_encode 0 ⟨.clean magicNumber, [65], [77], some (Finmap.singleton [107] [118]), [1, 2]⟩
    (AList.singleton [107] [118]) rfl (by decide) (by decide) newMessage (Or.inl rfl)

end Frpc.Protocol.RoundTrip
