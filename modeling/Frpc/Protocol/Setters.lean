import Frpc.Protocol.Headers
import Frpc.Lib.Writes

/-! # Sequences of header setters

The eight setters of a header as the setters of one record, and what a sequence of calls of them
leaves for the getters. A field other than the sequence number is a group of bits of one byte
(`Field.byte`, `Field.mask`), and the groups do not meet (`apart`), so no setter disturbs another's
field (`get_set_other`). In its own field a setter of the message type, the compression, the status
or the serialize type only adds bits: the getter then gives the old value or-ed with the new one,
which is the new one exactly if the field held no other bits (`Covers`). -/

namespace Frpc.Protocol.Setters

open Frpc.Basic Frpc.Protocol.Headers Frpc.Lib.Writes

/-- The fields of a header that have a setter. -/
inductive Field
  | version
  | messageType
  | heartbeat
  | oneway
  | compressType
  | messageStatusType
  | serializeType
  | seq
deriving DecidableEq

namespace Field

/-- The type of a field's values. -/
abbrev Val : Field → Type
  | version | messageType | compressType | messageStatusType | serializeType => UInt8
  | heartbeat | oneway => Bool
  | seq => UInt64

/-- The byte a field is in; the sequence number is in none of the first four. -/
def byte : Field → ℕ
  | version => 1
  | messageType | heartbeat | oneway | compressType | messageStatusType => 2
  | serializeType => 3
  | seq => 4

/-- The bits of that byte that are the field's. -/
def mask : Field → UInt8
  | version => 0xFF
  | messageType => 0x80
  | heartbeat => 0x40
  | oneway => 0x20
  | compressType => 0x1C
  | messageStatusType => 0x03
  | serializeType => 0xF0
  | seq => 0xFF

theorem apart {f g : Field} (hfg : f ≠ g) : f.byte ≠ g.byte ∨ f.mask &&& g.mask = 0 := by
  cases f <;> cases g <;> first | exact absurd rfl hfg | decide

end Field

/-- `Version`, `MessageType`, `IsHeartbeat`, `IsOneway`, `CompressType`, `MessageStatusType`,
`SerializeType` and `Seq`. -/
def get : (f : Field) → Header → f.Val
  | .version, h => h.version
  | .messageType, h => h.messageType
  | .heartbeat, h => h.isHeartbeat
  | .oneway, h => h.isOneway
  | .compressType, h => h.compressType
  | .messageStatusType, h => h.messageStatusType
  | .serializeType, h => h.serializeType
  | .seq, h => h.seq

/-- `SetVersion`, `SetMessageType`, `SetHeartbeat`, `SetOneway`, `SetCompressType`,
`SetMessageStatusType`, `SetSerializeType` and `SetSeq`. -/
def set : (f : Field) → f.Val → Header → Header
  | .version, v, h => h.setVersion v
  | .messageType, v, h => h.setMessageType v
  | .heartbeat, v, h => h.setHeartbeat v
  | .oneway, v, h => h.setOneway v
  | .compressType, v, h => h.setCompressType v
  | .messageStatusType, v, h => h.setMessageStatusType v
  | .serializeType, v, h => h.setSerializeType v
  | .seq, v, h => h.setSeq v

/-- The header as a record with getters and setters. -/
def fields : Fields Header Field.Val := ⟨get, set⟩

/-- The value fits in its field. -/
def InRange : Call Field.Val → Prop
  | ⟨.messageType, v⟩ => v < 2
  | ⟨.compressType, v⟩ => v < 8
  | ⟨.messageStatusType, v⟩ => v < 4
  | ⟨.serializeType, v⟩ => v < 16
  | _ => True

/-- The bits that the field of the call holds are bits of the value to be set, where the setter only
adds bits. -/
def Covers (h : Header) : Call Field.Val → Prop
  | ⟨.messageType, v⟩ => h.messageType ||| v = v
  | ⟨.compressType, v⟩ => h.compressType ||| v = v
  | ⟨.messageStatusType, v⟩ => h.messageStatusType ||| v = v
  | ⟨.serializeType, v⟩ => h.serializeType ||| v = v
  | _ => True

/-! ### The other fields -/

theorem or_and (b a m : UInt8) : (b ||| a) &&& m = (b &&& m) ||| (a &&& m) :=
  UInt8.eq_of_toBitVec_eq BitVec.and_or_distrib_right

/-- From `b` to `b'` only bits of `own` have changed. -/
def KeepsOff (own b b' : UInt8) : Prop := b' &&& ~~~own = b &&& ~~~own

theorem keepsOff_or {own a : UInt8} (ha : a &&& ~~~own = 0) (b : UInt8) :
    KeepsOff own b (b ||| a) := by
  unfold KeepsOff
  rw [or_and, ha, UInt8.or_zero]

theorem keepsOff_and (own b : UInt8) : KeepsOff own b (b &&& ~~~own) := by
  unfold KeepsOff
  rw [UInt8.and_assoc, UInt8.and_self]

theorem KeepsOff.and_mask {own b b' : UInt8} (h : KeepsOff own b b') {m : UInt8}
    (hm : m &&& own = 0) :
    b' &&& m = b &&& m := by
  have hoff : ~~~own &&& m = m := by
    calc ~~~own &&& m = (own &&& m) |||
      (~~~own &&& m) := by rw [UInt8.and_comm own m, hm, UInt8.zero_or]
      _ = (own ||| ~~~own) &&& m := (or_and own (~~~own) m).symm
      _ = m := by rw [UInt8.or_not_self, UInt8.neg_one_and]
  calc b' &&& m = (b' &&& ~~~own) &&& m := by rw [UInt8.and_assoc, hoff]
    _ = (b &&& ~~~own) &&& m := by rw [show b' &&& ~~~own = b &&& ~~~own from h]
    _ = b &&& m := by rw [UInt8.and_assoc, hoff]

/-- A setter other than that of the sequence number writes one byte, within the bits of its
field. -/
theorem set_eq {f : Field} (hf : f ≠ .seq) (v : f.Val) (h : Header) :
    ∃ b, set f v h = h.set f.byte b ∧ KeepsOff f.mask (h.get f.byte) b := by
  have hmt : ∀ v : BitVec 8, (v <<< 7) &&& ~~~0x80#8 = 0 := by decide
  have hct : ∀ v : BitVec 8, ((v <<< 2) &&& 0x1C#8) &&& ~~~0x1C#8 = 0 := by decide
  have hms : ∀ v : BitVec 8, (v &&& 0x03#8) &&& ~~~0x03#8 = 0 := by decide
  have hst : ∀ v : BitVec 8, (v <<< 4) &&& ~~~0xF0#8 = 0 := by decide
  cases f with
  | version => exact ⟨v, rfl, by unfold KeepsOff; exact (UInt8.and_zero).trans UInt8.and_zero.symm⟩
  | messageType => exact ⟨_, rfl, keepsOff_or (UInt8.eq_of_toBitVec_eq (hmt v.toBitVec)) _⟩
  | heartbeat =>
    cases v with
    | true => exact ⟨_, rfl, keepsOff_or (by decide) _⟩
    | false => exact ⟨_, rfl, keepsOff_and _ _⟩
  | oneway =>
    cases v with
    | true => exact ⟨_, rfl, keepsOff_or (by decide) _⟩
    | false => exact ⟨_, rfl, keepsOff_and _ _⟩
  | compressType => exact ⟨_, rfl, keepsOff_or (UInt8.eq_of_toBitVec_eq (hct v.toBitVec)) _⟩
  | messageStatusType => exact ⟨_, rfl, keepsOff_or (UInt8.eq_of_toBitVec_eq (hms v.toBitVec)) _⟩
  | serializeType => exact ⟨_, rfl, keepsOff_or (UInt8.eq_of_toBitVec_eq (hst v.toBitVec)) _⟩
  | seq => exact absurd rfl hf

theorem byte_lt {f : Field} (hf : f ≠ .seq) : f.byte < 4 := by
  cases f <;> first | exact absurd rfl hf | decide

theorem get_congr {f : Field} (hf : f ≠ .seq) {h h' : Header}
    (hbits : h'.get f.byte &&& f.mask = h.get f.byte &&& f.mask) : get f h' = get f h := by
  cases f with
  | version =>
    have hall : ∀ b : UInt8, b &&& 0xFF = b := fun b => UInt8.and_neg_one
    exact (hall _).symm.trans (hbits.trans (hall _))
  | messageType => exact congrArg (fun b : UInt8 => b >>> 7) hbits
  | heartbeat => exact congrArg (· == 0x40) hbits
  | oneway => exact congrArg (· == 0x20) hbits
  | compressType => exact congrArg (fun b : UInt8 => b >>> 2) hbits
  | messageStatusType => exact hbits
  | serializeType => exact congrArg (fun b : UInt8 => b >>> 4) hbits
  | seq => exact absurd rfl hf

/-- **No setter disturbs another field.** -/
theorem get_set_other {f g : Field} (hfg : f ≠ g) (v : g.Val) (h : Header) :
    get f (set g v h) = get f h := by
  by_cases hg : g = .seq
  · subst hg
    exact get_congr hfg
      (by rw [show set .seq v h = h.setSeq v from rfl, h.get_setSeq v (byte_lt hfg)])
  · obtain ⟨b, hb, hkeep⟩ := set_eq hg v h
    have hlt : g.byte < 12 := by have := byte_lt hg; omega
    rw [hb]
    by_cases hf : f = .seq
    · subst hf
      exact h.seq_set (byte_lt hg) b
    · apply get_congr hf
      rw [h.get_set hlt]
      rcases Field.apart hfg with hbyte | hmask
      · rw [if_neg hbyte]
      · split_ifs with hbyte
        · rw [hbyte]
          exact hkeep.and_mask hmask
        · rfl

theorem get_zero_set (f : Field) (v : f.Val) (h : Header) : (set f v h).get 0 = h.get 0 := by
  by_cases hf : f = .seq
  · subst hf
    exact h.get_setSeq v (by omega)
  · obtain ⟨b, hb, -⟩ := set_eq hf v h
    have hlt := byte_lt hf
    have hpos : 0 ≠ f.byte := by cases f <;> decide
    rw [hb, h.get_set (by omega), if_neg hpos]

/-! ### The field itself -/

theorem messageType_setMessageType (h : Header) {mt : MessageType} (hmt : mt < 2) :
    (h.setMessageType mt).messageType = h.messageType ||| mt := by
  have hback : ∀ v : BitVec 8, v < 2 → ((v <<< 7) &&& 0x80) >>> 7 = v := by decide
  have hmt' : ((mt <<< 7) &&& 0x80) >>> 7 = mt := UInt8.eq_of_toBitVec_eq (hback mt.toBitVec hmt)
  unfold Header.messageType
  rw [h.get_setMessageType, if_pos rfl, or_and, UInt8.shiftRight_or, hmt']

theorem compressType_setCompressType (h : Header) {ct : CompressType} (hct : ct < 8) :
    (h.setCompressType ct).compressType = h.compressType ||| ct := by
  have hback : ∀ v : BitVec 8, v < 8 → (((v <<< 2) &&& 0x1C) &&& 0x1C) >>> 2 = v := by decide
  have hct' : (((ct <<< 2) &&& 0x1C) &&& 0x1C) >>> 2 = ct :=
    UInt8.eq_of_toBitVec_eq (hback ct.toBitVec hct)
  unfold Header.compressType
  rw [h.get_setCompressType, if_pos rfl, or_and, UInt8.shiftRight_or, hct']

theorem messageStatusType_setMessageStatusType (h : Header) {mt : MessageStatusType}
    (hmt : mt < 4) :
    (h.setMessageStatusType mt).messageStatusType = h.messageStatusType ||| mt := by
  have hback : ∀ v : BitVec 8, v < 4 → (v &&& 0x03) &&& 0x03 = v := by decide
  have hmt' : (mt &&& 0x03) &&& 0x03 = mt := UInt8.eq_of_toBitVec_eq (hback mt.toBitVec hmt)
  unfold Header.messageStatusType
  rw [h.get_setMessageStatusType, if_pos rfl, or_and, hmt']

theorem serializeType_setSerializeType (h : Header) {st : SerializeType} (hst : st < 16) :
    (h.setSerializeType st).serializeType = h.serializeType ||| st := by
  have hback : ∀ v : BitVec 8, v < 16 → ((v <<< 4) &&& 0xF0) >>> 4 = v := by decide
  have hst' : ((st <<< 4) &&& 0xF0) >>> 4 = st := UInt8.eq_of_toBitVec_eq (hback st.toBitVec hst)
  unfold Header.serializeType
  rw [h.get_setSerializeType, if_pos rfl, or_and, UInt8.shiftRight_or, hst']

theorem flag_on (b m : UInt8) : (b ||| m) &&& m = m :=
  UInt8.eq_of_toBitVec_eq (by ext i; simp +contextual)

theorem flag_off (b m : UInt8) : (b &&& ~~~m) &&& m = 0 :=
  UInt8.eq_of_toBitVec_eq (by ext i; simp)

theorem flag_set (h : Header) {m : UInt8} (hm : (0 : UInt8) ≠ m) (v : Bool) :
    ((if v then h.set 2 (h.get 2 ||| m) else h.set 2 (h.get 2 &&& ~~~m)).get 2 &&& m == m) = v := by
  cases v with
  | true =>
    rw [if_pos rfl, h.get_set (by omega), if_pos rfl, flag_on]
    exact beq_self_eq_true m
  | false =>
    rw [if_neg (by decide), h.get_set (by omega), if_pos rfl, flag_off]
    exact beq_eq_false_iff_ne.mpr hm

theorem isHeartbeat_setHeartbeat (h : Header) (hb : Bool) : (h.setHeartbeat hb).isHeartbeat = hb :=
  flag_set h (by decide) hb

theorem isOneway_setOneway (h : Header) (oneway : Bool) : (h.setOneway oneway).isOneway = oneway :=
  flag_set h (by decide) oneway

/-- **What a setter leaves in its own field** is the value set exactly if the value covers what was
there. -/
theorem get_set_self (h : Header) {c : Call Field.Val} (hc : InRange c) :
    get c.1 (set c.1 c.2 h) = c.2 ↔ Covers h c := by
  obtain ⟨f, v⟩ := c
  cases f with
  | version =>
    have hv : (h.set 1 v).get 1 = v := by rw [h.get_set (by omega), if_pos rfl]
    exact iff_of_true hv trivial
  | messageType => exact Eq.congr_left (messageType_setMessageType h hc)
  | heartbeat => exact iff_of_true (isHeartbeat_setHeartbeat h v) trivial
  | oneway => exact iff_of_true (isOneway_setOneway h v) trivial
  | compressType => exact Eq.congr_left (compressType_setCompressType h hc)
  | messageStatusType => exact Eq.congr_left (messageStatusType_setMessageStatusType h hc)
  | serializeType => exact Eq.congr_left (serializeType_setSerializeType h hc)
  | seq => exact iff_of_true (h.seq_setSeq v) trivial

/-! ### Sequences of calls -/

theorem proper_iff_covers (h : Header) {c : Call Field.Val} (hc : InRange c) :
    fields.Proper h c ↔ Covers h c := by
  have hother : ∀ f, f ≠ c.1 → get f (set c.1 c.2 h) = get f h := fun f hf => get_set_other hf c.2 h
  exact ⟨fun hp => (get_set_self h hc).mp hp.1, fun hcov => ⟨(get_set_self h hc).mpr hcov, hother⟩⟩

/-- **The setters of a header.** For a sequence of calls with values in range, every getter gives
the value of the last call of its own setter, after each of the calls, exactly if every call that
can only add bits covers what its field holds at that point. The magic byte never changes. -/
theorem setters_last_write_wins (h : Header) (calls : List (Call Field.Val))
    (hr : ∀ c ∈ calls, InRange c) :
    ((∀ made, made <+: calls → fields.LastWriteWins h made) ↔ fields.Each Covers h calls) ∧
      (fields.run calls h).get 0 = h.get 0 := by
  constructor
  · rw [Fields.lastWriteWins_iff]
    exact Fields.each_congr fun t c hc => proper_iff_covers t (hr c hc)
  · have hmagic : ∀ t c, (fields.call t c).get 0 = t.get 0 := fun t c => get_zero_set c.1 c.2 t
    exact Fields.run_invariant (g := fun t : Header => t.get 0) hmagic calls h

/-- A request turned into a gzip response, from a clean header: every call covers. -/
theorem setters_last_write_wins_response :
    fields.LastWriteWins (Header.clean magicNumber)
      [⟨.seq, 7⟩, ⟨.messageType, MessageType.request⟩, ⟨.compressType, CompressType.gzip⟩,
        ⟨.heartbeat, true⟩, ⟨.messageType, MessageType.response⟩, ⟨.heartbeat, false⟩] := by
  refine (setters_last_write_wins (Header.clean magicNumber) _ ?_).1.mpr ?_ _ (List.prefix_refl _)
  · simp [InRange, MessageType.request, MessageType.response, CompressType.gzip]
  · simp only [Fields.Each, Covers]
    decide

/-- A response that is made a request again, and a gzip message that is set to no compression, read
as before in a header that had no bit set. -/
theorem setters_keep_bits :
    get .messageType
      (fields.run [⟨.messageType, MessageType.response⟩, ⟨.messageType, MessageType.request⟩]
        (Header.clean magicNumber)) = MessageType.response ∧
      get .compressType
        (fields.run [⟨.compressType, CompressType.gzip⟩, ⟨.compressType, CompressType.none⟩]
        (Header.clean magicNumber)) = CompressType.gzip ∧
      ¬ fields.LastWriteWins (Header.clean magicNumber)
        [⟨.messageType, MessageType.response⟩, ⟨.messageType, MessageType.request⟩] := by
  refine ⟨by decide, by decide, fun hlast => ?_⟩
  exact absurd (hlast .messageType) (by decide)

end Frpc.Protocol.Setters
