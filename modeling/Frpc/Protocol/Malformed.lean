import Frpc.Protocol.RoundTrip

/-! # Malformed frames

`Decode` cuts the body with slice expressions whose bounds come from the body itself and are not
compared with its length. `Readable` describes the bodies on which no bound is exceeded: three
complete sections, then either the four bytes of the payload length, or a metadata section that
`decodeMetadata` gives up on before it runs past the body. On every other body `Decode` panics
(`decode_iff_readable`). -/

namespace Frpc.Protocol.Malformed

open Frpc.Basic Frpc.Lib.Slices Frpc.Protocol.Messages
open Frpc.Protocol.Wire Frpc.Protocol.Metadata Frpc.Protocol.RoundTrip

/-- The metadata section `s`, with `t` behind it in the body: either `s` is a sequence of records
and the length of the payload follows, or records are followed, inside `s`, by a length that is
rejected. -/
def MetaReadable (s t : Bytes) : Prop :=
  (∃ kvs, s = encodeRecords kvs ∧ 4 ≤ t.length) ∨
    ∃ kvs x, s ++ t = encodeRecords kvs ++ x ∧ (encodeRecords kvs).length < s.length ∧
      RejectedAt (.ofNat s.length) (.ofNat (encodeRecords kvs).length) x

/-- A body that `Decode` cuts without leaving it. -/
def Readable (body : Bytes) : Prop :=
  ∃ p q s t, body = lenPrefixed p ++ (lenPrefixed q ++ (lenPrefixed s ++ t)) ∧ MetaReadable s t

/-! ### The metadata section -/

theorem metaAt_fault {s : Slice UInt8} {n : ℕ} (hn : n ≤ s.back.length)
    (h : ∀ b r, s.back.drop n = lenPrefixed b ++ r → ¬ b.length < 2 ^ 32) (old : Option Metadata) :
    metaAt s n old = .error .bounds := by
  have hsec := sectionAt_fault hn h
  unfold sectionAt at hsec
  unfold metaAt
  rw [← bind_assoc] at hsec ⊢
  cases hw : (s.slice n (n + 4) >>= uint32) with
  | error f =>
    rw [hw, error_bind] at hsec
    cases hsec
    rfl
  | ok l =>
    rw [hw, ok_bind] at hsec
    rw [ok_bind]
    dsimp only at hsec ⊢
    -- a section that runs out of the body is not empty
    have hl : l > 0 := by
      by_contra hl0
      have hl0 : l.toNat = 0 := by
        rw [gt_iff_lt, UInt32.lt_iff_toNat_lt] at hl0
        simpa using hl0
      by_cases h4 : n + 4 ≤ s.back.length
      · rw [hl0, Slice.slice_ok (by omega) (by omega), ok_bind] at hsec
        cases hsec
      · rw [uint32_fault (by omega)] at hw
        cases hw
    rw [if_pos hl]
    cases hc : s.slice (n + 4) (n + 4 + l.toNat) with
    | error f =>
      rw [hc, error_bind] at hsec
      cases hsec
      rfl
    | ok c =>
      rw [hc, ok_bind] at hsec
      cases hsec

section Body

variable {body a b r : Bytes} {n : ℕ} (hs : body = a ++ (lenPrefixed b ++ r)) (ha : a.length = n)
  (hb : body.length < 2 ^ 32) (old : Option Metadata)

include hs ha hb

theorem metaAt_rejected {kvs : List (Bytes × Bytes)} {x : Bytes}
    (hx : b ++ r = encodeRecords kvs ++ x) (hlt : (encodeRecords kvs).length < b.length)
    (hrej : RejectedAt (.ofNat b.length) (.ofNat (encodeRecords kvs).length) x) :
    ∃ m, metaAt (.ofList body) n old = .ok (m, some .errMetaKVMissing, n + (4 + b.length)) := by
  have hlen := congrArg List.length hs
  rw [List.length_append, List.length_append, length_lenPrefixed] at hlen
  have hb0 : b ≠ [] := by
    rintro rfl
    simp at hlt
  have hcap : (b ++ r).length < 2 ^ 32 := by rw [List.length_append]; omega
  rw [metaAt_eq hs ha (by omega) hb0, decodeMetadata_reject kvs hcap hx
    (by rw [toNat_ofNat_length (by omega)]; exact hlt) hrej]
  exact ⟨_, rfl⟩

theorem metaAt_overrun (hacc : ∀ kvs, b ≠ encodeRecords kvs)
    (hrej : ∀ kvs x, b ++ r = encodeRecords kvs ++ x → (encodeRecords kvs).length < b.length →
      ¬ RejectedAt (.ofNat b.length) (.ofNat (encodeRecords kvs).length) x) :
    metaAt (.ofList body) n old = .error .bounds := by
  have hlen := congrArg List.length hs
  rw [List.length_append, List.length_append, length_lenPrefixed] at hlen
  have hb' := toNat_ofNat_length (b := b) (by omega)
  have hcap : (b ++ r).length < 2 ^ 32 := by rw [List.length_append]; omega
  rw [metaAt_eq hs ha (by omega) (hacc []), decodeMetadata_fault hcap ?_ ?_, error_bind]
  · intro kvs x hx hl
    rw [hb'] at hl
    exact hacc kvs (List.append_inj hx hl.symm).1
  · intro kvs x hx hl
    exact hrej kvs x hx (by rwa [hb'] at hl)

end Body

/-! ### The whole body -/

theorem parseBody_rejected {body p q s t x : Bytes} {kvs : List (Bytes × Bytes)}
    (hbody : body = lenPrefixed p ++ (lenPrefixed q ++ (lenPrefixed s ++ t)))
    (hb : body.length < 2 ^ 32)
    (hx : s ++ t = encodeRecords kvs ++ x) (hlt : (encodeRecords kvs).length < s.length)
    (hrej : RejectedAt (.ofNat s.length) (.ofNat (encodeRecords kvs).length) x) (msg : Message) :
    ∃ m, msg.parseBody (.ofList body) = .ok (m, some .errMetaKVMissing) := by
  have hlen := congrArg List.length hbody
  simp only [List.length_append, length_lenPrefixed] at hlen
  have h3 : body = (lenPrefixed p ++ lenPrefixed q) ++ (lenPrefixed s ++ t) := by
    rw [hbody, List.append_assoc]
  obtain ⟨m, hmeta⟩ := metaAt_rejected h3 rfl hb msg.metadata hx hlt hrej
  unfold Message.parseBody
  rw [sectionAt_ok (s := .ofList body) (a := []) (n := 0) hbody rfl (by omega), ok_bind]
  dsimp only
  rw [sectionAt_ok (s := .ofList body) hbody (by simp) (by omega), ok_bind]
  dsimp only
  rw [show 0 + (4 + p.length) + (4 + q.length) = (lenPrefixed p ++ lenPrefixed q).length by simp,
    hmeta, ok_bind]
  exact ⟨_, rfl⟩

theorem parseBody_readable {body : Bytes} (hb : body.length < 2 ^ 32) (hr : Readable body)
    (msg : Message) : ∃ res, msg.parseBody (.ofList body) = .ok res := by
  obtain ⟨p, q, s, t, hbody, ⟨kvs, rfl, ht⟩ | ⟨kvs, x, hx, hlt, hrej⟩⟩ := hr
  · obtain ⟨w, y, rfl⟩ := exists_putUint32 ht
    exact ⟨_, parseBody_records hbody hb msg⟩
  · obtain ⟨m, hm⟩ := parseBody_rejected hbody hb hx hlt hrej msg
    exact ⟨_, hm⟩

theorem parseBody_not_readable {body : Bytes} (hb : body.length < 2 ^ 32) (hr : ¬ Readable body)
    (msg : Message) : msg.parseBody (.ofList body) = .error .bounds := by
  unfold Message.parseBody
  by_cases h1 : ∃ p r, body = lenPrefixed p ++ r ∧ p.length < 2 ^ 32
  swap
  · rw [sectionAt_fault (s := .ofList body) (Nat.zero_le _) fun b r h hlt =>
      h1 ⟨b, r, h, hlt⟩, error_bind]
  obtain ⟨p, r, hbody, hp⟩ := h1
  rw [sectionAt_ok (a := []) (n := 0) hbody rfl hp, ok_bind]
  dsimp only
  have hdrop : body.drop (0 + (4 + p.length)) = r := by
    rw [hbody, List.drop_left' (by simp)]
  have hle : 0 + (4 + p.length) ≤ body.length := by rw [hbody]; simp
  by_cases h2 : ∃ q r', r = lenPrefixed q ++ r' ∧ q.length < 2 ^ 32
  swap
  · rw [sectionAt_fault (s := .ofList body) hle fun b r' h hlt =>
      h2 ⟨b, r', hdrop.symm.trans h, hlt⟩, error_bind]
  obtain ⟨q, r, rfl, hq⟩ := h2
  rw [sectionAt_ok (a := lenPrefixed p) hbody (by simp) hq, ok_bind]
  dsimp only
  have h3 : body = (lenPrefixed p ++ lenPrefixed q) ++ r := by rw [hbody, List.append_assoc]
  have hn : (lenPrefixed p ++ lenPrefixed q).length = 0 + (4 + p.length) + (4 + q.length) := by
    simp
  by_cases h4 : ∃ s t, r = lenPrefixed s ++ t ∧ s.length < 2 ^ 32
  swap
  · rw [metaAt_fault (s := .ofList body) (by rw [← hn, Slice.ofList_back, h3]; simp)
      fun b t h hlt => h4 ⟨b, t, ?_, hlt⟩, error_bind]
    rw [← h, ← hn, Slice.ofList_back, h3, List.drop_left]
  obtain ⟨s, t, rfl, hs⟩ := h4
  by_cases h5 : ∃ kvs, s = encodeRecords kvs
  · obtain ⟨kvs, hk⟩ := h5
    subst hk
    have ht : t.length < 4 := by
      by_contra hle
      exact hr ⟨p, q, _, t, hbody, Or.inl ⟨kvs, rfl, by omega⟩⟩
    have hlen := congrArg List.length h3
    simp only [List.length_append, length_lenPrefixed] at hlen
    rw [metaAt_records (s := .ofList body) h3 hn hb, ok_bind]
    dsimp only
    rw [← bind_assoc, uint32_fault (by show body.length < _; omega), error_bind]
  · rw [metaAt_overrun h3 hn hb msg.metadata (fun kvs hk => h5 ⟨kvs, hk⟩) fun kvs x hx hlt hrej =>
      hr ⟨p, q, s, t, hbody, Or.inr ⟨kvs, x, hx, hlt, hrej⟩⟩, error_bind]

/-- **`Decode` on arbitrary bytes.** It returns, with or without an error, exactly when the body it
reads, if it gets to read one, is `Readable`; otherwise it panics. -/
theorem decode_iff_readable (msg : Message) (maxLen : ℤ) (d : Bytes) (fail : Error) :
    (∃ res, msg.decode maxLen ⟨d, fail⟩ = .ok res) ↔ ∀ body, BodyRead maxLen d body →
      Readable body := by
  constructor
  · rintro ⟨res, hres⟩ body ⟨h, v, rest, hd, hv, hmax⟩
    by_contra hr
    rw [Message.decode, readFrame_ok hd hv hmax] at hres
    dsimp only at hres
    rw [parseBody_not_readable (by rw [hv]; exact v.toNat_lt) hr, error_bind] at hres
    cases hres
  · intro hr
    by_cases hbody : ∃ body, BodyRead maxLen d body
    · obtain ⟨body, h, v, rest, hd, hv, hmax⟩ := hbody
      obtain ⟨res, hres⟩ := parseBody_readable (by rw [hv]; exact v.toNat_lt)
        (hr body ⟨h, v, rest, hd, hv, hmax⟩) { msg with header := h }
      rw [Message.decode, readFrame_ok hd hv hmax]
      dsimp only
      rw [hres, ok_bind]
      exact ⟨_, rfl⟩
    · obtain ⟨m', r', e, he⟩ := readFrame_short (fun body hb => hbody ⟨body, hb⟩) msg fail
      exact ⟨_, by rw [Message.decode, he]⟩

/-- A header that announces an empty body: the slice expression `data[0:4]` is out of bounds. -/
theorem decode_empty_body :
    newMessage.decode 0 ⟨newMessage.header.bytes ++ [0, 0, 0, 0], .eof⟩ = .error .bounds := by
  rfl

end Frpc.Protocol.Malformed
