import Frpc.Protocol.RoundTrip

/-! # Streams of frames

A connection carries one frame after the other (`Stream`). Whoever decodes from a part `d` of such a
stream that has arrived gets the messages in the order in which they were written, or an error while
the rest of a frame is missing (`Stream.decode`). `Carries` names the messages, and says that each
of them is accepted. -/

namespace Frpc.Protocol.Streams

open Frpc.Basic Frpc.Protocol.Messages Frpc.Protocol.Wire Frpc.Protocol.RoundTrip

/-- A message, and the order in which its metadata are written. -/
abbrev Sent := Message × MetaOrder

/-- The bytes of frames one after the other. -/
def bytesOf (fs : List Sent) : Bytes := fs.flatMap fun f => frame f.1 f.2

theorem bytesOf_cons (f : Sent) (fs : List Sent) :
    bytesOf (f :: fs) = frame f.1 f.2 ++ bytesOf fs :=
  List.flatMap_cons

theorem bytesOf_append (fs fs' : List Sent) : bytesOf (fs ++ fs') = bytesOf fs ++ bytesOf fs' :=
  List.flatMap_append

/-- Frames of messages with the property `P`, all of them shorter than `2 ^ 32` bytes. -/
inductive Stream (P : Message → Prop) : Bytes → Prop
  | nil : Stream P []
  | cons {m : Message} {order : MetaOrder} {rest : Bytes} (hm : P m) (ho : order.toFinmap = m.meta0)
      (hb : (frame m order).length < 2 ^ 32) (h : Stream P rest) : Stream P (frame m order ++ rest)

variable {P Q : Message → Prop} {d u : Bytes}

theorem Stream.mono (hPQ : ∀ m, P m → Q m) (h : Stream P d) : Stream Q d := by
  induction h with
  | nil => exact .nil
  | cons hm ho hb _ ih => exact .cons (hPQ _ hm) ho hb ih

theorem Stream.snoc {m : Message} {order : MetaOrder} (h : Stream P d) (hm : P m)
    (ho : order.toFinmap = m.meta0) (hb : (frame m order).length < 2 ^ 32) :
    Stream P (d ++ frame m order) := by
  induction h with
  | nil =>
    rw [List.nil_append, ← List.append_nil (frame m order)]
    exact .cons hm ho hb .nil
  | cons hm' ho' hb' _ ih =>
    rw [List.append_assoc]
    exact .cons hm' ho' hb' ih

theorem bodyRead_of_decode {maxLen : ℤ} {msg m' : Message} {r : Reader} {fail : Error}
    (h : msg.decode maxLen ⟨d, fail⟩ = .ok (m', r, none)) : ∃ body, BodyRead maxLen d body := by
  by_contra hno
  obtain ⟨_, _, e, he⟩ := readFrame_short (fun body hb => hno ⟨body, hb⟩) msg fail
  simp [Message.decode, he] at h

/-- **Decoding the front of a stream.** When a message is decoded from the part `d` that has arrived
of a frame with something behind it, then all of the frame has arrived. -/
theorem decode_front {maxLen : ℤ} {msg m' m : Message} {order : MetaOrder} {rest : Bytes}
    {r : Reader}
    {fail : Error} (ho : order.toFinmap = m.meta0) (hb : (bodyOf m order).length < 2 ^ 32)
    (hs : d ++ u = frame m order ++ rest) (hdec : msg.decode maxLen ⟨d, fail⟩ = .ok (m', r, none)) :
    m' = { norm m with metadata := (norm m).metadata.or msg.metadata } ∧
      d = frame m order ++ r.data ∧ r.data ++ u = rest := by
  obtain ⟨body, hbody⟩ := bodyRead_of_decode hdec
  obtain ⟨d', rfl, rfl⟩ : ∃ d', d = frame m order ++ d' ∧ rest = d' ++ u := by
    rcases List.append_eq_append_iff.mp hs with ⟨a, hfr, hu⟩ | ⟨d', hd, hr⟩
    · by_cases hfull : d = frame m order
      · rw [← hfull, List.self_eq_append_right] at hfr
        exact ⟨[], by rw [hfull, List.append_nil], by simp [hu, hfr]⟩
      · exact absurd hbody (not_bodyRead_of_append hb ⟨a, hfr.symm⟩ hfull body)
    · exact ⟨d', hd, hr⟩
  have hmax : ¬ (maxLen > 0 ∧ ((bodyOf m order).length : ℤ) > maxLen) := by
    obtain ⟨hd, v, x, heq, -, hmax⟩ := hbody
    rwa [(frame_inj hb heq.symm).2.2.1] at hmax
  cases (decode_frame ho hb hmax msg d' fail).symm.trans hdec
  exact ⟨rfl, rfl, rfl⟩

theorem ne_nil_of_decode {maxLen : ℤ} {msg m' : Message} {r : Reader} {fail : Error}
    (h : msg.decode maxLen ⟨d, fail⟩ = .ok (m', r, none)) : d ≠ [] := by
  rintro rfl
  obtain ⟨body, hd, v, rest, hnil, -⟩ := bodyRead_of_decode h
  have := congrArg List.length hnil
  simp only [List.length_nil, List.length_append, hd.length_bytes] at this
  omega

/-- **Decoding from a stream.** What is decoded is the first message of the stream, and what is left
is the rest of the stream. -/
theorem Stream.decode {maxLen : ℤ} {msg m' : Message} {r : Reader} {fail : Error}
    (h : Stream P (d ++ u)) (hdec : msg.decode maxLen ⟨d, fail⟩ = .ok (m', r, none)) :
    ∃ m, P m ∧ m' = { norm m with metadata := (norm m).metadata.or msg.metadata } ∧
      Stream P (r.data ++ u) := by
  generalize hs : d ++ u = st at h
  cases h with
  | nil => exact absurd (List.append_eq_nil_iff.mp hs).1 (ne_nil_of_decode hdec)
  | @cons m order rest hm ho hb hrest =>
    rw [length_frame] at hb
    obtain ⟨rfl, -, rfl⟩ := decode_front ho (by omega) hs hdec
    exact ⟨m, hm, rfl, hrest⟩

/-! ### The messages of a stream -/

/-- The frame of `m` is short enough for its length field and for a reader with the limit
`maxLen`. -/
def Fits (maxLen : ℤ) (m : Message) (order : MetaOrder) : Prop :=
  (frame m order).length < 2 ^ 32 ∧ ¬ (maxLen > 0 ∧ ((bodyOf m order).length : ℤ) > maxLen)

theorem Fits.body {maxLen : ℤ} {m : Message} {order : MetaOrder} (h : Fits maxLen m order) :
    (bodyOf m order).length < 2 ^ 32 := by
  have hlen := h.1
  rw [length_frame] at hlen
  omega

/-- The frames of the messages `ms`, each of which fits. -/
inductive Carries (maxLen : ℤ) : List Message → Bytes → Prop
  | nil : Carries maxLen [] []
  | cons {m : Message} {ms : List Message} {order : MetaOrder} {rest : Bytes}
      (ho : order.toFinmap = m.meta0) (hfit : Fits maxLen m order) (h : Carries maxLen ms rest) :
      Carries maxLen (m :: ms) (frame m order ++ rest)

section Carries

variable {maxLen : ℤ} {ms : List Message}

theorem Carries.snoc {m : Message} {order : MetaOrder} (h : Carries maxLen ms d)
    (ho : order.toFinmap = m.meta0) (hfit : Fits maxLen m order) :
    Carries maxLen (ms ++ [m]) (d ++ frame m order) := by
  induction h with
  | nil =>
    rw [List.nil_append, List.nil_append, ← List.append_nil (frame m order)]
    exact .cons ho hfit .nil
  | cons ho' hfit' _ ih =>
    rw [List.append_assoc]
    exact .cons ho' hfit' ih

theorem Carries.decode {msg m' : Message} {r : Reader} {fail : Error}
    (h : Carries maxLen ms (d ++ u)) (hdec : msg.decode maxLen ⟨d, fail⟩ = .ok (m', r, none)) :
    ∃ m ms', ms = m :: ms' ∧ m' = { norm m with metadata := (norm m).metadata.or msg.metadata } ∧
      Carries maxLen ms' (r.data ++ u) ∧ r.data.length < d.length := by
  generalize hs : d ++ u = st at h
  cases h with
  | nil => exact absurd (List.append_eq_nil_iff.mp hs).1 (ne_nil_of_decode hdec)
  | @cons m ms' order rest ho hfit hrest =>
    obtain ⟨rfl, hd, rfl⟩ := decode_front ho hfit.body hs hdec
    have hlen := congrArg List.length hd
    rw [List.length_append, length_frame] at hlen
    exact ⟨m, ms', rfl, rfl, hrest, by omega⟩

theorem Carries.decode_ok {m : Message} (h : Carries maxLen (m :: ms) d) (msg : Message)
    (fail : Error) :
    ∃ m' r, msg.decode maxLen ⟨d, fail⟩ = .ok (m', r, none) := by
  cases h with
  | cons ho hfit _ => exact ⟨_, _, decode_frame ho hfit.body hfit.2 msg _ fail⟩

end Carries

end Frpc.Protocol.Streams
