import Frpc.Protocol.Streams

/-! # Streams that break off

A connection may break at any byte. What the loop of `serveConn` has decoded then are the messages
whose frames had come in whole, and nothing of the one that was cut off. The error says whether the
reader was in the middle of something: but the header, the length and the body are read one after
the other, so a stream that breaks off between two of them seems to end as it should
(`cut_stream`). -/

namespace Frpc.Protocol.Cuts

open Frpc.Basic Frpc.Lib.BigEndian Frpc.Lib.Slices Frpc.Protocol.Headers Frpc.Protocol.Messages
open Frpc.Protocol.Wire Frpc.Protocol.RoundTrip Frpc.Protocol.Streams

/-- The loop of `serveConn`, as far as it reads: decode one request after the other, up to the first
error. There are at most `n` rounds. -/
def decodeRequests (maxLen : ℤ) : ℕ → Reader → Except Fault (List Message × Option Error)
  | 0, _ => .ok ([], none)
  | n + 1, r =>
    match newMessage.decode maxLen r with
    | .error fault => .error fault
    | .ok (_, _, some err) => .ok ([], some err)
    | .ok (req, r, none) =>
      match decodeRequests maxLen n r with
      | .error fault => .error fault
      | .ok (reqs, err) => .ok (req :: reqs, err)

/-- The error of a reader that stops with `fail`, `n` bytes into a frame. -/
def cutError (fail : Error) (n : ℕ) : Error :=
  if n = 0 ∨ n = 12 ∨ n = 16 then fail
  else if fail = .eof then .unexpectedEOF else fail

variable {maxLen : ℤ} {m msg : Message} {order : MetaOrder} {fail : Error}

/-- `io.ReadFull` on what is left of a stream: `k` bytes of a part of the frame. -/
theorem readFull_cut {d buf : Bytes} {k n : ℕ} (hk : d.length = k) (h : k < buf.length)
    (hn : k = 0 ↔ n = 0 ∨ n = 12 ∨ n = 16) (fail : Error) :
    ∃ buf', (Reader.mk d fail).readFull buf = (buf', ⟨[], fail⟩, some (cutError fail n)) := by
  subst hk
  have hmin : min buf.length d.length = d.length := by omega
  refine ⟨d.take d.length ++ buf.drop d.length, ?_⟩
  simp only [Reader.readFull, hmin, cutError, ← hn]
  rw [if_neg (by omega), List.drop_length]
  split_ifs <;> rfl

/-- The three parts of a frame that is cut off after `n` bytes. -/
theorem take_frame (m : Message) (order : MetaOrder) (n : ℕ) :
    (frame m order).take n = m.header.bytes.take n ++
      ((putUint32 (.ofNat (bodyOf m order).length)).take (n - 12) ++
        (bodyOf m order).take (n - 16)) := by
  have hsub : n - 12 - 4 = n - 16 := by omega
  rw [frame, List.take_append, List.take_append, m.header.length_bytes, length_putUint32, hsub]

/-- **A frame that is cut off.** It is not decoded. -/
theorem decode_cut (hb : (bodyOf m order).length < 2 ^ 32)
    (hmax : ¬ (maxLen > 0 ∧ ((bodyOf m order).length : ℤ) > maxLen)) {n : ℕ}
    (hn : n < (frame m order).length) (msg : Message) (fail : Error) :
    ∃ m' r, msg.decode maxLen ⟨(frame m order).take n, fail⟩ =
      .ok (m', r, some (cutError fail n)) := by
  have hheader := m.header.length_bytes
  have hheader' := msg.header.length_bytes
  have hlen := length_putUint32 (.ofNat (bodyOf m order).length)
  have hv := toNat_ofNat_length hb
  rw [length_frame] at hn
  rw [take_frame]
  by_cases h12 : n < 12
  · -- it breaks off in the header
    rw [show n - 12 =
      0 by omega, show n - 16 = 0 by omega, List.take_zero, List.take_zero, List.append_nil,
      List.append_nil]
    have hk : (m.header.bytes.take n).length = n := by
      rw [List.length_take]
      omega
    obtain ⟨buf, hread⟩ :=
      readFull_cut (n := n) hk (by omega : n < msg.header.bytes.length) (by omega) fail
    simp only [Message.decode, Message.readFrame, hread]
    exact ⟨_, _, rfl⟩
  · rw [List.take_of_length_le (show m.header.bytes.length ≤ n by omega)]
    have hread : ∀ rest, (Reader.mk (m.header.bytes ++ rest) fail).readFull msg.header.bytes =
        (m.header.bytes, ⟨rest, fail⟩, none) := by
      intro rest
      exact readFull_ok rfl (by omega)
    by_cases h16 : n < 16
    · -- it breaks off in the length
      rw [show n - 16 = 0 by omega, List.take_zero, List.append_nil]
      have hk : ((putUint32 (.ofNat (bodyOf m order).length)).take (n - 12)).length = n - 12 := by
        rw [List.length_take]
        omega
      obtain ⟨buf, hread'⟩ := readFull_cut (n := n) hk
        (by rw [List.length_replicate]; omega : n - 12 < (List.replicate 4 (0 : UInt8)).length)
          (by omega) fail
      simp only [Message.decode, Message.readFrame, hread, hread']
      exact ⟨_, _, rfl⟩
    · -- it breaks off in the body
      rw [List.take_of_length_le
        (show (putUint32 (.ofNat (bodyOf m order).length)).length ≤ n - 12 by omega)]
      have hread' : ∀ rest,
          (Reader.mk (putUint32 (.ofNat (bodyOf m order).length) ++ rest) fail).readFull
          (List.replicate 4 0) =
            (putUint32 (.ofNat (bodyOf m order).length), ⟨rest, fail⟩, none) := by
        intro rest
        exact readFull_ok rfl (by rw [List.length_replicate]; exact hlen)
      have hk : ((bodyOf m order).take (n - 16)).length = n - 16 := by
        rw [List.length_take]
        omega
      obtain ⟨buf, hread''⟩ := readFull_cut (n := n) hk
        (by rw [List.length_replicate]; omega :
          n - 16 < (List.replicate (bodyOf m order).length (0 : UInt8)).length) (by omega) fail
      simp only [Message.decode, Message.readFrame, hread, hread', getBE_putUint32, hv,
        if_neg hmax, hread'']
      exact ⟨_, _, rfl⟩

/-! ### The loop -/

theorem decode_nil (maxLen : ℤ) (msg : Message) (fail : Error) :
    ∃ m' r, msg.decode maxLen ⟨[], fail⟩ = .ok (m', r, some fail) := by
  have hlen := msg.header.length_bytes
  obtain ⟨buf, hread⟩ := readFull_cut (k := 0) (n := 0) (d := []) rfl
    (by omega : 0 < msg.header.bytes.length) (by omega) fail
  simp only [Message.decode, Message.readFrame, hread]
  exact ⟨_, _, rfl⟩

/-- **A stream that breaks off.** When `k` bytes of the frames have come in, the loop has decoded
the messages of all the frames that are whole. The error is that of the reader, `n` bytes into the
next frame. -/
theorem cut_stream {fs : List Sent} (hfs : ∀ f ∈ fs, f.2.toFinmap = f.1.meta0 ∧ Fits maxLen f.1 f.2)
    {k : ℕ}
    (hk : k ≤ (bytesOf fs).length) (fail : Error) {rounds : ℕ} (hrounds : fs.length < rounds) :
    ∃ j n, (bytesOf (fs.take j)).length + n = k ∧
      (j < fs.length → k < (bytesOf (fs.take (j + 1))).length) ∧
      decodeRequests maxLen rounds ⟨(bytesOf fs).take k, fail⟩ =
        .ok ((fs.take j).map fun f => norm f.1, some (cutError fail n)) := by
  induction fs generalizing k rounds with
  | nil =>
    obtain ⟨rounds, rfl⟩ := Nat.exists_eq_add_one_of_ne_zero (Nat.ne_of_gt hrounds)
    obtain ⟨m', r, hdecode⟩ := decode_nil maxLen newMessage fail
    have hzero : k = 0 := Nat.le_zero.mp hk
    subst hzero
    refine ⟨0, 0, rfl, fun h => absurd h (Nat.lt_irrefl 0), ?_⟩
    rw [List.take_zero, decodeRequests, hdecode]
    rfl
  | cons f fs ih =>
    obtain ⟨rounds, rfl⟩ : ∃ r, rounds = r + 1 := ⟨rounds - 1, by omega⟩
    obtain ⟨ho, hfit⟩ := hfs f List.mem_cons_self
    rw [bytesOf_cons] at hk ⊢
    by_cases hcut : k < (frame f.1 f.2).length
    · obtain ⟨m', r, hdecode⟩ := decode_cut hfit.body hfit.2 hcut newMessage fail
      refine ⟨0, k, by simp [bytesOf], fun _ => by simpa [bytesOf] using hcut, ?_⟩
      rw [List.take_append_of_le_length hcut.le, decodeRequests, hdecode]
      rfl
    · rw [List.length_append] at hk
      rw [List.length_cons] at hrounds
      obtain ⟨j, n, hwhole, hnext, hloop⟩ := ih (fun g hg => hfs g (List.mem_cons_of_mem _ hg))
        (show k - (frame f.1 f.2).length ≤ (bytesOf fs).length by omega)
          (show fs.length < rounds by omega)
      refine ⟨j + 1, n, ?_, fun hj => ?_, ?_⟩
      · rw [List.take_succ_cons, bytesOf_cons, List.length_append]
        omega
      · rw [List.length_cons] at hj
        have hlt := hnext (by omega)
        rw [List.take_succ_cons, bytesOf_cons, List.length_append]
        omega
      · have hclean : (norm f.1).metadata.or newMessage.metadata = (norm f.1).metadata :=
          Option.or_none
        rw [List.take_append, List.take_of_length_le (not_lt.mp hcut), decodeRequests,
          decode_frame ho hfit.body hfit.2, hclean]
        simp only [hloop, List.take_succ_cons, List.map_cons]

/-- Two messages, and the stream breaks off behind the header of the second one: this looks as if it
had ended. -/
theorem cut_stream_header :
    decodeRequests 0 3 ⟨(bytesOf [(newMessage, ∅), (newMessage, ∅)]).take 44, .eof⟩ =
        .ok ([norm newMessage], some .eof) ∧
      ∃ j n, (bytesOf ([(newMessage, ∅), (newMessage, ∅)].take j)).length + n = 44 ∧
        (j < 2 → 44 < (bytesOf ([(newMessage, ∅), (newMessage, ∅)].take (j + 1))).length) ∧
        decodeRequests 0 3 ⟨(bytesOf [(newMessage, ∅), (newMessage, ∅)]).take 44, .eof⟩ =
          .ok (([(newMessage, ∅), (newMessage, ∅)].take j).map fun f : Sent => norm f.1,
            some (cutError .eof n)) := by
  have hfits : ∀ f ∈ [((newMessage, ∅) : Sent), (newMessage, ∅)],
      f.2.toFinmap = f.1.meta0 ∧ Fits 0 f.1 f.2 := by
    intro f hf
    simp only [List.mem_cons, List.not_mem_nil, or_false, or_self] at hf
    subst hf
    exact ⟨rfl, by decide, by decide⟩
  exact ⟨rfl, cut_stream hfits (by decide) .eof (by decide)⟩

end Frpc.Protocol.Cuts
