import Frpc.Lib.Runs
import Frpc.Lib.Tables
import Frpc.Protocol.RoundTrip

/-! # The pool of messages

`protocol/pool.go`: `GetMsgs` takes a message from the pool or makes a new one, `FreeMsg` resets a
message and puts it back. Between the two its holder may do anything with it: set header fields,
write the other fields, decode a frame of a peer into it, copy it. `Reset` leaves the first byte of
the header alone and `Decode` overwrites it with a byte of the peer, so a message of the pool is
clean up to that byte (`Clean`), and entirely clean if all frames start with the magic number
(`getMsgs_clean`).

`sync.Pool` may drop a message that it holds; that is a message which `GetMsgs` does not return any
more, so there is no step for it. -/

namespace Frpc.Protocol.Pool

open Frpc.Basic Frpc.Lib.Runs Frpc.Lib.Slices Frpc.Lib.Tables Frpc.Protocol.Headers
open Frpc.Protocol.Messages Frpc.Protocol.Wire Frpc.Protocol.RoundTrip

/-- A `*Message`. -/
abbrev MsgId := ℕ

/-- The messages that were made, and those of them that are in `msgPool`. -/
structure State where
  heap : MsgId → Option Message
  msgPool : List MsgId

/-- A write to a field: one of the setters of the header, or an assignment. -/
inductive Write where
  | version (v : UInt8)
  | messageType (mt : MessageType)
  | heartbeat (hb : Bool)
  | oneway (oneway : Bool)
  | compressType (ct : CompressType)
  | messageStatusType (mt : MessageStatusType)
  | serializeType (st : SerializeType)
  | seq (seq : UInt64)
  | servicePath (p : Bytes)
  | serviceMethod (m : Bytes)
  | metadata (md : Option Metadata)
  | payload (data : Bytes)

/-- The steps of those who use the pool. -/
inductive Label where
  /-- `GetMsgs` returns `id`. -/
  | get (id : MsgId)
  /-- The holder of `id` writes to a field. -/
  | write (id : MsgId) (w : Write)
  /-- The holder of `id` decodes a frame into it. -/
  | decode (id : MsgId) (maxMessageLength : ℤ) (reader : Reader)
  /-- The holder of `id` copies it, into `c`. -/
  | copy (id c : MsgId)
  /-- `FreeMsg` -/
  | free (id : MsgId)

/-- Write to a field. -/
def Write.apply (m : Message) : Write → Message
  | .version v => { m with header := m.header.setVersion v }
  | .messageType mt => { m with header := m.header.setMessageType mt }
  | .heartbeat hb => { m with header := m.header.setHeartbeat hb }
  | .oneway b => { m with header := m.header.setOneway b }
  | .compressType ct => { m with header := m.header.setCompressType ct }
  | .messageStatusType mt => { m with header := m.header.setMessageStatusType mt }
  | .serializeType st => { m with header := m.header.setSerializeType st }
  | .seq q => { m with header := m.header.setSeq q }
  | .servicePath p => { m with servicePath := p }
  | .serviceMethod p => { m with serviceMethod := p }
  | .metadata md => { m with metadata := md }
  | .payload data => { m with payload := data }

/-- What `Decode` leaves in the message. After a panic the header is that of the frame; the message
is then out of everybody's reach, so its other fields do not matter. -/
def decoded (m : Message) (maxMessageLength : ℤ) (reader : Reader) : Message :=
  match m.decode maxMessageLength reader with
  | .ok (m', _, _) => m'
  | .error _ => (m.readFrame maxMessageLength reader).1

/-- `GetMsgs`, if it returns `id`: a message of the pool, or a new one. -/
def getMsgs (s : State) (id : MsgId) : Option State :=
  if id ∈ s.msgPool then some { s with msgPool := s.msgPool.erase id }
  else if (s.heap id).isNone then some
    { s with heap := Function.update s.heap id (some newMessage) }
  else none

/-- Change a message that somebody holds. -/
def modify (s : State) (id : MsgId) (g : Message → Message) : Option State :=
  if id ∈ s.msgPool then none
  else (s.heap id).map fun m => { s with heap := Function.update s.heap id (some (g m)) }

/-- `FreeMsg` -/
def freeMsg (s : State) (id : MsgId) : Option State :=
  (modify s id Message.reset).map fun t => { t with msgPool := id :: t.msgPool }

/-- `Message.Copy` -/
def copyMsg (s : State) (id c : MsgId) : Option State :=
  if id ∈ s.msgPool then none
  else (s.heap id).bind fun m => (getMsgs s c).bind fun t => modify t c m.copy

/-- One step. -/
def step (s : State) : Label → Option State
  | .get id => getMsgs s id
  | .write id w => modify s id (Write.apply · w)
  | .decode id maxMessageLength reader => modify s id (decoded · maxMessageLength reader)
  | .copy id c => copyMsg s id c
  | .free id => freeMsg s id

/-- No message was made yet. -/
def init : State := ⟨fun _ => none, []⟩

/-! ### The first byte of the header -/

theorem set_get_zero (h : Header) {i : ℕ} (hi : 0 < i) (hi' : i < 12) (v : UInt8) :
    (h.set i v).get 0 = h.get 0 := by
  rw [Header.get_set h hi', if_neg (by omega)]

theorem write_get_zero (m : Message) (w : Write) : (w.apply m).header.get 0 = m.header.get 0 := by
  cases w with
  | version v => exact set_get_zero m.header (i := 1) (by omega) (by omega) v
  | serializeType st => exact set_get_zero m.header (i := 3) (by omega) (by omega) _
  | seq q => exact Header.get_setSeq m.header q (by omega)
  | servicePath => rfl
  | serviceMethod => rfl
  | metadata => rfl
  | payload => rfl
  | heartbeat hb => cases hb <;> exact set_get_zero m.header (i := 2) (by omega) (by omega) _
  | oneway b => cases b <;> exact set_get_zero m.header (i := 2) (by omega) (by omega) _
  | _ => exact set_get_zero m.header (i := 2) (by omega) (by omega) _

theorem readFrame_get_zero (m : Message) (maxLen : ℤ) (r : Reader) :
    (m.readFrame maxLen r).1.header.get 0 = r.data.head?.getD (m.header.get 0) := by
  have hbyte : (r.readFull m.header.bytes).1.getD 0 0 =
      r.data.head?.getD (m.header.bytes.getD 0 0) := by
    have hlen := m.header.length_bytes
    simp only [Reader.readFull]
    cases r.data with
    | nil => simp
    | cons b d => simp [hlen]
  unfold Message.readFrame
  dsimp only
  split
  · exact hbyte
  · split
    · exact hbyte
    · split_ifs
      · exact hbyte
      · split <;> exact hbyte

theorem parseBody_header {m m' : Message} {data : Slice UInt8} {err : Option Error}
    (h : m.parseBody data = .ok (m', err)) : m'.header = m.header := by
  rw [parseBody_eq] at h
  cases hp : newMessage.parseBody data with
  | error f =>
    rw [hp] at h
    cases h
  | ok x =>
    rw [hp] at h
    cases h
    rfl

/-- `Decode` writes the first byte of the frame over that of the message. -/
theorem decoded_get_zero (m : Message) (maxLen : ℤ) (r : Reader) :
    (decoded m maxLen r).header.get 0 = r.data.head?.getD (m.header.get 0) := by
  have hframe := readFrame_get_zero m maxLen r
  unfold decoded Message.decode
  rcases hf : m.readFrame maxLen r with ⟨m', r', e | body⟩
  · rw [hf] at hframe
    exact hframe
  · rw [hf] at hframe
    dsimp only at hframe ⊢
    cases hp : m'.parseBody (.ofList body) with
    | error f => exact hframe
    | ok x =>
      obtain ⟨m'', err⟩ := x
      show m''.header.get 0 = _
      rw [parseBody_header hp]
      exact hframe

/-! ### One step -/

variable {s t : State} {id : MsgId} {l : Label}

theorem getMsgs_eq_some : getMsgs s id = some t ↔
    (id ∈ s.msgPool ∧ t = { s with msgPool := s.msgPool.erase id }) ∨
      (id ∉ s.msgPool ∧ s.heap id = none ∧
        t = { s with heap := Function.update s.heap id (some newMessage) }) := by
  unfold getMsgs
  by_cases hp : id ∈ s.msgPool
  · simp [hp, eq_comm]
  · cases hm : s.heap id with
    | none => simp [hp, eq_comm]
    | some m => simp [hp]

theorem modify_eq_some {g : Message → Message} : modify s id g = some t ↔
    id ∉ s.msgPool ∧ ∃ m, s.heap id = some m ∧
      t = { s with heap := Function.update s.heap id (some (g m)) } := by
  unfold modify
  by_cases hp : id ∈ s.msgPool
  · simp [hp]
  · simp [hp, eq_comm]

theorem freeMsg_eq_some : freeMsg s id = some t ↔
    id ∉ s.msgPool ∧ ∃ m, s.heap id = some m ∧
      t = ⟨Function.update s.heap id (some m.reset), id :: s.msgPool⟩ := by
  unfold freeMsg
  rw [Option.map_eq_some_iff]
  constructor
  · rintro ⟨u, hu, rfl⟩
    obtain ⟨hp, m, hm, rfl⟩ := modify_eq_some.mp hu
    exact ⟨hp, m, hm, rfl⟩
  · rintro ⟨hp, m, hm, rfl⟩
    exact ⟨_, modify_eq_some.mpr ⟨hp, m, hm, rfl⟩, rfl⟩

theorem copyMsg_eq_some {c : MsgId} : copyMsg s id c = some t ↔
    id ∉ s.msgPool ∧ ∃ m u, s.heap id = some m ∧ getMsgs s c = some u ∧
      modify u c m.copy = some t := by
  unfold copyMsg
  by_cases hp : id ∈ s.msgPool
  · simp [hp]
  · simp [hp, Option.bind_eq_some_iff]

/-- Every message of the pool is there once, and is as `Reset` leaves it. -/
structure Clean (s : State) : Prop where
  nodup : s.msgPool.Nodup
  pooled : ∀ {id}, id ∈ s.msgPool → ∃ b, s.heap id = some (pooled b)

theorem Clean.init : Clean init := ⟨List.nodup_nil, fun h => by cases h⟩

theorem Clean.update {m : Message} (hc : Clean s) (hid : id ∉ s.msgPool) :
    Clean { s with heap := Function.update s.heap id (some m) } := by
  refine ⟨hc.nodup, fun {j} hj => ?_⟩
  have hne : j ≠ id := by
    rintro rfl
    exact hid hj
  obtain ⟨b, hb⟩ := hc.pooled hj
  exact ⟨b, update_eq_some.mpr (Or.inr ⟨hne, hb⟩)⟩

/-- Whoever writes to a message has taken it out of the pool. -/
theorem Clean.modify {g : Message → Message} (hc : Clean s) (h : modify s id g = some t) :
    Clean t := by
  obtain ⟨hp, m, -, rfl⟩ := modify_eq_some.mp h
  exact hc.update hp

/-- **`GetMsgs` returns a message that is clean up to its first byte**, and takes it out of the
pool. -/
theorem Clean.getMsgs (hc : Clean s) (h : getMsgs s id = some t) :
    Clean t ∧ id ∉ t.msgPool ∧ ∃ b, t.heap id = some (Messages.pooled b) := by
  rcases getMsgs_eq_some.mp h with ⟨hp, rfl⟩ | ⟨hp, hm, rfl⟩
  · exact ⟨⟨hc.nodup.erase id, fun hj => hc.pooled (List.mem_of_mem_erase hj)⟩,
      hc.nodup.not_mem_erase, hc.pooled hp⟩
  · exact ⟨hc.update hp, hp, magicNumber, Function.update_self ..⟩

theorem Clean.freeMsg (hc : Clean s) (h : freeMsg s id = some t) : Clean t := by
  obtain ⟨hp, m, hm, rfl⟩ := freeMsg_eq_some.mp h
  refine ⟨List.nodup_cons.mpr ⟨hp, hc.nodup⟩, fun {j} hj => ?_⟩
  by_cases hji : j = id
  · exact ⟨_, update_eq_some.mpr (Or.inl ⟨hji, (reset_eq_pooled m).symm⟩)⟩
  · obtain ⟨b, hb⟩ := hc.pooled ((List.mem_cons.mp hj).resolve_left hji)
    exact ⟨b, update_eq_some.mpr (Or.inr ⟨hji, hb⟩)⟩

theorem Clean.step (hc : Clean s) (h : step s l = some t) : Clean t := by
  cases l with
  | get id => exact (hc.getMsgs h).1
  | write id w => exact hc.modify h
  | decode id maxLen r => exact hc.modify h
  | copy id c =>
    obtain ⟨-, m, u, -, hu, ht⟩ := copyMsg_eq_some.mp h
    exact (hc.getMsgs hu).1.modify ht
  | free id => exact hc.freeMsg h

/-! ### Every run -/

theorem clean_of_reach {ok : State → Label → Prop} (h : Reach step ok init s) : Clean s :=
  h.invariant (P := Clean) .init fun _ hc _ hs => hc.step hs

/-- Every frame that is decoded starts with the magic number. -/
def MagicFrames (_ : State) : Label → Prop
  | .decode _ _ reader => ∀ b ∈ reader.data.head?, b = magicNumber
  | _ => True

/-- Every message starts with the magic number. -/
def Magic (s : State) : Prop := ∀ id m, s.heap id = some m → m.header.get 0 = magicNumber

theorem Magic.update {m : Message} (hm : Magic s) (h0 : m.header.get 0 = magicNumber) :
    Magic { s with heap := Function.update s.heap id (some m) } := by
  intro j m' hj
  obtain ⟨-, rfl⟩ | ⟨-, hj⟩ := update_eq_some.mp hj
  · exact h0
  · exact hm j m' hj

theorem Magic.modify {g : Message → Message} (hm : Magic s)
    (hg : ∀ m, m.header.get 0 = magicNumber → (g m).header.get 0 = magicNumber)
    (h : modify s id g = some t) : Magic t := by
  obtain ⟨-, m, hid, rfl⟩ := modify_eq_some.mp h
  exact hm.update (hg m (hm id m hid))

theorem Magic.getMsgs (hm : Magic s) (h : getMsgs s id = some t) : Magic t := by
  rcases getMsgs_eq_some.mp h with ⟨-, rfl⟩ | ⟨-, -, rfl⟩
  · exact hm
  · exact hm.update rfl

theorem Magic.step (hm : Magic s) (hok : MagicFrames s l) (h : step s l = some t) : Magic t := by
  cases l with
  | get id => exact hm.getMsgs h
  | write id w => exact hm.modify (fun m h0 => by rw [write_get_zero, h0]) h
  | decode id maxLen r =>
    refine hm.modify (fun m h0 => ?_) h
    rw [decoded_get_zero, h0]
    cases hd : r.data.head? with
    | none => rfl
    | some b => exact hok b hd
  | copy id c =>
    obtain ⟨-, m, u, hid, hu, ht⟩ := copyMsg_eq_some.mp h
    exact (hm.getMsgs hu).modify (g := m.copy) (fun _ _ => hm id m hid) ht
  | free id =>
    obtain ⟨u, hu, rfl⟩ := Option.map_eq_some_iff.mp h
    have hu' : Magic u := hm.modify (fun m h0 => by rw [reset_eq_pooled, h0]; rfl) hu
    exact hu'

theorem magic_of_reach (h : Reach step MagicFrames init s) : Magic s :=
  h.invariant (P := Magic) (fun _ _ hm => by cases hm) fun _ hm hok hs => hm.step hok hs

/-- **Messages of the pool are clean**, in every run whose frames start with the magic number: a
message that `GetMsgs` returns has the magic number in its first header byte, zeros in the others,
and nothing in its other fields. -/
theorem getMsgs_clean (h : Reach step MagicFrames init s) (hget : getMsgs s id = some t) :
    ∃ m, t.heap id = some m ∧ m.header.bytes = magicNumber :: List.replicate 11 0 ∧
      m.servicePath = [] ∧ m.serviceMethod = [] ∧ m.payload = [] ∧ m.metadata = none := by
  obtain ⟨-, -, b, hb⟩ := (clean_of_reach h).getMsgs hget
  have hmagic : b = magicNumber := (magic_of_reach h).getMsgs hget id _ hb
  subst hmagic
  exact ⟨_, hb, rfl, rfl, rfl, rfl, rfl⟩

/-- A message into which a frame was decoded, after it was freed. -/
theorem getMsgs_clean_decoded :
    ∃ s t m, Reach step MagicFrames init s ∧ s.msgPool = [0] ∧ getMsgs s 0 = some t ∧
      t.heap 0 = some m ∧ m.header.bytes = magicNumber :: List.replicate 11 0 := by
  have hrun : Reach step MagicFrames init _ :=
    .tail (.tail (.tail .refl
      trivial rfl (l := .get 0))
      (by rintro b ⟨⟩; rfl) rfl (l := .decode 0 0 ⟨frame newMessage ∅, .eof⟩))
      trivial rfl (l := .free 0)
  obtain ⟨m, hm, hbytes, -⟩ := getMsgs_clean hrun (show getMsgs _ 0 = some _ from rfl)
  exact ⟨_, _, m, hrun, rfl, rfl, hm, hbytes⟩

/-- A message into which a frame that starts with 9 was decoded keeps the 9. -/
theorem getMsgs_dirty :
    ∃ s t m, Reach step Any init s ∧ getMsgs s 0 = some t ∧ t.heap 0 = some m ∧
      m.header.bytes = 9 :: List.replicate 11 0 ∧ m.header.get 0 ≠ magicNumber := by
  have hm : (decoded newMessage 0 ⟨frame (pooled 9) ∅, .eof⟩).reset = pooled 9 := by
    rw [reset_eq_pooled, decoded_get_zero]
    rfl
  refine ⟨_, _, _, reach_of_exec [.get 0, .decode 0 0 ⟨frame (pooled 9) ∅, .eof⟩, .free 0] rfl,
    rfl, rfl, ?_⟩
  rw [hm]
  exact ⟨rfl, by decide⟩

end Frpc.Protocol.Pool
