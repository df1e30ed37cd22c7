import Frpc.Client.Steps
import Frpc.Protocol.RoundTrip

/-! # What a response writes into a call

The `switch` of `handleResponse` case by case: which data reach the codec, what becomes of the
reply, the response metadata and the error of the call. And the frame behind it: the message that
was decoded is the frame, up to metadata that were left in it (`read_eq`). -/

namespace Frpc.Client.Responses

open Frpc.Basic Frpc.Codecs Frpc.Protocol.Headers Frpc.Protocol.Messages Frpc.Protocol.RoundTrip
open Frpc.Client.Machine Frpc.Client.Steps

variable {V : Type} {env : Env V} {opt : ClientOption} {s s' : State V} {l : Label V}

/-- The payload of a response as the codec should see it; `none` if it cannot be unzipped. -/
def plainData (env : Env V) (m : Message) : Option Bytes :=
  if m.header.compressType = CompressType.gzip then (env.unzip m.payload).toOption
    else some m.payload

theorem decodeReply_snd (codec : Codec V) (data : Bytes) (call : Call V) :
    (decodeReply codec data call).2 = (codec.decode data call.reply).2 := by
  unfold decodeReply
  rcases codec.decode data call.reply with ⟨reply, _ | err⟩ <;> rfl

theorem decodeReply_error (codec : Codec V) (data : Bytes) (call : Call V) :
    (codec.decode data call.reply).2 = none ∧ (decodeReply codec data call).1.error = call.error ∨
      ∃ err, (decodeReply codec data call).1.error = some err := by
  unfold decodeReply
  rcases codec.decode data call.reply with ⟨reply, _ | err⟩
  · exact Or.inl ⟨rfl, rfl⟩
  · exact Or.inr ⟨_, rfl⟩

/-- `Unzip` gives the plain data and leaves the call alone, or it leaves an error in both places. -/
theorem unzipPayload_cases (env : Env V) (m : Message) (call : Call V) :
    (∃ data, plainData env m = some data ∧ unzipPayload env m call = (data, none, call)) ∨
      ∃ err text, plainData env m = none ∧
        unzipPayload env m call =
          ([], some err, { call with error := some (.serviceError text) }) := by
  unfold plainData unzipPayload
  split_ifs with hz
  · cases env.unzip m.payload with
    | ok data => exact Or.inl ⟨data, rfl, rfl⟩
    | error err => exact Or.inr ⟨err, _, rfl, rfl⟩
  · exact Or.inl ⟨_, rfl, rfl⟩

theorem decodeReply_reply (codec : Codec V) (data : Bytes) (call : Call V) :
    (decodeReply codec data call).1.reply = (codec.decode data call.reply).1 := by
  unfold decodeReply
  rcases codec.decode data call.reply with ⟨reply, _ | err⟩ <;> rfl

/-- The reply after a payload depends on the frame and on the reply before. -/
theorem decodePayload_reply (m : Message) {call call' : Call V} (h : call.reply = call'.reply) :
    (decodePayload env m call).1.reply = (decodePayload env m call').1.reply := by
  unfold decodePayload
  rcases unzipPayload_cases env m call with ⟨data, hp, hu⟩ | ⟨err, t, hp, hu⟩ <;>
    rcases unzipPayload_cases env m call' with ⟨data', hp', hu'⟩ | ⟨err', t', hp', hu'⟩ <;>
    rw [hp] at hp' <;> cases hp' <;> rw [hu, hu'] <;>
    cases codecs env m.header.serializeType <;> simp [decodeReply_reply, h]

theorem handleCall_reply (m : Message) {call call' : Call V} (h : call.reply = call'.reply) :
    (handleCall env m call).1.reply = (handleCall env m call').1.reply := by
  unfold handleCall
  split_ifs
  · exact h
  · exact h
  · exact decodePayload_reply m h
  · exact h

theorem handleCall_resMetadata (m : Message) (call : Call V) :
    (handleCall env m call).1.resMetadata = m.metadata := by
  unfold handleCall
  split_ifs <;> rfl

/-! ### The frame that was read -/

/-- A step after which the reader holds a frame: it held it before, or it has just read it. Then the
entry of its number is gone, and the message is the frame, with old metadata where it has none. -/
theorem holding_cases {t : Option CallId} {fr : Message} (h : Effect env opt s l s')
    (hr : s'.reader = .holding t fr) :
    (s.reader = .holding t fr ∧ s'.res = s.res) ∨
      ∃ err r, l = .read err ∧ newMessage.decode env.maxMessageLength ⟨s.inp, err⟩ =
        .ok (fr, r, none) ∧ isServerMessage fr = false ∧ s.pending.lookup fr.header.seq = t ∧
        s' = { s with
          res := { fr with metadata := fr.metadata.or s.res.metadata }
          inp := r.data
          pending := s.pending.erase fr.header.seq
          reader := .holding t fr } := by
  cases h with
  | @read err res r hpc hdec hpush =>
    obtain ⟨m₀, hnew, rfl⟩ := decode_reuse.mp hdec
    have hfr : decodeAlone env ⟨s.inp, err⟩ = m₀ := by rw [decodeAlone, hnew]
    rw [hfr] at hr ⊢
    injection hr with ht hm
    subst hm ht
    exact Or.inr ⟨err, r, rfl, hnew, hpush, rfl, rfl⟩
  | readCrash => cases hr
  | readErr => cases hr
  | readPush => cases hr
  | respondNone => cases hr
  | @respond d f fr' hpc hf =>
    simp only [ReaderPc.next] at hr
    split at hr <;> cases hr
  | exit => cases hr
  | act _ ha => cases ha <;> exact Or.inl ⟨hr, rfl⟩
  | _ => exact Or.inl ⟨hr, rfl⟩

theorem read_eq {err : Error} {t : Option CallId} {fr : Message}
    (h : step env opt s (.read err) = some s') (hr : s'.reader = .holding t fr) :
    ∃ r md, s' = { s with
      res := { fr with metadata := md }
      inp := r
      pending := s.pending.erase fr.header.seq
      reader := .holding t fr } := by
  rcases holding_cases (effect_of_step h) hr with ⟨hold, -⟩ | ⟨_, r, -, -, -, -, hs'⟩
  · exfalso
    cases effect_of_step h with
    | readCrash hpc => cases hold.symm.trans hpc
    | readErr hpc => cases hold.symm.trans hpc
    | readPush hpc => cases hold.symm.trans hpc
    | read hpc => cases hold.symm.trans hpc
  · exact ⟨r.data, _, hs'⟩

end Frpc.Client.Responses
