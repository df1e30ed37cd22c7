import Frpc.Client.Sequence
import Frpc.Client.Responses

/-! # What one call does to the others

Two places where the fate of one call can reach another. The cancel branch of `call` removes the
entry under its own variable `seq`, which `send` never fills, so it is always the entry of number
`0` (`cancel_isolated_iff`). And `handleResponse` keeps the errors of `Unzip` and of the codec in
the variable that its loop tests, so a payload that cannot be read may end the loop, and with it the
connection (`payload_isolated_iff`). -/

namespace Frpc.Client.Isolation

open Frpc.Basic Frpc.Codecs Frpc.Lib.Runs Frpc.Protocol.Headers Frpc.Protocol.Messages
  Frpc.Protocol.Wire
open Frpc.Client.Machine Frpc.Client.Steps Frpc.Client.Custody Frpc.Client.Sequence
  Frpc.Client.Responses

variable {V : Type} {env : Env V} {opt : ClientOption} {s s' s₁ s₂ : State V}

/-! ### Cancellation -/

/-- The two steps of the cancel branch of `c`, from `s` over `s₁` to `s₂`, remove the entry of `c`
and no other, and leave every other call alone. -/
def CancelIsolated (s s₁ s₂ : State V) (c : CallId) : Prop :=
  (∀ q, s₁.pending.lookup q = if s.pending.lookup q = some c then none else s.pending.lookup q) ∧
    s₂.pending = s₁.pending ∧
    ∀ d, d ≠ c → errorOf s₂ d = errorOf s d ∧ deliveredTo s₂ d = deliveredTo s d

/-- The cancel branch removes the entry of number `0` and completes what it finds there. -/
theorem cancel_eq (h : Reach (step env opt) Any init s) {c : CallId} {err : Error}
    (h₁ : step env opt s (.act c (.cancel err)) = some s₁)
    (h₂ : step env opt s₁ (.act c .completeCancel) = some s₂) :
    s₁.pending = s.pending.erase 0 ∧ s₂.pending = s₁.pending ∧
      ∀ d, d ≠ c →
        s₂.flights d = modifyFound s.flights (s.pending.lookup 0) (Flight.fail err) d := by
  cases effect_of_step h₁ with
  | @act _ f _ _ hf ha =>
    cases ha with
    | cancel hpc hwait =>
      rw [(numbered_of_reach h).cell_zero hf] at h₂ ⊢
      cases effect_of_step h₂ with
      | @act _ f₁ _ _ hf₁ ha₁ =>
        cases ha₁ with
        | completeCancel hwait₁ =>
          -- what the second step completes is what the first one found
          have hfc : modifyCall s.flights c (·.setWait (.cancelled (s.pending.lookup 0) err)) c =
              some (f.setWait (.cancelled (s.pending.lookup 0) err)) := by
            simp [modifyCall_apply, hf]
          cases hfc.symm.trans hf₁
          cases hwait₁
          refine ⟨rfl, rfl, fun d hd => ?_⟩
          simp [modifyCall_apply, modifyFound_apply, hd]

/-- **Cancellation.** In every reachable state, the cancel branch of `c` leaves the other calls
alone exactly if number `0` is not the number of another pending call, and `c` is not pending under
another number. -/
theorem cancel_isolated_iff (h : Reach (step env opt) Any init s) {c : CallId} {err : Error}
    (h₁ : step env opt s (.act c (.cancel err)) = some s₁)
    (h₂ : step env opt s₁ (.act c .completeCancel) = some s₂) :
    CancelIsolated s s₁ s₂ c ↔ ∀ q d, s.pending.lookup q = some d → (q = 0 ↔ d = c) := by
  obtain ⟨hp₁, hp₂, hfl⟩ := cancel_eq h h₁ h₂
  constructor
  · rintro ⟨hpend, -, -⟩ q d hq
    have hqq := hpend q
    rw [hp₁, hq] at hqq
    constructor
    · rintro rfl
      rw [AList.lookup_erase] at hqq
      by_contra hdc
      simp [hdc] at hqq
    · rintro rfl
      by_contra hq0
      rw [AList.lookup_erase_ne hq0, hq] at hqq
      simp at hqq
  · intro hcond
    refine ⟨fun q => ?_, hp₂, fun d hd => ?_⟩
    · rw [hp₁]
      by_cases hq0 : q = 0
      · subst hq0
        rw [AList.lookup_erase]
        cases hq : s.pending.lookup 0 with
        | none => simp
        | some d => simp [(hcond 0 d hq).mp rfl]
      · rw [AList.lookup_erase_ne hq0, if_neg]
        exact fun hqc => hq0 ((hcond q c hqc).mpr rfl)
    · have hnot : s.pending.lookup 0 ≠ some d := fun hq => hd ((hcond 0 d hq).mp rfl)
      have hsame : s₂.flights d = s.flights d := by
        rw [hfl d hd, modifyFound_apply, if_neg hnot]
      exact ⟨by rw [errorOf, errorOf, hsame], by rw [deliveredTo, deliveredTo, hsame]⟩

/-- The labels of a call that was written and waits for its response. -/
def writtenCall (c : CallId) : List (Label (Option Bytes)) :=
  [sendCall c (some [97]), .act c (.prepare magicNumber), .act c (.write ∅), .act c (.free false)]

/-- With two calls on the connection, cancelling the one with the number 0 is harmless to the
other. -/
theorem cancel_isolated_two :
    ∃ s s₁ s₂, Reach (step quoteEnv jsonOption) Any init s ∧ s.pending.lookup 1 = some 1 ∧
      step quoteEnv jsonOption s (.act 0 (.cancel (.other (str "context canceled")))) = some s₁ ∧
      step quoteEnv jsonOption s₁ (.act 0 .completeCancel) = some s₂ ∧
        CancelIsolated s s₁ s₂ 0 := by
  have hrun : Reach (step quoteEnv jsonOption) Any init _ :=
    reach_of_exec (writtenCall 0 ++ writtenCall 1) rfl
  refine ⟨_, _, _, hrun, rfl, rfl, rfl, (cancel_isolated_iff hrun rfl rfl).mpr ?_⟩
  intro q d hq
  change AList.lookup q (AList.insert 1 1 (AList.insert 0 0 ∅) : AList fun _ : UInt64 => CallId) =
    some d at hq
  rcases Lib.Tables.lookup_insert_eq_some.mp hq with ⟨rfl, rfl⟩ | ⟨-, hq⟩
  · decide
  · rcases Lib.Tables.lookup_insert_eq_some.mp hq with ⟨rfl, rfl⟩ | ⟨-, hq⟩
    · decide
    · cases hq

/-- With two calls on the connection, cancelling the second one removes and completes the first. -/
theorem cancel_hits_other :
    ∃ s s₁ s₂ f, Reach (step quoteEnv jsonOption) Any init s ∧
      step quoteEnv jsonOption s (.act 1 (.cancel (.other (str "context canceled")))) = some s₁ ∧
      step quoteEnv jsonOption s₁ (.act 1 .completeCancel) = some s₂ ∧
      s.pending.lookup 0 = some 0 ∧ deliveredTo s 0 = [] ∧
      s₂.pending.lookup 0 = none ∧ s₂.pending.lookup 1 = some 1 ∧ s₂.flights 0 = some f ∧
      f.call.error = some (.other (str "context canceled")) ∧
      f.delivered = [some (.other (str "context canceled"))] :=
  ⟨_, _, _, _, reach_of_exec (writtenCall 0 ++ writtenCall 1) rfl, rfl, rfl, rfl, rfl, rfl, rfl,
    rfl, rfl, rfl⟩

/-! ### Payloads -/

/-- The response carries a payload that cannot be unzipped, has an unsupported serialize type, or is
rejected by the codec. -/
def BadPayload (env : Env V) (m : Message) (reply : V) : Prop :=
  m.header.messageStatusType ≠ MessageStatusType.error ∧ m.header.isHeartbeat = false ∧
    m.payload ≠ [] ∧ (plainData env m = none ∨ codecs env m.header.serializeType = none ∨
      ∃ codec data, codecs env m.header.serializeType = some codec ∧ plainData env m = some data ∧
        (codec.decode data reply).2 ≠ none)

/-- The last error that is assigned is `nil`: the type is unsupported and there is nothing to unzip,
or the codec accepts the data, which are empty after a failed `Unzip`. -/
def Survives (env : Env V) (m : Message) (reply : V) : Prop :=
  match codecs env m.header.serializeType with
  | none => plainData env m ≠ none
  | some codec => (codec.decode ((plainData env m).getD []) reply).2 = none

/-- A response for `c`, read in the state `s` under the number `q` and processed up to `s₂`,
completes `c` with an error and nothing else, and the reader goes on. -/
def ResponseIsolated (s s₂ : State V) (c : CallId) (q : UInt64) : Prop :=
  (∃ f f' err, s.flights c = some f ∧ s₂.flights c = some f' ∧ f'.call.error = some err ∧
    f'.delivered = f.delivered ++ [some err]) ∧
  (∀ d, d ≠ c → s₂.flights d = s.flights d) ∧
    (∀ q', q' ≠ q → s₂.pending.lookup q' = s.pending.lookup q') ∧
  s₂.shutdown = s.shutdown ∧ s₂.reader = .loop

section Payload

variable {m : Message} {call : Call V}

theorem decodePayload_snd : (decodePayload env m call).2 = none ↔ Survives env m call.reply := by
  unfold decodePayload Survives
  rcases unzipPayload_cases env m call with ⟨data, hp, hu⟩ | ⟨err, t, hp, hu⟩ <;>
    cases codecs env m.header.serializeType <;> simp [hp, hu, decodeReply_snd]

/-- A payload that cannot be read leaves an error in the call. -/
theorem decodePayload_error (hbad : BadPayload env m call.reply) :
    ∃ err, (decodePayload env m call).1.error = some err := by
  obtain ⟨-, -, -, hbad⟩ := hbad
  unfold decodePayload
  rcases unzipPayload_cases env m call with ⟨data, hp, hu⟩ | ⟨err, t, hp, hu⟩
  · rw [hp] at hbad
    rw [hu]
    rcases hbad with hbad | hbad | ⟨codec, data', hc, hd, hrej⟩
    · cases hbad
    · simp only [hbad]
      exact ⟨_, rfl⟩
    · cases hd
      simp only [hc]
      rcases decodeReply_error codec data call with ⟨hok, -⟩ | herr
      · exact absurd hok hrej
      · exact herr
  · rw [hu]
    cases codecs env m.header.serializeType with
    | none => exact ⟨_, rfl⟩
    | some codec =>
      rcases decodeReply_error codec [] { call with error := some (.serviceError t) } with
        ⟨-, hsame⟩ | herr
      · exact ⟨_, hsame⟩
      · exact herr

theorem handleCall_bad (hbad : BadPayload env m call.reply) :
    handleCall env m call = ({ (decodePayload env m call).1 with resMetadata := m.metadata },
      (decodePayload env m call).2) := by
  obtain ⟨hstatus, hhb, hne, -⟩ := hbad
  have hlen : m.payload.length > 0 := List.length_pos_of_ne_nil hne
  simp only [handleCall, if_neg hstatus, hhb, Bool.false_eq_true, if_false, if_pos hlen]

end Payload

/-- **Payload errors.** A response whose payload cannot be read, for a call that is pending, fails
that call and nothing else, and the reader goes on, exactly if the last error `handleResponse`
assigns is `nil`. -/
theorem payload_isolated_iff {e : Error} {c : CallId} {fr : Message} {f : Flight V}
    (h₁ : step env opt s (.read e) = some s₁) (hpc : s₁.reader = .holding (some c) fr)
    (hf : s.flights c = some f) (hbad : BadPayload env fr f.call.reply)
    (h₂ : step env opt s₁ .respond = some s₂) :
    ResponseIsolated s s₂ c fr.header.seq ↔ Survives env fr f.call.reply := by
  obtain ⟨r, md, rfl⟩ := read_eq h₁ hpc
  cases effect_of_step h₂ with
  | respondNone hpc' ht =>
    injection hpc' with hc
    rw [ht c hc.symm] at hf
    cases hf
  | @respond d f' fr' hpc' hf' =>
    injection hpc' with hc hm
    cases hc
    cases hf.symm.trans hf'
    have hcall := handleCall_bad (m := { fr with metadata := md }) hbad
    constructor
    · rintro ⟨-, -, -, -, hloop⟩
      rw [hcall] at hloop
      refine (decodePayload_snd (m := { fr with metadata := md })).mp ?_
      cases hsnd : (decodePayload env { fr with metadata := md } f.call).2 with
      | none => rfl
      | some err =>
        rw [hsnd] at hloop
        cases hloop
    · intro hsurv
      have hsnd := (decodePayload_snd (m := { fr with metadata := md })).mpr hsurv
      obtain ⟨err, herr⟩ := decodePayload_error (m := { fr with metadata := md }) hbad
      rw [hcall]
      refine ⟨⟨f, _, err, hf, Function.update_self .., herr, ?_⟩, fun d hd => ?_,
        fun q hq => ?_, rfl, ?_⟩
      · show f.delivered ++ [_] = _
        rw [herr]
      · exact Function.update_of_ne hd ..
      · exact AList.lookup_erase_ne hq
      · rw [hsnd]
        rfl

/-- A response of the server to call `c`. -/
def responseTo (c : UInt64) (t : SerializeType) (payload : Bytes) : Message :=
  ⟨((Header.clean magicNumber).setMessageType MessageType.response |>.setSeq c).setSerializeType t,
    [65], [77], none, payload⟩

/-- A response with an unknown serialize type fails its own call, and leaves the other one alone. -/
theorem payload_isolated_unsupported :
    ∃ s s₁ s₂ f, Reach (step quoteEnv jsonOption) Any init s ∧ s.pending.lookup 1 = some 1 ∧
      step quoteEnv jsonOption s (.read .eof) = some s₁ ∧
        s₁.reader = .holding (some 0) (responseTo 0 9 [1]) ∧
      step quoteEnv jsonOption s₁ .respond = some s₂ ∧ s.flights 0 = some f ∧
      BadPayload quoteEnv (responseTo 0 9 [1]) f.call.reply ∧
      ResponseIsolated s s₂ 0 (responseTo 0 9 [1]).header.seq := by
  have hrun : Reach (step quoteEnv jsonOption) Any init _ :=
    reach_of_exec (writtenCall 0 ++ writtenCall 1 ++ [.net (frame (responseTo 0 9 [1]) ∅)]) rfl
  have hbad : BadPayload quoteEnv (responseTo 0 9 [1]) (some []) :=
    ⟨by decide, by decide, by decide, Or.inr (Or.inl rfl)⟩
  have hsurv : Survives quoteEnv (responseTo 0 9 [1]) (some []) := Option.some_ne_none [1]
  have hiso : ∀ {s s₁ s₂ f}, step quoteEnv jsonOption s (.read .eof) = some s₁ →
      s₁.reader = .holding (some 0) (responseTo 0 9 [1]) →
        step quoteEnv jsonOption s₁ .respond = some s₂ →
      s.flights 0 = some f → f.call.reply = some [] →
      ResponseIsolated s s₂ 0 (responseTo 0 9 [1]).header.seq :=
    fun h₁ hpc h₂ hf hr => (payload_isolated_iff h₁ hpc hf (hr ▸ hbad) h₂).mpr (hr ▸ hsurv)
  exact ⟨_, _, _, _, hrun, rfl, rfl, rfl, rfl, rfl, hbad, hiso rfl rfl rfl rfl rfl⟩

/-- A response that the codec rejects ends the loop, and the end of `handleResponse` fails the other
call with the error of the codec and shuts the connection down. -/
theorem payload_ends_reader :
    ∃ s s₁ s₂ s₃ f, Reach (step quoteEnv jsonOption) Any init s ∧
      s.pending.lookup 0 = some 0 ∧ deliveredTo s 0 = [] ∧ s.shutdown = false ∧
      step quoteEnv jsonOption s (.read .eof) = some s₁ ∧
      s₁.reader = .holding (some 1) (responseTo 1 SerializeType.json [1]) ∧
      step quoteEnv jsonOption s₁ .respond = some s₂ ∧ step quoteEnv jsonOption s₂ .exit = some s₃ ∧
      s₃.shutdown = true ∧ s₃.flights 0 = some f ∧
      f.delivered = [some (.other (str "invalid character looking for beginning of value"))] :=
  ⟨_, _, _, _, _, reach_of_exec (writtenCall 0 ++ writtenCall 1 ++
    [.net (frame (responseTo 1 SerializeType.json [1]) ∅)]) rfl, rfl, rfl, rfl, rfl, rfl, rfl,
      rfl, rfl, rfl,
    rfl⟩

end Frpc.Client.Isolation
