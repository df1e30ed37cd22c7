import Frpc.Client.Completion
import Frpc.Client.Correlation

/-! # Calls that only a response completes

On a connection that nobody closes, with calls that are not cancelled, writes that do not fail and
requests that are not one-way (`Quiet`), a call whose arguments can be encoded is left alone until
its response is handled or the reader returns. So a call that was answered is what the `switch` of
`handleResponse` makes of the call as `Go` built it and of that one response
(`settled_of_reach`). -/

namespace Frpc.Client.Answers

open Frpc.Codecs Frpc.Lib.Runs Frpc.Protocol.Messages
open Frpc.Client.Machine Frpc.Client.Steps Frpc.Client.Custody Frpc.Client.Responses
open Frpc.Client.Correlation

variable {V : Type} {env : Env V} {opt : ClientOption} {s s' : State V} {l : Label V}

/-- The steps of such a connection. What follows a failed write, the one-way branch and the cancel
branch are excluded with the steps that lead there. -/
def Quiet : Label V → Prop
  | .act _ (.prepare _) => True
  | .act _ (.write _) => True
  | .act _ (.free oneway) => oneway = false
  | .act _ .receive => True
  | .act _ _ => False
  | .close => False
  | .connClose => False
  | .closeClient => False
  | _ => True

/-! ### The request of a call -/

/-- Two calls that ask for the same. -/
structure SameRequest (call call₀ : Call V) : Prop where
  servicePath : call.servicePath = call₀.servicePath
  serviceMethod : call.serviceMethod = call₀.serviceMethod
  metadata : call.metadata = call₀.metadata
  args : call.args = call₀.args

theorem SameRequest.trans {call call' call'' : Call V} (h : SameRequest call call')
    (h' : SameRequest call' call'') : SameRequest call call'' :=
  ⟨h.servicePath.trans h'.servicePath, h.serviceMethod.trans h'.serviceMethod,
    h.metadata.trans h'.metadata, h.args.trans h'.args⟩

theorem decodePayload_request (m : Message) (call : Call V) :
    SameRequest (decodePayload env m call).1 call := by
  unfold decodePayload
  rcases unzipPayload_cases env m call with ⟨data, -, hu⟩ | ⟨err, t, -, hu⟩ <;> rw [hu] <;>
    cases codecs env m.header.serializeType <;> simp only [decodeReply] <;> (try split) <;>
    exact ⟨rfl, rfl, rfl, rfl⟩

theorem handleCall_request (m : Message) (call : Call V) :
    SameRequest (handleCall env m call).1 call := by
  have hp : SameRequest (decodePayload env m call).1 call := decodePayload_request m call
  unfold handleCall
  split_ifs
  · exact ⟨rfl, rfl, rfl, rfl⟩
  · exact ⟨rfl, rfl, rfl, rfl⟩
  · exact ⟨hp.servicePath, hp.serviceMethod, hp.metadata, hp.args⟩
  · exact ⟨rfl, rfl, rfl, rfl⟩

theorem request_of_reach {ok : State V → Label V → Prop} (h : Reach (step env opt) ok init s)
    {d : CallId} {f : Flight V} (hf : s.flights d = some f) : SameRequest f.call f.init := by
  refine h.invariant (P := fun s => ∀ {d f}, s.flights d = some f → SameRequest f.call f.init)
    ?_ ?_ hf
  · intro d f hf
    cases hf
  · intro t u l _ hi _ hs d f' hf'
    rcases flight_cases (effect_of_step hs) hf' with ⟨f, hf, hk | ⟨-, fr, -, rfl⟩⟩ | ⟨-, hmade⟩
    · rw [hk.call, hk.init]
      have h := hi hf
      exact ⟨h.servicePath, h.serviceMethod, h.metadata, h.args⟩
    · exact (handleCall_request t.res f.call).trans (hi hf)
    · obtain ⟨viaCall, ctx, p, m, args, reply, -, -, ⟨err, rfl⟩ | ⟨rfl, -⟩⟩ := hmade <;>
        exact ⟨rfl, rfl, rfl, rfl⟩

theorem SameRequest.fillRequest_eq {call call₀ : Call V} (h : SameRequest call call₀)
    (codec : Codec V) (q : UInt64) (req : Message) :
    fillRequest env opt codec call q req = fillRequest env opt codec call₀ q req := by
  unfold fillRequest
  rw [h.servicePath, h.serviceMethod, h.metadata, h.args]

/-! ### One step -/

/-- Only the goroutines of the call have moved; its caller may have received it. -/
def OnlyMoved (f f' : Flight V) : Prop :=
  f' = { f with send := f'.send, wait := f'.wait, ctx := f'.ctx } ∧
    (f'.wait = f.wait ∨ (f'.wait = .returned f.call.error ∧ f.delivered ≠ []))

/-- What a quiet step does to the call `d`. -/
inductive QuietMove (env : Env V) (opt : ClientOption) (s : State V) (l : Label V) (d : CallId)
    (f : Flight V) : Flight V → Prop
  | same : QuietMove env opt s l d f f
  | prepare {b : UInt8} {q : UInt64} {codec : Codec V} {req : Message} (hseq : f.seq = some q)
      (hcodec : codecs env opt.serializeType = some codec)
      (hreq : fillRequest env opt codec f.call q (pooled b) = .ok req) :
      QuietMove env opt s l d f (f.setSend (.ready req))
  | prepareFail {b : UInt8} {q : UInt64} {codec : Codec V} {err : Basic.Error}
      (hcodec : codecs env opt.serializeType = some codec)
      (hreq : fillRequest env opt codec f.call q (pooled b) = .error err) :
      QuietMove env opt s l d f ((f.fail err).setSend .finished)
  | write : QuietMove env opt s l d f (f.setSend .written)
  | free : QuietMove env opt s l d f (f.setSend .finished)
  | receive (hdel : f.delivered ≠ []) : QuietMove env opt s l d f f.received
  | respond {f' : Flight V} (hl : l = .respond) (hans : Answered env s d f f') :
      QuietMove env opt s l d f f'
  | exit {err : Basic.Error} (hl : l = .exit) (hpend : ∃ q, s.pending.lookup q = some d) :
      QuietMove env opt s l d f (f.fail err)

/-- A goroutine of one call moves, and this call changes or another one. -/
theorem QuietMove.of_modifyCall {c d : CallId} {f f' : Flight V} {g : Flight V → Flight V}
    (hf : s.flights d = some f) (hf' : modifyCall s.flights c g d = some f')
    (hg : d = c → QuietMove env opt s l d f (g f)) : QuietMove env opt s l d f f' := by
  rw [modifyCall_apply, hf] at hf'
  split_ifs at hf' with hd
  · cases hf'
    exact hg hd
  · cases hf'
    exact .same

/-- **Inversion of a quiet step**, for one call. -/
theorem quietMove_of_effect (hc : (ledger s).Custody) (h : Effect env opt s l s') (hq : Quiet l)
    {d : CallId} {f f' : Flight V} (hf : s.flights d = some f) (hf' : s'.flights d = some f') :
    QuietMove env opt s l d f f' := by
  have hsame : s'.flights d = s.flights d → QuietMove env opt s l d f f' := by
    intro heq
    cases hf'.symm.trans (heq.trans hf)
    exact .same
  cases h with
  | refuse hnew => exact hsame (Function.update_of_ne (ne_of_new hf hnew) ..)
  | register hnew => exact hsame (Function.update_of_ne (ne_of_new hf hnew) ..)
  | @act c fc a _ hfc ha =>
    have hcall : d = c → fc = f := by
      rintro rfl
      cases hf.symm.trans hfc
      rfl
    cases ha with
    | prepare hpc hseq hcodec hreq =>
      refine .of_modifyCall hf hf' fun hd => ?_
      cases hcall hd
      exact .prepare hseq hcodec hreq
    | prepareFail hpc hseq hcodec hreq =>
      refine .of_modifyCall hf hf' fun hd => ?_
      cases hcall hd
      exact .prepareFail hcodec hreq
    | write => exact .of_modifyCall hf hf' fun _ => .write
    | free =>
      obtain rfl : _ = false := hq
      exact .of_modifyCall hf hf' fun _ => .free
    | receive hpc hwait hdel =>
      refine .of_modifyCall hf hf' fun hd => ?_
      cases hcall hd
      exact .receive hdel
    | _ => exact hq.elim
  | @respond c fc fr hpc hfc =>
    by_cases hd : d = c
    · subst hd
      cases hf.symm.trans hfc
      simp only [Function.update_self, Option.some.injEq] at hf'
      exact .respond rfl ⟨fr, hpc, hf'.symm⟩
    · exact hsame (Function.update_of_ne hd ..)
  | @exit err hpc =>
    change failAll s.flights (exitError s.closing err) s.pending d = some f' at hf'
    classical
    rw [failAll_apply _ _ _ hc.table_inj, hf] at hf'
    split_ifs at hf' with hpend
    · cases hf'
      exact .exit rfl hpend
    · cases hf'
      exact .same
  | close => exact hq.elim
  | connClose => exact hq.elim
  | closeClient => exact hq.elim
  | _ => exact hsame rfl

/-- What a quiet step does to a call: it moves its goroutines, or its arguments cannot be encoded,
or the reader completes it. -/
theorem quiet_cases (hc : (ledger s).Custody) (h : Effect env opt s l s') (hq : Quiet l)
    {d : CallId} {f f' : Flight V} (hf : s.flights d = some f) (hf' : s'.flights d = some f') :
    OnlyMoved f f' ∨
    (∃ codec q b err, codecs env opt.serializeType = some codec ∧
      fillRequest env opt codec f.call q (pooled b) = .error err) ∨
    (l = .exit ∧ ∃ q, s.pending.lookup q = some d) ∨ (l = .respond ∧ Answered env s d f f') := by
  cases quietMove_of_effect hc h hq hf hf' with
  | same | prepare | write | free => exact Or.inl ⟨rfl, Or.inl rfl⟩
  | receive hdel => exact Or.inl ⟨rfl, Or.inr ⟨rfl, hdel⟩⟩
  | prepareFail hcodec hreq => exact Or.inr (Or.inl ⟨_, _, _, _, hcodec, hreq⟩)
  | exit hl hpend => exact Or.inr (Or.inr (Or.inl ⟨hl, hpend⟩))
  | respond hl hans => exact Or.inr (Or.inr (Or.inr ⟨hl, hans⟩))

/-! ### Runs -/

/-- Where a call stands: unanswered and, unless the reader has returned, untouched; or answered by
one frame, completed once, and received by nobody but with its error. -/
def Settled (env : Env V) (s : State V) (f : Flight V) : Prop :=
  (f.frames = [] ∧
    (s.reader ≠ .returned → f.call = f.init ∧ f.delivered = [] ∧ ∀ e, f.wait ≠ .returned e)) ∨
    ∃ fr, f.frames = [fr] ∧ f.call = (handleCall env fr f.init).1 ∧ f.delivered = [f.call.error] ∧
      ∀ e, f.wait = .returned e → e = f.call.error

theorem Settled.moved {f f' : Flight V} (hs : Settled env s f) (hm : OnlyMoved f f')
    (hret : s'.reader ≠ .returned → s.reader ≠ .returned) : Settled env s' f' := by
  obtain ⟨heq, hwait⟩ := hm
  rw [heq]
  rcases hs with ⟨hnil, hfresh⟩ | ⟨fr, hfr, hcall, hdel, hrecv⟩
  · refine Or.inl ⟨hnil, fun hr => ?_⟩
    obtain ⟨hcall, hdel, hw⟩ := hfresh (hret hr)
    refine ⟨hcall, hdel, fun e he => ?_⟩
    rcases hwait with hwait | ⟨-, hne⟩
    · exact hw e (hwait.symm.trans he)
    · exact hne hdel
  · refine Or.inr ⟨fr, hfr, hcall, hdel, fun e he => ?_⟩
    rcases hwait with hwait | ⟨hwait, -⟩
    · exact hrecv e (hwait.symm.trans he)
    · cases hwait.symm.trans he
      rfl

theorem returned_stays (h : Effect env opt s l s') (hr : s.reader = .returned) :
    s'.reader = .returned := by
  cases h with
  | readCrash hpc => cases hr.symm.trans hpc
  | readErr hpc => cases hr.symm.trans hpc
  | readPush hpc => cases hr.symm.trans hpc
  | read hpc => cases hr.symm.trans hpc
  | respondNone hpc => cases hr.symm.trans hpc
  | respond hpc => cases hr.symm.trans hpc
  | exit => rfl
  | act _ ha => cases ha <;> exact hr
  | _ => exact hr

theorem settled_step (hi : ∀ {d f}, s.flights d = some f → f.seq ≠ none → Encodable env opt f.init →
      Settled env s f) (hreq : ∀ {d f}, s.flights d = some f → SameRequest f.call f.init)
    (hc : (ledger s).Custody) (hcor : Correlated env s) (h : Effect env opt s l s') (hq : Quiet l)
    {d : CallId} {f' : Flight V} (hf' : s'.flights d = some f') (hseq : f'.seq ≠ none)
    (henc : Encodable env opt f'.init) : Settled env s' f' := by
  rcases flight_cases h hf' with ⟨f, hf, hmv⟩ | ⟨-, hmade⟩
  · rw [hmv.seq] at hseq
    rw [hmv.init] at henc
    have hset := hi hf hseq henc
    rcases quiet_cases hc h hq hf hf' with hm | ⟨codec, q, b, err, hcodec, hfill⟩ | ⟨rfl, q, hpend⟩
      | ⟨-, hans⟩
    · exact hset.moved hm fun hr hr' => hr (returned_stays h hr')
    · obtain ⟨m, hok⟩ := fillRequest_of_encodable henc hcodec q (pooled b)
      rw [(hreq hf).fillRequest_eq, hok] at hfill
      cases hfill
    · rcases hset with ⟨hnil, -⟩ | ⟨fr, hfr, -⟩
      · rcases hmv with hk | ⟨hl, -⟩
        · refine Or.inl ⟨hk.frames.trans hnil, fun hr => ?_⟩
          cases h
          exact absurd rfl hr
        · cases hl
      · exact absurd ⟨q, hpend⟩ (hcor.answered hf (by rw [hfr]; simp)).1
    · obtain ⟨fr, hr, rfl⟩ := hans
      have hnil := hcor.frames_nil hr hf
      rcases hset with ⟨-, hfresh⟩ | ⟨fr', hfr', -⟩
      · obtain ⟨hcall, hdel, hw⟩ := hfresh (by rw [hr]; simp)
        refine Or.inr ⟨fr, ?_, ?_, ?_, fun e he => absurd he (hw e)⟩
        · show f.frames ++ [fr] = [fr]
          rw [hnil, List.nil_append]
        · show (handleCall env s.res f.call).1 = (handleCall env fr f.init).1
          rw [(hcor.reader hr).1, hcall]
        · show f.delivered ++ [(handleCall env s.res f.call).1.error] = _
          rw [hdel, List.nil_append]
          rfl
      · rw [hnil] at hfr'
        cases hfr'
  · obtain ⟨viaCall, ctx, p, m, args, reply, -, -, ⟨err, rfl⟩ | ⟨rfl, -⟩⟩ := hmade
    · exact absurd rfl hseq
    · refine Or.inl ⟨rfl, fun _ => ⟨rfl, rfl, fun e he => ?_⟩⟩
      cases viaCall <;> cases he

/-- **Calls and their answers.** In a run of quiet steps in which no response gets the metadata of
an earlier frame, a call that was given a number and can be encoded is untouched or answered
once. -/
theorem settled_of_reach (h : Reach (step env opt) (fun s l => NoLeak env s l ∧ Quiet l) init s)
    {d : CallId} {f : Flight V} (hf : s.flights d = some f) (hseq : f.seq ≠ none)
    (henc : Encodable env opt f.init) :
    Settled env s f := by
  refine h.invariant (P := fun s => ∀ {d f}, s.flights d = some f → f.seq ≠ none →
    Encodable env opt f.init → Settled env s f) ?_ ?_ hf hseq henc
  · intro d f hf
    cases hf
  · intro t u l hr hi hok hs d f
    exact settled_step hi (request_of_reach hr) (custody_of_reach hr.any)
      (correlated_of_reach (hr.mono fun _ _ h => h.1)) (effect_of_step hs) hok.2

end Frpc.Client.Answers
