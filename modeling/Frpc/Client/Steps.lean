import Frpc.Client.Machine
import Frpc.Lib.Tables
import Frpc.Protocol.Wire

/-! # What a step of the connection can do

The step function of `Client/Machine.lean`, inverted once: `FlightEffect` lists what the goroutines
of a call do to the state, `Effect` what any goroutine does (`effect_of_step`). The proofs about
runs go through these cases and do not look into the step function. -/

namespace Frpc.Client.Steps

open Frpc.Basic Frpc.Codecs Frpc.Lib.Tables Frpc.Protocol.Messages Frpc.Protocol.Wire
open Frpc.Client.Machine

variable {V : Type} {env : Env V} {opt : ClientOption} {s s' : State V} {l : Label V}

/-! ### Calls -/

section Flight

variable (f : Flight V)

@[simp] theorem setSend_call (pc : SendPc) : (f.setSend pc).call = f.call := rfl
@[simp] theorem setSend_send (pc : SendPc) : (f.setSend pc).send = pc := rfl
@[simp] theorem setSend_wait (pc : SendPc) : (f.setSend pc).wait = f.wait := rfl
@[simp] theorem setSend_delivered (pc : SendPc) : (f.setSend pc).delivered = f.delivered := rfl
@[simp] theorem setWait_call (pc : WaitPc) : (f.setWait pc).call = f.call := rfl
@[simp] theorem setWait_send (pc : WaitPc) : (f.setWait pc).send = f.send := rfl
@[simp] theorem setWait_wait (pc : WaitPc) : (f.setWait pc).wait = pc := rfl
@[simp] theorem setWait_delivered (pc : WaitPc) : (f.setWait pc).delivered = f.delivered := rfl
@[simp] theorem fail_send (err : Error) : (f.fail err).send = f.send := rfl
@[simp] theorem fail_wait (err : Error) : (f.fail err).wait = f.wait := rfl
@[simp] theorem fail_error (err : Error) : (f.fail err).call.error = some err := rfl
@[simp] theorem fail_delivered (err : Error) : (f.fail err).delivered = f.delivered ++ [some err] :=
  rfl
@[simp] theorem received_call : f.received.call = f.call := rfl
@[simp] theorem received_send : f.received.send = f.send := rfl
@[simp] theorem received_wait : f.received.wait = .returned f.call.error := rfl
@[simp] theorem received_delivered : f.received.delivered = f.delivered := rfl

end Flight

section Modify

variable (fl : CallId → Option (Flight V)) (g : Flight V → Flight V)

theorem modifyCall_apply (c d : CallId) :
    modifyCall fl c g d = if d = c then (fl d).map g else fl d := by
  unfold modifyCall
  rw [Function.update_apply]
  split_ifs with h
  · rw [h]
  · rfl

theorem modifyFound_apply (t : Option CallId) (d : CallId) :
    modifyFound fl t g d = if t = some d then (fl d).map g else fl d := by
  cases t with
  | none => simp [modifyFound]
  | some c => simp only [modifyFound, modifyCall_apply, Option.some.injEq, eq_comm]

theorem foldl_fail_apply (err : Error) (d : CallId) :
    ∀ (es : List ((_ : UInt64) × CallId)) (fl : CallId → Option (Flight V)), (es.map (·.2)).Nodup →
      es.foldl (fun fl e => modifyCall fl e.2 (Flight.fail err)) fl d =
        if d ∈ es.map (·.2) then (fl d).map (Flight.fail err) else fl d
  | [], fl, _ => by simp
  | e :: es, fl, h => by
    rw [List.map_cons, List.nodup_cons] at h
    rw [List.foldl_cons, foldl_fail_apply err d es _ h.2, modifyCall_apply]
    by_cases hd : d = e.2
    · subst hd
      simp [h.1]
    · simp only [hd, if_false, List.map_cons, List.mem_cons, false_or]

theorem failAll_apply (err : Error) (pending : AList fun _ : UInt64 => CallId)
    (hinj : ∀ {q q' d}, pending.lookup q = some d → pending.lookup q' = some d → q = q')
    (d : CallId) [Decidable (∃ q, pending.lookup q = some d)] :
    failAll fl err pending d =
      if ∃ q, pending.lookup q = some d then (fl d).map (Flight.fail err) else fl d := by
  have hlook : ∀ e ∈ pending.entries, pending.lookup e.1 = some e.2 := fun e he =>
    AList.mem_lookup_iff.mpr he
  have hnodup : (pending.entries.map (·.2)).Nodup := by
    refine List.Nodup.map_on ?_ pending.nodupKeys.nodup
    intro x hx y hy hxy
    have hq := hinj (hlook x hx) (hxy ▸ hlook y hy)
    exact Sigma.ext hq (heq_of_eq hxy)
  rw [failAll, foldl_fail_apply err d _ _ hnodup]
  refine if_congr ?_ rfl rfl
  simp only [List.mem_map]
  constructor
  · rintro ⟨e, he, rfl⟩
    exact ⟨e.1, hlook e he⟩
  · rintro ⟨q, hq⟩
    exact ⟨⟨q, d⟩, AList.mem_lookup_iff.mp hq, rfl⟩

end Modify

/-! ### The goroutines of a call -/

/-- What the action `a` of the call `c`, which is in the state `f`, does. -/
inductive FlightEffect (env : Env V) (opt : ClientOption) (s : State V) (c : CallId)
    (f : Flight V) :
    Action → State V → Prop
  | prepare {b : UInt8} {q : UInt64} {codec : Codec V} {req : Message} (hpc : f.send = .registered)
      (hq : f.seq = some q) (hcodec : codecs env opt.serializeType = some codec)
      (hreq : fillRequest env opt codec f.call q (pooled b) = .ok req) :
      FlightEffect env opt s c f (.prepare b)
        { s with flights := modifyCall s.flights c (·.setSend (.ready req)) }
  | prepareFail {b : UInt8} {q : UInt64} {codec : Codec V} {err : Error}
      (hpc : f.send = .registered)
      (hq : f.seq = some q) (hcodec : codecs env opt.serializeType = some codec)
      (hreq : fillRequest env opt codec f.call q (pooled b) = .error err) :
      FlightEffect env opt s c f (.prepare b)
        { s with flights := modifyCall s.flights c fun f => (f.fail err).setSend .finished }
  | write {order : MetaOrder} {req : Message} (hpc : f.send = .ready req)
      (horder : order.toFinmap = req.meta0) (hopen : s.connClosed = false) :
      FlightEffect env opt s c f (.write order)
        { s with
          out := s.out ++ frame req order, flights := modifyCall s.flights c (·.setSend .written) }
  | writeErr {order : MetaOrder} {n : ℕ} {err : Error} {req : Message} (hpc : f.send = .ready req)
      (horder : order.toFinmap = req.meta0) :
      FlightEffect env opt s c f (.writeErr order n err)
        { s with
          out := s.out ++ (frame req order).take n
          flights := modifyCall s.flights c (·.setSend (.writeFailed err)) }
  | takeFailed {q : UInt64} {err : Error} (hpc : f.send = .writeFailed err) (hq : f.seq = some q) :
      FlightEffect env opt s c f .takeFailed
        { s with
          pending := s.pending.erase q
          flights := modifyCall s.flights c (·.setSend (.holdFailed (s.pending.lookup q) err)) }
  | completeFailed {t : Option CallId} {err : Error} (hpc : f.send = .holdFailed t err) :
      FlightEffect env opt s c f .completeFailed
        { s with
          flights := modifyCall (modifyFound s.flights t (Flight.fail err)) c (·.setSend .written) }
  | free {oneway : Bool} (hpc : f.send = .written) :
      FlightEffect env opt s c f (.free oneway)
        { s with
          flights := modifyCall s.flights c (·.setSend (if oneway then .oneway else .finished)) }
  | takeOneway {q : UInt64} (hpc : f.send = .oneway) (hq : f.seq = some q) :
      FlightEffect env opt s c f .takeOneway
        { s with
          pending := s.pending.erase q
          flights := modifyCall s.flights c (·.setSend (.holdOneway (s.pending.lookup q))) }
  | completeOneway {t : Option CallId} (hpc : f.send = .holdOneway t) :
      FlightEffect env opt s c f .completeOneway
        { s with
          flights := modifyCall (modifyFound s.flights t Flight.done) c (·.setSend .finished) }
  | cancel {err : Error} (hpc : f.send = .finished) (hwait : f.wait = .waiting) :
      FlightEffect env opt s c f (.cancel err)
        { s with
          pending := s.pending.erase f.cell
          flights := modifyCall s.flights c (·.setWait (.cancelled (s.pending.lookup f.cell) err)) }
  | completeCancel {t : Option CallId} {err : Error} (hwait : f.wait = .cancelled t err) :
      FlightEffect env opt s c f .completeCancel
        { s with
          flights := modifyCall (modifyFound s.flights t (Flight.fail err)) c
            (·.setWait (.returned (some err))) }
  | receive (hpc : f.send = .finished) (hwait : f.wait = .waiting) (hd : f.delivered ≠ []) :
      FlightEffect env opt s c f .receive
        { s with flights := modifyCall s.flights c Flight.received }

theorem flightEffect_of_stepFlight {c : CallId} {f : Flight V} {a : Action}
    (h : stepFlight env opt s c f a = some s') : FlightEffect env opt s c f a s' := by
  cases a with
  | prepare b =>
    simp only [stepFlight] at h
    split at h
    · rename_i q codec hpc hq hcodec
      split at h
      · rename_i req hreq
        cases h
        exact .prepare hpc hq hcodec hreq
      · rename_i err hreq
        cases h
        exact .prepareFail hpc hq hcodec hreq
    · cases h
  | write order =>
    simp only [stepFlight, encode_eq] at h
    split at h
    · rename_i req hpc
      split_ifs at h with hc
      cases h
      exact .write hpc hc.1 hc.2
    · cases h
  | writeErr order n err =>
    simp only [stepFlight, encode_eq] at h
    split at h
    · rename_i req hpc
      split_ifs at h with hc
      cases h
      exact .writeErr hpc hc
    · cases h
  | takeFailed =>
    simp only [stepFlight] at h
    split at h
    · rename_i err q hpc hq
      cases h
      exact .takeFailed hpc hq
    · cases h
  | completeFailed =>
    simp only [stepFlight] at h
    split at h
    · rename_i t err hpc
      cases h
      exact .completeFailed hpc
    · cases h
  | free oneway =>
    simp only [stepFlight] at h
    split at h
    · rename_i hpc
      cases h
      exact .free hpc
    · cases h
  | takeOneway =>
    simp only [stepFlight] at h
    split at h
    · rename_i q hpc hq
      cases h
      exact .takeOneway hpc hq
    · cases h
  | completeOneway =>
    simp only [stepFlight] at h
    split at h
    · rename_i t hpc
      cases h
      exact .completeOneway hpc
    · cases h
  | cancel err =>
    simp only [stepFlight] at h
    split at h
    · rename_i hpc hwait
      cases h
      exact .cancel hpc hwait
    · cases h
  | completeCancel =>
    simp only [stepFlight] at h
    split at h
    · rename_i t err hwait
      cases h
      exact .completeCancel hwait
    · cases h
  | receive =>
    simp only [stepFlight] at h
    split at h
    · rename_i v vs hpc hwait hd
      cases h
      exact .receive hpc hwait (by rw [hd]; simp)
    · cases h

/-! ### All goroutines -/

/-- What a step does. -/
inductive Effect (env : Env V) (opt : ClientOption) (s : State V) : Label V → State V → Prop
  | refuse {c : CallId} {viaCall : Bool} {ctx : Context} {p m : Bytes} {args reply : V}
      {err : Error} (hnew : s.flights c = none) (hctx : ctx.seqKey = false)
      (hwhy : ((s.shutdown || s.closing) = true ∧ err = .errShutdown) ∨
        ((s.shutdown || s.closing) = false ∧ codecs env opt.serializeType = none ∧
          err = .errUnsupportedCodec)) :
      Effect env opt s (.send c viaCall ctx p m args reply)
        { s with
          flights := Function.update s.flights c
            (some ((newFlight viaCall ctx p m args reply).fail err)) }
  | register {c : CallId} {viaCall : Bool} {ctx : Context} {p m : Bytes} {args reply : V}
      {codec : Codec V} (hnew : s.flights c = none) (hctx : ctx.seqKey = false)
      (hopen : (s.shutdown || s.closing) = false)
      (hcodec : codecs env opt.serializeType = some codec) :
      Effect env opt s (.send c viaCall ctx p m args reply)
        { s with
          flights := Function.update s.flights c
            (some ((newFlight viaCall ctx p m args reply).register s.seq))
          pending := s.pending.insert s.seq c
          seq := s.seq + 1
          registered := s.registered + 1 }
  | act {c : CallId} {f : Flight V} {a : Action} {s' : State V} (hf : s.flights c = some f)
      (ha : FlightEffect env opt s c f a s') : Effect env opt s (.act c a) s'
  | readCrash {err : Error} {fault} (hpc : s.reader = .loop)
      (hdec : s.res.decode env.maxMessageLength ⟨s.inp, err⟩ = .error fault) :
      Effect env opt s (.read err) { s with reader := .crashed }
  | readErr {err e : Error} {res : Message} {r : Reader} (hpc : s.reader = .loop)
      (hdec : s.res.decode env.maxMessageLength ⟨s.inp, err⟩ = .ok (res, r, some e)) :
      Effect env opt s (.read err) { s with res := res, inp := r.data, reader := .exiting e }
  | readPush {err : Error} {res : Message} {r : Reader} (hpc : s.reader = .loop)
      (hdec : s.res.decode env.maxMessageLength ⟨s.inp, err⟩ = .ok (res, r, none))
      (hpush : isServerMessage res = true) :
      Effect env opt s (.read err) { s with res := res, inp := r.data, reader := .loop }
  | read {err : Error} {res : Message} {r : Reader} (hpc : s.reader = .loop)
      (hdec : s.res.decode env.maxMessageLength ⟨s.inp, err⟩ = .ok (res, r, none))
      (hpush : isServerMessage res = false) :
      Effect env opt s (.read err)
        { s with
          res := res
          inp := r.data
          pending := s.pending.erase res.header.seq
          reader := .holding (s.pending.lookup res.header.seq) (decodeAlone env ⟨s.inp, err⟩) }
  | respondNone {t : Option CallId} {fr : Message} (hpc : s.reader = .holding t fr)
      (ht : ∀ d, t = some d → s.flights d = none) :
      Effect env opt s .respond { s with res := s.res.reset, reader := .loop }
  | respond {d : CallId} {f : Flight V} {fr : Message} (hpc : s.reader = .holding (some d) fr)
      (hf : s.flights d = some f) :
      Effect env opt s .respond
        { s with
          flights := Function.update s.flights d
            (some (Flight.done { f with
              call := (handleCall env s.res f.call).1, frames := f.frames ++ [fr] }))
          res := s.res.reset
          reader := .next (handleCall env s.res f.call).2 }
  | exit {err : Error} (hpc : s.reader = .exiting err) :
      Effect env opt s .exit
        { s with
          shutdown := true
          flights := failAll s.flights (exitError s.closing err) s.pending
          reader := .returned }
  | close :
      Effect env opt s .close
        { s with
          flights := failAll s.flights .errShutdown s.pending
          pending := ∅
          closing := s.closing || !(s.closing || s.shutdown) }
  | connClose (hclosing : s.closing = true) (hopen : s.connClosed = false) :
      Effect env opt s .connClose { s with connClosed := true }
  | closeClient : Effect env opt s .closeClient { s with shutdown := true }
  | net {data : Bytes} (hopen : s.connClosed = false) :
      Effect env opt s (.net data) { s with inp := s.inp ++ data }

theorem effect_of_send {c : CallId} {viaCall : Bool} {ctx : Context} {p m : Bytes} {args reply : V}
    (hnew : s.flights c = none) (hctx : ctx.seqKey = false) :
    Effect env opt s (.send c viaCall ctx p m args reply)
      (stepSend env opt s c viaCall ctx p m args reply) := by
  unfold stepSend
  dsimp only
  split_ifs with hsd hcodec
  · exact .refuse hnew hctx (Or.inl ⟨hsd, rfl⟩)
  · exact .refuse hnew hctx (Or.inr ⟨by simpa using hsd, Option.isNone_iff_eq_none.mp hcodec, rfl⟩)
  · obtain ⟨codec, hcodec⟩ :=
      Option.ne_none_iff_exists'.mp (mt Option.isNone_iff_eq_none.mpr hcodec)
    exact .register hnew hctx (by simpa using hsd) hcodec

theorem effect_of_read {err : Error} (hpc : s.reader = .loop) :
    Effect env opt s (.read err) (stepRead env s err) := by
  unfold stepRead
  split
  · rename_i hdec
    exact .readCrash hpc hdec
  · rename_i hdec
    exact .readErr hpc hdec
  · rename_i hdec
    split_ifs with hpush
    · exact .readPush hpc hdec hpush
    · exact .read hpc hdec (by simpa using hpush)

theorem effect_of_respond {t : Option CallId} {fr : Message} (hpc : s.reader = .holding t fr) :
    Effect env opt s .respond (stepRespond env s t fr) := by
  cases t with
  | none => exact .respondNone hpc (by simp)
  | some d =>
    simp only [stepRespond]
    split
    · rename_i hf
      exact .respondNone hpc (by rintro _ ⟨⟩; exact hf)
    · rename_i f hf
      exact .respond hpc hf

theorem effect_of_step (h : step env opt s l = some s') : Effect env opt s l s' := by
  unfold step at h
  split at h
  · cases h
  clear * - h
  cases l with
  | send c viaCall ctx p m args reply =>
    simp only [move] at h
    split_ifs at h with hc
    cases h
    exact effect_of_send (Option.isNone_iff_eq_none.mp hc.1) hc.2
  | act c a =>
    obtain ⟨f, hf, hs⟩ := Option.bind_eq_some_iff.mp h
    exact .act hf (flightEffect_of_stepFlight hs)
  | read err =>
    simp only [move] at h
    split at h
    · rename_i hpc
      cases h
      exact effect_of_read hpc
    · cases h
  | respond =>
    simp only [move] at h
    split at h
    · rename_i t fr hpc
      split_ifs at h
      cases h
      exact effect_of_respond hpc
    · cases h
  | exit =>
    simp only [move] at h
    split at h
    · rename_i err hpc
      cases h
      exact .exit hpc
    · cases h
  | close =>
    cases h
    exact .close
  | connClose =>
    simp only [move] at h
    split_ifs at h with hc
    cases h
    exact .connClose hc.1 hc.2
  | closeClient =>
    cases h
    exact .closeClient
  | net data =>
    simp only [move] at h
    split_ifs at h with hc
    cases h
    exact .net hc

/-- As long as the reader has not panicked, a step is what a goroutine does. -/
theorem step_eq_move (hr : s.reader ≠ .crashed) (l : Label V) :
    step env opt s l = move env opt s l := by
  unfold step
  split
  · rename_i h
    exact absurd h hr
  · rfl

theorem step_register {c : CallId} {viaCall : Bool} {ctx : Context} {p m : Bytes} {args reply : V}
    {codec : Codec V} (hr : s.reader ≠ .crashed) (hnew : s.flights c = none)
    (hctx : ctx.seqKey = false) (hopen : (s.shutdown || s.closing) = false)
    (hcodec : codecs env opt.serializeType = some codec) :
    step env opt s (.send c viaCall ctx p m args reply) = some
      { s with
        flights := Function.update s.flights c
          (some ((newFlight viaCall ctx p m args reply).register s.seq))
        pending := s.pending.insert s.seq c
        seq := s.seq + 1
        registered := s.registered + 1 } := by
  rw [step_eq_move hr]
  simp only [move, hnew, hctx, stepSend, hopen, hcodec, Option.isNone_none,
    Option.isNone_some, and_self, if_true, Bool.false_eq_true, if_false]

/-! ### How a call evolves -/

/-- What most steps leave alone in a call: everything but its error and its goroutines. -/
structure Keeps (f f' : Flight V) : Prop where
  seq : f'.seq = f.seq
  cell : f'.cell = f.cell
  init : f'.init = f.init
  frames : f'.frames = f.frames
  call : f'.call = { f.call with error := f'.call.error }

theorem Keeps.refl (f : Flight V) : Keeps f f := ⟨rfl, rfl, rfl, rfl, rfl⟩

theorem Keeps.trans {f f' f'' : Flight V} (h : Keeps f f') (h' : Keeps f' f'') : Keeps f f'' :=
  ⟨h'.seq.trans h.seq, h'.cell.trans h.cell, h'.init.trans h.init, h'.frames.trans h.frames, by
    rw [h'.call, h.call]⟩

theorem keeps_modifyCall {fl : CallId → Option (Flight V)} {c d : CallId} {g : Flight V → Flight V}
    {f₀ f : Flight V} (hg : ∀ f, Keeps f (g f)) (hf : fl d = some f) (h : Keeps f₀ f) :
    ∃ f', modifyCall fl c g d = some f' ∧ Keeps f₀ f' := by
  rw [modifyCall_apply, hf]
  split_ifs
  · exact ⟨g f, rfl, h.trans (hg f)⟩
  · exact ⟨f, rfl, h⟩

theorem keeps_modifyFound {fl : CallId → Option (Flight V)} {t : Option CallId} {d : CallId}
    {g : Flight V → Flight V} {f : Flight V} (hg : ∀ f, Keeps f (g f)) (hf : fl d = some f) :
    ∃ f', modifyFound fl t g d = some f' ∧ Keeps f f' := by
  cases t with
  | none => exact ⟨f, hf, .refl f⟩
  | some c => exact keeps_modifyCall hg hf (.refl f)

theorem keeps_fail (err : Error) (f : Flight V) : Keeps f (f.fail err) := ⟨rfl, rfl, rfl, rfl, rfl⟩

theorem keeps_failAll {err : Error} {d : CallId} {f₀ : Flight V} :
    ∀ (es : List ((_ : UInt64) × CallId)) (fl : CallId → Option (Flight V)) (f : Flight V),
      fl d = some f → Keeps f₀ f →
        ∃ f', es.foldl (fun fl e => modifyCall fl e.2 (Flight.fail err)) fl d = some f' ∧
          Keeps f₀ f'
  | [], fl, f, hf, h => ⟨f, hf, h⟩
  | e :: es, fl, f, hf, h => by
    obtain ⟨f', hf', h'⟩ := keeps_modifyCall (c := e.2) (keeps_fail err) hf h
    exact keeps_failAll es _ f' hf' h'

theorem keeps_of_flightEffect {c d : CallId} {fc f : Flight V} {a : Action}
    (h : FlightEffect env opt s c fc a s') (hf : s.flights d = some f) :
    ∃ f', s'.flights d = some f' ∧ Keeps f f' := by
  cases h with
  | completeFailed _ =>
    obtain ⟨f', hf', h'⟩ := keeps_modifyFound (keeps_fail _) hf
    exact keeps_modifyCall (fun f => ⟨rfl, rfl, rfl, rfl, rfl⟩) hf' h'
  | completeOneway _ =>
    obtain ⟨f', hf', h'⟩ :=
      keeps_modifyFound (g := Flight.done) (fun f => ⟨rfl, rfl, rfl, rfl, rfl⟩) hf
    exact keeps_modifyCall (fun f => ⟨rfl, rfl, rfl, rfl, rfl⟩) hf' h'
  | completeCancel _ =>
    obtain ⟨f', hf', h'⟩ := keeps_modifyFound (keeps_fail _) hf
    exact keeps_modifyCall (fun f => ⟨rfl, rfl, rfl, rfl, rfl⟩) hf' h'
  | _ => exact keeps_modifyCall (fun f => ⟨rfl, rfl, rfl, rfl, rfl⟩) hf (.refl f)

/-- The reader has just handled the frame `fr` for the call `d`. -/
def Answered (env : Env V) (s : State V) (d : CallId) (f f' : Flight V) : Prop :=
  ∃ fr, s.reader = .holding (some d) fr ∧
    f' = Flight.done { f with call := (handleCall env s.res f.call).1, frames := f.frames ++ [fr] }

/-- What a step does to a call: it keeps it, or it is the `switch` of the reader. -/
def Moves (env : Env V) (s : State V) (l : Label V) (d : CallId) (f f' : Flight V) : Prop :=
  Keeps f f' ∨ (l = .respond ∧ Answered env s d f f')

section Moves

variable {d : CallId} {f f' : Flight V} (h : Moves env s l d f f')

include h

theorem Moves.seq : f'.seq = f.seq := by
  rcases h with hk | ⟨-, fr, -, rfl⟩
  · exact hk.seq
  · rfl

theorem Moves.cell : f'.cell = f.cell := by
  rcases h with hk | ⟨-, fr, -, rfl⟩
  · exact hk.cell
  · rfl

theorem Moves.init : f'.init = f.init := by
  rcases h with hk | ⟨-, fr, -, rfl⟩
  · exact hk.init
  · rfl

end Moves

theorem ne_of_new {c d : CallId} {f : Flight V} (hf : s.flights d = some f)
    (hnew : s.flights c = none) :
    d ≠ c := by
  rintro rfl
  cases hf.symm.trans hnew

/-- **A call stays, and keeps its identity.** -/
theorem flight_step {d : CallId} {f : Flight V} (h : Effect env opt s l s')
    (hf : s.flights d = some f) :
    ∃ f', s'.flights d = some f' ∧ Moves env s l d f f' := by
  have hkeep : (∃ f', s'.flights d = some f' ∧ Keeps f f') →
      ∃ f', s'.flights d = some f' ∧ Moves env s l d f f' := fun ⟨f', hf', hk⟩ =>
        ⟨f', hf', Or.inl hk⟩
  cases h with
  | refuse hnew => exact hkeep ⟨f, by simp [ne_of_new hf hnew, hf], .refl f⟩
  | register hnew => exact hkeep ⟨f, by simp [ne_of_new hf hnew, hf], .refl f⟩
  | act _ ha => exact hkeep (keeps_of_flightEffect ha hf)
  | @respond c fc fr hpc hfc =>
    by_cases hdc : d = c
    · subst hdc
      rw [hf] at hfc
      cases hfc
      exact ⟨_, Function.update_self .., Or.inr ⟨rfl, fr, hpc, rfl⟩⟩
    · exact hkeep ⟨f, by simp [hdc, hf], .refl f⟩
  | exit => exact hkeep (keeps_failAll _ _ f hf (.refl f))
  | close => exact hkeep (keeps_failAll _ _ f hf (.refl f))
  | _ => exact hkeep ⟨f, hf, .refl f⟩

theorem modifyCall_none {fl : CallId → Option (Flight V)} {d : CallId} (hd : fl d = none)
    (c : CallId) (g : Flight V → Flight V) : modifyCall fl c g d = none := by
  rw [modifyCall_apply, hd]
  simp

theorem modifyFound_none {fl : CallId → Option (Flight V)} {d : CallId} (hd : fl d = none)
    (t : Option CallId) (g : Flight V → Flight V) : modifyFound fl t g d = none := by
  rw [modifyFound_apply, hd]
  simp

theorem failAll_none {err : Error} {d : CallId} :
    ∀ (es : List ((_ : UInt64) × CallId)) (fl : CallId → Option (Flight V)), fl d = none →
      es.foldl (fun fl e => modifyCall fl e.2 (Flight.fail err)) fl d = none
  | [], _, hd => hd
  | _ :: es, _, hd => failAll_none es _ (modifyCall_none hd _ _)

/-- The step that makes a call: it is refused, or it is registered under the next sequence
number. -/
def Made (s : State V) (l : Label V) (s' : State V) (d : CallId) (f : Flight V) : Prop :=
  ∃ viaCall ctx p m args reply, l = .send d viaCall ctx p m args reply ∧ ctx.seqKey = false ∧
    ((∃ err, f = (newFlight viaCall ctx p m args reply).fail err) ∨
      (f = (newFlight viaCall ctx p m args reply).register s.seq ∧
        s'.registered = s.registered + 1))

theorem flightEffect_none {c d : CallId} {fc : Flight V} {a : Action}
    (h : FlightEffect env opt s c fc a s') (hd : s.flights d = none) : s'.flights d = none := by
  cases h with
  | completeFailed _ => exact modifyCall_none (modifyFound_none hd _ _) _ _
  | completeOneway _ => exact modifyCall_none (modifyFound_none hd _ _) _ _
  | completeCancel _ => exact modifyCall_none (modifyFound_none hd _ _) _ _
  | _ => exact modifyCall_none hd _ _

theorem flight_cases {d : CallId} {f' : Flight V} (h : Effect env opt s l s')
    (hf' : s'.flights d = some f') :
    (∃ f, s.flights d = some f ∧ Moves env s l d f f') ∨
      (s.flights d = none ∧ Made s l s' d f') := by
  cases hd : s.flights d with
  | some f =>
    obtain ⟨g, hg, hev⟩ := flight_step h hd
    rw [hf'] at hg
    cases hg
    exact Or.inl ⟨f, rfl, hev⟩
  | none =>
    refine Or.inr ⟨rfl, ?_⟩
    have hnone : s'.flights d = none → False := fun hn => by
      rw [hn] at hf'
      cases hf'
    cases h with
    | @refuse c viaCall ctx p m args reply err hnew hctx hwhy =>
      by_cases hdc : d = c
      · subst hdc
        simp only [Function.update_self, Option.some.injEq] at hf'
        exact ⟨viaCall, ctx, p, m, args, reply, rfl, hctx, Or.inl ⟨err, hf'.symm⟩⟩
      · exact (hnone (by simp [hdc, hd])).elim
    | @register c viaCall ctx p m args reply codec hnew hctx =>
      by_cases hdc : d = c
      · subst hdc
        simp only [Function.update_self, Option.some.injEq] at hf'
        exact ⟨viaCall, ctx, p, m, args, reply, rfl, hctx, Or.inr ⟨hf'.symm, rfl⟩⟩
      · exact (hnone (by simp [hdc, hd])).elim
    | act _ ha => exact (hnone (flightEffect_none ha hd)).elim
    | @respond c fc fr hpc hfc =>
      have hdc : d ≠ c := (ne_of_new hfc hd).symm
      exact (hnone (by simp [hdc, hd])).elim
    | exit => exact (hnone (failAll_none _ _ hd)).elim
    | close => exact (hnone (failAll_none _ _ hd)).elim
    | _ => exact (hnone hd).elim

theorem counter_cases (h : Effect env opt s l s') :
    (s'.seq = s.seq ∧ s'.registered = s.registered) ∨
      (s'.seq = s.seq + 1 ∧ s'.registered = s.registered + 1) := by
  cases h with
  | register => exact Or.inr ⟨rfl, rfl⟩
  | act _ ha => cases ha <;> exact Or.inl ⟨rfl, rfl⟩
  | _ => exact Or.inl ⟨rfl, rfl⟩

/-- An entry of `pending` after a step was there before, or is that of the call just registered. -/
theorem pending_cases {q : UInt64} {d : CallId} (h : Effect env opt s l s')
    (hq : s'.pending.lookup q = some d) :
    s.pending.lookup q = some d ∨
      ((s.shutdown || s.closing) = false ∧ ∃ f, s'.flights d = some f ∧ f.seq = some q) := by
  cases h with
  | @register c viaCall ctx p m args reply codec hnew hctx hopen =>
    obtain ⟨rfl, rfl⟩ | ⟨-, hq⟩ := lookup_insert_eq_some.mp hq
    · exact Or.inr ⟨hopen, _, Function.update_self .., rfl⟩
    · exact Or.inl hq
  | act _ ha =>
    cases ha with
    | takeFailed => exact Or.inl (lookup_erase_eq_some.mp hq).2
    | takeOneway => exact Or.inl (lookup_erase_eq_some.mp hq).2
    | cancel => exact Or.inl (lookup_erase_eq_some.mp hq).2
    | _ => exact Or.inl hq
  | read => exact Or.inl (lookup_erase_eq_some.mp hq).2
  | close => simp at hq
  | _ => exact Or.inl hq

end Frpc.Client.Steps
