import Frpc.Client.Sequence
import Frpc.Client.Responses

/-! # Responses and the calls they answer

The server may send any frames in any order. `handleResponse` looks the sequence number of a frame
up in `pending` and deletes the entry, so a call is answered at most once, by a frame with its
number (`correlated_of_reach`). The message it decodes into is reset after every frame, except after
a frame of the server's own: metadata of such a frame stay in it, and a following response without
metadata hands them to its call. `NoLeak` excludes that. -/

namespace Frpc.Client.Correlation

open Frpc.Basic Frpc.Codecs Frpc.Lib.Runs Frpc.Lib.Ledgers Frpc.Protocol.Headers
  Frpc.Protocol.Messages
open Frpc.Protocol.Wire Frpc.Protocol.RoundTrip
open Frpc.Client.Machine Frpc.Client.Steps Frpc.Client.Custody Frpc.Client.Sequence
  Frpc.Client.Responses

variable {V : Type} {env : Env V} {opt : ClientOption} {s s' : State V} {l : Label V}

/-- A response without metadata is read for a pending call only into a message without metadata. -/
def NoLeak (env : Env V) (s : State V) : Label V → Prop
  | .read err => ∀ m r, newMessage.decode env.maxMessageLength ⟨s.inp, err⟩ = .ok (m, r, none) →
      isServerMessage m = false → (s.pending.lookup m.header.seq).isSome → m.metadata = none →
        s.res.metadata = none
  | _ => True

/-- The reply and the response metadata of a call are those it was made with, or they were written
from one frame that carries its number. -/
def FromOneFrame (env : Env V) (f : Flight V) : Prop :=
  (f.frames = [] ∧ f.call.reply = f.init.reply ∧ f.call.resMetadata = none) ∨
    ∃ fr, f.frames = [fr] ∧ f.seq = some fr.header.seq ∧ isServerMessage fr = false ∧
      f.call.reply = (handleCall env fr f.init).1.reply ∧ f.call.resMetadata = fr.metadata

/-- The invariant behind it. -/
structure Correlated (env : Env V) (s : State V) : Prop where
  calls : ∀ {d f}, s.flights d = some f → FromOneFrame env f
  answered : ∀ {d f}, s.flights d = some f → f.frames ≠ [] → (ledger s).Absent d
  reader : ∀ {d fr}, s.reader = .holding (some d) fr → s.res = fr ∧ isServerMessage fr = false ∧
    ∃ f, s.flights d = some f ∧ f.seq = some fr.header.seq

theorem Correlated.init : Correlated env (init : State V) where
  calls h := by cases h
  answered h := by cases h
  reader h := by cases h

/-! ### One step -/

theorem FromOneFrame.keeps {f f' : Flight V} (h : FromOneFrame env f) (hk : Keeps f f') :
    FromOneFrame env f' := by
  have hreply : f'.call.reply = f.call.reply := by rw [hk.call]
  have hmeta : f'.call.resMetadata = f.call.resMetadata := by rw [hk.call]
  unfold FromOneFrame
  rwa [hk.frames, hk.seq, hk.init, hreply, hmeta]

variable (env) in
theorem fromOneFrame_of_made {d : CallId} {f : Flight V} (h : Made s l s' d f) :
    f.frames = [] ∧ FromOneFrame env f := by
  obtain ⟨viaCall, ctx, p, m, args, reply, -, -, ⟨err, rfl⟩ | ⟨rfl, -⟩⟩ := h
  · exact ⟨rfl, Or.inl ⟨rfl, rfl, rfl⟩⟩
  · exact ⟨rfl, Or.inl ⟨rfl, rfl, rfl⟩⟩

theorem Correlated.frames_nil (hi : Correlated env s) {d : CallId} {fr : Message} {f : Flight V}
    (hr : s.reader = .holding (some d) fr) (hf : s.flights d = some f) : f.frames = [] := by
  by_contra hne
  exact (hi.answered hf hne).2 ⟨.reader, by show readerHeld s.reader = _; rw [hr]; rfl⟩

theorem absent_of_respond (hc : (ledger s).Custody) (h : Effect env opt s .respond s') {d : CallId}
    {fr : Message} {f : Flight V} (hr : s.reader = .holding (some d) fr)
    (hf : s.flights d = some f) :
    (ledger s').Absent d := by
  cases h with
  | respondNone hpc ht =>
    rw [hr] at hpc
    cases hpc
    rw [ht d rfl] at hf
    cases hf
  | @respond d' f' fr' hpc hf' =>
    cases hr.symm.trans hpc
    cases hf.symm.trans hf'
    have hheld : readerHeld s.reader = some d := by rw [hr]; rfl
    have hnext : readerHeld (.next (handleCall env s.res f.call).2) = none := by
      cases (handleCall env s.res f.call).2 <;> rfl
    have hled := ledger_settle_reader hheld hf
      (g := Flight.done
        { f with call := (handleCall env s.res f.call).1, frames := f.frames ++ [fr] })
      ⟨rfl, rfl, rfl, rfl⟩ hnext
    refine Eq.mpr (congrArg (Ledger.Absent · d) hled) ?_
    exact (hc.absent_of_settles (e := .settle .reader _) trivial trivial
      (Or.inr (Or.inl ⟨.reader, rfl, hheld⟩))).1

theorem Correlated.step (hi : Correlated env s) (hc : (ledger s).Custody) (hn : Numbered s)
    (hleak : NoLeak env s l) (h : Effect env opt s l s') : Correlated env s' where
  calls := by
    intro d f' hf'
    rcases flight_cases h hf' with ⟨f, hf, hk | ⟨-, fr, hr, rfl⟩⟩ | ⟨-, hmade⟩
    · exact (hi.calls hf).keeps hk
    · obtain ⟨hres, hpush, g, hg, hseq⟩ := hi.reader hr
      cases hf.symm.trans hg
      have hnil := hi.frames_nil hr hf
      have hreply : f.call.reply = f.init.reply := by
        rcases hi.calls hf with ⟨-, hreply, -⟩ | ⟨fr', hfr', -⟩
        · exact hreply
        · rw [hnil] at hfr'
          cases hfr'
      rw [hres]
      refine Or.inr ⟨fr, ?_, hseq, hpush, ?_, ?_⟩
      · show f.frames ++ [fr] = [fr]
        rw [hnil, List.nil_append]
      · exact handleCall_reply fr hreply
      · exact handleCall_resMetadata fr f.call
    · exact (fromOneFrame_of_made env hmade).2
  answered := by
    intro d f' hf' hne
    rcases flight_cases h hf' with ⟨f, hf, hk | ⟨hl, fr, hr, -⟩⟩ | ⟨-, hmade⟩
    · rw [hk.frames] at hne
      obtain ⟨e, he, -⟩ := ledger_step hc h
      obtain ⟨hen, happ⟩ := Ledger.step_eq_some.mp he
      rw [← happ]
      exact (hi.answered hf hne).apply (Option.isSome_iff_exists.mpr ⟨f, hf⟩) hen
    · subst hl
      exact absent_of_respond hc h hr hf
    · exact absurd (fromOneFrame_of_made env hmade).1 hne
  reader := by
    intro d fr hr
    rcases holding_cases h hr with ⟨hold, hres⟩ | ⟨err, r, rfl, hdec, hpush, hlook, rfl⟩
    · obtain ⟨hres', hpush, f, hf, hseq⟩ := hi.reader hold
      obtain ⟨f', hf', hm⟩ := flight_step h hf
      exact ⟨hres.trans hres', hpush, f', hf', hm.seq.trans hseq⟩
    · refine ⟨?_, hpush, hn.pending_seq hlook⟩
      -- metadata of an earlier frame would show here
      cases hmd : fr.metadata with
      | some md =>
        rw [Option.some_or, ← hmd]
      | none =>
        rw [hleak fr r hdec hpush (by rw [hlook]; rfl) hmd, Option.or_none, ← hmd]

theorem correlated_of_reach (h : Reach (step env opt) (NoLeak env) init s) : Correlated env s :=
  h.invariant (P := Correlated env) .init fun hr hi hleak hs =>
    hi.step (custody_of_reach hr.any) (numbered_of_reach hr) hleak (effect_of_step hs)

/-! ### Frames of the server's own -/

theorem read_push {e : Error} {m : Message} {r : Reader}
    (hdec : newMessage.decode env.maxMessageLength ⟨s.inp, e⟩ = .ok (m, r, none))
    (hpush : isServerMessage m = true) (h : step env opt s (.read e) = some s') :
    s'.flights = s.flights ∧ s'.pending = s.pending ∧ s'.reader = .loop := by
  have hres : s.res.decode env.maxMessageLength ⟨s.inp, e⟩ = .ok (_, r, none) :=
    decode_reuse.mpr ⟨m, hdec, rfl⟩
  cases effect_of_step h with
  | readCrash _ hdec' => cases hres.symm.trans hdec'
  | readErr _ hdec' => cases hres.symm.trans hdec'
  | readPush => exact ⟨rfl, rfl, rfl⟩
  | read _ hdec' hpush' =>
    cases hres.symm.trans hdec'
    cases hpush.symm.trans hpush'

/-- **Correlation.** In every run with at most `2 ^ 64` registered calls in which no response gets
the metadata of an earlier frame: distinct calls have distinct numbers, the reply and the response
metadata of a call are written from at most one frame and that frame carries the number of the call,
and a one-way request of the server completes no call and leaves `pending` unchanged. -/
theorem responses_correlate (h : Reach (step env opt) (NoLeak env) init s)
    (hle : s.registered ≤ 2 ^ 64) :
    (∀ d d' f f' q, s.flights d = some f → s.flights d' = some f' → f.seq = some q →
      f'.seq = some q → d = d') ∧
    (∀ d f, s.flights d = some f → FromOneFrame env f) ∧
    ∀ e m r s', newMessage.decode env.maxMessageLength ⟨s.inp, e⟩ = .ok (m, r, none) →
      isServerMessage m = true → step env opt s (.read e) = some s' →
        s'.flights = s.flights ∧ s'.pending = s.pending ∧ s'.reader = .loop :=
  ⟨fun _ _ _ _ _ => (numbered_of_reach h).distinct hle, fun _ _ => (correlated_of_reach h).calls,
    fun _ _ _ _ => read_push⟩

/-- A response of the server to call `c`, without metadata and payload. -/
def emptyResponse (c : UInt64) : Message :=
  ⟨(Header.clean magicNumber).setMessageType MessageType.response |>.setSeq c, [65], [77], none, []⟩

/-- A one-way request of the server, with one metadata entry. -/
def pushFrame : Message :=
  ⟨(Header.clean magicNumber).setOneway true, [65], [77], some (Finmap.singleton [107] [118]), []⟩

/-- The message of the reader has no metadata before a frame is read. -/
def noMetadata (s : State V) : Label V → Bool
  | .read _ => s.res.metadata.isNone
  | _ => true

theorem noLeak_of_check (s : State V) (l : Label V) (h : noMetadata s l = true) :
    NoLeak env s l := by
  cases l with
  | read err => exact fun _ _ _ _ _ _ => Option.isNone_iff_eq_none.mp h
  | _ => trivial

/-- Two calls, whose responses come in the other order. -/
theorem responses_correlate_two :
    ∃ s f g, Reach (step quoteEnv jsonOption) (NoLeak quoteEnv) init s ∧ s.registered ≤ 2 ^ 64 ∧
      s.flights 0 = some f ∧ f.frames = [emptyResponse 0] ∧ FromOneFrame quoteEnv f ∧
      s.flights 1 = some g ∧ g.frames = [emptyResponse 1] ∧ FromOneFrame quoteEnv g := by
  have hrun : Reach (step quoteEnv jsonOption) (NoLeak quoteEnv) init _ :=
    reach_of_guarded noLeak_of_check [sendCall 0 (some [97]), sendCall 1 (some [98]),
      .act 0 (.prepare magicNumber), .act 1 (.prepare magicNumber), .act 0 (.write ∅),
        .act 1 (.write ∅),
      .net (frame (emptyResponse 1) ∅ ++ frame (emptyResponse 0) ∅), .read .eof,
        .respond, .read .eof,
      .respond] rfl
  have hcorr := (responses_correlate hrun (by decide)).2.1
  exact ⟨_, _, _, hrun, by decide, rfl, rfl, hcorr 0 _ rfl, rfl, rfl, hcorr 1 _ rfl⟩

/-- A one-way request of the server leaves its metadata in the message of the reader, and the
response to the only call, which has no metadata, delivers them. -/
theorem push_metadata_delivered :
    ∃ s f, Reach (step quoteEnv jsonOption) Any init s ∧ s.registered = 1 ∧ s.flights 0 = some f ∧
      f.frames = [emptyResponse 0] ∧ f.call.resMetadata = some (Finmap.singleton [107] [118]) :=
  ⟨_, _, reach_of_exec [sendCall 0 (some [97]), .act 0 (.prepare magicNumber), .act 0 (.write ∅),
    .net (frame pushFrame (AList.singleton [107] [118]) ++ frame (emptyResponse 0) ∅),
    .read .eof, .read .eof, .respond] rfl, rfl, rfl, rfl, rfl⟩

end Frpc.Client.Correlation
