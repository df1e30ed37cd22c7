import Frpc.Client.Steps
import Frpc.Lib.Ledgers

/-! # The connection keeps a custody ledger

The calls of a connection are the items of a custody ledger: `pending` is the table, the goroutines
that removed an entry and have not yet completed its call are the hands, the account of a call lists
what was delivered on `Done`, and its cell is `call.Error`. Every step of the connection is one
event of the ledger (`ledger_step`). Two steps complete calls without removing them: `send` when the
arguments cannot be encoded (`mark`), and the end of `handleResponse` (`markAll`); `Clean` excludes
them. -/

namespace Frpc.Client.Custody

open Frpc.Basic Frpc.Codecs Frpc.Lib.Runs Frpc.Lib.Ledgers Frpc.Protocol.Headers
  Frpc.Protocol.Messages
open Frpc.Client.Machine Frpc.Client.Steps

variable {V : Type} {env : Env V} {opt : ClientOption} {s s' : State V} {l : Label V}

/-- Who can hold a call: the reader, the `send` of a call, the caller of a call. -/
inductive Hand where
  | reader
  | sender (c : CallId)
  | waiter (c : CallId)
deriving DecidableEq

/-- The call that a `send` holds. -/
def sendHeld : SendPc → Option CallId
  | .holdFailed t _ => t
  | .holdOneway t => t
  | _ => none

/-- The call that a caller holds. -/
def waitHeld : WaitPc → Option CallId
  | .cancelled t _ => t
  | _ => none

/-- The call that the reader holds. -/
def readerHeld : ReaderPc → Option CallId
  | .holding t _ => t
  | _ => none

/-- The hands of a connection. -/
def hand (s : State V) : Hand → Option CallId
  | .reader => readerHeld s.reader
  | .sender c => (s.flights c).bind fun f => sendHeld f.send
  | .waiter c => (s.flights c).bind fun f => waitHeld f.wait

/-- What was delivered to a call. -/
def deliveredTo (s : State V) (d : CallId) : List (Option Error) :=
  (s.flights d).elim [] (·.delivered)

/-- The error of a call. -/
def errorOf (s : State V) (d : CallId) : Option Error := (s.flights d).bind (·.call.error)

/-- **The ledger of a connection.** -/
def ledger (s : State V) : Ledger UInt64 CallId Hand (Option Error) where
  table q := s.pending.lookup q
  hand := hand s
  settled := deliveredTo s
  cell := errorOf s
  issued d := (s.flights d).isSome

theorem ledger_init : ledger (init : State V) = Ledger.empty none := by
  refine Ledger.ext ?_ ?_ rfl rfl ?_
  · rfl
  · funext h
    cases h <;> rfl
  · funext d
    simp [ledger, init, Ledger.empty]

/-! ### Steps as events -/

/-- A ledger given by what it says of each hand and each call. -/
theorem ledger_eq {L : Ledger UInt64 CallId Hand (Option Error)}
    (htable : ∀ q, s.pending.lookup q = L.table q) (hreader : readerHeld s.reader = L.hand .reader)
    (hsender : ∀ d, hand s (.sender d) = L.hand (.sender d))
    (hwaiter : ∀ d, hand s (.waiter d) = L.hand (.waiter d))
    (hcall : ∀ d, deliveredTo s d = L.settled d ∧ errorOf s d = L.cell d ∧
      ((s.flights d).isSome ↔ L.issued d)) : ledger s = L := by
  refine Ledger.ext (funext htable) ?_ (funext fun d => (hcall d).1) (funext fun d => (hcall d).2.1)
    (funext fun d => propext (hcall d).2.2)
  funext h
  cases h with
  | reader => exact hreader
  | sender d => exact hsender d
  | waiter d => exact hwaiter d

theorem ledger_erase (s : State V) (q : UInt64) :
    ledger { s with pending := s.pending.erase q } =
      { ledger s with table := Function.update (ledger s).table q none } := by
  refine Ledger.ext (funext fun q' => ?_) ?_ rfl rfl rfl
  · by_cases hq : q' = q
    · subst hq
      simp [ledger]
    · simp [ledger, hq, AList.lookup_erase_ne hq]
  · funext h
    cases h <;> rfl

/-- The call `t`, if there is one, is completed with the error `v` by `g`, which changes nothing
else that the ledger sees. -/
def Completes (s : State V) (t : Option CallId) (g : Flight V → Flight V) (v : Option Error) :
    Prop :=
  ∀ d, t = some d → ∃ f, s.flights d = some f ∧ (g f).delivered = f.delivered ++ [v] ∧
    (g f).call.error = v ∧ (g f).send = f.send ∧ (g f).wait = f.wait

theorem ledger_found {t : Option CallId} {g : Flight V → Flight V} {v : Option Error}
    (hg : Completes s t g v) :
    ledger { s with flights := modifyFound s.flights t g } = (ledger s).pay (t = some ·) v := by
  have hcases : ∀ d,
      (t = some d ∧ ∃ f, s.flights d = some f ∧ (g f).delivered = f.delivered ++ [v] ∧
      (g f).call.error = v ∧ (g f).send = f.send ∧ (g f).wait = f.wait) ∨ t ≠ some d := by
    intro d
    by_cases htd : t = some d
    · exact Or.inl ⟨htd, hg d htd⟩
    · exact Or.inr htd
  refine ledger_eq (fun _ => rfl) rfl ?_ ?_ ?_ <;> intro d <;>
    rcases hcases d with ⟨htd, f, hf, hd, he, hs, hw⟩ | htd
  all_goals
    simp_all [ledger, Ledger.pay, hand, deliveredTo, errorOf, modifyFound_apply]

/-- The call in the hand `h` is completed, and the hand is emptied. -/
theorem ledger_settle {h : Hand} {t : Option CallId} {g : Flight V → Flight V} {v : Option Error}
    (hheld : hand s h = t) (hg : Completes s t g v)
    (hs' : ledger s' = { ledger { s with flights := modifyFound s.flights t g } with
      hand := Function.update (hand { s with flights := modifyFound s.flights t g }) h none }) :
    ledger s' = (ledger s).apply (.settle h v) := by
  have hhand : hand { s with flights := modifyFound s.flights t g } = hand s :=
    congrArg Ledger.hand (ledger_found hg)
  rw [hs', hhand, ledger_found hg, ← hheld]
  rfl

section Call

variable {c : CallId} {f : Flight V} (hf : s.flights c = some f)

include hf

theorem ledger_setSend (pc : SendPc) :
    ledger { s with flights := modifyCall s.flights c (·.setSend pc) } =
      { ledger s with hand := Function.update (hand s) (.sender c) (sendHeld pc) } := by
  refine ledger_eq (fun _ => rfl) (by simp [hand]) ?_ ?_ ?_ <;> intro d <;> by_cases hdc : d = c
  all_goals simp [ledger, hand, deliveredTo, errorOf, modifyCall_apply, hdc, hf]

theorem ledger_setWait (pc : WaitPc) :
    ledger { s with flights := modifyCall s.flights c (·.setWait pc) } =
      { ledger s with hand := Function.update (hand s) (.waiter c) (waitHeld pc) } := by
  refine ledger_eq (fun _ => rfl) (by simp [hand]) ?_ ?_ ?_ <;> intro d <;> by_cases hdc : d = c
  all_goals simp [ledger, hand, deliveredTo, errorOf, modifyCall_apply, hdc, hf]

theorem ledger_received (hwait : f.wait = .waiting) :
    ledger { s with flights := modifyCall s.flights c Flight.received } = ledger s := by
  refine ledger_eq (fun _ => rfl) rfl ?_ ?_ ?_ <;> intro d <;> by_cases hdc : d = c
  all_goals simp [ledger, hand, deliveredTo, errorOf, modifyCall_apply, hdc, hf, hwait, waitHeld]

theorem hand_sender : hand s (.sender c) = sendHeld f.send := by
  rw [hand, hf]
  rfl

theorem hand_waiter : hand s (.waiter c) = waitHeld f.wait := by
  rw [hand, hf]
  rfl

end Call

theorem ledger_setReader (s : State V) (pc : ReaderPc) :
    ledger { s with reader := pc } =
      { ledger s with hand := Function.update (hand s) .reader (readerHeld pc) } := by
  refine ledger_eq (fun _ => rfl) (by simp) ?_ ?_ fun _ => ⟨rfl, rfl, Iff.rfl⟩ <;> intro d
  all_goals simp [hand]

theorem ledger_new {c : CallId} {f : Flight V} (hnew : s.flights c = none)
    (hs : sendHeld f.send = none) (hw : waitHeld f.wait = none) :
    ledger { s with flights := Function.update s.flights c (some f) } =
      { ledger s with
        settled := Function.update (deliveredTo s) c f.delivered
        cell := Function.update (errorOf s) c f.call.error
        issued := fun d => d = c ∨ (s.flights d).isSome } := by
  refine ledger_eq (fun _ => rfl) rfl ?_ ?_ ?_ <;> intro d <;> by_cases hdc : d = c
  all_goals simp [ledger, hand, deliveredTo, errorOf, hdc, hnew, hs, hw]

theorem ledger_failAll (hc : (ledger s).Custody) (err : Error) :
    ledger { s with flights := failAll s.flights err s.pending } =
      (ledger s).pay (ledger s).InTable (some err) := by
  classical
  have happly := fun d => failAll_apply s.flights err s.pending hc.table_inj d
  have hcases : ∀ d, ((∃ q, s.pending.lookup q = some d) ∧ ∃ f, s.flights d = some f) ∨
      ¬ ∃ q, s.pending.lookup q = some d := by
    intro d
    by_cases hd : ∃ q, s.pending.lookup q = some d
    · obtain ⟨q, hq⟩ := hd
      exact Or.inl ⟨⟨q, hq⟩, Option.isSome_iff_exists.mp (hc.issued_table hq)⟩
    · exact Or.inr hd
  refine ledger_eq (fun _ => rfl) rfl ?_ ?_ ?_ <;> intro d <;> rcases hcases d with ⟨hd, f, hf⟩ | hd
  all_goals simp_all [ledger, hand, deliveredTo, errorOf, Ledger.pay, Ledger.InTable]

/-! ### Every step is an event -/

/-- The arguments of the call can be encoded, and compressed if that is asked for. -/
def Encodable (env : Env V) (opt : ClientOption) (call : Call V) : Prop :=
  ∀ codec, codecs env opt.serializeType = some codec →
    (call.servicePath = [] ∧ call.serviceMethod = []) ∨ ∃ data, codec.encode call.args = .ok data ∧
      (data.length > 1024 → opt.compressType = CompressType.gzip → ∃ z, env.zip data = .ok z)

/-- The steps that remove what they complete: the arguments are encoded without an error, and
`handleResponse` does not return while calls are in `pending`. -/
def Clean (env : Env V) (opt : ClientOption) (s : State V) : Label V → Prop
  | .act c (.prepare _) => ∀ f, s.flights c = some f → Encodable env opt f.call
  | .exit => ∀ q, s.pending.lookup q = none
  | _ => True

theorem fillRequest_of_encodable {codec : Codec V} {call : Call V} (h : Encodable env opt call)
    (hcodec : codecs env opt.serializeType = some codec) (q : UInt64) (req : Message) :
    ∃ m, fillRequest env opt codec call q req = .ok m := by
  unfold fillRequest
  rcases h codec hcodec with hhb | ⟨data, hdata, hzip⟩
  · exact ⟨_, if_pos hhb⟩
  · split_ifs with hhb
    · exact ⟨_, rfl⟩
    · rw [hdata]
      by_cases hz : data.length > 1024 ∧ opt.compressType = CompressType.gzip
      · obtain ⟨z, hz'⟩ := hzip hz.1 hz.2
        exact ⟨_, by simp only [bind, Except.bind, hz, and_self, if_true, hz']; rfl⟩
      · exact ⟨_, by simp only [bind, Except.bind, hz, if_false]; rfl⟩

theorem completes_fail (hc : (ledger s).Custody) {h : Hand} {t : Option CallId}
    (ht : hand s h = t) (err : Error) : Completes s t (Flight.fail err) (some err) := by
  rintro d rfl
  obtain ⟨f, hf⟩ := Option.isSome_iff_exists.mp (hc.issued_hand ht)
  exact ⟨f, hf, rfl, rfl, rfl, rfl⟩

theorem completes_done (hc : (ledger s).Custody) {h : Hand} {t : Option CallId}
    (ht : hand s h = t) : Completes s t Flight.done (t.bind (errorOf s)) := by
  rintro d rfl
  obtain ⟨f, hf⟩ := Option.isSome_iff_exists.mp (hc.issued_hand ht)
  have herr : (some d).bind (errorOf s) = f.call.error := by simp [errorOf, hf]
  rw [herr]
  exact ⟨f, hf, rfl, rfl, rfl, rfl⟩

/-- One event of the ledger, with what the conditions on the step say about it. -/
def Matches (env : Env V) (opt : ClientOption) (s : State V) (l : Label V) (s' : State V) : Prop :=
  ∃ e, (ledger s).step e = some (ledger s') ∧ (Clean env opt s l → (ledger s).Removes e) ∧
    ((s.registered < s'.registered → s.pending.lookup s.seq = none) → (ledger s).Free e)

theorem matches_skip (h : ledger s' = ledger s) : Matches env opt s l s' :=
  ⟨.skip, Ledger.step_eq_some.mpr ⟨trivial, h.symm⟩, fun _ => trivial, fun _ => trivial⟩

theorem matches_take {q : UInt64} {h : Hand} (hfree : hand s h = none)
    (heq : ledger s' = (ledger s).apply (.take q h)) : Matches env opt s l s' :=
  ⟨.take q h, Ledger.step_eq_some.mpr ⟨hfree, heq.symm⟩, fun _ => trivial, fun _ => trivial⟩

theorem matches_settle {h : Hand} {v : Option Error}
    (heq : ledger s' = (ledger s).apply (.settle h v)) : Matches env opt s l s' :=
  ⟨.settle h v, Ledger.step_eq_some.mpr ⟨trivial, heq.symm⟩, fun _ => trivial, fun _ => trivial⟩

section Act

variable {c : CallId} {f : Flight V} (hf : s.flights c = some f) (hc : (ledger s).Custody)

include hf

theorem matches_setSend {pc : SendPc} (hfrom : sendHeld f.send = none) (hto : sendHeld pc = none)
    (hs' : ledger s' = ledger { s with flights := modifyCall s.flights c (·.setSend pc) }) :
    Matches env opt s l s' := by
  refine matches_skip (hs'.trans ((ledger_setSend hf pc).trans ?_))
  rw [hto, ← hfrom, ← hand_sender hf, Function.update_eq_self]
  rfl

theorem ledger_take_sender {q : UInt64} {pc : SendPc} (hpc : sendHeld pc = s.pending.lookup q) :
    ledger { s with
      pending := s.pending.erase q
      flights := modifyCall s.flights c (·.setSend pc) } =
        (ledger s).apply (.take q (.sender c)) := by
  rw [ledger_setSend (s := { s with pending := s.pending.erase q }) hf, ledger_erase, hpc]
  rfl

theorem ledger_take_waiter {q : UInt64} {pc : WaitPc} (hpc : waitHeld pc = s.pending.lookup q) :
    ledger { s with
      pending := s.pending.erase q
      flights := modifyCall s.flights c (·.setWait pc) } =
        (ledger s).apply (.take q (.waiter c)) := by
  rw [ledger_setWait (s := { s with pending := s.pending.erase q }) hf, ledger_erase, hpc]
  rfl

theorem ledger_mark (hpc : f.send = .registered) (err : Error) :
    ledger { s with flights := modifyCall s.flights c fun f => (f.fail err).setSend .finished } =
      (ledger s).apply (.mark c (some err)) := by
  refine ledger_eq (fun _ => rfl) rfl ?_ ?_ ?_ <;> intro d <;> by_cases hdc : d = c
  all_goals
    simp [ledger, Ledger.apply, Ledger.pay, hand, deliveredTo, errorOf, modifyCall_apply,
      hdc, hf, hpc, sendHeld]

theorem modifyFound_isSome (t : Option CallId) (g : Flight V → Flight V) :
    ∃ f', modifyFound s.flights t g c = some f' := by
  rw [modifyFound_apply, hf]
  split_ifs
  · exact ⟨g f, rfl⟩
  · exact ⟨f, rfl⟩

theorem ledger_settle_sender {t : Option CallId} {g : Flight V → Flight V} {v : Option Error}
    {pc : SendPc}
    (hheld : sendHeld f.send = t) (hpc : sendHeld pc = none) (hg : Completes s t g v) :
    ledger { s with flights := modifyCall (modifyFound s.flights t g) c (·.setSend pc) } =
      (ledger s).apply (.settle (.sender c) v) := by
  obtain ⟨f', hf'⟩ := modifyFound_isSome hf t g
  refine ledger_settle ((hand_sender hf).trans hheld) hg ?_
  rw [ledger_setSend (s := { s with flights := modifyFound s.flights t g }) hf', hpc]

theorem ledger_settle_waiter {t : Option CallId} {g : Flight V → Flight V} {v : Option Error}
    {pc : WaitPc}
    (hheld : waitHeld f.wait = t) (hpc : waitHeld pc = none) (hg : Completes s t g v) :
    ledger { s with flights := modifyCall (modifyFound s.flights t g) c (·.setWait pc) } =
      (ledger s).apply (.settle (.waiter c) v) := by
  obtain ⟨f', hf'⟩ := modifyFound_isSome hf t g
  refine ledger_settle ((hand_waiter hf).trans hheld) hg ?_
  rw [ledger_setWait (s := { s with flights := modifyFound s.flights t g }) hf', hpc]

include hc

theorem matches_act {a : Action} (h : FlightEffect env opt s c f a s') :
    Matches env opt s (.act c a) s' := by
  have hsend : ∀ {t}, sendHeld f.send = t → hand s (.sender c) = t := fun h =>
    (hand_sender hf).trans h
  have hwait' : ∀ {t}, waitHeld f.wait = t → hand s (.waiter c) = t := fun h =>
    (hand_waiter hf).trans h
  cases h with
  | prepare hpc => exact matches_setSend hf (by rw [hpc]; rfl) rfl rfl
  | @prepareFail b q codec err hpc hq hcodec hreq =>
    refine ⟨.mark c (some err), Ledger.step_eq_some.mpr ⟨?_, (ledger_mark hf hpc err).symm⟩, ?_,
      fun _ => trivial⟩
    · show (s.flights c).isSome
      rw [hf]
      rfl
    · intro hclean
      obtain ⟨m, hm⟩ := fillRequest_of_encodable (hclean f hf) hcodec q (pooled b)
      rw [hreq] at hm
      cases hm
  | write hpc => exact matches_setSend hf (by rw [hpc]; rfl) rfl rfl
  | writeErr hpc => exact matches_setSend hf (by rw [hpc]; rfl) rfl rfl
  | takeFailed hpc hq => exact matches_take (hsend (by rw [hpc]; rfl)) (ledger_take_sender hf rfl)
  | completeFailed hpc =>
    have hheld := congrArg sendHeld hpc
    exact matches_settle (ledger_settle_sender hf hheld rfl (completes_fail hc (hsend hheld) _))
  | @free oneway hpc =>
    exact matches_setSend hf (by rw [hpc]; rfl) (by cases oneway <;> rfl) rfl
  | takeOneway hpc hq => exact matches_take (hsend (by rw [hpc]; rfl)) (ledger_take_sender hf rfl)
  | completeOneway hpc =>
    have hheld := congrArg sendHeld hpc
    exact matches_settle (ledger_settle_sender hf hheld rfl (completes_done hc (hsend hheld)))
  | cancel hpc hwait => exact matches_take (hwait' (by rw [hwait]; rfl)) (ledger_take_waiter hf rfl)
  | completeCancel hwait =>
    have hheld := congrArg waitHeld hwait
    exact matches_settle (ledger_settle_waiter hf hheld rfl (completes_fail hc (hwait' hheld) _))
  | receive hpc hwait => exact matches_skip (ledger_received hf hwait)

end Act

theorem ledger_register {c : CallId} {f : Flight V} (hnew : s.flights c = none)
    (hs : sendHeld f.send = none) (hw : waitHeld f.wait = none) (hd : f.delivered = [])
    (he : f.call.error = none) :
    ledger { s with
      flights := Function.update s.flights c (some f)
      pending := s.pending.insert s.seq c } = (ledger s).apply (.issue s.seq c) := by
  rw [ledger_new (s := { s with pending := s.pending.insert s.seq c }) hnew hs hw, hd, he]
  refine Ledger.ext (funext fun q => ?_) ?_ ?_ ?_ rfl
  · by_cases hq : q = s.seq
    · subst hq
      simp [ledger, Ledger.apply]
    · simp [ledger, Ledger.apply, hq, AList.lookup_insert_ne hq]
  · funext h
    cases h <;> rfl
  · funext d
    by_cases hdc : d = c <;> simp [ledger, Ledger.apply, deliveredTo, hdc, hnew]
  · funext d
    by_cases hdc : d = c <;> simp [ledger, Ledger.apply, errorOf, hdc, hnew]

theorem matches_setReader {pc : ReaderPc} (hfrom : readerHeld s.reader = none)
    (hto : readerHeld pc = none)
    (hs' : ledger s' = ledger { s with reader := pc }) : Matches env opt s l s' := by
  refine matches_skip (hs'.trans ((ledger_setReader s pc).trans ?_))
  have hsame : Function.update (hand s) .reader (readerHeld pc) = hand s := by
    rw [hto, ← hfrom]
    exact Function.update_eq_self _ _
  rw [hsame]
  rfl

theorem ledger_take_reader (q : UInt64) (fr : Message) :
    ledger { s with
      pending := s.pending.erase q
      reader := .holding (s.pending.lookup q) fr } = (ledger s).apply (.take q .reader) := by
  rw [ledger_setReader { s with pending := s.pending.erase q }, ledger_erase]
  rfl

theorem ledger_settle_reader {d : CallId} {f g : Flight V} {v : Option Error} {pc : ReaderPc}
    (hheld : readerHeld s.reader = some d) (hf : s.flights d = some f)
    (hg : g.delivered = f.delivered ++ [v] ∧ g.call.error = v ∧ g.send = f.send ∧ g.wait = f.wait)
    (hpc : readerHeld pc = none) :
    ledger { s with flights := Function.update s.flights d (some g), reader := pc } =
      (ledger s).apply (.settle .reader v) := by
  have hfound : Function.update s.flights d (some g) = modifyFound s.flights (some d) fun _ =>
    g := by
    rw [modifyFound, modifyCall, hf]
    rfl
  have hcomp : Completes s (some d) (fun _ => g) v := by
    rintro _ ⟨⟩
    exact ⟨f, hf, hg⟩
  refine ledger_settle (h := .reader) hheld hcomp ?_
  rw [← hfound, ← hpc]
  exact ledger_setReader { s with flights := Function.update s.flights d (some g) } pc

/-- **Every step of the connection is an event of its ledger.** -/
theorem ledger_step (hc : (ledger s).Custody) (h : Effect env opt s l s') :
    Matches env opt s l s' := by
  cases h with
  | @refuse c viaCall ctx p m args reply err hnew hctx hwhy =>
    refine ⟨.refuse c (some err), Ledger.step_eq_some.mpr ⟨?_, ?_⟩,
      fun _ => trivial, fun _ => trivial⟩
    · show ¬ (s.flights c).isSome
      simp [hnew]
    · rw [ledger_new hnew rfl (by cases viaCall <;> rfl)]
      refine Ledger.ext rfl rfl ?_ ?_ rfl <;> funext d <;> by_cases hdc : d = c
      all_goals simp [ledger, Ledger.apply, Ledger.pay, hdc, deliveredTo, hnew, newFlight]
  | @register c viaCall ctx p m args reply codec hnew hctx hopen hcodec =>
    refine ⟨.issue s.seq c, Ledger.step_eq_some.mpr ⟨?_, ?_⟩, fun _ => trivial,
      fun hfree => hfree (Nat.lt_succ_self _)⟩
    · show ¬ (s.flights c).isSome
      simp [hnew]
    · exact (ledger_register hnew rfl (by cases viaCall <;> rfl) rfl rfl).symm
  | act hf ha => exact matches_act hf hc ha
  | readCrash hpc => exact matches_setReader (by rw [hpc]; rfl) rfl rfl
  | readErr hpc => exact matches_setReader (by rw [hpc]; rfl) rfl rfl
  | readPush hpc => exact matches_setReader (by rw [hpc]; rfl) rfl rfl
  | read hpc hdec hpush =>
    exact matches_take (h := .reader) (by rw [hand, hpc]; rfl) (ledger_take_reader _ _)
  | @respondNone t fr hpc ht =>
    have hnone : readerHeld s.reader = none := by
      rw [hpc]
      by_contra hne
      obtain ⟨d, hd⟩ := Option.ne_none_iff_exists'.mp hne
      have hhand : hand s .reader = some d := by rw [hand, hpc]; exact hd
      have := hc.issued_hand (h := .reader) hhand
      rw [show (ledger s).issued d = (s.flights d).isSome from rfl, ht d hd] at this
      cases this
    exact matches_setReader hnone rfl rfl
  | @respond d f fr hpc hf =>
    have hnext : readerHeld (.next (handleCall env s.res f.call).2) = none := by
      cases (handleCall env s.res f.call).2 <;> rfl
    exact matches_settle (ledger_settle_reader (by rw [hpc]; rfl) hf ⟨rfl, rfl, rfl, rfl⟩ hnext)
  | @exit err hpc =>
    refine ⟨.markAll (some (exitError s.closing err)), Ledger.step_eq_some.mpr ⟨trivial, ?_⟩,
      fun hclean => hclean, fun _ => trivial⟩
    refine (ledger_failAll hc _).symm.trans ?_
    refine Ledger.ext rfl ?_ rfl rfl rfl
    funext h
    cases h with
    | reader => show readerHeld s.reader = none; rw [hpc]; rfl
    | _ => rfl
  | close =>
    refine ⟨.flush (some .errShutdown), Ledger.step_eq_some.mpr ⟨trivial, ?_⟩, fun _ => trivial,
      fun _ => trivial⟩
    have hpay := ledger_failAll hc .errShutdown
    refine Ledger.ext ?_ ?_ ?_ ?_ ?_
    · rfl
    · exact (congrArg Ledger.hand hpay).symm
    · exact (congrArg Ledger.settled hpay).symm
    · exact (congrArg Ledger.cell hpay).symm
    · exact (congrArg Ledger.issued hpay).symm
  | connClose => exact matches_skip rfl
  | closeClient => exact matches_skip rfl
  | net => exact matches_skip rfl

/-! ### Runs -/

/-- **Custody holds in every reachable state.** -/
theorem custody_of_reach (h : Reach (step env opt) Any init s) : (ledger s).Custody := by
  refine h.invariant (P := fun s => (ledger s).Custody) ?_ ?_
  · rw [ledger_init]
    exact .empty none
  · intro t u l _ hc _ hs
    obtain ⟨e, he, -⟩ := ledger_step hc (effect_of_step hs)
    obtain ⟨hen, happ⟩ := Ledger.step_eq_some.mp he
    rw [← happ]
    exact hc.apply hen

/-- **Refinement.** A run of the connection is a run of the ledger; if its steps remove what they
complete, so do the events. -/
theorem ledger_reach (h : Reach (step env opt) (Clean env opt) init s) :
    Reach Ledger.step Ledger.Removes (Ledger.empty none) (ledger s) := by
  rw [← ledger_init (V := V)]
  refine h.simulate ?_
  intro t u l hr hl hs
  obtain ⟨e, he, hrem, -⟩ := ledger_step (custody_of_reach hr.any) (effect_of_step hs)
  exact ⟨e, hrem hl, he⟩

theorem once_of_clean (h : Reach (step env opt) (Clean env opt) init s) : (ledger s).Once :=
  Ledger.once_of_reach (ledger_reach h)

end Frpc.Client.Custody
