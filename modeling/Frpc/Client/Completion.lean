import Frpc.Client.Sequence

/-! # Completing calls

A call is completed by a response, by an error of its own `send`, by a cancelled context, by `close`
or by the end of `handleResponse`. From the ledger of the connection: as long as whoever completes a
call has removed it from `pending`, `done` is called at most once per call (`completed_once`). And
once `handleResponse` has returned, every call was completed or is in the hands of a goroutine that
completes it next, while later calls are refused (`no_call_lost`). -/

namespace Frpc.Client.Completion

open Frpc.Basic Frpc.Codecs Frpc.Lib.Runs Frpc.Lib.Ledgers Frpc.Protocol.Headers
open Frpc.Client.Machine Frpc.Client.Steps Frpc.Client.Custody Frpc.Client.Sequence

variable {V : Type} {env : Env V} {opt : ClientOption} {s s' t : State V} {l : Label V}

/-! ### Deliveries -/

theorem delivered_step (hc : (ledger s).Custody) (h : Effect env opt s l s') (d : CallId) :
    deliveredTo s d <+: deliveredTo s' d := by
  obtain ⟨e, he, -⟩ := ledger_step hc h
  obtain ⟨-, happ⟩ := Ledger.step_eq_some.mp he
  show (ledger s).settled d <+: (ledger s').settled d
  rw [← happ]
  rcases Ledger.settled_apply (ledger s) e d with ⟨hs, -⟩ | ⟨v, -, hs, -⟩ <;> rw [hs]
  exact List.prefix_append _ _

theorem delivered_reach {ok : State V → Label V → Prop} (hs : Reach (step env opt) Any init s)
    (h : Reach (step env opt) ok s t) (d : CallId) : deliveredTo s d <+: deliveredTo t d := by
  refine h.invariant (P := fun t => deliveredTo s d <+: deliveredTo t d) (List.prefix_refl _) ?_
  intro t u l hr ih _ hstep
  exact ih.trans (delivered_step (custody_of_reach (hs.trans hr.any)) (effect_of_step hstep) d)

theorem deliveredTo_eq {d : CallId} {f : Flight V} (hf : s.flights d = some f) :
    deliveredTo s d = f.delivered := by
  rw [deliveredTo, hf]
  rfl

theorem errorOf_eq {d : CallId} {f : Flight V} (hf : s.flights d = some f) :
    errorOf s d = f.call.error := by
  rw [errorOf, hf]
  rfl

theorem deliveredTo_ne_nil {d : CallId} (h : deliveredTo s d ≠ []) :
    ∃ f, s.flights d = some f ∧ f.delivered ≠ [] := by
  cases hf : s.flights d with
  | none => exact absurd (by rw [deliveredTo, hf]; rfl) h
  | some f => exact ⟨f, rfl, by rwa [deliveredTo_eq hf] at h⟩

/-- **At most once.** In a run in which the arguments of every call can be encoded, and
`handleResponse` returns only when `pending` is empty, a completed call is not in `pending`, `done`
was called at most once for it, and from then on its error does not change. -/
theorem completed_once (h : Reach (step env opt) (Clean env opt) init s) (d : CallId) (f : Flight V)
    (hf : s.flights d = some f) :
    (f.delivered ≠ [] → ∀ q, s.pending.lookup q ≠ some d) ∧ f.delivered.length ≤ 1 ∧
      (∀ v ∈ f.delivered, f.call.error = v) ∧
      ∀ t, f.delivered ≠ [] → Reach (step env opt) (Clean env opt) s t →
        ∃ f', t.flights d = some f' ∧ f'.delivered = f.delivered ∧
          f'.call.error = f.call.error := by
  have honce := once_of_clean h d
  have hset : (ledger s).settled d = f.delivered := deliveredTo_eq hf
  have hcell : (ledger s).cell d = f.call.error := errorOf_eq hf
  rw [hset, hcell] at honce
  refine ⟨fun hne q hq => (honce hne).1.1 ⟨q, hq⟩, ?_, ?_, ?_⟩
  · by_cases hne : f.delivered = []
    · simp [hne]
    · exact (honce hne).2.1
  · intro v hv
    exact (honce (List.ne_nil_of_mem hv)).2.2 v hv
  · intro t hne ht
    obtain ⟨r, hr⟩ := delivered_reach h.any ht d
    rw [deliveredTo_eq hf] at hr
    have hne' : deliveredTo t d ≠ [] := by rw [← hr]; simp [hne]
    obtain ⟨f', hf', -⟩ := deliveredTo_ne_nil hne'
    have honce' := once_of_clean (h.trans ht) d hne'
    rw [show (ledger t).settled d = f'.delivered from deliveredTo_eq hf',
      show (ledger t).cell d = f'.call.error from errorOf_eq hf'] at honce'
    rw [deliveredTo_eq hf'] at hr
    -- a second delivery would make two
    have hlen := congrArg List.length hr
    rw [List.length_append] at hlen
    have hpos := List.length_pos_of_ne_nil hne
    have hnil : r = [] := List.eq_nil_of_length_eq_zero (by have := honce'.2.1; omega)
    rw [hnil, List.append_nil] at hr
    obtain ⟨v, hv⟩ := List.exists_mem_of_ne_nil _ hne
    refine ⟨f', hf', hr.symm, ?_⟩
    rw [honce'.2.2 v (hr ▸ hv), (honce hne).2.2 v hv]

/-- A call that `close` completes. -/
theorem completed_once_close :
    ∃ s f, Reach (step quoteEnv jsonOption) (Clean quoteEnv jsonOption) init s ∧
      s.flights 0 = some f ∧
      f.delivered = [some .errShutdown] ∧ (∀ q, s.pending.lookup q ≠ some 0) ∧
        f.delivered.length ≤ 1 := by
  have hrun : Reach (step quoteEnv jsonOption) (Clean quoteEnv jsonOption) init _ :=
    .tail (.tail .refl trivial (rfl : _ = some _) (l := sendCall 0 (some [97]))) trivial
      (rfl : _ = some _) (l := .close)
  have honce := completed_once hrun 0 _ rfl
  exact ⟨_, _, hrun, rfl, rfl, honce.1 (by decide), honce.2.1⟩

/-- A call whose arguments cannot be encoded is completed and stays in `pending`, so `close`
completes it again, with another error; and so does `close` with the calls that the end of
`handleResponse` has completed. -/
theorem completed_twice :
    (∃ s t f g, Reach (step quoteEnv jsonOption) Any init s ∧ s.flights 0 = some f ∧
      f.delivered = [some (.other (str "json: unsupported type: chan int"))] ∧
      s.pending.lookup 0 = some 0 ∧ Reach (step quoteEnv jsonOption) Any s t ∧
        t.flights 0 = some g ∧
      g.delivered = [some (.other (str "json: unsupported type: chan int")), some .errShutdown] ∧
      g.call.error = some .errShutdown) ∧
    ∃ s t f g, Reach (step quoteEnv jsonOption) Any init s ∧ s.flights 0 = some f ∧
      f.delivered = [some .unexpectedEOF] ∧ s.pending.lookup 0 = some 0 ∧
      Reach (step quoteEnv jsonOption) Any s t ∧ t.flights 0 = some g ∧
      g.delivered = [some .unexpectedEOF, some .errShutdown] ∧
        g.call.error = some .errShutdown := by
  constructor
  · exact ⟨_, _, _, _, reach_of_exec [sendCall 0 none, .act 0 (.prepare magicNumber)] rfl, rfl, rfl,
      rfl, reach_of_exec [.close] rfl, rfl, rfl, rfl⟩
  · exact ⟨_, _, _, _, reach_of_exec [sendCall 0 (some [97]), .read .eof, .exit] rfl, rfl, rfl, rfl,
      reach_of_exec [.close] rfl, rfl, rfl, rfl⟩

/-! ### The end of the reader -/

theorem shutdown_step (h : Effect env opt s l s') (hs : s.shutdown = true) :
    s'.shutdown = true := by
  cases h with
  | exit => rfl
  | closeClient => rfl
  | act _ ha => cases ha <;> exact hs
  | _ => exact hs

theorem returned_step (h : Effect env opt s l s') (hr : s'.reader = .returned) :
    s.reader = .returned ∨ l = .exit := by
  cases h with
  | exit => exact Or.inr rfl
  | act _ ha => cases ha <;> exact Or.inl hr
  | @respond d f fr hpc hf =>
    simp only [ReaderPc.next] at hr
    split at hr <;> cases hr
  | readCrash => cases hr
  | readErr => cases hr
  | readPush => cases hr
  | read => cases hr
  | respondNone => cases hr
  | _ => exact Or.inl hr

/-- Once `handleResponse` has returned, the connection is shut down and what is left in `pending`
was completed. -/
def Drained (s : State V) : Prop :=
  s.reader = .returned →
    s.shutdown = true ∧ ∀ q d, s.pending.lookup q = some d → deliveredTo s d ≠ []

theorem Drained.step (hd : Drained s) (hc : (ledger s).Custody) (h : Effect env opt s l s') :
    Drained s' := by
  intro hr
  rcases returned_step h hr with hr | rfl
  · obtain ⟨hs, hall⟩ := hd hr
    refine ⟨shutdown_step h hs, fun q d hq => ?_⟩
    rcases pending_cases h hq with hq | ⟨hopen, -⟩
    · obtain ⟨r, hr⟩ := delivered_step hc h d
      rw [← hr]
      simp [hall q d hq]
    · rw [hs] at hopen
      cases hopen
  · cases h with
    | @exit err hpc =>
      refine ⟨rfl, fun q d hq => ?_⟩
      have hset :=
        congrFun (congrArg Ledger.settled (ledger_failAll hc (exitError s.closing err))) d
      rcases Ledger.pay_cases (ledger s) (ledger s).InTable (some (exitError s.closing err)) d with
        ⟨hnot, -⟩ | ⟨-, hpay, -⟩
      · exact absurd ⟨q, hq⟩ hnot
      · exact ne_of_eq_of_ne (hset.trans hpay) (by simp)

theorem drained_of_reach (h : Reach (step env opt) Any init s) : Drained s :=
  h.invariant (P := Drained) (fun hr => by cases hr) fun hr hd _ hs =>
    hd.step (custody_of_reach hr) (effect_of_step hs)

/-- The goroutine of the call `c` has removed `d` from `pending`, and completes it with its next
step `a`. -/
def Completing (s : State V) (c d : CallId) : Action → Prop
  | .completeFailed => ∃ f err, s.flights c = some f ∧ f.send = .holdFailed (some d) err
  | .completeOneway => ∃ f, s.flights c = some f ∧ f.send = .holdOneway (some d)
  | .completeCancel => ∃ f err, s.flights c = some f ∧ f.wait = .cancelled (some d) err
  | _ => False

theorem completing_of_hand {h : Hand} {d : CallId} (hret : s.reader = .returned)
    (hh : hand s h = some d) :
    ∃ c a, Completing s c d a := by
  cases h with
  | reader =>
    rw [hand, hret] at hh
    cases hh
  | sender c =>
    obtain ⟨f, hf, hheld⟩ := Option.bind_eq_some_iff.mp hh
    cases hpc : f.send <;> rw [hpc] at hheld <;> cases hheld
    · exact ⟨c, .completeFailed, f, _, hf, hpc⟩
    · exact ⟨c, .completeOneway, f, hf, hpc⟩
  | waiter c =>
    obtain ⟨f, hf, hheld⟩ := Option.bind_eq_some_iff.mp hh
    cases hpc : f.wait <;> rw [hpc] at hheld <;> cases hheld
    exact ⟨c, .completeCancel, f, _, hf, hpc⟩

theorem flight_of_hand (hc : (ledger s).Custody) {h : Hand} {d : CallId} (hh : hand s h = some d) :
    ∃ f, s.flights d = some f :=
  Option.isSome_iff_exists.mp (hc.issued_hand (h := h) hh)

/-- A completed call has a delivery, whatever else the step changes. -/
theorem delivered_modify {c d : CallId} {fd : Flight V} {g h : Flight V → Flight V}
    {v : Option Error} (hfd : s.flights d = some fd) (hg : (g fd).delivered = fd.delivered ++ [v])
    (hh : ∀ f, (h f).delivered = f.delivered) :
    deliveredTo { s with flights := modifyCall (modifyFound s.flights (some d) g) c h } d ≠ [] := by
  by_cases hdc : d = c
  · subst hdc
    simp [deliveredTo, modifyCall_apply, modifyFound_apply, hfd, hh, hg]
  · simp [deliveredTo, modifyCall_apply, modifyFound_apply, hfd, hdc, hg]

variable (env opt) in
theorem completing_step (hc : (ledger s).Custody) (hret : s.reader = .returned) {c d : CallId}
    {a : Action} (h : Completing s c d a) :
    ∃ s', step env opt s (.act c a) = some s' ∧ deliveredTo s' d ≠ [] := by
  rw [step_eq_move (by rw [hret]; simp)]
  cases a with
  | completeFailed =>
    obtain ⟨f, err, hf, hpc⟩ := h
    obtain ⟨fd, hfd⟩ := flight_of_hand hc (h := .sender c) (by rw [hand_sender hf, hpc]; rfl)
    refine ⟨_, ?_, delivered_modify (c := c) (g := Flight.fail err)
      (h := (·.setSend .written)) hfd rfl
      fun _ => rfl⟩
    simp only [move, hf, Option.bind_some, stepFlight, hpc]
  | completeOneway =>
    obtain ⟨f, hf, hpc⟩ := h
    obtain ⟨fd, hfd⟩ := flight_of_hand hc (h := .sender c) (by rw [hand_sender hf, hpc]; rfl)
    refine ⟨_, ?_, delivered_modify (c := c) (g := Flight.done) (h := (·.setSend .finished)) hfd rfl
      fun _ => rfl⟩
    simp only [move, hf, Option.bind_some, stepFlight, hpc]
  | completeCancel =>
    obtain ⟨f, err, hf, hpc⟩ := h
    obtain ⟨fd, hfd⟩ := flight_of_hand hc (h := .waiter c) (by rw [hand_waiter hf, hpc]; rfl)
    refine ⟨_, ?_, delivered_modify (c := c) (g := Flight.fail err)
      (h := (·.setWait (.returned (some err))))
      hfd rfl fun _ => rfl⟩
    simp only [move, hf, Option.bind_some, stepFlight, hpc]
  | _ => exact h.elim

/-- **No call is lost.** Let at most `2 ^ 64` calls have been registered. Once `handleResponse` has
returned, every call was completed, or a goroutine has removed it from `pending` and completes it
with its next step; and every later call is completed with `ErrShutdown` and not registered. -/
theorem no_call_lost (h : Reach (step env opt) Any init s) (hret : s.reader = .returned)
    (hle : s.registered ≤ 2 ^ 64) :
    (∀ d f, s.flights d = some f → f.delivered ≠ [] ∨ ∃ c a s', Completing s c d a ∧
      step env opt s (.act c a) = some s' ∧ deliveredTo s' d ≠ []) ∧
    ∀ c viaCall ctx p m args reply s', step env opt s (.send c viaCall ctx p m args reply) =
      some s' → s'.pending = s.pending ∧ ∃ f, s'.flights c = some f ∧ f.seq = none ∧
        f.delivered = [some .errShutdown] ∧ f.call.error = some .errShutdown := by
  have hc := custody_of_reach h
  obtain ⟨hshut, hall⟩ := drained_of_reach h hret
  refine ⟨fun d f hf => ?_, fun c viaCall ctx p m args reply s' hs => ?_⟩
  · have hissued : (ledger s).issued d := Option.isSome_iff_exists.mpr ⟨f, hf⟩
    rcases covered_of_reach h hle d hissued with ⟨q, hq⟩ | ⟨hd, hh⟩ | hset
    · left
      rw [← deliveredTo_eq hf]
      exact hall q d hq
    · right
      obtain ⟨c, a, hcomp⟩ := completing_of_hand hret hh
      obtain ⟨s', hs', hdel⟩ := completing_step env opt hc hret hcomp
      exact ⟨c, a, s', hcomp, hs', hdel⟩
    · left
      rw [← deliveredTo_eq hf]
      exact hset
  · cases effect_of_step hs with
    | refuse hnew hctx hwhy =>
      rcases hwhy with ⟨-, rfl⟩ | ⟨hopen, -⟩
      · exact ⟨rfl, _, Function.update_self .., rfl, rfl, rfl⟩
      · simp [hshut] at hopen
    | register hnew hctx hopen => simp [hshut] at hopen

/-- The connection breaks with one call in `pending`, and another call is made. -/
theorem no_call_lost_eof :
    ∃ s, Reach (step quoteEnv jsonOption) Any init s ∧ s.reader = .returned ∧
      s.registered ≤ 2 ^ 64 ∧
      (∀ d f, s.flights d = some f → f.delivered ≠ [] ∨ ∃ c a s', Completing s c d a ∧
        step quoteEnv jsonOption s (.act c a) = some s' ∧ deliveredTo s' d ≠ []) ∧
      ∃ s' f, step quoteEnv jsonOption s (sendCall 1 (some [98])) = some s' ∧
        s'.flights 1 = some f ∧ f.delivered = [some .errShutdown] := by
  have hrun : Reach (step quoteEnv jsonOption) Any init _ :=
    reach_of_exec [sendCall 0 (some [97]), .read .eof, .exit] rfl
  obtain ⟨hall, hlater⟩ := no_call_lost hrun rfl (by decide)
  obtain ⟨-, f, hf, -, hdel, -⟩ :=
    hlater 1 true ⟨none, none, false⟩ [65] [77] (some [98]) (some []) _ rfl
  exact ⟨_, hrun, rfl, by decide, hall, _, f, rfl, hf, hdel⟩

/-! ### What the statement does not say -/

/-- A call that was registered as number `q`. -/
def registeredCall (args : Option Bytes) (q : UInt64) : Flight (Option Bytes) :=
  (newFlight true ⟨none, none, false⟩ [65] [77] args (some [])).register q

/-- The table of calls after `n` calls. -/
def floodPending : ℕ → AList fun _ : UInt64 => CallId
  | 0 => ∅
  | n + 1 => (floodPending n).insert (.ofNat n) n

/-- The connection after `n` calls, none of which was written. -/
def flood (n : ℕ) : State (Option Bytes) :=
  { (init : State (Option Bytes)) with
    flights := fun d => if d < n then some (registeredCall (some [97]) (.ofNat d)) else none
    pending := floodPending n
    seq := .ofNat n
    registered := n }

theorem flights_flood {n : ℕ} {d : CallId} (h : d < n) :
    (flood n).flights d = some (registeredCall (some [97]) (.ofNat d)) := if_pos h

theorem pending_flood (n : ℕ) : (flood (n + 1)).pending.lookup (.ofNat n) = some n :=
  AList.lookup_insert _

theorem flood_zero : flood 0 = init := by
  unfold flood
  congr

theorem step_flood (n : ℕ) :
    step quoteEnv jsonOption (flood n) (sendCall n (some [97])) = some (flood (n + 1)) := by
  have hnew : (flood n).flights n = none := if_neg (Nat.lt_irrefl n)
  have hfl : Function.update (flood n).flights n (some (registeredCall (some [97]) (.ofNat n))) =
      (flood (n + 1)).flights := by
    funext d
    by_cases hd : d = n
    · subst hd
      simp [flood]
    · have hiff : d < n + 1 ↔ d < n := by
        rw [Nat.lt_succ_iff_lt_or_eq]
        simp [hd]
      rw [Function.update_of_ne hd]
      simp only [flood, hiff]
  have hseq : (flood n).seq + 1 = (flood (n + 1)).seq := (UInt64.ofNat_add n 1).symm
  refine (step_register (by simp [flood, init]) hnew rfl rfl rfl).trans ?_
  rw [hseq]
  exact congrArg (fun fl => some { flood (n + 1) with flights := fl }) hfl

theorem reach_flood : ∀ n, Reach (step quoteEnv jsonOption) Any init (flood n)
  | 0 => by rw [flood_zero]; exact .refl
  | n + 1 => (reach_flood n).next (step_flood n)

theorem hand_flood (n : ℕ) (h : Hand) : hand (flood n) h = none := by
  have hbind : ∀ (c : CallId) (g : Flight (Option Bytes) → Option CallId),
      g (registeredCall (some [97]) (.ofNat c)) = none → ((flood n).flights c).bind g = none := by
    intro c g hg
    show (if c < n then some (registeredCall (some [97]) (.ofNat c)) else none).bind g = none
    split_ifs
    · exact hg
    · rfl
  cases h with
  | reader => rfl
  | sender c => exact hbind c _ rfl
  | waiter c => exact hbind c _ rfl

/-- The connection breaks. A call that is not in `pending` is not completed. -/
theorem exit_flood {n : ℕ} (hn : 0 < n) (hgone : ∀ q, (flood n).pending.lookup q ≠ some 0) :
    ∃ s, Reach (step quoteEnv jsonOption) Any init s ∧ s.reader = .returned ∧
      s.flights 0 = some (registeredCall (some [97]) 0) ∧ (∀ q, s.pending.lookup q ≠ some 0) ∧
      ∀ h, hand s h ≠ some 0 := by
  have hc := custody_of_reach (reach_flood n)
  have hread : step quoteEnv jsonOption (flood n) (.read .eof) =
      some { flood n with reader := .exiting .eof } := rfl
  refine ⟨_, ((reach_flood n).next hread).next (l := .exit) rfl, rfl, ?_, hgone, ?_⟩
  · show failAll (flood n).flights _ (flood n).pending 0 = some _
    classical
    rw [failAll_apply _ _ _ hc.table_inj, if_neg (fun ⟨q, hq⟩ => hgone q hq), flights_flood hn]
    rfl
  · have hhand := congrArg Ledger.hand (ledger_failAll hc .unexpectedEOF)
    have hnone := fun h => (congrFun hhand h).trans (hand_flood n h)
    intro h hh
    cases h with
    | reader => cases hh
    | sender c => cases (hnone (.sender c)).symm.trans hh
    | waiter c => cases (hnone (.waiter c)).symm.trans hh

/-- Two ways in which `handleResponse` returns before a registered call is completed. The `send` of
the call has just removed it after a failed write; or the counter has come round, and call number `2
^ 64` was filed over call number `0`, which is then out of everybody's sight. -/
theorem returned_before_done :
    (∃ s f, Reach (step quoteEnv jsonOption) Any init s ∧ s.reader = .returned ∧ s.registered = 1 ∧
      s.flights 0 = some f ∧ f.seq = some 0 ∧ f.delivered = []) ∧
    ∃ s f, Reach (step quoteEnv jsonOption) Any init s ∧ s.reader = .returned ∧
      s.flights 0 = some f ∧ f.seq = some 0 ∧ f.delivered = [] ∧
        (∀ q, s.pending.lookup q ≠ some 0) ∧
      ∀ h, hand s h ≠ some 0 := by
  constructor
  · exact ⟨_, _, reach_of_exec [sendCall 0 (some [97]), .act 0 (.prepare magicNumber),
      .act 0 (.writeErr ∅ 0 .eof), .act 0 .takeFailed, .read .eof, .exit] rfl, rfl, rfl,
        rfl, rfl, rfl⟩
  · obtain ⟨s, hs, hret, hf, hpend, hhand⟩ :=
      exit_flood (n := 2 ^ 64 + 1) (by decide) fun q hq => by
      obtain ⟨f, hf, hseq⟩ := (numbered_of_reach (reach_flood _)).pending_seq hq
      rw [flights_flood (by decide)] at hf
      cases hf
      obtain rfl : 0 = q := Option.some.inj hseq
      -- the last call has the same number
      have hlast := pending_flood (2 ^ 64)
      rw [show UInt64.ofNat (2 ^ 64) = 0 by rfl, hq] at hlast
      cases hlast
    exact ⟨s, _, hs, hret, hf, rfl, rfl, hpend, hhand⟩

end Frpc.Client.Completion
