import Frpc.System.Flow
import Mathlib.Algebra.Order.BigOperators.Group.Finset
import Mathlib.Data.Prod.Lex

/-! # Every call gets its answer

A healthy connection that is left to itself comes to rest: there is no infinite run without new
calls (`terminates_of_reach`). Requests, their bytes, handlers and the bytes of responses are used
up in this order, each by steps that only make more of what comes after it. And when it is at rest,
every call has been answered by its handler and its caller has returned, unless the method is still
running (`calls_answered`). -/

namespace Frpc.System.Progress

open Frpc.Basic Frpc.Codecs Frpc.Lib.Runs Frpc.Lib.Tables Frpc.Protocol.Headers
  Frpc.Protocol.Messages
open Frpc.Protocol.Wire Frpc.Protocol.Streams Frpc.Client.Answers
open Frpc.Client.Machine
  (ClientOption CallId Flight SendPc WaitPc ReaderPc modifyCall sendCall jsonOption)
open Frpc.Client.Custody (ledger)
open Frpc.Client.Steps (modifyCall_apply)
open Frpc.Server.Machine (Config Handler HandlerPc MethodResult)
open Frpc.System.Exchange Frpc.System.Machine Frpc.System.Links Frpc.System.Flow
open Frpc.System.Responses (exists_order)

variable {V T : Type} {env : Env V} {opt : ClientOption} {srv : Config V T} {s s' : State V}
  {l : Label V}

/-- The steps that a healthy connection takes by itself: nobody makes a call, and bytes arrive only
if there are some. -/
def Own (env : Env V) (opt : ClientOption) (srv : Config V T) (s : State V) (l : Label V) : Prop :=
  Healthy env opt srv s l ∧
    match l with
    | .client (.send _ _ _ _ _ _ _) => False
    | .toServer n => 0 < n ∧ s.up < s.client.out.length
    | .toClient n => 0 < n ∧ s.down < s.server.out.length
    | _ => True

/-! ### Ranks -/

/-- The steps that a `send` still has to make. -/
def sendRank : SendPc → ℕ
  | .registered => 3
  | .ready _ => 2
  | .written => 1
  | _ => 0

/-- The steps that the caller still has to make. -/
def waitRank : WaitPc → ℕ
  | .waiting => 1
  | _ => 0

def callRank (f : Flight V) : ℕ := sendRank f.send + waitRank f.wait

def isStarted : HandlerPc → Bool
  | .started => true
  | _ => false

def isUnfinished : HandlerPc → Bool
  | .finished => false
  | _ => true

/-- The steps that the reader still has to make for the frame that it holds. -/
def readerRank : ReaderPc → ℕ
  | .holding _ _ => 1
  | _ => 0

/-- The work of the calls in `ids`. -/
def callWork (ids : Finset CallId) (c : Client.Machine.State V) : ℕ :=
  ∑ d ∈ ids, (c.flights d).elim 0 callRank

/-- The work of the requests that are written. A byte is moved, and then it is read. -/
def upWork (s : State V) : ℕ := 2 * (s.client.out.length - s.up) + s.server.inp.length

/-- The work of the handlers. -/
def handlerWork (t : Server.Machine.State V) : ℕ :=
  t.handlers.countP (fun h => isStarted h.pc) + t.handlers.countP (fun h => isUnfinished h.pc)

/-- The work of the responses that are written. -/
def downWork (s : State V) : ℕ :=
  2 * (2 * (s.server.out.length - s.down) + s.client.inp.length) + readerRank s.client.reader

/-- The work that is left, the first part first. -/
def work (ids : Finset CallId) (s : State V) : ℕ ×ₗ ℕ ×ₗ ℕ ×ₗ ℕ :=
  toLex (callWork ids s.client, toLex (upWork s, toLex (handlerWork s.server, downWork s)))

section Work

variable {ids : Finset CallId}

theorem work_lt_of_call (h : callWork ids s'.client < callWork ids s.client) :
    work ids s' < work ids s :=
  Prod.Lex.toLex_lt_toLex.mpr (Or.inl h)

theorem work_lt_of_up (hcall : callWork ids s'.client = callWork ids s.client)
    (h : upWork s' < upWork s) :
    work ids s' < work ids s :=
  Prod.Lex.toLex_lt_toLex.mpr (Or.inr ⟨hcall, Prod.Lex.toLex_lt_toLex.mpr (Or.inl h)⟩)

theorem work_lt_of_handler (hcall : callWork ids s'.client = callWork ids s.client)
    (hup : upWork s' = upWork s) (h : handlerWork s'.server < handlerWork s.server) :
    work ids s' < work ids s :=
  Prod.Lex.toLex_lt_toLex.mpr (Or.inr ⟨hcall, Prod.Lex.toLex_lt_toLex.mpr (Or.inr ⟨hup,
    Prod.Lex.toLex_lt_toLex.mpr (Or.inl h)⟩)⟩)

theorem work_lt_of_down (hcall : callWork ids s'.client = callWork ids s.client)
    (hup : upWork s' = upWork s) (hhandler : handlerWork s'.server = handlerWork s.server)
    (h : downWork s' < downWork s) : work ids s' < work ids s :=
  Prod.Lex.toLex_lt_toLex.mpr (Or.inr ⟨hcall, Prod.Lex.toLex_lt_toLex.mpr (Or.inr ⟨hup,
    Prod.Lex.toLex_lt_toLex.mpr (Or.inr ⟨hhandler, h⟩)⟩)⟩)

theorem callWork_lt {c c' : Client.Machine.State V} {d : CallId} {f : Flight V}
    {g : Flight V → Flight V}
    (hd : d ∈ ids) (hf : c.flights d = some f) (hc' : c'.flights = modifyCall c.flights d g)
    (hg : callRank (g f) < callRank f) : callWork ids c' < callWork ids c := by
  refine Finset.sum_lt_sum (fun e _ => ?_) ⟨d, hd, ?_⟩
  · rw [hc', modifyCall_apply]
    split_ifs with he
    · rw [he, hf]
      exact hg.le
    · exact le_rfl
  · rw [hc', modifyCall_apply, if_pos rfl, hf]
    exact hg

theorem callWork_update {c c' : Client.Machine.State V} {d : CallId} {f f' : Flight V}
    (hf : c.flights d = some f) (hc' : c'.flights = Function.update c.flights d (some f'))
    (hrank : callRank f' = callRank f) : callWork ids c' = callWork ids c := by
  refine Finset.sum_congr rfl fun e _ => ?_
  rw [hc', Function.update_apply]
  split_ifs with he
  · rw [he, hf]
    exact hrank
  · rfl

end Work

/-! ### The connection comes to rest -/

section Step

variable {ids : Finset CallId} {ups downs : List Message}

theorem work_client (hflow : Flowing env opt srv s ups downs) (hlink : Linked env opt srv s)
    (hids : ∀ d, s.client.flights d ≠ none → d ∈ ids) {l : Client.Machine.Label V}
    {c : Client.Machine.State V} (hnet : ∀ data, l ≠ .net data)
    (hown : Own env opt srv s (.client l)) (heff : Client.Steps.Effect env opt s.client l c) :
    work ids { s with client := c } < work ids s := by
  have hquiet := hown.1.1.1
  cases heff with
  | refuse => exact hown.2.elim
  | register => exact hown.2.elim
  | @act d f a _ hf ha =>
    have hmem : d ∈ ids := hids d (by rw [hf]; exact Option.some_ne_none f)
    have hmove : ∀ {g : Flight V → Flight V}, c.flights = modifyCall s.client.flights d g →
        (g f).wait = f.wait → sendRank (g f).send < sendRank f.send →
          callWork ids c < callWork ids s.client := by
      intro g hc' hwait hlt
      refine callWork_lt hmem hf hc' ?_
      rw [callRank, callRank, hwait]
      omega
    refine work_lt_of_call ?_
    cases ha with
    | prepare hpc => exact hmove rfl rfl (by rw [hpc]; exact Nat.lt_succ_self 2)
    | prepareFail hpc => exact hmove rfl rfl (by rw [hpc]; exact Nat.succ_pos 2)
    | write hpc => exact hmove rfl rfl (by rw [hpc]; exact Nat.lt_succ_self 1)
    | free hpc =>
      obtain rfl : _ = false := hquiet
      exact hmove rfl rfl (by rw [hpc]; exact Nat.one_pos)
    | receive hpc hwait =>
      refine callWork_lt hmem hf rfl ?_
      show sendRank f.send + 0 < sendRank f.send + waitRank f.wait
      rw [hwait]
      exact Nat.add_lt_add_left (by decide) _
    | _ => exact hquiet.elim
  | readCrash _ hdec =>
    obtain ⟨res, r, hdec'⟩ := hown.1.2
    cases hdec.symm.trans hdec'
  | readErr _ hdec =>
    obtain ⟨res, r, hdec'⟩ := hown.1.2
    cases hdec.symm.trans hdec'
  | readPush hpc hdec hpush => cases (not_push hlink hpc hdec).symm.trans hpush
  | @read err res r hpc hdec =>
    obtain ⟨m, downs', -, -, -, -, hlt⟩ := hflow.read hdec
    refine work_lt_of_down rfl rfl rfl ?_
    show 2 * (2 * (s.server.out.length - s.down) + r.data.length) + 1 < downWork s
    rw [downWork]
    omega
  | respondNone hpc =>
    refine work_lt_of_down rfl rfl rfl ?_
    rw [downWork, downWork, hpc]
    exact Nat.lt_succ_self _
  | @respond d f fr hpc hf =>
    have hnext : readerRank (.next (Client.Machine.handleCall env s.client.res f.call).2) = 0 := by
      cases (Client.Machine.handleCall env s.client.res f.call).2 <;> rfl
    refine work_lt_of_down (callWork_update hf rfl rfl) rfl rfl ?_
    rw [downWork, downWork, hnext, hpc]
    exact Nat.lt_succ_self _
  | exit hpc => rcases hflow.alive.reader with hr | ⟨t, fr, hr⟩ <;> cases hr.symm.trans hpc
  | close => exact hquiet.elim
  | connClose => exact hquiet.elim
  | closeClient => exact hquiet.elim
  | net => exact absurd rfl (hnet _)

theorem handlerWork_lt {t t' : Server.Machine.State V} {k : ℕ} {g g' : Handler V}
    (hk : t.handlers[k]? = some g) (hset : t'.handlers = t.handlers.set k g')
    (hlt : (if isStarted g'.pc then 1 else 0) + (if isUnfinished g'.pc then 1 else 0) <
      (if isStarted g.pc then 1 else 0) + if isUnfinished g.pc then 1 else 0) :
    handlerWork t' < handlerWork t := by
  have hstarted := countP_set_add (fun h => isStarted h.pc) hk g'
  have hunfinished := countP_set_add (fun h => isUnfinished h.pc) hk g'
  rw [handlerWork, handlerWork, hset]
  omega

theorem work_server (hflow : Flowing env opt srv s ups downs) {l : Server.Machine.Label V}
    {t : Server.Machine.State V} (hown : Own env opt srv s (.server l))
    (hs : Server.Machine.step env srv s.server l = some t) :
    work ids { s with server := t } < work ids s := by
  cases l with
  | decode b err =>
    obtain ⟨req, r, hdec, rfl⟩ := decode_of_healthy hown.1 hs
    obtain ⟨m, ups', -, -, -, hlt⟩ := hflow.up.decode hdec
    refine work_lt_of_up rfl ?_
    show 2 * (s.client.out.length - s.up) + r.data.length < upWork s
    rw [upWork]
    omega
  | handle k b method =>
    cases Server.Machine.effect_of_step hs with
    | @handle _ _ _ g hk hpc =>
      refine work_lt_of_handler rfl rfl (handlerWork_lt hk rfl ?_)
      rw [hpc]
      have hpc' : (g.handle env srv b method).pc =
          (Server.Machine.serveRequest env srv g.req (pooled b) method).elim .finished .ready := rfl
      rw [hpc']
      cases Server.Machine.serveRequest env srv g.req (pooled b) method with
      | none => exact Nat.two_pos
      | some res => exact Nat.one_lt_two
  | write k order =>
    cases Server.Machine.effect_of_step hs with
    | @write _ _ g res hk hpc =>
      refine work_lt_of_handler rfl rfl (handlerWork_lt hk rfl ?_)
      rw [hpc]
      exact Nat.one_pos
  | writeErr k order n => exact hown.1.1.elim
  | close => exact hown.1.2.elim

/-- **Each step of its own uses up some work.** -/
theorem work_step (hflow : Flowing env opt srv s ups downs) (hlink : Linked env opt srv s)
    (hids : ∀ d, s.client.flights d ≠ none → d ∈ ids) (hown : Own env opt srv s l)
    (hstep : step env opt srv s l = some s') : work ids s' < work ids s := by
  cases l with
  | client l =>
    cases effect_of_step hstep with
    | client hnet hs =>
      exact work_client hflow hlink hids hnet hown (Client.Steps.effect_of_step hs)
  | server l =>
    cases effect_of_step hstep with
    | server hs => exact work_server hflow hown hs
  | toServer n =>
    obtain ⟨hn, hlt⟩ := hown.2
    cases hstep
    refine work_lt_of_up rfl ?_
    simp only [upWork, List.length_append, List.length_take, List.length_drop]
    omega
  | toClient n =>
    obtain ⟨hn, hlt⟩ := hown.2
    obtain ⟨c, hc, rfl⟩ := Option.map_eq_some_iff.mp hstep
    cases Client.Steps.effect_of_step hc with
    | net =>
      refine work_lt_of_down rfl rfl rfl ?_
      simp only [downWork, List.length_append, List.length_take, List.length_drop]
      omega

end Step

theorem calls_of_own (hown : Own env opt srv s l) (hstep : step env opt srv s l = some s') :
    s'.client.registered = s.client.registered ∧
      ∀ d, s.client.flights d = none → s'.client.flights d = none := by
  have hclient : ∀ {l : Client.Machine.Label V} {c : Client.Machine.State V},
      (∀ d v ctx p m args reply, l ≠ .send d v ctx p m args reply) →
      Client.Steps.Effect env opt s.client l c →
      c.registered = s.client.registered ∧ ∀ d, s.client.flights d = none → c.flights d = none := by
    intro l c hl heff
    constructor
    · cases heff with
      | register => exact absurd rfl (hl _ _ _ _ _ _ _)
      | act _ ha => cases ha <;> rfl
      | _ => rfl
    · intro d hd
      by_contra hne
      obtain ⟨f', hf'⟩ := Option.ne_none_iff_exists'.mp hne
      rcases Client.Steps.flight_cases heff hf' with ⟨f, hf, -⟩
        | ⟨-, v, ctx, p, m, args, reply, hsend, -⟩
      · cases hd.symm.trans hf
      · exact hl _ _ _ _ _ _ _ hsend
  cases effect_of_step hstep with
  | client hnet hs =>
    refine hclient ?_ (Client.Steps.effect_of_step hs)
    rintro d v ctx p m args reply rfl
    exact hown.2
  | server => exact ⟨rfl, fun _ hd => hd⟩
  | toServer => exact ⟨rfl, fun _ hd => hd⟩
  | toClient _ hs =>
    refine hclient ?_ (Client.Steps.effect_of_step hs)
    rintro d v ctx p m args reply ⟨⟩

theorem calls_finite {ok : State V → Label V → Prop} (h : Reach (step env opt srv) ok init s) :
    ∃ ids : Finset CallId, ∀ d, s.client.flights d ≠ none → d ∈ ids := by
  refine h.invariant (P := fun s => ∃ ids : Finset CallId, ∀ d, s.client.flights d ≠ none → d ∈ ids)
    ⟨∅, fun d hd => absurd rfl hd⟩ ?_
  rintro t u l - ⟨ids, hids⟩ - hstep
  have hclient : ∀ {l : Client.Machine.Label V}, Client.Steps.Effect env opt t.client l u.client →
      ∃ ids : Finset CallId, ∀ d, u.client.flights d ≠ none → d ∈ ids := by
    intro l heff
    -- one step makes at most one call
    by_cases hnew : ∃ e, t.client.flights e = none ∧ u.client.flights e ≠ none
    · obtain ⟨e, he, hue⟩ := hnew
      refine ⟨insert e ids, fun d hd => ?_⟩
      obtain ⟨f', hf'⟩ := Option.ne_none_iff_exists'.mp hue
      obtain ⟨g', hg'⟩ := Option.ne_none_iff_exists'.mp hd
      rcases Client.Steps.flight_cases heff hg' with ⟨g, hg, -⟩ | ⟨-, _, _, _, _, _, _, hl, -⟩
      · exact Finset.mem_insert_of_mem (hids d (by rw [hg]; exact Option.some_ne_none g))
      · rcases Client.Steps.flight_cases heff hf' with ⟨f, hf, -⟩ | ⟨-, _, _, _, _, _, _, hl', -⟩
        · cases he.symm.trans hf
        · cases hl.symm.trans hl'
          exact Finset.mem_insert_self _ ids
    · refine ⟨ids, fun d hd => hids d fun hnone => hnew ⟨d, hnone, hd⟩⟩
  cases effect_of_step hstep with
  | client _ hs => exact hclient (Client.Steps.effect_of_step hs)
  | server => exact ⟨ids, hids⟩
  | toServer => exact ⟨ids, hids⟩
  | toClient _ hs => exact hclient (Client.Steps.effect_of_step hs)

/-- **A healthy connection that is left to itself comes to rest.** -/
theorem terminates_of_reach {codec : Codec V} (hcodec : codecs env opt.serializeType = some codec)
    (h : Reach (step env opt srv) (Healthy env opt srv) init s)
    (hle : s.client.registered ≤ 2 ^ 64) :
    Terminates (step env opt srv) (Own env opt srv) s := by
  obtain ⟨ids, hids⟩ := calls_finite h
  refine terminates_of_measure
    (I := fun t => Reach (step env opt srv) (Healthy env opt srv) init t ∧
    t.client.registered ≤ 2 ^ 64 ∧ ∀ d, t.client.flights d ≠ none → d ∈ ids) (work ids) ?_
      ⟨h, hle, hids⟩
  rintro t u l ⟨hr, hle, hids⟩ hown hs
  obtain ⟨ups, downs, hflow⟩ := flowing_of_reach hcodec hr hle
  obtain ⟨hreg, hnone⟩ := calls_of_own hown hs
  refine ⟨⟨.tail hr hown.1 hs, hreg.trans_le hle, fun d hd => hids d fun hd' => hd (hnone d hd')⟩,
    ?_⟩
  exact work_step hflow (linked_of_healthy hr) hids hown hs

/-! ### At rest -/

/-- Nothing but the methods is waited for. -/
def AtRest (env : Env V) (opt : ClientOption) (srv : Config V T) (s : State V) : Prop :=
  ∀ l s', Own env opt srv s l → step env opt srv s l = some s' →
    ∃ k b method, l = .server (.handle k b method)

section Rest

variable {ups downs : List Message}

theorem AtRest.disabled (hrest : AtRest env opt srv s) (hown : Own env opt srv s l)
    (hl : ∀ k b method, l ≠ .server (.handle k b method)) : step env opt srv s l = none := by
  by_contra hne
  obtain ⟨s', hs⟩ := Option.ne_none_iff_exists'.mp hne
  obtain ⟨k, b, method, rfl⟩ := hrest l s' hown hs
  exact hl k b method rfl

theorem reader_ne_crashed (ha : Alive s) : s.client.reader ≠ .crashed := by
  rcases ha.reader with hr | ⟨t, fr, hr⟩ <;> rw [hr] <;> exact nofun

/-- A goroutine of a call that can write nothing cannot make a step. -/
theorem AtRest.act (hrest : AtRest env opt srv s) (ha : Alive s) {d : CallId} {f : Flight V}
    {a : Client.Machine.Action} (hf : s.client.flights d = some f)
    (hq : Quiet (.act d a : Client.Machine.Label V))
    (hw : ∀ order req, a = .write order → f.send = .ready req → (frame req order).length < 2 ^ 32) :
    Client.Machine.stepFlight env opt s.client d f a = none := by
  have hown : Own env opt srv s (.client (.act d a)) := by
    refine ⟨⟨⟨hq, ?_⟩, trivial⟩, trivial⟩
    rintro e order f' req ⟨⟩ hf' hpc
    cases hf.symm.trans hf'
    exact hw order req rfl hpc
  have hnone := hrest.disabled hown nofun
  simp only [step, Client.Steps.step_eq_move (reader_ne_crashed ha), Client.Machine.move, hf,
    Option.bind_some, Option.map_eq_none_iff] at hnone
  exact hnone

theorem AtRest.send (hrest : AtRest env opt srv s) (hflow : Flowing env opt srv s ups downs)
    (hlink : Linked env opt srv s) {codec : Codec V}
    (hcodec : codecs env opt.serializeType = some codec)
    {d : CallId} {f : Flight V} (hf : s.client.flights d = some f) : f.send = .finished := by
  have ht := hflow.calls hf
  have hsend := ht.send
  have hact := fun {a : Client.Machine.Action} => hrest.act (a := a) hflow.alive hf
  cases hpc : f.send with
  | registered =>
    obtain ⟨q, hq⟩ := Option.ne_none_iff_exists'.mp ht.numbered
    obtain ⟨req, hfill, -⟩ := ht.sendable codec q 0 hcodec
    rw [← (request_of_reach hlink.client hf).fillRequest_eq] at hfill
    have hnone := hact (a := .prepare 0) trivial (by rintro _ _ ⟨⟩)
    simp only [Client.Machine.stepFlight, hpc, hq, hcodec, hfill] at hnone
    cases hnone
  | ready m =>
    rw [hpc] at hsend
    obtain ⟨order, horder⟩ := exists_order m.meta0
    have hnone := hact (a := .write order) trivial (by
      rintro _ req ⟨⟩ hpc'
      cases hpc.symm.trans hpc'
      exact (hsend.2 order horder).1)
    simp only [Client.Machine.stepFlight, hpc, encode_eq, horder, hflow.alive.clientOpen, and_self,
      if_true] at hnone
    cases hnone
  | written =>
    have hnone := hact (a := .free false) rfl (by rintro _ _ ⟨⟩)
    simp only [Client.Machine.stepFlight, hpc] at hnone
    cases hnone
  | finished => rfl
  | _ =>
    rw [hpc] at hsend
    exact hsend.elim

theorem AtRest.wait (hrest : AtRest env opt srv s) (hflow : Flowing env opt srv s ups downs)
    {d : CallId} {f : Flight V} (hf : s.client.flights d = some f) (hsend : f.send = .finished)
    (hdel : f.delivered ≠ []) :
    f.wait = .none ∨ ∃ e, f.wait = .returned e := by
  cases hwait : f.wait with
  | none => exact Or.inl rfl
  | returned e => exact Or.inr ⟨e, rfl⟩
  | cancelled t err => exact absurd hwait ((hflow.calls hf).wait t err)
  | waiting =>
    obtain ⟨v, vs, hvs⟩ := List.exists_cons_of_ne_nil hdel
    have hnone := hrest.act (a := .receive) hflow.alive hf trivial nofun
    simp only [Client.Machine.stepFlight, hsend, hwait, hvs] at hnone
    cases hnone

theorem AtRest.up (hrest : AtRest env opt srv s) (hflow : Flowing env opt srv s ups downs)
    (hlink : Linked env opt srv s) : ups = [] := by
  have hle := hlink.up_le
  have hall : s.client.out.length ≤ s.up := by
    by_contra hlt
    cases hrest.disabled (l := .toServer 1) ⟨⟨trivial, trivial⟩, Nat.one_pos, by omega⟩ nofun
  have hup := hflow.up
  rw [List.drop_eq_nil_of_le hall, List.append_nil] at hup
  cases ups with
  | nil => rfl
  | cons m ms =>
    obtain ⟨req, r, hdec⟩ := hup.decode_ok (pooled 0) .eof
    have hnone := hrest.disabled (l := .server (.decode 0 .eof))
        ⟨⟨trivial, req, r, hdec⟩, trivial⟩ nofun
    simp [step, Server.Machine.step, hflow.alive.returned] at hnone

theorem AtRest.ready (hrest : AtRest env opt srv s) (hflow : Flowing env opt srv s ups downs)
    {h : Handler V} {res : Message} (hh : h ∈ s.server.handlers) : h.pc ≠ .ready res := by
  intro hpc
  obtain ⟨k, hk⟩ := List.mem_iff_getElem?.mp hh
  obtain ⟨order, horder⟩ := exists_order res.meta0
  have hfit := (hflow.ready hh hpc).1 order horder
  have hown : Own env opt srv s (.server (.write k order)) := by
    refine ⟨⟨fun h' res' hk' hpc' => ?_, trivial⟩, trivial⟩
    cases hk.symm.trans hk'
    cases hpc.symm.trans hpc'
    exact hfit.1
  have hnone := hrest.disabled hown nofun
  simp [step, Server.Machine.step, hk, hpc, encode_eq, horder, hflow.alive.serverOpen] at hnone

theorem AtRest.down (hrest : AtRest env opt srv s) (hflow : Flowing env opt srv s ups downs)
    (hlink : Linked env opt srv s) (hle : s.client.registered ≤ 2 ^ 64)
    (hcodec : codecs env opt.serializeType = some codec) :
    s.client.reader = .loop ∧ downs = [] := by
  have hmove : ∀ l, Client.Machine.step env opt s.client l =
      Client.Machine.move env opt s.client l :=
    Client.Steps.step_eq_move (reader_ne_crashed hflow.alive)
  have hreader : s.client.reader = .loop := by
    rcases hflow.alive.reader with hr | ⟨t, fr, hr⟩
    · exact hr
    · have hown : Own env opt srv s (.client .respond) :=
        ⟨⟨⟨trivial, by rintro _ _ _ _ ⟨⟩⟩, trivial⟩, trivial⟩
      have hnone := hrest.disabled hown (by rintro _ _ _ ⟨⟩)
      have hquiet : ((t.bind s.client.flights).any fun f =>
          Client.Machine.replyPanics env s.client.res f.call) = false := by
        cases t with
        | none => rfl
        | some d =>
          cases hf : s.client.flights d with
          | none => simp [hf]
          | some f => simp [hf, (hflow.accepts hlink hle hcodec hr hf).1]
      simp [step, hmove, Client.Machine.move, hr, hquiet] at hnone
  have hdown_le := hlink.down_le
  have hall : s.server.out.length ≤ s.down := by
    by_contra hlt
    have hown : Own env opt srv s (.toClient 1) := ⟨⟨trivial, trivial⟩, Nat.one_pos, by omega⟩
    have hnone := hrest.disabled hown (by rintro _ _ _ ⟨⟩)
    simp only [step, hmove, Client.Machine.move, hflow.alive.clientOpen, if_true,
      Option.map_some] at hnone
    cases hnone
  refine ⟨hreader, ?_⟩
  have hdown := hflow.down
  rw [List.drop_eq_nil_of_le hall, List.append_nil] at hdown
  cases downs with
  | nil => rfl
  | cons m ms =>
    have hown : Own env opt srv s (.client (.read .eof)) :=
      ⟨⟨⟨trivial, by rintro _ _ _ _ ⟨⟩⟩, hdown.decode_ok s.client.res .eof⟩, trivial⟩
    have hnone := hrest.disabled hown (by rintro _ _ _ ⟨⟩)
    simp only [step, hmove, Client.Machine.move, hreader, Option.map_some] at hnone
    cases hnone

end Rest

/-! ### Answers -/

/-- A handler of the server has answered the call: with what the method of that handler did it is
one exchange, it was completed once, and its caller has returned with its error. -/
structure Answered (env : Env V) (opt : ClientOption) (srv : Config V T) (s : State V)
    (f : Flight V) : Prop where
  exchange : ∃ h ∈ s.server.handlers, ∃ method q b b', h.method = some method ∧ f.seq = some q ∧
    h.req.header.seq = q ∧ f.call = exchange env opt srv f.init q b b' method
  delivered : f.delivered = [f.call.error]
  send : f.send = .finished
  wait : f.wait = .none ∨ f.wait = .returned f.call.error

theorem answered_of_rest {codec : Codec V} (hcodec : codecs env opt.serializeType = some codec)
    (h : Reach (step env opt srv) (Healthy env opt srv) init s) (hle : s.client.registered ≤ 2 ^ 64)
    (hrest : AtRest env opt srv s) {d : CallId} {f : Flight V} (hf : s.client.flights d = some f) :
    Answered env opt srv s f ∨ ∃ g ∈ s.server.handlers, g.pc = .started ∧
      f.seq = some g.req.header.seq := by
  obtain ⟨ups, downs, hflow⟩ := flowing_of_reach hcodec h hle
  have hlink := linked_of_healthy h
  have hsend := hrest.send hflow hlink hcodec hf
  obtain rfl := hrest.up hflow hlink
  obtain ⟨hreader, rfl⟩ := hrest.down hflow hlink hle hcodec
  have hcov := Client.Sequence.covered_of_reach hlink.client.any hle d
    (show (s.client.flights d).isSome = true by rw [hf]; rfl)
  rcases hcov with ⟨q, hq⟩ | ⟨hand, hhand⟩ | hdel
  · -- the call is pending, so its number is somewhere on the way
    obtain ⟨f', hf', hseq⟩ := (Client.Sequence.numbered_of_reach hlink.client).pending_seq hq
    cases hf.symm.trans hf'
    cases hflow.routed hq with
    | unsent hf' hpc =>
      cases hf.symm.trans hf'
      rw [hsend] at hpc
      cases hpc
    | up hm => cases hm
    | started hh hpc hq' => exact Or.inr ⟨_, hh, hpc, hq' ▸ hseq⟩
    | ready hh hpc => exact absurd hpc (hrest.ready hflow hh)
    | down hm => cases hm
  · -- nobody holds it
    exfalso
    cases hand with
    | reader =>
      change Client.Custody.readerHeld s.client.reader = some d at hhand
      rw [hreader] at hhand
      cases hhand
    | sender e =>
      obtain ⟨fe, he, hheld⟩ := Option.bind_eq_some_iff.mp hhand
      rw [hrest.send hflow hlink hcodec he] at hheld
      cases hheld
    | waiter e =>
      obtain ⟨fe, he, hheld⟩ := Option.bind_eq_some_iff.mp hhand
      cases hwait : fe.wait with
      | cancelled t err => exact (hflow.calls he).wait t err hwait
      | _ =>
        rw [hwait] at hheld
        cases hheld
  · refine Or.inl ?_
    have hdel' : f.delivered ≠ [] := by
      rwa [show (ledger s.client).settled d = f.delivered by
        show Client.Custody.deliveredTo s.client d = _
        rw [Client.Custody.deliveredTo, hf]
        rfl] at hdel
    have hans : f.frames ≠ [] := by
      obtain ⟨req, hfill, -⟩ := (hflow.calls hf).sendable codec 0 0 hcodec
      have henc := EndToEnd.encodable_of_fillRequest hcodec hfill
      rcases settled_of_reach hlink.client hf (hflow.calls hf).numbered henc with ⟨-, hfresh⟩
        | ⟨fr, hfr, -⟩
      · exact absurd (hfresh (by rw [hreader]; simp)).2.1 hdel'
      · rw [hfr]
        exact List.cons_ne_nil fr []
    obtain ⟨k, hk, method, codec', q, b, b', m, res, hmethod, hq, hcodec', hreq, hkreq, -, hcall,
      hone, hret⟩ :=
      EndToEnd.answered_exchange (h.mono fun _ _ hok => hok.1) hle hf hans
    have hseq : k.req.header.seq = q := by
      rw [hkreq]
      show m.header.seq = q
      exact fillRequest_seq hreq
    refine ⟨⟨k, hk, method, q, b, b', hmethod, hq, hseq, hcall⟩, hone, hsend, ?_⟩
    rcases hrest.wait hflow hf hsend hdel' with hnone | ⟨e, he⟩
    · exact Or.inl hnone
    · exact Or.inr (by rw [he, hret e he])

theorem atRest_of_done (hclient : s.client.inp = []) (hserver : s.server.inp = [])
    (hup : s.client.out.length ≤ s.up) (hdown : s.server.out.length ≤ s.down)
    (hreader : s.client.reader = .loop)
    (hcalls : ∀ {d f}, s.client.flights d = some f → f.send = .finished ∧ f.wait ≠ .waiting)
    (hhandlers : ∀ {h res}, h ∈ s.server.handlers → h.pc ≠ .ready res) : AtRest env opt srv s := by
  intro l s' hown hstep
  cases l with
  | client l =>
    exfalso
    cases effect_of_step hstep with
    | client hnet hs =>
      have hquiet := hown.1.1.1
      cases Client.Steps.effect_of_step hs with
      | refuse => exact hown.2
      | register => exact hown.2
      | act hf ha =>
        obtain ⟨hsend, hwait⟩ := hcalls hf
        cases ha with
        | prepare hpc => cases hsend.symm.trans hpc
        | prepareFail hpc => cases hsend.symm.trans hpc
        | write hpc => cases hsend.symm.trans hpc
        | free hpc => cases hsend.symm.trans hpc
        | receive _ hw => exact hwait hw
        | _ => exact hquiet
      | net => exact hnet _ rfl
      | respondNone hpc => cases hreader.symm.trans hpc
      | respond hpc => cases hreader.symm.trans hpc
      | exit hpc => cases hreader.symm.trans hpc
      | close => exact hquiet
      | connClose => exact hquiet
      | closeClient => exact hquiet
      | _ =>
        obtain ⟨res, r, hdec⟩ := hown.1.2
        exact ne_nil_of_decode hdec hclient
  | server l =>
    cases effect_of_step hstep with
    | server hs =>
      cases l with
      | decode b err =>
        obtain ⟨req, r, hdec⟩ := hown.1.2
        exact absurd hserver (ne_nil_of_decode hdec)
      | handle k b method => exact ⟨k, b, method, rfl⟩
      | write k order =>
        cases Server.Machine.effect_of_step hs with
        | write hk hpc => exact absurd hpc (hhandlers (List.mem_of_getElem? hk))
      | writeErr k order n => exact hown.1.1.elim
      | close => exact hown.1.2.elim
  | toServer n => exact absurd hown.2.2 (by omega)
  | toClient n => exact absurd hown.2.2 (by omega)

theorem deliverable_of_empty {m : Message} (hmeta : m.meta0 = ∅)
    (hlen : m.servicePath.length + m.serviceMethod.length + m.payload.length < 100) :
    Deliverable 0 m := by
  intro order horder
  have hnil : order.entries = [] := by
    rw [hmeta, show (∅ : Metadata) = AList.toFinmap ∅ from rfl, AList.toFinmap_eq] at horder
    exact horder.eq_nil
  have hempty : encodeMetadata order = [] := by simp [encodeMetadata, hnil]
  refine ⟨?_, fun h => absurd h.1 (by decide)⟩
  rw [length_frame, length_bodyOf, hempty]
  simp only [List.length_nil]
  omega

section One

variable {t : State (Option Bytes)}

theorem own_quiet {l : Client.Machine.Label (Option Bytes)} (hq : Quiet l)
    (hw : ∀ c order, l ≠ .act c (.write order)) (hread : ∀ err, l ≠ .read err)
    (hsend : ∀ c v ctx p m args reply, l ≠ .send c v ctx p m args reply) :
    Own quoteEnv jsonOption oneMethod t (.client l) := by
  have hat : Atomic t (.client l) := ⟨hq, fun c order _ _ hl => absurd hl (hw c order)⟩
  cases l with
  | send c v ctx p m args reply => exact absurd rfl (hsend c v ctx p m args reply)
  | read err => exact absurd rfl (hread err)
  | _ => exact ⟨⟨hat, trivial⟩, trivial⟩

/-- A call was made. -/
def oneSent : State (Option Bytes) :=
  ⟨Client.Machine.stepSend quoteEnv jsonOption Client.Machine.init 0 true
    ⟨none, none, false⟩ [65] [77]
    (some [97]) (some []), Server.Machine.init, 0, 0⟩

end One

end Frpc.System.Progress
