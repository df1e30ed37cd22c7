import Frpc.Circuit.Breaker
import Frpc.Lib.Tables

/-! # Calls that overlap

`Breaker.lean` has the calls of `circuit/breaker_simple.go` one after the other. A client hands one
breaker to all its connections, and its calls overlap. The breaker has no lock: `failures` is read
and written atomically, `lastFailureTime` is a plain field, and between two accesses of one call the
others go on. A step here is one access to the breaker or one reading of the clock.

A call that was let in is counted when it has failed, so the calls that are on their way are let in
on the same count. With at most `K` calls at a time, between two moments at which the counter is set
to zero, the breaker lets in no more than `threshold + K - 1` calls (`overshoot_bounded`), and none
once the counter has reached the threshold. Calls one after the other do what `Breaker.lean` says
(`overlap_of_history`). -/

namespace Frpc.Circuit.Overlap

open Frpc.Basic Frpc.Lib.Runs Frpc.Lib.Tables Frpc.Circuit.Breaker

/-! ### Steps -/

/-- What comes after `reset` or `fail`. -/
inductive After where
  /-- `fn` is run. -/
  | running
  /-- `Call` returns. -/
  | returned (err : Option Error)

/-- Where a call of `Call` stands. -/
inductive Pc where
  /-- `ready`: `lastFailureTime` is read, -/
  | ready
  /-- and then the clock, by `time.Since`. -/
  | since (lastFailureTime : ℤ)
  /-- `ready`: `failures` is loaded. -/
  | load
  /-- `reset`: zero is stored. -/
  | reset (after : After)
  /-- `fn` or the timer is waited for. -/
  | running
  /-- `fail`: one is added. -/
  | add (err : Error)
  /-- The end of `reset` and of `fail`: the clock is read, -/
  | now (after : After)
  /-- and `lastFailureTime` is written. -/
  | store (t : ℤ) (after : After)
  | returned (err : Option Error)

/-- A call of `Call(fn, d)`. -/
structure Call where
  d : ℤ
  pc : Pc

/-- A breaker, the clock and the calls. `admitted` is there for the statements only: the calls for
which `fn` is run. -/
structure State where
  cb : SimpleCircuitBreaker
  now : ℤ
  calls : List Call
  admitted : ℕ

/-- The steps. -/
inductive Label where
  /-- Time passes. -/
  | clock (now : ℤ)
  /-- `Call(fn, d)` is called. -/
  | start (d : ℤ)
  /-- A call makes its next access. -/
  | go (k : ℕ)
  /-- `fn` returns to a call that waits for it. After the timer has fired, what `fn` returns stays
  in the channel. -/
  | finish (k : ℕ) (err : Option Error)
  /-- The timer of a call fires. -/
  | fire (k : ℕ)

/-- A new breaker. -/
def init (threshold : UInt64) (window now : ℤ) : State :=
  ⟨newSimpleCircuitBreaker threshold window, now, [], 0⟩

/-- What a call does next. -/
def After.pc : After → Pc
  | .running => .running
  | .returned err => .returned err

/-- Set where a call stands. -/
def State.setPc (s : State) (k : ℕ) (call : Call) (pc : Pc) : State :=
  { s with calls := s.calls.set k { call with pc } }

/-- The next access of a call. -/
def State.go (s : State) (k : ℕ) (call : Call) : Option State :=
  match call.pc with
  | .ready => some (s.setPc k call (.since s.cb.lastFailureTime))
  | .since last =>
    some (s.setPc k call
      (if Breaker.since last s.now > s.cb.window then .reset .running else .load))
  | .load =>
    if s.cb.failures < s.cb.failureThreshold then
      some { s.setPc k call .running with admitted := s.admitted + 1 }
    else some (s.setPc k call (.returned (some errBreakerOpen)))
  | .reset after =>
    some { s.setPc k call (.now after) with
      cb := { s.cb with failures := 0 }
      admitted := match after with
        | .running => s.admitted + 1
        | .returned _ => s.admitted }
  | .running => none
  | .add err =>
    some { s.setPc k call (.now (.returned (some err))) with
      cb := { s.cb with failures := s.cb.failures + 1 } }
  | .now after => some (s.setPc k call (.store s.now after))
  | .store t after => some { s.setPc k call after.pc with cb := { s.cb with lastFailureTime := t } }
  | .returned _ => none

/-- What `Call` does with `err`. -/
def settled : Option Error → Pc
  | none => .reset (.returned none)
  | some err => .add err

/-- One step. -/
def step (s : State) : Label → Option State
  | .clock now => if s.now ≤ now then some { s with now } else none
  | .start d => some { s with calls := s.calls ++ [⟨d, .ready⟩] }
  | .go k => (s.calls[k]?).bind fun call => s.go k call
  | .finish k err =>
    (s.calls[k]?).bind fun call =>
      match call.pc with
      | .running => some (s.setPc k call (settled err))
      | _ => none
  | .fire k =>
    (s.calls[k]?).bind fun call =>
      match call.pc with
      | .running =>
        if call.d = 0 then none else some (s.setPc k call (settled (some errBreakerTimeout)))
      | _ => none

/-! ### Counting calls -/

/-- The call has not returned. -/
def Pc.isOpen : Pc → Bool
  | .returned _ => false
  | _ => true

/-- The call was let in, and the counter has not heard of its end. -/
def Pc.isPending : Pc → Bool
  | .now .running => true
  | .store _ .running => true
  | .running => true
  | .add _ => true
  | .reset (.returned _) => true
  | _ => false

/-- The calls that have not returned. -/
def State.unfinished (s : State) : ℕ := s.calls.countP fun call => call.pc.isOpen

/-- The calls that were let in and of whose end the counter has not heard. -/
def State.pending (s : State) : ℕ := s.calls.countP fun call => call.pc.isPending

/-- `reset` is about to store zero. -/
def Pc.isReset : Pc → Bool
  | .reset _ => true
  | _ => false

/-- The step sets the counter to zero. -/
def setsZero (s : State) : Label → Bool
  | .go k => (s.calls[k]?).any fun call => call.pc.isReset
  | _ => false

/-- At most `K` calls at a time. -/
def atMost (K : ℕ) (s : State) : Label → Bool
  | .start _ => decide (s.unfinished < K)
  | _ => true

variable {s t : State} {l : Label} {k : ℕ} {call : Call} {pc : Pc}

theorem isOpen_of_isPending (h : pc.isPending = true) : pc.isOpen = true := by
  cases pc with
  | returned err => cases h
  | _ => rfl

theorem pending_le_unfinished (s : State) : s.pending ≤ s.unfinished :=
  List.countP_mono_left fun _ _ h => isOpen_of_isPending h

theorem isPending_settled (err : Option Error) : (settled err).isPending = true := by
  cases err <;> rfl

theorem After.isPending_store (after : After) (t : ℤ) :
    (Pc.store t after).isPending = after.pc.isPending := by
  cases after <;> rfl

theorem After.isPending_now (after : After) (t : ℤ) :
    (Pc.now after).isPending = (Pc.store t after).isPending := by
  cases after <;> rfl

/-! ### What a step does -/

/-- What a call does to the counter when it goes on. -/
inductive Counts (s : State) (l : Label) (old new : Pc) (failures : UInt64) (admitted : ℕ) : Prop
  /-- Nothing. -/
  | quiet (hpend : old.isPending = new.isPending) (hfail : failures = s.cb.failures)
      (hadm : admitted = s.admitted)
  /-- It is let in on the counter. -/
  | enter (hlt : s.cb.failures < s.cb.failureThreshold) (hold : old.isPending = false)
      (hnew : new.isPending = true) (hfail : failures = s.cb.failures)
      (hadm : admitted = s.admitted + 1)
  /-- It has failed. -/
  | add (hold : old.isPending = true) (hnew : new.isPending = false)
      (hfail : failures = s.cb.failures + 1) (hadm : admitted = s.admitted)
  /-- It sets the counter to zero. -/
  | zero (hzero : setsZero s l = true) (hfail : failures = 0)

/-- The step function, inverted, as far as the counter is concerned. -/
inductive Effect (s : State) : Label → State → Prop
  | clock {now : ℤ} : Effect s (.clock now) { s with now }
  | start {d : ℤ} : Effect s (.start d) { s with calls := s.calls ++ [⟨d, .ready⟩] }
  | move {l : Label} {k : ℕ} {call : Call} {pc : Pc} {cb : SimpleCircuitBreaker} {admitted : ℕ}
      (hk : s.calls[k]? = some call) (hopen : call.pc.isOpen = true)
      (hthreshold : cb.failureThreshold = s.cb.failureThreshold)
      (hcounts : Counts s l call.pc pc cb.failures admitted) :
      Effect s l { s.setPc k call pc with cb, admitted }

theorem Effect.quiet (hk : s.calls[k]? = some call) (hopen : call.pc.isOpen = true)
    (hpend : call.pc.isPending = pc.isPending) : Effect s l (s.setPc k call pc) :=
  Effect.move hk hopen (Eq.refl s.cb.failureThreshold) (.quiet hpend rfl rfl)

theorem effect_of_go (hk : s.calls[k]? = some call) (hs : s.go k call = some t) :
    Effect s (.go k) t := by
  unfold State.go at hs
  split at hs
  case h_1 hpc =>
    cases hs
    exact .quiet hk (by rw [hpc]; rfl) (by rw [hpc]; rfl)
  case h_2 last hpc =>
    cases hs
    refine .quiet hk (by rw [hpc]; rfl) ?_
    rw [hpc]
    split_ifs <;> rfl
  case h_3 hpc =>
    split_ifs at hs with hlt
    · cases hs
      exact .move hk (by rw [hpc]; rfl) rfl (.enter hlt (by rw [hpc]; rfl) rfl rfl rfl)
    · cases hs
      exact .quiet hk (by rw [hpc]; rfl) (by rw [hpc]; rfl)
  case h_4 after hpc =>
    cases hs
    exact .move hk (by rw [hpc]; rfl) rfl (.zero (by simp [setsZero, hk, hpc, Pc.isReset]) rfl)
  case h_5 => cases hs
  case h_6 err hpc =>
    cases hs
    exact .move hk (by rw [hpc]; rfl) rfl (.add (by rw [hpc]; rfl) rfl rfl rfl)
  case h_7 after hpc =>
    cases hs
    exact .quiet hk (by rw [hpc]; rfl) (by rw [hpc, after.isPending_now])
  case h_8 t after hpc =>
    cases hs
    exact .move hk (by rw [hpc]; rfl) rfl (.quiet (by rw [hpc, after.isPending_store]) rfl rfl)
  case h_9 => cases hs

theorem effect_of_step (hs : step s l = some t) : Effect s l t := by
  cases l with
  | clock now =>
    simp only [step] at hs
    split_ifs at hs
    cases hs
    exact .clock
  | start d =>
    cases hs
    exact .start
  | go k =>
    obtain ⟨call, hk, hs⟩ := Option.bind_eq_some_iff.mp hs
    exact effect_of_go hk hs
  | finish k err =>
    obtain ⟨call, hk, hs⟩ := Option.bind_eq_some_iff.mp hs
    split at hs
    · rename_i hpc
      cases hs
      exact .quiet hk (by rw [hpc]; rfl) (by rw [hpc, isPending_settled]; rfl)
    · cases hs
  | fire k =>
    obtain ⟨call, hk, hs⟩ := Option.bind_eq_some_iff.mp hs
    split at hs
    · rename_i hpc
      split_ifs at hs
      cases hs
      exact .quiet hk (by rw [hpc]; rfl) (by rw [hpc, isPending_settled]; rfl)
    · cases hs

/-! ### The bound -/

section Bound

variable {K : ℕ} {threshold : UInt64} {window now : ℤ}

/-- With at most `K` calls at a time: there are no more, and the failures that are counted and those
that may still come stay below the threshold and `K`. -/
structure Bounded (K : ℕ) (threshold : UInt64) (s : State) : Prop where
  same : s.cb.failureThreshold = threshold
  unfinished : s.unfinished ≤ K
  failures : s.cb.failures.toNat + s.pending ≤ threshold.toNat - 1 + K

theorem Bounded.init : Bounded K threshold (init threshold window now) :=
  ⟨rfl, Nat.zero_le _, Nat.zero_le _⟩

/-- There are no more calls than before, unless one is started. -/
theorem unfinished_of_step (h : s.unfinished ≤ K) (hok : atMost K s l = true)
    (hs : step s l = some t) :
    t.unfinished ≤ K := by
  cases effect_of_step hs with
  | clock => exact h
  | @start d =>
    have hcount : State.unfinished { s with calls := s.calls ++ [⟨d, .ready⟩] } =
        s.unfinished + 1 := by
      simp [State.unfinished, Pc.isOpen]
    rw [hcount]
    exact of_decide_eq_true hok
  | @move _ k call pc cb admitted hk hopen _ _ =>
    have hcount := countP_set_add (fun c : Call => c.pc.isOpen) hk { call with pc }
    rw [if_pos hopen] at hcount
    have hle : (s.calls.set k { call with pc }).countP (fun c => c.pc.isOpen) ≤ s.unfinished := by
      unfold State.unfinished
      split_ifs at hcount <;> omega
    exact hle.trans h

theorem threshold_of_step (hs : step s l = some t) :
    t.cb.failureThreshold = s.cb.failureThreshold := by
  cases effect_of_step hs with
  | clock => rfl
  | start => rfl
  | move _ _ hthreshold _ => exact hthreshold

/-- What a step that does not set the counter to zero does to the numbers: the failures, those that
may still come and the calls that were let in. -/
theorem balance_of_step (hno : setsZero s l = false)
    (hsum : s.cb.failures.toNat + s.pending < 2 ^ 64) (hs : step s l = some t) :
    s.cb.failures.toNat ≤ t.cb.failures.toNat ∧
    s.cb.failures.toNat + s.pending + t.admitted = t.cb.failures.toNat + t.pending + s.admitted ∧
    (t.admitted = s.admitted ∨ s.cb.failures < s.cb.failureThreshold ∧ t.admitted = s.admitted + 1 ∧
      t.cb.failures = s.cb.failures) := by
  cases effect_of_step hs with
  | clock => exact ⟨le_rfl, rfl, Or.inl rfl⟩
  | start =>
    refine ⟨le_rfl, ?_, Or.inl rfl⟩
    simp [State.pending, Pc.isPending]
  | @move _ k call pc cb admitted hk hopen _ hcounts =>
    have hcount := countP_set_add (fun c : Call => c.pc.isPending) hk { call with pc }
    dsimp only at hcount
    have hpend : ∀ cb admitted, State.pending { s.setPc k call pc with cb, admitted } =
        (s.calls.set k { call with pc }).countP fun c => c.pc.isPending := fun _ _ => rfl
    have hpend' : s.pending = s.calls.countP fun c => c.pc.isPending := rfl
    rw [hpend]
    rw [hpend'] at hsum ⊢
    dsimp only
    cases hcounts with
    | quiet heq hfail hadm =>
      rw [heq] at hcount
      rw [hfail, hadm]
      exact ⟨le_rfl, by omega, Or.inl rfl⟩
    | enter hlt hold hnew hfail hadm =>
      rw [hold, hnew, if_pos rfl, if_neg (by simp)] at hcount
      rw [hfail, hadm]
      exact ⟨le_rfl, by omega, Or.inr ⟨hlt, rfl, rfl⟩⟩
    | add hold hnew hfail hadm =>
      rw [hold, hnew, if_pos rfl, if_neg (by simp)] at hcount
      have hnext : (s.cb.failures + 1).toNat = s.cb.failures.toNat + 1 := by
        rw [UInt64.toNat_add, UInt64.toNat_one, Nat.mod_eq_of_lt (by omega)]
      rw [hfail, hadm, hnext]
      exact ⟨by omega, by omega, Or.inl rfl⟩
    | zero hzero _ => simp [hno] at hzero

theorem failures_of_setsZero (hzero : setsZero s l = true) (hs : step s l = some t) :
    t.cb.failures = 0 := by
  cases l with
  | go k =>
    obtain ⟨call, hk, hs⟩ := Option.bind_eq_some_iff.mp hs
    simp only [setsZero, hk, Option.any_some] at hzero
    unfold State.go at hs
    cases hpc : call.pc with
    | reset after =>
      rw [hpc] at hs
      cases hs
      rfl
    | _ =>
      rw [hpc] at hzero
      cases hzero
  | _ => cases hzero

theorem Bounded.step (hrange : threshold.toNat + K < 2 ^ 64) (h : Bounded K threshold s)
    (hok : atMost K s l = true) (hs : step s l = some t) : Bounded K threshold t := by
  have hsame := (threshold_of_step hs).trans h.same
  have hunfinished := unfinished_of_step h.unfinished hok hs
  have hpend : t.pending ≤ K := (pending_le_unfinished t).trans hunfinished
  have hle := h.failures
  refine ⟨hsame, hunfinished, ?_⟩
  by_cases hzero : setsZero s l = true
  · rw [failures_of_setsZero hzero hs, UInt64.toNat_zero]
    omega
  · obtain ⟨-, hbal, heq | ⟨hlt, -, hfail⟩⟩ := balance_of_step (by simpa using hzero) (by omega) hs
    · omega
    · have hlt' : s.cb.failures.toNat < threshold.toNat := by
        rw [← h.same]
        exact UInt64.lt_iff_toNat_lt.mp hlt
      rw [hfail]
      omega

theorem bounded_of_reach (hrange : threshold.toNat + K < 2 ^ 64)
    (h : Reach step (fun u l => atMost K u l = true) (init threshold window now) s) :
    Bounded K threshold s := by
  refine h.invariant (P := Bounded K threshold) .init ?_
  intro t u l _ hb hok hs
  exact hb.step hrange hok hs

/-- **The overshoot is bounded.** With at most `K` calls at a time, in every run: between two
moments with no store of zero in between, the counter does not go down, and the calls that were let
in are those that have failed or may still fail; there are no more of them than the threshold, `K`
and what was there before allow; and there are none if the counter had reached the threshold. -/
theorem overshoot_bounded (hrange : threshold.toNat + K < 2 ^ 64)
    (hs : Reach step (fun u l => atMost K u l = true) (init threshold window now) s)
    (h : Reach step (fun u l => atMost K u l = true ∧ setsZero u l = false) s t) :
    s.cb.failures ≤ t.cb.failures ∧
    s.cb.failures.toNat + s.pending + t.admitted = t.cb.failures.toNat + t.pending + s.admitted ∧
    t.admitted + s.cb.failures.toNat + s.pending ≤ s.admitted + (threshold.toNat - 1) + K ∧
    (threshold ≤ s.cb.failures → t.admitted = s.admitted) := by
  have hbound : ∀ {u}, Reach step (fun u l => atMost K u l = true ∧ setsZero u l = false) s u →
      Bounded K threshold u :=
    fun hu => bounded_of_reach hrange (hs.trans (hu.mono fun _ _ hok => hok.1))
  have hrun : s.cb.failures.toNat ≤ t.cb.failures.toNat ∧
      s.cb.failures.toNat + s.pending + t.admitted = t.cb.failures.toNat + t.pending + s.admitted ∧
      (threshold ≤ s.cb.failures → t.admitted = s.admitted) := by
    refine h.invariant (P := fun t => s.cb.failures.toNat ≤ t.cb.failures.toNat ∧
      s.cb.failures.toNat + s.pending + t.admitted = t.cb.failures.toNat + t.pending + s.admitted ∧
      (threshold ≤ s.cb.failures → t.admitted = s.admitted)) ⟨le_rfl, rfl, fun _ => rfl⟩ ?_
    rintro u v l hu ⟨hle, hbal, hopen⟩ ⟨-, hno⟩ hstep
    have hb := hbound hu
    have hsum := hb.failures
    obtain ⟨hle', hbal', hadm⟩ := balance_of_step hno (by omega) hstep
    refine ⟨hle.trans hle', by omega, fun hge => ?_⟩
    rcases hadm with heq | ⟨hlt, -, -⟩
    · rw [heq, hopen hge]
    · have hge' := UInt64.le_iff_toNat_le.mp hge
      rw [hb.same] at hlt
      have hlt' := UInt64.lt_iff_toNat_lt.mp hlt
      omega
  have hb := (hbound h).failures
  obtain ⟨hle, hbal, hopen⟩ := hrun
  exact ⟨UInt64.le_iff_toNat_le.mpr hle, hbal, by omega, hopen⟩

/-- The steps of a call that is let in on the counter. -/
def letIn (k : ℕ) : List Label := [.start 0, .go k, .go k, .go k]

/-- The steps of a call that fails. -/
def fails (k : ℕ) : List Label := [.finish k (some .eof), .go k, .go k, .go k]

/-- The threshold is two, and there are two calls at a time: the third call is let in while the
second is still on its way, all three fail, and the fourth is refused. -/
theorem overshoot_bounded_two :
    ∃ t, Reach step (fun u l => atMost 2 u l = true ∧ setsZero u l = false) (init 2 10 0) t ∧
      t.admitted = 3 ∧ t.cb.failures = 3 ∧
      (t.calls[3]?).map (fun call => call.pc) = some (.returned (some errBreakerOpen)) ∧
      t.admitted ≤ 0 + ((2 : UInt64).toNat - 1) + 2 := by
  have hrun : Reach step (fun u l => atMost 2 u l = true ∧ setsZero u l = false) (init 2 10 0) _ :=
    reach_of_guarded
      (fun u l (hgood : (atMost 2 u l && !setsZero u l) = true) => by simpa using hgood)
      (letIn 0 ++ letIn 1 ++ fails 0 ++ letIn 2 ++ fails 1 ++ fails 2 ++ letIn 3) rfl
  exact ⟨_, hrun, rfl, rfl, rfl, (overshoot_bounded (K := 2) (by decide) .refl hrun).2.2.1⟩

end Bound

/-! ### Calls one after the other -/

section Sequential

variable {cb : SimpleCircuitBreaker} {now later : ℤ} {calls : List Call} {d : ℤ} {n : ℕ}

/-- The runs with one call at a time. -/
abbrev Alone (s t : State) : Prop := Reach step (fun u l => atMost 1 u l = true) s t

theorem setPc_last (pc' : Pc) :
    State.setPc ⟨cb, now, calls ++ [⟨d, pc⟩], n⟩ calls.length ⟨d, pc⟩ pc' =
      ⟨cb, now, calls ++ [⟨d, pc'⟩], n⟩ := by
  simp [State.setPc]

theorem getElem?_last (c : Call) : (calls ++ [c])[calls.length]? = some c := by simp

theorem alone_go (hs : State.go ⟨cb, now, calls ++ [⟨d, pc⟩], n⟩ calls.length ⟨d, pc⟩ = some t) :
    Alone ⟨cb, now, calls ++ [⟨d, pc⟩], n⟩ t := by
  refine .tail (l := .go calls.length) .refl rfl ?_
  simp only [step, getElem?_last, Option.bind_some]
  exact hs

theorem alone_clock (hle : now ≤ later) : Alone ⟨cb, now, calls, n⟩ ⟨cb, later, calls, n⟩ :=
  .tail (l := .clock later) .refl rfl (if_pos hle)

theorem alone_store (hle : now ≤ later) (after : After) :
    Alone ⟨cb, now, calls ++ [⟨d, .now after⟩], n⟩
      ⟨{ cb with lastFailureTime := later }, later, calls ++ [⟨d, after.pc⟩], n⟩ := by
  have hnow : Alone ⟨cb, later, calls ++ [⟨d, .now after⟩], n⟩
      ⟨cb, later, calls ++ [⟨d, .store later after⟩], n⟩ :=
    alone_go (by simp only [State.go, setPc_last])
  refine ((alone_clock hle).trans hnow).trans (alone_go ?_)
  simp only [State.go, setPc_last]

theorem alone_ready {a : Attempt} (hstart : now ≤ a.start) (hreset : a.start ≤ a.resetAt) :
    ∃ later ≤ a.resetAt, Alone ⟨cb, now, calls ++ [⟨d, .ready⟩], n⟩
      ⟨(ready cb a.start a.resetAt).2, later,
        calls ++ [⟨d, if (ready cb a.start a.resetAt).1 then .running
        else .returned (some errBreakerOpen)⟩], if (ready cb a.start a.resetAt).1 then n + 1
          else n⟩ := by
  have hread : Alone ⟨cb, now, calls ++ [⟨d, .ready⟩], n⟩
      ⟨cb, now, calls ++ [⟨d, .since cb.lastFailureTime⟩], n⟩ :=
    alone_go (by simp only [State.go, setPc_last])
  have htime := hread.trans (alone_clock hstart)
  by_cases hsilent : Breaker.since cb.lastFailureTime a.start > cb.window
  · have hsince : Alone ⟨cb, a.start, calls ++ [⟨d, .since cb.lastFailureTime⟩], n⟩
        ⟨cb, a.start, calls ++ [⟨d, .reset .running⟩], n⟩ :=
      alone_go (by simp only [State.go, setPc_last, if_pos hsilent])
    have hzero : Alone ⟨cb, a.start, calls ++ [⟨d, .reset .running⟩], n⟩
        ⟨{ cb with failures := 0 }, a.start, calls ++ [⟨d, .now .running⟩], n + 1⟩ :=
      alone_go (by simp only [State.go, setPc_last])
    refine ⟨a.resetAt, le_rfl, ?_⟩
    simp only [ready, if_pos hsilent, Breaker.reset]
    exact ((htime.trans hsince).trans hzero).trans (alone_store hreset .running)
  · have hsince : Alone ⟨cb, a.start, calls ++ [⟨d, .since cb.lastFailureTime⟩], n⟩
        ⟨cb, a.start, calls ++ [⟨d, .load⟩], n⟩ :=
      alone_go (by simp only [State.go, setPc_last, if_neg hsilent])
    refine ⟨a.start, hreset, (htime.trans hsince).trans (alone_go ?_)⟩
    simp only [ready, if_neg hsilent, State.go, setPc_last]
    by_cases hlt : cb.failures < cb.failureThreshold
    · simp [hlt]
    · simp [hlt]

theorem alone_settle {a : Attempt} (hle : now ≤ a.finish) :
    Alone ⟨cb, now, calls ++ [⟨a.d, .running⟩], n⟩
      ⟨settle cb a, a.finish, calls ++ [⟨a.d, .returned a.err⟩], n⟩ := by
  have hsettled : Alone ⟨cb, now, calls ++ [⟨a.d, .running⟩], n⟩
      ⟨cb, now, calls ++ [⟨a.d, settled a.err⟩], n⟩ := by
    by_cases hfired : a.d ≠ 0 ∧ a.fired = true
    · refine .tail (l := .fire calls.length) .refl rfl ?_
      simp only [step, getElem?_last, Option.bind_some, if_neg hfired.1, setPc_last, Attempt.err,
        if_pos hfired.2]
    · refine .tail (l := .finish calls.length a.fn) .refl rfl ?_
      have herr : a.err = a.fn := by
        unfold Attempt.err
        split_ifs with hd hf
        · rfl
        · exact absurd ⟨hd, hf⟩ hfired
        · rfl
      simp only [step, getElem?_last, Option.bind_some, setPc_last, herr]
  refine hsettled.trans ?_
  unfold settle
  cases a.err with
  | none =>
    have hzero : Alone ⟨cb, now, calls ++ [⟨a.d, settled none⟩], n⟩
        ⟨{ cb with failures := 0 }, now, calls ++ [⟨a.d, .now (.returned none)⟩], n⟩ :=
      alone_go (by simp only [State.go, settled, setPc_last])
    exact hzero.trans (alone_store hle (.returned none))
  | some err =>
    have hadd : Alone ⟨cb, now, calls ++ [⟨a.d, settled (some err)⟩], n⟩
        ⟨{ cb with failures := cb.failures + 1 }, now,
          calls ++ [⟨a.d, .now (.returned (some err))⟩], n⟩ :=
      alone_go (by simp only [State.go, settled, setPc_last])
    exact hadd.trans (alone_store hle (.returned (some err)))

theorem alone_call {a : Attempt} (hidle : State.unfinished ⟨cb, now, calls, n⟩ = 0)
    (hstart : now ≤ a.start) (hreset : a.start ≤ a.resetAt) (hfinish : a.resetAt ≤ a.finish) :
    Alone ⟨cb, now, calls, n⟩
      ⟨(Breaker.call cb a).2, a.finish, calls ++ [⟨a.d, .returned (Breaker.call cb a).1.err⟩],
        n + (Breaker.call cb a).1.runs⟩ := by
  have hcalled : Alone ⟨cb, now, calls, n⟩ ⟨cb, now, calls ++ [⟨a.d, .ready⟩], n⟩ :=
    .tail (l := .start a.d) .refl (decide_eq_true (by rw [hidle]; exact Nat.one_pos)) rfl
  obtain ⟨later, hle, hready⟩ := @alone_ready cb now calls a.d n a hstart hreset
  refine hcalled.trans (hready.trans ?_)
  unfold Breaker.call
  rcases ready cb a.start a.resetAt with ⟨ok, cb'⟩
  cases ok with
  | false => exact alone_clock (hle.trans hfinish)
  | true => exact alone_settle (hle.trans hfinish)

theorem runs_le_one (cb : SimpleCircuitBreaker) (a : Attempt) : (Breaker.call cb a).1.runs ≤ 1 := by
  unfold Breaker.call
  rcases ready cb a.start a.resetAt with ⟨ok, cb'⟩
  cases ok with
  | false => exact Nat.zero_le 1
  | true => exact le_rfl

/-- **Calls one after the other.** What `Breaker.lean` says of calls that do not overlap is what the
steps of these calls come to. -/
theorem overlap_of_history {threshold : UInt64} {window start : ℤ} {h : History}
    (hh : Reach Breaker.step Any (begin threshold window start) h) :
    ∃ s, Alone (init threshold window start) s ∧ s.unfinished = 0 ∧ s.cb = h.cb ∧ s.now = h.now ∧
      s.admitted = h.executed.length := by
  refine hh.invariant (P := fun h => ∃ s, Alone (init threshold window start) s ∧ s.unfinished = 0 ∧
    s.cb = h.cb ∧ s.now = h.now ∧ s.admitted = h.executed.length) ⟨_, .refl, rfl, rfl, rfl, rfl⟩ ?_
  rintro h h' a - ⟨⟨cb, now, calls, n⟩, hs, hidle, rfl, rfl, rfl⟩ - hstep
  simp only [Breaker.step, Option.ite_none_right_eq_some, Option.some.injEq] at hstep
  obtain ⟨htimes, rfl⟩ := hstep
  refine ⟨_, hs.trans (alone_call hidle htimes.1 htimes.2.1 htimes.2.2), ?_, rfl, rfl, ?_⟩
  · unfold State.unfinished at hidle ⊢
    rw [List.countP_append, hidle]
    rfl
  · have hruns := runs_le_one h.cb a
    dsimp only
    split_ifs with hnone
    · rw [hnone]
      rfl
    · rw [List.length_cons]
      omega

/-- Two calls one after the other; the second is refused. -/
theorem overlap_of_history_two :
    ∃ h s, Reach Breaker.step Any (begin 1 10 0) h ∧ h.cb.failures = 1 ∧ h.executed.length = 1 ∧
      h.now = 2 ∧
      Alone (init 1 10 0) s ∧ s.cb = h.cb ∧ s.now = h.now ∧ s.admitted = h.executed.length := by
  have hrun : Reach Breaker.step Any (begin 1 10 0) _ :=
    reach_of_exec [attempt (some .eof) 1, attempt none 2] rfl
  obtain ⟨s, hs, -, hcb, hnow, hadm⟩ := overlap_of_history hrun
  exact ⟨_, s, hrun, rfl, rfl, rfl, hs, hcb, hnow, hadm⟩

end Sequential

end Frpc.Circuit.Overlap
