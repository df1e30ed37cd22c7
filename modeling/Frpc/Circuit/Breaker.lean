import Frpc.Basic
import Frpc.Lib.Runs
import Frpc.Lib.Streaks

/-! # The simple circuit breaker

`circuit/breaker_simple.go`. The breaker has a counter and one point in time. The counter is set to
zero by a success and by the first call after a pause that is longer than the window, so it is the
streak of failed calls (`Counts`). Hence the breaker is open exactly when the last calls, as many as
the threshold says, have failed in quick succession (`breaker_opens`).

A point in time is the number of nanoseconds since the zero time. `time.Since` returns a
`time.Duration`, which is an `int64`: it does not tell times apart that are further from each other
than 292 years. -/

namespace Frpc.Circuit.Breaker

open Frpc.Basic Frpc.Lib.Runs Frpc.Lib.Streaks

/-- `type SimpleCircuitBreaker struct` -/
structure SimpleCircuitBreaker where
  lastFailureTime : ℤ
  failures : UInt64
  failureThreshold : UInt64
  window : ℤ

/-- `ErrBreakerOpen` -/
def errBreakerOpen : Error := .other (str "breaker open")

/-- `ErrBreakerTimeout` -/
def errBreakerTimeout : Error := .other (str "breaker time out")

/-- The largest `time.Duration`. -/
def maxDuration : ℤ := 2 ^ 63 - 1

/-- The smallest `time.Duration`. -/
def minDuration : ℤ := -2 ^ 63

/-- `time.Since(t)`, when the clock says `now`. -/
def since (t now : ℤ) : ℤ := max minDuration (min (now - t) maxDuration)

/-- `NewSimpleCircuitBreaker` -/
def newSimpleCircuitBreaker (failureThreshold : UInt64) (window : ℤ) : SimpleCircuitBreaker :=
  ⟨0, 0, failureThreshold, window⟩

/-- `reset` -/
def reset (cb : SimpleCircuitBreaker) (now : ℤ) : SimpleCircuitBreaker :=
  { cb with failures := 0, lastFailureTime := now }

/-- `success` -/
def success (cb : SimpleCircuitBreaker) (now : ℤ) : SimpleCircuitBreaker := reset cb now

/-- `fail` -/
def fail (cb : SimpleCircuitBreaker) (now : ℤ) : SimpleCircuitBreaker :=
  { cb with failures := cb.failures + 1, lastFailureTime := now }

/-- `ready`. The clock is read by `time.Since`, and a second time by `reset`. -/
def ready (cb : SimpleCircuitBreaker) (now later : ℤ) : Bool × SimpleCircuitBreaker :=
  if since cb.lastFailureTime now > cb.window then (true, reset cb later)
  else (decide (cb.failures < cb.failureThreshold), cb)

/-- One call of `Call(fn, d)`: what `fn` returns, whether the timer fires first, and what the clock
says in `ready`, in the `reset` of `ready`, and in `success` or `fail`. -/
structure Attempt where
  fn : Option Error
  d : ℤ
  fired : Bool
  start : ℤ
  resetAt : ℤ
  finish : ℤ

/-- `err`, after `fn` has been called or the timer has fired. Without a duration there is no
timer. -/
def Attempt.err (a : Attempt) : Option Error :=
  if a.d = 0 then a.fn
  else if a.fired then some errBreakerTimeout
  else a.fn

/-- What a call returns, and how often `fn` is run for it. -/
structure Return where
  err : Option Error
  runs : ℕ
deriving DecidableEq

/-- The end of `Call`. -/
def settle (cb : SimpleCircuitBreaker) (a : Attempt) : SimpleCircuitBreaker :=
  match a.err with
  | none => success cb a.finish
  | some _ => fail cb a.finish

/-- `Call` -/
def call (cb : SimpleCircuitBreaker) (a : Attempt) : Return × SimpleCircuitBreaker :=
  match ready cb a.start a.resetAt with
  | (false, cb) => (⟨some errBreakerOpen, 0⟩, cb)
  | (true, cb) => (⟨a.err, 1⟩, settle cb a)

/-- A breaker, the calls that it has executed, the last one first, and the clock. -/
structure History where
  cb : SimpleCircuitBreaker
  executed : List Attempt
  now : ℤ

/-- A new breaker. -/
def begin (threshold : UInt64) (window now : ℤ) : History :=
  ⟨newSimpleCircuitBreaker threshold window, [], now⟩

/-- The next call. The calls do not overlap and the clock does not go back. -/
def step (h : History) (a : Attempt) : Option History :=
  if h.now ≤ a.start ∧ a.start ≤ a.resetAt ∧ a.resetAt ≤ a.finish then
    let (ret, cb) := call h.cb a
    some ⟨cb, if ret.runs = 0 then h.executed else a :: h.executed, a.finish⟩
  else none

/-! ### The specification -/

/-- The call `a` started at most `window` after `b` had finished. -/
def Near (window : ℤ) (a b : Attempt) : Prop := a.start - b.finish ≤ window

instance (window : ℤ) : DecidableRel (Near window) := fun a b =>
  inferInstanceAs (Decidable (a.start - b.finish ≤ window))

/-- The call failed or timed out. -/
def Failed (a : Attempt) : Prop := a.err ≠ none

instance : DecidablePred Failed := fun a => inferInstanceAs (Decidable (a.err ≠ none))

/-- The breaker has to be open at the time `t`. -/
structure Opens (threshold : ℕ) (window : ℤ) (executed : List Attempt) (t : ℤ) : Prop where
  /-- There were enough calls, -/
  enough : max 1 threshold ≤ executed.length
  /-- the last ones failed, -/
  failed : ∀ a ∈ executed.take threshold, Failed a
  /-- each of them soon after the one before it, -/
  near : (executed.take threshold).IsChain (Near window)
  /-- and the last call finished a short time ago. -/
  recent : ∀ a ∈ executed.head?, t - a.finish ≤ window

/-- The range of a `time.Duration` suffices for what the breaker measures: there is a longer
duration than the window, or the calls are no further apart than the longest one. -/
def InRange (threshold : UInt64) (window start : ℤ) (_ : History) (a : Attempt) : Prop :=
  window < maxDuration ∨ (0 < threshold ∧ a.finish - start ≤ maxDuration)

/-! ### One call -/

theorem lt_since_iff {t now window : ℤ} (hle : t ≤ now)
    (hrange : window < maxDuration ∨ now - t ≤ maxDuration) :
    window < since t now ↔ window < now - t := by
  unfold since minDuration
  unfold maxDuration at *
  omega

theorem err_of_not_failed {a : Attempt} (h : ¬ Failed a) : a.err = none := not_not.mp h

theorem settle_of_not_failed {a : Attempt} (h : ¬ Failed a) (cb : SimpleCircuitBreaker) :
    settle cb a = reset cb a.finish := by
  unfold settle
  rw [err_of_not_failed h]
  rfl

theorem settle_of_failed {a : Attempt} (h : Failed a) (cb : SimpleCircuitBreaker) :
    settle cb a = fail cb a.finish := by
  obtain ⟨e, he⟩ := Option.ne_none_iff_exists'.mp h
  unfold settle
  rw [he]

theorem settle_keeps (cb : SimpleCircuitBreaker) (a : Attempt) :
    (settle cb a).failureThreshold = cb.failureThreshold ∧ (settle cb a).window = cb.window ∧
      (settle cb a).lastFailureTime = a.finish := by
  by_cases hf : Failed a
  · rw [settle_of_failed hf]
    exact ⟨rfl, rfl, rfl⟩
  · rw [settle_of_not_failed hf]
    exact ⟨rfl, rfl, rfl⟩

/-- What `Call` does: it starts afresh after a pause, it goes on, or it is open. -/
theorem call_cases (cb : SimpleCircuitBreaker) (a : Attempt) :
    (cb.window < since cb.lastFailureTime a.start ∧
        call cb a = (⟨a.err, 1⟩, settle (reset cb a.resetAt) a)) ∨
      (¬ cb.window < since cb.lastFailureTime a.start ∧
        cb.failures.toNat < cb.failureThreshold.toNat ∧ call cb a = (⟨a.err, 1⟩, settle cb a)) ∨
      (¬ cb.window < since cb.lastFailureTime a.start ∧
        cb.failureThreshold.toNat ≤ cb.failures.toNat ∧
        call cb a = (⟨some errBreakerOpen, 0⟩, cb)) := by
  unfold call ready
  by_cases hsince : cb.window < since cb.lastFailureTime a.start
  · rw [if_pos hsince]
    exact Or.inl ⟨hsince, rfl⟩
  · rw [if_neg hsince]
    by_cases hlt : cb.failures < cb.failureThreshold
    · rw [decide_eq_true hlt]
      exact Or.inr (Or.inl ⟨hsince, UInt64.lt_iff_toNat_lt.mp hlt, rfl⟩)
    · rw [decide_eq_false hlt]
      have hle := UInt64.not_lt.mp hlt
      exact Or.inr (Or.inr ⟨hsince, UInt64.le_iff_toNat_le.mp hle, rfl⟩)

/-! ### Runs of calls -/

section Runs

variable {threshold : UInt64} {window start : ℤ} {h h' : History} {a : Attempt}

/-- The state of a breaker, from its history. -/
structure Counts (threshold : UInt64) (window start : ℤ) (h : History) : Prop where
  threshold_eq : h.cb.failureThreshold = threshold
  window_eq : h.cb.window = window
  start_le : start ≤ h.now
  first : h.executed = [] → h.cb.lastFailureTime = 0
  last : ∀ b ∈ h.executed.head?, h.cb.lastFailureTime = b.finish ∧ start ≤ b.finish ∧
    b.finish ≤ h.now
  failures : h.cb.failures.toNat = streak Failed (Near window) h.executed

theorem counts_begin : Counts threshold window start (begin threshold window start) :=
  ⟨rfl, rfl, le_rfl, fun _ => rfl, nofun, rfl⟩

/-- The window is exceeded, by the clock of the breaker, if and only if the last call is not
near. -/
theorem Counts.since_last (hc : Counts threshold window start h) (hnow : h.now ≤ a.start)
    (hfin : a.start ≤ a.finish) (hrange : InRange threshold window start h a) {b : Attempt}
    (hb : h.executed.head? = some b) :
    window < since h.cb.lastFailureTime a.start ↔ ¬ Near window a b := by
  obtain ⟨heq, hge, hle⟩ := hc.last b hb
  have hrange' : window < maxDuration ∨ a.start - b.finish ≤ maxDuration := by
    rcases hrange with hw | ⟨-, hle'⟩
    · exact Or.inl hw
    · exact Or.inr (by omega)
  rw [heq, lt_since_iff (by omega) hrange', Near, not_le]

theorem Counts.since_first (hc : Counts threshold window start h) (hstart : window < start)
    (hnow : h.now ≤ a.start) (hrange : window < maxDuration) (hnil : h.executed = []) :
    window < since h.cb.lastFailureTime a.start := by
  have hge := hc.start_le
  rw [hc.first hnil]
  unfold since
  omega

/-- A call is executed. The counter is the new streak, if it was set to zero after a pause and only
then. -/
theorem counts_settle {cb : SimpleCircuitBreaker} {executed : List Attempt}
    (hthreshold : cb.failureThreshold = threshold) (hwindow : cb.window = window)
    (hfin : start ≤ a.finish) (hcount : cb.failures.toNat + 1 < 2 ^ 64)
    (hstreak : Failed a → cb.failures.toNat + 1 = streak Failed (Near window) (a :: executed)) :
    Counts threshold window start ⟨settle cb a, a :: executed, a.finish⟩ := by
  obtain ⟨hthreshold', hwindow', hlast⟩ := settle_keeps cb a
  refine ⟨hthreshold'.trans hthreshold, hwindow'.trans hwindow, hfin, nofun, ?_, ?_⟩
  · rintro b ⟨⟩
    exact ⟨hlast, hfin, le_rfl⟩
  · show (settle cb a).failures.toNat = _
    by_cases hf : Failed a
    · rw [settle_of_failed hf, ← hstreak hf]
      show (cb.failures + 1).toNat = _
      rw [UInt64.toNat_add]
      exact Nat.mod_eq_of_lt hcount
    · rw [settle_of_not_failed hf, streak_good hf]
      rfl

theorem counts_step (hc : Counts threshold window start h)
    (hrange : InRange threshold window start h a)
    (hs : step h a = some h') : Counts threshold window start h' := by
  unfold step at hs
  split_ifs at hs with hclock
  obtain ⟨hnow, hreset, hfinish⟩ := hclock
  have hstart := hc.start_le
  have hfin : start ≤ a.finish := by omega
  have hsince : ∀ b, h.executed.head? = some b →
      (window < since h.cb.lastFailureTime a.start ↔ ¬ Near window a b) :=
    fun b hb => hc.since_last hnow (by omega) hrange hb
  have hcases := call_cases h.cb a
  rw [hc.window_eq, hc.threshold_eq] at hcases
  rcases hcases with ⟨hfar, hcall⟩ | ⟨hnear, hless, hcall⟩ | ⟨hnear, hmore, hcall⟩
  · rw [hcall] at hs
    cases hs
    have hthreshold : (reset h.cb a.resetAt).failureThreshold = threshold := hc.threshold_eq
    refine counts_settle hthreshold hc.window_eq hfin (by show 0 + 1 < 2 ^ 64; decide) fun hf => ?_
    show 0 + 1 = _
    cases hex : h.executed with
    | nil => exact (streak_near (l := []) hf nofun).symm
    | cons b l => exact (streak_far hf rfl ((hsince b (by rw [hex]; rfl)).mp hfar)).symm
  · rw [hcall] at hs
    cases hs
    have hlt := threshold.toNat_lt
    refine counts_settle hc.threshold_eq hc.window_eq hfin (by omega) fun hf => ?_
    have hall : ∀ b ∈ h.executed.head?, Near window a b := fun b hb =>
      not_not.mp fun hn => hnear ((hsince b hb).mpr hn)
    rw [hc.failures]
    exact (streak_near hf hall).symm
  · rw [hcall] at hs
    cases hs
    refine ⟨hc.threshold_eq, hc.window_eq, hfin, hc.first, fun b hb => ?_, hc.failures⟩
    obtain ⟨heq, hge, hle⟩ := hc.last b hb
    have hle' : b.finish ≤ a.finish := by omega
    exact ⟨heq, hge, hle'⟩

/-- **The counter is the streak**, in every state that a run of calls reaches. -/
theorem counts_of_reach
    (hreach : Reach step (InRange threshold window start) (begin threshold window start) h) :
    Counts threshold window start h :=
  hreach.invariant counts_begin fun _ hc hrange hs => counts_step hc hrange hs

/-- In a state with such a counter, the breaker is open exactly when it has to be. -/
theorem Counts.opens_iff (hc : Counts threshold window start h) (hstart : window < start)
    (hnow : h.now ≤ a.start) (hfin : a.start ≤ a.finish)
    (hrange : InRange threshold window start h a) :
    (¬ window < since h.cb.lastFailureTime a.start ∧ threshold.toNat ≤ h.cb.failures.toNat) ↔
      Opens threshold.toNat window h.executed a.start := by
  rw [hc.failures, le_streak_iff]
  cases hex : h.executed with
  | nil =>
    -- nothing was executed: the threshold would have to be zero, and the zero time to be near
    constructor
    · rintro ⟨hnear, hle, -, -⟩
      have hzero : threshold.toNat = 0 := Nat.le_zero.mp hle
      rcases hrange with hw | ⟨hpos, -⟩
      · exact absurd (hc.since_first hstart hnow hw hex) hnear
      · have := UInt64.lt_iff_toNat_lt.mp hpos
        rw [hzero] at this
        exact absurd this (lt_irrefl 0)
    · rintro ⟨henough, -, -, -⟩
      rw [List.length_nil] at henough
      omega
  | cons b l =>
    have hsince := hc.since_last hnow hfin hrange (b := b) (by rw [hex]; rfl)
    rw [hsince, not_not]
    constructor
    · rintro ⟨hnear, hle, hfailed, hchain⟩
      refine ⟨?_, hfailed, hchain, ?_⟩
      · rw [List.length_cons] at hle ⊢
        omega
      · rintro b' ⟨⟩
        exact hnear
    · rintro ⟨henough, hfailed, hchain, hrecent⟩
      exact ⟨hrecent b rfl, by omega, hfailed, hchain⟩

end Runs

/-- **The breaker opens exactly when it should.** In every run of calls that do not overlap, with a
clock that does not go back and starts more than the window after the zero time: a call returns
`ErrBreakerOpen` and does not run `fn` if and only if the last calls, as many as the threshold says
and one at least, failed or timed out in quick succession. Otherwise it runs `fn` once and returns
its error. -/
theorem breaker_opens (threshold : UInt64) {window start : ℤ} (hstart : window < start)
    {h h' : History} {a : Attempt}
    (hreach : Reach step (InRange threshold window start) (begin threshold window start) h)
    (hrange : InRange threshold window start h a) (hs : step h a = some h') :
    ((call h.cb a).1 = ⟨some errBreakerOpen, 0⟩ ↔ Opens threshold.toNat window h.executed a.start) ∧
      (¬ Opens threshold.toNat window h.executed a.start → (call h.cb a).1 = ⟨a.err, 1⟩) := by
  have hc := counts_of_reach hreach
  unfold step at hs
  split_ifs at hs with hclock
  obtain ⟨hnow, hreset, hfinish⟩ := hclock
  have hiff := hc.opens_iff hstart hnow (by omega) hrange
  have hcases := call_cases h.cb a
  rw [hc.window_eq, hc.threshold_eq] at hcases
  rw [← hiff]
  rcases hcases with ⟨hfar, hcall⟩ | ⟨hnear, hless, hcall⟩ | ⟨hnear, hmore, hcall⟩
  · rw [hcall]
    refine ⟨⟨fun heq => ?_, fun hopen => absurd hfar hopen.1⟩, fun _ => rfl⟩
    exact absurd (congrArg Return.runs heq) Nat.one_ne_zero
  · rw [hcall]
    refine ⟨⟨fun heq => ?_, fun hopen => absurd hopen.2 (Nat.not_le.mpr hless)⟩, fun _ => rfl⟩
    exact absurd (congrArg Return.runs heq) Nat.one_ne_zero
  · rw [hcall]
    exact ⟨⟨fun _ => ⟨hnear, hmore⟩, fun _ => rfl⟩, fun hopen => absurd ⟨hnear, hmore⟩ hopen⟩

/-- A call without a duration whose `fn` returns `fn`, at the time `t`. -/
def attempt (fn : Option Error) (t : ℤ) : Attempt := ⟨fn, 0, false, t, t, t⟩

/-- Threshold 2, window 10: two calls fail, and the third is refused. -/
theorem breaker_opens_two :
    ∃ h h', exec step (begin 2 10 100) [attempt (some .eof) 100, attempt (some .eof) 105] = some h ∧
      step h (attempt none 115) = some h' ∧
      (call h.cb (attempt none 115)).1 = ⟨some errBreakerOpen, 0⟩ ∧
      Opens 2 10 h.executed 115 := by
  refine ⟨_, _, rfl, rfl, by decide, ?_⟩
  have hreach : Reach step (InRange 2 10 100) (begin 2 10 100) _ :=
    reach_of_labels [attempt (some .eof) 100, attempt (some .eof) 105]
      (fun _ _ _ => Or.inl (by decide)) rfl
  exact (breaker_opens 2 (by decide) hreach (a := attempt none 115) (Or.inl (by decide)) rfl).1.mp
    (by decide)

/-- Threshold 0, the largest window, 2000 years after the zero time: the clock is more than the
window past the zero time, but the difference is no `time.Duration`. The first call is refused. -/
theorem breaker_open_at_first :
    maxDuration < 63072000000000000000 ∧
      (call (begin 0 maxDuration 63072000000000000000).cb (attempt none 63072000000000000000)).1 =
        ⟨some errBreakerOpen, 0⟩ ∧
      (begin 0 maxDuration 63072000000000000000).executed = [] := by
  refine ⟨by decide, by decide, rfl⟩

end Frpc.Circuit.Breaker
