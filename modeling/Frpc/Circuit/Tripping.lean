import Frpc.Circuit.Tallies
import Frpc.Lib.Floats

/-! # The breakers that trip

`circuitbreaker.go` of `rubyist/circuitbreaker`, to which the threshold, consecutive and rate
breakers of `circuit` hand their calls. `ShouldTrip` says after every failure whether the breaker
trips. A breaker that has tripped refuses the calls, except for a trial every now and then; the
times between trials are drawn from intervals that grow. A trial that succeeds closes the breaker,
unless it comes too early after the last failure.

The calls come one after the other here. When calls overlap, several failures can be counted before
the first `ShouldTrip`, which compares with `==` and may then miss the threshold. `Subscribe` and
`AddListener` are not called by anybody, so no event is sent, and neither is `Break`. -/

namespace Frpc.Circuit.Tripping

open Frpc.Basic Frpc.Lib.Runs Frpc.Lib.Streaks Frpc.Lib.Floats Frpc.Circuit.Breaker
  Frpc.Circuit.Tallies

/-! ### The pauses between trials -/

/-- `defaultInitialBackOffInterval`, in nanoseconds. -/
def initialInterval : ℤ := 500000000

/-- `DefaultMaxInterval` -/
def maxInterval : ℤ := 60000000000

/-- `incrementCurrentInterval` of `ExponentialBackOff`. The multiplier is 1.5, and the products are
exact. -/
def incrementInterval (interval : ℤ) : ℤ :=
  if interval ≥ 40000000000 then maxInterval else 3 * interval / 2

/-- What `getRandomValueFromInterval` may return: anything from half the interval to one and a
half. -/
def Drawn (interval pause : ℤ) : Prop := interval ≤ 2 * pause + 1 ∧ 2 * pause ≤ 3 * interval + 2

instance (interval pause : ℤ) : Decidable (Drawn interval pause) :=
  inferInstanceAs (Decidable (_ ∧ _))

/-- `backoff.Stop` -/
def stop : ℤ := -1

/-! ### The breaker -/

/-- `ThresholdTripFunc`, `ConsecutiveTripFunc` and `RateTripFunc`. -/
inductive TripFunc where
  | threshold (threshold : ℤ)
  | consecutive (threshold : ℤ)
  | rate (float : Rounding) (rate : ℚ) (minSamples : ℤ)

/-- `type Breaker struct`, with the interval of its `ExponentialBackOff`. The counters are `int64` in
the source, and do not overflow before there were `2 ^ 63` calls (`counters_le`). -/
structure Breaker where
  shouldTrip : TripFunc
  consecFailures : ℤ
  lastFailure : ℤ
  halfOpens : ℤ
  counts : Window
  nextBackOff : ℤ
  tripped : Bool
  broken : Bool
  currentInterval : ℤ

/-- `type state int` -/
inductive CircuitState where
  | opened
  | halfopen
  | closed
deriving DecidableEq

/-- `cb.nextBackOff = cb.BackOff.NextBackOff()`, when `pause` is drawn. There is no
`MaxElapsedTime`. -/
def Breaker.drawBackOff (cb : Breaker) (pause : ℤ) : Option Breaker :=
  if Drawn cb.currentInterval pause then
    some { cb with nextBackOff := pause, currentInterval := incrementInterval cb.currentInterval }
  else none

/-- `NewBreakerWithOptions` with the default options, when `pause` is drawn. -/
def newBreaker (shouldTrip : TripFunc) (now pause : ℤ) : Breaker :=
  ⟨shouldTrip, 0, 0, 0, newWindow 10000000000 10 now, pause, false, false,
    incrementInterval initialInterval⟩

/-- `window.ErrorRate` -/
def errorRate (float : Rounding) (w : Window) : ℚ :=
  if w.failures + w.successes = 0 then 0
    else float.round (w.failures / (w.failures + w.successes : ℕ))

/-- `cb.ShouldTrip(cb)` -/
def Breaker.trips (cb : Breaker) : Bool :=
  match cb.shouldTrip with
  | .threshold threshold => cb.counts.failures == threshold
  | .consecutive threshold => cb.consecFailures == threshold
  | .rate float rate minSamples =>
    decide ((cb.counts.failures + cb.counts.successes : ℤ) ≥ minSamples) &&
      decide (errorRate float cb.counts ≥ rate)

/-- `Trip` -/
def Breaker.trip (cb : Breaker) (now : ℤ) : Breaker :=
  { cb with tripped := true, lastFailure := now }

/-- `Reset` -/
def Breaker.reset (cb : Breaker) : Breaker :=
  { cb with
    broken := false, tripped := false, halfOpens := 0, consecFailures := 0,
    counts := cb.counts.reset }

/-- `state`. A trial draws the next pause. -/
def Breaker.state (cb : Breaker) (now pause : ℤ) : Option (CircuitState × Breaker) :=
  if cb.tripped then
    if cb.broken then some (.opened, cb)
    else if cb.nextBackOff ≠ stop ∧ since cb.lastFailure now > cb.nextBackOff then
      if cb.halfOpens = 0 then
        (({ cb with halfOpens := 1 } : Breaker).drawBackOff pause).map fun cb => (.halfopen, cb)
      else some (.opened, cb)
    else some (.opened, cb)
  else some (.closed, cb)

/-- `Ready` -/
def Breaker.ready (cb : Breaker) (now pause : ℤ) : Option (Bool × Breaker) :=
  (cb.state now pause).map fun (state, cb) =>
    match state with
    | .opened => (false, cb)
    | .halfopen => (true, { cb with halfOpens := 0 })
    | .closed => (true, cb)

/-- One call: what `circuit` returns, the timeout, whether the timer fires first, what the clock
says each time it is read, and the pauses that are drawn. -/
structure Attempt where
  fn : Option Error
  timeout : ℤ
  fired : Bool
  clock : ℕ → ℤ
  pause : ℕ → ℤ

/-- `err`, after `circuit` has been called or the timer has fired. -/
def Attempt.err (a : Attempt) : Option Error :=
  if a.timeout = 0 then a.fn
  else if a.fired then some errBreakerTimeout
  else a.fn

/-- `Fail`: the counters, before `ShouldTrip` is called. -/
def Breaker.countFail (cb : Breaker) (a : Attempt) : Breaker :=
  { cb with
    counts := cb.counts.fail (a.clock 1) (a.clock 2)
    consecFailures := cb.consecFailures + 1
    lastFailure := a.clock 3 }

/-- `Fail` -/
def Breaker.fail (cb : Breaker) (a : Attempt) : Breaker :=
  let cb := cb.countFail a
  if cb.trips then cb.trip (a.clock 4) else cb

/-- `Success` -/
def Breaker.succeed (cb : Breaker) (a : Attempt) : Option Breaker := do
  let cb ← ({ cb with currentInterval := initialInterval } : Breaker).drawBackOff (a.pause 1)
  let (state, cb) ← cb.state (a.clock 1) (a.pause 2)
  let cb := if state = .halfopen then cb.reset else cb
  return { cb with consecFailures := 0, counts := cb.counts.succeed (a.clock 2) (a.clock 3) }

/-- `Call` -/
def call (cb : Breaker) (a : Attempt) : Option (Return × Breaker) := do
  let (ready, cb) ← cb.ready (a.clock 0) (a.pause 0)
  if ready then
    match a.err with
    | some err => return (⟨some err, 1⟩, cb.fail a)
    | none =>
      let cb ← cb.succeed a
      return (⟨none, 1⟩, cb)
  else return (⟨some errBreakerOpen, 0⟩, cb)

/-- A breaker and the clock. The rest is there for the statements only: the calls that it has
executed, the last one first, what was counted since the last `Reset`, and how often a pause was
drawn since the intervals were reset, without the first time. -/
structure History where
  cb : Breaker
  now : ℤ
  executed : List Attempt
  events : List Event
  level : ℕ

/-- A new breaker. -/
def begin (shouldTrip : TripFunc) (now pause : ℤ) : History :=
  ⟨newBreaker shouldTrip now pause, now, [], [], 0⟩

/-- What is remembered of a call that was executed. -/
def History.executes (h : History) (a : Attempt) (cb : Breaker) : History :=
  match a.err with
  | some _ =>
    ⟨cb, a.clock 4, a :: h.executed, ⟨a.clock 1, true⟩ :: h.events,
      if h.cb.tripped then h.level + 1 else h.level⟩
  | none =>
    let closes := h.cb.tripped && !cb.tripped
    ⟨cb, a.clock 4, a :: h.executed, ⟨a.clock 2, false⟩ :: if closes then [] else h.events,
      if closes then 1 else 0⟩

/-- The calls do not overlap and the clock does not go back. -/
def Ordered (h : History) (a : Attempt) : Prop :=
  h.now ≤ a.clock 0 ∧ a.clock 0 ≤ a.clock 1 ∧ a.clock 1 ≤ a.clock 2 ∧ a.clock 2 ≤ a.clock 3 ∧
    a.clock 3 ≤ a.clock 4

instance (h : History) (a : Attempt) : Decidable (Ordered h a) :=
  inferInstanceAs (Decidable (_ ∧ _))

/-- The next call. -/
def step (h : History) (a : Attempt) : Option History :=
  if Ordered h a then
    (call h.cb a).map fun (ret, cb) =>
      if ret.runs = 0 then { h with cb, now := a.clock 4 } else h.executes a cb
  else none

/-! ### What a call does -/

/-- The call is executed and fails. -/
def Failed (a : Attempt) : Prop := a.err.isSome = true

instance (a : Attempt) : Decidable (Failed a) := inferInstanceAs (Decidable (_ = true))

/-- The breaker after `Ready`, when the call is let in. -/
inductive Enters (cb : Breaker) (a : Attempt) : Breaker → Prop
  | closed (hclosed : cb.tripped = false) : Enters cb a cb
  | trial (htripped : cb.tripped = true) (hlate : cb.nextBackOff < since cb.lastFailure (a.clock 0))
      (hdrawn : Drawn cb.currentInterval (a.pause 0)) :
      Enters cb a
        { cb with
          nextBackOff := a.pause 0, currentInterval := incrementInterval cb.currentInterval }

/-- `Break` was not called, and no trial is going on. -/
structure Idle (cb : Breaker) : Prop where
  halfOpens : cb.halfOpens = 0
  broken : cb.broken = false
  nextBackOff : 0 ≤ cb.nextBackOff
  currentInterval : 0 < cb.currentInterval

/-- What a call does. -/
inductive Effect (h : History) (a : Attempt) : History → Prop
  | refused (htripped : h.cb.tripped = true)
      (hearly : since h.cb.lastFailure (a.clock 0) ≤ h.cb.nextBackOff) :
      Effect h a { h with now := a.clock 4 }
  | failed {cb : Breaker} (henters : Enters h.cb a cb) (hfailed : Failed a) :
      Effect h a
        ⟨cb.fail a, a.clock 4, a :: h.executed, ⟨a.clock 1, true⟩ :: h.events,
          if h.cb.tripped then h.level + 1 else h.level⟩
  | succeeded {cb : Breaker} (henters : Enters h.cb a cb) (hok : ¬ Failed a)
      (hdrawn : Drawn initialInterval (a.pause 1))
      (hearly : cb.tripped = true → since cb.lastFailure (a.clock 1) ≤ a.pause 1) :
      Effect h a
        ⟨{ cb with
            nextBackOff := a.pause 1
            currentInterval := incrementInterval initialInterval
            consecFailures := 0
            counts := cb.counts.succeed (a.clock 2) (a.clock 3) },
          a.clock 4, a :: h.executed, ⟨a.clock 2, false⟩ :: h.events, 0⟩
  | closed {cb : Breaker} (henters : Enters h.cb a cb) (hok : ¬ Failed a)
      (htripped : h.cb.tripped = true)
      (hdrawn : Drawn (incrementInterval initialInterval) (a.pause 2))
      (hlate : a.pause 1 < since cb.lastFailure (a.clock 1)) :
      Effect h a
        ⟨{ cb with
            nextBackOff := a.pause 2
            currentInterval := incrementInterval (incrementInterval initialInterval)
            tripped := false
            consecFailures := 0
            counts := cb.counts.reset.succeed (a.clock 2) (a.clock 3) },
          a.clock 4, a :: h.executed, [⟨a.clock 2, false⟩], 1⟩

section Call

variable {cb cb' : Breaker} {h h' : History} {a : Attempt} {now pause : ℤ} {b : Bool}
  {st : CircuitState}

theorem initialInterval_pos : 0 < initialInterval := by decide

theorem incrementInterval_pos {interval : ℤ} (h : 0 < interval) :
    0 < incrementInterval interval := by
  unfold incrementInterval maxInterval
  split_ifs <;> omega

theorem Drawn.nonneg {interval : ℤ} (h : Drawn interval pause) (hpos : 0 < interval) :
    0 ≤ pause := by
  have hlow := h.1
  omega

theorem drawBackOff_eq_some (hd : cb.drawBackOff pause = some cb') :
    Drawn cb.currentInterval pause ∧
      cb' = { cb with
        nextBackOff := pause, currentInterval := incrementInterval cb.currentInterval } := by
  simp only [Breaker.drawBackOff, Option.ite_none_right_eq_some, Option.some.injEq] at hd
  exact ⟨hd.1, hd.2.symm⟩

theorem state_closed (hclosed : cb.tripped = false) : cb.state now pause = some (.closed, cb) := by
  rw [Breaker.state, if_neg (by simp [hclosed])]

theorem state_tripped (hidle : Idle cb) (htripped : cb.tripped = true)
    (hs : cb.state now pause = some (st, cb')) :
    (since cb.lastFailure now ≤ cb.nextBackOff ∧ st = .opened ∧ cb' = cb) ∨
      (cb.nextBackOff < since cb.lastFailure now ∧ Drawn cb.currentInterval pause ∧ st = .halfopen ∧
        cb' = { cb with
          halfOpens := 1
          nextBackOff := pause
          currentInterval := incrementInterval cb.currentInterval }) := by
  have hstop : cb.nextBackOff ≠ stop := by
    have hpos := hidle.nextBackOff
    unfold stop
    omega
  rw [Breaker.state, if_pos htripped, if_neg (by simp [hidle.broken])] at hs
  by_cases hlate : cb.nextBackOff < since cb.lastFailure now
  · rw [if_pos ⟨hstop, hlate⟩, if_pos hidle.halfOpens] at hs
    obtain ⟨cb₁, hdraw, heq⟩ := Option.map_eq_some_iff.mp hs
    obtain ⟨hdrawn, rfl⟩ := drawBackOff_eq_some hdraw
    cases heq
    exact Or.inr ⟨hlate, hdrawn, rfl, rfl⟩
  · rw [if_neg fun hc => hlate hc.2] at hs
    cases hs
    exact Or.inl ⟨not_lt.mp hlate, rfl, rfl⟩

theorem ready_cases (hidle : Idle cb) (hr : cb.ready (a.clock 0) (a.pause 0) = some (b, cb')) :
    (b = false ∧ cb' = cb ∧ cb.tripped = true ∧ since cb.lastFailure (a.clock 0) ≤ cb.nextBackOff) ∨
      (b = true ∧ Enters cb a cb') := by
  obtain ⟨⟨st, cb₁⟩, hs, heq⟩ := Option.map_eq_some_iff.mp hr
  by_cases htripped : cb.tripped = true
  · rcases state_tripped hidle htripped hs with ⟨hearly, rfl, rfl⟩ | ⟨hlate, hdrawn, rfl, rfl⟩
    · cases heq
      exact Or.inl ⟨rfl, rfl, htripped, hearly⟩
    · cases heq
      have hhalf := hidle.halfOpens
      obtain ⟨f, n, last, half, w, next, t, br, cur⟩ := cb
      subst hhalf
      exact Or.inr ⟨rfl, .trial htripped hlate hdrawn⟩
  · have hclosed : cb.tripped = false := by simpa using htripped
    rw [state_closed hclosed] at hs
    cases hs
    cases heq
    exact Or.inr ⟨rfl, .closed hclosed⟩

theorem Enters.idle (hidle : Idle cb) (henters : Enters cb a cb') : Idle cb' := by
  cases henters with
  | closed hclosed => exact hidle
  | trial htripped hlate hdrawn =>
    exact ⟨hidle.halfOpens, hidle.broken, hdrawn.nonneg hidle.currentInterval,
      incrementInterval_pos hidle.currentInterval⟩

theorem Enters.tripped_eq (henters : Enters cb a cb') : cb'.tripped = cb.tripped := by
  cases henters with
  | closed hclosed => rfl
  | trial htripped hlate hdrawn => rfl

theorem succeed_cases (hidle : Idle cb) (hs : cb.succeed a = some cb') :
    Drawn initialInterval (a.pause 1) ∧
      (((cb.tripped = true → since cb.lastFailure (a.clock 1) ≤ a.pause 1) ∧
        cb' = { cb with
          nextBackOff := a.pause 1
          currentInterval := incrementInterval initialInterval
          consecFailures := 0
          counts := cb.counts.succeed (a.clock 2) (a.clock 3) }) ∨
      (cb.tripped = true ∧ a.pause 1 < since cb.lastFailure (a.clock 1) ∧
        Drawn (incrementInterval initialInterval) (a.pause 2) ∧
        cb' = { cb with
          nextBackOff := a.pause 2
          currentInterval := incrementInterval (incrementInterval initialInterval)
          tripped := false
          consecFailures := 0
          counts := cb.counts.reset.succeed (a.clock 2) (a.clock 3) })) := by
  obtain ⟨cb₁, hdraw, hs⟩ := Option.bind_eq_some_iff.mp hs
  obtain ⟨⟨st, cb₂⟩, hstate, hs⟩ := Option.bind_eq_some_iff.mp hs
  obtain ⟨hdrawn, rfl⟩ := drawBackOff_eq_some hdraw
  refine ⟨hdrawn, ?_⟩
  by_cases htripped : cb.tripped = true
  · have hidle' : Idle { cb with
        nextBackOff := a.pause 1
        currentInterval := incrementInterval initialInterval } :=
      ⟨hidle.halfOpens, hidle.broken, hdrawn.nonneg initialInterval_pos,
        incrementInterval_pos initialInterval_pos⟩
    rcases state_tripped hidle' htripped hstate with
      ⟨hearly, rfl, rfl⟩ | ⟨hlate, hdrawn', rfl, rfl⟩
    · cases hs
      exact Or.inl ⟨fun _ => hearly, rfl⟩
    · cases hs
      have hhalf := hidle.halfOpens
      have hbroken := hidle.broken
      obtain ⟨f, n, last, half, w, next, t, br, cur⟩ := cb
      subst hhalf hbroken
      exact Or.inr ⟨htripped, hlate, hdrawn', rfl⟩
  · have hclosed : cb.tripped = false := by simpa using htripped
    have hstate' := hstate.symm.trans (state_closed hclosed)
    cases hstate'
    cases hs
    exact Or.inl ⟨fun h => absurd h htripped, rfl⟩

theorem effect_of_step (hidle : Idle h.cb) (hs : step h a = some h') :
    Ordered h a ∧ Effect h a h' := by
  unfold step at hs
  split_ifs at hs with hordered
  refine ⟨hordered, ?_⟩
  obtain ⟨⟨ret, cb⟩, hcall, rfl⟩ := Option.map_eq_some_iff.mp hs
  obtain ⟨⟨b, cb₁⟩, hready, hcall⟩ := Option.bind_eq_some_iff.mp hcall
  rcases ready_cases hidle hready with ⟨rfl, rfl, htripped, hearly⟩ | ⟨rfl, henters⟩
  · cases hcall
    exact .refused htripped hearly
  · cases herr : a.err with
    | some err =>
      have hfailed : Failed a := by rw [Failed, herr]; rfl
      simp only [herr] at hcall
      cases hcall
      have hresult := Effect.failed henters hfailed
      simpa [History.executes, herr] using hresult
    | none =>
      have hok : ¬ Failed a := by simp [Failed, herr]
      simp only [herr] at hcall
      obtain ⟨cb₂, hsucc, hcall⟩ := Option.bind_eq_some_iff.mp hcall
      cases hcall
      have hidle₁ := henters.idle hidle
      rcases succeed_cases hidle₁ hsucc with ⟨hdrawn, ⟨hearly, rfl⟩
        | ⟨htripped, hlate, hdrawn', rfl⟩⟩
      · have hresult := Effect.succeeded henters hok hdrawn hearly
        simpa [History.executes, herr, henters.tripped_eq] using hresult
      · have htripped' := henters.tripped_eq.symm.trans htripped
        have hresult := Effect.closed henters hok htripped' hdrawn' hlate
        simpa [History.executes, herr, htripped'] using hresult

theorem fail_eq (cb : Breaker) (a : Attempt) :
    ∃ last, (last = a.clock 3 ∨ last = a.clock 4) ∧
      cb.fail a = { cb.countFail a with
        lastFailure := last
        tripped := cb.tripped || (cb.countFail a).trips } := by
  unfold Breaker.fail
  dsimp only
  split_ifs with htrips
  · exact ⟨a.clock 4, Or.inr rfl, by rw [htrips, Bool.or_true]; rfl⟩
  · rw [Bool.not_eq_true] at htrips
    exact ⟨a.clock 3, Or.inl rfl, by rw [htrips, Bool.or_false]; rfl⟩

end Call

/-! ### The invariant -/

/-- The interval from which the pause is drawn when it was drawn `k` times since the intervals were
reset. -/
def interval (k : ℕ) : ℤ := incrementInterval^[k] initialInterval

theorem interval_succ (k : ℕ) : interval (k + 1) = incrementInterval (interval k) :=
  Function.iterate_succ_apply' incrementInterval k initialInterval

theorem interval_bounds (k : ℕ) : initialInterval ≤ interval k ∧ interval k ≤ maxInterval := by
  induction k with
  | zero => decide
  | succ k ih =>
    rw [interval_succ]
    unfold incrementInterval initialInterval maxInterval at *
    split_ifs <;> omega

/-- The window holds the events. -/
def Counted (δ now : ℤ) (w : Window) (events : List Event) : Prop :=
  ∃ t ≤ now, Sound 10 1000000000 δ ⟨w, events, t⟩

section Counted

variable {δ now t₁ t₂ : ℤ} {w : Window} {events : List Event}

theorem Counted.fail (hc : Counted δ now w events) (h₁ : now ≤ t₁) (h₂ : t₁ ≤ t₂)
    (hprompt : t₂ ≤ t₁ + δ) :
    Sound 10 1000000000 δ ⟨w.fail t₁ t₂, ⟨t₁, true⟩ :: events, t₂⟩ := by
  obtain ⟨t, ht, hsound⟩ := hc
  have hstep : Tallies.step ⟨w, events, t⟩ (.fail t₁ t₂) =
      some ⟨w.fail t₁ t₂, ⟨t₁, true⟩ :: events, t₂⟩ :=
    if_pos ⟨ht.trans h₁, h₂⟩
  have hclock : Tallies.Prompt δ ⟨w, events, t⟩ (.fail t₁ t₂) := hprompt
  exact hsound.step hclock hstep

theorem Counted.succeed (hc : Counted δ now w events) (h₁ : now ≤ t₁) (h₂ : t₁ ≤ t₂)
    (hprompt : t₂ ≤ t₁ + δ) :
    Sound 10 1000000000 δ ⟨w.succeed t₁ t₂, ⟨t₁, false⟩ :: events, t₂⟩ := by
  obtain ⟨t, ht, hsound⟩ := hc
  have hstep : Tallies.step ⟨w, events, t⟩ (.succeed t₁ t₂) =
      some ⟨w.succeed t₁ t₂, ⟨t₁, false⟩ :: events, t₂⟩ := if_pos ⟨ht.trans h₁, h₂⟩
  have hclock : Tallies.Prompt δ ⟨w, events, t⟩ (.succeed t₁ t₂) := hprompt
  exact hsound.step hclock hstep

theorem Counted.reset (hc : Counted δ now w events) : Counted δ now w.reset [] := by
  obtain ⟨t, ht, hsound⟩ := hc
  have hstep : Tallies.step ⟨w, events, t⟩ .reset = some ⟨w.reset, [], t⟩ := rfl
  have hclock : Tallies.Prompt δ ⟨w, events, t⟩ .reset := trivial
  exact ⟨t, ht, hsound.step hclock hstep⟩

end Counted

/-- At most `δ` passes between two readings of the clock in one method of the window. -/
def Prompt (δ : ℤ) (_ : History) (a : Attempt) : Prop :=
  if Failed a then a.clock 2 ≤ a.clock 1 + δ else a.clock 3 ≤ a.clock 2 + δ

/-- How many of the last executed calls have failed. -/
def failureStreak (executed : List Attempt) : ℕ := streak Failed (fun _ _ => True) executed

/-- What holds of a breaker between two calls. -/
structure Sane (shouldTrip : TripFunc) (h : History) : Prop where
  shouldTrip : h.cb.shouldTrip = shouldTrip
  halfOpens : h.cb.halfOpens = 0
  broken : h.cb.broken = false
  nextBackOff : Drawn (interval h.level) h.cb.nextBackOff
  currentInterval : h.cb.currentInterval = interval (h.level + 1)
  consecFailures : h.cb.consecFailures = failureStreak h.executed
  lastFailure : h.cb.tripped = true → h.cb.lastFailure ≤ h.now

section Runs

variable {f : TripFunc} {δ start pause : ℤ} {h h' : History} {a : Attempt} {cb : Breaker}

theorem interval_pos (k : ℕ) : 0 < interval k := initialInterval_pos.trans_le (interval_bounds k).1

theorem Sane.idle (hs : Sane f h) : Idle h.cb :=
  ⟨hs.halfOpens, hs.broken, hs.nextBackOff.nonneg (interval_pos _),
    hs.currentInterval ▸ interval_pos _⟩

theorem Sane.enters (hs : Sane f h) (henters : Enters h.cb a cb) :
    ∃ next, Drawn (interval (if h.cb.tripped then h.level + 1 else h.level)) next ∧
      cb = { h.cb with
        nextBackOff := next
        currentInterval := interval ((if h.cb.tripped then h.level + 1 else h.level) + 1) } := by
  cases henters with
  | closed hclosed =>
    refine ⟨h.cb.nextBackOff, ?_, ?_⟩
    · rw [if_neg (by simp [hclosed])]
      exact hs.nextBackOff
    · rw [if_neg (by simp [hclosed]), ← hs.currentInterval]
  | trial htripped hlate hdrawn =>
    refine ⟨a.pause 0, ?_, ?_⟩
    · rw [if_pos htripped, ← hs.currentInterval]
      exact hdrawn
    · rw [if_pos htripped, interval_succ (h.level + 1), ← hs.currentInterval]

theorem failureStreak_failed (hfailed : Failed a) (executed : List Attempt) :
    failureStreak (a :: executed) = failureStreak executed + 1 :=
  streak_near hfailed fun _ _ => trivial

theorem failureStreak_ok (hok : ¬ Failed a) (executed : List Attempt) :
    failureStreak (a :: executed) = 0 :=
  streak_good hok

theorem Sane.step (hs : Sane f h) (hstep : step h a = some h') : Sane f h' := by
  obtain ⟨⟨h₀, h₁, h₂, h₃, h₄⟩, heff⟩ := effect_of_step hs.idle hstep
  cases heff with
  | refused htripped hearly =>
    refine ⟨hs.shouldTrip, hs.halfOpens, hs.broken, hs.nextBackOff, hs.currentInterval,
      hs.consecFailures, ?_⟩
    intro _
    have hlast := hs.lastFailure htripped
    show h.cb.lastFailure ≤ a.clock 4
    omega
  | failed henters hfailed =>
    obtain ⟨next, hdrawn, rfl⟩ := hs.enters henters
    obtain ⟨last, hlast, heq⟩ := fail_eq { h.cb with
        nextBackOff := next
        currentInterval := interval ((if h.cb.tripped then h.level + 1 else h.level) + 1) } a
    rw [heq]
    refine ⟨hs.shouldTrip, hs.halfOpens, hs.broken, hdrawn, rfl, ?_, ?_⟩
    · rw [failureStreak_failed hfailed]
      show h.cb.consecFailures + 1 = _
      rw [hs.consecFailures]
      rfl
    · intro _
      show last ≤ a.clock 4
      omega
  | succeeded henters hok hdrawn hearly =>
    obtain ⟨next, -, rfl⟩ := hs.enters henters
    refine ⟨hs.shouldTrip, hs.halfOpens, hs.broken, hdrawn, rfl, ?_, ?_⟩
    · rw [failureStreak_ok hok]
      rfl
    · intro htripped
      have hlast := hs.lastFailure htripped
      show h.cb.lastFailure ≤ a.clock 4
      omega
  | closed henters hok htripped hdrawn hlate =>
    obtain ⟨next, -, rfl⟩ := hs.enters henters
    refine ⟨hs.shouldTrip, hs.halfOpens, hs.broken, hdrawn, rfl, ?_,
      fun h => absurd h Bool.false_ne_true⟩
    rw [failureStreak_ok hok]
    rfl

theorem sane_of_reach {ok : History → Attempt → Prop} (hpause : Drawn initialInterval pause)
    (hreach : Reach step ok (begin f start pause) h) : Sane f h := by
  have hbegin : Sane f (begin f start pause) :=
    ⟨rfl, rfl, rfl, hpause, rfl, rfl, fun h => absurd h Bool.false_ne_true⟩
  exact hreach.invariant hbegin fun _ hs _ hstep => hs.step hstep

/-- **The counters** never exceed the number of the calls. -/
theorem counters_le {ok : History → Attempt → Prop} (hpause : Drawn initialInterval pause)
    (hreach : Reach step ok (begin f start pause) h) :
    h.cb.counts.failures + h.cb.counts.successes ≤ h.executed.length ∧
      h.cb.consecFailures ≤ h.executed.length := by
  refine ⟨hreach.invariant
    (P := fun h => h.cb.counts.failures + h.cb.counts.successes ≤ h.executed.length)
    (le_of_eq rfl) fun {h h' a} hr hle _ hstep => ?_, ?_⟩
  · have hs := sane_of_reach hpause hr
    cases (effect_of_step hs.idle hstep).2 with
    | refused htripped hearly => exact hle
    | failed henters hfailed =>
      obtain ⟨next, -, rfl⟩ := hs.enters henters
      obtain ⟨last, -, heq⟩ := fail_eq { h.cb with
          nextBackOff := next
          currentInterval := interval ((if h.cb.tripped then h.level + 1 else h.level) + 1) } a
      rw [heq]
      exact (counted_le (Or.inl rfl) h.cb.counts _ _ rfl).trans (Nat.add_le_add_right hle 1)
    | succeeded henters hok hdrawn hearly =>
      obtain ⟨next, -, rfl⟩ := hs.enters henters
      exact (counted_le (Or.inr rfl) h.cb.counts _ _ rfl).trans (Nat.add_le_add_right hle 1)
    | closed henters hok htripped hdrawn hlate =>
      have hzero := counted_reset h.cb.counts
      obtain ⟨next, -, rfl⟩ := hs.enters henters
      have hone := counted_le (Or.inr rfl) h.cb.counts.reset (a.clock 2) (a.clock 3) rfl
      rw [hzero] at hone
      exact hone.trans (Nat.succ_le_succ (Nat.zero_le _))
  · rw [(sane_of_reach hpause hreach).consecFailures]
    exact_mod_cast ((le_streak_iff _ _).mp le_rfl).1

theorem Counted.step (hc : Counted δ h.now h.cb.counts h.events) (hs : Sane f h)
    (hprompt : Prompt δ h a)
    (hstep : step h a = some h') : Counted δ h'.now h'.cb.counts h'.events := by
  obtain ⟨⟨h₀, h₁, h₂, h₃, h₄⟩, heff⟩ := effect_of_step hs.idle hstep
  unfold Prompt at hprompt
  cases heff with
  | refused htripped hearly =>
    obtain ⟨t, ht, hsound⟩ := hc
    refine ⟨t, ?_, hsound⟩
    show t ≤ a.clock 4
    omega
  | failed henters hfailed =>
    rw [if_pos hfailed] at hprompt
    obtain ⟨next, -, rfl⟩ := hs.enters henters
    obtain ⟨last, -, heq⟩ := fail_eq { h.cb with
        nextBackOff := next
        currentInterval := interval ((if h.cb.tripped then h.level + 1 else h.level) + 1) } a
    rw [heq]
    exact ⟨a.clock 2, h₃.trans h₄, hc.fail (h₀.trans h₁) h₂ hprompt⟩
  | succeeded henters hok hdrawn hearly =>
    rw [if_neg hok] at hprompt
    obtain ⟨next, -, rfl⟩ := hs.enters henters
    exact ⟨a.clock 3, h₄, hc.succeed (by omega) h₃ hprompt⟩
  | closed henters hok htripped hdrawn hlate =>
    rw [if_neg hok] at hprompt
    obtain ⟨next, -, rfl⟩ := hs.enters henters
    exact ⟨a.clock 3, h₄, hc.reset.succeed (by omega) h₃ hprompt⟩

theorem counted_of_reach (hδ : 0 ≤ δ) (hpause : Drawn initialInterval pause)
    (hreach : Reach step (Prompt δ) (begin f start pause) h) :
    Counted δ h.now h.cb.counts h.events := by
  have hnew : Reach Tallies.step (Tallies.Prompt δ) (Tallies.begin 10000000000 10 start)
      (Tallies.begin 10000000000 10 start) := .refl
  have hsound : Sound 10 1000000000 δ (Tallies.begin 10000000000 10 start) :=
    sound_of_reach (by decide) (by decide) (by decide) hδ hnew
  refine hreach.invariant (P := fun h => Counted δ h.now h.cb.counts h.events)
    ⟨start, le_rfl, hsound⟩ ?_
  intro h h' a hr hc hprompt hstep
  exact hc.step (sane_of_reach hpause hr) hprompt hstep

/-- A call that takes no time, and every pause is the same. -/
def instant (err : Option Error) (now pause : ℤ) : Attempt :=
  ⟨err, 0, false, fun _ => now, fun _ => pause⟩

/-- The error of a server that is down. -/
def down : Option Error := some (.other (str "down"))

theorem prompt_instant (h : History) (err : Option Error) (now : ℤ) :
    Prompt 0 h (instant err now pause) := by
  unfold Prompt
  split_ifs <;> simp [instant]

/-- A new breaker after a failure, which has tripped it or not. -/
def failedOnce (f : TripFunc) (tripped : Bool) : History :=
  ⟨⟨f, 1, 0, 0, ⟨⟨1, 0⟩ :: List.replicate 9 ⟨0, 0⟩, 1000000000, 0⟩, 500000000, tripped, false,
    750000000⟩, 0, [instant down 0 0], [⟨0, true⟩], 0⟩

/-! ### When the breaker trips -/

theorem Enters.fail_tripped (henters : Enters h.cb a cb) (htripped : h.cb.tripped = true) :
    (cb.fail a).tripped = true := by
  obtain ⟨last, -, heq⟩ := fail_eq cb a
  rw [heq, henters.tripped_eq, htripped]
  rfl

theorem Enters.fail_closed (henters : Enters h.cb a cb) (hclosed : h.cb.tripped = false) :
    ∃ last, cb.fail a =
      { h.cb.countFail a with lastFailure := last, tripped := (h.cb.countFail a).trips } := by
  cases henters with
  | closed _ =>
    obtain ⟨last, -, heq⟩ := fail_eq h.cb a
    rw [hclosed, Bool.false_or] at heq
    exact ⟨last, heq⟩
  | trial htripped hlate hdrawn => exact absurd htripped (by simp [hclosed])

/-- A closed breaker trips with a call that fails, and `ShouldTrip` has said so. -/
theorem Sane.trips (hs : Sane f h) (hstep : Tripping.step h a = some h')
    (hclosed : h.cb.tripped = false) (htripped : h'.cb.tripped = true) :
    h'.cb.trips = true ∧ Failed a ∧ h'.executed = a :: h.executed ∧
      h'.events = ⟨a.clock 1, true⟩ :: h.events ∧
      h'.cb.counts = h.cb.counts.fail (a.clock 1) (a.clock 2) := by
  cases (effect_of_step hs.idle hstep).2 with
  | refused htripped' hearly => exact absurd htripped' (by simp [hclosed])
  | failed henters hfailed =>
    obtain ⟨last, heq⟩ := henters.fail_closed hclosed
    rw [heq] at htripped ⊢
    exact ⟨htripped, hfailed, rfl, rfl, rfl⟩
  | succeeded henters hok hdrawn hearly =>
    have hsame := henters.tripped_eq.trans hclosed
    exact absurd (htripped.symm.trans hsame) (by decide)
  | closed henters hok htripped' hdrawn hlate => exact absurd htripped' (by simp [hclosed])

/-- **Closed breakers.** `ShouldTrip` compares a count with `threshold`. If `Fail` adds at most one
to the count and `Success` nothing, it is below the threshold as long as the breaker is closed. -/
theorem count_lt_of_closed {threshold : ℤ} (count : Window → ℤ → ℤ)
    (htrips : ∀ cb : Breaker, cb.shouldTrip = f →
      cb.trips = (count cb.counts cb.consecFailures == threshold))
    (hfail : ∀ w n t t', count (Window.fail w t t') (n + 1) ≤ count w n + 1)
    (hsucceed : ∀ w n t t', count w n < threshold → count (Window.succeed w t t') 0 < threshold)
    (hreset : ∀ w t t', count (Window.succeed (Window.reset w) t t') 0 < threshold)
    (hnew : count (newWindow 10000000000 10 start) 0 < threshold) {ok : History → Attempt → Prop}
    (hpause : Drawn initialInterval pause) (hreach : Reach step ok (begin f start pause) h) :
    h.cb.tripped = false → count h.cb.counts h.cb.consecFailures < threshold := by
  refine hreach.invariant (P := fun h => h.cb.tripped = false →
    count h.cb.counts h.cb.consecFailures < threshold)
    (fun _ => hnew) ?_
  intro h h' a hr ih _ hstep hclosed'
  have hs := sane_of_reach hpause hr
  cases (effect_of_step hs.idle hstep).2 with
  | refused htripped hearly => exact ih hclosed'
  | failed henters hfailed =>
    have hclosed : h.cb.tripped = false := by
      cases htripped : h.cb.tripped with
      | false => rfl
      | true => exact absurd hclosed' (by simp [henters.fail_tripped htripped])
    obtain ⟨last, heq⟩ := henters.fail_closed hclosed
    rw [heq] at hclosed' ⊢
    have hquiet : (h.cb.countFail a).trips = false := hclosed'
    have hne := htrips (h.cb.countFail a) hs.shouldTrip
    rw [hquiet] at hne
    have hle := hfail h.cb.counts h.cb.consecFailures (a.clock 1) (a.clock 2)
    have hlt := ih hclosed
    have hne' : count (h.cb.counts.fail (a.clock 1) (a.clock 2)) (h.cb.consecFailures + 1) ≠
        threshold := by
      simpa [Breaker.countFail] using hne.symm
    show count (h.cb.counts.fail (a.clock 1) (a.clock 2)) (h.cb.consecFailures + 1) < threshold
    omega
  | succeeded henters hok hdrawn hearly =>
    obtain ⟨next, -, rfl⟩ := hs.enters henters
    exact hsucceed _ _ _ _ (ih hclosed')
  | closed henters hok htripped hdrawn hlate => exact hreset _ _ _

theorem failures_lt_of_closed {threshold : ℤ} (hpos : 0 < threshold)
    (hpause : Drawn initialInterval pause)
    (hreach : Reach step (Prompt δ) (begin (.threshold threshold) start pause) h)
    (hclosed : h.cb.tripped = false) : h.cb.counts.failures < threshold := by
  refine count_lt_of_closed (fun w _ => w.failures) ?_ ?_ ?_ ?_ hpos hpause hreach hclosed
  · intro cb hcb
    rw [Breaker.trips, hcb]
  · intro w n t t'
    have hle := failures_fail_le w t t'
    omega
  · intro w n t t' hlt
    have hle := failures_succeed_le w t t'
    omega
  · intro w t t'
    have hle := failures_succeed_le w.reset t t'
    have hzero := counted_reset w
    omega

/-- **The threshold breaker.** While it is closed, fewer than `threshold` calls have failed in the
last nine seconds, among those since it was closed. When it trips, at least that many have failed in
the last nineteen seconds (and eleven times `δ`). It never trips with a threshold below one. -/
theorem threshold_trips {threshold : ℤ} (hδ : 0 ≤ δ) (hpause : Drawn initialInterval pause)
    (hreach : Reach step (Prompt δ) (begin (.threshold threshold) start pause) h) :
    (h.cb.tripped = false → 0 < threshold →
      failuresAfter (h.now - 9000000000) h.events < threshold) ∧
      ∀ a h', Prompt δ h a → step h a = some h' → h.cb.tripped = false → h'.cb.tripped = true →
        0 < threshold ∧ threshold ≤ failuresFrom (a.clock 2 - 19000000000 - 11 * δ) h'.events := by
  have hs := sane_of_reach hpause hreach
  have hc := counted_of_reach hδ hpause hreach
  refine ⟨fun hclosed hpos => ?_, fun a h' hprompt hstep hclosed htripped => ?_⟩
  · have hlt := failures_lt_of_closed hpos hpause hreach hclosed
    obtain ⟨t, ht, hsound⟩ := hc
    have hlower := (hsound.bounds hδ).1 (h.now - 9000000000) (by dsimp only; omega)
    dsimp only at hlower
    omega
  · obtain ⟨⟨h₀, h₁, h₂, -, -⟩, -⟩ := effect_of_step hs.idle hstep
    obtain ⟨htrips, hfailed, -, hevents, hcounts⟩ := hs.trips hstep hclosed htripped
    rw [Prompt, if_pos hfailed] at hprompt
    have hsound : Sound 10 1000000000 δ ⟨h'.cb.counts, h'.events, a.clock 2⟩ := by
      rw [hcounts, hevents]
      exact hc.fail (h₀.trans h₁) h₂ hprompt
    have hcount : (h'.cb.counts.failures : ℤ) = threshold := by
      rw [Breaker.trips, (hs.step hstep).shouldTrip] at htrips
      simpa using htrips
    have hpos : 0 < h'.cb.counts.failures := by
      have hlen : 0 < (h.cb.counts.fail (a.clock 1) (a.clock 2)).buckets.length := by
        rw [← hcounts, hsound.length]
        decide
      rw [hcounts]
      exact failures_fail_pos hlen
    have hupper := (hsound.bounds hδ).2 (a.clock 2 - 19000000000 - 11 * δ) (by dsimp only; omega)
    dsimp only at hupper
    omega

/-- The second of two failures, nine seconds apart, trips a breaker with threshold two. -/
theorem threshold_trips_second :
    ∃ h', step (failedOnce (.threshold 2) false) (instant down 9000000000 0) = some h' ∧
      h'.cb.tripped = true ∧
      failuresAfter (0 - 9000000000) (failedOnce (.threshold 2) false).events < (2 : ℤ) ∧
      (2 : ℤ) ≤ failuresFrom (9000000000 - 19000000000 - 11 * 0) h'.events := by
  have hrun : Reach step (Prompt 0) (begin (.threshold 2) 0 500000000)
      (failedOnce (.threshold 2) false) :=
    .tail .refl (prompt_instant _ down 0) rfl
  have htrips := threshold_trips le_rfl (by decide) hrun
  exact ⟨_, rfl, rfl, htrips.1 rfl (by decide),
    (htrips.2 _ _ (prompt_instant _ down 9000000000) rfl rfl rfl).2⟩

/-- **The consecutive breaker.** While it is closed, fewer than `threshold` calls have failed since
the last success. It trips when as many have failed, and never with a threshold below one. -/
theorem consecutive_trips {threshold : ℤ} (hpause : Drawn initialInterval pause)
    (hreach : Reach step Any (begin (.consecutive threshold) start pause) h) :
    (h.cb.tripped = false → 0 < threshold → failureStreak h.executed < threshold) ∧
      ∀ a h', step h a = some h' → h.cb.tripped = false → h'.cb.tripped = true →
        0 < threshold ∧ failureStreak h'.executed = threshold := by
  have hs := sane_of_reach hpause hreach
  refine ⟨fun hclosed hpos => ?_, fun a h' hstep hclosed htripped => ?_⟩
  · rw [← hs.consecFailures]
    refine count_lt_of_closed (fun _ n => n) ?_ ?_ ?_ ?_ hpos hpause hreach hclosed
    · intro cb hcb
      rw [Breaker.trips, hcb]
    · exact fun w n t t' => le_rfl
    · exact fun w n t t' _ => hpos
    · exact fun w t t' => hpos
  · have hs' := hs.step hstep
    obtain ⟨htrips, hfailed, hexecuted, -, -⟩ := hs.trips hstep hclosed htripped
    have hcount : h'.cb.consecFailures = threshold := by
      rw [Breaker.trips, hs'.shouldTrip] at htrips
      simpa using htrips
    rw [hs'.consecFailures] at hcount
    have hpos : 0 < failureStreak h'.executed := by
      rw [hexecuted, failureStreak_failed hfailed]
      exact Nat.succ_pos _
    exact ⟨by omega, hcount⟩

/-- The same with the consecutive breaker. -/
theorem consecutive_trips_second :
    ∃ h', step (failedOnce (.consecutive 2) false) (instant down 9000000000 0) = some h' ∧
      h'.cb.tripped = true ∧ failureStreak (failedOnce (.consecutive 2) false).executed < (2 : ℤ) ∧
      failureStreak h'.executed = (2 : ℤ) := by
  have hrun : Reach step Any (begin (.consecutive 2) 0 500000000)
      (failedOnce (.consecutive 2) false) :=
    reach_of_exec [instant down 0 0] rfl
  have htrips := consecutive_trips (by decide) hrun
  exact ⟨_, rfl, rfl, htrips.1 rfl (by decide),
    (htrips.2 (instant down 9000000000 0) _ rfl rfl rfl).2⟩

/-! ### The trials -/

theorem Sane.nextBackOff_lt (hs : Sane f h) : h.cb.nextBackOff < maxDuration := by
  have hmax := (interval_bounds h.level).2
  have hhigh := hs.nextBackOff.2
  unfold maxInterval at hmax
  unfold maxDuration
  omega

/-- A trial is made when half of the interval has passed, at the earliest. -/
theorem Sane.interval_le (hs : Sane f h) (hordered : Ordered h a) (htripped : h.cb.tripped = true)
    (henters : Enters h.cb a cb) : interval h.level ≤ 2 * (a.clock 0 - h.cb.lastFailure) := by
  cases henters with
  | closed hclosed => exact absurd htripped (by simp [hclosed])
  | trial _ hlate _ =>
    have hpast : h.cb.lastFailure ≤ a.clock 0 := (hs.lastFailure htripped).trans hordered.1
    rw [lt_since_iff hpast (Or.inl hs.nextBackOff_lt)] at hlate
    have hlow := hs.nextBackOff.1
    omega

/-- **A server that is down.** As long as all calls fail that a tripped breaker lets in, the breaker
stays tripped. Before each of them half of the interval passes, and the intervals grow: `n` calls
take half of the sum of `n` intervals. -/
theorem trials_spaced (hpause : Drawn initialInterval pause)
    (hreach : Reach step Any (begin f start pause) h) (htripped : h.cb.tripped = true)
    (hfails : Reach step (fun _ a => Failed a) h h') :
    h'.cb.tripped = true ∧
      ∃ n, h'.executed.length = h.executed.length + n ∧
        ∑ k ∈ Finset.range n, interval (h.level + k) ≤
          2 * (h'.cb.lastFailure - h.cb.lastFailure) := by
  have hrun : h'.cb.tripped = true ∧
      ∃ n, h'.executed.length = h.executed.length + n ∧ h'.level = h.level + n ∧
        ∑ k ∈ Finset.range n, interval (h.level + k) ≤
          2 * (h'.cb.lastFailure - h.cb.lastFailure) := by
    refine hfails.invariant (P := fun h' => h'.cb.tripped = true ∧
      ∃ n, h'.executed.length = h.executed.length + n ∧ h'.level = h.level + n ∧
        ∑ k ∈ Finset.range n, interval (h.level + k) ≤ 2 * (h'.cb.lastFailure - h.cb.lastFailure))
      ⟨htripped, 0, rfl, rfl, by simp⟩ ?_
    rintro h₁ h₂ a hr ⟨htripped₁, n, hlen, hlevel, hsum⟩ hfailed hstep
    have hs := sane_of_reach hpause (hreach.trans hr.any)
    obtain ⟨hordered, heff⟩ := effect_of_step hs.idle hstep
    cases heff with
    | refused _ _ => exact ⟨htripped₁, n, hlen, hlevel, hsum⟩
    | @failed cb henters _ =>
      have hlate := hs.interval_le hordered htripped₁ henters
      obtain ⟨last, hlast, heq⟩ := fail_eq cb a
      have hlast' : a.clock 0 ≤ last := by
        obtain ⟨h₀, h₁, h₂, h₃, h₄⟩ := hordered
        omega
      refine ⟨henters.fail_tripped htripped₁, n + 1, ?_, ?_, ?_⟩
      · rw [List.length_cons, hlen, Nat.add_assoc]
      · show (if h₁.cb.tripped then h₁.level + 1 else h₁.level) = h.level + (n + 1)
        rw [if_pos htripped₁, hlevel, Nat.add_assoc]
      · rw [Finset.sum_range_succ, heq, ← hlevel]
        show _ ≤ 2 * (last - h.cb.lastFailure)
        omega
    | succeeded _ hok _ _ => exact absurd hfailed hok
    | closed _ hok _ _ _ => exact absurd hfailed hok
  obtain ⟨htripped', n, hlen, -, hsum⟩ := hrun
  exact ⟨htripped', n, hlen, hsum⟩

/-- A breaker with threshold one, a call that is refused and two trials. -/
theorem trials_spaced_two :
    ∃ h', Reach step (fun _ a => Failed a) (failedOnce (.threshold 1) true) h' ∧
      h'.executed.length = 3 ∧ h'.cb.tripped = true := by
  have hrun : Reach step Any (begin (.threshold 1) 0 500000000) (failedOnce (.threshold 1) true) :=
    reach_of_exec [instant down 0 0] rfl
  have hfails : Reach step (fun _ a => Failed a) (failedOnce (.threshold 1) true) _ :=
    reach_of_labels
      [instant down 2 0, instant down 600000000 750000000, instant down 1400000000 1125000000]
      (by
        intro u l hl
        simp only [List.mem_cons, List.not_mem_nil, or_false] at hl
        rcases hl with rfl | rfl | rfl <;> rfl) rfl
  exact ⟨_, hfails, rfl, (trials_spaced (by decide) hrun rfl hfails).1⟩

/-- **A server that is up again.** Once one and a half intervals have passed since the last failure,
the breaker lets the next call in, and if the call succeeds, the breaker is closed. No interval is
longer than a minute. -/
theorem breaker_recovers (hpause : Drawn initialInterval pause)
    (hreach : Reach step Any (begin f start pause) h) (hstep : step h a = some h')
    (hlate : 3 * interval h.level + 2 < 2 * (a.clock 0 - h.cb.lastFailure)) :
    interval h.level ≤ 60000000000 ∧ h'.executed = a :: h.executed ∧
      (¬ Failed a → h'.cb.tripped = false) := by
  have hs := sane_of_reach hpause hreach
  obtain ⟨hmin, hmax⟩ := interval_bounds h.level
  obtain ⟨⟨h₀, h₁, h₂, h₃, h₄⟩, heff⟩ := effect_of_step hs.idle hstep
  cases heff with
  | refused htripped hearly =>
    exfalso
    have hpast : h.cb.lastFailure ≤ a.clock 0 := (hs.lastFailure htripped).trans h₀
    rw [← not_lt, lt_since_iff hpast (Or.inl hs.nextBackOff_lt)] at hearly
    have hhigh := hs.nextBackOff.2
    omega
  | failed henters hfailed => exact ⟨hmax, rfl, fun hok => absurd hfailed hok⟩
  | succeeded henters hok hdrawn hearly =>
    refine ⟨hmax, rfl, fun _ => ?_⟩
    obtain ⟨next, -, rfl⟩ := hs.enters henters
    -- were it tripped, it would have been late enough to close it
    by_contra htripped
    rw [Bool.not_eq_false] at htripped
    have hpast : h.cb.lastFailure ≤ a.clock 1 := (hs.lastFailure htripped).trans (h₀.trans h₁)
    have hhigh := hdrawn.2
    have hshort : a.pause 1 < maxDuration := by
      unfold initialInterval at hhigh
      unfold maxDuration
      omega
    have hearly' := hearly htripped
    dsimp only at hearly'
    rw [← not_lt, lt_since_iff hpast (Or.inl hshort)] at hearly'
    omega
  | closed henters hok htripped hdrawn hlate' => exact ⟨hmax, rfl, fun _ => rfl⟩

/-- A breaker that has tripped is closed by a success, a second after the failure. -/
theorem breaker_recovers_second :
    ∃ a h', step (failedOnce (.consecutive 1) true) a = some h' ∧ a.clock 0 = 1000000000 ∧
      h'.cb.tripped = false := by
  let a := instant none 1000000000 700000000
  have hlate : 3 * interval (failedOnce (.consecutive 1) true).level + 2 <
      2 * (a.clock 0 - 0) := by decide
  have hok : ¬ Failed a := by decide
  have hrun : Reach step Any (begin (.consecutive 1) 0 500000000)
      (failedOnce (.consecutive 1) true) :=
    reach_of_exec [instant down 0 0] rfl
  exact ⟨a, _, rfl, rfl, (breaker_recovers (by decide) hrun rfl hlate).2.2 hok⟩

end Runs

end Frpc.Circuit.Tripping
