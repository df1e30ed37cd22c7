import Frpc.Circuit.Breaker
import Frpc.Lib.Buckets
import Frpc.Lib.Words
import Frpc.Server.Listener

/-! # The limit on connections

`controller/ratelimit.go`, with the bucket of `juju/ratelimit` that it uses, in the listener of
`Listener.lean`. A `RateLimit` takes a token from its bucket for every connection, and rejects the
connection if there is none. The bucket is full at first; a token comes in with every tick of its
clock.

`Listener.lean` lets tokens come in at any time. Here time passes, and the buckets count. Every run
is one of the listener (`rateLimit_refines`), and the connections that are served in a while are at
most the capacity, the ticks that have passed, and one more (`rate_limited`): a full bucket is not
counted, so that the first token that is taken after a while is given back by the next count. -/

namespace Frpc.Server.RateLimit

open Frpc.Basic Frpc.Codecs Frpc.Lib.Runs Frpc.Lib.Words Frpc.Server.Machine
open Frpc.Circuit.Breaker (since minDuration maxDuration)
open Frpc.Server.Listener (ConnId Conn)

variable {V T : Type}

/-! ### Buckets -/

/-- `type Bucket struct` -/
structure Bucket where
  startTime : ℤ
  capacity : ℤ
  quantum : ℤ
  fillInterval : ℤ
  availableTokens : ℤ
  latestTick : ℤ

/-- `NewBucket`; there is no bucket if it panics. -/
def newBucket (now fillInterval capacity : ℤ) : Option Bucket :=
  if fillInterval ≤ 0 then none
  else if capacity ≤ 0 then none
  else some ⟨now, capacity, 1, fillInterval, capacity, 0⟩

/-- `currentTick` -/
def Bucket.currentTick (tb : Bucket) (now : ℤ) : ℤ := (since tb.startTime now).tdiv tb.fillInterval

/-- `adjustavailableTokens` -/
def Bucket.adjustAvailableTokens (tb : Bucket) (tick : ℤ) : Bucket :=
  if tb.availableTokens ≥ tb.capacity then tb
  else
    let availableTokens :=
      int64 (tb.availableTokens + int64 (int64 (tick - tb.latestTick) * tb.quantum))
    { tb with
      availableTokens := if availableTokens > tb.capacity then tb.capacity else availableTokens
      latestTick := tick }

/-- `takeAvailable` -/
def Bucket.takeAvailable (tb : Bucket) (now count : ℤ) : ℤ × Bucket :=
  if count ≤ 0 then (0, tb)
  else
    let tb := tb.adjustAvailableTokens (tb.currentTick now)
    if tb.availableTokens ≤ 0 then (0, tb)
    else
      let count := if count > tb.availableTokens then tb.availableTokens else count
      (count, { tb with availableTokens := int64 (tb.availableTokens - count) })

/-! ### Controllers -/

/-- The controllers. The number of a `RateLimit` is there for the statements only: the tokens that
it has taken. -/
inductive Controller where
  | metric
  | trace
  | rateLimit (bucket : Bucket) (taken : ℕ)

/-- `NewConnConcurrentLimit` -/
def newConnConcurrentLimit (now fillInterval capacity : ℤ) : Option Controller :=
  (newBucket now fillInterval capacity).map fun bucket => .rateLimit bucket 0

/-- `Controller.HandleConn`, when the clock says `now`. -/
def Controller.handleConn (now : ℤ) : Controller → Bool × Controller
  | .metric => (true, .metric)
  | .trace => (true, .trace)
  | .rateLimit bucket taken =>
    match bucket.takeAvailable now 1 with
    | (i, bucket) =>
      if i > 0 then (true, .rateLimit bucket (taken + 1)) else (false, .rateLimit bucket taken)

/-- `controllerServer.HandleConn`: the controllers are asked until one rejects the connection. -/
def handleConn (now : ℤ) : List Controller → Bool × List Controller
  | [] => (true, [])
  | m :: ms =>
    match m.handleConn now with
    | (false, m) => (false, m :: ms)
    | (true, m) =>
      let (ok, ms) := handleConn now ms
      (ok, m :: ms)

/-! ### The server -/

/-- A server, the clock, and its controllers in the place of those of `Listener.lean`. `started` is
there for the statements only: the connections that were handed to `serveConn`. -/
structure State (V : Type) where
  server : Listener.State V
  now : ℤ
  controllers : List Controller
  started : ℕ

/-- The steps. -/
inductive Label (V : Type) where
  /-- Time passes. -/
  | clock (now : ℤ)
  /-- The controllers are asked, and `serveConn` is started if they agree. -/
  | decide
  /-- Any other step of the server. -/
  | server (l : Listener.Label V)

/-- The steps of the server that do not concern the controllers. -/
def leavesControllers : Listener.Label V → Bool
  | .decide => false
  | .fill _ _ => false
  | _ => true

/-- One step. -/
def step (env : Env V) (srv : Config V T) (s : State V) : Label V → Option (State V)
  | .clock now => if s.now ≤ now then some { s with now } else none
  | .decide =>
    match s.server.loop with
    | .deciding c =>
      (s.server.conns c).map fun conn =>
        match handleConn s.now s.controllers with
        | (true, ms) => { s with
            server :=
  { s.server.setConn c { conn with serve := some .running } with loop := .accepting }
            controllers := ms
            started := s.started + 1 }
        | (false, ms) => { s with
            server := { s.server.setConn c conn.close with loop := .accepting }
            controllers := ms }
    | _ => none
  | .server l =>
    if leavesControllers l then (Listener.step env srv s.server l).map fun server =>
      { s with server } else none

/-- A new server. -/
def init (now : ℤ) (controllers : List Controller) : State V :=
  ⟨Listener.init [], now, controllers, 0⟩

/-! ### Buckets that do not overflow -/

section Buckets

variable {tb : Bucket} {now now' : ℤ}

/-- What the bucket of the library is, in the words of the source. -/
def Bucket.view (tb : Bucket) : Lib.Buckets.Bucket :=
  ⟨tb.capacity, tb.availableTokens, tb.latestTick⟩

/-- The connections that the bucket would let through at once. -/
def Bucket.allowance (tb : Bucket) (now : ℤ) : ℤ := tb.view.allowance (tb.currentTick now)

/-- The bucket was made by `NewBucket` before `now`, and the ticks of the longest duration can be
added to its capacity. -/
structure Sound (tb : Bucket) (now : ℤ) : Prop where
  quantum : tb.quantum = 1
  fillInterval : 0 < tb.fillInterval
  range : tb.capacity + maxDuration / tb.fillInterval < 2 ^ 63
  started : tb.startTime ≤ now
  ticks : 0 ≤ tb.latestTick
  valid : tb.view.Valid (tb.currentTick now)

theorem since_eq (hle : tb.startTime ≤ now) :
    since tb.startTime now = min (now - tb.startTime) maxDuration := by
  unfold since minDuration maxDuration
  omega

/-- The ticks are counted from the start, and are as many as fit into a duration. -/
theorem currentTick_eq (hle : tb.startTime ≤ now) :
    tb.currentTick now = min (now - tb.startTime) maxDuration / tb.fillInterval := by
  unfold Bucket.currentTick
  rw [since_eq hle, Int.tdiv_eq_ediv_of_nonneg]
  unfold maxDuration
  omega

theorem currentTick_mono (hpos : 0 < tb.fillInterval) (hle : tb.startTime ≤ now)
    (hnow : now ≤ now') :
    tb.currentTick now ≤ tb.currentTick now' := by
  rw [currentTick_eq hle, currentTick_eq (hle.trans hnow)]
  refine Int.ediv_le_ediv hpos ?_
  omega

theorem currentTick_le (hpos : 0 < tb.fillInterval) (hle : tb.startTime ≤ now) :
    tb.currentTick now ≤ maxDuration / tb.fillInterval := by
  rw [currentTick_eq hle]
  exact Int.ediv_le_ediv hpos (min_le_right _ _)

theorem Sound.later (h : Sound tb now) (hnow : now ≤ now') : Sound tb now' :=
  ⟨h.quantum, h.fillInterval, h.range, h.started.trans hnow, h.ticks,
    h.valid.later (currentTick_mono h.fillInterval h.started hnow)⟩

theorem adjustAvailableTokens_eq (h : Sound tb now) :
    tb.adjustAvailableTokens (tb.currentTick now) =
      { tb with
        availableTokens := (tb.view.refill (tb.currentTick now)).tokens
        latestTick := (tb.view.refill (tb.currentTick now)).stamp } := by
  obtain ⟨hquantum, hfill, hrange, hstart, hticks, hcap, hnonneg, hle, hstamp⟩ := h
  have htick := currentTick_le hfill hstart
  unfold Bucket.view at *
  dsimp only at *
  unfold Bucket.adjustAvailableTokens Lib.Buckets.Bucket.refill
  dsimp only
  by_cases hfull : tb.capacity ≤ tb.availableTokens
  · rw [if_pos hfull, if_pos hfull]
  · have hdiff : int64 (tb.currentTick now - tb.latestTick) = tb.currentTick now - tb.latestTick :=
      int64_eq (by omega) (by omega)
    have hsum : int64 (tb.availableTokens + (tb.currentTick now - tb.latestTick)) =
        tb.availableTokens + (tb.currentTick now - tb.latestTick) := int64_eq (by omega) (by omega)
    rw [if_neg hfull, if_neg hfull, hquantum, hdiff, mul_one, hdiff, hsum]
    dsimp only
    congr 1
    split_ifs <;> omega

/-- **`TakeAvailable(1)` is a draw.** -/
theorem takeAvailable_eq (h : Sound tb now) :
    tb.takeAvailable now 1 =
      (if (tb.view.draw (tb.currentTick now)).1 then 1 else 0,
        { tb with
          availableTokens := (tb.view.draw (tb.currentTick now)).2.tokens
          latestTick := (tb.view.draw (tb.currentTick now)).2.stamp }) := by
  have hrange := h.range
  have hcap : 0 < tb.capacity := h.valid.capacity
  have hrefill : (tb.view.refill (tb.currentTick now)).tokens ≤ tb.capacity := by
    have hle : tb.availableTokens ≤ tb.capacity := h.valid.le_capacity
    unfold Lib.Buckets.Bucket.refill Bucket.view
    dsimp only
    split_ifs
    · exact hle
    · exact min_le_right _ _
  have hdiv : 0 ≤ maxDuration / tb.fillInterval :=
    Int.ediv_nonneg (by unfold maxDuration; norm_num) h.fillInterval.le
  unfold Bucket.takeAvailable Lib.Buckets.Bucket.draw
  rw [if_neg (by norm_num), adjustAvailableTokens_eq h]
  dsimp only
  by_cases hempty : (tb.view.refill (tb.currentTick now)).tokens ≤ 0
  · rw [if_pos hempty, if_pos hempty]
    rfl
  · rw [if_neg hempty, if_neg hempty, if_neg (by omega), int64_eq (by omega) (by omega)]
    rfl

theorem Sound.takeAvailable (h : Sound tb now) : Sound (tb.takeAvailable now 1).2 now := by
  have hdraw := h.valid.draw
  have hcap := Lib.Buckets.Bucket.draw_capacity h.valid
  rw [takeAvailable_eq h]
  refine ⟨h.quantum, h.fillInterval, h.range, h.started, ?_, ?_⟩
  · show 0 ≤ (tb.view.draw (tb.currentTick now)).2.stamp
    have hticks := h.ticks
    have hstamp : tb.latestTick ≤ tb.currentTick now := h.valid.stamp
    rcases Lib.Buckets.Bucket.draw_cases h.valid with ⟨-, heq⟩ | ⟨-, -, heq⟩ | ⟨-, -, heq⟩
    · rw [heq]
      exact hticks
    · rw [heq]
      exact hticks.trans hstamp
    · rw [heq]
      exact hticks.trans hstamp
  · show Lib.Buckets.Bucket.Valid ⟨tb.capacity, _, _⟩ _
    rw [show tb.capacity = (tb.view.draw (tb.currentTick now)).2.capacity from hcap.symm]
    exact hdraw

/-- A connection is let through if and only if something is allowed, and it is taken from that. -/
theorem allowance_takeAvailable (h : Sound tb now) :
    ((tb.takeAvailable now 1).1 > 0 ↔ 0 < tb.allowance now) ∧
    (tb.takeAvailable now 1).2.allowance now =
      tb.allowance now - if (tb.takeAvailable now 1).1 > 0 then 1 else 0 := by
  have hiff := Lib.Buckets.Bucket.draw_iff h.valid
  have hallow := Lib.Buckets.Bucket.allowance_draw h.valid
  have hcap := Lib.Buckets.Bucket.draw_capacity h.valid
  have hview : (tb.takeAvailable now 1).2.view = (tb.view.draw (tb.currentTick now)).2 := by
    rw [takeAvailable_eq h]
    show Lib.Buckets.Bucket.mk tb.capacity _ _ = _
    rw [show tb.capacity = (tb.view.draw (tb.currentTick now)).2.capacity from hcap.symm]
  have htick : (tb.takeAvailable now 1).2.currentTick now = tb.currentTick now := by
    rw [takeAvailable_eq h]
    rfl
  unfold Bucket.allowance
  rw [hview, htick, hallow, takeAvailable_eq h, ← hiff]
  dsimp only
  cases (tb.view.draw (tb.currentTick now)).1 with
  | true => exact ⟨by norm_num, by norm_num⟩
  | false => exact ⟨by norm_num, by norm_num⟩

end Buckets

/-! ### The tokens of one controller -/

section Accounts

variable {env : Env V} {srv : Config V T} {now now' : ℤ} {tb tb' : Bucket} {n n' : ℕ} {k : ℕ}

theorem rateLimit_handleConn (tb : Bucket) (n : ℕ) (now : ℤ) :
    (Controller.rateLimit tb n).handleConn now =
      (decide ((tb.takeAvailable now 1).1 > 0),
        .rateLimit (tb.takeAvailable now 1).2
          (if (tb.takeAvailable now 1).1 > 0 then n + 1 else n)) := by
  unfold Controller.handleConn
  dsimp only
  split_ifs with hpos
  · rw [decide_eq_true hpos]
  · rw [decide_eq_false hpos]

/-- What `HandleConn` does to one of the controllers: it is not asked, because one before it has
rejected the connection, or it is asked, and if it has no token the connection is rejected. -/
theorem handleConn_getElem? (now : ℤ) :
    ∀ (ms : List Controller) (k : ℕ), ms[k]? = some (.rateLimit tb n) →
    ((handleConn now ms).2[k]? = some (.rateLimit tb n) ∧ (handleConn now ms).1 = false) ∨
    ((handleConn now ms).2[k]? = some ((Controller.rateLimit tb n).handleConn now).2 ∧
      ((handleConn now ms).1 = true → (tb.takeAvailable now 1).1 > 0))
  | [], k, hk => by cases hk
  | m :: ms, 0, hk => by
    obtain rfl : m = .rateLimit tb n := by simpa using hk
    right
    rw [handleConn, rateLimit_handleConn]
    by_cases hpos : (tb.takeAvailable now 1).1 > 0
    · simp [hpos]
    · simp [hpos]
  | m :: ms, k + 1, hk => by
    have hk' : ms[k]? = some (.rateLimit tb n) := by simpa using hk
    have ih := handleConn_getElem? now ms k hk'
    rw [handleConn]
    rcases hm : m.handleConn now with ⟨ok, m'⟩
    cases ok with
    | false => exact Or.inl ⟨hk', rfl⟩
    | true => simpa using ih

/-- The account of a `RateLimit` between two moments: it has taken a token for every connection that
was handed to `serveConn`, and what it has taken and still allows is what it allowed, and at most
the ticks more. -/
structure Account (tb : Bucket) (n : ℕ) (now : ℤ) (started : ℕ) (tb' : Bucket) (n' : ℕ) (now' : ℤ)
    (started' : ℕ) : Prop where
  sound : Sound tb' now'
  startTime : tb'.startTime = tb.startTime
  fillInterval : tb'.fillInterval = tb.fillInterval
  capacity : tb'.capacity = tb.capacity
  served : started' + n ≤ started + n'
  lower : tb.allowance now + n ≤ n' + tb'.allowance now'
  upper : n' + tb'.allowance now' ≤
    n + tb.allowance now + (tb.currentTick now' - tb.currentTick now)

theorem Account.refl (h : Sound tb now) (started : ℕ) : Account tb n now started tb n now started :=
  ⟨h, rfl, rfl, rfl, le_rfl, by omega, by omega⟩

/-- The clock of the bucket does not change with its tokens. -/
theorem Account.currentTick {started started' : ℕ}
    (h : Account tb n now started tb' n' now' started')
    (t : ℤ) : tb'.currentTick t = tb.currentTick t := by
  unfold Bucket.currentTick
  rw [h.startTime, h.fillInterval]

theorem Account.clock {started started' : ℕ} {later : ℤ}
    (h : Account tb n now started tb' n' now' started') (hle : now' ≤ later) :
    Account tb n now started tb' n' later started' := by
  have htick := currentTick_mono h.sound.fillInterval h.sound.started hle
  have hmono : tb'.allowance now' ≤ tb'.allowance later := Lib.Buckets.Bucket.allowance_mono htick
  have hgrow : tb'.allowance later ≤
      tb'.allowance now' + (tb'.currentTick later - tb'.currentTick now') :=
    Lib.Buckets.Bucket.allowance_later htick h.sound.valid.stamp
  have hlower := h.lower
  have hupper := h.upper
  rw [h.currentTick, h.currentTick] at hgrow
  exact ⟨h.sound.later hle, h.startTime, h.fillInterval, h.capacity, h.served, by omega, by omega⟩

theorem Account.take {started started' : ℕ} (h : Account tb n now started tb' n' now' started')
    (new : ℕ) (hnew : new ≤ if (tb'.takeAvailable now' 1).1 > 0 then 1 else 0) :
    Account tb n now started (tb'.takeAvailable now' 1).2
      (if (tb'.takeAvailable now' 1).1 > 0 then n' + 1 else n') now' (started' + new) := by
  have hallow := (allowance_takeAvailable h.sound).2
  have hserved := h.served
  have hlower := h.lower
  have hupper := h.upper
  have hkeep : (tb'.takeAvailable now' 1).2.startTime = tb'.startTime ∧
      (tb'.takeAvailable now' 1).2.fillInterval = tb'.fillInterval ∧
      (tb'.takeAvailable now' 1).2.capacity = tb'.capacity := by
    rw [takeAvailable_eq h.sound]
    exact ⟨rfl, rfl, rfl⟩
  refine ⟨h.sound.takeAvailable, hkeep.1.trans h.startTime, hkeep.2.1.trans h.fillInterval,
    hkeep.2.2.trans h.capacity, ?_, ?_, ?_⟩
  · split_ifs at hnew ⊢ <;> omega
  · rw [hallow]
    split_ifs <;> push_cast <;> omega
  · rw [hallow]
    split_ifs <;> push_cast <;> omega

theorem Account.handleConn {started started' : ℕ}
    (h : Account tb n now started tb' n' now' started')
    {ms : List Controller} (hk : ms[k]? = some (.rateLimit tb' n')) :
    ∃ tb'' n'', (RateLimit.handleConn now' ms).2[k]? = some (.rateLimit tb'' n'') ∧
      Account tb n now started tb'' n'' now'
        (started' + if (RateLimit.handleConn now' ms).1 then 1 else 0) := by
  rcases handleConn_getElem? now' ms k hk with ⟨hget, hno⟩ | ⟨hget, hyes⟩
  · rw [hno]
    exact ⟨tb', n', hget, h⟩
  · rw [rateLimit_handleConn] at hget
    refine ⟨_, _, hget, h.take _ ?_⟩
    cases hok : (RateLimit.handleConn now' ms).1 with
    | false => exact Nat.zero_le _
    | true =>
      rw [if_pos (hyes hok)]
      exact le_rfl

theorem Account.step {started : ℕ} {s t : State V} {l : Label V}
    (h : Account tb n now started tb' n' s.now s.started)
    (hk : s.controllers[k]? = some (.rateLimit tb' n')) (hs : step env srv s l = some t) :
    ∃ tb'' n'', t.controllers[k]? = some (.rateLimit tb'' n'') ∧
      Account tb n now started tb'' n'' t.now t.started := by
  cases l with
  | clock later =>
    simp only [RateLimit.step] at hs
    split_ifs at hs with hle
    cases hs
    exact ⟨tb', n', hk, h.clock hle⟩
  | decide =>
    obtain ⟨tb'', n'', hget, hacc⟩ := h.handleConn hk
    simp only [RateLimit.step] at hs
    split at hs
    · obtain ⟨conn, -, rfl⟩ := Option.map_eq_some_iff.mp hs
      rcases hh : RateLimit.handleConn s.now s.controllers with ⟨ok, ms⟩
      rw [hh] at hget hacc
      cases ok with
      | false => exact ⟨tb'', n'', hget, hacc⟩
      | true => exact ⟨tb'', n'', hget, hacc⟩
    · cases hs
  | server l =>
    simp only [RateLimit.step] at hs
    split_ifs at hs
    obtain ⟨server, -, rfl⟩ := Option.map_eq_some_iff.mp hs
    exact ⟨tb', n', hk, h⟩

theorem account_of_reach {started : ℕ} {s t : State V}
    (h : Account tb n now started tb' n' s.now s.started)
    (hk : s.controllers[k]? = some (.rateLimit tb' n'))
    (hr : Reach (RateLimit.step env srv) Any s t) :
    ∃ tb'' n'', t.controllers[k]? = some (.rateLimit tb'' n'') ∧
      Account tb n now started tb'' n'' t.now t.started := by
  refine hr.invariant (P := fun t => ∃ tb'' n'', t.controllers[k]? = some (.rateLimit tb'' n'') ∧
    Account tb n now started tb'' n'' t.now t.started) ⟨tb', n', hk, h⟩ ?_
  rintro u v l - ⟨tb'', n'', hk'', hacc⟩ - hs
  exact hacc.step hk'' hs

/-! ### The controllers of a run -/

/-- The bucket of a controller does not overflow. -/
def Controller.Sound (now : ℤ) : Controller → Prop
  | .rateLimit tb _ => RateLimit.Sound tb now
  | _ => True

/-- A `MetricController`, a `TraceController`, or the result of `NewConnConcurrentLimit` before
`now`, where the ticks of the longest duration can be added to the capacity. -/
def Made (now : ℤ) (m : Controller) : Prop :=
  m = .metric ∨ m = .trace ∨ ∃ t fillInterval capacity, t ≤ now ∧
    capacity + maxDuration / fillInterval < 2 ^ 63 ∧
      newConnConcurrentLimit t fillInterval capacity = some m

theorem Made.sound {m : Controller} (h : Made now m) : m.Sound now := by
  rcases h with rfl | rfl | ⟨t, fillInterval, capacity, hle, hrange, hnew⟩
  · trivial
  · trivial
  · unfold newConnConcurrentLimit newBucket at hnew
    split_ifs at hnew with hfill hcap
    · cases hnew
    · cases hnew
    rw [Option.map_some, Option.some.injEq] at hnew
    subst hnew
    have htick : 0 ≤ Bucket.currentTick ⟨t, capacity, 1, fillInterval, capacity, 0⟩ now := by
      rw [currentTick_eq hle]
      refine Int.ediv_nonneg ?_ (by dsimp only; omega)
      unfold maxDuration
      dsimp only
      omega
    refine ⟨rfl, by dsimp only; omega, hrange, hle, le_rfl, ?_⟩
    unfold Bucket.view
    exact ⟨by dsimp only; omega, by dsimp only; omega, le_rfl, htick⟩

theorem Controller.Sound.handleConn {m : Controller} (h : m.Sound now) :
    (m.handleConn now).2.Sound now := by
  cases m with
  | metric => trivial
  | trace => trivial
  | rateLimit tb n =>
    rw [rateLimit_handleConn]
    exact RateLimit.Sound.takeAvailable h

theorem Controller.Sound.later {m : Controller} (h : m.Sound now) (hle : now ≤ now') :
    m.Sound now' := by
  cases m with
  | metric => trivial
  | trace => trivial
  | rateLimit tb n => exact RateLimit.Sound.later h hle

theorem sound_handleConn : ∀ {ms : List Controller}, (∀ m ∈ ms, m.Sound now) →
    ∀ m ∈ (handleConn now ms).2, m.Sound now
  | [], _, m, hm => by cases hm
  | m :: ms, h, m', hm' => by
    have hhead : (m.handleConn now).2.Sound now := (h m List.mem_cons_self).handleConn
    have htail : ∀ m ∈ ms, m.Sound now := fun m hm => h m (List.mem_cons_of_mem _ hm)
    have ih := sound_handleConn htail
    rw [handleConn] at hm'
    rcases hm : m.handleConn now with ⟨ok, m''⟩
    rw [hm] at hm' hhead
    cases ok with
    | false =>
      rcases List.mem_cons.mp hm' with rfl | hmem
      · exact hhead
      · exact htail m' hmem
    | true =>
      rcases List.mem_cons.mp hm' with rfl | hmem
      · exact hhead
      · exact ih m' hmem

theorem sound_of_step {s t : State V} {l : Label V} (h : ∀ m ∈ s.controllers, m.Sound s.now)
    (hs : step env srv s l = some t) : ∀ m ∈ t.controllers, m.Sound t.now := by
  cases l with
  | clock later =>
    simp only [step] at hs
    split_ifs at hs with hle
    cases hs
    intro m hm
    exact (h m hm).later hle
  | decide =>
    have hsound := sound_handleConn h
    simp only [step] at hs
    split at hs
    · obtain ⟨conn, -, rfl⟩ := Option.map_eq_some_iff.mp hs
      rcases hh : handleConn s.now s.controllers with ⟨ok, ms⟩
      rw [hh] at hsound
      cases ok with
      | false => exact hsound
      | true => exact hsound
    · cases hs
  | server l =>
    simp only [step] at hs
    split_ifs at hs
    obtain ⟨server, -, rfl⟩ := Option.map_eq_some_iff.mp hs
    exact h

theorem sound_of_reach {controllers : List Controller} (hmade : ∀ m ∈ controllers, Made now m)
    {s : State V} (hs : Reach (step env srv) Any (init now controllers) s) :
    ∀ m ∈ s.controllers, m.Sound s.now := by
  refine hs.invariant (P := fun s => ∀ m ∈ s.controllers, m.Sound s.now)
    (fun m hm => (hmade m hm).sound) ?_
  intro t u l _ hsound _ hstep
  exact sound_of_step hsound hstep

/-- **The limit holds.** In every run of a server, between any two moments, for each of its
`RateLimit`s: every connection that is handed to `serveConn` has taken a token; what was taken and
what is still allowed together are what was allowed, plus at most the ticks of the clock; and so
there were no more connections than the capacity, one, and the ticks. -/
theorem rate_limited {controllers : List Controller} (hmade : ∀ m ∈ controllers, Made now m)
    {s t : State V}
    (hs : Reach (step env srv) Any (init now controllers) s) (h : Reach (step env srv) Any s t)
    (hk : s.controllers[k]? = some (.rateLimit tb n)) :
    ∃ tb' n', t.controllers[k]? = some (.rateLimit tb' n') ∧
      (t.started : ℤ) - s.started ≤ n' - n ∧
      tb.allowance s.now ≤ n' - n + tb'.allowance t.now ∧
      n' - n + tb'.allowance t.now ≤
        tb.allowance s.now + (tb.currentTick t.now - tb.currentTick s.now) ∧
      (t.started : ℤ) - s.started ≤
        tb.capacity + 1 + (tb.currentTick t.now - tb.currentTick s.now) := by
  have hsound : Sound tb s.now := sound_of_reach hmade hs _ (List.mem_of_getElem? hk)
  obtain ⟨tb', n', hk', hacc⟩ := account_of_reach (.refl hsound s.started) hk h
  have hserved := hacc.served
  have hlower := hacc.lower
  have hupper := hacc.upper
  have hnonneg : 0 ≤ tb'.allowance t.now := Lib.Buckets.Bucket.allowance_nonneg hacc.sound.valid
  have hle : tb.allowance s.now ≤ tb.capacity + 1 := Lib.Buckets.Bucket.allowance_le _ _
  exact ⟨tb', n', hk', by omega, by omega, by omega, by omega⟩

/-- The result of `NewConnConcurrentLimit(10, 1)` at time 0. -/
def oneInTen : Controller := .rateLimit ⟨0, 1, 1, 10, 1, 0⟩ 0

theorem made_oneInTen : ∀ m ∈ [oneInTen], Made 25 m := by
  intro m hm
  obtain rfl := List.mem_singleton.mp hm
  exact .inr (.inr ⟨0, 10, 1, by norm_num, by unfold maxDuration; norm_num, rfl⟩)

/-- After two ticks the full bucket lets two connections through at once, and then no third: one
more than its capacity. -/
theorem rate_limited_burst :
    ∃ t : State (Option Bytes), Reach (step quoteEnv Listener.noService) Any
      (init 25 [oneInTen]) t ∧ t.now = 25 ∧ t.started = 2 ∧
      (t.server.conns 2).map (fun conn => (conn.serve, conn.machine.connClosed)) =
        some (none, true) ∧
      ∃ (tb' : Bucket) (n' : ℕ), t.controllers[0]? = some (.rateLimit tb' n') ∧ t.started ≤ n' ∧
        2 ≤ n' + tb'.allowance t.now := by
  have hrun : Reach (step quoteEnv Listener.noService) Any (init 25 [oneInTen]) _ :=
    reach_of_exec [.server .listen, .server (.accept 0 []), .server .insert, .decide,
      .server (.accept 1 []), .server .insert, .decide, .server (.accept 2 []), .server .insert,
        .decide] rfl
  obtain ⟨tb', n', hk, hserved, hallow, -⟩ := rate_limited (k := 0) made_oneInTen .refl hrun rfl
  have hburst : Bucket.allowance ⟨0, 1, 1, 10, 1, 0⟩ 25 = 2 := by decide
  refine ⟨_, hrun, rfl, rfl, rfl, tb', n', hk, ?_, ?_⟩
  · simpa [init] using hserved
  · simpa [init, hburst] using hallow

end Accounts

/-! ### The listener without a clock -/

section Refinement

variable {env : Env V} {srv : Config V T} {now : ℤ}

/-- The controller of the listener: the tokens that have come in since the last count are not there
yet. -/
def Controller.abs : Controller → Listener.Controller
  | .metric => .metric
  | .trace => .trace
  | .rateLimit tb _ => .rateLimit tb.capacity.toNat tb.availableTokens.toNat

/-- The server without the clock. -/
def State.listener (s : State V) : Listener.State V :=
  { s.server with controllers := s.controllers.map Controller.abs }

/-- Tokens come into one of the buckets. -/
def fillStep (ms : List Listener.Controller) (l : ℕ × ℕ) : Option (List Listener.Controller) :=
  some (ms.modify l.1 (Listener.Controller.fill l.2))

theorem fillStep_cons {ms ms' : List Listener.Controller} (m : Listener.Controller)
    (h : Reach fillStep Any ms ms') : Reach fillStep Any (m :: ms) (m :: ms') := by
  refine h.simulate (f := fun ms => m :: ms) ?_
  rintro t u ⟨k, n⟩ - - hs
  cases hs
  exact ⟨(k + 1, n), trivial, by simp [fillStep]⟩

theorem reach_fill {s : Listener.State V} {ms ms' : List Listener.Controller}
    (h : Reach fillStep Any ms ms') :
    Reach (Listener.step env srv) Any { s with controllers := ms }
      { s with controllers := ms' } := by
  refine h.simulate (f := fun ms => { s with controllers := ms }) ?_
  rintro t u ⟨k, n⟩ - - hs
  cases hs
  exact ⟨.fill k n, trivial, rfl⟩

/-- A controller that counts its tokens is one into which these tokens come. -/
theorem handleConn_fill {m : Controller} (h : m.Sound now) :
    ∃ n, (m.abs.fill n).handleConn = ((m.handleConn now).1, (m.handleConn now).2.abs) := by
  cases m with
  | metric => exact ⟨0, rfl⟩
  | trace => exact ⟨0, rfl⟩
  | rateLimit tb n =>
    have hsound : Sound tb now := h
    obtain ⟨hcap, hnonneg, hle, hstamp⟩ := hsound.valid
    have hdraw := Lib.Buckets.Bucket.draw_cases hsound.valid
    rw [rateLimit_handleConn, takeAvailable_eq hsound]
    unfold Bucket.view at *
    unfold Controller.abs Listener.Controller.fill Listener.Controller.handleConn
    dsimp only at *
    rcases hdraw with ⟨hfull, heq⟩ | ⟨hlt, hpos, heq⟩ | ⟨htokens, hstamp', heq⟩
    · refine ⟨0, ?_⟩
      rw [heq, if_pos (by omega)]
      refine Prod.ext rfl ?_
      rw [Listener.Controller.rateLimit.injEq]
      exact ⟨rfl, by dsimp only; omega⟩
    · refine ⟨(tb.currentTick now - tb.latestTick).toNat, ?_⟩
      rw [heq, if_pos (by omega)]
      refine Prod.ext rfl ?_
      rw [Listener.Controller.rateLimit.injEq]
      exact ⟨rfl, by dsimp only; omega⟩
    · refine ⟨0, ?_⟩
      rw [heq, if_neg (by omega)]
      refine Prod.ext rfl ?_
      rw [Listener.Controller.rateLimit.injEq]
      exact ⟨rfl, by dsimp only; omega⟩

/-- The controllers that are asked count their tokens first. -/
theorem handleConn_abs : ∀ {ms : List Controller}, (∀ m ∈ ms, m.Sound now) →
    ∃ filled, Reach fillStep Any (ms.map Controller.abs) filled ∧
      Listener.handleConn filled = ((handleConn now ms).1, (handleConn now ms).2.map Controller.abs)
  | [], _ => ⟨[], .refl, rfl⟩
  | m :: ms, h => by
    have htail : ∀ m ∈ ms, m.Sound now := fun m hm => h m (List.mem_cons_of_mem _ hm)
    obtain ⟨n, hn⟩ := handleConn_fill (h m List.mem_cons_self)
    obtain ⟨filled, hreach, hfilled⟩ := handleConn_abs htail
    have hhead : Reach fillStep Any ((m :: ms).map Controller.abs)
        (m.abs.fill n :: ms.map Controller.abs) :=
      Reach.next (l := (0, n)) .refl rfl
    rw [handleConn]
    rcases hm : m.handleConn now with ⟨ok, m'⟩
    rw [hm] at hn
    cases ok with
    | false =>
      refine ⟨_, hhead, ?_⟩
      rw [Listener.handleConn, hn]
      rfl
    | true =>
      refine ⟨_, hhead.trans (fillStep_cons _ hreach), ?_⟩
      rw [Listener.handleConn, hn]
      dsimp only
      rw [hfilled]
      rfl

/-- The other steps of the listener do not see the controllers. -/
theorem step_controllers {s : Listener.State V} {l : Listener.Label V}
    (hl : leavesControllers l = true) (ms : List Listener.Controller) :
    Listener.step env srv { s with controllers := ms } l =
      (Listener.step env srv s l).map fun t => { t with controllers := ms } := by
  cases l with
  | decide => cases hl
  | fill k n => cases hl
  | listen =>
    simp only [Listener.step]
    split_ifs <;> rfl
  | accept c d =>
    simp only [Listener.step]
    split_ifs <;> rfl
  | acceptErr temporary =>
    simp only [Listener.step]
    split_ifs <;> rfl
  | insert =>
    simp only [Listener.step]
    split <;> rfl
  | conn c l =>
    simp only [Listener.step]
    cases s.conns c with
    | none => rfl
    | some conn =>
      simp only [Option.bind_some]
      split_ifs
      · cases Machine.step env srv conn.machine l <;> rfl
      · rfl
  | delete c =>
    simp only [Listener.step]
    cases s.conns c with
    | none => rfl
    | some conn =>
      simp only [Option.bind_some]
      split_ifs <;> rfl
  | connClose c =>
    simp only [Listener.step]
    cases s.conns c with
    | none => rfl
    | some conn =>
      simp only [Option.bind_some]
      split_ifs <;> rfl
  | close =>
    simp only [Listener.step]
    split_ifs <;> rfl
  | closeListener =>
    simp only [Listener.step]
    split_ifs <;> rfl
  | closeConn c =>
    simp only [Listener.step]
    cases s.conns c with
    | none => rfl
    | some conn =>
      simp only [Option.bind_some]
      split_ifs <;> rfl
  | closeReturn =>
    simp only [Listener.step]
    split_ifs <;> rfl

theorem listener_of_step {s t : State V} {l : Label V} (hsound : ∀ m ∈ s.controllers, m.Sound s.now)
    (hs : step env srv s l = some t) : Reach (Listener.step env srv) Any s.listener t.listener := by
  cases l with
  | clock later =>
    simp only [step] at hs
    split_ifs at hs
    cases hs
    exact .refl
  | decide =>
    obtain ⟨filled, hreach, hfilled⟩ := handleConn_abs hsound
    simp only [step] at hs
    split at hs
    · rename_i c hloop
      obtain ⟨conn, hc, rfl⟩ := Option.map_eq_some_iff.mp hs
      refine (reach_fill (s := s.server) hreach).next (l := .decide) ?_
      simp only [Listener.step, hloop, hc, hfilled]
      rcases hh : handleConn s.now s.controllers with ⟨ok, ms⟩
      cases ok with
      | false => rfl
      | true => rfl
    · cases hs
  | server l =>
    simp only [step] at hs
    split_ifs at hs with hl
    obtain ⟨server, hserver, rfl⟩ := Option.map_eq_some_iff.mp hs
    refine Reach.next (l := l) .refl ?_
    unfold State.listener
    rw [step_controllers hl, hserver]
    rfl

/-- **The buckets refine the listener.** Every run of a server with a clock and buckets that count
is a run of the listener into whose buckets tokens come at any time. -/
theorem rateLimit_refines {controllers : List Controller} (hmade : ∀ m ∈ controllers, Made now m)
    {s : State V} (hs : Reach (step env srv) Any (init now controllers) s) :
    Reach (Listener.step env srv) Any (Listener.init (controllers.map Controller.abs))
      s.listener := by
  refine hs.invariant (P := fun s => Reach (Listener.step env srv) Any
    (Listener.init (controllers.map Controller.abs)) s.listener) .refl ?_
  intro t u l ht hreach _ hstep
  exact hreach.trans (listener_of_step (sound_of_reach hmade ht) hstep)

/-- A connection is rejected and another one is served two ticks later, here and by the listener. -/
theorem rateLimit_refines_two_ticks :
    ∃ t : State (Option Bytes), Reach (step quoteEnv Listener.noService) Any
      (init 25 [oneInTen]) t ∧ t.now = 45 ∧ t.started = 3 ∧
      Reach (Listener.step quoteEnv Listener.noService) Any
        (Listener.init [.rateLimit 1 1]) t.listener := by
  have hrun : Reach (step quoteEnv Listener.noService) Any (init 25 [oneInTen]) _ :=
    reach_of_exec [.server .listen, .server (.accept 0 []), .server .insert, .decide,
      .server (.accept 1 []), .server .insert, .decide, .server (.accept 2 []),
        .server .insert, .decide,
      .clock 45, .server (.accept 3 []), .server .insert, .decide] rfl
  exact ⟨_, hrun, rfl, rfl, rateLimit_refines made_oneInTen hrun⟩

end Refinement

end Frpc.Server.RateLimit
