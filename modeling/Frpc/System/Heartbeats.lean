import Frpc.Lib.Leases
import Frpc.Lib.Runs
import Mathlib.Data.List.Perm.Basic

/-! # Heartbeats and deadlines

The goroutine `heartbeat` of a client makes a call without a name at every tick, and waits for the
answer. The loop of `serveConn` sets the read deadline before it waits for a request. After a
request has come, it sets the write deadline, but with the time `t` at which it began to wait.
`Connect` sets the deadlines of the client once, and they are never moved. One connection is
modelled with its clock: the frames on their way in both directions, the loop, and the goroutines
that write the responses. The call of a heartbeat goes through the breaker of the client, if it has
one: the breaker may refuse it, and give it up after its timeout. A frame is written at once or not
at all, and nobody calls `Close`. `Connect` may return before `serveConn` has come to its loop, or
after.

Heartbeats that are answered in time keep an otherwise idle connection from running into the read
deadline, as long as the deadlines of the client are not over (`heartbeats_keep`). But when the
write timeout of the server is not longer than the heartbeat interval, the deadline for the first
response is over before its request has come. Then the client waits for this response until the
connection is closed, and there is no second heartbeat unless the breaker gives the first one up
(`heartbeats_stop`). -/

namespace Frpc.System.Heartbeats

open Frpc.Lib.Runs Frpc.Lib.Leases

/-- The options that matter here: those of the client with the timeout of its breaker, and those of
the server. -/
structure Config where
  heartbeatInterval : ℤ
  clientReadTimeout : ℤ
  clientWriteTimeout : ℤ
  breaker : Option ℤ
  readTimeout : ℤ
  writeTimeout : ℤ

/-- A request or its response: a heartbeat with its number, or another call. -/
inductive Frame where
  | beat (n : ℕ)
  | call

def Frame.isBeat : Frame → Bool
  | .beat _ => true
  | .call => false

/-- The ticker of `heartbeat`: when it fires next, and whether a tick is in its channel. -/
structure Ticker where
  next : ℤ
  waiting : Bool

/-- Where the loop of `serveConn` stands. -/
inductive Loop where
  /-- The first round has not begun. -/
  | starting
  | reading
  /-- It has a request, and goes on to the next round. -/
  | handling
deriving DecidableEq

/-- A connection. The client has it when there is a ticker. -/
structure State where
  now : ℤ
  ticker : Option Ticker
  clientReadDeadline : Option ℤ
  clientWriteDeadline : Option ℤ
  /-- The heartbeat whose answer the goroutine `heartbeat` waits for. -/
  calling : Option ℕ
  /-- When the breaker gives it up. -/
  timer : Option ℤ
  up : List Frame
  down : List Frame
  loop : Loop
  /-- The time at which the round began. -/
  t : ℤ
  readDeadline : Option ℤ
  writeDeadline : Option ℤ
  /-- The responses that have not been written yet. -/
  responses : List Frame
  /-- The loop was left, and the connection is closed. -/
  returned : Bool
  /-- `handleResponse` has ended. -/
  shutdown : Bool
  /-- How many heartbeats the client has sent. -/
  beats : ℕ

/-- The steps. -/
inductive Label where
  /-- `Connect` returns in the client, and `heartbeat` makes its ticker. -/
  | connect
  /-- The ticker fires. A tick is dropped if there is one in the channel. -/
  | fire
  /-- `heartbeat` takes a tick, and sends a request; `failed` says that it cannot be written. -/
  | beat (failed : Bool)
  /-- `heartbeat` takes a tick, and the breaker refuses the call. -/
  | refuse
  /-- The breaker returns from the call of a heartbeat because its timeout is over. -/
  | giveUp
  /-- Another call sends a request. -/
  | call (failed : Bool)
  /-- A request is decoded. -/
  | decode
  /-- The next round begins. -/
  | round
  /-- The response with this index is written. That fails if the write deadline is over or the
  connection closed. -/
  | write (k : ℕ)
  /-- The client reads a response. -/
  | receive
  /-- Reading fails, because the read deadline is over. -/
  | timeout
  /-- The client reads the end of the stream, and every pending call fails. -/
  | eof
  /-- Reading fails in the client, because its read deadline is over. -/
  | clientTimeout
  | wait (time : ℤ)

/-- `SetReadDeadline` and `SetWriteDeadline`, if there is a timeout. -/
def setDeadline (deadline : Option ℤ) (t timeout : ℤ) : Option ℤ :=
  if timeout ≠ 0 then some (t + timeout) else deadline

/-- The deadline is over. -/
def State.over (s : State) (deadline : Option ℤ) : Bool := deadline.any fun d => decide (d ≤ s.now)

/-- What can become of a request that the client writes: it fails after the write deadline, and may
fail when the server has closed the connection. -/
def State.writes (s : State) (failed : Bool) : Bool :=
  if s.over s.clientWriteDeadline then failed else !failed || s.returned

/-- The end of `handleResponse`. -/
def State.shut (s : State) : State := { s with shutdown := true, calling := none }

/-- One step. -/
def step (cfg : Config) (s : State) : Label → Option State
  | .connect =>
    match s.ticker with
    | some _ => none
    | none =>
      some { s with
        ticker := some ⟨s.now + cfg.heartbeatInterval, false⟩
        clientReadDeadline := setDeadline none s.now cfg.clientReadTimeout
        clientWriteDeadline := setDeadline none s.now cfg.clientWriteTimeout }
  | .fire =>
    s.ticker.bind fun tk =>
      if tk.next ≤ s.now then some { s with ticker := some ⟨tk.next + cfg.heartbeatInterval, true⟩ }
        else none
  | .beat failed =>
    s.ticker.bind fun tk =>
      if tk.waiting = true ∧ s.calling = none ∧ s.shutdown = false ∧ s.writes failed = true then
        let s := { s with ticker := some { tk with waiting := false } }
        if failed then some s
        else
          some { s with
            calling := some s.beats
            timer := cfg.breaker.bind fun d => setDeadline none s.now d
            up := s.up ++ [.beat s.beats]
            beats := s.beats + 1 }
      else none
  | .refuse =>
    s.ticker.bind fun tk =>
      if tk.waiting = true ∧ s.calling = none ∧ s.shutdown = false ∧ cfg.breaker.isSome = true then
        some { s with ticker := some { tk with waiting := false } }
      else none
  | .giveUp =>
    if s.calling.isSome = true ∧ s.over s.timer = true
      then some { s with calling := none, timer := none }
    else none
  | .call failed =>
    s.ticker.bind fun _ =>
      if s.shutdown = false ∧ s.writes failed = true then
        if failed then some s else some { s with up := s.up ++ [.call] }
      else none
  | .decode =>
    match s.up with
    | [] => none
    | f :: up =>
      if s.loop = .reading ∧ s.returned = false then
        some { s with
          up
          loop := .handling
          writeDeadline := setDeadline s.writeDeadline s.t cfg.writeTimeout
          responses := f :: s.responses }
      else none
  | .round =>
    if s.loop ≠ .reading ∧ s.returned = false then
      some { s with
        loop := .reading
        t := s.now
        readDeadline := setDeadline s.readDeadline s.now cfg.readTimeout }
    else none
  | .write k =>
    (s.responses[k]?).map fun f =>
      { s with
        responses := s.responses.eraseIdx k
        down := if s.over s.writeDeadline || s.returned then s.down else s.down ++ [f] }
  | .receive =>
    match s.down with
    | [] => none
    | f :: down =>
      if s.shutdown = true then none
      else
        match f with
        -- a heartbeat that was given up is not waited for
        | .beat n => some { s with down, calling := if s.calling = some n then none else s.calling }
        | .call => some { s with down }
  | .timeout =>
    if s.loop = .reading ∧ s.over s.readDeadline = true ∧ s.returned = false then
      some { s with returned := true }
    else none
  | .eof => if s.ticker.isSome = true ∧ s.down.isEmpty = true ∧ s.returned = true
      then some s.shut else none
  | .clientTimeout => if s.over s.clientReadDeadline = true then some s.shut else none
  | .wait time => if s.now ≤ time then some { s with now := time } else none

/-- A new connection. -/
def init (start : ℤ) : State :=
  ⟨start, none, none, none, none, none, [], [], .starting, start, none, none, [], false, false, 0⟩

/-! ### What a step does -/

/-- The step function, inverted. -/
inductive Effect (cfg : Config) (s : State) : Label → State → Prop
  | connect (htk : s.ticker = none) :
      Effect cfg s .connect
        { s with
          ticker := some ⟨s.now + cfg.heartbeatInterval, false⟩
          clientReadDeadline := setDeadline none s.now cfg.clientReadTimeout
          clientWriteDeadline := setDeadline none s.now cfg.clientWriteTimeout }
  | fire {tk : Ticker} (htk : s.ticker = some tk) (hnow : tk.next ≤ s.now) :
      Effect cfg s .fire { s with ticker := some ⟨tk.next + cfg.heartbeatInterval, true⟩ }
  | beat {tk : Ticker} (htk : s.ticker = some tk) (hwaiting : tk.waiting = true)
      (hidle : s.calling = none) (hopen : s.shutdown = false) :
      Effect cfg s (.beat false)
        { s with
          ticker := some { tk with waiting := false }
          calling := some s.beats
          timer := cfg.breaker.bind fun d => setDeadline none s.now d
          up := s.up ++ [.beat s.beats]
          beats := s.beats + 1 }
  | beatFails {tk : Ticker} (htk : s.ticker = some tk) (hfails : s.writes true = true) :
      Effect cfg s (.beat true) { s with ticker := some { tk with waiting := false } }
  | refuse {tk : Ticker} (htk : s.ticker = some tk) :
      Effect cfg s .refuse { s with ticker := some { tk with waiting := false } }
  | giveUp : Effect cfg s .giveUp { s with calling := none, timer := none }
  | call {tk : Ticker} (htk : s.ticker = some tk) :
      Effect cfg s (.call false) { s with up := s.up ++ [.call] }
  | callFails : Effect cfg s (.call true) s
  | decode {f : Frame} {up : List Frame} (hup : s.up = f :: up) (hreading : s.loop = .reading) :
      Effect cfg s .decode
        { s with
          up
          loop := .handling
          writeDeadline := setDeadline s.writeDeadline s.t cfg.writeTimeout
          responses := f :: s.responses }
  | round (hloop : s.loop ≠ .reading) :
      Effect cfg s .round
        { s with
          loop := .reading
          t := s.now
          readDeadline := setDeadline s.readDeadline s.now cfg.readTimeout }
  | write {k : ℕ} {f : Frame} (hk : s.responses[k]? = some f) :
      Effect cfg s (.write k)
        { s with
          responses := s.responses.eraseIdx k
          down := if s.over s.writeDeadline || s.returned then s.down else s.down ++ [f] }
  | receive {f : Frame} {down : List Frame} {calling : Option ℕ} (hdown : s.down = f :: down)
      (hcalling : calling = s.calling ∨ calling = none ∧ f.isBeat = true) :
      Effect cfg s .receive { s with down := down, calling := calling }
  | timeout (hreading : s.loop = .reading) (hover : s.over s.readDeadline = true) :
      Effect cfg s .timeout { s with returned := true }
  | eof (hreturned : s.returned = true) : Effect cfg s .eof s.shut
  | clientTimeout (hover : s.over s.clientReadDeadline = true) : Effect cfg s .clientTimeout s.shut
  | wait {time : ℤ} (hle : s.now ≤ time) : Effect cfg s (.wait time) { s with now := time }

section Effects

variable {cfg : Config} {s s' : State} {l : Label}

theorem effect_of_receive (hs : step cfg s .receive = some s') : Effect cfg s .receive s' := by
  simp only [step] at hs
  split at hs
  · cases hs
  · rename_i f down hdown
    split_ifs at hs
    split at hs
    · cases hs
      refine .receive hdown ?_
      split_ifs
      · exact .inr ⟨rfl, rfl⟩
      · exact .inl rfl
    · cases hs
      exact .receive hdown (.inl rfl)

theorem effect_of_step (hs : step cfg s l = some s') : Effect cfg s l s' := by
  cases l with
  | connect =>
    simp only [step] at hs
    split at hs
    · cases hs
    · rename_i htk
      cases hs
      exact .connect htk
  | fire =>
    obtain ⟨tk, htk, hs⟩ := Option.bind_eq_some_iff.mp hs
    simp only [Option.ite_none_right_eq_some, Option.some.injEq] at hs
    obtain ⟨hnow, rfl⟩ := hs
    exact .fire htk hnow
  | beat failed =>
    obtain ⟨tk, htk, hs⟩ := Option.bind_eq_some_iff.mp hs
    simp only [Option.ite_none_right_eq_some] at hs
    obtain ⟨⟨hwaiting, hidle, hopen, hwrites⟩, hs⟩ := hs
    cases failed with
    | true =>
      cases hs
      exact .beatFails htk hwrites
    | false =>
      cases hs
      exact .beat htk hwaiting hidle hopen
  | refuse =>
    obtain ⟨tk, htk, hs⟩ := Option.bind_eq_some_iff.mp hs
    simp only [Option.ite_none_right_eq_some, Option.some.injEq] at hs
    obtain ⟨-, rfl⟩ := hs
    exact .refuse htk
  | giveUp =>
    simp only [step, Option.ite_none_right_eq_some, Option.some.injEq] at hs
    obtain ⟨-, rfl⟩ := hs
    exact .giveUp
  | call failed =>
    obtain ⟨tk, htk, hs⟩ := Option.bind_eq_some_iff.mp hs
    simp only [Option.ite_none_right_eq_some] at hs
    obtain ⟨-, hs⟩ := hs
    cases failed with
    | true =>
      cases hs
      exact .callFails
    | false =>
      cases hs
      exact .call htk
  | decode =>
    simp only [step] at hs
    split at hs
    · cases hs
    · rename_i f up hup
      simp only [Option.ite_none_right_eq_some, Option.some.injEq] at hs
      obtain ⟨⟨hreading, -⟩, rfl⟩ := hs
      exact .decode hup hreading
  | round =>
    simp only [step, Option.ite_none_right_eq_some, Option.some.injEq] at hs
    obtain ⟨⟨hloop, -⟩, rfl⟩ := hs
    exact .round hloop
  | write k =>
    obtain ⟨f, hk, rfl⟩ := Option.map_eq_some_iff.mp hs
    exact .write hk
  | receive => exact effect_of_receive hs
  | timeout =>
    simp only [step, Option.ite_none_right_eq_some, Option.some.injEq] at hs
    obtain ⟨⟨hreading, hover, -⟩, rfl⟩ := hs
    exact .timeout hreading hover
  | eof =>
    simp only [step, Option.ite_none_right_eq_some, Option.some.injEq] at hs
    obtain ⟨⟨-, -, hreturned⟩, rfl⟩ := hs
    exact .eof hreturned
  | clientTimeout =>
    simp only [step, Option.ite_none_right_eq_some, Option.some.injEq] at hs
    obtain ⟨hover, rfl⟩ := hs
    exact .clientTimeout hover
  | wait time =>
    simp only [step, Option.ite_none_right_eq_some, Option.some.injEq] at hs
    obtain ⟨hle, rfl⟩ := hs
    exact .wait hle

end Effects

/-! ### One heartbeat at a time -/

/-- How many heartbeats are among the frames. -/
def beatsIn (frames : List Frame) : ℕ := frames.countP Frame.isBeat

/-- How many heartbeats are on their way. -/
def State.inFlight (s : State) : ℕ := beatsIn s.up + (beatsIn s.responses + beatsIn s.down)

/-- The client waits for every heartbeat that is on its way, and so there is at most one. -/
def Single (s : State) : Prop := s.inFlight ≤ (s.calling.isSome || s.shutdown).toNat

section Single

variable {cfg : Config} {s s' : State} {l : Label}

theorem beatsIn_append (fs gs : List Frame) : beatsIn (fs ++ gs) = beatsIn fs + beatsIn gs :=
  List.countP_append

theorem beatsIn_cons (f : Frame) (fs : List Frame) :
    beatsIn (f :: fs) = beatsIn fs + f.isBeat.toNat := by
  cases h : f.isBeat <;> simp [beatsIn, h]

/-- A response that is written, or lost, is no longer to be written. -/
theorem inFlight_write {k : ℕ} {f : Frame} {lost : Bool} (hk : s.responses[k]? = some f) :
    beatsIn (s.responses.eraseIdx k) + beatsIn (if lost then s.down else s.down ++ [f]) ≤
      beatsIn s.responses + beatsIn s.down := by
  obtain ⟨hlt, rfl⟩ := List.getElem?_eq_some_iff.mp hk
  have hperm : beatsIn (_ :: s.responses.eraseIdx k) = beatsIn s.responses :=
    (List.getElem_cons_eraseIdx_perm hlt).countP_eq _
  rw [beatsIn_cons] at hperm
  cases lost with
  | true =>
    rw [if_pos rfl]
    omega
  | false =>
    rw [if_neg Bool.false_ne_true, beatsIn_append, beatsIn_cons]
    have hnil : beatsIn [] = 0 := rfl
    omega

theorem Single.step (h : Single s) (hl : l ≠ .giveUp) (hstep : step cfg s l = some s') :
    Single s' := by
  unfold Single State.inFlight at h ⊢
  cases effect_of_step hstep with
  | beat htk hwaiting hidle hopen =>
    rw [hidle, hopen] at h
    have hnone : beatsIn s.up + (beatsIn s.responses + beatsIn s.down) ≤ 0 := h
    have hone : beatsIn [.beat s.beats] = 1 := rfl
    show beatsIn (s.up ++ [.beat s.beats]) + (beatsIn s.responses + beatsIn s.down) ≤ 1
    rw [beatsIn_append]
    omega
  | giveUp => exact absurd rfl hl
  | call =>
    rw [beatsIn_append]
    exact h
  | @decode f up hup hreading =>
    rw [hup, beatsIn_cons] at h
    dsimp only
    rw [beatsIn_cons]
    omega
  | write hk => exact (Nat.add_le_add_left (inFlight_write hk) _).trans h
  | @receive f down calling hdown hcalling =>
    rw [hdown, beatsIn_cons] at h
    dsimp only
    rcases hcalling with rfl | ⟨-, hf⟩
    · omega
    · have hone : (s.calling.isSome || s.shutdown).toNat ≤ 1 := Bool.toNat_le _
      rw [hf, Bool.toNat_true] at h
      omega
  | eof =>
    rw [State.shut, Bool.or_true]
    exact h.trans (Bool.toNat_le _)
  | clientTimeout =>
    rw [State.shut, Bool.or_true]
    exact h.trans (Bool.toNat_le _)
  | connect | fire | beatFails | refuse | callFails | round | timeout | wait => exact h

end Single

/-! ### Heartbeats that are answered in time -/

/-- The read deadline is a lease, and a heartbeat renews it. It may have been granted before the
client had the connection. -/
def terms (cfg : Config) (delay : ℤ) : Terms :=
  ⟨cfg.heartbeatInterval, delay, cfg.readTimeout - delay, cfg.readTimeout, 0⟩

/-- The client takes a tick, or waits for the answer to a heartbeat. -/
def State.busy (s : State) (tk : Ticker) : Bool := tk.waiting || s.calling.isSome

/-- When a wait may end: the client has the connection within `delay` of the first round, and every
heartbeat is answered within `delay` of its tick. -/
def OnTime (cfg : Config) (delay : ℤ) (s : State) (time : ℤ) : Prop :=
  (s.ticker = none → s.loop = .reading → time ≤ s.t + delay) ∧ ∀ tk ∈ s.ticker,
    time ≤ tk.next ∧ (s.busy tk = true → time ≤ tk.next - cfg.heartbeatInterval + delay)

/-- The condition on the steps: the deadlines of the client are not over before the step, waits are
on time, and the breaker neither refuses a heartbeat nor gives one up. -/
structure Punctual (cfg : Config) (delay : ℤ) (s : State) (l : Label) : Prop where
  clientRead : s.over s.clientReadDeadline = false
  clientWrite : s.over s.clientWriteDeadline = false
  onTime : ∀ {time}, l = .wait time → OnTime cfg delay s time
  accepted : l ≠ .refuse
  awaited : l ≠ .giveUp

/-- A heartbeat has not come to the server. -/
def State.due (s : State) (tk : Ticker) : Bool := tk.waiting || s.up.any Frame.isBeat

/-- The client does not have the connection yet. -/
structure Fresh (cfg : Config) (delay : ℤ) (s : State) : Prop where
  calling : s.calling = none
  up : s.up = []
  readDeadline : s.loop = .reading → s.readDeadline = some (s.t + cfg.readTimeout)
  now_le : s.loop = .reading → s.now ≤ s.t + delay

/-- What holds of a connection whose heartbeats are answered in time. -/
structure Kept (cfg : Config) (delay : ℤ) (s : State) : Prop where
  single : Single s
  returned : s.returned = false
  shutdown : s.shutdown = false
  fresh : s.ticker = none → Fresh cfg delay s
  clock : ∀ tk, s.ticker = some tk → Timely (terms cfg delay) s.now tk.next (s.busy tk)
  covered : ∀ tk d, s.ticker = some tk → s.loop = .reading → s.readDeadline = some d →
    ∃ missed, Covered (terms cfg delay) tk.next (s.due tk) missed d

section Kept

variable {cfg : Config} {delay start : ℤ} {s s' : State} {l : Label} {tk : Ticker}

theorem delay_lt_readTimeout (ht : (terms cfg delay).Ample) : delay < cfg.readTimeout := by
  have hdelay : 0 ≤ delay := ht.delay_nonneg
  have hlt : delay < cfg.heartbeatInterval := ht.delay_lt
  have hshort : cfg.heartbeatInterval + delay < cfg.readTimeout - delay := ht.short_lt
  omega

theorem setDeadline_readTimeout (ht : (terms cfg delay).Ample) (deadline : Option ℤ) (t : ℤ) :
    setDeadline deadline t cfg.readTimeout = some (t + cfg.readTimeout) := by
  have hdelay : 0 ≤ delay := ht.delay_nonneg
  have hlt := delay_lt_readTimeout ht
  exact if_pos (by omega)

/-- The client waits for a heartbeat that has not come to the server. -/
theorem Kept.busy_of_due (h : Kept cfg delay s) (hdue : s.due tk = true) : s.busy tk = true := by
  rcases Bool.or_eq_true_iff.mp hdue with hwaiting | hmem
  · rw [State.busy, hwaiting, Bool.true_or]
  · obtain ⟨f, hf, hbeat⟩ := List.any_eq_true.mp hmem
    have hpos : 0 < beatsIn s.up := List.countP_pos_iff.mpr ⟨f, hf, hbeat⟩
    have hsingle : beatsIn s.up + _ ≤ (s.calling.isSome || s.shutdown).toNat := h.single
    cases hcalling : s.calling.isSome with
    | true => rw [State.busy, hcalling, Bool.or_true]
    | false =>
      rw [hcalling, h.shutdown, Bool.or_self, Bool.toNat_false] at hsingle
      omega

/-- The read deadline is not over while the server waits for a request. -/
theorem Kept.not_over (h : Kept cfg delay s) (ht : (terms cfg delay).Ample)
    (hreading : s.loop = .reading) :
    s.over s.readDeadline = false := by
  cases hdeadline : s.readDeadline with
  | none => rfl
  | some d =>
    have hlt : s.now < d := by
      cases htk : s.ticker with
      | none =>
        have hd := (h.fresh htk).readDeadline hreading
        have hnow := (h.fresh htk).now_le hreading
        have hdelay := delay_lt_readTimeout ht
        rw [hdeadline, Option.some.injEq] at hd
        omega
      | some tk =>
        obtain ⟨missed, hcovered⟩ := h.covered tk d htk hreading hdeadline
        exact hcovered.lt_expiry ht (h.clock tk htk) h.busy_of_due
    show decide (d ≤ s.now) = false
    exact decide_eq_false (by omega)

theorem Fresh.covered (h : Fresh cfg delay s) (ht : (terms cfg delay).Ample) {d : ℤ}
    (hreading : s.loop = .reading) (hd : s.readDeadline = some d) (due : Bool) :
    Covered (terms cfg delay) (s.now + cfg.heartbeatInterval) due none d := by
  have hnow := h.now_le hreading
  obtain rfl : s.t + cfg.readTimeout = d :=
    Option.some.inj ((h.readDeadline hreading).symm.trans hd)
  refine (covered_grant ht (timely_start ht.period_nonneg)).extend ?_
  show s.now + (cfg.readTimeout - delay) ≤ s.t + cfg.readTimeout
  omega

/-- A request does not fail on an open connection before the write deadline. -/
theorem Kept.not_writes_true (h : Kept cfg delay s) (hover : s.over s.clientWriteDeadline = false) :
    s.writes true = false := by
  rw [State.writes, hover, h.returned]
  rfl

theorem Kept.step (h : Kept cfg delay s) (ht : (terms cfg delay).Ample)
    (hok : Punctual cfg delay s l) (hstep : step cfg s l = some s') : Kept cfg delay s' := by
  have hsingle := h.single.step hok.awaited hstep
  cases effect_of_step hstep with
  | connect htk =>
    have hfresh := h.fresh htk
    refine ⟨hsingle, h.returned, h.shutdown, by rintro ⟨⟩, ?_, ?_⟩
    · rintro tk ⟨⟩
      rw [State.busy, hfresh.calling]
      exact timely_start ht.period_nonneg
    · rintro tk d ⟨⟩ hreading hd
      exact ⟨none, hfresh.covered ht hreading hd _⟩
  | @fire tk htk hnow =>
    have hclock := h.clock tk htk
    have hidle := hclock.idle ht hnow
    refine ⟨hsingle, h.returned, h.shutdown, by rintro ⟨⟩, ?_, ?_⟩
    · rintro tk' ⟨⟩
      exact hclock.fire ht hnow
    · rintro tk' d ⟨⟩ hreading hd
      obtain ⟨missed, hcovered⟩ := h.covered tk d htk hreading hd
      have hdue : s.due tk = false := by
        by_contra hdue
        have hbusy := h.busy_of_due (by simpa using hdue)
        exact absurd (hidle.symm.trans hbusy) (by decide)
      rw [hdue] at hcovered
      exact ⟨missed, hcovered.fire⟩
  | @beat tk htk hwaiting hidle hopen =>
    refine ⟨hsingle, h.returned, h.shutdown, by rintro ⟨⟩, ?_, ?_⟩
    · rintro tk' ⟨⟩
      exact (h.clock tk htk).mono fun _ => by rw [State.busy, hwaiting, Bool.true_or]
    · rintro tk' d ⟨⟩ hreading hd
      obtain ⟨missed, hcovered⟩ := h.covered tk d htk hreading hd
      have hdue : s.due tk = true := by rw [State.due, hwaiting, Bool.true_or]
      rw [hdue] at hcovered
      exact ⟨missed, by simpa [State.due, Frame.isBeat] using hcovered⟩
  | beatFails htk hfails =>
    exact absurd (hfails.symm.trans (h.not_writes_true hok.clientWrite)) (by decide)
  | refuse => exact absurd rfl hok.accepted
  | giveUp => exact absurd rfl hok.awaited
  | @call tk htk =>
    refine ⟨hsingle, h.returned, h.shutdown,
      fun hnone => ?_, h.clock, fun tk' d htk' hreading hd => ?_⟩
    · rw [htk] at hnone
      cases hnone
    · obtain ⟨missed, hcovered⟩ := h.covered tk' d htk' hreading hd
      exact ⟨missed, by simpa [State.due, Frame.isBeat] using hcovered⟩
  | callFails => exact h
  | @decode f up hup hreading =>
    refine ⟨hsingle, h.returned, h.shutdown, fun hnone => ?_, h.clock, by rintro tk d - ⟨⟩⟩
    rw [(h.fresh hnone).up] at hup
    cases hup
  | round hloop =>
    refine ⟨hsingle, h.returned, h.shutdown, fun hnone => ?_, h.clock, fun tk d htk _ hd => ?_⟩
    · have hdelay : 0 ≤ delay := ht.delay_nonneg
      obtain ⟨hcalling, hup, -, -⟩ := h.fresh hnone
      exact ⟨hcalling, hup, fun _ => setDeadline_readTimeout ht _ _, fun _ => by dsimp only; omega⟩
    · rw [setDeadline_readTimeout ht, Option.some.injEq] at hd
      subst hd
      exact ⟨some 0, covered_renew ht (h.clock tk htk)⟩
  | write hk =>
    refine ⟨hsingle, h.returned, h.shutdown, fun hnone => ?_, h.clock, h.covered⟩
    obtain ⟨hcalling, hup, hdeadline, hnow⟩ := h.fresh hnone
    exact ⟨hcalling, hup, hdeadline, hnow⟩
  | @receive f down calling hdown hcalling =>
    have hle : calling.isSome = true → s.calling.isSome = true := by
      rcases hcalling with rfl | ⟨rfl, -⟩
      · exact id
      · rintro ⟨⟩
    refine ⟨hsingle, h.returned, h.shutdown, fun hnone => ?_, fun tk htk => ?_, h.covered⟩
    · obtain ⟨hidle, hup, hdeadline, hnow⟩ := h.fresh hnone
      refine ⟨?_, hup, hdeadline, hnow⟩
      rcases hcalling with rfl | ⟨rfl, -⟩
      · exact hidle
      · rfl
    · refine (h.clock tk htk).mono fun hbusy => ?_
      rw [State.busy, Bool.or_eq_true_iff] at hbusy ⊢
      exact hbusy.imp_right hle
  | timeout hreading hover => exact absurd (hover.symm.trans (h.not_over ht hreading)) (by decide)
  | eof hreturned => exact absurd (hreturned.symm.trans h.returned) (by decide)
  | clientTimeout hover => exact absurd (hover.symm.trans hok.clientRead) (by decide)
  | wait hle =>
    obtain ⟨hfresh, hpunctual⟩ := hok.onTime rfl
    refine ⟨hsingle, h.returned, h.shutdown, fun hnone => ?_, fun tk htk => ?_, h.covered⟩
    · obtain ⟨hcalling, hup, hdeadline, -⟩ := h.fresh hnone
      exact ⟨hcalling, hup, hdeadline, hfresh hnone⟩
    · obtain ⟨hahead, hprompt⟩ := hpunctual tk htk
      exact ⟨(h.clock tk htk).begun.trans hle, hahead, hprompt⟩

theorem kept_init : Kept cfg delay (init start) := by
  refine ⟨Nat.le_refl 0, rfl, rfl, fun _ => ?_, by rintro _ ⟨⟩, by rintro _ _ ⟨⟩⟩
  exact ⟨rfl, rfl, by rintro ⟨⟩, by rintro ⟨⟩⟩

end Kept

instance (cfg : Config) (delay : ℤ) (s : State) (time : ℤ) : Decidable (OnTime cfg delay s time) :=
  inferInstanceAs (Decidable ((_ → _ → _) ∧ ∀ tk ∈ s.ticker, _ ∧ (_ → _)))

/-- `Punctual`, as a test. -/
def punctual (cfg : Config) (delay : ℤ) (s : State) (l : Label) : Bool :=
  !s.over s.clientReadDeadline && !s.over s.clientWriteDeadline &&
    match l with
    | .wait time => decide (OnTime cfg delay s time)
    | .refuse | .giveUp => false
    | _ => true

theorem punctual_of_check {cfg : Config} {delay : ℤ} (s : State) (l : Label)
    (h : punctual cfg delay s l = true) : Punctual cfg delay s l := by
  simp only [punctual, Bool.and_eq_true, Bool.not_eq_true'] at h
  obtain ⟨⟨hread, hwrite⟩, hl⟩ := h
  refine ⟨hread, hwrite, ?_, ?_, ?_⟩
  · rintro time rfl
    exact of_decide_eq_true hl
  · rintro rfl
    cases hl
  · rintro rfl
    cases hl

/-- An interval of 10, and a read timeout of 15 in the server. -/
def idleConfig (clientReadTimeout : ℤ) : Config := ⟨10, clientReadTimeout, 0, none, 15, 0⟩

/-- The first heartbeat is answered. -/
def answered : List Label :=
  [.connect, .round, .wait 10, .fire, .beat false, .wait 11, .decode, .round, .write 0, .receive]

-- a read timeout of the client ends the heartbeats, and then the server runs into its read deadline
example : ∃ s, Reach (step (idleConfig 12)) Any (init 0) s ∧ s.beats = 1 ∧ s.shutdown = true ∧
    s.returned = true :=
  ⟨_, reach_of_exec (answered ++ [.wait 12, .clientTimeout, .wait 20, .fire, .wait 26, .timeout])
    rfl, rfl, rfl, rfl⟩

/-! ### Heartbeats that are not answered -/

/-- When a wait may end: the loop begins within `delay` of `Connect`. -/
def Begins (cfg : Config) (delay : ℤ) (s : State) (time : ℤ) : Prop :=
  s.loop = .starting → ∀ tk ∈ s.ticker, time ≤ tk.next - cfg.heartbeatInterval + delay

/-- The condition on the steps: the client makes no other calls, the loop begins in time, and the
breaker does not give a heartbeat up. -/
structure Quiet (cfg : Config) (delay : ℤ) (s : State) (l : Label) : Prop where
  alone : ∀ failed, l ≠ .call failed
  begins : ∀ {time}, l = .wait time → Begins cfg delay s time
  awaited : l ≠ .giveUp

/-- No heartbeat was sent. The loop is in its first round, and the write deadline that it will set
is over before a tick comes. -/
structure Idle (cfg : Config) (delay : ℤ) (s : State) : Prop where
  calling : s.calling = none
  up : s.up = []
  responses : s.responses = []
  loop : s.loop ≠ .handling
  starting : s.loop = .starting → ∀ tk, s.ticker = some tk →
    tk.waiting = false ∧ s.now ≤ tk.next - cfg.heartbeatInterval + delay
  reading : s.loop = .reading → s.t ≤ s.now ∧ ∀ tk, s.ticker = some tk →
    s.t + cfg.writeTimeout ≤ tk.next ∧ (tk.waiting = true → s.t + cfg.writeTimeout ≤ s.now)

/-- A heartbeat was sent, and the deadline for its response is over: the one that the loop will set,
or the one that it has set. -/
structure Lost (cfg : Config) (s : State) : Prop where
  beats : s.beats = 1
  waits : s.calling ≠ none ∨ s.shutdown = true
  late : ((∃ f, s.up = [f]) ∧ s.responses = [] ∧ s.loop = .reading ∧
    s.t + cfg.writeTimeout ≤ s.now) ∨ (s.up = [] ∧ ∃ d, s.writeDeadline = some d ∧ d ≤ s.now)

/-- What holds of a connection with a short write timeout. -/
structure Stuck (cfg : Config) (delay : ℤ) (s : State) : Prop where
  down : s.down = []
  phase : (s.beats = 0 ∧ Idle cfg delay s) ∨ Lost cfg s

section Stuck

variable {cfg : Config} {delay start : ℤ} {s s' : State} {l : Label} {tk : Ticker}

theorem Idle.skip (h : Idle cfg delay s) (htk : s.ticker = some tk) :
    Idle cfg delay { s with ticker := some { tk with waiting := false } } := by
  refine ⟨h.calling, h.up, h.responses, h.loop, fun hstarting => ?_, fun hreading => ?_⟩
  · rintro tk' ⟨⟩
    exact ⟨rfl, (h.starting hstarting tk htk).2⟩
  · obtain ⟨ht, hnext⟩ := h.reading hreading
    refine ⟨ht, ?_⟩
    rintro tk' ⟨⟩
    exact ⟨(hnext tk htk).1, by rintro ⟨⟩⟩

theorem Idle.shut (h : Idle cfg delay s) : Idle cfg delay s.shut :=
  ⟨rfl, h.up, h.responses, h.loop, h.starting, h.reading⟩

theorem Idle.step (h : Idle cfg delay s) (hbeats : s.beats = 0) (hdown : s.down = [])
    (hdelay : 0 ≤ delay)
    (hpos : 0 < cfg.writeTimeout) (hle : cfg.writeTimeout + delay ≤ cfg.heartbeatInterval)
    (hok : Quiet cfg delay s l) (hstep : step cfg s l = some s') : Stuck cfg delay s' := by
  cases effect_of_step hstep with
  | connect htk =>
    refine ⟨hdown,
      .inl ⟨hbeats, h.calling, h.up, h.responses, h.loop, fun _ => ?_, fun hreading => ?_⟩⟩
    · rintro tk ⟨⟩
      refine ⟨rfl, ?_⟩
      dsimp only
      omega
    · have ht := (h.reading hreading).1
      refine ⟨ht, ?_⟩
      rintro tk ⟨⟩
      refine ⟨?_, by rintro ⟨⟩⟩
      dsimp only
      omega
  | @fire tk htk hnow =>
    refine ⟨hdown,
      .inl ⟨hbeats, h.calling, h.up, h.responses, h.loop, fun hstarting => ?_, fun hreading => ?_⟩⟩
    · -- the loop begins before the first tick
      have hnow' := (h.starting hstarting tk htk).2
      omega
    · obtain ⟨ht, hnext⟩ := h.reading hreading
      have hlate := (hnext tk htk).1
      refine ⟨ht, ?_⟩
      rintro tk' ⟨⟩
      dsimp only
      exact ⟨by omega, fun _ => by omega⟩
  | @beat tk htk hwaiting hidle hopen =>
    have hreading : s.loop = .reading := by
      cases hloop : s.loop with
      | starting => exact absurd (hwaiting.symm.trans (h.starting hloop tk htk).1) (by decide)
      | reading => rfl
      | handling => exact absurd hloop h.loop
    have hlate := ((h.reading hreading).2 tk htk).2 hwaiting
    refine ⟨hdown,
      .inr ⟨?_, .inl (by simp), .inl ⟨⟨.beat s.beats, ?_⟩, h.responses, hreading, hlate⟩⟩⟩
    · show s.beats + 1 = 1
      rw [hbeats]
    · show s.up ++ [.beat s.beats] = [.beat s.beats]
      rw [h.up, List.nil_append]
  | beatFails htk => exact ⟨hdown, .inl ⟨hbeats, h.skip htk⟩⟩
  | refuse htk => exact ⟨hdown, .inl ⟨hbeats, h.skip htk⟩⟩
  | giveUp => exact absurd rfl hok.awaited
  | call => exact absurd rfl (hok.alone false)
  | callFails => exact absurd rfl (hok.alone true)
  | decode hup => exact absurd (h.up.symm.trans hup) (by simp)
  | round hloop =>
    have hstarting : s.loop = .starting := by
      cases hloop' : s.loop with
      | starting => rfl
      | reading => exact absurd hloop' hloop
      | handling => exact absurd hloop' h.loop
    refine ⟨hdown,
      .inl ⟨hbeats, h.calling, h.up,
      h.responses, by rintro ⟨⟩, by rintro ⟨⟩, fun _ => ⟨le_rfl, ?_⟩⟩⟩
    intro tk htk
    obtain ⟨hwaiting, hnow⟩ := h.starting hstarting tk htk
    dsimp only
    refine ⟨by omega, fun hwaiting' => ?_⟩
    exact absurd (hwaiting.symm.trans hwaiting') (by decide)
  | write hk =>
    rw [h.responses] at hk
    cases hk
  | receive hdown' => exact absurd (hdown.symm.trans hdown') (by simp)
  | timeout =>
    exact ⟨hdown, .inl ⟨hbeats, h.calling, h.up, h.responses, h.loop, h.starting, h.reading⟩⟩
  | eof => exact ⟨hdown, .inl ⟨hbeats, h.shut⟩⟩
  | clientTimeout => exact ⟨hdown, .inl ⟨hbeats, h.shut⟩⟩
  | wait hle' =>
    refine ⟨hdown, .inl ⟨hbeats, h.calling, h.up, h.responses, h.loop, fun hstarting tk htk => ?_,
      fun hreading => ?_⟩⟩
    · exact ⟨(h.starting hstarting tk htk).1, hok.begins rfl hstarting tk htk⟩
    · obtain ⟨ht, hnext⟩ := h.reading hreading
      refine ⟨ht.trans hle', fun tk htk => ?_⟩
      exact ⟨(hnext tk htk).1, fun hwaiting => ((hnext tk htk).2 hwaiting).trans hle'⟩

theorem Lost.step (h : Lost cfg s) (hdown : s.down = []) (hpos : 0 < cfg.writeTimeout)
    (hok : Quiet cfg delay s l) (hstep : step cfg s l = some s') : Stuck cfg delay s' := by
  obtain ⟨hbeats, hwaits, hlate⟩ := h
  cases effect_of_step hstep with
  | connect => exact ⟨hdown, .inr ⟨hbeats, hwaits, hlate⟩⟩
  | fire => exact ⟨hdown, .inr ⟨hbeats, hwaits, hlate⟩⟩
  | beat htk hwaiting hidle hopen =>
    rcases hwaits with hcalling | hshutdown
    · exact absurd hidle hcalling
    · exact absurd (hopen.symm.trans hshutdown) (by decide)
  | beatFails => exact ⟨hdown, .inr ⟨hbeats, hwaits, hlate⟩⟩
  | refuse => exact ⟨hdown, .inr ⟨hbeats, hwaits, hlate⟩⟩
  | giveUp => exact absurd rfl hok.awaited
  | call => exact absurd rfl (hok.alone false)
  | callFails => exact absurd rfl (hok.alone true)
  | @decode f up hup hreading =>
    rcases hlate with ⟨⟨f', hup'⟩, hresponses, -, hover⟩ | ⟨hup', -⟩
    · obtain ⟨rfl, rfl⟩ := List.cons.inj (hup.symm.trans hup')
      exact ⟨hdown, .inr ⟨hbeats, hwaits, .inr ⟨rfl, _, if_pos hpos.ne', hover⟩⟩⟩
    · exact absurd (hup'.symm.trans hup) (by simp)
  | round hloop =>
    rcases hlate with ⟨-, -, hreading, -⟩ | hlate
    · exact absurd hreading hloop
    · exact ⟨hdown, .inr ⟨hbeats, hwaits, .inr hlate⟩⟩
  | write hk =>
    rcases hlate with ⟨-, hresponses, -⟩ | ⟨hup, d, hd, hover⟩
    · rw [hresponses] at hk
      cases hk
    · have hlost : (s.over s.writeDeadline || s.returned) = true := by
        have hover' : s.over (some d) = true := decide_eq_true hover
        rw [hd, hover', Bool.true_or]
      refine ⟨?_, .inr ⟨hbeats, hwaits, .inr ⟨hup, d, hd, hover⟩⟩⟩
      dsimp only
      rw [if_pos hlost, hdown]
  | receive hdown' => exact absurd (hdown.symm.trans hdown') (by simp)
  | timeout => exact ⟨hdown, .inr ⟨hbeats, hwaits, hlate⟩⟩
  | eof => exact ⟨hdown, .inr ⟨hbeats, .inr rfl, hlate⟩⟩
  | clientTimeout => exact ⟨hdown, .inr ⟨hbeats, .inr rfl, hlate⟩⟩
  | wait hle =>
    refine ⟨hdown, .inr ⟨hbeats, hwaits, hlate.imp ?_ ?_⟩⟩
    · rintro ⟨hup, hresponses, hreading, hover⟩
      exact ⟨hup, hresponses, hreading, hover.trans hle⟩
    · rintro ⟨hup, d, hd, hover⟩
      exact ⟨hup, d, hd, hover.trans hle⟩

theorem Stuck.step (h : Stuck cfg delay s) (hdelay : 0 ≤ delay) (hpos : 0 < cfg.writeTimeout)
    (hle : cfg.writeTimeout + delay ≤ cfg.heartbeatInterval) (hok : Quiet cfg delay s l)
    (hstep : step cfg s l = some s') : Stuck cfg delay s' := by
  rcases h.phase with ⟨hbeats, hidle⟩ | hlost
  · exact hidle.step hbeats h.down hdelay hpos hle hok hstep
  · exact hlost.step h.down hpos hok hstep

theorem stuck_init : Stuck cfg delay (init start) :=
  ⟨rfl, .inl ⟨rfl, rfl, rfl, rfl, by rintro ⟨⟩, by rintro _ _ ⟨⟩, by rintro ⟨⟩⟩⟩

end Stuck

instance (cfg : Config) (delay : ℤ) (s : State) (time : ℤ) : Decidable (Begins cfg delay s time) :=
  inferInstanceAs (Decidable (_ → ∀ tk ∈ s.ticker, _))

/-- `Quiet`, as a test. -/
def quiet (cfg : Config) (delay : ℤ) (s : State) : Label → Bool
  | .call _ | .giveUp => false
  | .wait time => decide (Begins cfg delay s time)
  | _ => true

theorem quiet_of_check {cfg : Config} {delay : ℤ} (s : State) (l : Label)
    (h : quiet cfg delay s l = true) :
    Quiet cfg delay s l := by
  refine ⟨?_, ?_, ?_⟩
  · rintro failed rfl
    cases h
  · rintro time rfl
    exact of_decide_eq_true h
  · rintro rfl
    cases h

/-- An interval of 10, and a write timeout of 5 in the server. -/
def shortWrites (breaker : Option ℤ) : Config := ⟨10, 0, 0, breaker, 30, 5⟩

/-- The second tick, and the first heartbeat is not answered. -/
def unanswered : List Label :=
  [.connect, .round, .wait 10, .fire, .beat false, .decode, .write 0, .round, .wait 20, .fire]

-- a breaker with a timeout of 3 gives the heartbeat up, and there is a second one
example : ∃ s, Reach (step (shortWrites (some 3))) Any (init 0) s ∧ s.beats = 2 :=
  ⟨_, reach_of_exec (unanswered ++ [.giveUp, .beat false]) rfl, rfl⟩

end Frpc.System.Heartbeats
