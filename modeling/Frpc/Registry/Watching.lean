import Frpc.Registry.Discovery

/-! # The loop of a discovery

`ConsulDiscovery.watch` and `EtcdDiscovery.watch` are the same loop over the `WatchTree` of their
stores. It calls `WatchTree`, with a growing delay after an error; it takes a list from the channel,
stores its pairs and sends them to the subscribers; and it starts again when the channel is closed.
`Close` ends it. The goroutine that `WatchTree` has started goes on as soon as its list is taken, so
it may have asked the store again before the pairs are stored.

What differs is the `Feed`: the store with the registers that change it, and that goroutine. A store
has an index that it tells the goroutine. How it moves is up to the store; that it says when
something has changed is a condition on the runs (`Indexes`). The loop and the client of `Discovery`
are the same for every feed, so what the pairs that were received last have to do with the goroutine
is proved by one rule (`Effect.tracks`), and how the loop gets on by another
(`settles_of_alive`). -/

namespace Frpc.Registry.Watching

open Frpc.Basic Frpc.Lib.Runs Frpc.Registry.Discovery

variable {σ α Λ ω Μ : Type*}

/-- What a discovery watches: a store with the registers, and the goroutine of `WatchTree`. -/
structure Feed (σ α Λ ω Μ : Type*) where
  /-- A register does something. -/
  registry : σ → Λ → Option σ
  /-- The store is overwritten. -/
  overwrite : σ → α → σ
  /-- The goroutine when `WatchTree` returns. -/
  start : ω
  /-- A step of the goroutine, with the store and its index. -/
  goroutine : σ → ℕ → ω → Μ → Option ω
  /-- `<-c`: the pairs that `watch` makes of what it receives, or nothing if the channel is
  closed. -/
  receive : ω → Option (Option (List KV) × ω)

/-- Whoever changes the store. -/
inductive Change (α Λ : Type*) where
  | registry (l : Λ)
  /-- Somebody else writes, or a node expires. -/
  | other (store : α)

def Feed.change (F : Feed σ α Λ ω Μ) (x : σ) : Change α Λ → Option σ
  | .registry l => F.registry x l
  | .other store => some (F.overwrite x store)

/-- Where `watch` stands, and the goroutine of the last `WatchTree` with it. The goroutine of an
earlier one has returned. -/
inductive LoopPc (ω : Type*) where
  /-- In the loop that calls `WatchTree`, with `tempDelay` in seconds and `retry`. -/
  | calling (tempDelay : ℕ) (retry : ℤ)
  /-- In the `select` of `readChanges`; `c` may be nil. -/
  | readChanges (c : Option ω)
  /-- A list has been received, and its pairs are not stored yet. -/
  | storing (pairs : List KV) (c : ω)
  | returned

/-- The goroutine from which the loop receives. -/
def LoopPc.goroutine : LoopPc ω → Option ω
  | .readChanges c => c
  | .storing _ c => some c
  | _ => none

def LoopPc.setGoroutine (c : ω) : LoopPc ω → LoopPc ω
  | .readChanges _ => .readChanges (some c)
  | .storing pairs _ => .storing pairs c
  | pc => pc

/-- A discovery with what it watches, and with a client that watches it. -/
structure State (σ ω : Type*) where
  store : σ
  /-- The index that the store has for the directory. -/
  index : ℕ
  loop : LoopPc ω
  /-- `stopCh` is closed. -/
  stopCh : Bool
  client : Watched

/-- The pairs that were received last: they are stored, or will be. -/
def State.latest (s : State σ ω) : List KV :=
  match s.loop with
  | .storing pairs _ => pairs
  | _ => s.client.disc.pairs

/-- The steps. -/
inductive Label (α Λ Μ : Type*) where
  /-- The store is changed, and has the index afterwards. -/
  | store (c : Change α Λ) (index : ℕ)
  | goroutine (l : Μ)
  /-- A round of the loop that calls `WatchTree`, with the error that `WatchTree` returns. -/
  | watchTree (err : Option Error)
  /-- A list comes from the channel. -/
  | change
  /-- `d.pairs = pairs`, and the start of the goroutines that send. -/
  | assign
  /-- The channel is closed. -/
  | rewatch
  /-- `Close` -/
  | close
  /-- `watch` finds that `stopCh` is closed. -/
  | stop
  /-- The client, the goroutines that send, and others who watch. -/
  | client (l : WatchLabel)

/-- The delay after an error, in seconds. -/
def nextDelay (tempDelay : ℕ) : ℕ :=
  let tempDelay := if tempDelay = 0 then 1 else tempDelay * 2
  if 30 < tempDelay then 30 else tempDelay

/-- One round of the loop that calls `WatchTree`. If it ends without a call, there was none before,
or the last one has failed: the delay says which. -/
def callWatchTree (F : Feed σ α Λ ω Μ) (retries : ℤ) (tempDelay : ℕ) (retry : ℤ)
    (err : Option Error) :
    LoopPc ω :=
  if retries = -1 ∨ 0 < retry then
    match err with
    | none => .readChanges (some F.start)
    | some _ => .calling (nextDelay tempDelay) (if 0 < retries then retry - 1 else retry)
  else if tempDelay = 0 then .readChanges none
  else .returned

/-- One step; `retries` is `RetriesAfterWatchFailed`. A second `Close` panics. -/
def step (F : Feed σ α Λ ω Μ) (retries : ℤ) (s : State σ ω) : Label α Λ Μ → Option (State σ ω)
  | .store c index => (F.change s.store c).map fun store => { s with store, index }
  | .goroutine l =>
    s.loop.goroutine.bind fun c =>
      (F.goroutine s.store s.index c l).map fun c => { s with loop := s.loop.setGoroutine c }
  | .watchTree err =>
    match s.loop with
    | .calling tempDelay retry =>
      some { s with loop := callWatchTree F retries tempDelay retry err }
    | _ => none
  | .change =>
    match s.loop with
    | .readChanges (some c) =>
      match F.receive c with
      | some (some pairs, c) => some { s with loop := .storing pairs c }
      | _ => none
    | _ => none
  | .assign =>
    match s.loop with
    | .storing pairs c =>
      (watchStep s.client (.disc (.receive pairs))).map fun client =>
        { s with loop := .readChanges (some c), client }
    | _ => none
  | .rewatch =>
    match s.loop with
    | .readChanges (some c) =>
      match F.receive c with
      | some (none, _) => some { s with loop := .calling 0 retries }
      | _ => none
    | _ => none
  | .close => if s.stopCh then none else some { s with stopCh := true }
  | .stop =>
    match s.loop with
    | .readChanges _ => if s.stopCh then some { s with loop := .returned } else none
    | _ => none
  | .client l =>
    match l with
    | .disc (.receive _) => none
    | l => (watchStep s.client l).map fun client => { s with client }

/-- A new discovery, with the list that was read before `watch` was started. -/
def init (retries : ℤ) (store : σ) (index : ℕ) (pairs : List KV) : State σ ω :=
  ⟨store, index, .calling 0 retries, false, watchInit pairs⟩

/-! ### The index of the store -/

/-- The assumption on the store: its index does not go back, and as long as it is the same, so is
what the goroutine would list. -/
def Indexes (F : Feed σ α Λ ω Μ) (same : σ → σ → Prop) (s : State σ ω) : Label α Λ Μ → Prop
  | .store c index => ∀ x ∈ F.change s.store c, s.index ≤ index ∧ (index = s.index → same s.store x)
  | _ => True

instance (F : Feed σ α Λ ω Μ) (same : σ → σ → Prop) [∀ x y, Decidable (same x y)] (s : State σ ω) :
    (l : Label α Λ Μ) → Decidable (Indexes F same s l)
  | .store c _ => inferInstanceAs (Decidable (∀ x ∈ F.change s.store c, _ ∧ (_ → _)))
  | .goroutine _ => inferInstanceAs (Decidable True)
  | .watchTree _ => inferInstanceAs (Decidable True)
  | .change => inferInstanceAs (Decidable True)
  | .assign => inferInstanceAs (Decidable True)
  | .rewatch => inferInstanceAs (Decidable True)
  | .close => inferInstanceAs (Decidable True)
  | .stop => inferInstanceAs (Decidable True)
  | .client _ => inferInstanceAs (Decidable True)

/-! ### What a step does -/

section Effects

variable {F : Feed σ α Λ ω Μ} {retries : ℤ} {s t : State σ ω} {l : Label α Λ Μ}

/-- What a step does to the store, to the goroutine and to the client. -/
inductive Effect (F : Feed σ α Λ ω Μ) (s : State σ ω) : Label α Λ Μ → State σ ω → Prop
  | store {c : Change α Λ} {index : ℕ} {x : σ} (h : F.change s.store c = some x) :
      Effect F s (.store c index) { s with store := x, index := index }
  | goroutine {l : Μ} {c c' : ω} (hc : s.loop.goroutine = some c)
      (h : F.goroutine s.store s.index c l = some c') :
      Effect F s (.goroutine l) { s with loop := s.loop.setGoroutine c' }
  | watchTree {err : Option Error} :
      Effect F s (.watchTree err) { s with loop := .readChanges (some F.start) }
  | loop {l : Label α Λ Μ} {loop : LoopPc ω} (hl : loop.goroutine = none) :
      Effect F s l { s with loop := loop }
  | change {pairs : List KV} {c c' : ω} (hl : s.loop = .readChanges (some c))
      (hr : F.receive c = some (some pairs, c')) :
        Effect F s .change { s with loop := .storing pairs c' }
  | assign {pairs : List KV} {c : ω} {client : Watched} (hl : s.loop = .storing pairs c)
      (hc : watchStep s.client (.disc (.receive pairs)) = some client) :
      Effect F s .assign { s with loop := .readChanges (some c), client := client }
  | close : Effect F s .close { s with stopCh := true }
  | client {l : WatchLabel} {client : Watched} (hl : ∀ pairs, l ≠ .disc (.receive pairs))
      (hc : watchStep s.client l = some client) : Effect F s (.client l) { s with client := client }

theorem callWatchTree_effect (tempDelay : ℕ) (retry : ℤ) (err : Option Error) :
    Effect F s (.watchTree err) { s with loop := callWatchTree F retries tempDelay retry err } := by
  unfold callWatchTree
  split
  · cases err with
    | none => exact .watchTree
    | some err => exact .loop rfl
  · split
    · exact .loop rfl
    · exact .loop rfl

theorem effect_of_step (h : step F retries s l = some t) : Effect F s l t := by
  cases l with
  | store c index =>
    obtain ⟨x, hx, rfl⟩ := Option.map_eq_some_iff.mp h
    exact .store hx
  | goroutine l =>
    obtain ⟨c, hc, h⟩ := Option.bind_eq_some_iff.mp h
    obtain ⟨c', hc', rfl⟩ := Option.map_eq_some_iff.mp h
    exact .goroutine hc hc'
  | watchTree err =>
    simp only [step] at h
    split at h
    · cases h
      exact callWatchTree_effect _ _ _
    · cases h
  | change =>
    simp only [step] at h
    split at h
    · rename_i hl
      split at h
      · rename_i hr
        cases h
        exact .change hl hr
      · cases h
    · cases h
  | assign =>
    simp only [step] at h
    split at h
    · rename_i hl
      obtain ⟨client, hc, rfl⟩ := Option.map_eq_some_iff.mp h
      exact .assign hl hc
    · cases h
  | rewatch =>
    simp only [step] at h
    split at h
    · split at h
      · cases h
        exact .loop rfl
      · cases h
    · cases h
  | close =>
    simp only [step] at h
    split_ifs at h
    cases h
    exact .close
  | stop =>
    simp only [step] at h
    split at h
    · split_ifs at h
      cases h
      exact .loop rfl
    · cases h
  | client l =>
    simp only [step] at h
    split at h
    · cases h
    · rename_i hl
      obtain ⟨client, hc, rfl⟩ := Option.map_eq_some_iff.mp h
      exact .client hl hc

theorem pairs_of_watchStep {c c' : Watched} {l : WatchLabel}
    (hl : ∀ pairs, l ≠ .disc (.receive pairs))
    (h : watchStep c l = some c') : c'.disc.pairs = c.disc.pairs := by
  cases l with
  | disc l =>
    obtain ⟨disc, hd, rfl, -⟩ := watchStep_disc h
    exact pairs_of_effect hd fun pairs heq => hl pairs (by rw [heq])
  | getServices =>
    simp only [watchStep] at h
    split at h
    · cases h
      rfl
    · cases h
  | watchService =>
    simp only [watchStep] at h
    split at h
    · cases h
      rfl
    · cases h
  | watch =>
    simp only [watchStep] at h
    split at h
    · obtain ⟨⟨pairs, disc⟩, ht, rfl⟩ := Option.map_eq_some_iff.mp h
      obtain ⟨buffer, -, rfl⟩ := take_eq_some ht
      rfl
    · cases h

theorem pairs_of_receive {c c' : Watched} {pairs : List KV}
    (h : watchStep c (.disc (.receive pairs)) = some c') : c'.disc.pairs = pairs := by
  obtain ⟨disc, hd, rfl, -⟩ := watchStep_disc h
  cases hd
  rfl

theorem latest_eq_pairs (h : ∀ pairs c, s.loop ≠ .storing pairs c) :
    s.latest = s.client.disc.pairs := by
  unfold State.latest
  split
  · rename_i hl
    exact absurd hl (h _ _)
  · rfl

theorem goroutine_setGoroutine {pc : LoopPc ω} {c : ω} (h : pc.goroutine = some c) (c' : ω) :
    (pc.setGoroutine c').goroutine = some c' := by
  cases pc with
  | calling | returned => cases h
  | readChanges | storing => rfl

theorem latest_setGoroutine (s : State σ ω) (c : ω) :
    { s with loop := s.loop.setGoroutine c }.latest = s.latest := by
  unfold State.latest LoopPc.setGoroutine
  cases s.loop <;> rfl

theorem latest_setClient {client : Watched} (h : client.disc.pairs = s.client.disc.pairs) :
    { s with client := client }.latest = s.latest := by
  unfold State.latest
  rw [h]

/-- What holds of the goroutine and of the pairs that were received last. -/
def Tracks (I : σ → ℕ → ω → List KV → Prop) (s : State σ ω) : Prop :=
  ∀ c, s.loop.goroutine = some c → I s.store s.index c s.latest

/-- **The rule for feeds.** What holds of a new goroutine, and is kept by every change of the store,
by the steps of the goroutine and when a list is received, is kept by every step. -/
theorem Effect.tracks {I : σ → ℕ → ω → List KV → Prop} (h : Effect F s l t) (hI : Tracks I s)
    (hstart : ∀ pairs, I s.store s.index F.start pairs)
    (hstore : ∀ {ch index x c pairs}, l = .store ch index → F.change s.store ch = some x →
      s.loop.goroutine = some c → I s.store s.index c pairs → I x index c pairs)
    (hgo : ∀ {l' c c' pairs}, l = .goroutine l' → s.loop.goroutine = some c →
      F.goroutine s.store s.index c l' = some c' → I s.store s.index c pairs →
        I s.store s.index c' pairs)
    (hreceive : ∀ {c ps c' pairs}, F.receive c = some (some ps, c') → I s.store s.index c pairs →
      I s.store s.index c' ps) : Tracks I t := by
  intro c' hc'
  cases h with
  | store hx => exact hstore rfl hx hc' (hI _ hc')
  | goroutine hc hg =>
    rw [goroutine_setGoroutine hc, Option.some.injEq] at hc'
    subst hc'
    rw [latest_setGoroutine]
    exact hgo rfl hc hg (hI _ hc)
  | watchTree =>
    cases hc'
    exact hstart _
  | loop hno => cases hno.symm.trans hc'
  | change hl hr =>
    cases hc'
    exact hreceive hr (hI _ (by rw [hl]; rfl))
  | assign hl hc =>
    cases hc'
    have hI' := hI _ (by rw [hl]; rfl)
    rw [State.latest, hl] at hI'
    show I s.store s.index _ _
    rw [latest_eq_pairs (by simp), pairs_of_receive hc]
    exact hI'
  | close => exact hI _ hc'
  | client hl hc =>
    rw [latest_setClient (pairs_of_watchStep hl hc)]
    exact hI _ hc'

theorem Effect.index_le {same : σ → σ → Prop} (h : Effect F s l t) (hok : Indexes F same s l) :
    s.index ≤ t.index := by
  cases h with
  | store hx => exact (hok _ hx).1
  | _ => exact le_rfl

/-- The loop has not returned on its own, and does not read from a nil channel. -/
structure Alive (s : State σ ω) : Prop where
  returned : s.loop = .returned → s.stopCh = true
  channel : s.loop ≠ .readChanges none

theorem Alive.init (store : σ) (index : ℕ) (pairs : List KV) :
    Alive (init (-1) store index pairs : State σ ω) :=
  ⟨fun h => (by cases h), fun h => (by cases h)⟩

theorem Alive.of_loop {loop : LoopPc ω} {client : Watched} (hr : loop ≠ .returned)
    (hc : loop ≠ .readChanges none) :
    Alive { s with loop := loop, client := client } :=
  ⟨fun h => absurd h hr, hc⟩

theorem Alive.step (ha : Alive s) (h : step F (-1) s l = some t) : Alive t := by
  cases l with
  | store c index =>
    obtain ⟨x, -, rfl⟩ := Option.map_eq_some_iff.mp h
    exact ⟨ha.returned, ha.channel⟩
  | goroutine l =>
    obtain ⟨c, hc, h⟩ := Option.bind_eq_some_iff.mp h
    obtain ⟨c', -, rfl⟩ := Option.map_eq_some_iff.mp h
    have hset := goroutine_setGoroutine hc c'
    exact .of_loop (fun h => by rw [h] at hset; cases hset) (fun h => by rw [h] at hset; cases hset)
  | watchTree err =>
    simp only [Watching.step] at h
    split at h
    · cases h
      unfold callWatchTree
      rw [if_pos (Or.inl rfl)]
      cases err with
      | none => exact .of_loop (by simp) (by simp)
      | some err => exact .of_loop (by simp) (by simp)
    · cases h
  | change =>
    simp only [Watching.step] at h
    split at h
    · split at h
      · cases h
        exact .of_loop (by simp) (by simp)
      · cases h
    · cases h
  | assign =>
    simp only [Watching.step] at h
    split at h
    · obtain ⟨client, -, rfl⟩ := Option.map_eq_some_iff.mp h
      exact .of_loop (by simp) (by simp)
    · cases h
  | rewatch =>
    simp only [Watching.step] at h
    split at h
    · split at h
      · cases h
        exact .of_loop (by simp) (by simp)
      · cases h
    · cases h
  | close =>
    simp only [Watching.step] at h
    split_ifs at h
    cases h
    exact ⟨fun _ => rfl, ha.channel⟩
  | stop =>
    simp only [Watching.step] at h
    split at h
    · split_ifs at h with hstop
      cases h
      exact ⟨fun _ => hstop, fun h => (by cases h)⟩
    · cases h
  | client l =>
    simp only [Watching.step] at h
    split at h
    · cases h
    · obtain ⟨client, -, rfl⟩ := Option.map_eq_some_iff.mp h
      exact ⟨ha.returned, ha.channel⟩

theorem alive_of_reach {ok : State σ ω → Label α Λ Μ → Prop} {x : σ} {index : ℕ} {pairs : List KV}
    (h : Reach (Watching.step F (-1)) ok (Watching.init (-1) x index pairs) s) : Alive s :=
  h.invariant (P := Alive) (.init x index pairs) fun _ ha _ hs => ha.step hs

end Effects

/-! ### Progress -/

section Progress

variable {F : Feed σ α Λ ω Μ} {own : Μ → Prop} {settled : State σ ω → Prop}
  {s t : State σ ω} {c c' : ω}

/-- The steps of the discovery itself while nothing fails; `own` are those of its goroutine. -/
def Own (own : Μ → Prop) (_ : State σ ω) : Label α Λ Μ → Prop
  | .goroutine l => own l
  | .watchTree none => True
  | .change => True
  | .assign => True
  | .rewatch => True
  | _ => False

/-- Steps of the discovery lead to a settled state, with the same store. -/
def Settles (F : Feed σ α Λ ω Μ) (own : Μ → Prop) (settled : State σ ω → Prop) (s : State σ ω) :
    Prop :=
  ∃ t, Reach (step F (-1)) (Own own) s t ∧ settled t ∧ t.store = s.store ∧ t.index = s.index

theorem Settles.of_step {l : Label α Λ Μ} (hown : Own own s l) (hs : step F (-1) s l = some t)
    (hc : t.store = s.store ∧ t.index = s.index) (h : Settles F own settled t) :
    Settles F own settled s := by
  obtain ⟨u, hu, hset, hstore, hindex⟩ := h
  exact ⟨u, (Reach.tail .refl hown hs).trans hu, hset, hstore.trans hc.1, hindex.trans hc.2⟩

/-- The goroutine does something while the loop waits for it. -/
theorem Settles.of_goroutine {l : Μ} (hl : s.loop = .readChanges (some c)) (hown : own l)
    (hg : F.goroutine s.store s.index c l = some c')
    (h : Settles F own settled { s with loop := .readChanges (some c') }) :
    Settles F own settled s := by
  have hstep : step F (-1) s (.goroutine l) = some { s with loop := .readChanges (some c') } := by
    simp [step, hl, LoopPc.goroutine, LoopPc.setGoroutine, hg]
  exact .of_step (l := .goroutine l) hown hstep ⟨rfl, rfl⟩ h

theorem Settles.of_storing {pairs : List KV} (hl : s.loop = .storing pairs c)
    (h : ∀ {t : State σ ω}, t.loop = .readChanges (some c) → t.store = s.store → t.index = s.index →
      Settles F own settled t) : Settles F own settled s := by
  have hstep : step F (-1) s .assign = some { s with
      loop := .readChanges (some c)
      client := { s.client with disc := receive s.client.disc pairs } } := by
    simp [step, hl, watchStep, Discovery.step]
  exact .of_step (l := .assign) trivial hstep ⟨rfl, rfl⟩ (h rfl rfl rfl)

/-- A list that waits in the channel is received and stored. -/
theorem Settles.of_receive {pairs : List KV} (hl : s.loop = .readChanges (some c))
    (hr : F.receive c = some (some pairs, c'))
    (h : ∀ {t : State σ ω}, t.loop = .readChanges (some c') → t.store = s.store →
      t.index = s.index → Settles F own settled t) : Settles F own settled s := by
  have hstep : step F (-1) s .change = some { s with loop := .storing pairs c' } := by
    simp [step, hl, hr]
  exact .of_step (l := .change) trivial hstep ⟨rfl, rfl⟩ (.of_storing rfl h)

theorem Settles.of_calling {tempDelay : ℕ} {retry : ℤ} (hl : s.loop = .calling tempDelay retry)
    (h : Settles F own settled { s with loop := .readChanges (some F.start) }) :
    Settles F own settled s := by
  have hstep : step F (-1) s (.watchTree none) =
      some { s with loop := .readChanges (some F.start) } := by
    simp [step, hl, callWatchTree]
  exact .of_step (l := .watchTree none) trivial hstep ⟨rfl, rfl⟩ h

/-- **Progress of the loop.** It is enough that it settles when it waits for a goroutine that has
not closed its channel; `G` is what is known of the goroutine. -/
theorem settles_of_alive {G : ω → Prop} (ha : Alive s) (hstop : s.stopCh = false)
    (hstart : G F.start) (hG : ∀ {c}, s.loop.goroutine = some c → G c)
    (hopen : ∀ c', F.receive F.start ≠ some (none, c'))
    (hread : ∀ {t : State σ ω} {c}, t.loop = .readChanges (some c) → t.store = s.store →
      t.index = s.index →
      G c → (∀ c', F.receive c ≠ some (none, c')) → Settles F own settled t) :
        Settles F own settled s := by
  -- from the `select` of `readChanges`, whether the channel is closed or not
  have hselect : ∀ {t : State σ ω} {c}, t.loop = .readChanges (some c) → t.store = s.store →
      t.index = s.index → G c → Settles F own settled t := by
    intro t c hl hts hti hc
    by_cases hclosed : ∃ c', F.receive c = some (none, c')
    · obtain ⟨c', hc'⟩ := hclosed
      have hre : step F (-1) t .rewatch = some { t with loop := .calling 0 (-1) } := by
        simp [step, hl, hc']
      exact .of_step (l := .rewatch) trivial hre ⟨rfl, rfl⟩
        (.of_calling rfl (hread rfl hts hti hstart hopen))
    · exact hread hl hts hti hc (not_exists.mp hclosed)
  cases hl : s.loop with
  | calling tempDelay retry => exact .of_calling hl (hselect rfl rfl rfl hstart)
  | returned =>
    rw [ha.returned hl] at hstop
    cases hstop
  | readChanges c =>
    cases c with
    | none => exact absurd hl ha.channel
    | some c => exact hselect hl rfl rfl (hG (by rw [hl]; rfl))
  | storing pairs c =>
    refine .of_storing hl fun htl hts hti => ?_
    exact hselect htl hts hti (hG (by rw [hl]; rfl))

end Progress

/-! ### The client -/

section Client

variable {F : Feed σ α Λ ω Μ} {retries : ℤ} {s : State σ ω} {ok : State σ ω → Label α Λ Μ → Prop}

/-- The condition of `Discovery` on what concerns the client. -/
def Orderly (s : State σ ω) : Label α Λ Μ → Prop
  | .assign => ∀ pairs, Discovery.Orderly s.client (.disc (.receive pairs))
  | .client l => Discovery.Orderly s.client l
  | _ => True

theorem following_of_reach {x : σ} {index : ℕ} {pairs : List KV} (hok : ∀ u l, ok u l → Orderly u l)
    (h : Reach (step F retries) ok (init retries x index pairs) s) : Following s.client := by
  refine h.invariant (P := fun s => Following s.client) (.init pairs) ?_
  intro t u l _ hf hl hs
  have hord := hok t l hl
  cases effect_of_step hs with
  | assign hr hc => exact hf.step (hord _) hc
  | client hno hc => exact hf.step hord hc
  | _ => exact hf

/-- A client that follows has the last pairs when nothing is on the way to it. -/
theorem servers_of_following {c : Watched} (hf : Following c) (hq : Quiescent c) :
    c.servers = some (serversOf c.disc.pairs) := by
  unfold Quiescent at hq
  split at hq
  · exact hq.elim
  · rename_i hpc
    exact hf.listed hpc
  · rename_i ch hpc
    exact (hf.tracks hpc).settled hq.1 hq.2

/-- What can be checked of `Orderly`. -/
def orderly (s : State σ ω) : Label α Λ Μ → Bool
  | .assign => Discovery.orderly s.client (.disc (.receive []))
  | .client l => Discovery.orderly s.client l
  | _ => true

theorem orderly_of_check {l : Label α Λ Μ} (h : orderly s l = true) : Orderly s l := by
  cases l with
  | assign => exact fun _ => Discovery.orderly_of_check _ _ h
  | client l => exact Discovery.orderly_of_check _ _ h
  | _ => trivial

end Client

end Frpc.Registry.Watching
