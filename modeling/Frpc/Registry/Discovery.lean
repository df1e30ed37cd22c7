import Frpc.Basic
import Frpc.Lib.Runs

/-! # Discovery and the clients that watch it

`registry/discovery_consul.go` and `registry/discovery_etcd.go` have the same watch loop: a snapshot
of the server list is stored in `pairs`, and for every channel in `chans` a goroutine is started
that sends the snapshot (`step`). `Client.Discovery` reads `pairs`, subscribes with `WatchService`,
and starts a goroutine that overwrites its map `servers` with every list it receives (`watchStep`).

The goroutines of two snapshots may send in either order, and a snapshot that comes in between
`GetServices` and `WatchService` is not sent at all. Where neither happens (`Orderly`) the client
has the last snapshot as soon as everything that was sent is received (`servers_eq_pairs`). -/

namespace Frpc.Registry.Discovery

open Frpc.Basic Frpc.Lib.Runs

/-- `type KV struct` -/
structure KV where
  key : Bytes
  value : Bytes
deriving DecidableEq

/-- A `chan []*KV`. -/
abbrev ChanId := ℕ

/-- What is in the buffer of a channel, and whether it is closed. -/
structure Chan where
  buffer : List (List KV)
  closed : Bool

/-- A discovery, with the goroutines that have still to send, and all channels. -/
structure State where
  pairs : List KV
  chans : List ChanId
  sends : List (ChanId × List KV)
  channel : ChanId → Chan
  /-- The number of channels that were made. -/
  made : ℕ

/-- The steps. -/
inductive Label where
  /-- `watch` receives a snapshot. -/
  | receive (pairs : List KV)
  /-- The `i`-th goroutine sends, or finds that the channel is closed. -/
  | send (i : ℕ)
  /-- The `i`-th goroutine has waited for a minute. -/
  | giveUp (i : ℕ)
  /-- `WatchService` -/
  | watchService
  /-- `RemoveWatcher` -/
  | removeWatcher (ch : ChanId)
  /-- `close(ch)` -/
  | close (ch : ChanId)
  /-- Somebody receives from a channel. -/
  | take (ch : ChanId)

/-- `make(chan []*KV, 10)` -/
def chanCap : ℕ := 10

/-- `watch`: store the snapshot, and start a goroutine for every channel. -/
def receive (s : State) (pairs : List KV) : State :=
  { s with pairs, sends := s.sends ++ s.chans.map fun ch => (ch, pairs) }

/-- A goroutine of `watch`: a send on a closed channel panics, and the panic is recovered. -/
def send (s : State) (i : ℕ) : Option State :=
  (s.sends[i]?).bind fun (ch, pairs) =>
    let sends := s.sends.eraseIdx i
    if (s.channel ch).closed then some { s with sends }
    else if (s.channel ch).buffer.length < chanCap then
      some { s with
        sends
        channel := Function.update s.channel ch
          { s.channel ch with buffer := (s.channel ch).buffer ++ [pairs] } }
    else none

/-- A goroutine of `watch` gives up when the buffer has been full for a minute. -/
def giveUp (s : State) (i : ℕ) : Option State :=
  (s.sends[i]?).bind fun (ch, _) =>
    if chanCap ≤ (s.channel ch).buffer.length
      then some { s with sends := s.sends.eraseIdx i } else none

/-- `WatchService`, which returns the channel `s.made`. -/
def watchService (s : State) : State := { s with chans := s.chans ++ [s.made], made := s.made + 1 }

/-- `RemoveWatcher` -/
def removeWatcher (s : State) (ch : ChanId) : State := { s with chans := s.chans.filter (· ≠ ch) }

/-- `close(ch)`; that of a closed channel panics, and the panic is recovered. -/
def closeChan (s : State) (ch : ChanId) : State :=
  { s with channel := Function.update s.channel ch { s.channel ch with closed := true } }

/-- Receive from a channel: the list, and the state afterwards. -/
def take (s : State) (ch : ChanId) : Option (List KV × State) :=
  match (s.channel ch).buffer with
  | [] => none
  | pairs :: buffer =>
    some (pairs, { s with channel := Function.update s.channel ch { s.channel ch with buffer } })

/-- One step of the discovery. -/
def step (s : State) : Label → Option State
  | .receive pairs => some (receive s pairs)
  | .send i => send s i
  | .giveUp i => giveUp s i
  | .watchService => some (watchService s)
  | .removeWatcher ch => some (removeWatcher s ch)
  | .close ch => if ch < s.made then some (closeChan s ch) else none
  | .take ch => (take s ch).map Prod.snd

/-- A new discovery, with what `List` has returned. -/
def init (pairs : List KV) : State := ⟨pairs, [], [], fun _ => ⟨[], false⟩, 0⟩

/-! ### What a step does -/

section Effects

variable {s t : State} {ch : ChanId} {l : Label}

/-- What a step does. -/
inductive Effect (s : State) : Label → State → Prop
  | receive (pairs : List KV) : Effect s (.receive pairs) (receive s pairs)
  | sendClosed {i : ℕ} {ch : ChanId} {pairs : List KV} (hi : s.sends[i]? = some (ch, pairs))
      (hclosed : (s.channel ch).closed = true) :
        Effect s (.send i) { s with sends := s.sends.eraseIdx i }
  | send {i : ℕ} {ch : ChanId} {pairs : List KV} (hi : s.sends[i]? = some (ch, pairs))
      (hopen : (s.channel ch).closed = false) :
      Effect s (.send i)
        { s with
          sends := s.sends.eraseIdx i
          channel := Function.update s.channel ch
            { s.channel ch with buffer := (s.channel ch).buffer ++ [pairs] } }
  | giveUp {i : ℕ} {ch : ChanId} {pairs : List KV} (hi : s.sends[i]? = some (ch, pairs)) :
      Effect s (.giveUp i) { s with sends := s.sends.eraseIdx i }
  | watchService : Effect s .watchService (watchService s)
  | removeWatcher (ch : ChanId) : Effect s (.removeWatcher ch) (removeWatcher s ch)
  | close {ch : ChanId} (hmade : ch < s.made) : Effect s (.close ch) (closeChan s ch)
  | take {ch : ChanId} {pairs : List KV} {buffer : List (List KV)}
      (hb : (s.channel ch).buffer = pairs :: buffer) :
      Effect s (.take ch)
        { s with channel := Function.update s.channel ch { s.channel ch with buffer } }

theorem take_eq_some {pairs : List KV} (h : take s ch = some (pairs, t)) :
    ∃ buffer, (s.channel ch).buffer = pairs :: buffer ∧
      t = { s with channel := Function.update s.channel ch { s.channel ch with buffer } } := by
  unfold take at h
  split at h
  · cases h
  · rename_i p b hb
    cases h
    exact ⟨b, hb, rfl⟩

theorem effect_of_step (h : step s l = some t) : Effect s l t := by
  cases l with
  | receive pairs =>
    cases h
    exact .receive pairs
  | send i =>
    obtain ⟨⟨ch, pairs⟩, hi, h⟩ := Option.bind_eq_some_iff.mp h
    dsimp only at h
    split_ifs at h with hclosed hroom
    · cases h
      exact .sendClosed hi hclosed
    · cases h
      exact .send hi (by simpa using hclosed)
  | giveUp i =>
    obtain ⟨⟨ch, pairs⟩, hi, h⟩ := Option.bind_eq_some_iff.mp h
    dsimp only at h
    split_ifs at h
    cases h
    exact .giveUp hi
  | watchService =>
    cases h
    exact .watchService
  | removeWatcher ch =>
    cases h
    exact .removeWatcher ch
  | close ch =>
    simp only [step] at h
    split_ifs at h with hmade
    cases h
    exact .close hmade
  | take ch =>
    obtain ⟨⟨pairs, u⟩, hu, rfl⟩ := Option.map_eq_some_iff.mp h
    obtain ⟨buffer, hb, rfl⟩ := take_eq_some hu
    exact .take hb

theorem pairs_of_effect (h : Effect s l t) (hl : ∀ pairs, l ≠ .receive pairs) :
    t.pairs = s.pairs := by
  cases h with
  | receive pairs => exact absurd rfl (hl pairs)
  | _ => rfl

theorem closed_setBuffer (c : ChanId) (buffer : List (List KV)) :
    (Function.update s.channel c { s.channel c with buffer } ch).closed =
      (s.channel ch).closed := by
  by_cases hch : ch = c
  · subst hch
    rw [Function.update_self]
  · rw [Function.update_of_ne hch]

/-- Channels are used only after they were made. -/
structure Made (s : State) : Prop where
  sends : ∀ {ch pairs}, (ch, pairs) ∈ s.sends → ch < s.made
  chans : ∀ {ch}, ch ∈ s.chans → ch < s.made
  unused : ∀ {ch}, s.made ≤ ch → s.channel ch = ⟨[], false⟩

theorem Made.init (pairs : List KV) : Made (init pairs) :=
  ⟨fun h => (by cases h), fun h => (by cases h), fun _ => rfl⟩

theorem Made.update (hm : Made s) {c : Chan} {sends : List (ChanId × List KV)} (hch : ch < s.made)
    (hs : ∀ x ∈ sends, x ∈ s.sends) :
    Made { s with sends := sends, channel := Function.update s.channel ch c } := by
  refine ⟨fun hmem => hm.sends (hs _ hmem), hm.chans, fun {j} hj => ?_⟩
  have hne : j ≠ ch := by
    rintro rfl
    exact absurd hch (by simpa using hj)
  show Function.update s.channel ch c j = _
  rw [Function.update_of_ne hne]
  exact hm.unused hj

theorem Made.step (hm : Made s) (h : Effect s l t) : Made t := by
  cases h with
  | receive pairs =>
    refine ⟨fun {ch ps} hmem => ?_, hm.chans, hm.unused⟩
    rcases List.mem_append.mp hmem with hmem | hmem
    · exact hm.sends hmem
    · obtain ⟨c, hc, heq⟩ := List.mem_map.mp hmem
      cases heq
      exact hm.chans hc
  | sendClosed => exact ⟨fun hmem => hm.sends (List.mem_of_mem_eraseIdx hmem), hm.chans, hm.unused⟩
  | send hi => exact hm.update (hm.sends (List.mem_of_getElem? hi)) fun _ =>
    List.mem_of_mem_eraseIdx
  | giveUp => exact ⟨fun hmem => hm.sends (List.mem_of_mem_eraseIdx hmem), hm.chans, hm.unused⟩
  | watchService =>
    refine ⟨fun hmem => (hm.sends hmem).trans (Nat.lt_succ_self _), fun {ch} hmem => ?_,
      fun hle => hm.unused (Nat.le_of_succ_le hle)⟩
    rcases List.mem_append.mp hmem with hmem | hmem
    · exact (hm.chans hmem).trans (Nat.lt_succ_self _)
    · rw [List.mem_singleton.mp hmem]
      exact Nat.lt_succ_self _
  | removeWatcher =>
    exact ⟨hm.sends, fun hmem => hm.chans (List.mem_of_mem_filter hmem), hm.unused⟩
  | close hmade => exact hm.update hmade fun _ hmem => hmem
  | take hb =>
    refine hm.update ?_ fun _ hmem => hmem
    by_contra hle
    rw [hm.unused (not_lt.mp hle)] at hb
    cases hb

end Effects

/-! ### A client that watches -/

/-- `map[string]string`, from a server to its metadata. -/
abbrev Servers := Finmap fun _ : Bytes => Bytes

/-- The loop that puts a list into a map. -/
def serversOf (pairs : List KV) : Servers := pairs.foldl (fun m p => m.insert p.key p.value) ∅

/-- Where `Client.Discovery` stands. -/
inductive WatchPc where
  /-- `GetServices` comes next. -/
  | start
  /-- `WatchService` comes next. -/
  | listed
  /-- `Client.watch` runs on the channel. -/
  | watching (ch : ChanId)

/-- A discovery and a client, with its field `registryClient.servers`. -/
structure Watched where
  disc : State
  servers : Option Servers
  pc : WatchPc

/-- The steps. -/
inductive WatchLabel where
  /-- The discovery, and others who watch it. -/
  | disc (l : Label)
  /-- `GetServices`, and the map from what it returns. -/
  | getServices
  /-- `WatchService`, and the start of `watch`. -/
  | watchService
  /-- `watch` receives a list and puts it into a new map. -/
  | watch

/-- One step. Only the client receives from its channel. -/
def watchStep (s : Watched) : WatchLabel → Option Watched
  | .disc l =>
    match s.pc, l with
    | .watching ch, .take ch' =>
      if ch' = ch then none else (step s.disc l).map fun disc => { s with disc }
    | _, _ => (step s.disc l).map fun disc => { s with disc }
  | .getServices =>
    match s.pc with
    | .start => some { s with servers := some (serversOf s.disc.pairs), pc := .listed }
    | _ => none
  | .watchService =>
    match s.pc with
    | .listed => some { s with disc := Discovery.watchService s.disc, pc := .watching s.disc.made }
    | _ => none
  | .watch =>
    match s.pc with
    | .watching ch =>
      (take s.disc ch).map fun (pairs, disc) => { s with disc, servers := some (serversOf pairs) }
    | _ => none

/-- A client that starts to watch a discovery. -/
def watchInit (pairs : List KV) : Watched := ⟨init pairs, none, .start⟩

/-- The condition on the steps. A snapshot is received neither between `GetServices` and
`WatchService` nor while a goroutine has still to send an earlier one to the client; the channel of
the client is not full for a minute; and nobody takes it out of `chans` or closes it. -/
def Orderly (s : Watched) : WatchLabel → Prop
  | .disc l =>
    match s.pc, l with
    | .listed, .receive _ => False
    | .watching ch, .receive _ => ∀ pairs, (ch, pairs) ∉ s.disc.sends
    | .watching ch, .giveUp i => ∀ pairs, s.disc.sends[i]? ≠ some (ch, pairs)
    | .watching ch, .removeWatcher ch' => ch' ≠ ch
    | .watching ch, .close ch' => ch' ≠ ch
    | _, _ => True
  | _ => True

/-! ### Subscriptions -/

/-- The channel is open and in `chans`. -/
structure Subscribed (d : State) (ch : ChanId) : Prop where
  mem : ch ∈ d.chans
  opened : (d.channel ch).closed = false

section Subscription

variable {d d' : State} {ch : ChanId} {l : Label} {servers : Option Servers}

theorem Subscribed.mem_receive (h : Subscribed d ch) (pairs : List KV) :
    (ch, pairs) ∈ (receive d pairs).sends :=
  List.mem_append_right _ (List.mem_map_of_mem h.mem)

/-- What is sent to a subscriber arrives if there is room for it. -/
theorem Subscribed.send_room {i : ℕ} {pairs : List KV} (h : Subscribed d ch)
    (hi : d.sends[i]? = some (ch, pairs)) (hroom : (d.channel ch).buffer.length < chanCap) :
    ∃ t, send d i = some t ∧ (t.channel ch).buffer = (d.channel ch).buffer ++ [pairs] := by
  have hsend : send d i = some { d with
      sends := d.sends.eraseIdx i
      channel := Function.update d.channel ch
        { d.channel ch with buffer := (d.channel ch).buffer ++ [pairs] } } := by
    simp [send, hi, h.opened, hroom]
  exact ⟨_, hsend, by simp⟩

/-- **A subscription lasts** until somebody takes it out of `chans` or closes it. -/
theorem Subscribed.step (h : Subscribed d ch) (hrem : l ≠ .removeWatcher ch)
    (hclose : l ≠ .close ch) (hs : Effect d l d') : Subscribed d' ch := by
  cases hs with
  | receive => exact ⟨h.mem, h.opened⟩
  | sendClosed => exact ⟨h.mem, h.opened⟩
  | send => exact ⟨h.mem, (closed_setBuffer _ _).trans h.opened⟩
  | giveUp => exact ⟨h.mem, h.opened⟩
  | watchService => exact ⟨List.mem_append_left _ h.mem, h.opened⟩
  | removeWatcher c =>
    have hne : ch ≠ c := fun heq => hrem (heq ▸ rfl)
    exact ⟨List.mem_filter.mpr ⟨h.mem, by simpa using hne⟩, h.opened⟩
  | @close c =>
    have hne : ch ≠ c := fun heq => hclose (heq ▸ rfl)
    exact ⟨h.mem, by simpa [closeChan, Function.update_of_ne hne] using h.opened⟩
  | take => exact ⟨h.mem, (closed_setBuffer _ _).trans h.opened⟩

/-- What is on the way to a subscriber is the last snapshot. If nothing is on the way, it is the
last list in the buffer, and if there is none either, the subscriber has it. -/
structure Tracks (d : State) (servers : Option Servers) (ch : ChanId) : Prop where
  subscribed : Subscribed d ch
  sends : ∀ {pairs}, (ch, pairs) ∈ d.sends → pairs = d.pairs
  last : (∀ pairs, (ch, pairs) ∉ d.sends) → ∀ {pairs}, (d.channel ch).buffer.getLast? = some pairs →
    pairs = d.pairs
  settled : (∀ pairs, (ch, pairs) ∉ d.sends) → (d.channel ch).buffer = [] →
    servers = some (serversOf d.pairs)

/-- A step that does not concern the channel: what is on the way and in the buffer stays. -/
theorem Tracks.congr (h : Tracks d servers ch) (hsub : Subscribed d' ch) (hp : d'.pairs = d.pairs)
    (hsends : ∀ pairs, (ch, pairs) ∈ d'.sends ↔ (ch, pairs) ∈ d.sends)
    (hbuf : (d'.channel ch).buffer = (d.channel ch).buffer) : Tracks d' servers ch := by
  refine ⟨hsub, fun hmem => ?_, fun hno => ?_, fun hno => ?_⟩
  · rw [hp]
    exact h.sends ((hsends _).mp hmem)
  · rw [hp, hbuf]
    exact h.last fun pairs hmem => hno pairs ((hsends pairs).mpr hmem)
  · rw [hp, hbuf]
    exact h.settled fun pairs hmem => hno pairs ((hsends pairs).mpr hmem)

theorem mem_eraseIdx_of_ne {i : ℕ} {c : ChanId} {pairs : List KV}
    (hi : d.sends[i]? = some (c, pairs))
    (hne : ch ≠ c) (ps : List KV) : (ch, ps) ∈ d.sends.eraseIdx i ↔ (ch, ps) ∈ d.sends := by
  refine ⟨List.mem_of_mem_eraseIdx, fun hmem => ?_⟩
  obtain ⟨j, hj⟩ := List.mem_iff_getElem?.mp hmem
  refine List.mem_eraseIdx_iff_getElem?.mpr ⟨j, ?_, hj⟩
  rintro rfl
  cases hi.symm.trans hj
  exact hne rfl

theorem Tracks.step (h : Tracks d servers ch) (hs : Effect d l d')
    (hrec : ∀ pairs, l = .receive pairs → ∀ ps, (ch, ps) ∉ d.sends)
    (hgive : ∀ i, l = .giveUp i → ∀ ps, d.sends[i]? ≠ some (ch, ps)) (hrem : l ≠ .removeWatcher ch)
    (hclose : l ≠ .close ch) (htake : l ≠ .take ch) : Tracks d' servers ch := by
  have hsub := h.subscribed.step hrem hclose hs
  cases hs with
  | receive pairs =>
    have hno := hrec pairs rfl
    have hmem := h.subscribed.mem_receive pairs
    refine ⟨hsub, fun {ps} hps => ?_, fun hnone => absurd hmem (hnone pairs),
      fun hnone => absurd hmem (hnone pairs)⟩
    rcases List.mem_append.mp hps with hps | hps
    · exact absurd hps (hno ps)
    · obtain ⟨c, -, heq⟩ := List.mem_map.mp hps
      cases heq
      rfl
  | @sendClosed i c pairs hi hclosed =>
    have hch : ch ≠ c := by
      rintro rfl
      rw [h.subscribed.opened] at hclosed
      cases hclosed
    exact h.congr hsub rfl (mem_eraseIdx_of_ne hi hch) rfl
  | @send i c pairs hi =>
    by_cases hch : ch = c
    · subst hch
      have hpairs := h.sends (List.mem_of_getElem? hi)
      refine ⟨hsub, fun hmem => h.sends (List.mem_of_mem_eraseIdx hmem), fun _ {ps} hlast => ?_,
        fun _ hnil => ?_⟩
      · simp only [Function.update_self, List.getLast?_concat, Option.some.injEq] at hlast
        exact hlast ▸ hpairs
      · simp at hnil
    · exact h.congr hsub rfl (mem_eraseIdx_of_ne hi hch) (by simp [Function.update_of_ne hch])
  | @giveUp i c pairs hi =>
    have hch : ch ≠ c := by
      rintro rfl
      exact hgive i rfl pairs hi
    exact h.congr hsub rfl (mem_eraseIdx_of_ne hi hch) rfl
  | watchService => exact h.congr hsub rfl (fun _ => Iff.rfl) rfl
  | removeWatcher => exact h.congr hsub rfl (fun _ => Iff.rfl) rfl
  | @close c =>
    have hne : ch ≠ c := fun heq => hclose (heq ▸ rfl)
    exact h.congr hsub rfl (fun _ => Iff.rfl) (by simp [closeChan, Function.update_of_ne hne])
  | @take c =>
    have hne : ch ≠ c := fun heq => htake (heq ▸ rfl)
    exact h.congr hsub rfl (fun _ => Iff.rfl) (by simp [Function.update_of_ne hne])

theorem Tracks.take {pairs : List KV} (h : Tracks d servers ch)
    (ht : take d ch = some (pairs, d')) :
    Tracks d' (some (serversOf pairs)) ch := by
  obtain ⟨buffer, hb, rfl⟩ := take_eq_some ht
  refine ⟨⟨h.subscribed.mem, by simpa using h.subscribed.opened⟩, h.sends, fun hno {ps} hlast => ?_,
    fun hno hnil => ?_⟩
  · simp only [Function.update_self] at hlast
    refine h.last hno ?_
    rw [hb, List.getLast?_cons, hlast]
    rfl
  · simp only [Function.update_self] at hnil
    subst hnil
    have hlast : pairs = d.pairs := h.last hno (by rw [hb]; rfl)
    rw [hlast]

end Subscription

/-! ### Every run -/

/-- The invariant of the client. -/
structure Following (s : Watched) : Prop where
  made : Made s.disc
  listed : s.pc = .listed → s.servers = some (serversOf s.disc.pairs)
  tracks : ∀ {ch}, s.pc = .watching ch → Tracks s.disc s.servers ch

theorem Following.init (pairs : List KV) : Following (watchInit pairs) :=
  ⟨.init pairs, fun h => (by cases h), fun h => (by cases h)⟩

/-- What a step of the discovery, or of somebody else, does. -/
theorem watchStep_disc {s s' : Watched} {l : Label} (h : watchStep s (.disc l) = some s') :
    ∃ disc, Effect s.disc l disc ∧ s' = { s with disc := disc } ∧
      ∀ ch, s.pc = .watching ch → l ≠ .take ch := by
  simp only [watchStep] at h
  split at h
  · rename_i ch ch' hpc
    split_ifs at h with hne
    obtain ⟨disc, hd, rfl⟩ := Option.map_eq_some_iff.mp h
    refine ⟨disc, effect_of_step hd, rfl, ?_⟩
    rintro c hc ⟨⟩
    cases hpc.symm.trans hc
    exact hne rfl
  · rename_i hno
    obtain ⟨disc, hd, rfl⟩ := Option.map_eq_some_iff.mp h
    exact ⟨disc, effect_of_step hd, rfl, fun ch hpc hl => hno ch ch hpc hl⟩

theorem Following.step {s s' : Watched} {l : WatchLabel} (hf : Following s) (hok : Orderly s l)
    (h : watchStep s l = some s') : Following s' := by
  cases l with
  | disc l =>
    obtain ⟨disc, hd, rfl, htake⟩ := watchStep_disc h
    refine ⟨hf.made.step hd, fun hpc => ?_, fun {ch} hpc => ?_⟩
    · change s.pc = .listed at hpc
      have hpairs : disc.pairs = s.disc.pairs := by
        refine pairs_of_effect hd ?_
        rintro pairs rfl
        simp only [Orderly, hpc] at hok
      show s.servers = some (serversOf disc.pairs)
      rw [hpairs]
      exact hf.listed hpc
    · change s.pc = .watching ch at hpc
      refine (hf.tracks hpc).step hd ?_ ?_ ?_ ?_ (htake ch hpc)
      · rintro pairs rfl
        simpa only [Orderly, hpc] using hok
      · rintro i rfl
        simpa only [Orderly, hpc] using hok
      · rintro rfl
        simp [Orderly, hpc] at hok
      · rintro rfl
        simp [Orderly, hpc] at hok
  | getServices =>
    simp only [watchStep] at h
    split at h
    · cases h
      exact ⟨hf.made, fun _ => rfl, fun h => (by cases h)⟩
    · cases h
  | watchService =>
    simp only [watchStep] at h
    split at h
    · rename_i hpc
      cases h
      refine ⟨hf.made.step .watchService, fun h => (by cases h), fun {ch} h => ?_⟩
      cases h
      have hnew := hf.made.unused (le_refl s.disc.made)
      refine ⟨⟨List.mem_append_right _ (List.mem_singleton_self _), ?_⟩, fun hmem => ?_,
        fun _ {ps} hlast => ?_, fun _ _ => hf.listed hpc⟩
      · show (s.disc.channel s.disc.made).closed = false
        rw [hnew]
      · exact absurd (hf.made.sends hmem) (lt_irrefl _)
      · change (s.disc.channel s.disc.made).buffer.getLast? = some ps at hlast
        rw [hnew] at hlast
        cases hlast
    · cases h
  | watch =>
    simp only [watchStep] at h
    split at h
    · rename_i ch hpc
      obtain ⟨⟨pairs, disc⟩, ht, rfl⟩ := Option.map_eq_some_iff.mp h
      have hd : Effect s.disc (.take ch) disc := by
        obtain ⟨buffer, hb, rfl⟩ := take_eq_some ht
        exact .take hb
      refine ⟨hf.made.step hd, fun hl => ?_, fun {c} hc => ?_⟩
      · cases hpc.symm.trans hl
      · cases hpc.symm.trans hc
        exact (hf.tracks hpc).take ht
    · cases h

theorem following_of_reach {pairs : List KV} {s : Watched}
    (h : Reach watchStep Orderly (watchInit pairs) s) : Following s :=
  h.invariant (P := Following) (.init pairs) fun _ hf hok hs => hf.step hok hs

/-- The client has read the list, no goroutine has still to send to its channel, and its channel is
empty. -/
def Quiescent (s : Watched) : Prop :=
  match s.pc with
  | .start => False
  | .listed => True
  | .watching ch => (∀ pairs, (ch, pairs) ∉ s.disc.sends) ∧ (s.disc.channel ch).buffer = []

/-- **No lost or stale update.** In every orderly run, in every quiescent state, the map of the
client is that of the last snapshot. -/
theorem servers_eq_pairs {pairs : List KV} {s : Watched}
    (h : Reach watchStep Orderly (watchInit pairs) s) (hq : Quiescent s) :
    s.servers = some (serversOf s.disc.pairs) := by
  have hf := following_of_reach h
  unfold Quiescent at hq
  split at hq
  · exact hq.elim
  · rename_i hpc
    exact hf.listed hpc
  · rename_i ch hpc
    exact (hf.tracks hpc).settled hq.1 hq.2

/-- What can be checked of `Orderly` where nobody else has to do with the channels. -/
def orderly (s : Watched) : WatchLabel → Bool
  | .disc (.receive _) =>
    match s.pc with
    | .start => true
    | .listed => false
    | .watching ch => s.disc.sends.all (·.1 != ch)
  | .disc (.send _) => true
  | .disc _ => false
  | _ => true

theorem orderly_of_check (s : Watched) (l : WatchLabel) (h : orderly s l = true) : Orderly s l := by
  cases l with
  | disc l =>
    cases l with
    | receive pairs =>
      simp only [orderly] at h
      cases hpc : s.pc with
      | start => simp [Orderly, hpc]
      | listed => simp [hpc] at h
      | watching ch =>
        simp only [hpc, List.all_eq_true, bne_iff_ne] at h
        simp only [Orderly, hpc]
        exact fun ps hmem => h _ hmem rfl
    | send i => cases hpc : s.pc <;> simp [Orderly, hpc]
    | _ => cases h
  | _ => trivial

/-- The list of one server. -/
def oneServer (name : UInt8) : List KV := [⟨[name], []⟩]

/-- One snapshot after the client has subscribed. -/
theorem servers_eq_pairs_one :
    ∃ s, Reach watchStep Orderly (watchInit (oneServer 65)) s ∧ Quiescent s ∧
      s.disc.pairs = oneServer 66 ∧ s.servers = some (serversOf (oneServer 66)) := by
  have hrun : Reach watchStep Orderly (watchInit (oneServer 65)) _ :=
    reach_of_guarded orderly_of_check [.getServices, .watchService, .disc (.receive (oneServer 66)),
      .disc (.send 0), .watch] rfl
  exact ⟨_, hrun, ⟨fun _ hmem => (by cases hmem), rfl⟩, rfl,
    servers_eq_pairs hrun ⟨fun _ hmem => (by cases hmem), rfl⟩⟩

/-- Two snapshots whose goroutines send in the other order, and a snapshot between `GetServices` and
`WatchService`: nothing is on the way any more, and the client has an old list. -/
theorem servers_stale :
    (∃ s, Reach watchStep Any (watchInit (oneServer 65)) s ∧ Quiescent s ∧
      s.disc.pairs = oneServer 67 ∧
      s.servers = some (serversOf (oneServer 66)) ∧ s.servers ≠ some (serversOf s.disc.pairs)) ∧
    ∃ s, Reach watchStep Any (watchInit (oneServer 65)) s ∧ Quiescent s ∧
      s.disc.pairs = oneServer 66 ∧
      s.servers = some (serversOf (oneServer 65)) ∧ s.servers ≠ some (serversOf s.disc.pairs) := by
  refine ⟨⟨_, reach_of_exec [.getServices, .watchService, .disc (.receive (oneServer 66)),
      .disc (.receive (oneServer 67)), .disc (.send 1), .disc (.send 0), .watch, .watch] rfl,
        ?_, rfl, rfl,
      by decide⟩,
    ⟨_, reach_of_exec [.getServices, .disc (.receive (oneServer 66)), .watchService] rfl,
      ?_, rfl, rfl, by decide⟩⟩
  · exact ⟨fun _ hmem => (by cases hmem), rfl⟩
  · exact ⟨fun _ hmem => (by cases hmem), rfl⟩

end Frpc.Registry.Discovery
