import Frpc.Lib.Leases
import Frpc.Registry.Etcd

/-! # The leases of a server in etcd

The node of a server in etcd has a time to live, so that it goes away when the server does.
`Register` puts it for two update intervals. The goroutine of `Start` puts it again in every round
of its ticker, for three. The client of etcd cuts a time to live down to whole seconds.

One register is modelled with its ticker, and the clock. Everybody else writes elsewhere in the
store. The server may crash at any time. etcd removes a node at some time after its time to live is
over.

A server whose goroutine is punctual stays registered, even if some of its puts fail
(`registered_while_alive`). The nodes of a server that has crashed go away
(`lapses_after_crash`). -/

namespace Frpc.Registry.Leases

open Frpc.Basic Frpc.Lib.Runs Frpc.Lib.Trees Frpc.Lib.Leases
open Frpc.Registry.Consul (Register join)
open Frpc.Registry.Etcd

/-- A ticker, and the goroutine that reads from it: when it fires next, whether a tick is in its
channel, and the services that are left in the current round. -/
structure Ticker where
  next : ℤ
  waiting : Bool
  round : List Bytes

/-- A round is not over. -/
def Ticker.busy (tk : Ticker) : Bool := tk.waiting || !tk.round.isEmpty

/-- The service is still to be put in a round that has begun. -/
def Ticker.due (tk : Ticker) (name : Bytes) : Bool := tk.waiting || tk.round.contains name

/-- An `EtcdRegister`, etcd with the times at which its nodes expire, and the clock. `crashed` is
the time of the crash; `missed` is there for the statements only: how many puts of the ticker have
failed since one has not, and `none` if the ticker has not put the node yet. -/
structure State where
  r : Register
  store : Store
  expiry : List Bytes → Option ℤ
  ticker : Option Ticker
  crashed : Option ℤ
  missed : Bytes → Option ℕ
  now : ℤ

/-- The path of the node of a service. -/
def State.path (s : State) (name : Bytes) : List Bytes := clean (s.r.node name)

/-- `uint64(a.TTL.Seconds())`, as a duration. -/
def seconds (d : ℤ) : ℤ := d / 1000000000 * 1000000000

/-- A node is put with the time to live `d`. Without one it does not expire. -/
def State.lease (s : State) (path : List Bytes) (d : ℤ) : List Bytes → Option ℤ :=
  Function.update s.expiry path (if 0 < d then some (s.now + seconds d) else none)

/-- The put of the ticker for a service does not fail. -/
def State.puts (env : Env) (s : State) (name : Bytes) (get answer : Option Error) : Bool :=
  (put env s.store (s.r.node name) (.file (tickValue env s.r s.store name get)) answer).isOk

/-- The steps. An `Option Error` is what etcd answers to a request. -/
inductive Label where
  | start (newStore put : Option Error)
  | register (name metadata : Bytes) (newStore put₁ put₂ put₃ : Option Error)
  /-- The ticker fires. A tick is dropped if there is one in the channel. -/
  | fire
  /-- The goroutine takes a tick, and goes through the services that there are. -/
  | range
  /-- It puts the next service. -/
  | tick (get put : Option Error)
  | crash
  /-- etcd removes a node. -/
  | expire (path : List Bytes)
  /-- Somebody else changes the store. -/
  | other (store : Store) (expiry : List Bytes → Option ℤ)
  | wait (time : ℤ)

/-- One step. A register is started once. -/
def step (env : Env) (s : State) : Label → Option State
  | .start newStore answer =>
    if s.crashed = none ∧ s.r.ticking = false then
      let (r, store, _) := start env s.r s.store newStore answer
      some { s with
        r
        store
        ticker := if r.ticking then some ⟨s.now + r.updateInterval, false, []⟩ else s.ticker }
    else none
  | .register name metadata newStore put₁ put₂ put₃ =>
    if s.crashed = none then
      match register env s.r s.store name metadata newStore put₁ put₂ put₃ with
      | (r, store, none) =>
        some { s with
          r
          store
          expiry := s.lease (s.path name) (2 * r.updateInterval)
          missed := Function.update s.missed name none }
      | (r, store, some _) => some { s with r, store }
    else none
  | .fire =>
    s.ticker.bind fun tk =>
      if s.crashed = none ∧ tk.next ≤ s.now then
        some { s with
          ticker := some { tk with next := tk.next + s.r.updateInterval, waiting := true } }
      else none
  | .range =>
    s.ticker.bind fun tk =>
      if s.crashed = none ∧ tk.waiting = true ∧ tk.round = [] then
        some { s with ticker := some { tk with waiting := false, round := s.r.services } }
      else none
  | .tick get answer =>
    s.ticker.bind fun tk =>
      match tk.round with
      | [] => none
      | name :: round =>
        if s.crashed = none then
          some { s with
            store := tick env s.r s.store name get answer
            expiry :=
              if s.puts env name get answer then s.lease (s.path name) (3 * s.r.updateInterval)
                else s.expiry
            missed := Function.update s.missed name
              (if s.puts env name get answer then some 0 else (s.missed name).map (· + 1))
            ticker := some { tk with round } }
        else none
  | .crash => if s.crashed = none then some { s with crashed := some s.now } else none
  | .expire path =>
    match s.store.lookup path, s.expiry path with
    | some (.file _), some t =>
      if t ≤ s.now then
        some { s with store := s.store.erase path, expiry := Function.update s.expiry path none }
      else none
    | _, _ => none
  | .other store expiry => some { s with store, expiry }
  | .wait t => if s.now ≤ t then some { s with now := t } else none

/-- A new register. There may be anything in the store. -/
def begin (basePath serviceAddress : Bytes) (interval : ℤ) (store : Store)
    (expiry : List Bytes → Option ℤ) (now : ℤ) : State :=
  ⟨⟨serviceAddress, basePath, [], ∅, interval, false, false⟩, store, expiry, none, none,
    fun _ => none, now⟩

/-- The terms of the leases, when a round takes up to `delay`. -/
def terms (delay interval : ℤ) : Terms :=
  ⟨interval, delay, seconds (2 * interval), seconds (3 * interval), 1⟩

/-- The condition on the steps. The services are registered after the ticker has been started, under
names that can be components of a path. A put of the ticker may fail if the one before it has not.
The goroutine is done with a round within `delay`. The others leave the nodes of the server as they
are. -/
def Punctual (env : Env) (delay : ℤ) (s : State) : Label → Prop
  | .register name _ _ _ _ _ => Component name ∧ (0 < s.r.updateInterval → s.r.ticking = true)
  | .tick get answer => ∀ tk name round, s.ticker = some tk → tk.round = name :: round →
    s.puts env name get answer = false → s.missed name = some 0
  | .other store expiry => ∀ name ∈ s.r.services,
    store.lookup (s.path name) = s.store.lookup (s.path name) ∧
      expiry (s.path name) = s.expiry (s.path name)
  | .wait t => ∀ tk, s.ticker = some tk → s.crashed = none →
    t ≤ tk.next ∧ (tk.busy = true → t ≤ tk.next - s.r.updateInterval + delay)
  | _ => True

/-! ### What a step does -/

/-- The step function, inverted. -/
inductive Effect (env : Env) (s : State) : Label → State → Prop
  | start {newStore answer err : Option Error} {r : Register} {store : Store}
      (hlive : s.crashed = none)
      (hidle : s.r.ticking = false)
      (heq : start env s.r s.store newStore answer = (r, store, err)) :
      Effect env s (.start newStore answer)
        { s with
          r
          store
          ticker := if r.ticking then some ⟨s.now + r.updateInterval, false, []⟩ else s.ticker }
  | registered {name metadata : Bytes} {newStore put₁ put₂ put₃ : Option Error} {r : Register}
      {store : Store} (hlive : s.crashed = none)
      (heq : register env s.r s.store name metadata newStore put₁ put₂ put₃ = (r, store, none)) :
      Effect env s (.register name metadata newStore put₁ put₂ put₃)
        { s with
          r
          store
          expiry := s.lease (s.path name) (2 * r.updateInterval)
          missed := Function.update s.missed name none }
  | refused {name metadata : Bytes} {newStore put₁ put₂ put₃ : Option Error} {err : Error}
      {r : Register} {store : Store} (hlive : s.crashed = none)
      (heq : register env s.r s.store name metadata newStore put₁ put₂ put₃ =
        (r, store, some err)) :
      Effect env s (.register name metadata newStore put₁ put₂ put₃) { s with r, store }
  | fire {tk : Ticker} (htk : s.ticker = some tk) (hlive : s.crashed = none)
      (hnow : tk.next ≤ s.now) :
      Effect env s .fire
        { s with ticker := some { tk with next := tk.next + s.r.updateInterval, waiting := true } }
  | range {tk : Ticker} (htk : s.ticker = some tk) (hlive : s.crashed = none)
      (hwaiting : tk.waiting = true) (hround : tk.round = []) :
      Effect env s .range
        { s with ticker := some { tk with waiting := false, round := s.r.services } }
  | tick {get answer : Option Error} {tk : Ticker} {name : Bytes} {round : List Bytes}
      (htk : s.ticker = some tk) (hround : tk.round = name :: round) (hlive : s.crashed = none) :
      Effect env s (.tick get answer)
        { s with
          store := tick env s.r s.store name get answer
          expiry :=
            if s.puts env name get answer then s.lease (s.path name) (3 * s.r.updateInterval)
              else s.expiry
          missed := Function.update s.missed name
            (if s.puts env name get answer then some 0 else (s.missed name).map (· + 1))
          ticker := some { tk with round } }
  | crash (hlive : s.crashed = none) : Effect env s .crash { s with crashed := some s.now }
  | expire {path : List Bytes} {v : Bytes} {t : ℤ} (hfile : s.store.lookup path = some (.file v))
      (ht : s.expiry path = some t) (hle : t ≤ s.now) :
      Effect env s (.expire path)
        { s with store := s.store.erase path, expiry := Function.update s.expiry path none }
  | other {store : Store} {expiry : List Bytes → Option ℤ} :
      Effect env s (.other store expiry) { s with store, expiry }
  | wait {t : ℤ} (hle : s.now ≤ t) : Effect env s (.wait t) { s with now := t }

section Effects

variable {env : Env} {s s' : State} {l : Label}

theorem effect_of_step (hs : step env s l = some s') : Effect env s l s' := by
  cases l with
  | start newStore answer =>
    simp only [step, Option.ite_none_right_eq_some, Option.some.injEq] at hs
    obtain ⟨⟨hlive, hidle⟩, rfl⟩ := hs
    exact .start hlive hidle rfl
  | register name metadata newStore put₁ put₂ put₃ =>
    simp only [step, Option.ite_none_right_eq_some] at hs
    obtain ⟨hlive, hs⟩ := hs
    split at hs
    · rename_i r store heq
      cases hs
      exact .registered hlive heq
    · rename_i r store err heq
      cases hs
      exact .refused hlive heq
  | fire =>
    obtain ⟨tk, htk, hs⟩ := Option.bind_eq_some_iff.mp hs
    simp only [Option.ite_none_right_eq_some, Option.some.injEq] at hs
    obtain ⟨⟨hlive, hnow⟩, rfl⟩ := hs
    exact .fire htk hlive hnow
  | range =>
    obtain ⟨tk, htk, hs⟩ := Option.bind_eq_some_iff.mp hs
    simp only [Option.ite_none_right_eq_some, Option.some.injEq] at hs
    obtain ⟨⟨hlive, hwaiting, hround⟩, rfl⟩ := hs
    exact .range htk hlive hwaiting hround
  | tick get answer =>
    obtain ⟨tk, htk, hs⟩ := Option.bind_eq_some_iff.mp hs
    split at hs
    · cases hs
    · rename_i name round hround
      simp only [Option.ite_none_right_eq_some, Option.some.injEq] at hs
      obtain ⟨hlive, rfl⟩ := hs
      exact .tick htk hround hlive
  | crash =>
    simp only [step, Option.ite_none_right_eq_some, Option.some.injEq] at hs
    obtain ⟨hlive, rfl⟩ := hs
    exact .crash hlive
  | expire path =>
    simp only [step] at hs
    split at hs
    · rename_i v t hfile ht
      simp only [Option.ite_none_right_eq_some, Option.some.injEq] at hs
      obtain ⟨hle, rfl⟩ := hs
      exact .expire hfile ht hle
    · cases hs
  | other store expiry =>
    cases hs
    exact .other
  | wait t =>
    simp only [step, Option.ite_none_right_eq_some, Option.some.injEq] at hs
    obtain ⟨hle, rfl⟩ := hs
    exact .wait hle

end Effects

/-! ### The store -/

section Store

variable {env : Env} {r r' : Register} {store store' : Store} {p : List Bytes}
  {name metadata : Bytes} {newStore answer put₁ put₂ put₃ err : Option Error}

/-- The files at a path are the same in two stores. -/
def SameFile (p : List Bytes) (store store' : Store) : Prop :=
  ∀ v, store'.lookup p = some (.file v) ↔ store.lookup p = some (.file v)

theorem sameFile_put {key : Bytes} {node : Node Bytes}
    (hput : put env store key node answer = .ok store')
    (hp : p ≠ clean key) : SameFile p store store' := by
  intro v
  obtain ⟨-, -, hother, -⟩ := put_spec (put_eq_ok hput)
  rcases hother p hp with hsame | ⟨hnone, hdir, -⟩
  · rw [hsame]
  · rw [hnone, hdir]
    constructor <;> rintro ⟨⟩

theorem sameFile_putDir {key : Bytes} (hput : putDir env store key answer = .ok store')
    (hp : p ≠ clean key) :
    SameFile p store store' := by
  unfold putDir at hput
  split at hput
  · split_ifs at hput
    cases hput
    exact fun v => Iff.rfl
  · rename_i st hst
    cases hput
    exact sameFile_put hst hp

theorem start_spec (heq : start env r store newStore answer = (r', store', err)) :
    (∃ c, r' = { r with connected := c } ∨
        (0 < r.updateInterval ∧ r' = { r with connected := c, ticking := true })) ∧
      ∀ p, p ≠ clean r.basePath → SameFile p store store' := by
  unfold start at heq
  split at heq
  · cases heq
    exact ⟨⟨r.connected, Or.inl rfl⟩, fun p _ v => Iff.rfl⟩
  · rename_i r₁ hconn
    obtain rfl := Consul.connect_eq_ok hconn
    split at heq
    · cases heq
      exact ⟨⟨true, Or.inl rfl⟩, fun p _ v => Iff.rfl⟩
    · rename_i st hput
      cases heq
      refine ⟨⟨true, ?_⟩, fun p hp => sameFile_putDir hput hp⟩
      by_cases hpos : 0 < r.updateInterval
      · exact Or.inr ⟨hpos, by rw [decide_eq_true hpos, Bool.or_true]⟩
      · exact Or.inl (by rw [decide_eq_false hpos, Bool.or_false])

theorem register_fields
    (heq : register env r store name metadata newStore put₁ put₂ put₃ = (r', store', err)) :
    r'.serviceAddress = r.serviceAddress ∧ r'.basePath = r.basePath ∧
      r'.updateInterval = r.updateInterval ∧
      r'.ticking = r.ticking ∧ r'.services = err.elim (r.services ++ [name]) fun _ =>
        r.services := by
  unfold register at heq
  split_ifs at heq
  · cases heq
    exact ⟨rfl, rfl, rfl, rfl, rfl⟩
  · split at heq
    · cases heq
      exact ⟨rfl, rfl, rfl, rfl, rfl⟩
    · rename_i r₁ hconn
      obtain rfl := Consul.connect_eq_ok hconn
      split at heq
      · cases heq
        exact ⟨rfl, rfl, rfl, rfl, rfl⟩
      · split at heq
        · cases heq
          exact ⟨rfl, rfl, rfl, rfl, rfl⟩
        · unfold registerNode at heq
          split at heq
          · cases heq
            exact ⟨rfl, rfl, rfl, rfl, rfl⟩
          · cases heq
            exact ⟨rfl, rfl, rfl, rfl, rfl⟩

theorem register_files
    (heq : register env r store name metadata newStore put₁ put₂ put₃ = (r', store', err))
    (hbase : p ≠ clean r.basePath) (hdir : p ≠ clean (join r.basePath name)) :
    (err ≠ none → SameFile p store store') ∧
      (err = none → (p ≠ clean (r.node name) → SameFile p store store') ∧
        store'.lookup (clean (r.node name)) = some (.file metadata)) := by
  obtain ⟨hfail, hdone⟩ := register_store env name metadata newStore put₁ put₂ put₃
    (P := SameFile p store) (fun v => Iff.rfl)
    (fun hst hput v => (sameFile_putDir hput hbase v).trans (hst v))
    (fun hst hput v => (sameFile_putDir hput hdir v).trans (hst v))
  rw [heq] at hfail hdone
  refine ⟨hfail, fun herr => ?_⟩
  obtain ⟨st, hst, hput⟩ := hdone herr
  exact ⟨fun hp v => (sameFile_put hput hp v).trans (hst v), (put_spec (put_eq_ok hput)).2.1⟩

theorem tick_files (env : Env) (s : State) (name : Bytes) (get answer : Option Error) :
    (∀ p, p ≠ s.path name → SameFile p s.store (tick env s.r s.store name get answer)) ∧
      (s.puts env name get answer = true →
        ∃ v, (tick env s.r s.store name get answer).lookup (s.path name) = some (.file v)) ∧
      (s.puts env name get answer = false → tick env s.r s.store name get answer = s.store) := by
  unfold tick State.puts
  cases hput : put env s.store (s.r.node name)
    (.file (tickValue env s.r s.store name get)) answer with
  | error err => exact ⟨fun p _ v => Iff.rfl, fun h => absurd h Bool.false_ne_true, fun _ => rfl⟩
  | ok store =>
    exact ⟨fun p hp => sameFile_put hput hp, fun _ => ⟨_, (put_spec (put_eq_ok hput)).2.1⟩,
      fun h => absurd h.symm Bool.false_ne_true⟩

end Store

/-! ### The invariant -/

/-- The path of the node of a service. -/
def nodePath (base addr name : Bytes) : List Bytes := clean base ++ [name, addr]

/-- What holds of the node of a service, at the path `p`: while the server is up, it is there, and
its lease covers the rounds of the ticker; and it does not last longer than three intervals after
the crash. -/
structure Held (delay interval : ℤ) (p : List Bytes) (name : Bytes) (s : State) : Prop where
  stored : s.crashed = none → ∃ v, s.store.lookup p = some (.file v)
  permanent : s.crashed = none → ¬ 0 < interval → s.expiry p = none
  covered : s.crashed = none → ∀ tk, s.ticker = some tk →
    ∃ e, s.expiry p = some e ∧
      Covered (terms delay interval) tk.next (tk.due name) (s.missed name) e
  bounded : 0 < interval → ∀ v, s.store.lookup p = some (.file v) →
    ∃ e, s.expiry p = some e ∧ e ≤ s.crashed.getD s.now + seconds (3 * interval)

/-- What holds of a server and its nodes. -/
structure Leased (base addr : Bytes) (delay interval : ℤ) (s : State) : Prop where
  address : s.r.serviceAddress = addr
  basePath : s.r.basePath = base
  updateInterval : s.r.updateInterval = interval
  components : ∀ n ∈ s.r.services, Component n
  quiet : 0 < interval → s.r.ticking = false → s.r.services = []
  started : s.r.ticking = true → 0 < interval ∧ ∃ tk, s.ticker = some tk
  round : ∀ tk, s.ticker = some tk → s.r.ticking = true ∧ ∀ n ∈ tk.round, n ∈ s.r.services
  clock : s.crashed = none → ∀ tk, s.ticker = some tk →
    Timely (terms delay interval) s.now tk.next tk.busy
  held : ∀ n ∈ s.r.services, Held delay interval (nodePath base addr n) n s

section Invariant

variable {env : Env} {base addr n m : Bytes} {delay interval : ℤ} {s s' : State} {l : Label}
  {p : List Bytes} {tk : Ticker}

theorem Ticker.busy_of_due (h : tk.due n = true) : tk.busy = true := by
  unfold Ticker.due at h
  unfold Ticker.busy
  rcases Bool.or_eq_true_iff.mp h with hwaiting | hmem
  · rw [hwaiting, Bool.true_or]
  · have hne := List.ne_nil_of_mem (List.contains_iff_mem.mp hmem)
    simp [hne]

theorem Held.frame (h : Held delay interval p n s) (hfile : SameFile p s.store s'.store)
    (hexpiry : s'.expiry p = s.expiry p) (hcrashed : s'.crashed = s.crashed) (hnow : s.now ≤ s'.now)
    (hmissed : s'.missed n = s.missed n)
    (htk : ∀ tk', s'.ticker = some tk' → ∃ tk, s.ticker = some tk ∧ tk'.next = tk.next ∧
      tk'.due n = tk.due n) :
    Held delay interval p n s' := by
  refine ⟨fun hlive => ?_, fun hlive hzero => ?_, fun hlive tk' htk' => ?_, fun hpos v hv => ?_⟩
  · obtain ⟨v, hv⟩ := h.stored (hcrashed ▸ hlive)
    exact ⟨v, (hfile v).mpr hv⟩
  · rw [hexpiry]
    exact h.permanent (hcrashed ▸ hlive) hzero
  · obtain ⟨tk, htk, hnext, hdue⟩ := htk tk' htk'
    rw [hexpiry, hmissed, hnext, hdue]
    exact h.covered (hcrashed ▸ hlive) tk htk
  · obtain ⟨e, he, hle⟩ := h.bounded hpos v ((hfile v).mp hv)
    rw [hexpiry, hcrashed]
    refine ⟨e, he, hle.trans ?_⟩
    cases s.crashed with
    | none => simpa using hnow
    | some c => exact le_rfl

theorem Leased.lt_expiry (h : Leased base addr delay interval s)
    (hample : 0 < interval → (terms delay interval).Ample) (hlive : s.crashed = none)
    (hn : n ∈ s.r.services)
    {e : ℤ} (he : s.expiry (nodePath base addr n) = some e) : s.now < e := by
  by_cases hpos : 0 < interval
  · have hticking : s.r.ticking = true := by
      by_contra hidle
      rw [h.quiet hpos (by simpa using hidle)] at hn
      exact absurd hn List.not_mem_nil
    obtain ⟨-, tk, htk⟩ := h.started hticking
    obtain ⟨e', he', hcovered⟩ := (h.held n hn).covered hlive tk htk
    obtain rfl : e' = e := Option.some.inj (he'.symm.trans he)
    exact hcovered.lt_expiry (hample hpos) (h.clock hlive tk htk) Ticker.busy_of_due
  · rw [(h.held n hn).permanent hlive hpos] at he
    cases he

theorem clean_node {r : Register} (haddr : Component r.serviceAddress) (hn : Component n) :
    clean (r.node n) = nodePath r.basePath r.serviceAddress n := by
  show clean (join (join r.basePath n) r.serviceAddress) = _
  rw [clean_join _ haddr, clean_join _ hn, List.append_assoc]
  rfl

theorem Leased.path_eq (h : Leased base addr delay interval s) (haddr : Component addr)
    (hn : Component n) :
    s.path n = nodePath base addr n := by
  unfold State.path
  rw [clean_node (h.address ▸ haddr) hn, h.address, h.basePath]

theorem nodePath_ne (hne : n ≠ m) : nodePath base addr n ≠ nodePath base addr m := by
  intro h
  unfold nodePath at h
  exact hne (by simpa using h)

theorem nodePath_ne_base : nodePath base addr n ≠ clean base := by
  intro h
  have hlen := congrArg List.length h
  simp [nodePath] at hlen

theorem nodePath_ne_dir (hm : Component m) : nodePath base addr n ≠ clean (join base m) := by
  intro h
  have hlen := congrArg List.length h
  rw [clean_join _ hm] at hlen
  simp [nodePath] at hlen

theorem sameTicker (n : Bytes) : ∀ tk', s.ticker = some tk' →
    ∃ tk, s.ticker = some tk ∧ tk'.next = tk.next ∧ tk'.due n = tk.due n :=
  fun tk' htk' => ⟨tk', htk', rfl, rfl⟩

theorem Leased.start (h : Leased base addr delay interval s)
    {newStore answer err : Option Error} {r : Register} {store : Store}
    (hidle : s.r.ticking = false) (heq : start env s.r s.store newStore answer = (r, store, err)) :
    Leased base addr delay interval { s with
      r
      store
      ticker := if r.ticking then some ⟨s.now + r.updateInterval, false, []⟩ else s.ticker } := by
  obtain ⟨⟨c, hr⟩, hfiles⟩ := start_spec heq
  rcases hr with rfl | ⟨hpos, rfl⟩
  · rw [if_neg (by simp [hidle])]
    refine ⟨h.address, h.basePath, h.updateInterval, h.components, h.quiet, h.started, h.round,
      h.clock, ?_⟩
    intro n hn
    refine (h.held n hn).frame (hfiles _ ?_) rfl rfl le_rfl rfl (sameTicker n)
    rw [h.basePath]
    exact nodePath_ne_base
  · -- the ticker is started before there are services
    rw [h.updateInterval] at hpos
    have hnil := h.quiet hpos hidle
    rw [if_pos rfl]
    refine ⟨h.address, h.basePath, h.updateInterval, h.components, fun _ hoff => ?_,
      fun _ => ⟨hpos, _, rfl⟩, ?_, ?_, fun n hn => ?_⟩
    · cases hoff
    · rintro tk ⟨⟩
      exact ⟨rfl, fun n hn => absurd hn List.not_mem_nil⟩
    · rintro - tk ⟨⟩
      show Timely (terms delay interval) s.now (s.now + s.r.updateInterval) false
      rw [h.updateInterval]
      exact timely_start hpos.le
    · rw [show s.r.services = [] from hnil] at hn
      exact absurd hn List.not_mem_nil

theorem seconds_mono {d d' : ℤ} (h : d ≤ d') : seconds d ≤ seconds d' := by
  unfold seconds
  omega

theorem Leased.registered (h : Leased base addr delay interval s) (haddr : Component addr)
    (hample : 0 < interval → (terms delay interval).Ample) {name metadata : Bytes}
    {newStore put₁ put₂ put₃ : Option Error} {r : Register} {store : Store}
    (hlive : s.crashed = none)
    (hname : Component name) (hticking : 0 < s.r.updateInterval → s.r.ticking = true)
    (heq : register env s.r s.store name metadata newStore put₁ put₂ put₃ = (r, store, none)) :
    Leased base addr delay interval { s with
      r
      store
      expiry := s.lease (s.path name) (2 * r.updateInterval)
      missed := Function.update s.missed name none } := by
  obtain ⟨haddress, hbase, hinterval, htick, hservices⟩ := register_fields heq
  have hpath := h.path_eq haddr hname
  rw [Option.elim_none] at hservices
  have hmem : ∀ n, n ∈ r.services ↔ n ∈ s.r.services ∨ n = name := by
    intro n
    rw [hservices, List.mem_append, List.mem_singleton]
  have hfiles : ∀ n, Component n →
      (nodePath base addr n ≠ nodePath base addr name →
        SameFile (nodePath base addr n) s.store store) ∧
        store.lookup (nodePath base addr name) = some (.file metadata) := by
    intro n hn
    have hspec := register_files (p := nodePath base addr n) heq
        (by rw [h.basePath]; exact nodePath_ne_base)
      (by rw [h.basePath]; exact nodePath_ne_dir hname)
    have hdone := hspec.2 rfl
    change _ ∧ store.lookup (s.path name) = _ at hdone
    change (_ ≠ s.path name → _) ∧ _ at hdone
    rw [hpath] at hdone
    exact hdone
  refine ⟨haddress.trans h.address, hbase.trans h.basePath, hinterval.trans h.updateInterval,
    ?_, ?_, ?_, ?_, h.clock, ?_⟩
  · intro n hn
    rcases (hmem n).mp hn with hold | rfl
    · exact h.components n hold
    · exact hname
  · intro hpos hidle
    have hon := hticking (h.updateInterval ▸ hpos)
    exact absurd (hon.symm.trans (htick.symm.trans hidle)) (by decide)
  · intro hon
    exact h.started (htick.symm.trans hon)
  · intro tk htk
    obtain ⟨hon, hround⟩ := h.round tk htk
    exact ⟨htick.trans hon, fun n hn => (hmem n).mpr (Or.inl (hround n hn))⟩
  · intro n hn
    by_cases hne : n = name
    · subst hne
      have hexpiry : s.lease (s.path n) (2 * r.updateInterval) (nodePath base addr n) =
          if 0 < 2 * interval then some (s.now + seconds (2 * interval)) else none := by
        rw [State.lease, hpath, Function.update_self, hinterval, h.updateInterval]
      refine ⟨fun _ => ⟨metadata, (hfiles n hname).2⟩, fun _ hzero => ?_,
        fun _ tk htk => ?_, fun hpos v _ => ?_⟩
      · exact hexpiry.trans (if_neg (by omega))
      · have hpos := (h.started (h.round tk htk).1).1
        refine ⟨_, hexpiry.trans (if_pos (by omega)), ?_⟩
        show Covered _ _ _ (Function.update s.missed n none n) _
        rw [Function.update_self]
        exact covered_grant (hample hpos) (h.clock hlive tk htk)
      · refine ⟨_, hexpiry.trans (if_pos (by omega)), ?_⟩
        have hle : seconds (2 * interval) ≤ seconds (3 * interval) := seconds_mono (by omega)
        show _ ≤ s.crashed.getD s.now + _
        rw [hlive]
        exact Int.add_le_add_left hle s.now
    · have hold := ((hmem n).mp hn).resolve_right hne
      have hpne : nodePath base addr n ≠ nodePath base addr name := nodePath_ne hne
      refine (h.held n hold).frame ((hfiles n (h.components n hold)).1 hpne) ?_ rfl le_rfl
        (Function.update_of_ne hne _ _) (sameTicker n)
      show s.lease (s.path name) _ _ = _
      rw [State.lease, hpath, Function.update_of_ne hpne]

theorem Leased.refused (h : Leased base addr delay interval s) {name metadata : Bytes}
    {newStore put₁ put₂ put₃ : Option Error} {err : Error} {r : Register} {store : Store}
    (hname : Component name)
    (heq : register env s.r s.store name metadata newStore put₁ put₂ put₃ = (r, store, some err)) :
    Leased base addr delay interval { s with r, store } := by
  obtain ⟨haddress, hbase, hinterval, htick, hservices⟩ := register_fields heq
  rw [Option.elim_some] at hservices
  refine ⟨haddress.trans h.address, hbase.trans h.basePath, hinterval.trans h.updateInterval,
    ?_, ?_, ?_, ?_, h.clock, ?_⟩
  · show ∀ n ∈ r.services, _
    rw [hservices]
    exact h.components
  · intro hpos hidle
    exact hservices.trans (h.quiet hpos (htick.symm.trans hidle))
  · intro hon
    exact h.started (htick.symm.trans hon)
  · intro tk htk
    obtain ⟨hon, hround⟩ := h.round tk htk
    exact ⟨htick.trans hon, fun n hn => hservices ▸ hround n hn⟩
  · intro n hn
    have hold : n ∈ s.r.services := hservices ▸ hn
    have hfiles := register_files (p := nodePath base addr n) heq
        (by rw [h.basePath]; exact nodePath_ne_base)
      (by rw [h.basePath]; exact nodePath_ne_dir hname)
    exact (h.held n hold).frame (hfiles.1 (by simp)) rfl rfl le_rfl rfl (sameTicker n)

theorem Leased.fire (h : Leased base addr delay interval s)
    (hample : 0 < interval → (terms delay interval).Ample)
    (htk : s.ticker = some tk) (hlive : s.crashed = none) (hnow : tk.next ≤ s.now) :
    Leased base addr delay interval
      { s with ticker := some { tk with next := tk.next + s.r.updateInterval, waiting := true }
        } := by
  obtain ⟨hon, hround⟩ := h.round tk htk
  have ht := hample (h.started hon).1
  have hclock := h.clock hlive tk htk
  have hidle := hclock.idle ht hnow
  have hnext : tk.next + s.r.updateInterval = tk.next + (terms delay interval).period := by
    rw [h.updateInterval]
    rfl
  refine ⟨h.address, h.basePath, h.updateInterval, h.components, h.quiet,
    fun _ => ⟨(h.started hon).1, _, rfl⟩, ?_, ?_, ?_⟩
  · rintro tk' ⟨⟩
    exact ⟨hon, hround⟩
  · rintro - tk' ⟨⟩
    rw [hnext]
    exact (hclock.fire ht hnow).mono fun _ => rfl
  · intro n hn
    have hheld := h.held n hn
    refine ⟨hheld.stored, hheld.permanent, ?_, hheld.bounded⟩
    rintro - tk' ⟨⟩
    obtain ⟨e, he, hcovered⟩ := hheld.covered hlive tk htk
    have hdue : tk.due n = false := by
      by_contra hdue
      have hbusy := Ticker.busy_of_due (by simpa using hdue)
      exact absurd (hidle.symm.trans hbusy) (by decide)
    rw [hdue] at hcovered
    refine ⟨e, he, ?_⟩
    rw [hnext]
    exact hcovered.fire

theorem Leased.range (h : Leased base addr delay interval s) (htk : s.ticker = some tk)
    (hwaiting : tk.waiting = true) :
    Leased base addr delay interval
      { s with ticker := some { tk with waiting := false, round := s.r.services } } := by
  obtain ⟨hon, -⟩ := h.round tk htk
  refine ⟨h.address, h.basePath, h.updateInterval, h.components, h.quiet,
    fun _ => ⟨(h.started hon).1, _, rfl⟩, ?_, ?_, ?_⟩
  · rintro tk' ⟨⟩
    exact ⟨hon, fun n hn => hn⟩
  · rintro hlive tk' ⟨⟩
    exact (h.clock hlive tk htk).mono fun _ => by rw [Ticker.busy, hwaiting, Bool.true_or]
  · intro n hn
    refine (h.held n hn).frame (fun v => Iff.rfl) rfl rfl le_rfl rfl ?_
    rintro tk' ⟨⟩
    refine ⟨tk, htk, rfl, ?_⟩
    -- every service is due, before and after
    simp [Ticker.due, hwaiting, hn]

theorem Leased.tick (h : Leased base addr delay interval s) (haddr : Component addr)
    (hample : 0 < interval → (terms delay interval).Ample) {get answer : Option Error}
    {name : Bytes}
    {round : List Bytes} (htk : s.ticker = some tk) (hround : tk.round = name :: round)
    (hlive : s.crashed = none)
    (hmiss : s.puts env name get answer = false → s.missed name = some 0) :
    Leased base addr delay interval { s with
      store := tick env s.r s.store name get answer
      expiry := if s.puts env name get answer then s.lease (s.path name) (3 * s.r.updateInterval)
        else s.expiry
      missed := Function.update s.missed name
        (if s.puts env name get answer then some 0 else (s.missed name).map (· + 1))
      ticker := some { tk with round } } := by
  obtain ⟨hon, hservices⟩ := h.round tk htk
  have hpos := (h.started hon).1
  have ht := hample hpos
  have hclock := h.clock hlive tk htk
  have hname : name ∈ s.r.services := hservices name (hround ▸ List.mem_cons_self)
  have hpath := h.path_eq haddr (h.components name hname)
  obtain ⟨hother, hputs, hfails⟩ := tick_files env s name get answer
  refine ⟨h.address, h.basePath, h.updateInterval, h.components, h.quiet,
    fun _ => ⟨hpos, _, rfl⟩, ?_, ?_, ?_⟩
  · rintro tk' ⟨⟩
    exact ⟨hon, fun n hn => hservices n (hround ▸ List.mem_cons_of_mem _ hn)⟩
  · rintro - tk' ⟨⟩
    exact hclock.mono fun _ => by simp [Ticker.busy, hround]
  · intro n hn
    by_cases hne : n = name
    · subst hne
      cases hput : s.puts env n get answer with
      | true =>
        have hexpiry : s.lease (s.path n) (3 * s.r.updateInterval) (nodePath base addr n) =
            some (s.now + seconds (3 * interval)) := by
          rw [State.lease, hpath, Function.update_self, h.updateInterval, if_pos (by omega)]
        obtain ⟨v, hv⟩ := hputs hput
        rw [hpath] at hv
        refine ⟨fun _ => ⟨v, hv⟩, fun _ hzero => absurd hpos hzero, ?_,
          fun _ _ _ => ⟨_, hexpiry, ?_⟩⟩
        · rintro - tk' ⟨⟩
          refine ⟨_, hexpiry, ?_⟩
          show Covered _ _ _ (Function.update s.missed n (some 0) n) _
          rw [Function.update_self]
          exact covered_renew ht hclock
        · show _ ≤ s.crashed.getD s.now + _
          rw [hlive]
          exact le_rfl
      | false =>
        have hheld := h.held n hn
        rw [hfails hput]
        refine ⟨hheld.stored, hheld.permanent, ?_, hheld.bounded⟩
        rintro - tk' ⟨⟩
        obtain ⟨e, he, hcovered⟩ := hheld.covered hlive tk htk
        rw [hmiss hput] at hcovered
        refine ⟨e, he, ?_⟩
        show Covered _ _ _ (Function.update s.missed n ((s.missed n).map (· + 1)) n) _
        rw [Function.update_self, hmiss hput]
        exact hcovered.miss ht Nat.one_pos
    · have hpne : nodePath base addr n ≠ nodePath base addr name := nodePath_ne hne
      refine (h.held n hn).frame (hother _ (hpath ▸ hpne)) ?_ rfl le_rfl
        (Function.update_of_ne hne _ _) ?_
      · show (if _ then _ else s.expiry) (nodePath base addr n) = _
        split_ifs
        · rw [State.lease, hpath, Function.update_of_ne hpne]
        · rfl
      · rintro tk' ⟨⟩
        exact ⟨tk, htk, rfl, by simp [Ticker.due, hround, hne]⟩

theorem Leased.crash (h : Leased base addr delay interval s) (hlive : s.crashed = none) :
    Leased base addr delay interval { s with crashed := some s.now } := by
  refine ⟨h.address, h.basePath, h.updateInterval, h.components, h.quiet, h.started,
    h.round, ?_, ?_⟩
  · rintro ⟨⟩
  · intro n hn
    refine ⟨by rintro ⟨⟩, by rintro ⟨⟩, by rintro ⟨⟩, fun hpos v hv => ?_⟩
    have hbounded := (h.held n hn).bounded hpos v hv
    rw [hlive] at hbounded
    exact hbounded

theorem Leased.expire (h : Leased base addr delay interval s)
    (hample : 0 < interval → (terms delay interval).Ample) {t : ℤ} (ht : s.expiry p = some t)
    (hle : t ≤ s.now) :
    Leased base addr delay interval
      { s with store := s.store.erase p, expiry := Function.update s.expiry p none } := by
  refine ⟨h.address, h.basePath, h.updateInterval, h.components, h.quiet, h.started, h.round,
    h.clock, ?_⟩
  intro n hn
  by_cases hp : nodePath base addr n = p
  · subst hp
    have hdown : s.crashed ≠ none := by
      intro hlive
      have hlt := h.lt_expiry hample hlive hn ht
      omega
    refine ⟨fun hlive => absurd hlive hdown, fun hlive => absurd hlive hdown,
      fun hlive => absurd hlive hdown, fun _ v hv => ?_⟩
    rw [AList.lookup_erase] at hv
    cases hv
  · refine (h.held n hn).frame (fun v => ?_) (Function.update_of_ne hp _ _) rfl le_rfl rfl
      (sameTicker n)
    rw [AList.lookup_erase_ne hp]

theorem Leased.step (h : Leased base addr delay interval s) (haddr : Component addr)
    (hample : 0 < interval → (terms delay interval).Ample) (hok : Punctual env delay s l)
    (hstep : step env s l = some s') : Leased base addr delay interval s' := by
  cases effect_of_step hstep with
  | start hlive hidle heq => exact h.start hidle heq
  | registered hlive heq => exact h.registered haddr hample hlive hok.1 hok.2 heq
  | refused hlive heq => exact h.refused hok.1 heq
  | fire htk hlive hnow => exact h.fire hample htk hlive hnow
  | range htk hlive hwaiting hround => exact h.range htk hwaiting
  | tick htk hround hlive => exact h.tick haddr hample htk hround hlive (hok _ _ _ htk hround)
  | crash hlive => exact h.crash hlive
  | expire hfile ht hle => exact h.expire hample ht hle
  | other =>
    refine ⟨h.address, h.basePath, h.updateInterval, h.components, h.quiet, h.started, h.round,
      h.clock, ?_⟩
    intro n hn
    obtain ⟨hlookup, hexpiry⟩ := hok n hn
    rw [h.path_eq haddr (h.components n hn)] at hlookup hexpiry
    exact (h.held n hn).frame (fun v => by rw [hlookup]) hexpiry rfl le_rfl rfl (sameTicker n)
  | wait hle =>
    refine ⟨h.address, h.basePath, h.updateInterval, h.components, h.quiet, h.started,
      h.round, ?_, ?_⟩
    · intro hlive tk htk
      obtain ⟨hahead, hprompt⟩ := hok tk htk hlive
      rw [h.updateInterval] at hprompt
      exact ⟨(h.clock hlive tk htk).begun.trans hle, hahead, hprompt⟩
    · intro n hn
      exact (h.held n hn).frame (fun v => Iff.rfl) rfl rfl hle rfl (sameTicker n)

theorem leased_of_reach {store : Store} {expiry : List Bytes → Option ℤ} {start : ℤ}
    (haddr : Component addr) (hample : 0 < interval → (terms delay interval).Ample)
    (hreach : Reach (step env) (Punctual env delay)
      (begin base addr interval store expiry start) s) :
    Leased base addr delay interval s := by
  have hbegin : Leased base addr delay interval (begin base addr interval store expiry start) := by
    refine ⟨rfl, rfl, rfl, ?_, fun _ _ => rfl, ?_, ?_, ?_, ?_⟩
    · exact fun n hn => absurd hn List.not_mem_nil
    · rintro ⟨⟩
    · rintro tk ⟨⟩
    · rintro - tk ⟨⟩
    · exact fun n hn => absurd hn List.not_mem_nil
  exact hreach.invariant hbegin fun _ h hok hstep => h.step haddr hample hok hstep

theorem gone_of_reach {c : ℤ} (hreach : Reach (step env) (Punctual env delay) s s')
    (hc : s.crashed = some c) (hn : n ∈ s.r.services) (hgone : s.store.lookup (s.path n) = none) :
    s'.store.lookup (s.path n) = none := by
  have hrun : s'.crashed = some c ∧ s'.r = s.r ∧ s'.store.lookup (s.path n) = none := by
    refine hreach.invariant (P := fun s' => s'.crashed = some c ∧ s'.r = s.r ∧
      s'.store.lookup (s.path n) = none)
      ⟨hc, rfl, hgone⟩ ?_
    rintro t u l - ⟨hct, hrt, hgt⟩ hok hstep
    have hdown : t.crashed ≠ none := by simp [hct]
    cases effect_of_step hstep with
    | start hlive | registered hlive | refused hlive | crash hlive => exact absurd hlive hdown
    | fire _ hlive | range _ hlive => exact absurd hlive hdown
    | tick _ _ hlive => exact absurd hlive hdown
    | @expire q v e hfile ht hle =>
      have hne : s.path n ≠ q := by
        rintro rfl
        rw [hgt] at hfile
        cases hfile
      exact ⟨hct, hrt, (AList.lookup_erase_ne hne).trans hgt⟩
    | other =>
      have hsame := (hok n (hrt ▸ hn)).1
      unfold State.path at hsame
      rw [hrt] at hsame
      exact ⟨hct, hrt, hsame.trans hgt⟩
    | wait hle => exact ⟨hct, hrt, hgt⟩
  exact hrun.2.2

/-- What can be checked of `Punctual` where nobody else changes the store. -/
def punctual (env : Env) (delay : ℤ) (s : State) : Label → Bool
  | .register name _ _ _ _ _ =>
    decide (Component name ∧ (0 < s.r.updateInterval → s.r.ticking = true))
  | .tick get answer =>
    s.ticker.all fun tk => tk.round.head?.all fun name =>
      s.puts env name get answer || s.missed name == some 0
  | .other _ _ => false
  | .wait time =>
    s.crashed.isSome || s.ticker.all fun tk =>
      decide (time ≤ tk.next ∧ (tk.busy = true → time ≤ tk.next - s.r.updateInterval + delay))
  | _ => true

theorem punctual_of_check (s : State) (l : Label) (h : punctual env delay s l = true) :
    Punctual env delay s l := by
  cases l with
  | register => simpa only [punctual, Punctual, decide_eq_true_eq] using h
  | tick get answer =>
    intro tk name round htk hround hputs
    simpa [punctual, htk, hround, hputs] using h
  | other => cases h
  | wait time =>
    intro tk htk hlive
    simp only [punctual, hlive, htk, Option.isSome_none, Bool.false_or, Option.all_some] at h
    exact of_decide_eq_true h
  | _ => trivial

/-- A register with the base path `/b` and the address `1`, and an interval of ten seconds. -/
def tenSeconds : State := begin [47, 98] [49] 10000000000 ∅ (fun _ => none) 0

/-- The service `A` is registered, and ten seconds pass. -/
def firstRound : List Label :=
  [.start none none, .register [65] [109] none none none none, .wait 10000000000]

end Invariant

end Frpc.Registry.Leases
