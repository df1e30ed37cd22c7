import Frpc.Basic

/-! # Fail modes

`FailFastMod.Call` makes one call. `FailOverMod.Call` and `FailTryMod.Call` repeat it up to
`retries` times, with a client of another server or with a new connection to the same one. What
happens outside of the loop (the outcome of a call, the choice of the selector, the cache of
clients, dialling) may differ in every round, so a run of a loop is given by one `Round` for each of
its rounds; `selectClient` and `getCachedClient` are computed from it.

Both loops keep the error of a failed call and that of the following reselection in the same
variable. `retryLoop_ok` says what that comes to: a call that fails in all its attempts returns the
error of the last reselection. -/

namespace Frpc.Client.FailMod

open Frpc.Basic

/-- A `*Client` of the cache. -/
abbrev ClientId := ℕ

/-- What one round of a loop meets outside. -/
structure Round where
  /-- `CallDirect` -/
  callDirect : ClientId → Option Error
  /-- `Selector.Select` -/
  select : Bytes
  /-- `cachedClient[cname]`, and whether that client is closing or shut down. -/
  cached : Bytes → Option (ClientId × Bool)
  /-- `cachedClient[cname]` under the write lock. -/
  recheck : Bytes → Option ClientId
  /-- `Connect` of a new client. -/
  connect : Bytes → Except Error ClientId

/-- `Client.getCachedClient` -/
def getCachedClient (r : Round) (cname : Bytes) : Option ClientId × Option Error :=
  match r.cached cname with
  | some (client, false) => (some client, none)
  | _ =>
    match r.recheck cname with
    | some client => (some client, none)
    | none =>
      match r.connect cname with
      | .error err => (none, some err)
      | .ok client => (some client, none)

/-- `Client.selectClient` -/
def selectClient (r : Round) : Bytes × Option ClientId × Option Error :=
  if r.select = [] then ([], none, some .errClientNoServer)
    else (r.select, getCachedClient r r.select)

/-- What a fail mode does: the results of its calls of `CallDirect`, its calls of `removeClient`,
and the error it returns. -/
structure Outcome where
  attempts : List (Option Error)
  removed : List (Bytes × Option ClientId)
  err : Option Error
deriving DecidableEq

/-- `FailFastMod.Call`, which has no loop. -/
def failFastCall (r : Round) (client : ClientId) (cname : Bytes) : Outcome :=
  match r.callDirect client with
  | none => ⟨[none], [], none⟩
  | some (.serviceError text) => ⟨[some (.serviceError text)], [], some (.serviceError text)⟩
  | some err => ⟨[some err], [(cname, some client)], some err⟩

/-- The loop of both fail modes, from round `i` on with `retries` rounds left. In `reselect` they
differ. -/
def retryLoop (reselect : Round → Bytes → Bytes × Option ClientId × Option Error)
    (rounds : ℕ → Round) :
    (retries i : ℕ) → Bytes × Option ClientId × Option Error → Outcome
  | 0, _, (_, _, err) => ⟨[], [], err⟩
  | retries + 1, i, (cname, client, _) =>
    match client with
    | some c =>
      match (rounds i).callDirect c with
      | none => ⟨[none], [], none⟩
      | some e =>
        let o := retryLoop reselect rounds retries (i + 1) (reselect (rounds i) cname)
        ⟨some e :: o.attempts, (cname, client) :: o.removed, o.err⟩
    | none =>
      let o := retryLoop reselect rounds retries (i + 1) (reselect (rounds i) cname)
      ⟨o.attempts, (cname, client) :: o.removed, o.err⟩

/-- How `FailOverMod` goes on: with a client that the selector chooses. -/
def reselectOver (r : Round) (_ : Bytes) : Bytes × Option ClientId × Option Error := selectClient r

/-- How `FailTryMod` goes on: with a client of the same server. -/
def reselectTry (r : Round) (cname : Bytes) : Bytes × Option ClientId × Option Error :=
  (cname, getCachedClient r cname)

/-- `FailOverMod.Call` -/
def failOverCall (rounds : ℕ → Round) (client : Option ClientId) (cname : Bytes) (retries : ℤ) :
    Outcome :=
  retryLoop reselectOver rounds retries.toNat 0 (cname, client, none)

/-- `FailTryMod.Call` -/
def failTryCall (rounds : ℕ → Round) (client : Option ClientId) (cname : Bytes) (retries : ℤ) :
    Outcome :=
  retryLoop reselectTry rounds retries.toNat 0 (cname, client, none)

/-! ### The loop -/

section Loop

variable (reselect : Round → Bytes → Bytes × Option ClientId × Option Error) (rounds : ℕ → Round)
  (start : Bytes × Option ClientId × Option Error)

/-- The server, the client and the error that the reselections of the rounds before `k` have led
to. -/
def before : ℕ → Bytes × Option ClientId × Option Error
  | 0 => start
  | k + 1 => reselect (rounds k) (before k).1

/-- In round `k` there is a client, and its call succeeds. -/
def Succeeds (k : ℕ) : Prop :=
  ∃ c, (before reselect rounds start k).2.1 = some c ∧ (rounds k).callDirect c = none

/-- What the loop promises about rounds `i` to `i + n - 1`. -/
structure LoopOk (n i : ℕ) (o : Outcome) : Prop where
  length_le : o.attempts.length ≤ n
  stops : ∀ a ∈ o.attempts.dropLast, a ≠ none
  success : (∃ k < n, Succeeds reselect rounds start (i + k)) → none ∈ o.attempts ∧ o.err = none
  failure : (∀ k < n, ¬ Succeeds reselect rounds start (i + k)) →
    none ∉ o.attempts ∧ o.err = (before reselect rounds start (i + n)).2.2

variable {reselect rounds start}

theorem LoopOk.next {n i : ℕ} {o : Outcome} (h : LoopOk reselect rounds start n (i + 1) o)
    (hi : ¬ Succeeds reselect rounds start i) :
    ((∃ k < n + 1, Succeeds reselect rounds start (i + k)) → none ∈ o.attempts ∧ o.err = none) ∧
      ((∀ k < n + 1, ¬ Succeeds reselect rounds start (i + k)) →
        none ∉ o.attempts ∧ o.err = (before reselect rounds start (i + (n + 1))).2.2) := by
  constructor
  · rintro ⟨k, hk, hsucc⟩
    cases k with
    | zero => exact absurd hsucc hi
    | succ k => exact h.success ⟨k, by omega, by rwa [Nat.add_assoc, Nat.add_comm 1 k]⟩
  · intro hnone
    obtain ⟨h1, h2⟩ := h.failure fun k hk => by
      rw [Nat.add_assoc, Nat.add_comm 1 k]
      exact hnone (k + 1) (by omega)
    rw [Nat.add_assoc, Nat.add_comm 1 n] at h2
    exact ⟨h1, h2⟩

theorem dropLast_cons_ne {e : Error} {as : List (Option Error)} (h : ∀ a ∈ as.dropLast, a ≠ none) :
    ∀ a ∈ (some e :: as).dropLast, a ≠ none := by
  cases as with
  | nil => simp
  | cons a as =>
    intro b hb
    rw [List.dropLast_cons_cons] at hb
    rcases List.mem_cons.mp hb with rfl | hb
    · simp
    · exact h b hb

variable (reselect rounds start) in
/-- **The loop.** It ends with a successful call, or with the error of the last reselection. -/
theorem retryLoop_ok (n i : ℕ) : LoopOk reselect rounds start n i
    (retryLoop reselect rounds n i (before reselect rounds start i)) := by
  induction n generalizing i with
  | zero => exact ⟨by simp [retryLoop], by simp [retryLoop], by simp, by simp [retryLoop]⟩
  | succ n hn =>
    have ih : LoopOk reselect rounds start n (i + 1)
        (retryLoop reselect rounds n (i + 1)
          (reselect (rounds i) (before reselect rounds start i).1)) :=
      hn (i + 1)
    rcases hb : before reselect rounds start i with ⟨cname, client, err⟩
    rw [hb] at ih
    by_cases hi : Succeeds reselect rounds start i
    · obtain ⟨c, hc, hcall⟩ := hi
      rw [hb] at hc
      obtain rfl : client = some c := hc
      simp only [retryLoop, hcall]
      refine ⟨by simp, by simp, by simp, fun h => absurd ?_ (h 0 (by omega))⟩
      exact ⟨c, by simp [hb], hcall⟩
    · obtain ⟨hs, hf⟩ := ih.next hi
      rcases client with _ | c
      · exact ⟨Nat.le_succ_of_le ih.length_le, ih.stops, hs, hf⟩
      · rcases hcall : (rounds i).callDirect c with _ | e
        · exact absurd ⟨c, by rw [hb], hcall⟩ hi
        · simp only [retryLoop, hcall]
          refine ⟨?_, dropLast_cons_ne ih.stops, fun h => ?_, fun h => ?_⟩
          · simpa using ih.length_le
          · exact ⟨List.mem_cons_of_mem _ (hs h).1, (hs h).2⟩
          · exact ⟨by simpa using (hf h).1, (hf h).2⟩

end Loop

/-! ### The fail modes -/

/-- At most `retries` attempts, none after one that succeeds, and `nil` is returned exactly if one
succeeds. -/
def NoFalseSuccess (retries : ℤ) (o : Outcome) : Prop :=
  o.attempts.length ≤ retries.toNat ∧ (∀ a ∈ o.attempts.dropLast, a ≠ none) ∧
    (o.err = none ↔ none ∈ o.attempts)

/-- Some attempt succeeds, or the reselection of the last round fails. -/
def GoodEnd (reselect : Round → Bytes → Bytes × Option ClientId × Option Error) (rounds : ℕ → Round)
    (client : Option ClientId) (cname : Bytes) (retries : ℤ) : Prop :=
  (∃ k < retries.toNat, Succeeds reselect rounds (cname, client, none) k) ∨
    (before reselect rounds (cname, client, none) retries.toNat).2.2 ≠ none

theorem noFalseSuccess_iff (reselect : Round → Bytes → Bytes × Option ClientId × Option Error)
    (rounds : ℕ → Round) (client : Option ClientId) (cname : Bytes) (retries : ℤ) :
    NoFalseSuccess retries (retryLoop reselect rounds retries.toNat 0 (cname, client, none)) ↔
      GoodEnd reselect rounds client cname retries := by
  have hok := retryLoop_ok reselect rounds (cname, client, none) retries.toNat 0
  simp only [before] at hok
  by_cases hsucc : ∃ k < retries.toNat, Succeeds reselect rounds (cname, client, none) k
  · have hs := hok.success (by simpa using hsucc)
    exact ⟨fun _ => Or.inl hsucc, fun _ => ⟨hok.length_le, hok.stops, by simp [hs]⟩⟩
  · have hf := hok.failure (by simpa using hsucc)
    rw [Nat.zero_add] at hf
    constructor
    · rintro ⟨-, -, hiff⟩
      exact Or.inr fun hnone => hf.1 (hiff.mp (hf.2.trans hnone))
    · rintro (h | h)
      · exact absurd h hsucc
      · exact ⟨hok.length_le, hok.stops, by simp [hf, h]⟩

/-- **No false success.** `FailOverMod.Call` and `FailTryMod.Call` make at most `retries` attempts,
stop at the first that succeeds, and return `nil` if and only if one succeeds, exactly when one does
succeed or the last reselection fails. -/
theorem failMod_noFalseSuccess_iff (rounds : ℕ → Round) (client : Option ClientId) (cname : Bytes)
    (retries : ℤ) :
    (NoFalseSuccess retries (failOverCall rounds client cname retries) ↔
      GoodEnd reselectOver rounds client cname retries) ∧
    (NoFalseSuccess retries (failTryCall rounds client cname retries) ↔
      GoodEnd reselectTry rounds client cname retries) :=
  ⟨noFalseSuccess_iff _ _ _ _ _, noFalseSuccess_iff _ _ _ _ _⟩

/-- A server that accepts connections and fails every call. -/
def failingRound : Round where
  callDirect _ := some .errShutdown
  select := [115]
  cached _ := none
  recheck _ := none
  connect _ := .ok 1

/-- Three attempts fail and are followed by successful reselections: both fail modes return `nil`.
And so they do without any attempt if `retries` is `0`. -/
theorem failMod_false_success :
    (failOverCall (fun _ => failingRound) (some 0) [115] 3 =
      ⟨[some .errShutdown, some .errShutdown, some .errShutdown],
        [([115], some 0), ([115], some 1), ([115], some 1)], none⟩ ∧
      ¬ NoFalseSuccess 3 (failOverCall (fun _ => failingRound) (some 0) [115] 3)) ∧
    (failTryCall (fun _ => failingRound) (some 0) [115] 3 =
      ⟨[some .errShutdown, some .errShutdown, some .errShutdown],
        [([115], some 0), ([115], some 1), ([115], some 1)], none⟩ ∧
      ¬ NoFalseSuccess 3 (failTryCall (fun _ => failingRound) (some 0) [115] 3)) ∧
    failOverCall (fun _ => failingRound) (some 0) [115] 0 = ⟨[], [], none⟩ := by
  refine ⟨⟨rfl, fun h => ?_⟩, ⟨rfl, fun h => ?_⟩, rfl⟩
  · exact absurd (h.2.2.mp rfl) (by decide)
  · exact absurd (h.2.2.mp rfl) (by decide)

end Frpc.Client.FailMod
