import Frpc.Circuit.Breaker
import Frpc.Lib.Windows

/-! # The counts of a breaker

`window.go` of `rubyist/circuitbreaker`, which the threshold, consecutive and rate breakers of
`circuit` use. Failures and successes are counted in a ring of buckets. Whoever counts one moves on
to the next bucket when the current one is older than `bucketTime`, over as many buckets as the time
that has passed allows. A method of the window holds its lock, so each of them is one step here,
whichever goroutines call them.

With ten buckets of a second each, `Failures` counts every failure of the last nine seconds, and
none that is older than nineteen seconds (`window_counts`). -/

namespace Frpc.Circuit.Tallies

open Frpc.Lib.Runs Frpc.Lib.Windows Frpc.Circuit.Breaker

/-- `type bucket struct`. The counters are `int64` in the source. A `Fail` or a `Success` adds one to
one of them (`counted_le`), so they do not overflow before there were `2 ^ 63` of these. -/
structure Bucket where
  failure : ℕ
  success : ℕ
deriving DecidableEq

/-- `bucket.Reset` -/
def Bucket.reset (_ : Bucket) : Bucket := ⟨0, 0⟩

/-- `bucket.Fail` -/
def Bucket.fail (b : Bucket) : Bucket := { b with failure := b.failure + 1 }

/-- `bucket.Success` -/
def Bucket.succeed (b : Bucket) : Bucket := { b with success := b.success + 1 }

/-- `type window struct`. The ring is given by its buckets, from the current one on, against the
direction of `Next`. -/
structure Window where
  buckets : List Bucket
  bucketTime : ℤ
  lastAccess : ℤ

/-- `newWindow` -/
def newWindow (windowTime : ℤ) (windowBuckets : ℕ) (now : ℤ) : Window :=
  ⟨List.replicate windowBuckets ⟨0, 0⟩, windowTime / windowBuckets, now⟩

/-- `ring.Next` -/
def next (buckets : List Bucket) : List Bucket := buckets.getLast?.toList ++ buckets.dropLast

/-- A method of the current bucket. -/
def onCurrent (f : Bucket → Bucket) : List Bucket → List Bucket
  | [] => []
  | b :: buckets => f b :: buckets

/-- The loop of `getLatestBucket`, with `i` rounds left. -/
def resetBuckets (bucketTime : ℤ) : ℕ → ℤ → List Bucket → List Bucket
  | 0, _, buckets => buckets
  | i + 1, elapsed, buckets =>
    let buckets := onCurrent Bucket.reset (next buckets)
    let elapsed := elapsed - bucketTime
    if elapsed < bucketTime then buckets else resetBuckets bucketTime i elapsed buckets

/-- `getLatestBucket`. The clock is read at the beginning, and a second time when the buckets are
reset. -/
def getLatestBucket (w : Window) (now later : ℤ) : Window :=
  let elapsed := since w.lastAccess now
  if elapsed > w.bucketTime then
    { w with
      buckets := resetBuckets w.bucketTime w.buckets.length elapsed w.buckets
      lastAccess := later }
  else w

/-- `window.Fail` -/
def Window.fail (w : Window) (now later : ℤ) : Window :=
  let w := getLatestBucket w now later
  { w with buckets := onCurrent Bucket.fail w.buckets }

/-- `window.Success` -/
def Window.succeed (w : Window) (now later : ℤ) : Window :=
  let w := getLatestBucket w now later
  { w with buckets := onCurrent Bucket.succeed w.buckets }

/-- `window.Failures` -/
def Window.failures (w : Window) : ℕ := (w.buckets.map Bucket.failure).sum

/-- `window.Successes` -/
def Window.successes (w : Window) : ℕ := (w.buckets.map Bucket.success).sum

/-- `window.Reset` -/
def Window.reset (w : Window) : Window := { w with buckets := w.buckets.map Bucket.reset }

/-! ### What the buckets hold -/

/-- A failure or a success, and when it was counted. -/
structure Event where
  time : ℤ
  failed : Bool

/-- The bucket of the events in a cell. -/
def bucketOf (cell : List Event) : Bucket :=
  ⟨cell.countP Event.failed, cell.countP fun e => !e.failed⟩

/-- A window that can be used: it has buckets, and all of them together last less than the longest
duration. -/
structure Sized (w : Window) : Prop where
  buckets : 0 < w.buckets.length
  bucketTime : 0 < w.bucketTime
  range : (w.buckets.length + 1) * w.bucketTime ≤ maxDuration

/-- The buckets hold the `events` since the last `Reset`, except for those that were dropped. -/
def Tracks (δ : ℤ) (w : Window) (events : List Event) : Prop :=
  ∃ cells lost, Rolling Event.time w.buckets.length w.bucketTime δ w.lastAccess cells lost ∧
    w.buckets = cells.map bucketOf ∧ events.Perm (cells.flatten ++ lost)

variable {w : Window} {events : List Event} {δ now later : ℤ}

theorem reset_next {cells : List (List Event)} (hne : cells ≠ []) :
    onCurrent Bucket.reset (next (cells.map bucketOf)) = (advance [] cells).map bucketOf := by
  have hlast : (cells.map bucketOf).getLast? = some (bucketOf (cells.getLast hne)) := by
    rw [List.getLast?_map, List.getLast?_eq_getLast_of_ne_nil hne, Option.map_some]
  rw [next, hlast, advance, List.map_cons, List.map_dropLast]
  rfl

/-- The loop moves on by as many buckets as `bucketTime` fits into the time that has passed. -/
theorem resetBuckets_eq {bucketTime elapsed : ℤ} {n i : ℕ} {cells : List (List Event)}
    (hlen : cells.length = n) (hn : 0 < n) (hi : 0 < i) (hle : bucketTime ≤ elapsed) :
    ∃ k, 1 ≤ k ∧ k ≤ i ∧ k * bucketTime ≤ elapsed ∧ (elapsed < (k + 1) * bucketTime ∨ k = i) ∧
      resetBuckets bucketTime i elapsed (cells.map bucketOf) = (shift n k cells).map bucketOf := by
  induction i generalizing elapsed cells with
  | zero => exact absurd hi (Nat.lt_irrefl 0)
  | succ i ih =>
    have hne : cells ≠ [] := List.ne_nil_of_length_pos (hlen ▸ hn)
    have hone : advance [] cells = shift n 1 cells := by
      rw [shift_succ hlen hn, shift_zero hlen]
    rw [resetBuckets, reset_next hne]
    by_cases hdone : elapsed - bucketTime < bucketTime
    · rw [if_pos hdone, hone]
      exact ⟨1, le_rfl, by omega, by push_cast; omega, Or.inl (by push_cast; omega), rfl⟩
    · rw [if_neg hdone]
      cases i with
      | zero =>
        rw [hone]
        exact ⟨1, le_rfl, le_rfl, by push_cast; omega, Or.inr rfl, rfl⟩
      | succ i =>
        have hlen' : (advance [] cells).length = n := (length_advance [] hne).trans hlen
        have hle' : bucketTime ≤ elapsed - bucketTime := by omega
        obtain ⟨k, hk, hki, hpast, hsoon, heq⟩ := ih hlen' (Nat.succ_pos i) hle'
        refine ⟨k + 1, by omega, by omega, ?_, ?_, ?_⟩
        · push_cast
          nlinarith
        · rcases hsoon with hsoon | rfl
          · refine Or.inl ?_
            push_cast
            nlinarith
          · exact Or.inr rfl
        · rw [heq, shift_advance hlen hn]

/-- **What an access does.** The same events are tracked, and the clock is within the current
bucket. -/
theorem Tracks.access (h : Tracks δ w events) (hsize : Sized w) (hpast : w.lastAccess ≤ now)
    (hle : now ≤ later) (hprompt : later ≤ now + δ) :
    Tracks δ (getLatestBucket w now later) events ∧
      (getLatestBucket w now later).buckets.length = w.buckets.length ∧
      (getLatestBucket w now later).bucketTime = w.bucketTime ∧
      (getLatestBucket w now later).lastAccess - δ ≤ now ∧
      now ≤ (getLatestBucket w now later).lastAccess + w.bucketTime ∧
      (getLatestBucket w now later).lastAccess ≤ later := by
  obtain ⟨cells, lost, hroll, hbuckets, hevents⟩ := h
  have hn := hsize.buckets
  have hw := hsize.bucketTime
  have hrange := hsize.range
  unfold getLatestBucket
  dsimp only
  split_ifs with helapsed
  · have hmin : since w.lastAccess now ≤ now - w.lastAccess ∧
        (since w.lastAccess now = now - w.lastAccess ∨ since w.lastAccess now = maxDuration) := by
      unfold since minDuration
      unfold maxDuration at *
      omega
    have hfirst : w.bucketTime ≤ since w.lastAccess now := helapsed.le
    obtain ⟨k, hk, hkn, hfit, hsoon, heq⟩ := resetBuckets_eq hroll.length hn hn hfirst
    rw [← hbuckets] at heq
    have hlen : (resetBuckets w.bucketTime w.buckets.length
        (since w.lastAccess now) w.buckets).length =
        w.buckets.length := by
      rw [heq, List.length_map, shift, List.length_take, List.length_append, hroll.length]
      omega
    have hsoon' : later ≤ w.lastAccess + (k + 1) * w.bucketTime + δ ∨ k = w.buckets.length := by
      rcases hsoon with hsoon | hall
      · left
        rcases hmin.2 with hexact | hmax
        · omega
        · -- the duration is not the longest one
          exfalso
          have hk' : (k : ℤ) ≤ w.buckets.length := by exact_mod_cast hkn
          nlinarith
      · exact Or.inr hall
    refine ⟨⟨shift w.buckets.length k cells, lost ++ (cells.drop (w.buckets.length - k)).flatten,
      ?_, heq, ?_⟩,
      hlen, rfl, by show later - δ ≤ now; omega, by show now ≤ later + w.bucketTime; omega, le_rfl⟩
    · show Rolling Event.time (List.length (resetBuckets _ _ _ _)) w.bucketTime δ later _ _
      rw [hlen]
      exact hroll.shift hw.le (by omega) hk hkn (by omega) hsoon'
    · refine hevents.trans ?_
      refine ((perm_shift w.buckets.length k cells).symm.append_right lost).trans ?_
      rw [List.append_assoc]
      exact List.perm_append_comm.append_left _
  · refine ⟨⟨cells, lost, hroll, hbuckets, hevents⟩, rfl, rfl, by omega, ?_, hpast.trans hle⟩
    have htwo : 2 * w.bucketTime ≤ maxDuration := by nlinarith
    unfold since minDuration at helapsed
    unfold maxDuration at *
    omega

theorem Tracks.record {e : Event} {f : Bucket → Bucket} (h : Tracks δ w events) (hsize : Sized w)
    (hf : ∀ cell, f (bucketOf cell) = bucketOf (e :: cell)) (hlow : w.lastAccess - δ ≤ e.time)
    (hhigh : e.time ≤ w.lastAccess + w.bucketTime) :
    Tracks δ { w with buckets := onCurrent f w.buckets } (e :: events) := by
  obtain ⟨cells, lost, hroll, hbuckets, hevents⟩ := h
  obtain ⟨cell, rest, rfl⟩ : ∃ cell rest, cells = cell :: rest :=
    List.exists_cons_of_length_pos (hroll.length ▸ hsize.buckets)
  have hcurrent : onCurrent f w.buckets = ((e :: cell) :: rest).map bucketOf := by
    rw [hbuckets, List.map_cons, List.map_cons, onCurrent, hf]
  refine ⟨(e :: cell) :: rest, lost, ?_, hcurrent, hevents.cons e⟩
  have hlen : (onCurrent f w.buckets).length = w.buckets.length := by
    rw [hcurrent, hbuckets, List.length_map, List.length_map]
    rfl
  show Rolling Event.time (onCurrent f w.buckets).length w.bucketTime δ w.lastAccess _ _
  rw [hlen]
  exact hroll.record rfl hlow hhigh

/-- The size of a window does not change. -/
def SameSize (w w' : Window) : Prop :=
  w'.buckets.length = w.buckets.length ∧ w'.bucketTime = w.bucketTime

theorem Sized.of_same {w' : Window} (h : Sized w) (hsame : SameSize w w') : Sized w' :=
  ⟨hsame.1 ▸ h.buckets, hsame.2 ▸ h.bucketTime, by rw [hsame.1, hsame.2]; exact h.range⟩

theorem Tracks.count {e : Event} {f : Bucket → Bucket} (h : Tracks δ w events) (hsize : Sized w)
    (hf : ∀ cell, f (bucketOf cell) = bucketOf (e :: cell)) (hpast : w.lastAccess ≤ e.time)
    (hle : e.time ≤ later) (hprompt : later ≤ e.time + δ) {w' : Window}
    (hw' : w' = { getLatestBucket w e.time later with
      buckets := onCurrent f (getLatestBucket w e.time later).buckets }) :
    Tracks δ w' (e :: events) ∧ SameSize w w' ∧ e.time ≤ w'.lastAccess + w'.bucketTime ∧
      w'.lastAccess ≤ later := by
  obtain ⟨htracks, hlen, htime, hlow, hhigh, hlast⟩ := h.access hsize hpast hle hprompt
  have hsame : SameSize w (getLatestBucket w e.time later) := ⟨hlen, htime⟩
  have hlen' : ∀ buckets, (onCurrent f buckets).length = buckets.length := by
    intro buckets
    cases buckets <;> rfl
  subst hw'
  rw [← htime] at hhigh
  exact ⟨htracks.record (hsize.of_same hsame) hf hlow hhigh, ⟨(hlen' _).trans hlen, htime⟩,
    hhigh, hlast⟩

theorem bucketOf_fail (t : ℤ) (cell : List Event) :
    Bucket.fail (bucketOf cell) = bucketOf (⟨t, true⟩ :: cell) := by
  simp [bucketOf, Bucket.fail]

theorem bucketOf_succeed (t : ℤ) (cell : List Event) :
    Bucket.succeed (bucketOf cell) = bucketOf (⟨t, false⟩ :: cell) := by
  simp [bucketOf, Bucket.succeed]

theorem tracks_reset (w : Window) : Tracks δ w.reset [] := by
  have hlen : w.reset.buckets.length = w.buckets.length := List.length_map ..
  refine ⟨List.replicate w.buckets.length [], [], ?_, ?_, by simp⟩
  · rw [hlen]
    exact rolling_empty rfl
  · rw [List.map_replicate]
    exact List.map_const' ..

theorem tracks_new (windowTime : ℤ) (n : ℕ) : Tracks δ (newWindow windowTime n now) [] := by
  refine ⟨List.replicate n [], [], ?_, ?_, by simp⟩
  · rw [show (newWindow windowTime n now).buckets.length = n from List.length_replicate]
    exact rolling_empty rfl
  · rw [List.map_replicate]
    rfl

theorem Tracks.failures_eq {cells : List (List Event)} (hbuckets : w.buckets = cells.map bucketOf) :
    w.failures = cells.flatten.countP Event.failed := by
  rw [Window.failures, hbuckets, List.map_map, List.countP_flatten]
  rfl

/-! ### Sums over the buckets

An access drops some of what was counted, and `Fail` and `Success` add one. -/

section Sums

variable {m : Bucket → ℕ}

theorem sum_next_le (hm : m ⟨0, 0⟩ = 0) (buckets : List Bucket) :
    ((onCurrent Bucket.reset (next buckets)).map m).sum ≤ (buckets.map m).sum := by
  rcases List.eq_nil_or_concat buckets with rfl | ⟨rest, b, rfl⟩
  · exact le_rfl
  · rw [List.concat_eq_append, next, List.getLast?_concat, List.dropLast_concat, List.map_append,
      List.sum_append]
    show (m ⟨0, 0⟩ :: rest.map m).sum ≤ _
    rw [List.sum_cons, hm]
    omega

theorem sum_resetBuckets_le (hm : m ⟨0, 0⟩ = 0) (bucketTime : ℤ) (i : ℕ) (elapsed : ℤ)
    (buckets : List Bucket) :
    ((resetBuckets bucketTime i elapsed buckets).map m).sum ≤ (buckets.map m).sum := by
  induction i generalizing elapsed buckets with
  | zero => exact le_rfl
  | succ i ih =>
    rw [resetBuckets]
    split_ifs with hdone
    · exact sum_next_le hm buckets
    · exact (ih _ _).trans (sum_next_le hm buckets)

theorem sum_getLatestBucket_le (hm : m ⟨0, 0⟩ = 0) (w : Window) (now later : ℤ) :
    ((getLatestBucket w now later).buckets.map m).sum ≤ (w.buckets.map m).sum := by
  unfold getLatestBucket
  dsimp only
  split_ifs with helapsed
  · exact sum_resetBuckets_le hm _ _ _ _
  · exact le_rfl

theorem sum_onCurrent_le {f : Bucket → Bucket} {k : ℕ} (hf : ∀ b, m (f b) ≤ m b + k)
    (buckets : List Bucket) : ((onCurrent f buckets).map m).sum ≤ (buckets.map m).sum + k := by
  cases buckets with
  | nil => exact Nat.zero_le _
  | cons b rest =>
    have hb := hf b
    simp only [onCurrent, List.map_cons, List.sum_cons]
    omega

end Sums

theorem failures_fail_le (w : Window) (now later : ℤ) :
    (w.fail now later).failures ≤ w.failures + 1 := by
  have hadd : (w.fail now later).failures ≤ (getLatestBucket w now later).failures + 1 :=
    sum_onCurrent_le (fun _ => le_rfl) _
  have haccess : (getLatestBucket w now later).failures ≤ w.failures :=
    sum_getLatestBucket_le rfl w now later
  omega

theorem failures_fail_pos (h : 0 < (w.fail now later).buckets.length) :
    0 < (w.fail now later).failures := by
  unfold Window.fail Window.failures at *
  dsimp only at *
  generalize (getLatestBucket w now later).buckets = buckets at h ⊢
  cases buckets with
  | nil => exact absurd h (Nat.lt_irrefl 0)
  | cons b rest => simp [onCurrent, Bucket.fail]

theorem failures_succeed_le (w : Window) (now later : ℤ) :
    (w.succeed now later).failures ≤ w.failures := by
  have hsame : (w.succeed now later).failures ≤ (getLatestBucket w now later).failures + 0 :=
    sum_onCurrent_le (fun _ => le_rfl) _
  exact hsame.trans (sum_getLatestBucket_le rfl w now later)

theorem counted_eq (w : Window) :
    w.failures + w.successes = (w.buckets.map fun b => b.failure + b.success).sum :=
  List.sum_map_add.symm

/-- `Fail` and `Success` add one to what is counted in all. -/
theorem counted_le {f : Bucket → Bucket} (hf : f = Bucket.fail ∨ f = Bucket.succeed) (w : Window)
    (now later : ℤ) {w' : Window} (hw' : w' = { getLatestBucket w now later with
      buckets := onCurrent f (getLatestBucket w now later).buckets }) :
    w'.failures + w'.successes ≤ w.failures + w.successes + 1 := by
  have hone : ∀ b, (f b).failure + (f b).success ≤ b.failure + b.success + 1 := by
    rcases hf with rfl | rfl <;> intro b <;> simp only [Bucket.fail, Bucket.succeed] <;> omega
  rw [counted_eq, counted_eq, hw']
  exact (sum_onCurrent_le hone _).trans (Nat.add_le_add_right (sum_getLatestBucket_le rfl w now later) 1)

theorem counted_reset (w : Window) : w.reset.failures + w.reset.successes = 0 := by
  rw [counted_eq, Window.reset, List.map_map]
  exact List.sum_eq_zero (by simp [Bucket.reset])

/-- The failures later than `x`. -/
def failuresAfter (x : ℤ) (events : List Event) : ℕ :=
  events.countP fun e => e.failed && decide (x < e.time)

/-- The failures at `x` or later. -/
def failuresFrom (x : ℤ) (events : List Event) : ℕ :=
  events.countP fun e => e.failed && decide (x ≤ e.time)

theorem Tracks.bounds (h : Tracks δ w events) (hsize : Sized w) (hδ : 0 ≤ δ) :
    (∀ x, w.lastAccess - (w.buckets.length - 1) * w.bucketTime ≤ x →
      failuresAfter x events ≤ w.failures) ∧
    ∀ x, x ≤ w.lastAccess - δ - (w.buckets.length - 1) * (2 * w.bucketTime + δ) →
      w.failures ≤ failuresFrom x events := by
  obtain ⟨cells, lost, hroll, hbuckets, hevents⟩ := h
  rw [Tracks.failures_eq hbuckets]
  refine ⟨fun x hx => hroll.countP_le Event.failed hevents ?_, fun x hx =>
    hroll.countP_flatten_le Event.failed hevents hsize.bucketTime.le hδ hx⟩
  nlinarith

/-! ### Runs -/

/-- A window, the events since its last `Reset`, and the clock. -/
structure History where
  window : Window
  events : List Event
  now : ℤ

/-- The methods of a window, and what they read from the clock. -/
inductive Label where
  | fail (now later : ℤ)
  | succeed (now later : ℤ)
  | reset

/-- A method is called. The clock does not go back. -/
def step (h : History) : Label → Option History
  | .fail now later =>
    if h.now ≤ now ∧ now ≤ later then some ⟨h.window.fail now later, ⟨now, true⟩ :: h.events, later⟩
      else none
  | .succeed now later =>
    if h.now ≤ now ∧ now ≤ later
      then some ⟨h.window.succeed now later, ⟨now, false⟩ :: h.events, later⟩ else none
  | .reset => some ⟨h.window.reset, [], h.now⟩

/-- A new window. -/
def begin (windowTime : ℤ) (windowBuckets : ℕ) (now : ℤ) : History :=
  ⟨newWindow windowTime windowBuckets now, [], now⟩

/-- At most `δ` passes between two readings of the clock in one method. -/
def Prompt (δ : ℤ) (_ : History) : Label → Prop
  | .fail now later => later ≤ now + δ
  | .succeed now later => later ≤ now + δ
  | .reset => True

/-- What holds of a window of `n` buckets. -/
structure Sound (n : ℕ) (bucketTime δ : ℤ) (h : History) : Prop where
  length : h.window.buckets.length = n
  time : h.window.bucketTime = bucketTime
  sized : Sized h.window
  tracks : Tracks δ h.window h.events
  past : h.window.lastAccess ≤ h.now
  near : h.now ≤ h.window.lastAccess + bucketTime + δ

theorem Sound.step {n : ℕ} {bucketTime : ℤ} {h h' : History} {l : Label}
    (hs : Sound n bucketTime δ h)
    (hprompt : Prompt δ h l) (hstep : step h l = some h') : Sound n bucketTime δ h' := by
  have hcount : ∀ {e : Event} {f : Bucket → Bucket} {later : ℤ} {w' : Window},
      (∀ cell, f (bucketOf cell) = bucketOf (e :: cell)) → h.now ≤ e.time ∧ e.time ≤ later →
      later ≤ e.time + δ → w' = { getLatestBucket h.window e.time later with
        buckets := onCurrent f (getLatestBucket h.window e.time later).buckets } →
      Sound n bucketTime δ ⟨w', e :: h.events, later⟩ := by
    intro e f later w' hf hclock hprompt hw'
    obtain ⟨htracks, hsame, hnear, hpast⟩ :=
      hs.tracks.count hs.sized hf (hs.past.trans hclock.1) hclock.2 hprompt hw'
    rw [hsame.2, hs.time] at hnear
    exact ⟨hsame.1.trans hs.length, hsame.2.trans hs.time, hs.sized.of_same hsame, htracks, hpast,
      by show later ≤ w'.lastAccess + bucketTime + δ; omega⟩
  cases l with
  | fail now later =>
    simp only [Tallies.step, Option.ite_none_right_eq_some, Option.some.injEq] at hstep
    obtain ⟨hclock, rfl⟩ := hstep
    exact hcount (bucketOf_fail now) hclock hprompt rfl
  | succeed now later =>
    simp only [Tallies.step, Option.ite_none_right_eq_some, Option.some.injEq] at hstep
    obtain ⟨hclock, rfl⟩ := hstep
    exact hcount (bucketOf_succeed now) hclock hprompt rfl
  | reset =>
    cases hstep
    have hsame : SameSize h.window h.window.reset := ⟨List.length_map .., rfl⟩
    exact ⟨hsame.1.trans hs.length, hs.time, hs.sized.of_same hsame, tracks_reset _,
      hs.past, hs.near⟩

theorem sound_of_reach {windowTime start : ℤ} {n : ℕ} {h : History} (hn : 0 < n)
    (htime : 0 < windowTime / n) (hrange : (n + 1) * (windowTime / n) ≤ maxDuration) (hδ : 0 ≤ δ)
    (hreach : Reach step (Prompt δ) (begin windowTime n start) h) :
    Sound n (windowTime / n) δ h := by
  have hlen : (newWindow windowTime n start).buckets.length = n := List.length_replicate
  refine hreach.invariant
    ⟨hlen, rfl, ⟨hlen.symm ▸ hn, htime, ?_⟩, tracks_new windowTime n, le_rfl, ?_⟩
    fun _ hs hprompt hstep => hs.step hprompt hstep
  · show ((newWindow windowTime n start).buckets.length + 1) * (windowTime / n) ≤ maxDuration
    rw [hlen]
    exact hrange
  · show start ≤ start + windowTime / n + δ
    omega

theorem Sound.bounds {n : ℕ} {bucketTime : ℤ} {h : History} (hs : Sound n bucketTime δ h)
    (hδ : 0 ≤ δ) :
    (∀ x, h.now - (n - 1) * bucketTime ≤ x → failuresAfter x h.events ≤ h.window.failures) ∧
    ∀ x, x ≤ h.now - (2 * n - 1) * bucketTime - (n + 1) * δ →
      h.window.failures ≤ failuresFrom x h.events := by
  obtain ⟨hlower, hupper⟩ := hs.tracks.bounds hs.sized hδ
  rw [hs.length, hs.time] at hlower hupper
  have hpast := hs.past
  have hnear := hs.near
  refine ⟨fun x hx => hlower x (by omega), fun x hx => hupper x ?_⟩
  nlinarith

/-- **The window.** Whatever the goroutines do with it, with `n` buckets of `windowTime / n` each,
and `δ` between two readings of the clock in one method: `Failures` counts every failure of the time
of `n - 1` buckets before the last access, and none that is more than the time of `2 * n - 1`
buckets (and `n + 1` times `δ`) older than it. -/
theorem window_counts {windowTime start : ℤ} {n : ℕ} {h : History} (hn : 0 < n)
    (htime : 0 < windowTime / n) (hrange : (n + 1) * (windowTime / n) ≤ maxDuration) (hδ : 0 ≤ δ)
    (hreach : Reach step (Prompt δ) (begin windowTime n start) h) :
    failuresAfter (h.now - (n - 1) * (windowTime / n)) h.events ≤ h.window.failures ∧
      h.window.failures ≤ failuresFrom (h.now - (2 * n - 1) * (windowTime / n) - (n + 1) * δ)
        h.events := by
  obtain ⟨hlower, hupper⟩ := (sound_of_reach hn htime hrange hδ hreach).bounds hδ
  exact ⟨hlower _ le_rfl, hupper _ le_rfl⟩

/-- The window of the breakers: ten buckets of a second. A failure of nine seconds ago is counted,
one of eighteen seconds ago is not. -/
theorem window_counts_ten :
    ∃ h, Reach step (Prompt 0) (begin 10000000000 10 0) h ∧ h.events.length = 3 ∧
      h.window.failures = 2 ∧
      failuresAfter (18000000000 - 9 * 1000000000) h.events ≤ h.window.failures := by
  have hrun : Reach step (Prompt 0) (begin 10000000000 10 0) _ :=
    reach_of_labels [.fail 0 0, .fail 9000000000 9000000000, .fail 18000000000 18000000000]
      (by
        intro u l hl
        simp only [List.mem_cons, List.not_mem_nil, or_false] at hl
        rcases hl with rfl | rfl | rfl <;> exact le_rfl) rfl
  exact ⟨_, hrun, rfl, by decide, (window_counts (by decide) (by decide) (by decide) le_rfl hrun).1⟩

end Frpc.Circuit.Tallies
