import Frpc.Basic
import Frpc.Lib.Floats
import Frpc.Lib.Slices

/-! # Consistent hashing

`selector/hash.go`. `Hash` is the jump hash: it draws a sequence of larger and larger buckets and
returns the last one below the number of buckets. The loop computes with floating-point numbers, so
its model has a rounding as a parameter, and fuel. `hash_spec`: the fuel suffices and the bucket is
in range. -/

namespace Frpc.Selectors.Hash

open Frpc.Basic Frpc.Lib.Floats Frpc.Lib.Slices

/-- The next bucket:
`int64(float64(b+1) * (float64(int64(1)<<31) / float64((key>>33)+1)))`. -/
def jump (r : Rounding) (b : ℤ) (key : UInt64) : ℤ :=
  ⌊r.round (((b + 1 : ℤ) : ℚ) * r.round (2 ^ 31 / ((key >>> 33).toNat + 1)))⌋

/-- The loop of `Hash`. -/
def hashLoop (r : Rounding) (buckets : ℤ) : ℕ → UInt64 → ℤ → ℤ → Except Fault ℤ
  | 0, _, b, j => if j < buckets then .error .fuel else .ok b
  | fuel + 1, key, b, j =>
    if j < buckets then
      let key := key * 2862933555777941757 + 1
      hashLoop r buckets fuel key j (jump r j key)
    else .ok b

/-- `Hash` -/
def hash (r : Rounding) (key : UInt64) (buckets : ℤ) : Except Fault ℤ :=
  let buckets := if buckets ≤ 0 then 1 else buckets
  hashLoop r buckets buckets.toNat key 0 0

/-- `HashString`, which is the 64-bit FNV-1a hash. -/
def hashString (s : Bytes) : UInt64 :=
  s.foldl (fun h b => (h ^^^ b.toUInt64) * 1099511628211) 14695981039346656037

/-- The value of an `int32` that is made from `n`. -/
def int32 (n : ℕ) : ℤ := (n : ℤ).bmod (2 ^ 32)

/-- `JumpConsistentHash`, with what `toString` makes of the options. -/
def jumpConsistentHash (r : Rounding) (len : ℕ) (options : List Bytes) : Except Fault ℤ :=
  let keyString := options.foldl (fun keyString opt => keyString ++ str "/" ++ opt) []
  hash r (hashString keyString) (int32 len)

/-! ### The loop -/

theorem lt_jump (r : Rounding) {b : ℤ} (hb : 0 ≤ b) (hb' : b < 2 ^ 31) (key : UInt64) :
    b < jump r b key := by
  have hkey : (key >>> 33).toNat + 1 ≤ 2 ^ 31 := by
    have hlt := key.toNat_lt
    have hshift : (33 : UInt64).toNat % 64 = 33 := rfl
    rw [UInt64.toNat_shiftRight, hshift, Nat.shiftRight_eq_div_pow]
    omega
  have hone : (1 : ℚ) ≤ 2 ^ 31 / ((key >>> 33).toNat + 1) := by
    rw [le_div_iff₀ (by positivity), one_mul]
    exact_mod_cast hkey
  have hle := r.le_round_mul (n := b + 1) (by omega) (by omega) hone
  have hfloor : b + 1 ≤ jump r b key := Int.le_floor.mpr hle
  omega

theorem hashLoop_spec (r : Rounding) (buckets : ℤ) (hmax : buckets < 2 ^ 31) (fuel : ℕ)
    (key : UInt64)
    (b j : ℤ) (hb : 0 ≤ b) (hlt : b < buckets) (hj : 0 ≤ j) (hfuel : buckets ≤ j + fuel) :
    ∃ i, hashLoop r buckets fuel key b j = .ok i ∧ 0 ≤ i ∧ i < buckets := by
  induction fuel generalizing key b j with
  | zero => exact ⟨b, if_neg (by omega), hb, hlt⟩
  | succ fuel ih =>
    unfold hashLoop
    split_ifs with hjb
    · have hgrow := lt_jump r hj (by omega) (key * 2862933555777941757 + 1)
      exact ih _ j _ hj hjb (by omega) (by omega)
    · exact ⟨b, rfl, hb, hlt⟩

/-- **`Hash` returns a bucket in range.** -/
theorem hash_spec (r : Rounding) (key : UInt64) {buckets : ℤ} (hmax : buckets < 2 ^ 31) :
    ∃ i, hash r key buckets = .ok i ∧ 0 ≤ i ∧ i < max 1 buckets := by
  unfold hash
  dsimp only
  split_ifs with hle
  · obtain ⟨i, hi, h0, hlt⟩ := hashLoop_spec r 1 (by norm_num) 1 key 0 0
      le_rfl (by norm_num) le_rfl (by norm_num)
    exact ⟨i, hi, h0, by omega⟩
  · obtain ⟨i, hi, h0, hlt⟩ := hashLoop_spec r buckets hmax buckets.toNat key 0 0
      le_rfl (by omega) le_rfl (by omega)
    exact ⟨i, hi, h0, by omega⟩

/-! ### One more bucket -/

section Grow

variable {r : Rounding} {key : UInt64} {buckets b j : ℤ}

theorem hashLoop_done (fuel : ℕ) (hj : buckets ≤ j) : hashLoop r buckets fuel key b j = .ok b := by
  cases fuel <;> exact if_neg (not_lt.mpr hj)

theorem hashLoop_next (fuel : ℕ) (hj : j < buckets) :
    hashLoop r buckets (fuel + 1) key b j =
      hashLoop r buckets fuel (key * 2862933555777941757 + 1) j
        (jump r j (key * 2862933555777941757 + 1)) :=
  if_pos hj

/-- The fuel does not matter, as long as there is enough of it. -/
theorem hashLoop_fuel (hmax : buckets < 2 ^ 31) (fuel fuel' : ℕ) (hj : 0 ≤ j)
    (hfuel : buckets ≤ j + fuel) (hfuel' : buckets ≤ j + fuel') :
    hashLoop r buckets fuel key b j = hashLoop r buckets fuel' key b j := by
  induction fuel generalizing key b j fuel' with
  | zero => rw [hashLoop_done 0 (by omega), hashLoop_done fuel' (by omega)]
  | succ fuel ih =>
    by_cases hjb : j < buckets
    · obtain ⟨fuel'', rfl⟩ := Nat.exists_eq_succ_of_ne_zero (n := fuel') (by omega)
      have hgrow := lt_jump r hj (by omega) (key * 2862933555777941757 + 1)
      rw [hashLoop_next fuel hjb, hashLoop_next fuel'' hjb]
      exact ih fuel'' (by omega) (by omega) (by omega)
    · rw [hashLoop_done _ (not_lt.mp hjb), hashLoop_done _ (not_lt.mp hjb)]

/-- The bucket is the new one: the loop stops there if there is one more. -/
theorem hashLoop_new (hmax : buckets < 2 ^ 31) (hb : 0 ≤ buckets) (fuel : ℕ) :
    hashLoop r (buckets + 1) (fuel + 1) key b buckets = .ok buckets := by
  have hgrow := lt_jump r hb hmax (key * 2862933555777941757 + 1)
  rw [hashLoop_next fuel (by omega), hashLoop_done fuel (by omega)]

/-- Two runs of the loop on the same sequence of buckets, one of them with one bucket more. They
stop at the same bucket, unless the sequence meets the new one. -/
theorem hashLoop_grow (hmax : buckets + 1 < 2 ^ 31) (fuel : ℕ) (hj : 0 ≤ j)
    (hfuel : buckets ≤ j + fuel) :
    hashLoop r (buckets + 1) (fuel + 1) key b j = hashLoop r buckets fuel key b j ∨
      hashLoop r (buckets + 1) (fuel + 1) key b j = .ok buckets := by
  induction fuel generalizing key b j with
  | zero =>
    rcases eq_or_lt_of_le (show buckets ≤ j by omega) with rfl | hlt
    · exact Or.inr (hashLoop_new (by omega) hj 0)
    · left
      rw [hashLoop_done 1 (by omega), hashLoop_done 0 (by omega)]
  | succ fuel ih =>
    rcases lt_trichotomy j buckets with hlt | rfl | hgt
    · have hgrow := lt_jump r hj (by omega) (key * 2862933555777941757 + 1)
      rw [hashLoop_next (fuel + 1) (by omega), hashLoop_next fuel hlt]
      exact ih (by omega) (by omega)
    · exact Or.inr (hashLoop_new (by omega) hj (fuel + 1))
    · left
      rw [hashLoop_done _ (by omega), hashLoop_done _ (by omega)]

end Grow

/-- **Jump hash.** For every key and every number of buckets the loop terminates with a bucket in
range, and one more bucket moves a key nowhere but into the new bucket. -/
theorem hash_consistent (r : Rounding) (key : UInt64) {n : ℤ} (hn : 1 ≤ n) (hmax : n < 2 ^ 31 - 1) :
    ∃ i i', hash r key n = .ok i ∧ 0 ≤ i ∧ i < n ∧
      (∀ fuel : ℕ, n ≤ fuel → hashLoop r n fuel key 0 0 = .ok i) ∧
      hash r key (n + 1) = .ok i' ∧ (i' = i ∨ i' = n) := by
  obtain ⟨i, hi, h0, hlt⟩ := hash_spec r key (show n < 2 ^ 31 by omega)
  obtain ⟨i', hi', -, -⟩ := hash_spec r key (show n + 1 < 2 ^ 31 by omega)
  have hloop : hash r key n = hashLoop r n n.toNat key 0 0 := by
    unfold hash
    rw [if_neg (by omega)]
  have hloop' : hash r key (n + 1) = hashLoop r (n + 1) (n.toNat + 1) key 0 0 := by
    have hfuel : (n + 1).toNat = n.toNat + 1 := by omega
    rw [← hfuel, hash, if_neg (by omega)]
  refine ⟨i, i', hi, h0, by omega, fun fuel hfuel => ?_, hi', ?_⟩
  · rw [← hi, hloop]
    exact hashLoop_fuel (by omega) _ _ le_rfl (by omega) (by omega)
  · have hgrow : hashLoop r (n + 1) (n.toNat + 1) key 0 0 = hashLoop r n n.toNat key 0 0 ∨
        hashLoop r (n + 1) (n.toNat + 1) key 0 0 = .ok n :=
      hashLoop_grow (by omega) n.toNat le_rfl (by omega)
    rcases hgrow with hsame | hnew
    · rw [← hloop, ← hloop', hi, hi'] at hsame
      cases hsame
      exact Or.inl rfl
    · rw [← hloop', hi'] at hnew
      cases hnew
      exact Or.inr rfl

/-- Seven buckets and eight, for the key 10. -/
theorem hash_consistent_seven :
    hash exact 10 7 = .ok 6 ∧ hash exact 10 8 = .ok 7 ∧
      ∃ i i', hash exact 10 7 = .ok i ∧ hash exact 10 8 = .ok i' ∧ i < 7 ∧ (i' = i ∨ i' = 7) := by
  obtain ⟨i, i', hi, -, hlt, -, hi', hcase⟩ :=
    hash_consistent exact 10 (n := 7) (by decide) (by decide)
  refine ⟨?_, ?_, i, i', hi, hi', hlt, hcase⟩
  · with_unfolding_all rfl
  · with_unfolding_all rfl

/-- The index that `JumpConsistentHash` returns is in range, also if the conversion to `int32`
overflows. -/
theorem jumpConsistentHash_spec (r : Rounding) {len : ℕ} (hlen : 0 < len) (options : List Bytes) :
    ∃ i, jumpConsistentHash r len options = .ok i ∧ 0 ≤ i ∧ i < len := by
  have hlt : int32 len < 2 ^ 31 := by
    unfold int32
    have := Int.bmod_lt (x := (len : ℤ)) (m := 2 ^ 32) (by norm_num)
    norm_num at this ⊢
    omega
  have hle : int32 len ≤ len := by
    unfold int32
    rw [Int.bmod_def]
    split_ifs <;> omega
  unfold jumpConsistentHash
  dsimp only
  obtain ⟨i, hi, h0, hmax⟩ := hash_spec r (hashString _) hlt
  exact ⟨i, hi, h0, by omega⟩

end Frpc.Selectors.Hash
