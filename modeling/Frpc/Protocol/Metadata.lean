import Frpc.Protocol.Wire

/-! # What `decodeMetadata` does on arbitrary bytes

The section handed to `decodeMetadata` is a slice whose capacity reaches to the end of the body, so
the function may read past the section. Its outcome is one of three:

* the section is a concatenation of complete records, and the result is their left-to-right fold
  (`decodeMetadata_accept`);
* after some complete records a length does not pass one of the two guards, and the result is
  `ErrMetaKVMissing` (`decodeMetadata_reject`, `RejectedAt`);
* otherwise a slice expression is out of bounds (`decodeMetadata_fault`).

The guards are `uint32` comparisons; `n+sl` may wrap around and `l-4` may underflow, so that a
length which does not fit may still pass them. -/

namespace Frpc.Protocol.Metadata

open Frpc.Basic Frpc.Lib.Slices Frpc.Protocol.Messages Frpc.Protocol.Wire

/-- Complete records, one after the other. -/
def encodeRecords (kvs : List (Bytes × Bytes)) : Bytes := kvs.flatMap fun e => encodeEntry e.1 e.2

/-- The records put into a map from left to right: the last value of a key wins. -/
def foldRecords (kvs : List (Bytes × Bytes)) (m : Metadata) : Metadata :=
  kvs.foldl (fun m e => m.insert e.1 e.2) m

/-- What stands at offset `n` makes `decodeMetadata` give up: the length of a key, or that of a
value behind a key that passed, exceeds its guard. -/
def RejectedAt (l n : UInt32) (x : Bytes) : Prop :=
  (∃ sl r, x = putUint32 sl ++ r ∧ n + 4 + sl > l - 4) ∨
    ∃ k sl r, x = lenPrefixed k ++ (putUint32 sl ++ r) ∧ k.length < 2 ^ 32 ∧
      ¬ n + 4 + .ofNat k.length > l - 4 ∧ n + 4 + .ofNat k.length + 4 + sl > l

theorem encodeEntry_eq (k v : Bytes) : encodeEntry k v = lenPrefixed k ++ lenPrefixed v := rfl

theorem length_encodeEntry (k v : Bytes) : (encodeEntry k v).length = 8 + k.length + v.length := by
  rw [encodeEntry_eq, List.length_append, length_lenPrefixed, length_lenPrefixed]
  omega

@[simp] theorem encodeRecords_nil : encodeRecords [] = [] := rfl

@[simp] theorem encodeRecords_cons (k v : Bytes) (kvs : List (Bytes × Bytes)) :
    encodeRecords ((k, v) :: kvs) = encodeEntry k v ++ encodeRecords kvs := rfl

@[simp] theorem foldRecords_nil (m : Metadata) : foldRecords [] m = m := rfl

@[simp] theorem foldRecords_cons (k v : Bytes) (kvs : List (Bytes × Bytes)) (m : Metadata) :
    foldRecords ((k, v) :: kvs) m = foldRecords kvs (m.insert k v) := rfl

/-! ### One round -/

section Round

variable {l n : UInt32} {s : Slice UInt8} {a x : Bytes}

/-- A slice expression between two `uint32` offsets, the second `sl` further, cuts out `sl` bytes or
faults: where the sum wraps, the bounds are in the wrong order. -/
theorem slice_uint32 {y : Bytes} (hs : s.back = a ++ y) (ha : a.length = n.toNat)
    (hcap : s.back.length < 2 ^ 32) (sl : UInt32) :
    (∃ b r, y = b ++ r ∧ b.length = sl.toNat ∧ (n + sl).toNat = n.toNat + sl.toNat ∧
      s.slice n.toNat (n + sl).toNat = .ok ⟨b ++ r, b.length, by simp⟩) ∨
    (y.length < sl.toNat ∧ s.slice n.toNat (n + sl).toNat = .error .bounds) := by
  have hlen := congrArg List.length hs
  rw [List.length_append] at hlen
  have hadd : (n + sl).toNat = (n.toNat + sl.toNat) % 2 ^ 32 := UInt32.toNat_add n sl
  have hsl := sl.toNat_lt
  by_cases hy : sl.toNat ≤ y.length
  · left
    have hbl : (y.take sl.toNat).length = sl.toNat := by simp [hy]
    have hnw : (n + sl).toNat = n.toNat + sl.toNat := by
      rw [hadd, Nat.mod_eq_of_lt (by omega)]
    refine ⟨y.take sl.toNat, y.drop sl.toNat, (List.take_append_drop _ _).symm, hbl, hnw, ?_⟩
    exact Slice.slice_append (by rw [List.take_append_drop]; exact hs) ha (by rw [hnw, hbl])
  · right
    refine ⟨by omega, Slice.slice_fault ?_⟩
    omega

/-- A word at a `uint32` offset is read, or there are not four bytes left. -/
theorem uint32_slice_uint32 {y : Bytes} (hs : s.back = a ++ y) (ha : a.length = n.toNat)
    (hcap : s.back.length < 2 ^ 32) :
    (∃ v r, y = putUint32 v ++ r ∧ (n + 4).toNat = n.toNat + 4 ∧
      (s.slice n.toNat (n + 4).toNat >>= uint32) = .ok v) ∨
    (y.length < 4 ∧ (s.slice n.toNat (n + 4).toNat >>= uint32) = .error .bounds) := by
  rcases slice_uint32 hs ha hcap 4 with ⟨b, r, rfl, hb, hn, -⟩ | ⟨hy, hf⟩
  · left
    have hb4 : b.length = 4 := hb
    obtain ⟨v, r', hv⟩ := exists_putUint32 (show 4 ≤ b.length by omega)
    have hr' : r' = [] := by
      have := congrArg List.length hv
      simp only [List.length_append, length_putUint32] at this
      exact List.eq_nil_of_length_eq_zero (by omega)
    rw [hr', List.append_nil] at hv
    refine ⟨v, r, by rw [hv], hn, ?_⟩
    exact uint32_slice (by rw [hs, hv]) ha hn
  · right
    exact ⟨hy, by rw [hf, error_bind]⟩

theorem toNat_add_of_lt {b : UInt32} (h : n.toNat + b.toNat < 2 ^ 32) :
    (n + b).toNat = n.toNat + b.toNat := by
  rw [UInt32.toNat_add, Nat.mod_eq_of_lt h]

/-- The key guard on a key that ends inside the section, four bytes before its end. -/
theorem key_passes {sl : UInt32} (h : n.toNat + 8 + sl.toNat ≤ l.toNat) : ¬ n + 4 + sl > l - 4 := by
  have hl := l.toNat_lt
  have h4 : (n + 4).toNat = n.toNat + 4 := toNat_add_of_lt (b := 4) (by simp; omega)
  have hsl : (n + 4 + sl).toNat = n.toNat + 4 + sl.toNat := by
    rw [toNat_add_of_lt (by omega), h4]
  rw [gt_iff_lt, UInt32.lt_iff_toNat_lt, hsl, UInt32.toNat_sub]
  simp
  omega

theorem offset_key {k : Bytes} (h : n.toNat + 8 + k.length < 2 ^ 32) :
    (n + 4).toNat = n.toNat + 4 ∧ (n + 4 + .ofNat k.length).toNat = n.toNat + 4 + k.length ∧
      (n + 4 + .ofNat k.length + 4).toNat = n.toNat + 4 + k.length + 4 := by
  have hk := toNat_ofNat_length (b := k) (by omega)
  have h1 : (n + 4).toNat = n.toNat + 4 := toNat_add_of_lt (b := 4) (by simp; omega)
  have h2 : (n + 4 + .ofNat k.length).toNat = n.toNat + 4 + k.length := by
    rw [toNat_add_of_lt (by omega), h1, hk]
  refine ⟨h1, h2, ?_⟩
  rw [toNat_add_of_lt (b := 4) (by simp; omega), h2]
  rfl

theorem decodeEntry_ok {k v r : Bytes} (hs : s.back = a ++ (encodeEntry k v ++ r))
    (ha : a.length = n.toNat) (hcap : s.back.length < 2 ^ 32)
    (hl : n.toNat + (encodeEntry k v).length ≤ l.toNat) :
    ∃ n' : UInt32, n'.toNat = n.toNat + (encodeEntry k v).length ∧
      decodeEntry l s n = .ok (some (k, v, n')) := by
  have hlen := congrArg List.length hs
  rw [List.length_append, List.length_append] at hlen
  rw [length_encodeEntry] at hl hlen ⊢
  have hk := toNat_ofNat_length (b := k) (by omega)
  have hv := toNat_ofNat_length (b := v) (by omega)
  obtain ⟨h1, h2, h3⟩ := offset_key (n := n) (k := k) (by omega)
  have h4 : (n + 4 + .ofNat k.length + 4 + .ofNat v.length).toNat =
      n.toNat + 4 + k.length + 4 + v.length := by
    rw [toNat_add_of_lt (by omega), h3, hv]
  refine ⟨n + 4 + .ofNat k.length + 4 + .ofNat v.length, by rw [h4]; omega, ?_⟩
  -- the four slices the round takes, from left to right
  have hs1 : s.back = a ++ (putUint32 (.ofNat k.length) ++ (k ++ (lenPrefixed v ++ r))) := by
    rw [hs, encodeEntry_eq, lenPrefixed]
    simp only [List.append_assoc]
  have hs2 : s.back = (a ++ putUint32 (.ofNat k.length)) ++ (k ++ (lenPrefixed v ++ r)) := by
    rw [hs1, List.append_assoc]
  have hs3 : s.back = (a ++ putUint32 (.ofNat k.length) ++ k) ++
      (putUint32 (.ofNat v.length) ++ (v ++ r)) := by
    rw [hs2, lenPrefixed]
    simp only [List.append_assoc]
  have hs4 : s.back = (a ++ putUint32 (.ofNat k.length) ++ k ++ putUint32 (.ofNat v.length)) ++
      (v ++ r) := by
    rw [hs3]
    simp only [List.append_assoc]
  unfold decodeEntry
  rw [← bind_assoc, uint32_slice hs1 ha h1, ok_bind]
  dsimp only
  rw [if_neg (key_passes (by omega)),
    Slice.slice_append hs2 (by simp [ha, h1]) (by rw [h2, h1]), ok_bind, ← bind_assoc,
    uint32_slice hs3 (by simp [ha, h2]; omega) (by rw [h3, h2]), ok_bind,
    if_neg (by rw [gt_iff_lt, UInt32.lt_iff_toNat_lt, h4]; omega),
    Slice.slice_append hs4 (by simp [ha, h3]; omega) (by rw [h4, h3]), ok_bind]
  simp only [Slice.toList, List.take_left]
  rfl

theorem decodeEntry_none (hs : s.back = a ++ x) (ha : a.length = n.toNat)
    (hcap : s.back.length < 2 ^ 32) (hx : RejectedAt l n x) : decodeEntry l s n = .ok none := by
  have hlen := congrArg List.length hs
  rw [List.length_append] at hlen
  unfold decodeEntry
  rw [← bind_assoc]
  rcases hx with ⟨sl, r, rfl, hg⟩ | ⟨k, sl, r, rfl, hk32, hg, hg'⟩
  · have h1 : (n + 4).toNat = n.toNat + 4 :=
      toNat_add_of_lt (b := 4)
        (by simp only [List.length_append, length_putUint32] at hlen; simp; omega)
    rw [uint32_slice hs ha h1, ok_bind]
    dsimp only
    rw [if_pos hg]
    rfl
  · simp only [List.length_append, length_putUint32, length_lenPrefixed] at hlen
    obtain ⟨h1, h2, h3⟩ := offset_key (n := n) (k := k) (by omega)
    have hs1 : s.back = a ++ (putUint32 (.ofNat k.length) ++ (k ++ (putUint32 sl ++ r))) := by
      rw [hs, lenPrefixed]
      simp only [List.append_assoc]
    have hs2 : s.back = (a ++ putUint32 (.ofNat k.length)) ++ (k ++ (putUint32 sl ++ r)) := by
      rw [hs1, List.append_assoc]
    have hs3 : s.back = (a ++ putUint32 (.ofNat k.length) ++ k) ++ (putUint32 sl ++ r) := by
      rw [hs2]
      simp only [List.append_assoc]
    rw [uint32_slice hs1 ha h1, ok_bind]
    dsimp only
    rw [if_neg hg, Slice.slice_append hs2 (by simp [ha, h1]) (by rw [h2, h1]), ok_bind,
      ← bind_assoc,
      uint32_slice hs3 (by simp [ha, h2]; omega) (by rw [h3, h2]), ok_bind, if_pos hg']
    rfl

/-- **The three outcomes of a round.** -/
theorem decodeEntry_cases (hs : s.back = a ++ x) (ha : a.length = n.toNat)
    (hcap : s.back.length < 2 ^ 32) :
    (∃ k v r, x = encodeEntry k v ++ r ∧ n.toNat + (encodeEntry k v).length ≤ l.toNat) ∨
      RejectedAt l n x ∨ decodeEntry l s n = .error .bounds := by
  unfold decodeEntry
  rw [← bind_assoc]
  rcases uint32_slice_uint32 hs ha hcap with ⟨sl, y, rfl, h1, hw⟩ | ⟨-, hf⟩
  swap
  · right; right; rw [hf, error_bind]
  by_cases hg : n + 4 + sl > l - 4
  · exact Or.inr (Or.inl (Or.inl ⟨sl, y, rfl, hg⟩))
  rw [hw, ok_bind]
  dsimp only
  rw [if_neg hg]
  have hs1 : s.back = (a ++ putUint32 sl) ++ y := by rw [hs, List.append_assoc]
  rcases slice_uint32 (n := n + 4) hs1 (by simp [ha, h1]) hcap sl with ⟨k, z, rfl, hk, h2, hsl⟩
    | ⟨-, hf⟩
  swap
  · right; right; rw [hf, error_bind]
  rw [hsl, ok_bind, ← bind_assoc]
  have hsl' : UInt32.ofNat k.length = sl := by rw [hk, UInt32.ofNat_toNat]
  have hs2 : s.back = (a ++ putUint32 sl ++ k) ++ z := by
    rw [hs1]
    simp only [List.append_assoc]
  rcases uint32_slice_uint32 (n := n + 4 + sl) hs2 (by simp [ha, h2, h1, hk]; omega) hcap with
    ⟨sl', w, rfl, h3, hw'⟩ | ⟨-, hf⟩
  swap
  · right; right; rw [hf, error_bind]
  by_cases hg' : n + 4 + sl + 4 + sl' > l
  · refine Or.inr (Or.inl (Or.inr ⟨k, sl', w, ?_, by rw [hk]; exact sl.toNat_lt, ?_, ?_⟩))
    · rw [lenPrefixed, hsl', List.append_assoc]
    · rw [hsl']; exact hg
    · rw [hsl']; exact hg'
  rw [hw', ok_bind]
  rw [if_neg hg']
  have hs3 : s.back = (a ++ putUint32 sl ++ k ++ putUint32 sl') ++ w := by
    rw [hs2]
    simp only [List.append_assoc]
  rcases slice_uint32 (n := n + 4 + sl + 4) hs3 (by simp [ha, h3, h2, h1, hk]; omega) hcap sl' with
    ⟨v, r, rfl, hv, h4, -⟩ | ⟨-, hf⟩
  swap
  · right; right; rw [hf, error_bind]
  left
  refine ⟨k, v, r, ?_, ?_⟩
  · rw [encodeEntry_eq, lenPrefixed, lenPrefixed, hsl', hv, UInt32.ofNat_toNat]
    simp only [List.append_assoc]
  · rw [gt_iff_lt, UInt32.lt_iff_toNat_lt, h4, h3, h2, h1] at hg'
    rw [length_encodeEntry]
    omega

end Round

/-! ### The loop -/

section Loop

variable {l : UInt32} {s : Slice UInt8}

/-- The offset behind the records `(k, v) :: kvs`, from the one behind the first record. -/
theorem offset_cons {n n' : UInt32} {k v : Bytes} {kvs : List (Bytes × Bytes)}
    (hn' : n'.toNat = n.toNat + (encodeEntry k v).length) :
    n' + .ofNat (encodeRecords kvs).length = n + .ofNat (encodeRecords ((k, v) :: kvs)).length := by
  apply UInt32.toNat_inj.mp
  rw [UInt32.toNat_add, UInt32.toNat_add, UInt32.toNat_ofNat', UInt32.toNat_ofNat',
    encodeRecords_cons, List.length_append, hn']
  omega

/-- **One round of the loop** on a record that ends inside the section. -/
theorem decodeEntries_record (hcap : s.back.length < 2 ^ 32) {k v a r : Bytes} {fuel : ℕ}
    {n : UInt32} (hs : s.back = a ++ (encodeEntry k v ++ r)) (ha : a.length = n.toNat)
    (hl : n.toNat + (encodeEntry k v).length ≤ l.toNat) (hf : l.toNat ≤ n.toNat + fuel)
    (m : Metadata) :
    ∃ fuel' n', n'.toNat = n.toNat + (encodeEntry k v).length ∧
      s.back = (a ++ encodeEntry k v) ++ r ∧ (a ++ encodeEntry k v).length = n'.toNat ∧
      l.toNat ≤ n'.toNat + fuel' ∧
      decodeEntries l s fuel n m = decodeEntries l s fuel' n' (m.insert k v) := by
  have he := length_encodeEntry k v
  have hn : n < l := by
    rw [UInt32.lt_iff_toNat_lt]
    omega
  obtain ⟨fuel, rfl⟩ := Nat.exists_eq_succ_of_ne_zero (show fuel ≠ 0 by omega)
  obtain ⟨n', hn', hd⟩ := decodeEntry_ok hs ha hcap hl
  refine ⟨fuel, n', hn', ?_, ?_, by omega, ?_⟩
  · rw [hs, List.append_assoc]
  · rw [List.length_append, ha, hn']
  · rw [decodeEntries, if_pos hn, hd, ok_bind]

theorem decodeEntries_accept (hcap : s.back.length < 2 ^ 32) :
    ∀ (kvs : List (Bytes × Bytes)) (fuel : ℕ) (n : UInt32) (m : Metadata) (a r : Bytes),
      s.back = a ++ (encodeRecords kvs ++ r) → a.length = n.toNat →
      n.toNat + (encodeRecords kvs).length = l.toNat → l.toNat ≤ n.toNat + fuel →
      decodeEntries l s fuel n m = .ok (foldRecords kvs m, none)
  | [], fuel, n, m, a, r, _, _, hl, _ => by
    have hn : ¬ n < l := by rw [UInt32.lt_iff_toNat_lt, ← hl]; simp
    cases fuel <;> rw [decodeEntries, if_neg hn] <;> rfl
  | (k, v) :: kvs, fuel, n, m, a, r, hs, ha, hl, hf => by
    rw [encodeRecords_cons, List.length_append] at hl
    rw [encodeRecords_cons, List.append_assoc] at hs
    obtain ⟨fuel', n', hn', hs', ha', hf', hrest⟩ :=
      decodeEntries_record (l := l) hcap hs ha (by omega) hf m
    rw [hrest, foldRecords_cons]
    exact decodeEntries_accept hcap kvs fuel' n' _ _ r hs' ha' (by omega) hf'

theorem decodeEntries_reject (hcap : s.back.length < 2 ^ 32) :
    ∀ (kvs : List (Bytes × Bytes)) (fuel : ℕ) (n : UInt32) (m : Metadata) (a x : Bytes),
      s.back = a ++ (encodeRecords kvs ++ x) → a.length = n.toNat →
      n.toNat + (encodeRecords kvs).length < l.toNat →
      RejectedAt l (n + .ofNat (encodeRecords kvs).length) x → l.toNat ≤ n.toNat + fuel →
      decodeEntries l s fuel n m = .ok (foldRecords kvs m, some .errMetaKVMissing)
  | [], fuel, n, m, a, x, hs, ha, hl, hx, hf => by
    have hn : n < l := by rw [UInt32.lt_iff_toNat_lt]; simpa using hl
    obtain ⟨fuel, rfl⟩ := Nat.exists_eq_succ_of_ne_zero (show fuel ≠ 0 by simp at hl; omega)
    have hx' : RejectedAt l n x := by simpa using hx
    rw [decodeEntries, if_pos hn, decodeEntry_none hs ha hcap hx', ok_bind]
    rfl
  | (k, v) :: kvs, fuel, n, m, a, x, hs, ha, hl, hx, hf => by
    rw [encodeRecords_cons, List.length_append] at hl
    rw [encodeRecords_cons, List.append_assoc] at hs
    obtain ⟨fuel', n', hn', hs', ha', hf', hrest⟩ :=
      decodeEntries_record (l := l) hcap hs ha (by omega) hf m
    rw [← offset_cons hn'] at hx
    rw [hrest, foldRecords_cons]
    exact decodeEntries_reject hcap kvs fuel' n' _ _ x hs' ha' (by omega) hx hf'

theorem decodeEntries_fault (hcap : s.back.length < 2 ^ 32) :
    ∀ (fuel : ℕ) (n : UInt32) (m : Metadata) (a x : Bytes),
      s.back = a ++ x → a.length = n.toNat → n.toNat ≤ l.toNat → l.toNat ≤ n.toNat + fuel →
      (∀ kvs r, x = encodeRecords kvs ++ r → n.toNat + (encodeRecords kvs).length ≠ l.toNat) →
      (∀ kvs y, x = encodeRecords kvs ++ y → n.toNat + (encodeRecords kvs).length < l.toNat →
        ¬ RejectedAt l (n + .ofNat (encodeRecords kvs).length) y) →
      decodeEntries l s fuel n m = .error .bounds
  | fuel, n, m, a, x, hs, ha, hnl, hf, hacc, hrej => by
    have hn0 := hacc [] x rfl
    have hn : n < l := by
      rw [UInt32.lt_iff_toNat_lt]
      exact lt_of_le_of_ne hnl (by simpa using hn0)
    have hlt := UInt32.lt_iff_toNat_lt.mp hn
    match fuel with
    | 0 => omega
    | fuel + 1 =>
      rw [decodeEntries, if_pos hn]
      rcases decodeEntry_cases (l := l) hs ha hcap with ⟨k, v, r, rfl, hkv⟩ | hx | hd
      · obtain ⟨n', hn', hd⟩ := decodeEntry_ok hs ha hcap hkv
        have he := length_encodeEntry k v
        have hll := l.toNat_lt
        rw [hd, ok_bind]
        refine decodeEntries_fault hcap fuel n' _ (a ++ encodeEntry k v) r
          (by rw [hs, List.append_assoc]) (by rw [List.length_append, ha, hn'])
            (by omega) (by omega)
          (fun kvs t ht => ?_) fun kvs y hy hlt' => ?_
        · have := hacc ((k, v) :: kvs) t (by rw [ht, encodeRecords_cons, List.append_assoc])
          rw [encodeRecords_cons, List.length_append] at this
          omega
        · rw [offset_cons hn']
          exact hrej ((k, v) :: kvs) y (by rw [hy, encodeRecords_cons, List.append_assoc])
            (by rw [encodeRecords_cons, List.length_append]; omega)
      · have := hrej [] x rfl (by simpa using hlt)
        exact absurd hx (by simpa using this)
      · rw [hd, error_bind]

/-- **Complete records are accepted**: the result is their fold. -/
theorem decodeMetadata_accept (kvs : List (Bytes × Bytes)) {r : Bytes}
    (hcap : s.back.length < 2 ^ 32)
    (hs : s.back = encodeRecords kvs ++ r) (hl : (encodeRecords kvs).length = l.toNat) :
    decodeMetadata l s = .ok (foldRecords kvs ∅, none) :=
  decodeEntries_accept hcap kvs l.toNat 0 ∅ [] r hs rfl (by simpa using hl) (by simp)

/-- **A length that exceeds its guard is rejected.** -/
theorem decodeMetadata_reject (kvs : List (Bytes × Bytes)) {x : Bytes}
    (hcap : s.back.length < 2 ^ 32)
    (hs : s.back = encodeRecords kvs ++ x) (hl : (encodeRecords kvs).length < l.toNat)
    (hx : RejectedAt l (.ofNat (encodeRecords kvs).length) x) :
    decodeMetadata l s = .ok (foldRecords kvs ∅, some .errMetaKVMissing) :=
  decodeEntries_reject hcap kvs l.toNat 0 ∅ [] x hs rfl (by simpa using hl)
    (by simpa using hx) (by simp)

/-- **Everything else is out of bounds.** -/
theorem decodeMetadata_fault (hcap : s.back.length < 2 ^ 32)
    (hacc : ∀ kvs r, s.back = encodeRecords kvs ++ r → (encodeRecords kvs).length ≠ l.toNat)
    (hrej : ∀ kvs x, s.back = encodeRecords kvs ++ x → (encodeRecords kvs).length < l.toNat →
      ¬ RejectedAt l (.ofNat (encodeRecords kvs).length) x) :
    decodeMetadata l s = .error .bounds :=
  decodeEntries_fault hcap l.toNat 0 ∅ [] s.back rfl rfl (by simp) (by simp)
    (fun kvs r h => by simpa using hacc kvs r h) fun kvs x h hlt => by
      simpa using hrej kvs x h (by simpa using hlt)

end Loop

/-! ### The grammar of a section -/

section Grammar

variable {l : UInt32} {s : Slice UInt8}

/-- The section is the records `kvs` exactly if they stand in front of the array and have its
length. -/
theorem toList_eq_encodeRecords (hlen : s.len = l.toNat) (kvs : List (Bytes × Bytes)) :
    s.toList = encodeRecords kvs ↔
      (∃ r, s.back = encodeRecords kvs ++ r) ∧ (encodeRecords kvs).length = l.toNat := by
  have hle := s.len_le
  unfold Slice.toList
  constructor
  · intro h
    refine ⟨⟨s.back.drop s.len, by rw [← h, List.take_append_drop]⟩, ?_⟩
    rw [← h, List.length_take]
    omega
  · rintro ⟨⟨r, hr⟩, hl⟩
    rw [hr, hlen, ← hl, List.take_left]

/-- A section that is a concatenation of records is accepted, whatever follows it. -/
theorem decodeMetadata_of_records (hcap : s.back.length < 2 ^ 32) (hlen : s.len = l.toNat)
    {kvs : List (Bytes × Bytes)} (hkvs : s.toList = encodeRecords kvs) :
    decodeMetadata l s = .ok (foldRecords kvs ∅, none) := by
  obtain ⟨⟨r, hr⟩, hl⟩ := (toList_eq_encodeRecords hlen kvs).mp hkvs
  exact decodeMetadata_accept kvs hcap hr hl

/-- What is accepted is a concatenation of records, and the map is their fold. -/
theorem records_of_decodeMetadata (hcap : s.back.length < 2 ^ 32) (hlen : s.len = l.toNat)
    {m : Metadata} (h : decodeMetadata l s = .ok (m, none)) :
    ∃ kvs, s.toList = encodeRecords kvs ∧ m = foldRecords kvs ∅ := by
  by_cases hacc : ∃ kvs, s.toList = encodeRecords kvs
  · obtain ⟨kvs, hkvs⟩ := hacc
    rw [decodeMetadata_of_records hcap hlen hkvs] at h
    cases h
    exact ⟨kvs, hkvs, rfl⟩
  · exfalso
    have hno : ∀ kvs r, s.back = encodeRecords kvs ++ r → (encodeRecords kvs).length ≠ l.toNat :=
      fun kvs r hr hl => hacc ⟨kvs, (toList_eq_encodeRecords hlen kvs).mpr ⟨⟨r, hr⟩, hl⟩⟩
    by_cases hrej : ∃ kvs x, s.back = encodeRecords kvs ++ x ∧
      (encodeRecords kvs).length < l.toNat ∧
        RejectedAt l (.ofNat (encodeRecords kvs).length) x
    · obtain ⟨kvs, x, hs, hl, hx⟩ := hrej
      rw [decodeMetadata_reject kvs hcap hs hl hx] at h
      cases h
    · have hfault := decodeMetadata_fault hcap hno fun kvs x hs hl hx => hrej ⟨kvs, x, hs, hl, hx⟩
      rw [hfault] at h
      cases h

/-- **`decodeMetadata` accepts exactly its grammar.** On a section of `l` bytes, in an array that
may go on behind it, the error is `nil` exactly if the section is a concatenation of complete
records; the map is then their fold, and another array with the same section gives the same map. -/
theorem decodeMetadata_grammar (hcap : s.back.length < 2 ^ 32) (hlen : s.len = l.toNat) :
    ((∃ m, decodeMetadata l s = .ok (m, none)) ↔ ∃ kvs, s.toList = encodeRecords kvs) ∧
      (∀ kvs, s.toList = encodeRecords kvs → decodeMetadata l s = .ok (foldRecords kvs ∅, none)) ∧
      ∀ s' : Slice UInt8, s'.back.length < 2 ^ 32 → s'.len = l.toNat → s'.toList = s.toList →
        ∀ m, decodeMetadata l s' = .ok (m, none) ↔ decodeMetadata l s = .ok (m, none) := by
  refine ⟨⟨?_, ?_⟩, fun kvs => decodeMetadata_of_records hcap hlen,
    fun s' hcap' hlen' hsame m => ⟨?_, ?_⟩⟩
  · rintro ⟨m, h⟩
    obtain ⟨kvs, hkvs, -⟩ := records_of_decodeMetadata hcap hlen h
    exact ⟨kvs, hkvs⟩
  · rintro ⟨kvs, hkvs⟩
    exact ⟨foldRecords kvs ∅, decodeMetadata_of_records hcap hlen hkvs⟩
  · intro h
    obtain ⟨kvs, hkvs, rfl⟩ := records_of_decodeMetadata hcap' hlen' h
    exact decodeMetadata_of_records hcap hlen (hsame.symm.trans hkvs)
  · intro h
    obtain ⟨kvs, hkvs, rfl⟩ := records_of_decodeMetadata hcap hlen h
    exact decodeMetadata_of_records hcap' hlen' (hsame.trans hkvs)

/-- One record of ten bytes, with three bytes of the frame behind it. -/
theorem decodeMetadata_grammar_one :
    decodeMetadata 10 ⟨[0, 0, 0, 1, 97, 0, 0, 0, 1, 98, 7, 7, 7], 10, by decide⟩ =
      .ok (foldRecords [([97], [98])] ∅, none) := by
  refine (decodeMetadata_grammar ?_ ?_).2.1 [([97], [98])] ?_ <;> decide

end Grammar

/-! ### The encoded map -/

theorem encodeMetadata_eq (m : MetaOrder) :
    encodeMetadata m = encodeRecords (m.entries.map fun e => (e.1, e.2)) := by
  unfold encodeMetadata encodeRecords
  rw [List.flatMap_map]
  split_ifs with h
  · rw [List.eq_nil_of_length_eq_zero h, List.flatMap_nil]
  · rfl

theorem lookup_foldRecords (x : Bytes) : ∀ (es : List ((_ : Bytes) × Bytes)) (m : Metadata),
    es.NodupKeys →
      (foldRecords (es.map fun e => (e.1, e.2)) m).lookup x = (es.dlookup x).or (m.lookup x)
  | [], m, _ => by simp
  | ⟨k, v⟩ :: es, m, h => by
    rw [List.nodupKeys_cons] at h
    rw [List.map_cons, foldRecords_cons, lookup_foldRecords x es _ h.2]
    by_cases hx : x = k
    · subst hx
      rw [List.dlookup_eq_none.mpr h.1, List.dlookup_cons_eq]
      simp
    · rw [List.dlookup_cons_ne _ _ hx, Finmap.lookup_insert_of_ne _ hx]

/-- **The fold of the encoded records is the map**, whatever the order of the iteration. -/
theorem foldRecords_entries (m : MetaOrder) :
    foldRecords (m.entries.map fun e => (e.1, e.2)) ∅ = m.toFinmap := by
  refine Finmap.ext_lookup fun x => ?_
  rw [lookup_foldRecords x m.entries ∅ m.nodupKeys, Finmap.lookup_empty, Option.or_none,
    Finmap.lookup_toFinmap]
  rfl

end Frpc.Protocol.Metadata
