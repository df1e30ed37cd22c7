import Mathlib.Data.Nat.Digits.Defs
import Mathlib.Tactic.Ring

/-! # Big-endian words as bytes

A word of `w` bytes is the list of its bytes, most significant first. `putBE w v` writes the low `w`
bytes of `v`, `getBE bs` reads a list of bytes as a number. The two are inverse to each other:
reading what was written gives `v` modulo `256 ^ w` (`getBE_putBE`), and writing what was read gives
the bytes back (`putBE_getBE`). -/

namespace Frpc.Lib.BigEndian

/-- The `w` low bytes of `v`, most significant first. -/
def putBE : ℕ → ℕ → List UInt8
  | 0, _ => []
  | w + 1, v => UInt8.ofNat (v / 256 ^ w) :: putBE w v

/-- The number a list of bytes spells, most significant byte first. -/
def getBE : List UInt8 → ℕ
  | [] => 0
  | b :: bs => b.toNat * 256 ^ bs.length + getBE bs

@[simp] theorem length_putBE : ∀ w v : ℕ, (putBE w v).length = w
  | 0, _ => rfl
  | w + 1, v => by rw [putBE, List.length_cons, length_putBE w v]

theorem getBE_lt : ∀ bs : List UInt8, getBE bs < 256 ^ bs.length
  | [] => by simp [getBE]
  | b :: bs => by
    have hb : b.toNat + 1 ≤ 256 := b.toNat_lt
    have hmul := Nat.mul_le_mul_right (256 ^ bs.length) hb
    have ih := getBE_lt bs
    rw [getBE, List.length_cons, pow_succ]
    linarith

/-- **Reading what was written**, modulo the width. -/
theorem getBE_putBE : ∀ w v : ℕ, getBE (putBE w v) = v % 256 ^ w
  | 0, v => by simp [putBE, getBE, Nat.mod_one]
  | w + 1, v => by
    have hbyte : (UInt8.ofNat (v / 256 ^ w)).toNat = v / 256 ^ w % 256 := by simp
    rw [putBE, getBE, length_putBE, getBE_putBE w v, hbyte, Nat.mod_pow_succ]
    ring

theorem putBE_add_mul (c : ℕ) : ∀ w v : ℕ, putBE w (c * 256 ^ w + v) = putBE w v
  | 0, _ => rfl
  | w + 1, v => by
    have hdiv : (c * 256 ^ (w + 1) + v) / 256 ^ w = v / 256 ^ w + c * 256 := by
      rw [pow_succ, show c * (256 ^ w * 256) + v = v + c * 256 * 256 ^ w by ring]
      exact Nat.add_mul_div_right _ _ (by positivity)
    have hbyte : UInt8.ofNat (v / 256 ^ w + c * 256) = UInt8.ofNat (v / 256 ^ w) := by
      apply UInt8.toNat_inj.mp
      simp
    rw [putBE, putBE, hdiv, hbyte, show c * 256 ^ (w + 1) + v = (c * 256) * 256 ^ w + v by ring,
      putBE_add_mul (c * 256) w v]

/-- **Writing what was read.** -/
theorem putBE_getBE : ∀ bs : List UInt8, putBE bs.length (getBE bs) = bs
  | [] => rfl
  | b :: bs => by
    have hlt := getBE_lt bs
    have hdiv : (b.toNat * 256 ^ bs.length + getBE bs) / 256 ^ bs.length = b.toNat := by
      rw [Nat.add_comm, Nat.add_mul_div_right _ _ (by positivity), Nat.div_eq_of_lt hlt,
        Nat.zero_add]
    rw [List.length_cons, putBE, getBE, hdiv, putBE_add_mul, putBE_getBE bs, UInt8.ofNat_toNat]

end Frpc.Lib.BigEndian
