import Lab1.MemDb.DataStructs
import Mathlib.Data.Nat.Bitwise

/-!
# `BitMap` and `Stack` in terms of numbers

`BitMap.bit_ofNat` and `BitMap.testBit_bitOn` read the bit map through `Nat.testBit`: bit number
`k` is bit `(k - 1) % 32` of the word, so the bit numbers above `32` which the assertions admit
name the same bits once more.  `Stack.pop_eq` and `Stack.push_eq` say what the two operations do
to a stack whose fill count is in range.
-/

namespace Lab1.MemDb

/-! ### `BitMap` -/

namespace BitMap

/-- Which bit of the word the bit number `k` means. -/
def pos (k : ℕ) : ℕ := (k - 1) % 32

theorem toNat_mask (n : UInt32) : (mask n).toNat = 2 ^ ((n - 1).toNat % 32) := by
  have hone : (1 : UInt32).toNat = 1 := rfl
  have hpow : (2 : ℕ) ^ ((n - 1).toNat % 32) < 2 ^ 32 :=
    Nat.pow_lt_pow_right (by norm_num) (Nat.mod_lt _ (by norm_num))
  rw [mask, UInt32.toNat_shiftLeft, Nat.shiftLeft_eq, hone, one_mul]
  exact Nat.mod_eq_of_lt hpow

theorem toNat_ofNat_sub_one {k : ℕ} (h1 : 1 ≤ k) (h2 : k < 4294967296) :
    (UInt32.ofNat k - 1).toNat = k - 1 := by
  rw [UInt32.toNat_sub, UInt32.toNat_ofNat', show (1 : UInt32).toNat = 1 from rfl]
  omega

theorem toNat_mask_ofNat {k : ℕ} (h1 : 1 ≤ k) (h2 : k < 4294967296) :
    (mask (UInt32.ofNat k)).toNat = 2 ^ pos k := by
  rw [toNat_mask, toNat_ofNat_sub_one h1 h2, pos]

theorem bit_eq_testBit (b : BitMap) (n : UInt32) :
    b.bit n = b.bits.toNat.testBit ((n - 1).toNat % 32) := by
  -- the mask has a single bit, so the conjunction is that bit of the map, or zero
  set p := (n - 1).toNat % 32 with hp
  have hand : (b.bits &&& mask n).toNat = (b.bits.toNat.testBit p).toNat * 2 ^ p := by
    rw [UInt32.toNat_and, toNat_mask, ← hp, Nat.and_two_pow]
  have hpow : 0 < 2 ^ p := Nat.two_pow_pos _
  unfold bit
  cases htest : b.bits.toNat.testBit p with
  | false =>
    rw [htest, Bool.toNat_false, zero_mul] at hand
    have hzero : b.bits &&& mask n = 0 := UInt32.toNat_inj.mp hand
    simp [hzero]
  | true =>
    rw [htest, Bool.toNat_true, one_mul] at hand
    have hne : b.bits &&& mask n ≠ 0 := by
      intro h
      rw [h, show (0 : UInt32).toNat = 0 from rfl] at hand
      omega
    simpa using hne

theorem bit_ofNat (b : BitMap) {k : ℕ} (h1 : 1 ≤ k) (h2 : k < 4294967296) :
    b.bit (UInt32.ofNat k) = b.bits.toNat.testBit (pos k) := by
  rw [bit_eq_testBit, toNat_ofNat_sub_one h1 h2, pos]

/-- There is no bit number `0`; its mask is the highest bit of the word. -/
theorem bit_zero (b : BitMap) : b.bit (UInt32.ofNat 0) = b.bits.toNat.testBit 31 :=
  b.bit_eq_testBit _

theorem bitOn_eq_ok {b b' : BitMap} {k : ℕ} (hk : k < 4294967296) :
    b.bitOn (UInt32.ofNat k) = .ok b' ↔
      (minBit ≤ k ∧ k ≤ maxBit) ∧ b' = ⟨b.bits ||| mask (UInt32.ofNat k)⟩ := by
  have htoNat : (UInt32.ofNat k).toNat = k := by
    rw [UInt32.toNat_ofNat']
    exact Nat.mod_eq_of_lt hk
  unfold bitOn
  rw [htoNat, bind_eq_ok]
  constructor
  · rintro ⟨_, hreq, hpure⟩
    cases hpure
    exact ⟨require_eq_ok.mp hreq, rfl⟩
  · rintro ⟨hreq, rfl⟩
    exact ⟨(), require_eq_ok.mpr hreq, rfl⟩

theorem testBit_bitOn {b b' : BitMap} {k : ℕ} (hk : k < 4294967296)
    (h : b.bitOn (UInt32.ofNat k) = .ok b') (i : ℕ) :
    b'.bits.toNat.testBit i = (b.bits.toNat.testBit i || decide (pos k = i)) := by
  obtain ⟨⟨h1, _⟩, rfl⟩ := (bitOn_eq_ok hk).mp h
  rw [UInt32.toNat_or, toNat_mask_ofNat h1 hk, Nat.testBit_or, Nat.testBit_two_pow]

/-- In range, `isOn` is the bit. -/
theorem isOn_eq (b : BitMap) {k : ℕ} (h1 : 1 ≤ k) (h2 : k ≤ maxBit) :
    b.isOn (UInt32.ofNat k) = .ok (b.bits.toNat.testBit (pos k)) := by
  have hk : k < 4294967296 := lt_of_le_of_lt h2 (by decide)
  have htoNat : (UInt32.ofNat k).toNat = k := by
    rw [UInt32.toNat_ofNat']
    exact Nat.mod_eq_of_lt hk
  unfold isOn
  rw [htoNat, require_true ⟨h1, h2⟩, ok_bind, bit_ofNat b h1 hk]
  rfl

end BitMap

/-! ### `Stack` -/

namespace Stack

theorem push_eq {s : Stack} (h : s.capacity < s.sz) (hmax : s.capacity < maxObjNum)
    (slot : ℕ) :
    s.push slot = .ok ({ s with
      capacity := s.capacity + 1
      pstack := Function.update s.pstack s.capacity slot }, 0) := by
  unfold push
  rw [require_true h.le, ok_bind, if_pos h, require_true hmax, ok_bind]
  rfl

theorem pop_eq {s : Stack} (h0 : 0 < s.capacity) (h : s.capacity ≤ s.sz)
    (hmax : s.capacity - 1 < maxObjNum) :
    s.pop = .ok ({ s with capacity := s.capacity - 1 }, s.pstack (s.capacity - 1)) := by
  unfold pop
  rw [require_true h, ok_bind, if_pos h0, require_true hmax, ok_bind]
  rfl

end Stack

end Lab1.MemDb
