import Mathlib.Data.Nat.Bitwise
import Relb.Model.AppConfig
/-!
# Masks, bit by bit

An address is thirty-two bits, counted from the left. The mask that the parser makes from a prefix
length has that many leading ones, so two addresses agree under it exactly if they agree on that
many bits.
-/

namespace Relb

namespace IpAddress

variable {a b mask : IpAddress} {i n : Nat}

def octet (ip : IpAddress) : Nat → UInt8
  | 0 => ip.data0
  | 1 => ip.data1
  | 2 => ip.data2
  | _ => ip.data3

/-- Bit `i` from the left, for `i` below 32. -/
def bit (ip : IpAddress) (i : Nat) : Bool := (ip.octet (i / 8)).toNat.testBit (7 - i % 8)

theorem octet_eq_iff {x y : UInt8} :
    x = y ↔ ∀ i < 8, x.toNat.testBit (7 - i) = y.toNat.testBit (7 - i) := by
  refine ⟨fun h i _ => by rw [h], fun h => UInt8.toNat_inj.mp (Nat.eq_of_testBit_eq fun j => ?_)⟩
  by_cases hj : j < 8
  · have hbit := h (7 - j) (by omega)
    rwa [show 7 - (7 - j) = j by omega] at hbit
  · have hlt : ∀ z : UInt8, z.toNat < 2 ^ j := fun z =>
      z.toNat_lt.trans_le (Nat.pow_le_pow_right (by decide) (by omega))
    rw [Nat.testBit_lt_two_pow (hlt x), Nat.testBit_lt_two_pow (hlt y)]

theorem eq_iff_bit : a = b ↔ ∀ i < 32, a.bit i = b.bit i := by
  refine ⟨fun h i _ => by rw [h], fun h => ?_⟩
  have hoctet : ∀ k < 4, a.octet k = b.octet k := by
    intro k hk
    rw [octet_eq_iff]
    intro i hi
    have hbit := h (8 * k + i) (by omega)
    unfold bit at hbit
    rwa [show (8 * k + i) / 8 = k by omega, show (8 * k + i) % 8 = i by omega] at hbit
  obtain ⟨a0, a1, a2, a3⟩ := a
  obtain ⟨b0, b1, b2, b3⟩ := b
  congr
  · exact hoctet 0 (by decide)
  · exact hoctet 1 (by decide)
  · exact hoctet 2 (by decide)
  · exact hoctet 3 (by decide)

theorem bit_maskedIp (a mask : IpAddress) (i : Nat) :
    (maskedIp a mask).bit i = (a.bit i && mask.bit i) := by
  have hoctet : ∀ k, (maskedIp a mask).octet k = a.octet k &&& mask.octet k := by
    intro k
    match k with
    | 0 | 1 | 2 | _ + 3 => rfl
  unfold bit
  rw [hoctet, UInt8.toNat_and, Nat.testBit_and]

/-- A mask with `n` leading ones. -/
def HasLeadingOnes (n : Nat) (mask : IpAddress) : Prop :=
  ∀ i < 32, mask.bit i = decide (i < n)

/-- The two addresses agree on the first `n` bits. -/
def AgreeOn (n : Nat) (a b : IpAddress) : Prop := ∀ i < n, a.bit i = b.bit i

theorem maskedIp_eq_iff (hmask : HasLeadingOnes n mask) (hn : n ≤ 32) :
    maskedIp a mask = maskedIp b mask ↔ AgreeOn n a b := by
  rw [eq_iff_bit]
  constructor
  · intro h i hi
    have hbit := h i (by omega)
    rwa [bit_maskedIp, bit_maskedIp, hmask i (by omega), decide_eq_true hi, Bool.and_true,
      Bool.and_true] at hbit
  · intro h i hi
    rw [bit_maskedIp, bit_maskedIp, hmask i hi]
    by_cases hin : i < n
    · rw [h i hin]
    · simp [hin]

end IpAddress

theorem hasLeadingOnes_prefixMask {n : Nat} (hn : n ≤ 32) :
    IpAddress.HasLeadingOnes n (prefixMask n) := by
  have hall : ∀ (n : Fin 33) (i : Fin 32), (prefixMask (n : Nat)).bit i = decide (i.val < n) := by
    decide +kernel
  exact fun i hi => hall ⟨n, by omega⟩ ⟨i, hi⟩

end Relb
