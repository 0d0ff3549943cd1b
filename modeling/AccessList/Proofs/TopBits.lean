import AccessList.Rule
import Mathlib.Data.Nat.Bitwise

/-!
# Blocks as ranges

The addresses that agree with a given one on the top bits are the multiples of a power of two up
to the next one. So a block, which compares top bits, holds the addresses between its two bounds,
and a rule concerns the addresses of its region.
-/

namespace AccessList

variable {family : Family}

namespace Address

/-- The mask is ones in all the places that do not count. -/
theorem toNat_hostMask (length : Nat) :
    (hostMask family length).toNat = 2 ^ (family.width - length) - 1 := by
  apply Nat.eq_of_testBit_eq
  intro i
  rw [Nat.testBit_two_pow_sub_one, BitVec.testBit_toNat, hostMask, BitVec.getLsbD_ushiftRight,
    BitVec.getLsbD_allOnes]
  exact decide_eq_decide.mpr (by omega)

/-- The lowest address with the same top bits is the address rounded down. -/
theorem toNat_network (a : Address family) (length : Nat) :
    (a.network length).toNat =
      a.toNat / 2 ^ (family.width - length) * 2 ^ (family.width - length) := by
  apply Nat.eq_of_testBit_eq
  intro i
  rw [Nat.testBit_mul_two_pow, Nat.testBit_div_two_pow, network, toNat, BitVec.toNat_and,
    Nat.testBit_and, BitVec.testBit_toNat (~~~hostMask family length), BitVec.getLsbD_not,
    ← BitVec.testBit_toNat, toNat_hostMask, Nat.testBit_two_pow_sub_one]
  by_cases hlow : i < family.width - length
  · have hnot : ¬ family.width - length ≤ i := by omega
    simp only [hlow, hnot, decide_true, decide_false, Bool.not_true, Bool.and_false,
      Bool.false_and]
  · have hsum : i - (family.width - length) + (family.width - length) = i := by omega
    have hle : family.width - length ≤ i := by omega
    rw [hsum]
    by_cases hi : i < family.width
    · simp [hlow, hle, hi, toNat]
    · have hzero : a.bits.toNat.testBit i = false := by
        rw [BitVec.testBit_toNat]
        exact BitVec.getLsbD_of_ge _ _ (by omega)
      simp [hi, toNat, hzero]

/-- The highest address with the same top bits is the last one before the next multiple. -/
theorem toNat_broadcast (a : Address family) (length : Nat) :
    (a.broadcast length).toNat =
      a.toNat / 2 ^ (family.width - length) * 2 ^ (family.width - length) +
        (2 ^ (family.width - length) - 1) := by
  have hpos := Nat.two_pow_pos (family.width - length)
  rw [Nat.mul_comm, Nat.two_pow_add_eq_or_of_lt (by omega)]
  apply Nat.eq_of_testBit_eq
  intro i
  rw [Nat.testBit_or, Nat.testBit_two_pow_mul, Nat.testBit_div_two_pow,
    Nat.testBit_two_pow_sub_one, broadcast, toNat, BitVec.toNat_or, Nat.testBit_or,
    toNat_hostMask, Nat.testBit_two_pow_sub_one]
  by_cases hlow : i < family.width - length
  · simp [hlow]
  · have hsum : i - (family.width - length) + (family.width - length) = i := by omega
    have hle : family.width - length ≤ i := by omega
    simp [hlow, hle, hsum, toNat]

end Address

/-- A range made of top bits holds exactly the addresses that agree on those bits. -/
theorem Range.mem_ofTopBits_iff {a b : Address family} {length : Nat} :
    a ∈ ofTopBits b length ↔
      a.toNat / 2 ^ (family.width - length) = b.toNat / 2 ^ (family.width - length) := by
  have hpos := Nat.two_pow_pos (family.width - length)
  rw [Nat.div_eq_iff hpos, mem_def, Address.le_def, Address.le_def]
  simp only [ofTopBits, Address.toNat_network, Address.toNat_broadcast]
  omega

/-- A block holds the addresses of its range. -/
theorem Block.contains_iff_mem_range {block : Block family} {a : Address family} :
    block.contains a = true ↔ a ∈ block.range := by
  rw [range, Range.mem_ofTopBits_iff, contains, decide_eq_true_iff, ← BitVec.toNat_inj,
    BitVec.toNat_ushiftRight, BitVec.toNat_ushiftRight, Nat.shiftRight_eq_div_pow,
    Nat.shiftRight_eq_div_pow]
  rfl

/-- A target holds an address exactly when it is of the address's family and its range holds the
address. -/
theorem Target.contains_of_iff {target : Target} {a : Address family} :
    target.contains (.of a) = true ↔
      ∃ block, target.within? family = some block ∧ a ∈ block.range := by
  cases family <;> cases target <;>
    simp [contains, EitherFamily.of, EitherFamily.within?, Block.contains_iff_mem_range]

end AccessList
