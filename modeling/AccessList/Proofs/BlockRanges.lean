import AccessList.Proofs.Compilation
import Mathlib.Data.Set.Card
import Mathlib.Order.Interval.Finset.Nat

/-!
# How the ranges of blocks lie

The addresses with the same top bits as a given one are as many as the other bits can tell apart,
and the first of them is at a multiple of that number. The more bits count, the smaller the range.
So a rule can be asked for an address through its target, which compares bits, or through its
region, which compares positions.
-/

namespace AccessList

variable {family : Family}

namespace Address

/-- Two addresses agree in their `count` most significant bits. -/
def SameTopBits (count : Nat) (a b : Address family) : Prop :=
  ∀ i < count, a.bits.getMsbD i = b.bits.getMsbD i

/-- Addresses that agree in some top bits agree in fewer of them. -/
theorem SameTopBits.mono {count more : Nat} (hle : count ≤ more) {a b : Address family}
    (h : SameTopBits more a b) : SameTopBits count a b :=
  fun i hi => h i (Nat.lt_of_lt_of_le hi hle)

/-- A top bit of an address, counted from the least significant one. -/
theorem getMsbD_bits (a : Address family) {i : Nat} (hi : i < family.width) :
    a.bits.getMsbD i = a.toNat.testBit (family.width - 1 - i) := by
  rw [BitVec.getMsbD, toNat, BitVec.testBit_toNat, decide_eq_true hi, Bool.true_and]

/-- Agreeing in the top bits is having the same quotient by what the other bits can tell apart. -/
theorem sameTopBits_iff_div_eq {a b : Address family} {count : Nat}
    (hcount : count ≤ family.width) :
    SameTopBits count a b ↔
      a.toNat / 2 ^ (family.width - count) = b.toNat / 2 ^ (family.width - count) := by
  constructor
  · intro h
    apply Nat.eq_of_testBit_eq
    intro i
    rw [Nat.testBit_div_two_pow, Nat.testBit_div_two_pow]
    by_cases hi : i < count
    · have hbit := h (count - 1 - i) (by omega)
      have hplace : family.width - 1 - (count - 1 - i) = i + (family.width - count) := by omega
      rwa [getMsbD_bits a (by omega), getMsbD_bits b (by omega), hplace] at hbit
    · have hzero : ∀ c : Address family, c.toNat.testBit (i + (family.width - count)) = false := by
        intro c
        rw [toNat, BitVec.testBit_toNat]
        exact BitVec.getLsbD_of_ge _ _ (by omega)
      rw [hzero a, hzero b]
  · intro h i hi
    have hplace : family.width - 1 - i = count - 1 - i + (family.width - count) := by omega
    rw [getMsbD_bits a (by omega), getMsbD_bits b (by omega), hplace, ← Nat.testBit_div_two_pow,
      ← Nat.testBit_div_two_pow, h]

end Address

namespace Range

/-- A range has as many addresses as there are positions from its start to its end. -/
theorem ncard_setOf_mem (r : Range family) :
    {a | a ∈ r}.ncard = r.hi.toNat - r.lo.toNat + 1 := by
  have hinj : Function.Injective (Address.toNat : Address family → Nat) :=
    fun _ _ => Address.ext_toNat
  have himage : Address.toNat '' {a | a ∈ r} = Finset.Icc r.lo.toNat r.hi.toNat := by
    ext n
    rw [Set.mem_image, Finset.coe_Icc, Set.mem_Icc]
    constructor
    · rintro ⟨a, ha, rfl⟩
      exact ha
    · intro hn
      have hlt := r.hi.toNat_lt
      have hnat : (Address.ofNat n : Address family).toNat = n := by
        rw [Address.toNat_ofNat, Nat.mod_eq_of_lt (by omega)]
      have hmem : Address.ofNat n ∈ r := by
        rw [mem_def, Address.le_def, Address.le_def, hnat]
        exact hn
      exact ⟨.ofNat n, hmem, hnat⟩
  have hle := Address.le_def.mp r.lo_le_hi
  rw [← Set.ncard_image_of_injective _ hinj, himage, Set.ncard_coe_finset, Nat.card_Icc]
  omega

/-- The top bits that count are those that an address has. -/
theorem mem_ofTopBits_iff_sameTopBits {a b : Address family} {length : Nat} :
    a ∈ ofTopBits b length ↔ Address.SameTopBits (min length family.width) a b := by
  have hrest : family.width - min length family.width = family.width - length := by omega
  rw [mem_ofTopBits_iff, Address.sameTopBits_iff_div_eq (Nat.min_le_right _ _), hrest]

/-- A range of top bits has all addresses that the other bits can tell apart. -/
theorem ncard_setOf_mem_ofTopBits (a : Address family) (length : Nat) :
    {b | b ∈ ofTopBits a length}.ncard = 2 ^ (family.width - length) := by
  have hpos := Nat.two_pow_pos (family.width - length)
  rw [ncard_setOf_mem, ofTopBits, Address.toNat_network, Address.toNat_broadcast]
  omega

/-- A range of top bits starts at a multiple of its size. -/
theorem dvd_lo_ofTopBits (a : Address family) (length : Nat) :
    2 ^ (family.width - length) ∣ (ofTopBits a length).lo.toNat := by
  rw [ofTopBits, Address.toNat_network]
  exact Nat.dvd_mul_left _ _

/-- Where more bits count there are no other addresses. -/
theorem contains_ofTopBits_of_le (a : Address family) {length longer : Nat}
    (hle : length ≤ longer) : (ofTopBits a length).contains (ofTopBits a longer) = true := by
  rw [contains_iff]
  intro b hb
  rw [mem_ofTopBits_iff_sameTopBits] at hb ⊢
  exact hb.mono (by omega)

/-- The range of an address and a length, of which no more counts than an address has bits, holds
the address. It has as many addresses as the other bits can tell apart, and starts at a multiple of
that number. An address is in it exactly if it agrees in the bits that count, and with a greater
length the range is a part of it. -/
theorem ofTopBits_layout (a : Address family) (length : Nat) :
    let count := min length family.width
    let r := ofTopBits a length
    (r.lo ≤ a ∧ a ≤ r.hi) ∧ {b | b ∈ r}.ncard = 2 ^ (family.width - count) ∧
      2 ^ (family.width - count) ∣ r.lo.toNat ∧
      (∀ b, b ∈ r ↔ Address.SameTopBits count b a) ∧
      ∀ longer, length ≤ longer → r.contains (ofTopBits a longer) = true := by
  intro count r
  have hrest : family.width - count = family.width - length := by omega
  rw [hrest]
  exact ⟨⟨a.network_le length, a.le_broadcast length⟩, ncard_setOf_mem_ofTopBits a length,
    dvd_lo_ofTopBits a length, fun _ => mem_ofTopBits_iff_sameTopBits,
    fun _ => contains_ofTopBits_of_le a⟩

/-- With one bit that counts, the range of an address of the upper half is the upper half, and the
range of the address alone, which even too great a length gives, is a part of it. -/
theorem ofTopBits_layout_of_upper_half :
    let a : Address .v4 := .ofNat 0xC0000201
    {b | b ∈ ofTopBits a 1}.ncard = 2 ^ (31 : Nat) ∧ (1 : Nat) ≤ 255 ∧
      (ofTopBits a 1).contains (ofTopBits a 255) = true ∧ ofTopBits a 255 = .single a := by
  intro a
  obtain ⟨_, hcard, _, _, hcontains⟩ := ofTopBits_layout a 1
  exact ⟨hcard, by decide, hcontains 255 (by decide), by decide⟩

end Range

/-! ## Rules -/

/-- A rule concerns an address exactly if its region is of the family of the address and holds the
address. -/
theorem Rule.contains_iff_exists_region (rule : Rule) (ip : IpAddress) :
    rule.contains ip = true ↔
      ∃ (family : Family) (region : Region family) (a : Address family),
        rule.region = .of region ∧ ip = .of a ∧ a ∈ region.range := by
  constructor
  · intro h
    obtain ⟨family, a, rfl⟩ := ip.exists_eq_of
    obtain ⟨region, hregion, hmem⟩ := contains_of_iff.mp h
    exact ⟨family, region, a, EitherFamily.within?_eq_some_iff.mp hregion, rfl, hmem⟩
  · rintro ⟨family, region, a, hregion, rfl, hmem⟩
    exact contains_of_iff.mpr ⟨region, EitherFamily.within?_eq_some_iff.mpr hregion, hmem⟩

end AccessList
