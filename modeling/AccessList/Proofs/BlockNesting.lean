import AccessList.Proofs.BlockRanges

/-!
# How two blocks lie to each other

Two blocks never share a part of each only: where they share an address at all, the one with the
smaller length has all addresses of the other. The addresses of a block tell its length and its
network, but not how the bits beyond the length were written. So a rule is known from its region
except for those bits.
-/

namespace AccessList

variable {family : Family}

/-! ## Agreement in top bits -/

namespace Address

variable {a b c : Address family} {count : Nat}

/-- Agreement in top bits goes both ways. -/
theorem SameTopBits.symm (h : SameTopBits count a b) : SameTopBits count b a :=
  fun i hi => (h i hi).symm

/-- Addresses that agree with a third one in top bits agree with each other. -/
theorem SameTopBits.trans (hab : SameTopBits count a b) (hbc : SameTopBits count b c) :
    SameTopBits count a c :=
  fun i hi => (hab i hi).trans (hbc i hi)

/-- The highest address with the same top bits comes a fixed number of places after the lowest
one. -/
theorem toNat_broadcast_eq_add (a : Address family) (length : Nat) :
    (a.broadcast length).toNat =
      (a.network length).toNat + (2 ^ (family.width - length) - 1) := by
  rw [toNat_broadcast, toNat_network]

end Address

/-! ## Ranges of top bits -/

namespace Range

variable {r s : Range family} {a b : Address family} {length longer n m : Nat}

/-- Sharing an address goes both ways. -/
theorem overlaps_comm (r s : Range family) : r.overlaps s = s.overlaps r :=
  Bool.and_comm _ _

/-- A range overlaps all ranges that it contains, for they have addresses. -/
theorem overlaps_of_contains (h : r.contains s = true) : r.overlaps s = true :=
  overlaps_iff.mpr ⟨s.lo, contains_iff.mp h _ s.lo_mem, s.lo_mem⟩

/-- Of two ranges of top bits that share an address, the one for which fewer bits count contains
the other: all addresses in question agree in those bits with the shared one. -/
theorem contains_ofTopBits_of_overlaps
    (hle : min length family.width ≤ min longer family.width)
    (hover : (ofTopBits a length).overlaps (ofTopBits b longer) = true) :
    (ofTopBits a length).contains (ofTopBits b longer) = true := by
  obtain ⟨shared, hsharedA, hsharedB⟩ := overlaps_iff.mp hover
  rw [mem_ofTopBits_iff_sameTopBits] at hsharedA hsharedB
  rw [contains_iff]
  intro c hc
  rw [mem_ofTopBits_iff_sameTopBits] at hc ⊢
  have hcShared : Address.SameTopBits (min length family.width) c shared :=
    (hc.trans hsharedB.symm).mono hle
  exact hcShared.trans hsharedA

/-- Ranges of top bits are nested or apart: they overlap exactly if one contains the other. Where
they overlap, the one with the smaller length, of which no more counts than an address has bits,
contains the other; so with equal lengths each contains the other. -/
theorem ofTopBits_nested (a b : Address family) (n m : Nat) :
    let r := ofTopBits a n
    let s := ofTopBits b m
    (r.overlaps s = true ↔ r.contains s = true ∨ s.contains r = true) ∧
      (r.overlaps s = true →
        (min n family.width ≤ min m family.width → r.contains s = true) ∧
          (min m family.width ≤ min n family.width → s.contains r = true)) := by
  intro r s
  have hnested : r.overlaps s = true →
      (min n family.width ≤ min m family.width → r.contains s = true) ∧
        (min m family.width ≤ min n family.width → s.contains r = true) := by
    intro hover
    have hover' : s.overlaps r = true := (overlaps_comm s r).trans hover
    exact ⟨fun hle => contains_ofTopBits_of_overlaps hle hover,
      fun hle => contains_ofTopBits_of_overlaps hle hover'⟩
  refine ⟨⟨fun hover => ?_, ?_⟩, hnested⟩
  · obtain ⟨hrs, hsr⟩ := hnested hover
    exact (Nat.le_total _ _).imp hrs hsr
  · rintro (hcontains | hcontains)
    · exact overlaps_of_contains hcontains
    · rw [overlaps_comm]
      exact overlaps_of_contains hcontains

/-- A block of eight bits, written with an address other than its first, and a longer block in it.
A length that is too great counts as the full one: the second block is a single address, as it is
with length 32, so that these two contain each other. -/
theorem ofTopBits_nested_of_too_long :
    let block := ofTopBits (.ofNat 0x0AFF004D : Address .v4) 8
    let long := ofTopBits (.ofNat 0x0A010203 : Address .v4) 255
    let full := ofTopBits (.ofNat 0x0A010203 : Address .v4) 32
    block.overlaps long = true ∧ block.contains long = true ∧ ¬ long.contains block = true ∧
      long.contains full = true ∧ full.contains long = true := by
  intro block long full
  have hblock : block.overlaps long = true := by decide
  have hfull : long.overlaps full = true := by decide
  obtain ⟨hlongFull, hfullLong⟩ := (ofTopBits_nested _ _ 255 32).2 hfull
  exact ⟨hblock, ((ofTopBits_nested _ _ 8 255).2 hblock).1 (by decide), by decide,
    hlongFull (by decide), hfullLong (by decide)⟩

/-- A range of top bits tells how many bits count, by its size, and what they are, by its start. It
tells no more. -/
theorem ofTopBits_eq_iff :
    ofTopBits a n = ofTopBits b m ↔
      min n family.width = min m family.width ∧ a.network n = b.network m := by
  constructor
  · intro h
    have hsize : 2 ^ (family.width - n) = 2 ^ (family.width - m) := by
      rw [← ncard_setOf_mem_ofTopBits a n, h, ncard_setOf_mem_ofTopBits]
    have hrest := Nat.pow_right_injective (Nat.le_refl 2) hsize
    exact ⟨by omega, congrArg lo h⟩
  · rintro ⟨hcount, hnetwork⟩
    have hrest : family.width - n = family.width - m := by omega
    refine ext hnetwork (Address.ext_toNat ?_)
    change (a.broadcast n).toNat = (b.broadcast m).toNat
    rw [Address.toNat_broadcast_eq_add, Address.toNat_broadcast_eq_add, hnetwork, hrest]

end Range

/-! ## Blocks and rules -/

/-- Blocks have the same addresses exactly if they have the same length and the same network. -/
theorem Block.range_eq_iff {block other : Block family} :
    block.range = other.range ↔ block.length = other.length ∧
      block.address.network block.length = other.address.network block.length := by
  rw [range, range, Range.ofTopBits_eq_iff, Nat.min_eq_left block.length_le,
    Nat.min_eq_left other.length_le]
  exact and_congr_right fun hlength => by rw [hlength]

namespace EitherFamily

variable {Kind : Family → Type}

/-- Values of different families are never the same value of either family. -/
theorem family_eq_of_of_eq_of {other : Family} {value : Kind family} {value' : Kind other}
    (h : of value = of value') : family = other := by
  rw [← family_of value, h, family_of]

/-- Values of one family stay apart as values of either family. -/
theorem of_inj {value value' : Kind family} : of value = of value' ↔ value = value' := by
  refine ⟨fun h => ?_, congrArg of⟩
  have hwithin := congrArg (within? family) h
  rw [within?_of, within?_of] at hwithin
  exact Option.some_inj.mp hwithin

end EitherFamily

namespace Rule

/-- Two rules have the same region exactly if they have the same action and their targets are blocks
of one family, of the same length and of the same network. -/
theorem region_eq_iff {rule other : Rule} :
    rule.region = other.region ↔ rule.action = other.action ∧
      ∃ (family : Family) (block block' : Block family),
        rule.target = .of block ∧ other.target = .of block' ∧ block.length = block'.length ∧
          block.address.network block.length = block'.address.network block.length := by
  constructor
  · intro h
    obtain ⟨family, block, hblock⟩ := rule.target.exists_eq_of
    obtain ⟨family', block', hblock'⟩ := other.target.exists_eq_of
    rw [region, region, hblock, hblock', EitherFamily.map_of, EitherFamily.map_of] at h
    obtain rfl := EitherFamily.family_eq_of_of_eq_of h
    obtain ⟨hrange, haction⟩ := Region.mk.inj (EitherFamily.of_inj.mp h)
    exact ⟨haction, family, block, block', hblock, hblock', Block.range_eq_iff.mp hrange⟩
  · rintro ⟨haction, family, block, block', hblock, hblock', hsame⟩
    rw [region, region, hblock, hblock', EitherFamily.map_of, EitherFamily.map_of, haction,
      Block.range_eq_iff.mpr hsame]

/-- The region of a rule tells the action, the family, the length and the network, and only the bits
of the target beyond its length are lost. So rules that differ in such bits are different rules with
the same region, and blocks of different lengths never have the same range. -/
theorem region_eq_iff_network_eq :
    (∀ rule other : Rule, rule.region = other.region ↔ rule.action = other.action ∧
        ∃ (family : Family) (block block' : Block family),
          rule.target = .of block ∧ other.target = .of block' ∧ block.length = block'.length ∧
            block.address.network block.length = block'.address.network block.length) ∧
      (∀ (action : Action) (family : Family) (block : Block family) (a : Address family),
        a ≠ block.address → a.network block.length = block.address.network block.length →
          let rule : Rule := ⟨.of block, action⟩
          let other : Rule := ⟨.of { block with address := a }, action⟩
          rule ≠ other ∧ rule.region = other.region) ∧
      ∀ (family : Family) (block block' : Block family),
        block.length ≠ block'.length → block.range ≠ block'.range := by
  refine ⟨fun _ _ => region_eq_iff, fun action family block a hne hnetwork => ⟨fun heq => ?_, ?_⟩,
    fun _ _ _ hlength hrange => hlength (Block.range_eq_iff.mp hrange).1⟩
  · have htarget : block = { block with address := a } :=
      EitherFamily.of_inj.mp (congrArg Rule.target heq)
    exact hne (congrArg Block.address htarget).symm
  · exact region_eq_iff.mpr ⟨rfl, family, block, _, rfl, rfl, rfl, hnetwork.symm⟩

/-- Two rules for one block of sixteen bits, written with different addresses in it, and the block
of seventeen bits with the same first address, which is another range. -/
theorem region_eq_of_host_bits :
    let block : Block .v4 := ⟨.ofNat 0x0A010100, 16, by decide⟩
    let half : Block .v4 := ⟨.ofNat 0x0A010000, 17, by decide⟩
    let rule : Rule := ⟨.of block, .deny⟩
    let other : Rule := ⟨.of { block with address := .ofNat 0x0A01FF07 }, .deny⟩
    rule ≠ other ∧ rule.region = other.region ∧ block.range.lo = half.range.lo ∧
      block.range ≠ half.range := by
  intro block half rule other
  obtain ⟨_, hhost, hlengths⟩ := region_eq_iff_network_eq
  obtain ⟨hne, hregion⟩ := hhost .deny .v4 block (.ofNat 0x0A01FF07) (by decide) (by decide)
  exact ⟨hne, hregion, by decide, hlengths .v4 block half (by decide)⟩

end Rule
end AccessList
