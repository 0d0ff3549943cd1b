import AccessList.Proofs.Octets

/-!
# Order on the wire

Addresses are put in order as numbers, while they come as octets in network order. Both orders are
the same: of two addresses the lower one has the lower octet in the first place where they differ,
and an IPv6 address can be compared by its upper half and then by its lower half in the same way. An
address is as good as its octets and as its halves, for each can be had back from the others.
-/

namespace AccessList

-- Powers of natural numbers are core's, whatever other instances are imported.
attribute [local instance(high)] instPowNat

/-! ## Numbers in two parts -/

namespace Radix

variable {unit upper lower upper' lower' : Nat}

/-- Numbers in two parts are compared by the upper parts first, and then by the lower ones. -/
theorem mul_add_lt_mul_add_iff (h : lower < unit) (h' : lower' < unit) :
    upper * unit + lower < upper' * unit + lower' ↔
      upper < upper' ∨ upper = upper' ∧ lower < lower' := by
  rcases Nat.lt_trichotomy upper upper' with hlt | rfl | hgt
  · have hle : (upper + 1) * unit ≤ upper' * unit := Nat.mul_le_mul_right _ hlt
    rw [Nat.add_mul] at hle
    omega
  · omega
  · have hle : (upper' + 1) * unit ≤ upper * unit := Nat.mul_le_mul_right _ hgt
    rw [Nat.add_mul] at hle
    omega

/-- Octets stand for less than the power that they fill. -/
theorem value_map_toNat_lt (octets : List UInt8) :
    value 256 (octets.map UInt8.toNat) < 256 ^ octets.length := by
  have hlt : value 256 (octets.map UInt8.toNat) < 256 ^ (octets.map UInt8.toNat).length :=
    value_lt fun _ => lt_of_mem_map_toNat
  rwa [List.length_map] at hlt

/-- Octets that are equally many compare like the numbers that they stand for. -/
theorem value_lt_value_iff {octets octets' : List UInt8}
    (hlength : octets.length = octets'.length) :
    value 256 (octets.map UInt8.toNat) < value 256 (octets'.map UInt8.toNat) ↔
      octets < octets' := by
  induction octets generalizing octets' with
  | nil =>
    obtain rfl := List.length_eq_zero_iff.mp hlength.symm
    simp
  | cons octet later ih =>
    cases octets' with
    | nil => cases hlength
    | cons octet' later' =>
      have hlater : later.length = later'.length := Nat.succ.inj hlength
      have hcompare : value 256 (later.map UInt8.toNat) < value 256 (later'.map UInt8.toNat) ↔
          later < later' := ih hlater
      have hlt := value_map_toNat_lt later
      rw [hlater] at hlt
      rw [List.map_cons, List.map_cons, value_cons, value_cons, List.length_map, List.length_map,
        hlater, mul_add_lt_mul_add_iff hlt (value_map_toNat_lt later'), hcompare,
        List.cons_lt_cons_iff, UInt8.lt_iff_toNat_lt, UInt8.toNat_inj]

end Radix

namespace Address

variable {family : Family}

/-! ## Octets -/

/-- The octets of an address stand for its position. -/
theorem value_map_toNat_octets (a : Address family) :
    Radix.value 256 (a.octets.map UInt8.toNat) = a.toNat := by
  rw [map_toNat_octets, Radix.value_digits, Family.pow_octetCount, Nat.mod_eq_of_lt a.toNat_lt]

/-- Addresses compare like their octets. -/
theorem lt_iff_octets_lt {a b : Address family} : a < b ↔ a.octets < b.octets := by
  have hlength : a.octets.length = b.octets.length := by rw [length_octets, length_octets]
  rw [← Radix.value_lt_value_iff hlength, value_map_toNat_octets, value_map_toNat_octets, lt_def]

/-- Any octets are those of an address, if there are as many as it has. -/
theorem exists_octets_eq {octets : List UInt8} (hlength : octets.length = family.octetCount) :
    ∃ a : Address family, ofOctets? octets = some a ∧ a.octets = octets := by
  have hsome : (ofOctets? octets : Option (Address family)) = some _ := if_pos hlength
  exact ⟨_, hsome, (ofOctets?_eq_some_iff.mp hsome).symm⟩

/-! ## Halves -/

/-- The upper half of an address counts in units of the lower one. -/
theorem toNat_halves (a : Address .v6) :
    a.toNat = a.halves.1.toNat * 2 ^ (64 : Nat) + a.halves.2.toNat := by
  have hlt : a.toNat < 2 ^ (128 : Nat) := a.toNat_lt
  rw [halves, UInt64.toNat_ofNat', UInt64.toNat_ofNat']
  omega

/-- The address made of two halves is at the position that they stand for. -/
theorem toNat_ofHalves (upper lower : UInt64) :
    (ofHalves upper lower).toNat = upper.toNat * 2 ^ (64 : Nat) + lower.toNat := by
  have hupper := upper.toNat_lt
  have hlower := lower.toNat_lt
  have hlt : upper.toNat * 2 ^ (64 : Nat) + lower.toNat < 2 ^ (128 : Nat) := by omega
  rw [ofHalves, toNat_ofNat]
  exact Nat.mod_eq_of_lt hlt

/-- Addresses compare like their halves, the upper ones first. -/
theorem lt_iff_halves_lt {a b : Address .v6} : a < b ↔ Prod.lexLt a.halves b.halves := by
  rw [lt_def, toNat_halves a, toNat_halves b,
    Radix.mul_add_lt_mul_add_iff a.halves.2.toNat_lt b.halves.2.toNat_lt, Prod.lexLt,
    UInt64.lt_iff_toNat_lt, UInt64.lt_iff_toNat_lt, UInt64.toNat_inj]

/-- An address is made of its halves. -/
theorem ofHalves_halves (a : Address .v6) : ofHalves a.halves.1 a.halves.2 = a := by
  apply ext_toNat
  rw [toNat_ofHalves, ← toNat_halves]

/-- An address made of two halves has those halves. -/
theorem halves_ofHalves (upper lower : UInt64) :
    (ofHalves upper lower).halves = (upper, lower) := by
  have hposition := toNat_halves (ofHalves upper lower)
  have hlower := lower.toNat_lt
  have hlower' := (ofHalves upper lower).halves.2.toNat_lt
  rw [toNat_ofHalves] at hposition
  have hupper : (ofHalves upper lower).halves.1.toNat = upper.toNat := by omega
  have hrest : (ofHalves upper lower).halves.2.toNat = lower.toNat := by omega
  exact Prod.ext (UInt64.toNat_inj.mp hupper) (UInt64.toNat_inj.mp hrest)

/-- Addresses of either family are ordered like their octets, and IPv6 addresses like their halves
too, where the first octet or half that differs decides. Writing octets and making an address of
them are inverse, on all addresses and on all octets of the right number. So are cutting an IPv6
address into halves and putting two halves together. -/
theorem lt_iff_octets_and_halves :
    (∀ (family : Family) (a b : Address family), a < b ↔ a.octets < b.octets) ∧
      (∀ a b : Address .v6, a < b ↔ Prod.lexLt a.halves b.halves) ∧
      (∀ (family : Family) (a : Address family), ofOctets? a.octets = some a) ∧
      (∀ (family : Family) (octets : Vector UInt8 family.octetCount),
        ∃ a : Address family, ofOctets? octets.toList = some a ∧ a.octets = octets.toList) ∧
      (∀ a : Address .v6, ofHalves a.halves.1 a.halves.2 = a) ∧
      ∀ upper lower : UInt64, (ofHalves upper lower).halves = (upper, lower) :=
  ⟨fun _ _ _ => lt_iff_octets_lt, fun _ _ => lt_iff_halves_lt,
    fun _ _ => ofOctets?_eq_some_iff.mpr rfl, fun _ _ => exists_octets_eq Vector.length_toList,
    ofHalves_halves, halves_ofHalves⟩

end Address
end AccessList
