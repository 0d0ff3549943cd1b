import AccessList.Proofs.TargetText

/-!
# Addresses as octets

On the wire an address is its octets, in one order for both families; two octets make one of the
groups that IPv6 addresses are written in. An address can be told from its octets, and reading a
text as octets first and as an address then is the same as reading the address at once.
-/

namespace AccessList

-- Powers of natural numbers are core's, whatever other instances are imported.
attribute [local instance(high)] instPowNat

/-! ## Digits -/

namespace Radix

/-- The upper digits of a number are those of its quotient by the power that the lower ones fill. -/
theorem digits_add (base count more n : Nat) :
    digits base (count + more) n = digits base count (n / base ^ more) ++ digits base more n := by
  induction count with
  | zero => simp [digits]
  | succ count ih =>
    rw [Nat.add_right_comm, digits, ih, digits, List.cons_append, Nat.div_div_eq_div_mul,
      ← Nat.pow_add, Nat.add_comm more count]

/-- Octets are digits in base 256. -/
theorem lt_of_mem_map_toNat {octets : List UInt8} {n : Nat} (hn : n ∈ octets.map UInt8.toNat) :
    n < 256 := by
  obtain ⟨octet, _, rfl⟩ := List.mem_map.mp hn
  exact octet.toNat_lt

/-- Numbers with the same lower digits have the same remainder. -/
theorem mod_eq_of_digits_eq {base count n m : Nat} (h : digits base count n = digits base count m) :
    n % base ^ count = m % base ^ count := by
  rw [← value_digits, h, value_digits]

end Radix

/-! ## Octets and groups -/

namespace Address

variable {family : Family} {octets : List UInt8} {numbers groups : List Nat}

/-- Small numbers are not changed as octets. -/
theorem map_toNat_map_ofNat (h : ∀ n ∈ numbers, n < 256) :
    (numbers.map UInt8.ofNat).map UInt8.toNat = numbers := by
  rw [List.map_map]
  have hsame : ∀ n ∈ numbers, (UInt8.toNat ∘ UInt8.ofNat) n = id n :=
    fun n hn => UInt8.toNat_ofNat_of_lt (h n hn)
  rw [List.map_congr_left hsame, List.map_id]

/-- The octets of an address are its digits in base 256. -/
theorem map_toNat_octets (a : Address family) :
    a.octets.map UInt8.toNat = Radix.digits 256 family.octetCount a.toNat :=
  map_toNat_map_ofNat fun _ hdigit => Radix.lt_of_mem_digits (by decide) hdigit

/-- An address has as many octets as its family says. -/
theorem length_octets (a : Address family) : a.octets.length = family.octetCount := by
  rw [Address.octets, List.length_map, Radix.length_digits]

/-- An address is made of octets exactly if they are its octets. -/
theorem ofOctets?_eq_some_iff {a : Address family} :
    ofOctets? octets = some a ↔ octets = a.octets := by
  have hlt : ∀ n ∈ octets.map UInt8.toNat, n < 256 := fun _ => Radix.lt_of_mem_map_toNat
  constructor
  · intro h
    unfold ofOctets? at h
    split at h
    · next hlength =>
      obtain rfl := Option.some_inj.mp h
      have hvalue := Radix.value_lt hlt
      rw [List.length_map, hlength, Family.pow_octetCount] at hvalue
      have hdigits := Radix.digits_value hlt
      rw [List.length_map, hlength] at hdigits
      rw [Address.octets, toNat_ofNat, Nat.mod_eq_of_lt hvalue, hdigits, List.map_map]
      have hsame : ∀ octet ∈ octets, (UInt8.ofNat ∘ UInt8.toNat) octet = id octet :=
        fun octet _ => UInt8.ofNat_toNat
      rw [List.map_congr_left hsame, List.map_id]
    · cases h
  · rintro rfl
    rw [ofOctets?, if_pos a.length_octets, map_toNat_octets, Radix.value_digits,
      Family.pow_octetCount, Nat.mod_eq_of_lt a.toNat_lt, ofNat_toNat]

/-- The groups that octets make, two octets each. -/
def groupsOfOctets : List UInt8 → List Nat
  | upper :: lower :: later => (upper.toNat * 256 + lower.toNat) :: groupsOfOctets later
  | _ => []

/-- The octets of groups, two for each. -/
def octetsOfGroups (groups : List Nat) : List UInt8 :=
  groups.flatMap fun g => (Radix.digits 256 2 g).map UInt8.ofNat

/-- Two digits in base 256 are one of a group. -/
theorem groupsOfOctets_digits (count n : Nat) :
    groupsOfOctets ((Radix.digits 256 (2 * count) n).map UInt8.ofNat) =
      Radix.digits 0x10000 count n := by
  induction count with
  | zero => rfl
  | succ count ih =>
    have hupper : (UInt8.ofNat (n / 256 ^ (2 * count + 1) % 256)).toNat =
        n / 256 ^ (2 * count) / 256 % 256 := by
      rw [Nat.pow_succ, ← Nat.div_div_eq_div_mul]
      exact UInt8.toNat_ofNat_of_lt (Nat.mod_lt _ (by decide))
    have hlower : (UInt8.ofNat (n / 256 ^ (2 * count) % 256)).toNat =
        n / 256 ^ (2 * count) % 256 :=
      UInt8.toNat_ofNat_of_lt (Nat.mod_lt _ (by decide))
    have hbase : (0x10000 : Nat) = 256 ^ 2 := by decide
    have hpow : (0x10000 : Nat) ^ count = 256 ^ (2 * count) := by
      rw [hbase, ← Nat.pow_mul]
    rw [Nat.mul_succ, Radix.digits, Radix.digits, List.map_cons, List.map_cons, groupsOfOctets, ih,
      hupper, hlower, Radix.digits, hpow]
    congr 1
    omega

/-- The groups of an address are made of its octets. -/
theorem groupsOfOctets_octets (a : Address .v6) : groupsOfOctets a.octets = a.groups :=
  groupsOfOctets_digits 8 a.toNat

/-- Every group has two octets. -/
@[simp] theorem length_octetsOfGroups (groups : List Nat) :
    (octetsOfGroups groups).length = 2 * groups.length := by
  induction groups with
  | nil => rfl
  | cons g groups ih =>
    rw [octetsOfGroups, List.flatMap_cons, List.length_append, ← octetsOfGroups, ih,
      List.length_map, Radix.length_digits, List.length_cons]
    omega

/-- The octets of groups stand for the same number as the groups. -/
theorem value_octetsOfGroups (hgroups : ∀ g ∈ groups, g < 0x10000) :
    Radix.value 256 ((octetsOfGroups groups).map UInt8.toNat) = Radix.value 0x10000 groups := by
  induction groups with
  | nil => simp [octetsOfGroups, Radix.value]
  | cons g groups ih =>
    have hg : g < 0x10000 := hgroups g List.mem_cons_self
    have hlater := ih fun h hh => hgroups h (List.mem_cons_of_mem _ hh)
    have hbase : (0x10000 : Nat) = 256 ^ 2 := by decide
    have hdigits : ∀ d ∈ Radix.digits 256 2 g, d < 256 :=
      fun _ => Radix.lt_of_mem_digits (by decide)
    rw [octetsOfGroups, List.flatMap_cons, List.map_append, map_toNat_map_ofNat hdigits,
      ← octetsOfGroups, Radix.value_append, Radix.value_digits, hlater, List.length_map,
      length_octetsOfGroups, Radix.value_cons, Nat.mod_eq_of_lt (hbase ▸ hg), Nat.pow_mul, ← hbase]

/-- Octets of numbers below 256 are an address if they are as many as it has. -/
theorem ofOctets?_map_ofNat (hlength : numbers.length = family.octetCount)
    (h : ∀ n ∈ numbers, n < 256) :
    ofOctets? (numbers.map UInt8.ofNat) =
      some (ofNat (Radix.value 256 numbers) : Address family) := by
  rw [ofOctets?, List.length_map, if_pos hlength, map_toNat_map_ofNat h]

/-- Octets of eight groups are the address that has the groups. -/
theorem ofOctets?_octetsOfGroups (hlength : groups.length = 8)
    (hgroups : ∀ g ∈ groups, g < 0x10000) :
    ofOctets? (octetsOfGroups groups) =
      some (ofNat (Radix.value 0x10000 groups) : Address .v6) := by
  rw [ofOctets?, length_octetsOfGroups, hlength, if_pos rfl, value_octetsOfGroups hgroups]

end Address

/-! ## Reading octets -/

namespace Spelling

open Text (NumberForm)

variable {spelling : Spelling} {text rest : List Char} {octets groups : List Nat}

/-- Four octets are read. -/
theorem of_readOctets? (hspelling : spelling.Known)
    (h : spelling.readOctets? text = some (octets, rest)) :
    octets.length = 4 ∧ ∀ octet ∈ octets, octet < 256 := by
  simp only [readOctets?, Option.bind_eq_bind, Option.bind_eq_some_iff, Prod.exists] at h
  obtain ⟨a, _, ha, _, _, b, _, hb, _, _, c, _, hc, _, _, d, _, hd, hread⟩ := h
  cases hread
  have hbound := hspelling.bound_eq
  have ha := NumberForm.lt_bound_of_read? ha
  have hb := NumberForm.lt_bound_of_read? hb
  have hc := NumberForm.lt_bound_of_read? hc
  have hd := NumberForm.lt_bound_of_read? hd
  rw [hbound] at ha hb hc hd
  simp [ha, hb, hc, hd]

/-- No more groups are read than there is room for. -/
theorem of_readRun {limit : Nat} {isFirst dotted : Bool}
    (h : spelling.readRun limit isFirst text = ⟨groups, dotted, rest⟩) :
    groups.length ≤ limit ∧ ∀ g ∈ groups, g < 0x10000 := by
  induction limit generalizing isFirst text groups with
  | zero =>
    cases h
    exact ⟨Nat.le_refl _, fun _ hg => absurd hg List.not_mem_nil⟩
  | succ limit ih =>
    rcases readRun_cases h with ⟨body, hlimit, _, _, hread⟩ |
      ⟨body, g, behind, later, _, hread, hrun, rfl⟩ | ⟨rfl, _, _⟩
    · simp only [readDottedGroups?, Option.bind_eq_bind, Option.bind_eq_some_iff,
        Prod.exists] at hread
      obtain ⟨octets, _, _, hgroups⟩ := hread
      cases hgroups
      refine ⟨?_, fun _ hg => Radix.lt_of_mem_digits (by decide) hg⟩
      rw [Radix.length_digits]
      omega
    · obtain ⟨hlength, hlater⟩ := ih hrun
      have hg : g < 0x10000 := NumberForm.lt_bound_of_read? hread
      exact ⟨Nat.succ_le_succ hlength, List.forall_mem_cons.mpr ⟨hg, hlater⟩⟩
    · exact ⟨Nat.zero_le _, fun _ hg => absurd hg List.not_mem_nil⟩

/-- Eight groups are read. -/
theorem of_readGroups? (h : spelling.readGroups? text = some (groups, rest)) :
    groups.length = 8 ∧ ∀ g ∈ groups, g < 0x10000 := by
  cases readGroups?_eq_some_iff.mp h with
  | full hhead height => exact ⟨height, (of_readRun hhead).2⟩
  | @elided front back _ _ _ hhead height htail =>
    obtain ⟨hfrontLength, hfront⟩ := of_readRun hhead
    obtain ⟨hbackLength, hback⟩ := of_readRun htail
    constructor
    · rw [List.length_append, List.length_append, List.length_replicate]
      omega
    · intro g hg
      rw [List.mem_append, List.mem_append, List.mem_replicate] at hg
      rcases hg with (hg | ⟨_, rfl⟩) | hg
      · exact hfront g hg
      · decide
      · exact hback g hg

end Spelling

namespace Address

/-- The octets that a whole text spells strictly, as the address with these octets. -/
def octetsOfChars? : Family → List Char → Option (List UInt8)
  | .v4, text => do
    let (octets, rest) ← Spelling.strict.readOctets? text
    if rest.isEmpty then some (octets.map UInt8.ofNat) else none
  | .v6, text => do
    let (groups, rest) ← Spelling.strict.readGroups? text
    if rest.isEmpty then some (octetsOfGroups groups) else none

/-- Reading an address is reading its octets, and making the address of them. -/
theorem ofChars?_eq_bind_ofOctets? (family : Family) (text : List Char) :
    ofChars? .strict family text = (octetsOfChars? family text).bind ofOctets? := by
  cases family with
  | v4 =>
    cases hread : Spelling.strict.readOctets? text with
    | none => simp [ofChars?, read?, octetsOfChars?, hread]
    | some found =>
      obtain ⟨octets, rest⟩ := found
      obtain ⟨hlength, hoctets⟩ := Spelling.of_readOctets? Spelling.known_strict hread
      simp only [ofChars?, read?, octetsOfChars?, hread, Option.bind_eq_bind, Option.bind_some]
      split
      · exact (ofOctets?_map_ofNat hlength hoctets).symm
      · rfl
  | v6 =>
    cases hread : Spelling.strict.readGroups? text with
    | none => simp [ofChars?, read?, octetsOfChars?, hread]
    | some found =>
      obtain ⟨groups, rest⟩ := found
      obtain ⟨hlength, hgroups⟩ := Spelling.of_readGroups? hread
      simp only [ofChars?, read?, octetsOfChars?, hread, Option.bind_eq_bind, Option.bind_some]
      split
      · exact (ofOctets?_octetsOfGroups hlength hgroups).symm
      · rfl

end Address
end AccessList
