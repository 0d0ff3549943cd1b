import AccessList.Family
import AccessList.Radix

/-!
# Addresses

An address is a word of fixed width, in network order, so the addresses of a family are the
points of a line from `first` to `last`. This module has the order, neighbours on the line, the
addresses that share the top bits of a given one, and the two byte-wise views.
-/

namespace AccessList

/-- An address of a family. -/
structure Address (family : Family) where
  /-- The bits of the address, most significant first on the wire. -/
  bits : BitVec family.width
  deriving DecidableEq

namespace Address

variable {family : Family}

-- Powers of natural numbers are core's, whatever other instances are imported.
attribute [local instance(high)] instPowNat

/-- The position of an address on the line. -/
def toNat (a : Address family) : Nat := a.bits.toNat

/-- The address at a position, modulo the size of the address space. -/
def ofNat (n : Nat) : Address family := ⟨BitVec.ofNat _ n⟩

/-- Positions fit into the bits of an address. -/
theorem toNat_lt (a : Address family) : a.toNat < 2 ^ family.width := a.bits.isLt

/-- Addresses at the same position are the same. -/
theorem ext_toNat {a b : Address family} (h : a.toNat = b.toNat) : a = b := by
  cases a
  cases b
  exact congrArg mk (BitVec.eq_of_toNat_eq h)

/-- Positions tell the addresses of a family apart. -/
theorem toNat_inj {a b : Address family} : a.toNat = b.toNat ↔ a = b :=
  ⟨ext_toNat, congrArg toNat⟩

/-- Every address is at its position. -/
@[simp] theorem ofNat_toNat (a : Address family) : ofNat a.toNat = a :=
  ext_toNat (by simp [toNat, ofNat])

/-- Positions beyond the last address start over at the first one. -/
theorem toNat_ofNat (n : Nat) : (ofNat n : Address family).toNat = n % 2 ^ family.width := by
  simp [toNat, ofNat]

instance : LE (Address family) := ⟨fun a b => a.toNat ≤ b.toNat⟩

instance : LT (Address family) := ⟨fun a b => a.toNat < b.toNat⟩

/-- Addresses are ordered by position. -/
theorem le_def {a b : Address family} : a ≤ b ↔ a.toNat ≤ b.toNat := Iff.rfl

/-- The strict order is that of positions, too. -/
theorem lt_def {a b : Address family} : a < b ↔ a.toNat < b.toNat := Iff.rfl

instance (a b : Address family) : Decidable (a ≤ b) :=
  inferInstanceAs (Decidable (a.toNat ≤ b.toNat))

instance (a b : Address family) : Decidable (a < b) :=
  inferInstanceAs (Decidable (a.toNat < b.toNat))

instance : Ord (Address family) := ⟨fun a b => compare a.toNat b.toNat⟩

instance : Min (Address family) := minOfLe

instance : Max (Address family) := maxOfLe

/-- The lower of two addresses is at the lower of their positions. -/
theorem toNat_min (a b : Address family) : (min a b).toNat = min a.toNat b.toNat := by
  show (if a ≤ b then a else b).toNat = _
  split
  · next h =>
    rw [le_def] at h
    omega
  · next h =>
    rw [le_def] at h
    omega

/-- The higher of two addresses is at the higher of their positions. -/
theorem toNat_max (a b : Address family) : (max a b).toNat = max a.toNat b.toNat := by
  show (if a ≤ b then b else a).toNat = _
  split
  · next h =>
    rw [le_def] at h
    omega
  · next h =>
    rw [le_def] at h
    omega

/-! ## The line of addresses -/

/-- The address of zeros. -/
def first : Address family := ⟨0⟩

/-- The address of ones. -/
def last : Address family := ⟨BitVec.allOnes _⟩

instance : Inhabited (Address family) := ⟨first⟩

/-- Positions are counted from zero. -/
@[simp] theorem toNat_first : (first : Address family).toNat = 0 := by
  simp [toNat, first]

/-- The last position is one less than the number of addresses. -/
@[simp] theorem toNat_last : (last : Address family).toNat = 2 ^ family.width - 1 := by
  simp [toNat, last]

/-- No address is before the first one. -/
theorem first_le (a : Address family) : first ≤ a := by
  simp [le_def]

/-- No address is after the last one. -/
theorem le_last (a : Address family) : a ≤ last := by
  have h := a.toNat_lt
  rw [le_def, toNat_last]
  omega

/-- The next address, with the first one after the last. -/
def wrappingNext (a : Address family) : Address family := ⟨a.bits + 1#_⟩

/-- The previous address, with the last one before the first. -/
def wrappingPrev (a : Address family) : Address family := ⟨a.bits - 1#_⟩

/-- The next address, if there is one. -/
def next? (a : Address family) : Option (Address family) :=
  if a = last then none else some a.wrappingNext

/-- The previous address, if there is one. -/
def prev? (a : Address family) : Option (Address family) :=
  if a = first then none else some a.wrappingPrev

/-- Before the last address, going on does not wrap around. -/
theorem toNat_wrappingNext {a : Address family} (h : a ≠ last) :
    a.wrappingNext.toNat = a.toNat + 1 := by
  have hlt := a.toNat_lt
  have hne : a.toNat ≠ 2 ^ family.width - 1 := fun he => h (ext_toNat (by simpa using he))
  have hadd : (a.bits + 1#_).toNat = (a.toNat + 1) % 2 ^ family.width := by
    rw [BitVec.toNat_add, BitVec.toNat_one family.width_pos, toNat]
  rw [wrappingNext, toNat, hadd]
  exact Nat.mod_eq_of_lt (by omega)

/-- After the first address, going back does not wrap around. -/
theorem toNat_wrappingPrev {a : Address family} (h : a ≠ first) :
    a.wrappingPrev.toNat = a.toNat - 1 := by
  have hlt := a.toNat_lt
  have hne : a.toNat ≠ 0 := fun he => h (ext_toNat (by simpa using he))
  have hsub : (a.bits - 1#_).toNat = (2 ^ family.width - 1 + a.toNat) % 2 ^ family.width := by
    rw [BitVec.toNat_sub, BitVec.toNat_one family.width_pos, toNat]
  rw [wrappingPrev, toNat, hsub]
  have hsplit : 2 ^ family.width - 1 + a.toNat = 2 ^ family.width + (a.toNat - 1) := by omega
  rw [hsplit, Nat.add_mod_left]
  exact Nat.mod_eq_of_lt (by omega)

/-- One address follows another exactly when its position is one more. -/
theorem next?_eq_some_iff {a b : Address family} : a.next? = some b ↔ b.toNat = a.toNat + 1 := by
  have hb := b.toNat_lt
  unfold next?
  split
  · next h =>
    subst h
    simp only [toNat_last, reduceCtorEq, false_iff]
    omega
  · next h =>
    rw [Option.some_inj, ← toNat_inj, toNat_wrappingNext h]
    exact eq_comm

/-- Only the last address has no next one. -/
theorem next?_eq_none_iff {a : Address family} : a.next? = none ↔ a = last := by
  simp [next?]

/-- One address precedes another exactly when its position is one less. -/
theorem prev?_eq_some_iff {a b : Address family} : a.prev? = some b ↔ b.toNat + 1 = a.toNat := by
  unfold prev?
  split
  · next h =>
    subst h
    simp
  · next h =>
    have hne : a.toNat ≠ 0 := fun he => h (ext_toNat (by simpa using he))
    rw [Option.some_inj, ← toNat_inj, toNat_wrappingPrev h]
    omega

/-- Only the first address has no previous one. -/
theorem prev?_eq_none_iff {a : Address family} : a.prev? = none ↔ a = first := by
  simp [prev?]

/-! ## Top bits -/

/-- Ones in all places below the top `length` ones; none are left from the width on. -/
def hostMask (family : Family) (length : Nat) : BitVec family.width :=
  BitVec.allOnes family.width >>> length

/-- The lowest address with the same top `length` bits. -/
def network (a : Address family) (length : Nat) : Address family :=
  ⟨a.bits &&& ~~~hostMask family length⟩

/-- The highest address with the same top `length` bits. -/
def broadcast (a : Address family) (length : Nat) : Address family :=
  ⟨a.bits ||| hostMask family length⟩

/-- The lowest address with the same top bits is no higher than the address. -/
theorem network_le (a : Address family) (length : Nat) : a.network length ≤ a := by
  rw [le_def, toNat, toNat, network, BitVec.toNat_and]
  exact Nat.and_le_left

/-- The highest address with the same top bits is no lower than the address. -/
theorem le_broadcast (a : Address family) (length : Nat) : a ≤ a.broadcast length := by
  rw [le_def, toNat, toNat, broadcast, BitVec.toNat_or]
  exact Nat.left_le_or

/-! ## Octets and halves -/

/-- The octets of an address, most significant first. -/
def octets (a : Address family) : List UInt8 :=
  (Radix.digits 256 family.octetCount a.toNat).map UInt8.ofNat

/-- The address with the given octets, if their number is right for the family. -/
def ofOctets? (octets : List UInt8) : Option (Address family) :=
  if octets.length = family.octetCount then
    some (ofNat (Radix.value 256 (octets.map UInt8.toNat)))
  else none

/-- The upper and the lower 64 bits. -/
def halves (a : Address .v6) : UInt64 × UInt64 :=
  (UInt64.ofNat (a.toNat / 2 ^ (64 : Nat)), UInt64.ofNat a.toNat)

/-- The address with the given upper and lower 64 bits. -/
def ofHalves (upper lower : UInt64) : Address .v6 :=
  ofNat (upper.toNat * 2 ^ (64 : Nat) + lower.toNat)

end Address
end AccessList
