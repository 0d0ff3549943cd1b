/-!
# Address families

The two kinds of addresses, and values that belong to either one.
-/

namespace AccessList

/-- The version of the internet protocol an address belongs to. -/
inductive Family where
  | v4
  | v6
  deriving DecidableEq, Repr

namespace Family

/-- The number of bits of an address. -/
abbrev width : Family → Nat
  | v4 => 32
  | v6 => 128

/-- The number of octets of an address. -/
abbrev octetCount : Family → Nat
  | v4 => 4
  | v6 => 16

/-- Addresses have bits. -/
theorem width_pos (family : Family) : 0 < family.width := by
  cases family <;> decide

-- Powers of natural numbers are core's, whatever other instances are imported.
attribute [local instance(high)] instPowNat in
/-- The octets hold exactly the bits of an address. -/
theorem pow_octetCount (family : Family) : 256 ^ family.octetCount = 2 ^ family.width := by
  cases family <;> rfl

end Family

/-- A value of one family, for kinds of values that both families have. -/
inductive EitherFamily (Kind : Family → Type) where
  /-- A value that concerns IPv4. -/
  | v4 (value : Kind .v4)
  /-- A value that concerns IPv6. -/
  | v6 (value : Kind .v6)

namespace EitherFamily

variable {Kind Other : Family → Type}

instance [DecidableEq (Kind .v4)] [DecidableEq (Kind .v6)] : DecidableEq (EitherFamily Kind)
  | v4 a, v4 b => decidable_of_iff (a = b) (by simp)
  | v6 a, v6 b => decidable_of_iff (a = b) (by simp)
  | v4 _, v6 _ => isFalse nofun
  | v6 _, v4 _ => isFalse nofun

/-- The value as one of either family. -/
def of : {family : Family} → Kind family → EitherFamily Kind
  | .v4, value => v4 value
  | .v6, value => v6 value

/-- The family that the value concerns. -/
def family : EitherFamily Kind → Family
  | v4 _ => .v4
  | v6 _ => .v6

/-- The value, if it concerns the given family. -/
def within? : (family : Family) → EitherFamily Kind → Option (Kind family)
  | .v4, v4 value => some value
  | .v6, v6 value => some value
  | .v4, v6 _ => none
  | .v6, v4 _ => none

/-- Applies a function that exists for both families. -/
def map (f : {family : Family} → Kind family → Other family) :
    EitherFamily Kind → EitherFamily Other
  | v4 value => v4 (f value)
  | v6 value => v6 (f value)

/-- A value of a family concerns that family. -/
@[simp] theorem family_of {family : Family} (value : Kind family) :
    (of value).family = family := by
  cases family <;> rfl

/-- A value of a family is found in that family. -/
@[simp] theorem within?_of {family : Family} (value : Kind family) :
    (of value).within? family = some value := by
  cases family <;> rfl

/-- A function on either kind of values is applied to the value of the family. -/
@[simp] theorem map_of (f : {family : Family} → Kind family → Other family) {family : Family}
    (value : Kind family) : (of value).map f = of (f value) := by
  cases family <;> rfl

/-- A value concerns a family exactly when it is one of that family. -/
theorem within?_eq_some_iff {family : Family} {value : Kind family} {x : EitherFamily Kind} :
    x.within? family = some value ↔ x = of value := by
  cases family <;> cases x <;> simp [within?, of]

/-- A value of either family is a value of one of them. -/
theorem exists_eq_of (x : EitherFamily Kind) :
    ∃ (family : Family) (value : Kind family), x = of value := by
  cases x with
  | v4 value => exact ⟨.v4, value, rfl⟩
  | v6 value => exact ⟨.v6, value, rfl⟩

end EitherFamily
end AccessList
