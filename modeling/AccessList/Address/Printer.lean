import AccessList.Address.Basic
import AccessList.Text.Numeral

/-!
# Addresses as text

The canonical spelling of each address. IPv4 is four decimal octets. IPv6 is eight hexadecimal
groups, with the longest run of at least two zero groups left out, the first such run if several
are longest; an address that embeds an IPv4 address ends in that one's octets.
-/

namespace AccessList.Address

-- Powers of natural numbers are core's, whatever other instances are imported.
attribute [local instance(high)] instPowNat

/-- The eight 16-bit groups of an IPv6 address. -/
def groups (a : Address .v6) : List Nat := Radix.digits 0x10000 8 a.toNat

/-- Octets in decimal, separated by points. -/
def dotted (octets : List Nat) : List Char :=
  ['.'].intercalate (octets.map (Text.numeral 10))

/-- Groups in hexadecimal, separated by colons. -/
def colons (groups : List Nat) : List Char :=
  [':'].intercalate (groups.map (Text.numeral 16))

/-- How many zeros a list starts with. -/
def leadingZeros (groups : List Nat) : Nat := (groups.takeWhile (· = 0)).length

/-- Start and length of the longest run of zeros, the first one if several are longest. -/
def longestZeroRun : List Nat → Nat × Nat
  | [] => (0, 0)
  | group :: rest =>
    let here := leadingZeros (group :: rest)
    let (start, length) := longestZeroRun rest
    if length ≤ here then (0, here) else (start + 1, length)

/-- Groups as text. A run of zeros is left out only if it has two groups or more. -/
def compressed (groups : List Nat) : List Char :=
  let (start, length) := longestZeroRun groups
  if 2 ≤ length then
    colons (groups.take start) ++ [':', ':'] ++ colons (groups.drop (start + length))
  else colons groups

/-- Whether an IPv6 address is an IPv4 address in the block set aside for them. -/
def isMapped (a : Address .v6) : Bool := a.toNat / 2 ^ (32 : Nat) = 0xFFFF

/-- The characters of an address. -/
def chars : {family : Family} → Address family → List Char
  | .v4, a => dotted (Radix.digits 256 4 a.toNat)
  | .v6, a =>
    if a.isMapped then
      [':', ':', 'f', 'f', 'f', 'f', ':'] ++ dotted (Radix.digits 256 4 a.toNat)
    else compressed a.groups

/-- An address as text. -/
def text {family : Family} (a : Address family) : String := String.ofList a.chars

end AccessList.Address
