import AccessList.Address.Reader
import AccessList.Range

/-!
# Blocks

A block is written as an address and a length: it holds the addresses that agree with the
written one on that many top bits. The written address may have bits beyond the length; they are
kept in the block's text and tell blocks apart, but do not change what the block holds.

How blocks are written and what they hold is fixed by the documentation of a third-party library of
network prefixes, and is taken as given: `Spelling.lenient`, `Block.lengthForm` and
`Block.ofChars?` follow its grammar, `Block.text` its printing, and `Block.contains` its test of
membership.
-/

namespace AccessList

/-- The addresses that agree with `address` on the top `length` bits. -/
structure Block (family : Family) where
  /-- The address as written. -/
  address : Address family
  /-- The number of bits that count. -/
  length : Nat
  /-- Only bits that an address has can count. -/
  length_le : length ≤ family.width
  deriving DecidableEq

namespace Block

variable {family : Family}

/-- The block of one address. -/
def single (a : Address family) : Block family := ⟨a, family.width, Nat.le_refl _⟩

/-- Whether an address agrees with the block's on the bits that count. -/
def contains (b : Block family) (a : Address family) : Bool :=
  a.bits >>> (family.width - b.length) = b.address.bits >>> (family.width - b.length)

/-- The addresses of a block as a range. -/
def range (b : Block family) : Range family := .ofTopBits b.address b.length

/-- The characters of a block. -/
def chars (b : Block family) : List Char :=
  b.address.chars ++ '/' :: Text.numeral 10 b.length

/-- A block as text. -/
def text (b : Block family) : String := String.ofList b.chars

/-- How the length of a block is written. -/
def lengthForm : Family → Text.NumberForm
  | .v4 => ⟨10, 2, 33, true⟩
  | .v6 => ⟨10, 3, 129, true⟩

/-- The block that a whole text writes: an address in the lenient spelling, a slash and a
length. -/
def ofChars? (family : Family) (text : List Char) : Option (Block family) := do
  let (address, text) ← Address.read? .lenient family text
  let text ← Text.skip? '/' text
  let (length, rest) ← (lengthForm family).read? text
  if h : length ≤ family.width then
    if rest.isEmpty then some ⟨address, length, h⟩ else none
  else none

end Block
end AccessList
