import AccessList.Block

/-!
# Targets

What a rule is about: a block of either family. A bare address is short for the block that holds
it alone.
-/

namespace AccessList

/-- A block of either family. -/
abbrev Target := EitherFamily Block

namespace Target

/-- The target that holds one address. -/
def single (ip : IpAddress) : Target := ip.map Block.single

/-- Whether a target holds an address; one of the other family it never does. -/
def contains : Target → IpAddress → Bool
  | .v4 block, .v4 a => block.contains a
  | .v6 block, .v6 a => block.contains a
  | .v4 _, .v6 _ => false
  | .v6 _, .v4 _ => false

/-- A target as text. -/
def text : Target → String
  | .v4 block => block.text
  | .v6 block => block.text

/-- The block that a text writes, in whichever family. -/
def ofBlockChars? (text : List Char) : Option Target :=
  match Block.ofChars? .v4 text with
  | some block => some (.v4 block)
  | none => (Block.ofChars? .v6 text).map .v6

/-- The target that a text writes as a block or as a bare address. -/
def ofChars? (text : List Char) : Option Target :=
  match ofBlockChars? text with
  | some target => some target
  | none => (IpAddress.ofChars? text).map single

end Target
end AccessList
