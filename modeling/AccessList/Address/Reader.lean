import AccessList.Address.Basic
import AccessList.Text.Numeral

/-!
# Reading addresses

Two spellings of addresses are read by one grammar. A bare address is written strictly: octets
have no leading zero, and a double colon stands for one zero group or more. In front of a block
length the lenient spelling holds: leading zeros are allowed, and a double colon may stand for
no group at all. An access list is asked about addresses of either family.
-/

namespace AccessList

/-- What a spelling of addresses leaves open. -/
structure Spelling where
  /-- The form of an octet. -/
  octet : Text.NumberForm
  /-- How many zero groups a double colon stands for at least. -/
  leastElided : Nat

namespace Spelling

/-- The spelling of bare addresses. -/
def strict : Spelling := ⟨⟨10, 3, 256, false⟩, 1⟩

/-- The spelling of addresses in front of a block length. -/
def lenient : Spelling := ⟨⟨10, 3, 256, true⟩, 0⟩

/-- A 16-bit group has one to four hexadecimal digits. -/
def group : Text.NumberForm := ⟨16, 4, 0x10000, true⟩

/-- Reads four octets separated by points. -/
def readOctets? (spelling : Spelling) (text : List Char) : Option (List Nat × List Char) := do
  let (a, text) ← spelling.octet.read? text
  let text ← Text.skip? '.' text
  let (b, text) ← spelling.octet.read? text
  let text ← Text.skip? '.' text
  let (c, text) ← spelling.octet.read? text
  let text ← Text.skip? '.' text
  let (d, text) ← spelling.octet.read? text
  some ([a, b, c, d], text)

/-- Reads four octets as the two groups that hold them. -/
def readDottedGroups? (spelling : Spelling) (text : List Char) :
    Option (List Nat × List Char) := do
  let (octets, text) ← spelling.readOctets? text
  some (Radix.digits 0x10000 2 (Radix.value 256 octets), text)

/-- The groups at the start of a text. -/
structure GroupRun where
  /-- The groups, in order. -/
  groups : List Nat
  /-- Whether the last two groups were written as four octets, which ends the run. -/
  dotted : Bool
  /-- The text after the groups. -/
  rest : List Char

/-- Removes the colon in front of a group; the first group of a run has none. -/
def skipColon? (isFirst : Bool) (text : List Char) : Option (List Char) :=
  if isFirst then some text else Text.skip? ':' text

/-- Reads groups separated by colons, `limit` at most. Four octets count as two groups, and a
text that starts like octets is read as such where there is room for two. -/
def readRun (spelling : Spelling) : (limit : Nat) → (isFirst : Bool) → List Char → GroupRun
  | 0, _, text => ⟨[], false, text⟩
  | limit + 1, isFirst, text =>
    let body? := skipColon? isFirst text
    match if limit = 0 then none else body?.bind spelling.readDottedGroups? with
    | some (groups, rest) => ⟨groups, true, rest⟩
    | none =>
      match body?.bind group.read? with
      | some (group, rest) =>
        let run := spelling.readRun limit false rest
        { run with groups := group :: run.groups }
      | none => ⟨[], false, text⟩

/-- Reads the eight groups of an IPv6 address. Where fewer are written, a double colon stands
for the missing ones; four octets come last, so not before a double colon. -/
def readGroups? (spelling : Spelling) (text : List Char) : Option (List Nat × List Char) :=
  let head := spelling.readRun 8 true text
  if head.groups.length = 8 then some (head.groups, head.rest)
  else if head.dotted then none
  else do
    let text ← Text.skip? ':' head.rest
    let text ← Text.skip? ':' text
    let tail := spelling.readRun (8 - (head.groups.length + spelling.leastElided)) true text
    let elided := List.replicate (8 - (head.groups.length + tail.groups.length)) 0
    some (head.groups ++ elided ++ tail.groups, tail.rest)

end Spelling

namespace Address

/-- Reads an address at the start of a text, and gives the text after it. -/
def read? (spelling : Spelling) :
    (family : Family) → List Char → Option (Address family × List Char)
  | .v4, text => do
    let (octets, rest) ← spelling.readOctets? text
    some (ofNat (Radix.value 256 octets), rest)
  | .v6, text => do
    let (groups, rest) ← spelling.readGroups? text
    some (ofNat (Radix.value 0x10000 groups), rest)

/-- The address that a whole text spells. -/
def ofChars? (spelling : Spelling) (family : Family) (text : List Char) :
    Option (Address family) := do
  let (address, rest) ← read? spelling family text
  if rest.isEmpty then some address else none

/-- The address that a text spells strictly. -/
def ofText? (family : Family) (text : String) : Option (Address family) :=
  ofChars? .strict family text.toList

end Address

/-! ## Either family -/

/-- An address of either family. -/
abbrev IpAddress := EitherFamily Address

namespace IpAddress

/-- The address that a text spells strictly, in whichever family. -/
def ofChars? (text : List Char) : Option IpAddress :=
  match Address.ofChars? .strict .v4 text with
  | some a => some (.v4 a)
  | none => (Address.ofChars? .strict .v6 text).map .v6

/-- The address that a string spells strictly, in whichever family. -/
def ofText? (text : String) : Option IpAddress := ofChars? text.toList

end IpAddress
end AccessList
