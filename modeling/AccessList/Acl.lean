import AccessList.Address.Reader
import AccessList.LookupTable

/-!
# Compiled access lists

A compiled access list has a lookup table for each family. It answers like the rules that it was
compiled from, and forgets them.
-/

namespace AccessList

/-- A compiled access list. -/
structure Acl where
  /-- The answers for IPv4. -/
  v4 : LookupTable .v4
  /-- The answers for IPv6. -/
  v6 : LookupTable .v6
  /-- The action for addresses that no rule concerned. -/
  defaultAction : Action
  deriving DecidableEq

namespace Acl

/-- The table of a family. -/
def table (acl : Acl) : (family : Family) → LookupTable family
  | .v4 => acl.v4
  | .v6 => acl.v6

/-- The action for an address. -/
def lookup (acl : Acl) : IpAddress → Action
  | .v4 a => acl.v4.lookup a
  | .v6 a => acl.v6.lookup a

/-- Whether an address is let through. -/
def isAllowed (acl : Acl) (ip : IpAddress) : Bool := acl.lookup ip = .allow

/-- An access list as text: the regions of both families, with a mark in front of what is
denied. -/
def text (acl : Acl) : String :=
  "IpAcl\x7bv4:[" ++ Region.listText acl.v4.regions ++ "], v6:[" ++
    Region.listText acl.v6.regions ++ "]\x7d"

/-- An address is looked up in the table of its family. -/
@[simp] theorem lookup_of (acl : Acl) {family : Family} (a : Address family) :
    acl.lookup (.of a) = (acl.table family).lookup a := by
  cases family <;> rfl

end Acl
end AccessList
