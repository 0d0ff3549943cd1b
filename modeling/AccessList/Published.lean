import AccessList.RuleList.Basic

/-!
# Published access lists

The access list in force can be replaced as a whole, and every replacement is counted. What was
taken from it before stays as it was.
-/

namespace AccessList

/-- The access list in force. -/
structure Published where
  /-- The access list. -/
  current : Acl
  /-- How many times it was replaced, in a counter of 64 bits. -/
  generation : UInt64 := 0
  deriving DecidableEq

namespace Published

/-- Replaces the access list. Reported is the number of the replacement, as the last event; whether
the access list is replaced before or after the report is not told by events. -/
def store (published : Published) (acl : Acl) : Logged Published := do
  let generation := published.generation + 1
  Logged.report (.published generation)
  return ⟨acl, generation⟩

/-- Compiles a rule list and puts it in force. -/
def reload (published : Published) (list : RuleList) : Logged Published := do
  Logged.report (.reloading list.size list.defaultAction)
  published.store (← list.compile)

/-- Compiles rules with settings and puts them in force. -/
def reloadFromRules (published : Published) (rules : List Rule) (settings : Settings) :
    Logged Published := do
  published.store (← Acl.compile rules settings)

/-- The action for an address by the access list in force. -/
def lookup (published : Published) (ip : IpAddress) : Action := published.current.lookup ip

end Published
end AccessList
