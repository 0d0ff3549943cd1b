import AccessList.Region
import AccessList.Target

/-!
# Rules

A rule gives an action to the addresses of its target. As a region it says the same about the
line of addresses of its family. A list of rules is read from the top, and the first rule that
concerns an address decides.
-/

namespace AccessList

/-- An action for the addresses of a target. -/
structure Rule where
  /-- The addresses concerned. -/
  target : Target
  /-- What is done with them. -/
  action : Action
  deriving DecidableEq

namespace Rule

/-- The rule for one address. -/
def ofAddress (ip : IpAddress) (action : Action) : Rule := ⟨.single ip, action⟩

/-- Whether a rule concerns an address. -/
def contains (rule : Rule) (ip : IpAddress) : Bool := rule.target.contains ip

/-- The region of addresses that a rule decides. -/
def region (rule : Rule) : EitherFamily Region :=
  rule.target.map fun block => ⟨block.range, rule.action⟩

/-- The rule for the same target with the opposite action. -/
def negate (rule : Rule) : Rule := { rule with action := rule.action.negate }

/-- A rule as text: the action and the target, as a rule list writes them. -/
def text (rule : Rule) : String := rule.action.text ++ " " ++ rule.target.text

end Rule

/-! ## First match -/

namespace FirstMatch

/-- The action for an address, by the first rule that concerns it, or else by default. -/
def lookup (rules : List Rule) (defaultAction : Action) (ip : IpAddress) : Action :=
  (rules.find? (·.contains ip)).elim defaultAction (·.action)

/-- Without rules every address gets the default action. -/
@[simp] theorem lookup_nil (defaultAction : Action) (ip : IpAddress) :
    lookup [] defaultAction ip = defaultAction := rfl

/-- The first rule decides the addresses that it concerns, and the other rules decide the rest. -/
theorem lookup_cons (rule : Rule) (rules : List Rule) (defaultAction : Action) (ip : IpAddress) :
    lookup (rule :: rules) defaultAction ip =
      if rule.contains ip then rule.action else lookup rules defaultAction ip := by
  unfold lookup
  by_cases h : rule.contains ip = true <;> simp [h]

end FirstMatch
end AccessList
