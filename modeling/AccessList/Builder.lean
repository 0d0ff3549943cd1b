import AccessList.Acl
import AccessList.Logged

/-!
# Building access lists

A builder takes in rules, the most important one first, and keeps what they decide in each
family. Building lets the default action decide the rest.
-/

namespace AccessList

/-- How a list of rules is compiled. -/
structure Settings where
  /-- The action for addresses that no rule concerns. -/
  defaultAction : Action := .allow
  /-- Whether every insertion is recorded step by step. -/
  traceInserts : Bool := false
  deriving DecidableEq, Repr

/-- What the rules added so far decide. -/
structure Builder where
  /-- What is decided for IPv4. -/
  v4 : IntervalSet .v4
  /-- What is decided for IPv6. -/
  v6 : IntervalSet .v6
  /-- The settings to compile with. -/
  settings : Settings
  /-- The number of rules added. -/
  ruleCount : Nat := 0

namespace Builder

/-- The builder without rules. -/
def new (settings : Settings) : Builder :=
  { v4 := { traced := settings.traceInserts }
    v6 := { traced := settings.traceInserts }
    settings }

/-- Adds a rule that is less important than those before it. -/
def add (builder : Builder) (rule : Rule) : Logged Builder := do
  Logged.reportIf builder.settings.traceInserts [.adding builder.ruleCount rule]
  let ruleCount := builder.ruleCount + 1
  match rule.region with
  | .v4 region => return { builder with v4 := ← builder.v4.insertLogged region, ruleCount }
  | .v6 region => return { builder with v6 := ← builder.v6.insertLogged region, ruleCount }

/-- Adds rules in order. -/
def addAll (builder : Builder) : List Rule → Logged Builder
  | [] => return builder
  | rule :: rest => do (← builder.add rule).addAll rest

/-- Compiles what is decided, and by default the rest. -/
def build (builder : Builder) : Logged Acl := do
  let defaultAction := builder.settings.defaultAction
  let v4 ← builder.v4.insertLogged (.full defaultAction)
  let v6 ← builder.v6.insertLogged (.full defaultAction)
  let acl : Acl :=
    { v4 := ← LookupTable.ofSetLogged v4 defaultAction
      v6 := ← LookupTable.ofSetLogged v6 defaultAction
      defaultAction }
  Logged.report (.compiled builder.ruleCount acl.v4.size acl.v6.size defaultAction)
  return acl

end Builder

namespace Acl

/-- Compiles rules, the most important one first. -/
def compile (rules : List Rule) (settings : Settings) : Logged Acl := do
  (← (Builder.new settings).addAll rules).build

/-- The access list of rules, the most important one first, and a default action. -/
def ofRules (rules : List Rule) (defaultAction : Action) : Acl :=
  (compile rules { defaultAction }).value

/-- Compiles no rules: every address gets the default action. -/
def compileEmpty (defaultAction : Action) : Logged Acl := compile [] { defaultAction }

end Acl
end AccessList
