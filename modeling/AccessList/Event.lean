import AccessList.IntervalSet.Basic
import AccessList.Rule

/-!
# Events

What the work on access lists reports while it goes on, as data. Each event has a level and a
text.
-/

namespace AccessList

/-- How important an event is. -/
inductive Level where
  | trace
  | debug
  | info
  deriving DecidableEq, Repr

/-- The name of a level. -/
def Level.text : Level → String
  | trace => "TRACE"
  | debug => "DEBUG"
  | info => "INFO"

/-- Something worth a report. -/
inductive Event where
  /-- A rule is about to be added, with the number of rules before it. -/
  | adding (number : Nat) (rule : Rule)
  /-- An insertion starts. -/
  | insertionStarted {family : Family} (entries : List (Region family)) (incoming : Region family)
  /-- An insertion took a step. -/
  | stepped {family : Family} (step : Step family)
  /-- An insertion ended with these entries. -/
  | insertionDone {family : Family} (entries : List (Region family))
  /-- Rules were compiled to this many regions in each family. -/
  | compiled (rules v4 v6 : Nat) (defaultAction : Action)
  /-- A rule list is about to replace the published access list. -/
  | reloading (rules : Nat) (defaultAction : Action)
  /-- The published access list was replaced for the time given. -/
  | published (generation : UInt64)

namespace Event

/-- The level of an event. Only the details of insertions are traces. -/
def level : Event → Level
  | adding .. | insertionStarted .. | stepped .. | insertionDone .. => .trace
  | compiled .. => .debug
  | reloading .. | published .. => .info

/-- What remains of a range, as text. -/
def restText {family : Family} (rest : Option (Range family)) : String :=
  rest.elim "<empty>" Range.text

/-- The text of an event. -/
def text : Event → String
  | adding number rule => s!"adding rule #{number}: {rule.text}"
  | insertionStarted entries incoming =>
    s!"insert start, set=[{Region.listText entries}], incoming={incoming.text}"
  | stepped (.kept entry rest) => s!"kept {entry.text}, rest={restText rest}"
  | stepped (.filled gap rest) => s!"filled gap {gap.text}, rest={restText rest}"
  | insertionDone entries => s!"insert done, set=[{Region.listText entries}]"
  | compiled rules v4 v6 defaultAction =>
    s!"Compiled {rules} rules into {v4} IPv4 and {v6} IPv6 intervals (default {defaultAction.text})"
  | reloading rules defaultAction =>
    s!"Reloading ACL from {rules} rules (default {defaultAction.text})"
  | published generation => s!"Swapped in new ACL, generation {generation}"

end Event

end AccessList
