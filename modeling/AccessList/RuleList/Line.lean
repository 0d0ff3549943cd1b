import AccessList.Error
import AccessList.Rule
import AccessList.Text.Blank

/-!
# Lines of rule lists

A line has an action and a target, separated by white space. The target `all` gives the default
action. A line without fields, or whose first field starts with a number sign, is no rule and
says nothing.
-/

namespace AccessList

/-- What a line says. -/
inductive Line where
  /-- Nothing. -/
  | blank
  /-- The default action. -/
  | defaultAction (action : Action)
  /-- A rule. -/
  | rule (rule : Rule)
  deriving DecidableEq

namespace Line

/-- The target without a zone: what stands from the first percent sign up to the first slash
after it, or to the end, is dropped. Without a percent sign there is no zone. -/
def withoutZone? (target : List Char) : Option (List Char) :=
  if '%' ∈ target then
    some (target.takeWhile (· ≠ '%') ++ (target.dropWhile (· ≠ '%')).dropWhile (· ≠ '/'))
  else none

/-- What is wrong with a field that is no target. -/
def targetFault (target : List Char) : LineFault :=
  if ((withoutZone? target).bind Target.ofChars?).isSome then
    .zoneIdentifier (String.ofList target)
  else .invalidTarget (String.ofList target)

/-- What an action and a target say together. -/
def ofFields (action target : List Char) : Except LineFault Line :=
  match Action.ofText? (String.ofList action) with
  | none => .error (.unknownAction (String.ofList action))
  | some action =>
    if target = ['a', 'l', 'l'] then .ok (.defaultAction action)
    else
      match Target.ofChars? target with
      | some target => .ok (.rule ⟨target, action⟩)
      | none => .error (targetFault target)

/-- What a line says, or what is wrong with it. -/
def ofChars (text : List Char) : Except LineFault Line :=
  match Text.fields text with
  | [] => .ok .blank
  | ('#' :: _) :: _ => .ok .blank
  | [action, target] => ofFields action target
  | fields => .error (.fieldCount fields.length)

end Line

namespace Rule

/-- The rule that a text says, taken as a whole as line one of a list. A text that says nothing
has no fields, and a default action is no rule. -/
def ofText (text : String) : Except Error Rule :=
  match Line.ofChars text.toList with
  | .ok (.rule rule) => .ok rule
  | .ok (.defaultAction _) => .error (.malformed 1 (.invalidTarget "all"))
  | .ok .blank => .error (.malformed 1 (.fieldCount 0))
  | .error fault => .error (.malformed 1 fault)

end Rule
end AccessList
