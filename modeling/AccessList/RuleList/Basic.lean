import AccessList.Builder
import AccessList.Rule
import AccessList.RuleList.Line

/-!
# Rule lists

Rules in order of importance and a default action, as a list of lines says them. The default
action comes last, if it is given; without it addresses are let through. The first line that is
at fault decides the error.
-/

namespace AccessList

/-- Rules in order of importance, and the action for all other addresses. -/
structure RuleList where
  /-- The rules, the most important one first. -/
  rules : List Rule
  /-- The action for addresses that no rule concerns. -/
  defaultAction : Action
  deriving DecidableEq

namespace RuleList

/-- What the lines read so far say. -/
structure Draft where
  /-- The rules, the last one first. -/
  rules : List Rule := []
  /-- The default action, if it was given. -/
  defaultAction : Option Action := none

/-- The list, if no line follows. -/
def Draft.toList (draft : Draft) : RuleList :=
  ⟨draft.rules.reverse, draft.defaultAction.getD .allow⟩

/-- Adds what the next line says. Nothing but lines that say nothing may follow the default
action. -/
def Draft.add (draft : Draft) : Line → Except LineFault Draft
  | .blank => .ok draft
  | .defaultAction action =>
    if draft.defaultAction.isSome then .error .duplicateDefault
    else .ok { draft with defaultAction := some action }
  | .rule rule =>
    if draft.defaultAction.isSome then .error .ruleAfterDefault
    else .ok { draft with rules := rule :: draft.rules }

/-- Reads lines, the first of which has the given number, on top of a draft. -/
def readLines (number : Nat) (draft : Draft) :
    List (Except ReadFault (List Char)) → Except Error RuleList
  | [] => .ok draft.toList
  | .error fault :: _ => .error (.unreadable fault)
  | .ok line :: later =>
    match Line.ofChars line >>= draft.add with
    | .error fault => .error (.malformed number fault)
    | .ok draft => readLines (number + 1) draft later

/-- The list that lines say. -/
def ofLines (lines : List (Except ReadFault (List Char))) : Except Error RuleList :=
  readLines 1 {} lines

/-- How many rules there are. -/
def size (list : RuleList) : Nat := list.rules.length

/-- Whether there is no rule. -/
def isEmpty (list : RuleList) : Bool := list.rules.isEmpty

/-- Settings with the default action of the list. -/
def settings (list : RuleList) : Settings := { defaultAction := list.defaultAction }

/-- Compiles the list. -/
def compile (list : RuleList) : Logged Acl := Acl.compile list.rules list.settings

/-- Compiles the list with settings, whose default action gives way to that of the list. -/
def compileWith (list : RuleList) (settings : Settings) : Logged Acl :=
  Acl.compile list.rules { settings with defaultAction := list.defaultAction }

/-- What the list means for an address. -/
def lookup (list : RuleList) (ip : IpAddress) : Action :=
  FirstMatch.lookup list.rules list.defaultAction ip

end RuleList
end AccessList
