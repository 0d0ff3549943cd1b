import AccessList.Address.Printer
import AccessList.Text.Quoted

/-!
# Errors

What can be wrong with an input, by cause, and the message for each cause.
-/

namespace AccessList

/-- What can be wrong with a line of a rule list. -/
inductive LineFault where
  /-- The line does not have an action and a target only. -/
  | fieldCount (found : Nat)
  /-- The first field is no action. -/
  | unknownAction (field : String)
  /-- The second field is no target. -/
  | invalidTarget (field : String)
  /-- The second field would be a target without the zone in it. -/
  | zoneIdentifier (field : String)
  /-- The default action was given before. -/
  | duplicateDefault
  /-- A rule comes after the default action. -/
  | ruleAfterDefault
  deriving DecidableEq, Repr

/-- Why a line could not be obtained. -/
inductive ReadFault where
  /-- The bytes of the line are not UTF-8. -/
  | notUtf8
  /-- The source failed with a text of its own. -/
  | failed (text : String)
  deriving DecidableEq, Repr

/-- What can be wrong with an input. -/
inductive Error where
  /-- A text is no address of the family asked for. -/
  | invalidAddress (text : String)
  /-- A text is no address, or no block. -/
  | addressSyntax
  /-- The bounds of a range are the wrong way round. -/
  | invertedRange {family : Family} (lo hi : Address family)
  /-- A word is no action. -/
  | invalidAction (word : String)
  /-- A line, counted from one, is not as it should be. -/
  | malformed (line : Nat) (fault : LineFault)
  /-- A line could not be obtained. -/
  | unreadable (fault : ReadFault)

/-- The message about a line, counted from one. -/
def LineFault.message (line : Nat) : LineFault → String
  | fieldCount found => s!"two fields must exist at line {line}, found {found}"
  | unknownAction field =>
    s!"invalid action {Text.quoted field} at line {line}, must be \"allow\" or \"deny\""
  | invalidTarget field =>
    s!"invalid target {Text.quoted field} at line {line}, "
      ++ "must be a valid CIDR, an IP address or \"all\""
  | zoneIdentifier field =>
    s!"invalid target {Text.quoted field} at line {line}, must not contain \"%\""
  | duplicateDefault => s!"duplicated line for target \"all\" at line {line}"
  | ruleAfterDefault => s!"target \"all\" line followed by non-\"all\" line at line {line}"

/-- The message about a line that could not be obtained. -/
def ReadFault.message : ReadFault → String
  | notUtf8 => "stream did not contain valid UTF-8"
  | failed text => text

/-- The message about an input. -/
def Error.message : Error → String
  | invalidAddress text => s!"invalid IP address: {text}"
  | addressSyntax => "invalid IP address syntax"
  | invertedRange lo hi => s!"inverted address range {lo.text}-{hi.text}"
  | invalidAction word => s!"invalid action {Text.quoted word}, must be \"allow\" or \"deny\""
  | malformed line fault => fault.message line
  | unreadable fault => s!"IO error: {fault.message}"

end AccessList
