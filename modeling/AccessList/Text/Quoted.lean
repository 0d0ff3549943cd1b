import AccessList.Text.ExtendingMark
import AccessList.Text.Numeral
import AccessList.Text.Unprintable

/-!
# Quoted text

A text in double quotes, as messages show it: quotes and backslashes are escaped, and so is
every character that a reader could not see or that would attach to the quote before it.
-/

namespace AccessList.Text

/-- Escapes a character by its code point. -/
def escapeCode (c : Char) : List Char :=
  ['\\', 'u', '{'] ++ numeral 16 c.toNat ++ ['}']

/-- The form of a character between quotes. -/
def escapeChar (c : Char) : List Char :=
  if c = '\x00' then ['\\', '0']
  else if c = '\t' then ['\\', 't']
  else if c = '\r' then ['\\', 'r']
  else if c = '\n' then ['\\', 'n']
  else if c = '\\' ∨ c = '"' then ['\\', c]
  else if extendingMarks.contains c ∨ unprintable.contains c then escapeCode c
  else [c]

/-- A text in double quotes. -/
def quoted (text : String) : String :=
  String.ofList ('"' :: text.toList.flatMap escapeChar ++ ['"'])

end AccessList.Text
