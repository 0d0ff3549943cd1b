import AccessList.RuleList.Basic
import AccessList.Text.Lines
import AccessList.Text.Utf8

/-!
# Reading rule lists

Rule lists come as text, or as bytes from a source that hands them out piece by piece and may
fail. Each line is decoded when it is reached, so an error in an earlier line comes first. If
the source fails, the lines finished before still count, and the line in progress does not.
-/

namespace AccessList

/-- What a source hands out: pieces of bytes, one after the other, and then the end or a
failure. -/
structure Source where
  /-- The pieces, in order. Where a source is read through a buffer, none of them is empty, because
  reading nothing means that the source is at its end. -/
  pieces : List (List UInt8)
  /-- The text of the failure, if the source ends with one. -/
  failure : Option String := none

namespace Source

/-- The source that hands out all bytes at once and then ends. -/
def ofBytes (bytes : List UInt8) : Source := ⟨[bytes], none⟩

/-- The state of cutting lines when the source ends or fails. -/
def cutter (source : Source) : Text.LineCutter UInt8 :=
  source.pieces.foldl (Text.LineCutter.pushAll .bytes) {}

/-- The line that bytes encode. -/
def decodeLine (bytes : List UInt8) : Except ReadFault (List Char) :=
  match Text.Utf8.decode? bytes with
  | some line => .ok line
  | none => .error .notUtf8

/-- The lines of a source, with a fault in place of each line that cannot be obtained. An empty piece
adds nothing and does not end the reading. -/
def lines (source : Source) : List (Except ReadFault (List Char)) :=
  match source.failure with
  | none => source.cutter.allLines.map decodeLine
  | some text => source.cutter.finishedLines.map decodeLine ++ [.error (.failed text)]

end Source

namespace RuleList

/-- Reads the list that a text says. -/
def ofText (text : String) : Except Error RuleList :=
  ofLines ((Text.lines .chars text.toList).map .ok)

/-- Reads the list that a source hands out. -/
def ofSource (source : Source) : Except Error RuleList := ofLines source.lines

end RuleList
end AccessList
