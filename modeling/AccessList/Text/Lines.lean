/-!
# Lines

Cutting a stream of characters or bytes into lines while it arrives. A line ends at a line feed,
and a carriage return right before the line feed belongs to the end. What was taken in since the
last line feed is the unfinished line: it counts as a line if the stream ends after it, unless
it is empty.
-/

namespace AccessList.Text

/-- The two symbols of line endings in an alphabet. -/
structure LineEnding (α : Type) where
  /-- Ends a line. -/
  feed : α
  /-- Belongs to the end of a line if it stands right before the feed. -/
  carriageReturn : α

/-- Line endings among characters. -/
def LineEnding.chars : LineEnding Char := ⟨'\n', '\r'⟩

/-- Line endings among bytes. -/
def LineEnding.bytes : LineEnding UInt8 := ⟨0x0A, 0x0D⟩

/-- The lines finished so far and the line in progress, all of them latest first. -/
structure LineCutter (α : Type) where
  /-- Finished lines without their ends, latest first. -/
  finished : List (List α) := []
  /-- The line in progress, latest symbol first. -/
  pending : List α := []

namespace LineCutter

variable {α : Type} [DecidableEq α]

/-- Drops the carriage return that the end of a line starts with, if there is one. -/
def dropReturn (ending : LineEnding α) : List α → List α
  | [] => []
  | last :: earlier => if last = ending.carriageReturn then earlier else last :: earlier

/-- Takes in one symbol. -/
def push (ending : LineEnding α) (cutter : LineCutter α) (symbol : α) : LineCutter α :=
  if symbol = ending.feed then
    ⟨(dropReturn ending cutter.pending).reverse :: cutter.finished, []⟩
  else ⟨cutter.finished, symbol :: cutter.pending⟩

/-- Takes in a piece of the stream. -/
def pushAll (ending : LineEnding α) (cutter : LineCutter α) (piece : List α) : LineCutter α :=
  piece.foldl (push ending) cutter

/-- The finished lines, in order. -/
def finishedLines (cutter : LineCutter α) : List (List α) := cutter.finished.reverse

/-- All lines, in order, if the stream ends here. -/
def allLines (cutter : LineCutter α) : List (List α) :=
  if cutter.pending.isEmpty then cutter.finishedLines
  else cutter.finishedLines ++ [cutter.pending.reverse]

/-- Pieces that are taken in one after another count as one piece. -/
theorem foldl_pushAll (ending : LineEnding α) (cutter : LineCutter α) (pieces : List (List α)) :
    pieces.foldl (pushAll ending) cutter = cutter.pushAll ending pieces.flatten := by
  simp only [pushAll, List.foldl_flatten]
  rfl

end LineCutter

/-- The lines of a text that is complete. -/
def lines {α : Type} [DecidableEq α] (ending : LineEnding α) (text : List α) : List (List α) :=
  (({} : LineCutter α).pushAll ending text).allLines

end AccessList.Text
