import AccessList.Proofs.RuleListText

/-!
# Reading through a buffer

Bytes come from a source in reads of any size. A reader holds what it has taken in and not yet given
out. To give out a line it searches what it holds for a line feed, and as long as there is none it
reads again. The lines that it gives out one by one are the lines of the bytes as a whole, whatever
the reads are, and if the source fails they are those that were finished before. So a rule list does
not depend on the reads either, and a fault in a finished line comes before the failure.
-/

namespace AccessList

open Text (LineCutter LineEnding)

namespace Source

/-! ## A reader with a buffer -/

/-- A line that was taken from a reader, with its end, and what there is behind it. -/
structure Taken where
  /-- The bytes of the line. -/
  line : List UInt8
  /-- What the reader holds then. -/
  held : List UInt8
  /-- What the reads to come give. -/
  pieces : List (List UInt8)

/-- Takes a line behind what was taken of it before. If there is a line feed in what is held, the
line ends with it. Otherwise all that is held is taken, and the reader reads again. A read that
gives nothing is the end, where the line ends as well, and so it does not where the source fails. -/
def takeLine (failure : Option String) (taken held : List UInt8) (pieces : List (List UInt8)) :
    Except String Taken :=
  if LineEnding.bytes.feed ∈ held then
    .ok ⟨taken ++ (held.takeWhile (· ≠ LineEnding.bytes.feed) ++ [LineEnding.bytes.feed]),
      (held.dropWhile (· ≠ LineEnding.bytes.feed)).tail, pieces⟩
  else
    match pieces with
    | [] => failure.elim (.ok ⟨taken ++ held, [], []⟩) .error
    | piece :: pieces =>
      if piece = [] then .ok ⟨taken ++ held, [], pieces⟩
      else takeLine failure (taken ++ held) piece pieces

/-- A line without its end. -/
def withoutEnd (line : List UInt8) : List UInt8 :=
  if line.getLast? = some LineEnding.bytes.feed then
    if line.dropLast.getLast? = some LineEnding.bytes.carriageReturn then line.dropLast.dropLast
    else line.dropLast
  else line

variable {failure : Option String} {taken held : List UInt8} {pieces : List (List UInt8)}

/-- A line feed in what is held ends the line. -/
theorem takeLine_of_held {line : List UInt8} (hline : LineEnding.bytes.feed ∉ line)
    (rest : List UInt8) :
    takeLine failure taken (line ++ LineEnding.bytes.feed :: rest) pieces =
      .ok ⟨taken ++ (line ++ [LineEnding.bytes.feed]), rest, pieces⟩ := by
  have hne : ∀ byte ∈ line, decide (byte ≠ LineEnding.bytes.feed) = true := by
    intro byte hbyte
    exact decide_eq_true fun heq => hline (heq ▸ hbyte)
  have hfeed : LineEnding.bytes.feed ∈ line ++ LineEnding.bytes.feed :: rest := by simp
  rw [takeLine.eq_def, if_pos hfeed, List.takeWhile_append_of_pos hne,
    List.dropWhile_append_of_pos hne]
  simp

/-- Where no read is left, the source ends or fails. -/
theorem takeLine_nil (hheld : LineEnding.bytes.feed ∉ held) :
    takeLine failure taken held [] = failure.elim (.ok ⟨taken ++ held, [], []⟩) .error := by
  rw [takeLine, if_neg hheld]

/-- Without a line feed in what is held, the reader goes on with the next piece. -/
theorem takeLine_cons {piece : List UInt8} (hheld : LineEnding.bytes.feed ∉ held)
    (hpiece : piece ≠ []) :
    takeLine failure taken held (piece :: pieces) =
      takeLine failure (taken ++ held) piece pieces := by
  conv => lhs; rw [takeLine, if_neg hheld]
  exact if_neg hpiece

/-- What is taken from a reader, and what is left, is all that was there. -/
theorem takeLine_append {next : Taken} (h : takeLine failure taken held pieces = .ok next) :
    next.line ++ (next.held ++ next.pieces.flatten) = taken ++ (held ++ pieces.flatten) := by
  induction pieces generalizing taken held with
  | nil =>
    by_cases hheld : LineEnding.bytes.feed ∈ held
    · obtain ⟨line, rest, rfl, hline⟩ := List.eq_append_cons_of_mem hheld
      rw [takeLine_of_held hline] at h
      cases h
      simp
    · rw [takeLine_nil hheld] at h
      cases failure with
      | none =>
        cases h
        simp
      | some text => cases h
  | cons piece pieces ih =>
    by_cases hheld : LineEnding.bytes.feed ∈ held
    · obtain ⟨line, rest, rfl, hline⟩ := List.eq_append_cons_of_mem hheld
      rw [takeLine_of_held hline] at h
      cases h
      simp
    · rw [takeLine, if_neg hheld] at h
      change (if piece = [] then _ else _) = _ at h
      split at h
      · next hpiece =>
        cases h
        simp [hpiece]
      · rw [ih h]
        simp

/-- A line that is not empty leaves less than there was. -/
theorem length_lt_of_takeLine {next : Taken} (h : takeLine failure [] held pieces = .ok next)
    (hne : next.line ≠ []) :
    next.held.length + next.pieces.flatten.length < held.length + pieces.flatten.length := by
  have hall := congrArg List.length (takeLine_append h)
  have hpos := List.length_pos_iff.mpr hne
  simp only [List.length_append, List.nil_append] at hall
  omega

/-- The lines that a reader gives out, until nothing is left or the source fails. -/
def linesFrom (failure : Option String) (held : List UInt8) (pieces : List (List UInt8)) :
    List (Except ReadFault (List Char)) :=
  match h : takeLine failure [] held pieces with
  | .error text => [.error (.failed text)]
  | .ok next =>
    if hne : next.line = [] then []
    else
      have := length_lt_of_takeLine h hne
      decodeLine (withoutEnd next.line) :: linesFrom failure next.held next.pieces
termination_by held.length + pieces.flatten.length
decreasing_by assumption

/-- The lines of a source that is read through a buffer. -/
def bufferedLines (source : Source) : List (Except ReadFault (List Char)) :=
  linesFrom source.failure [] source.pieces

/-- Where no line can be taken because the source fails, that is the last thing given out. -/
theorem linesFrom_of_error {text : String} (h : takeLine failure [] held pieces = .error text) :
    linesFrom failure held pieces = [.error (.failed text)] := by
  rw [linesFrom]
  split
  · next found hfound =>
    rw [h] at hfound
    cases hfound
    rfl
  · next next hnext =>
    rw [h] at hnext
    cases hnext

/-- Where a line can be taken, it is given out and reading goes on behind it, unless it is empty,
which means that nothing is left. -/
theorem linesFrom_of_ok {next : Taken} (h : takeLine failure [] held pieces = .ok next) :
    linesFrom failure held pieces =
      if next.line = [] then []
      else decodeLine (withoutEnd next.line) :: linesFrom failure next.held next.pieces := by
  conv => lhs; rw [linesFrom]
  split
  · next text htext =>
    rw [h] at htext
    cases htext
  · next found hfound =>
    rw [h] at hfound
    cases hfound
    rfl

/-! ## What a reader gives out -/

/-- Taking off the end of a line is dropping a carriage return in front of the feed. -/
theorem withoutEnd_append_feed (line : List UInt8) :
    withoutEnd (line ++ [LineEnding.bytes.feed]) =
      (LineCutter.dropReturn .bytes line.reverse).reverse := by
  rw [withoutEnd, List.getLast?_concat, if_pos rfl, List.dropLast_concat]
  split
  · next hlast =>
    obtain ⟨front, rfl⟩ := List.getLast?_eq_some_iff.mp hlast
    rw [List.dropLast_concat, Text.reverse_dropReturn_append]
  · next hlast => rw [Text.reverse_dropReturn_of_ne hlast]

/-- A line without an end stays as it is. -/
theorem withoutEnd_of_notMem {line : List UInt8} (h : LineEnding.bytes.feed ∉ line) :
    withoutEnd line = line := by
  rw [withoutEnd, if_neg]
  exact fun hlast => h (List.mem_of_getLast? hlast)

/-- If there is a line feed somewhere, the line up to it is taken. -/
theorem takeLine_of_mem (failure : Option String) (taken : List UInt8)
    (hpieces : ∀ piece ∈ pieces, piece ≠ []) (h : LineEnding.bytes.feed ∈ held ++ pieces.flatten) :
    ∃ line held' pieces', LineEnding.bytes.feed ∉ line ∧ (∀ piece ∈ pieces', piece ≠ []) ∧
      held ++ pieces.flatten = line ++ LineEnding.bytes.feed :: (held' ++ pieces'.flatten) ∧
        takeLine failure taken held pieces =
          .ok ⟨taken ++ (line ++ [LineEnding.bytes.feed]), held', pieces'⟩ := by
  induction pieces generalizing taken held with
  | nil =>
    rw [List.flatten_nil, List.append_nil] at h
    obtain ⟨line, rest, rfl, hline⟩ := List.eq_append_cons_of_mem h
    exact ⟨line, rest, [], hline, hpieces, by simp, takeLine_of_held hline rest⟩
  | cons piece pieces ih =>
    by_cases hheld : LineEnding.bytes.feed ∈ held
    · obtain ⟨line, rest, rfl, hline⟩ := List.eq_append_cons_of_mem hheld
      exact ⟨line, rest, piece :: pieces, hline, hpieces, by simp, takeLine_of_held hline rest⟩
    · obtain ⟨hpiece, hlater⟩ := List.forall_mem_cons.mp hpieces
      have hmem : LineEnding.bytes.feed ∈ piece ++ pieces.flatten :=
        (List.mem_append.mp h).resolve_left hheld
      obtain ⟨line, held', pieces', hline, hpieces', hbytes, htake⟩ :=
        ih (taken ++ held) hlater hmem
      refine ⟨held ++ line, held', pieces', ?_, hpieces', ?_, ?_⟩
      · simp [hheld, hline]
      · rw [List.flatten_cons, hbytes, List.append_assoc]
      · rw [takeLine_cons hheld hpiece, htake, List.append_assoc, List.append_assoc]

/-- If there is no line feed, the reader comes to the end of the source or to its failure. -/
theorem takeLine_of_notMem (failure : Option String) (taken : List UInt8)
    (hpieces : ∀ piece ∈ pieces, piece ≠ []) (h : LineEnding.bytes.feed ∉ held ++ pieces.flatten) :
    takeLine failure taken held pieces =
      failure.elim (.ok ⟨taken ++ (held ++ pieces.flatten), [], []⟩) .error := by
  induction pieces generalizing taken held with
  | nil =>
    rw [List.flatten_nil, List.append_nil] at h ⊢
    exact takeLine_nil h
  | cons piece pieces ih =>
    obtain ⟨hpiece, hpieces⟩ := List.forall_mem_cons.mp hpieces
    rw [List.flatten_cons, List.mem_append, not_or] at h
    rw [takeLine_cons h.1 hpiece, ih (taken ++ held) hpieces h.2, List.flatten_cons,
      List.append_assoc]

/-- The lines of a source do not depend on the pieces that it hands out. -/
theorem lines_flatten (pieces : List (List UInt8)) (failure : Option String) :
    lines ⟨[pieces.flatten], failure⟩ = lines ⟨pieces, failure⟩ := by
  rw [lines, lines, cutter, cutter, LineCutter.foldl_pushAll, LineCutter.foldl_pushAll,
    List.flatten_singleton]

/-- The first line feed ends the first line, whether the source fails in the end or not. -/
theorem lines_append_feed {line : List UInt8} (hline : LineEnding.bytes.feed ∉ line)
    (rest : List UInt8) (failure : Option String) :
    lines ⟨[line ++ LineEnding.bytes.feed :: rest], failure⟩ =
      decodeLine (withoutEnd (line ++ [LineEnding.bytes.feed])) :: lines ⟨[rest], failure⟩ := by
  rw [withoutEnd_append_feed]
  cases failure with
  | none =>
    change (Text.lines .bytes (line ++ LineEnding.bytes.feed :: rest)).map decodeLine = _
    rw [Text.lines_append_feed hline]
    rfl
  | some text =>
    change (LineCutter.pushAll .bytes {} (line ++ LineEnding.bytes.feed :: rest)).finishedLines.map
      decodeLine ++ [.error (.failed text)] = _
    rw [LineCutter.finishedLines_pushAll_append_feed hline]
    rfl

/-- Without a line feed there is one line, if anything is there, and none if the source fails. -/
theorem lines_of_notMem {bytes : List UInt8} (h : LineEnding.bytes.feed ∉ bytes)
    (failure : Option String) :
    lines ⟨[bytes], failure⟩ =
      failure.elim (if bytes = [] then [] else [decodeLine (withoutEnd bytes)])
        fun text => [.error (.failed text)] := by
  cases failure with
  | none =>
    change (Text.lines .bytes bytes).map decodeLine = if bytes = [] then [] else _
    split
    · next hnil =>
      rw [hnil]
      rfl
    · next hne =>
      rw [Text.lines_of_notMem h hne, withoutEnd_of_notMem h]
      rfl
  | some text =>
    change (LineCutter.pushAll .bytes {} bytes).finishedLines.map decodeLine ++ _ = _
    rw [LineCutter.pushAll_of_notMem _ h]
    rfl

/-- At the end of a source nothing is given out. -/
theorem linesFrom_none_nil : linesFrom none [] [] = [] := by
  have htake : takeLine none [] [] [] = .ok ⟨[], [], []⟩ := takeLine_nil List.not_mem_nil
  rw [linesFrom_of_ok htake, if_pos rfl]

/-- A reader gives out the lines of what it holds and of what it will read. The induction is on how
much that is, since every line that is given out leaves less. -/
theorem linesFrom_eq_lines (hpieces : ∀ piece ∈ pieces, piece ≠ []) :
    linesFrom failure held pieces = lines ⟨[held ++ pieces.flatten], failure⟩ := by
  induction hlength : held.length + pieces.flatten.length using Nat.strongRecOn
    generalizing held pieces with
  | _ length ih =>
    by_cases hmem : LineEnding.bytes.feed ∈ held ++ pieces.flatten
    · obtain ⟨line, held', pieces', hline, hpieces', hbytes, htake⟩ :=
        takeLine_of_mem failure [] hpieces hmem
      rw [List.nil_append] at htake
      have hne : line ++ [LineEnding.bytes.feed] ≠ [] := by simp
      have hless := length_lt_of_takeLine htake hne
      rw [linesFrom_of_ok htake, if_neg hne, hbytes, lines_append_feed hline,
        ih _ (hlength ▸ hless) hpieces' rfl]
    · have htake := takeLine_of_notMem failure [] hpieces hmem
      rw [List.nil_append] at htake
      rw [lines_of_notMem hmem]
      cases failure with
      | none => rw [linesFrom_of_ok htake, linesFrom_none_nil, Option.elim_none]
      | some text => exact linesFrom_of_error htake

/-- Reading through a buffer gives the lines of a source, as long as no read before the end gives
nothing. -/
theorem bufferedLines_eq_lines {source : Source} (h : ∀ piece ∈ source.pieces, piece ≠ []) :
    source.bufferedLines = source.lines := by
  rw [bufferedLines, linesFrom_eq_lines h, List.nil_append, lines_flatten]

end Source

/-! ## Rule lists -/

namespace RuleList

/-- Behind lines that are read a failure is the error, and otherwise it is not reached. -/
theorem readLines_append_failure (number : Nat) (draft : Draft)
    (lines : List (Except ReadFault (List Char))) (fault : ReadFault) :
    readLines number draft (lines ++ [.error fault]) =
      .error (match readLines number draft lines with
        | .ok _ => .unreadable fault
        | .error error => error) := by
  induction lines generalizing number draft with
  | nil => rfl
  | cons line later ih =>
    cases line with
    | error earlier => rfl
    | ok text =>
      rw [List.cons_append, readLines, readLines]
      cases Line.ofChars text >>= draft.add with
      | error found => rfl
      | ok next => exact ih (number + 1) next

/-- Let bytes come in reads none of which gives nothing. Read through a buffer, they give what the
library reads from them, and that is what the bytes give at once. If the source fails behind them,
there is always an error: the one in the bytes up to and with the last line feed, if there is one,
and else the failure. -/
theorem ofSource_of_reads {pieces : List (List UInt8)} (hpieces : ∀ piece ∈ pieces, piece ≠ []) :
    (∀ failure, ofLines (Source.bufferedLines ⟨pieces, failure⟩) = ofSource ⟨pieces, failure⟩) ∧
      ofSource ⟨pieces, none⟩ = ofSource (.ofBytes pieces.flatten) ∧
        ∀ failure, ofSource ⟨pieces, some failure⟩ =
          .error (match ofSource (.ofBytes (Text.endedPart .bytes pieces.flatten)) with
            | .ok _ => .unreadable (.failed failure)
            | .error error => error) := by
  refine ⟨fun failure => ?_, ?_, fun failure => ?_⟩
  · rw [Source.bufferedLines_eq_lines hpieces, ofSource]
  · rw [ofSource_ofBytes, ofSource, lines_of_pieces]
  · have hlines : Source.lines ⟨pieces, some failure⟩ =
        (Text.lines .bytes (Text.endedPart .bytes pieces.flatten)).map Source.decodeLine ++
          [.error (.failed failure)] := by
      rw [Source.lines, Source.cutter, LineCutter.foldl_pushAll, Text.finishedLines_pushAll]
    rw [ofSource_ofBytes, ofSource, hlines, ofLines, readLines_append_failure]
    rfl

/-- A line end and a character fall on two reads each. The last line is at fault if the source ends
behind it, and it is not looked at if the source fails there. -/
theorem ofSource_of_split_character :
    let pieces : List (List UInt8) := ["deny 10.0.0.0/8\r".toUTF8.data.toList,
      [0x0A, 0x23, 0xC3], [0xA9, 0x0A] ++ "allow".toUTF8.data.toList]
    (∀ piece ∈ pieces, piece ≠ []) ∧
      ofSource ⟨pieces, none⟩ = .error (.malformed 3 (.fieldCount 1)) ∧
        ofSource ⟨pieces, some "reset"⟩ = .error (.unreadable (.failed "reset")) := by
  intro pieces
  have hpieces : ∀ piece ∈ pieces, piece ≠ [] := by decide
  obtain ⟨_, hended, hfailed⟩ := ofSource_of_reads hpieces
  exact ⟨hpieces, hended.trans rfl, (hfailed "reset").trans rfl⟩

end RuleList
end AccessList
