import AccessList.Text.Lines
import Mathlib.Data.List.Basic
import Mathlib.Data.List.DropRight

/-!
# Cutting lines

What it means to cut a text into lines, said of the text as a whole: a line ends at the first line
feed, without a carriage return right before it, and what is left behind the last line feed is a
line unless it is empty. The lines that come in one symbol at a time are the ones cut in this way.
So the first lines of a text are the lines of its beginning, and what stands behind a line feed has
no influence on the lines before it.
-/

namespace AccessList.Text

variable {α : Type} {ending : LineEnding α}

/-- The lines of a text. -/
inductive IsCut (ending : LineEnding α) : List α → List (List α) → Prop where
  /-- Where nothing is left there is no line. -/
  | nil : IsCut ending [] []
  /-- A last line need not be ended. -/
  | unfinished {line : List α} : line ≠ [] → ending.feed ∉ line → IsCut ending line [line]
  /-- A line is ended by the first feed. -/
  | feed {line rest : List α} {lines : List (List α)} : ending.feed ∉ line →
      line.getLast? ≠ some ending.carriageReturn → IsCut ending rest lines →
        IsCut ending (line ++ ending.feed :: rest) (line :: lines)
  /-- A carriage return right before the feed belongs to the end of the line. -/
  | returnFeed {line rest : List α} {lines : List (List α)} : ending.feed ∉ line →
      IsCut ending rest lines →
        IsCut ending (line ++ ending.carriageReturn :: ending.feed :: rest) (line :: lines)

/-- A carriage return does not end a line. -/
theorem feed_notMem_append_return (hending : ending.feed ≠ ending.carriageReturn) {line : List α}
    (h : ending.feed ∉ line) : ending.feed ∉ line ++ [ending.carriageReturn] := by
  simp [h, hending]

/-- To prove something of all texts, prove it of texts without feeds, and of a first line with its
feed in front of a text that it holds of. -/
@[elab_as_elim]
theorem inductionOnLines (ending : LineEnding α) {motive : List α → Prop}
    (last : ∀ line, ending.feed ∉ line → motive line)
    (feed : ∀ line rest, ending.feed ∉ line → motive rest →
      motive (line ++ ending.feed :: rest)) (text : List α) : motive text := by
  induction hlength : text.length using Nat.strongRecOn generalizing text with
  | _ length ih =>
    by_cases hmem : ending.feed ∈ text
    · obtain ⟨line, rest, rfl, hline⟩ := List.eq_append_cons_of_mem hmem
      refine feed line rest hline (ih rest.length ?_ rest rfl)
      rw [← hlength, List.length_append, List.length_cons]
      omega
    · exact last text hmem

variable [DecidableEq α]

/-! ## Taking in a text -/

namespace LineCutter

/-- A text in two parts is taken in part by part. -/
theorem pushAll_append (cutter : LineCutter α) (text later : List α) :
    cutter.pushAll ending (text ++ later) = (cutter.pushAll ending text).pushAll ending later :=
  List.foldl_append

/-- A text without feeds makes the line in progress longer. -/
theorem pushAll_of_notMem (cutter : LineCutter α) {text : List α} (h : ending.feed ∉ text) :
    cutter.pushAll ending text = ⟨cutter.finished, text.reverse ++ cutter.pending⟩ := by
  induction text generalizing cutter with
  | nil => rfl
  | cons symbol text ih =>
    rw [List.mem_cons, not_or] at h
    change (cutter.push ending symbol).pushAll ending text = _
    rw [push, if_neg (Ne.symm h.1), ih _ h.2]
    simp

/-- The lines finished before do not matter for the lines to come. -/
theorem pushAll_eq (finished : List (List α)) (pending text : List α) :
    pushAll ending ⟨finished, pending⟩ text =
      ⟨(pushAll ending ⟨[], pending⟩ text).finished ++ finished,
        (pushAll ending ⟨[], pending⟩ text).pending⟩ := by
  induction text generalizing finished pending with
  | nil => rfl
  | cons symbol text ih =>
    change pushAll ending (push ending ⟨finished, pending⟩ symbol) text =
      ⟨(pushAll ending (push ending ⟨[], pending⟩ symbol) text).finished ++ finished,
        (pushAll ending (push ending ⟨[], pending⟩ symbol) text).pending⟩
    unfold push
    split
    · rw [ih (_ :: finished), ih [_]]
      simp
    · exact ih finished _

/-- Every feed finishes a line. -/
theorem length_finished_pushAll (ending : LineEnding α) (cutter : LineCutter α) (text : List α) :
    (cutter.pushAll ending text).finished.length =
      cutter.finished.length + text.count ending.feed := by
  induction text generalizing cutter with
  | nil => rfl
  | cons symbol text ih =>
    change ((cutter.push ending symbol).pushAll ending text).finished.length = _
    rw [ih, push, List.count_cons]
    split
    · next h =>
      rw [h, beq_self_eq_true, if_pos rfl, List.length_cons]
      omega
    · next h => rw [beq_eq_false_iff_ne.mpr h, if_neg Bool.false_ne_true, Nat.add_zero]

/-- After a feed, the lines are those finished so far and the lines of what comes in then. -/
theorem allLines_pushAll (finished : List (List α)) (text : List α) :
    (pushAll ending ⟨finished, []⟩ text).allLines = finished.reverse ++ lines ending text := by
  rw [pushAll_eq, lines]
  simp only [allLines, finishedLines, List.reverse_append]
  split
  · rfl
  · rw [List.append_assoc]

/-- The first feed finishes the first line. -/
theorem finishedLines_pushAll_append_feed {line : List α} (h : ending.feed ∉ line)
    (rest : List α) :
    (pushAll ending {} (line ++ ending.feed :: rest)).finishedLines =
      (dropReturn ending line.reverse).reverse :: (pushAll ending {} rest).finishedLines := by
  rw [pushAll_append, pushAll_of_notMem _ h]
  change (pushAll ending (push ending _ ending.feed) rest).finishedLines = _
  rw [push, if_pos rfl, pushAll_eq, List.append_nil, finishedLines, List.reverse_append]
  rfl

end LineCutter

/-! ## Lines of a text -/

/-- A text without feeds is one line, unless it is empty. -/
theorem lines_of_notMem {text : List α} (h : ending.feed ∉ text) (hne : text ≠ []) :
    lines ending text = [text] := by
  simp [lines, LineCutter.pushAll_of_notMem _ h, LineCutter.allLines, LineCutter.finishedLines, hne]

/-- The first feed ends the first line. -/
theorem lines_append_feed {line : List α} (h : ending.feed ∉ line) (rest : List α) :
    lines ending (line ++ ending.feed :: rest) =
      (LineCutter.dropReturn ending line.reverse).reverse :: lines ending rest := by
  rw [lines, LineCutter.pushAll_append, LineCutter.pushAll_of_notMem _ h]
  change (LineCutter.pushAll ending (LineCutter.push ending _ ending.feed) rest).allLines = _
  rw [LineCutter.push, if_pos rfl, LineCutter.allLines_pushAll, List.append_nil]
  rfl

/-- Without a carriage return at its end a line stays as it is. -/
theorem reverse_dropReturn_of_ne {line : List α}
    (h : line.getLast? ≠ some ending.carriageReturn) :
    (LineCutter.dropReturn ending line.reverse).reverse = line := by
  rw [List.getLast?_eq_head?_reverse] at h
  cases hreverse : line.reverse with
  | nil => rw [List.reverse_eq_nil_iff.mp hreverse]; rfl
  | cons last earlier =>
    rw [hreverse, List.head?_cons, ne_eq, Option.some_inj] at h
    rw [LineCutter.dropReturn, if_neg h, ← hreverse, List.reverse_reverse]

/-- One carriage return at the end of a line is dropped. -/
theorem reverse_dropReturn_append (line : List α) :
    (LineCutter.dropReturn ending (line ++ [ending.carriageReturn]).reverse).reverse = line := by
  rw [List.reverse_append]
  simp [LineCutter.dropReturn]

/-- The lines that come in one symbol at a time are the lines of the text. -/
theorem isCut_lines (ending : LineEnding α) (text : List α) :
    IsCut ending text (lines ending text) := by
  induction text using inductionOnLines ending with
  | last line hline =>
    by_cases hne : line = []
    · subst hne
      exact .nil
    · rw [lines_of_notMem hline hne]
      exact .unfinished hne hline
  | feed line rest hline ih =>
    rw [lines_append_feed hline]
    by_cases hlast : line.getLast? = some ending.carriageReturn
    · obtain ⟨line, rfl⟩ := List.getLast?_eq_some_iff.mp hlast
      rw [reverse_dropReturn_append, List.append_assoc]
      exact .returnFeed (fun h => hline (List.mem_append_left _ h)) ih
    · rw [reverse_dropReturn_of_ne hlast]
      exact .feed hline hlast ih

/-- There is only one way to cut a text into lines. -/
theorem IsCut.eq_lines (hending : ending.feed ≠ ending.carriageReturn) {text : List α}
    {cut : List (List α)} (h : IsCut ending text cut) : cut = lines ending text := by
  induction h with
  | nil => rfl
  | unfinished hne hline => exact (lines_of_notMem hline hne).symm
  | feed hline hlast _ ih => rw [lines_append_feed hline, reverse_dropReturn_of_ne hlast, ih]
  | @returnFeed line rest _ hline _ ih =>
    have hlines := lines_append_feed (feed_notMem_append_return hending hline) rest
    rw [reverse_dropReturn_append, List.append_assoc] at hlines
    rw [ih]
    exact hlines.symm

/-- Cutting a text into lines gives the lines of the text. -/
theorem isCut_iff (hending : ending.feed ≠ ending.carriageReturn) {text : List α}
    {cut : List (List α)} : IsCut ending text cut ↔ cut = lines ending text := by
  constructor
  · exact fun h => h.eq_lines hending
  · rintro rfl
    exact isCut_lines ending text

/-! ## The first lines -/

/-- The beginning of a text that has as many feeds as given, or all of the text if it has fewer. -/
def firstLines (ending : LineEnding α) : (count : Nat) → List α → List α
  | 0, _ => []
  | _ + 1, [] => []
  | count + 1, symbol :: rest =>
    symbol :: firstLines ending (if symbol = ending.feed then count else count + 1) rest

/-- Where no lines are asked for, nothing of a text is taken. -/
theorem firstLines_zero (text : List α) : firstLines ending 0 text = [] := by
  cases text <;> rfl

/-- The first line is the beginning of a text up to the first feed. -/
theorem firstLines_append_feed {line : List α} (h : ending.feed ∉ line) (count : Nat)
    (rest : List α) :
    firstLines ending (count + 1) (line ++ ending.feed :: rest) =
      line ++ ending.feed :: firstLines ending count rest := by
  induction line with
  | nil => simp [firstLines]
  | cons symbol line ih =>
    rw [List.mem_cons, not_or] at h
    rw [List.cons_append, firstLines, if_neg (Ne.symm h.1), ih h.2, List.cons_append]

/-- A text without feeds is all in its first line. -/
theorem firstLines_of_notMem {text : List α} (h : ending.feed ∉ text) (count : Nat) :
    firstLines ending (count + 1) text = text := by
  induction text with
  | nil => rfl
  | cons symbol text ih =>
    rw [List.mem_cons, not_or] at h
    rw [firstLines, if_neg (Ne.symm h.1), ih h.2]

/-- The first lines of a text are cut like the text. -/
theorem IsCut.firstLines {text : List α} {cut : List (List α)} (h : IsCut ending text cut)
    (hending : ending.feed ≠ ending.carriageReturn) (count : Nat) :
    IsCut ending (firstLines ending count text) (cut.take count) := by
  induction h generalizing count with
  | nil => cases count <;> exact .nil
  | unfinished hne hline =>
    cases count with
    | zero =>
      rw [firstLines_zero]
      exact .nil
    | succ count =>
      rw [firstLines_of_notMem hline, List.take_of_length_le (by simp)]
      exact .unfinished hne hline
  | feed hline hlast _ ih =>
    cases count with
    | zero =>
      rw [firstLines_zero]
      exact .nil
    | succ count =>
      rw [firstLines_append_feed hline]
      exact .feed hline hlast (ih count)
  | @returnFeed line rest _ hline _ ih =>
    cases count with
    | zero =>
      rw [firstLines_zero]
      exact .nil
    | succ count =>
      have hfirst := firstLines_append_feed (feed_notMem_append_return hending hline) count rest
      simp only [List.append_assoc, List.singleton_append] at hfirst
      rw [hfirst]
      exact .returnFeed hline (ih count)

/-- The lines of the first lines are the first ones of the lines. -/
theorem lines_firstLines (hending : ending.feed ≠ ending.carriageReturn) (count : Nat)
    (text : List α) :
    lines ending (firstLines ending count text) = (lines ending text).take count :=
  (((isCut_lines ending text).firstLines hending count).eq_lines hending).symm

/-! ## What stands behind a feed -/

/-- Right after a feed no line is in progress. -/
theorem pending_pushAll_append_feed (ending : LineEnding α) (front : List α) :
    (LineCutter.pushAll ending {} (front ++ [ending.feed])).pending = [] := by
  rw [LineCutter.pushAll_append]
  simp [LineCutter.pushAll, LineCutter.push]

/-- The lines before a feed do not depend on what stands behind it, and the lines behind it do not
depend on what stands before it. -/
theorem lines_append_feed_append (front rest : List α) :
    lines ending (front ++ ending.feed :: rest) =
      lines ending (front ++ [ending.feed]) ++ lines ending rest := by
  have hpending := pending_pushAll_append_feed ending front
  have hsplit : front ++ ending.feed :: rest = front ++ [ending.feed] ++ rest := by simp
  rw [hsplit, lines, LineCutter.pushAll_append, lines]
  rcases hcutter : LineCutter.pushAll ending {} (front ++ [ending.feed]) with ⟨finished, pending⟩
  rw [hcutter] at hpending
  obtain rfl : pending = [] := hpending
  rw [LineCutter.allLines_pushAll]
  rfl

/-- As many feeds as a text has, so many lines are ended. -/
theorem length_lines_append_feed (front : List α) :
    (lines ending (front ++ [ending.feed])).length = front.count ending.feed + 1 := by
  have hlength := LineCutter.length_finished_pushAll ending {} (front ++ [ending.feed])
  rw [lines, LineCutter.allLines, pending_pushAll_append_feed]
  simpa [LineCutter.finishedLines] using hlength

/-! ## Texts that end with a line -/

/-- No line is in progress where a text ends. -/
def IsEnded (ending : LineEnding α) (text : List α) : Prop :=
  text = [] ∨ text.getLast? = some ending.feed

/-- The lines of a text that ends with a line do not depend on what follows. -/
theorem IsEnded.lines_append {text : List α} (h : IsEnded ending text) (rest : List α) :
    lines ending (text ++ rest) = lines ending text ++ lines ending rest := by
  rcases h with rfl | hlast
  · rfl
  · obtain ⟨front, rfl⟩ := List.getLast?_eq_some_iff.mp hlast
    rw [List.append_assoc, List.singleton_append, lines_append_feed_append]

/-- The beginning of a text up to and with its last feed. -/
def endedPart (ending : LineEnding α) (text : List α) : List α :=
  text.rdropWhile (· ≠ ending.feed)

/-- The beginning of a text up to its last feed ends with a line. -/
theorem isEnded_endedPart (ending : LineEnding α) (text : List α) :
    IsEnded ending (endedPart ending text) := by
  by_cases hne : endedPart ending text = []
  · exact .inl hne
  · have hlast := List.rdropWhile_last_not (· ≠ ending.feed) text hne
    rw [decide_eq_true_eq, ne_eq, not_not] at hlast
    exact .inr (List.getLast?_eq_some_getLast hne ▸ congrArg some hlast)

/-- Behind the last feed of a text there is none. -/
theorem exists_eq_endedPart_append (ending : LineEnding α) (text : List α) :
    ∃ unfinished, text = endedPart ending text ++ unfinished ∧ ending.feed ∉ unfinished := by
  refine ⟨text.rtakeWhile (· ≠ ending.feed), ?_, fun hmem => ?_⟩
  · rw [endedPart, List.rdropWhile_append_rtakeWhile]
  · simpa using List.mem_rtakeWhile_imp hmem

/-- Where a text ends with a line, all of its lines are finished. -/
theorem IsEnded.pending_pushAll {text : List α} (h : IsEnded ending text) :
    (LineCutter.pushAll ending {} text).pending = [] := by
  rcases h with rfl | hlast
  · rfl
  · obtain ⟨front, rfl⟩ := List.getLast?_eq_some_iff.mp hlast
    exact pending_pushAll_append_feed ending front

/-- The lines that are finished where a text ends are those of its beginning up to its last feed. -/
theorem finishedLines_pushAll (ending : LineEnding α) (text : List α) :
    (LineCutter.pushAll ending {} text).finishedLines = lines ending (endedPart ending text) := by
  obtain ⟨unfinished, htext, hunfinished⟩ := exists_eq_endedPart_append ending text
  have hpending := (isEnded_endedPart ending text).pending_pushAll
  have hfinished : (LineCutter.pushAll ending {} text).finished =
      (LineCutter.pushAll ending {} (endedPart ending text)).finished := by
    conv => lhs; rw [htext, LineCutter.pushAll_append, LineCutter.pushAll_of_notMem _ hunfinished]
  rw [LineCutter.finishedLines, hfinished, lines, LineCutter.allLines, hpending]
  rfl

end AccessList.Text
