import AccessList.Proofs.Layout

/-!
# White space at the ends of lines

What is read from a text depends on the fields in its lines only. So a list is the same, and a fault
is found in the same line, whichever line ends the text has, whether its last line is ended, and
whatever white space there is at the start and at the end of its lines.
-/

namespace AccessList

namespace Text

/-! ## The same fields -/

/-- Texts with the same fields line by line. It makes no difference if the last line is ended. -/
inductive SameFields : List Char → List Char → Prop where
  /-- A last line with the same fields. -/
  | last {line other : List Char} : '\n' ∉ line → '\n' ∉ other → fields line = fields other →
      SameFields line other
  /-- An end behind the last line. -/
  | ended {line : List Char} : '\n' ∉ line → SameFields line (line ++ ['\n'])
  /-- A first line with the same fields. -/
  | feed {line other rest otherRest : List Char} : '\n' ∉ line → '\n' ∉ other →
      fields line = fields other → SameFields rest otherRest →
        SameFields (line ++ '\n' :: rest) (other ++ '\n' :: otherRest)

/-- An end behind a text changes no field. -/
theorem sameFields_append_feed (text : List Char) : SameFields text (text ++ ['\n']) := by
  induction text using inductionOnLines .chars with
  | last line hline => exact .ended hline
  | feed line rest hline ih =>
    rw [List.append_assoc]
    exact .feed hline hline rfl ih

/-- A text with a carriage return before every feed. -/
def withReturns (text : List Char) : List Char :=
  text.flatMap fun c => if c = '\n' then ['\r', '\n'] else [c]

/-- Where there is no feed, no carriage return is put in. -/
theorem withReturns_of_notMem {line : List Char} (h : '\n' ∉ line) : withReturns line = line := by
  induction line with
  | nil => rfl
  | cons c line ih =>
    rw [List.mem_cons, not_or] at h
    have hrest : line.flatMap _ = line := ih h.2
    rw [withReturns, List.flatMap_cons, hrest, if_neg (Ne.symm h.1), List.singleton_append]

/-- The first feed gets a carriage return in front of it, and so do those after it. -/
theorem withReturns_append_feed {line : List Char} (h : '\n' ∉ line) (rest : List Char) :
    withReturns (line ++ '\n' :: rest) = line ++ '\r' :: '\n' :: withReturns rest := by
  have hline : line.flatMap _ = line := withReturns_of_notMem h
  rw [withReturns, List.flatMap_append, hline]
  rfl

/-- A carriage return before every feed changes no field. -/
theorem sameFields_withReturns (text : List Char) : SameFields text (withReturns text) := by
  induction text using inductionOnLines .chars with
  | last line hline =>
    rw [withReturns_of_notMem hline]
    exact .last hline hline rfl
  | feed line rest hline ih =>
    have hreturn : '\n' ∉ line ++ ['\r'] := feed_notMem_append_return (by decide) hline
    have hfields : fields line = fields (line ++ ['\r']) :=
      (fields_append_isBlankText (by decide) line).symm
    change SameFields (line ++ '\n' :: rest) (withReturns (line ++ '\n' :: rest))
    rw [withReturns_append_feed hline, List.append_cons line '\r']
    exact .feed hline hreturn hfields ih

/-- A text with white space put in at the start and at the end of its lines. Of a line that ends
with a carriage return and a feed, the end may be taken to begin with either of them. -/
inductive Spaced : List Char → List Char → Prop where
  /-- What stands behind the last feed counts as a line, also if it is empty. -/
  | last {before line after : List Char} : IsSpacing before → '\n' ∉ line → IsSpacing after →
      Spaced line (before ++ (line ++ after))
  /-- A line that is ended. -/
  | ended {before line after ending rest spaced : List Char} : IsSpacing before → '\n' ∉ line →
      IsSpacing after → ending = ['\n'] ∨ ending = ['\r', '\n'] → Spaced rest spaced →
        Spaced (line ++ (ending ++ rest)) (before ++ (line ++ (after ++ (ending ++ spaced))))

variable {before line after : List Char}

/-- White space within a line may come in two parts. -/
theorem IsSpacing.append {back : List Char} (hafter : IsSpacing after) (hback : IsSpacing back) :
    IsSpacing (after ++ back) where
  isBlankText c hc := (List.mem_append.mp hc).elim (hafter.isBlankText c) (hback.isBlankText c)
  feed_notMem hmem :=
    (List.mem_append.mp hmem).elim hafter.feed_notMem hback.feed_notMem

/-- White space around a line brings in no feed. -/
theorem feed_notMem_spaced (hbefore : IsSpacing before) (hline : '\n' ∉ line)
    (hafter : IsSpacing after) : '\n' ∉ before ++ (line ++ after) := by
  simp [hbefore.feed_notMem, hline, hafter.feed_notMem]

/-- White space around a line changes no field. -/
theorem fields_spaced (hbefore : IsSpacing before) (hafter : IsSpacing after)
    (line : List Char) : fields (before ++ (line ++ after)) = fields line := by
  rw [fields_append_of_blank hbefore.isBlankText, fields_append_isBlankText hafter.isBlankText]

/-- White space at the start and at the end of lines changes no field. -/
theorem Spaced.sameFields {text spaced : List Char} (h : Spaced text spaced) :
    SameFields text spaced := by
  induction h with
  | last hbefore hline hafter =>
    exact .last hline (feed_notMem_spaced hbefore hline hafter)
      (fields_spaced hbefore hafter _).symm
  | @ended before line after ending rest spaced hbefore hline hafter hending _ ih =>
    obtain ⟨back, hback, rfl⟩ := exists_isSpacing_of_ending hending
    have hnone : IsSpacing [] := ⟨isBlankText_nil, List.not_mem_nil⟩
    have hfields : fields (line ++ back) = fields (before ++ (line ++ (after ++ back))) :=
      (fields_spaced hnone hback line).trans (fields_spaced hbefore (hafter.append hback) line).symm
    have hall := SameFields.feed (feed_notMem_spaced hnone hline hback)
      (feed_notMem_spaced hbefore hline (hafter.append hback)) hfields ih
    simpa only [List.nil_append, List.append_assoc, List.singleton_append] using hall

end Text

/-! ## The same list -/

/-- A line with the same fields says the same. -/
theorem Line.ofChars_eq_of_fields_eq {line other : List Char}
    (h : Text.fields line = Text.fields other) : ofChars line = ofChars other := by
  rw [ofChars, ofChars, h]

namespace RuleList

variable {number : Nat} {draft : Draft}

/-- A first line with the same fields is read in the same way. -/
theorem readLines_cons_of_fields_eq {line other : List Char}
    (hline : Text.fields line = Text.fields other)
    {later otherLater : List (Except ReadFault (List Char))}
    (hlater : ∀ number draft, readLines number draft later = readLines number draft otherLater) :
    readLines number draft (.ok line :: later) =
      readLines number draft (.ok other :: otherLater) := by
  rw [readLines, readLines, Line.ofChars_eq_of_fields_eq hline]
  split
  · rfl
  · exact hlater _ _

/-- Reading goes on behind the first line, whose end is in no field. -/
theorem readLines_lines_append_feed {line : List Char} (h : '\n' ∉ line) (rest : List Char) :
    readLines number draft ((Text.lines .chars (line ++ '\n' :: rest)).map .ok) =
      readLines number draft (.ok line :: (Text.lines .chars rest).map .ok) := by
  have hlines : Text.lines .chars (line ++ '\n' :: rest) =
      (Text.LineCutter.dropReturn .chars line.reverse).reverse :: Text.lines .chars rest :=
    Text.lines_append_feed h rest
  rw [hlines, List.map_cons]
  exact readLines_cons_of_fields_eq (Text.fields_dropReturn line) fun _ _ => rfl

/-- Texts with the same fields are read in the same way, from whatever line number and draft on. -/
theorem readLines_of_sameFields {text other : List Char} (h : Text.SameFields text other) :
    readLines number draft ((Text.lines .chars text).map .ok) =
      readLines number draft ((Text.lines .chars other).map .ok) := by
  induction h generalizing number draft with
  | last hline hother hfields =>
    rw [readLines_lines_of_notMem hline, readLines_lines_of_notMem hother]
    exact readLines_cons_of_fields_eq hfields fun _ _ => rfl
  | ended hline =>
    rw [readLines_lines_of_notMem hline, readLines_lines_append_feed hline]
    rfl
  | feed hline hother hfields _ ih =>
    rw [readLines_lines_append_feed hline, readLines_lines_append_feed hother]
    exact readLines_cons_of_fields_eq hfields fun _ _ => ih

/-- Texts with the same fields say the same list, or have the same fault in the same line. -/
theorem ofText_of_sameFields {text other : String}
    (h : Text.SameFields text.toList other.toList) : ofText other = ofText text :=
  (readLines_of_sameFields h).symm

/-- Whatever is read from a text, a list or an error with its line number and field, is also read
from the text with a carriage return before every feed, from the text with a feed behind it, and
from the text with any white space but feeds put in at the start and at the end of its lines. -/
theorem ofText_of_spacing (text : String) :
    ofText (String.ofList (Text.withReturns text.toList)) = ofText text ∧
      ofText (text ++ "\n") = ofText text ∧
      ∀ spaced : String, Text.Spaced text.toList spaced.toList → ofText spaced = ofText text := by
  refine ⟨ofText_of_sameFields ?_, ofText_of_sameFields ?_,
    fun spaced hspaced => ofText_of_sameFields hspaced.sameFields⟩
  · rw [String.toList_ofList]
    exact Text.sameFields_withReturns text.toList
  · rw [String.toList_append]
    exact Text.sameFields_append_feed text.toList

/-- With white space put in before and behind carriage returns, around a line and into an empty one,
the first word that is no action is still found in the fourth line. -/
theorem ofText_of_spacing_around_fault :
    let text := "# hosts\r\n\rdeny all\n\nfoo 10.0.0.1"
    let spaced := "\u00a0# hosts\t\r\n \rdeny all\u0085\n\u2003\nfoo 10.0.0.1\r"
    Text.Spaced text.toList spaced.toList ∧
      ofText text = .error (.malformed 4 (.unknownAction "foo")) ∧
      ofText spaced = .error (.malformed 4 (.unknownAction "foo")) := by
  intro text spaced
  have hspacing : ∀ blank ∈ [[], ['\u00a0'], ['\t'], [' '], ['\u0085'], ['\u2003'], ['\r']],
      Text.IsBlankText blank ∧ '\n' ∉ blank := by decide
  have hspace : ∀ blank ∈ [[], ['\u00a0'], ['\t'], [' '], ['\u0085'], ['\u2003'], ['\r']],
      Text.IsSpacing blank := fun blank h => ⟨(hspacing blank h).1, (hspacing blank h).2⟩
  have hline : ∀ line ∈ ["# hosts", "\rdeny all", "", "foo 10.0.0.1"], '\n' ∉ line.toList := by
    decide
  have hlines : Text.Spaced _ _ :=
    .ended (hspace ['\u00a0'] (by decide)) (hline "# hosts" (by decide))
      (hspace ['\t'] (by decide)) (.inr rfl) <|
    .ended (hspace [' '] (by decide)) (hline "\rdeny all" (by decide))
      (hspace ['\u0085'] (by decide)) (.inl rfl) <|
    .ended (hspace ['\u2003'] (by decide)) (hline "" (by decide))
      (hspace [] (by decide)) (.inl rfl) <|
    .last (hspace [] (by decide)) (hline "foo 10.0.0.1" (by decide)) (hspace ['\r'] (by decide))
  have hspaced : Text.Spaced text.toList spaced.toList := by
    refine cast (congrArg₂ Text.Spaced ?_ ?_) hlines
    · decide +kernel
    · decide +kernel
  have hfault : ofText text = .error (.malformed 4 (.unknownAction "foo")) := by
    simp only [text]
    rfl
  exact ⟨hspaced, hfault, ((ofText_of_spacing text).2.2 spaced hspaced).trans hfault⟩

end RuleList
end AccessList
