import AccessList.Proofs.RuleListText
import Mathlib.Order.Bounds.Basic

/-!
# The first fault

Reading stops at the first line that cannot be read on top of the lines before it. The error has the
number of that line. What is wrong is told by the line itself and by whether the default action was
given before, and a fault of the line itself comes first. Nothing behind the line matters.
-/

namespace AccessList

/-! ## Faults of lines -/

namespace Line

/-- What is wrong with a line, for which it matters whether the default action was given before. -/
inductive FaultIn (given : Prop) (text : List Char) : LineFault → Prop where
  /-- What is wrong with the line in itself is wrong wherever it stands. -/
  | own {fault : LineFault} : OwnFault text fault → FaultIn given text fault
  /-- The default action is given again. -/
  | duplicateDefault {action : Action} : given → Writes text (.defaultAction action) →
      FaultIn given text .duplicateDefault
  /-- A rule comes too late. -/
  | ruleAfterDefault {rule : Rule} : given → Writes text (.rule rule) →
      FaultIn given text .ruleAfterDefault

end Line

namespace RuleList

variable {draft next final : Draft} {text : List Char}

/-- A line cannot be added exactly if it comes too late. -/
theorem Draft.add_eq_error_iff {line : Line} {fault : LineFault} :
    draft.add line = .error fault ↔ draft.defaultAction.isSome = true ∧
      ((∃ action, line = .defaultAction action ∧ fault = .duplicateDefault) ∨
        ∃ rule, line = .rule rule ∧ fault = .ruleAfterDefault) := by
  cases line with
  | blank => simp [Draft.add]
  | defaultAction action =>
    by_cases hgiven : draft.defaultAction.isSome = true <;> simp [Draft.add, hgiven, eq_comm]
  | rule rule =>
    by_cases hgiven : draft.defaultAction.isSome = true <;> simp [Draft.add, hgiven, eq_comm]

/-- The fault that stops the reading at a line. -/
theorem ofChars_bind_add_eq_error_iff {fault : LineFault} :
    Line.ofChars text >>= draft.add = .error fault ↔
      Line.FaultIn (draft.defaultAction.isSome = true) text fault := by
  rw [bind_eq_error_iff]
  simp only [Line.ofChars_eq_error_iff, Line.ofChars_eq_ok_iff, Draft.add_eq_error_iff]
  constructor
  · rintro (hown | ⟨_, hwrites, hgiven, ⟨action, rfl, rfl⟩ | ⟨rule, rfl, rfl⟩⟩)
    · exact .own hown
    · exact .duplicateDefault hgiven hwrites
    · exact .ruleAfterDefault hgiven hwrites
  · intro h
    cases h with
    | own hown => exact .inl hown
    | duplicateDefault hgiven hwrites => exact .inr ⟨_, hwrites, hgiven, .inl ⟨_, rfl, rfl⟩⟩
    | ruleAfterDefault hgiven hwrites => exact .inr ⟨_, hwrites, hgiven, .inr ⟨_, rfl, rfl⟩⟩

/-- How the reading of a line with a number stops on top of a draft. -/
inductive StopsAt (number : Nat) (draft : Draft) : Except ReadFault (List Char) → Error → Prop where
  /-- The line cannot be obtained. -/
  | unreadable (fault : ReadFault) : StopsAt number draft (.error fault) (.unreadable fault)
  /-- The line is not as it should be. -/
  | malformed {text : List Char} {fault : LineFault} :
      Line.FaultIn (draft.defaultAction.isSome = true) text fault →
        StopsAt number draft (.ok text) (.malformed number fault)

/-- Reading fails exactly if it stops at a line behind lines that are read. -/
theorem readLines_eq_error_iff {number : Nat} {lines : List (Except ReadFault (List Char))}
    {error : Error} :
    readLines number draft lines = .error error ↔
      ∃ before line after reached, lines = before ++ line :: after ∧ Reads draft before reached ∧
        StopsAt (number + before.length) reached line error := by
  induction lines generalizing number draft with
  | nil =>
    constructor
    · intro h
      cases h
    · rintro ⟨before, line, after, _, hlines, _⟩
      simp at hlines
  | cons line later ih =>
    constructor
    · intro h
      cases line with
      | error fault =>
        cases h
        exact ⟨[], _, later, draft, rfl, .nil draft, .unreadable fault⟩
      | ok text =>
        rw [readLines] at h
        split at h
        · next fault hfault =>
          cases h
          have hstop := ofChars_bind_add_eq_error_iff.mp hfault
          exact ⟨[], _, later, draft, rfl, .nil draft, .malformed hstop⟩
        · next next hnext =>
          obtain ⟨said, hwrites, hadd⟩ := ofChars_bind_add_eq_ok_iff.mp hnext
          obtain ⟨before, line, after, reached, rfl, hreads, hstop⟩ := ih.mp h
          refine ⟨.ok text :: before, line, after, reached, rfl, .cons hwrites hadd hreads, ?_⟩
          rw [List.length_cons, ← Nat.add_assoc, Nat.add_right_comm]
          exact hstop
    · rintro ⟨before, stop, after, reached, hlines, hreads, hstop⟩
      cases hreads with
      | nil =>
        obtain ⟨rfl, rfl⟩ := List.cons.inj hlines
        cases hstop with
        | unreadable fault => rfl
        | malformed hfault =>
          rw [readLines, ofChars_bind_add_eq_error_iff.mpr hfault]
          rfl
      | cons hwrites hadd hlater =>
        obtain ⟨rfl, rfl⟩ := List.cons.inj hlines
        rw [readLines, ofChars_bind_add_eq_ok_iff.mpr ⟨_, hwrites, hadd⟩]
        refine ih.mpr ⟨_, stop, after, reached, rfl, hlater, ?_⟩
        rw [List.length_cons, ← Nat.add_assoc, Nat.add_right_comm] at hstop
        exact hstop

/-- The first lines of lines that can be read can be read. -/
theorem Reads.take {lines : List (Except ReadFault (List Char))} (h : Reads draft lines final)
    (count : Nat) : ∃ reached, Reads draft (lines.take count) reached := by
  induction h generalizing count with
  | nil draft => exact ⟨draft, by rw [List.take_nil]; exact .nil draft⟩
  | @cons draft _ _ _ _ _ hwrites hadd _ ih =>
    cases count with
    | zero => exact ⟨draft, .nil draft⟩
    | succ count =>
      obtain ⟨reached, hreads⟩ := ih count
      exact ⟨reached, .cons hwrites hadd hreads⟩

/-! ## Whether the default action was given -/

/-- After a line the default action is given if it was given before or the line gives it. -/
theorem Draft.isSome_defaultAction_of_add {line : Line} (h : draft.add line = .ok next) :
    next.defaultAction.isSome = true ↔
      draft.defaultAction.isSome = true ∨ ∃ action, line = .defaultAction action := by
  cases hgiven : draft.defaultAction with
  | none =>
    rw [Draft.add_of_eq_none hgiven] at h
    cases h
    simp [Option.isSome_iff_exists, Line.defaultAction?_eq_some_iff]
  | some given =>
    have hsome : draft.defaultAction.isSome = true := by rw [hgiven]; rfl
    obtain ⟨rfl, rfl⟩ := (Draft.add_of_isSome hsome).mp h
    simp [hgiven]

/-- The default action was given in the draft, or it is given in one of the lines. -/
theorem Reads.isSome_defaultAction_iff {lines : List (Except ReadFault (List Char))}
    (h : Reads draft lines final) :
    final.defaultAction.isSome = true ↔ draft.defaultAction.isSome = true ∨
      ∃ text action, .ok text ∈ lines ∧ Line.Writes text (.defaultAction action) := by
  induction h with
  | nil draft => simp
  | @cons draft next final text line later hwrites hadd _ ih =>
    have hline : ∀ said, Line.Writes text said ↔ line = said := by
      intro said
      rw [← Line.ofChars_eq_ok_iff, Line.ofChars_eq_ok_iff.mpr hwrites, Except.ok.injEq]
    rw [ih, Draft.isSome_defaultAction_of_add hadd, or_assoc]
    simp only [← hline, List.mem_cons, Except.ok.injEq, or_and_right, exists_or, exists_and_left,
      exists_eq_left]

/-! ## Bytes -/

/-- One of some lines of bytes gives the default action. -/
def GivesDefault (lines : List (List UInt8)) : Prop :=
  ∃ line ∈ lines, ∃ text action, Text.Utf8.decode? line = some text ∧
    Line.Writes text (.defaultAction action)

/-- A line of bytes is read as the text that it decodes to. -/
theorem decodeLine_eq_ok_iff {line : List UInt8} :
    Source.decodeLine line = .ok text ↔ Text.Utf8.decode? line = some text := by
  unfold Source.decodeLine
  split
  · next found hfound => simp [hfound]
  · next hnone => simp [hnone]

/-- Reading stops at a line of bytes where it is not UTF-8, or where its text is at fault. -/
theorem stopsAt_decodeLine {number : Nat} {line : List UInt8} {error : Error}
    (h : StopsAt number draft (Source.decodeLine line) error) :
    (Text.Utf8.decode? line = none ∧ error = .unreadable .notUtf8) ∨
      ∃ text fault, Text.Utf8.decode? line = some text ∧ error = .malformed number fault ∧
        Line.FaultIn (draft.defaultAction.isSome = true) text fault := by
  rw [Source.decodeLine] at h
  cases hdecode : Text.Utf8.decode? line with
  | none =>
    rw [hdecode] at h
    cases h
    exact .inl ⟨rfl, rfl⟩
  | some text =>
    rw [hdecode] at h
    cases h with
    | malformed hfault => exact .inr ⟨text, _, rfl, rfl, hfault⟩

/-- Whether lines of bytes give the default action is told by the texts that they decode to. -/
theorem givesDefault_iff {lines : List (List UInt8)} :
    GivesDefault lines ↔ ∃ text action, .ok text ∈ lines.map Source.decodeLine ∧
      Line.Writes text (.defaultAction action) := by
  simp only [GivesDefault, List.mem_map, decodeLine_eq_ok_iff]
  constructor
  · rintro ⟨line, hline, text, action, hdecode, hwrites⟩
    exact ⟨text, action, ⟨line, hline, hdecode⟩, hwrites⟩
  · rintro ⟨text, action, ⟨line, hline, hdecode⟩, hwrites⟩
    exact ⟨line, hline, text, action, hdecode, hwrites⟩

/-- Where the reading of bytes stops with an error. -/
structure Stop (bytes : List UInt8) (error : Error) where
  /-- The lines that are read. -/
  before : List (List UInt8)
  /-- The line at which the reading stops. -/
  line : List UInt8
  /-- The lines that are not reached. -/
  after : List (List UInt8)
  /-- The draft that the lines before lead to. -/
  reached : Draft
  /-- These are the lines of the bytes. -/
  lines_eq : Text.lines .bytes bytes = before ++ line :: after
  /-- The lines before are read. -/
  reads : Reads {} (before.map Source.decodeLine) reached
  /-- The line is the one of the error. -/
  stopsAt : StopsAt (before.length + 1) reached (Source.decodeLine line) error

/-- Reading bytes fails exactly if it stops somewhere. -/
theorem ofSource_eq_error_iff {pieces : List (List UInt8)} {error : Error} :
    ofSource ⟨pieces, none⟩ = .error error ↔ Nonempty (Stop pieces.flatten error) := by
  rw [ofSource, lines_of_pieces, ofLines, readLines_eq_error_iff]
  constructor
  · rintro ⟨_, _, _, reached, hlines, hreads, hstop⟩
    obtain ⟨before, _, hcut, rfl, hrest⟩ := List.map_eq_append_iff.mp hlines
    obtain ⟨line, after, rfl, rfl, rfl⟩ := List.map_eq_cons_iff.mp hrest
    rw [List.length_map, Nat.add_comm] at hstop
    exact ⟨before, line, after, reached, hcut, hreads, hstop⟩
  · rintro ⟨before, line, after, reached, hcut, hreads, hstop⟩
    refine ⟨before.map Source.decodeLine, Source.decodeLine line, after.map Source.decodeLine,
      reached, ?_, hreads, ?_⟩
    · rw [hcut, List.map_append, List.map_cons]
    · rwa [List.length_map, Nat.add_comm]

/-- In one place there is only one fault, because reading the line on top of a draft in the state in
question has one outcome. -/
theorem faultIn_unique {given : Prop} {fault other : LineFault}
    (h : Line.FaultIn given text fault) (h' : Line.FaultIn given text other) : other = fault := by
  obtain ⟨draft, hdraft⟩ : ∃ draft : Draft, (draft.defaultAction.isSome = true) = given := by
    by_cases hgiven : given
    · exact ⟨⟨[], some .allow⟩, by simp [hgiven]⟩
    · exact ⟨{}, by simp [hgiven]⟩
  subst hdraft
  rw [← ofChars_bind_add_eq_error_iff] at h h'
  rw [h, Except.error.injEq] at h'
  exact h'.symm

namespace Stop

variable {bytes : List UInt8} {error : Error}

/-- Other bytes stop the reading in the same way if they have the same lines up to there. -/
def ofLinesEq (stop : Stop bytes error) {other : List UInt8} (after : List (List UInt8))
    (h : Text.lines .bytes other = stop.before ++ stop.line :: after) : Stop other error :=
  { stop with after := after, lines_eq := h }

/-- The lines up to the one at which the reading stops are the least number of first lines that
cannot be read. -/
theorem isLeast_firstLines (stop : Stop bytes error) :
    IsLeast {k | ∃ e, ofSource (.ofBytes (Text.firstLines .bytes k bytes)) = .error e}
      (stop.before.length + 1) := by
  have hlines : ∀ k, Text.lines .bytes [Text.firstLines .bytes k bytes].flatten =
      (stop.before ++ stop.line :: stop.after).take k := by
    intro k
    rw [List.flatten_singleton, Text.lines_firstLines (by decide), stop.lines_eq]
  constructor
  · refine ⟨error, ofSource_eq_error_iff.mpr ⟨stop.ofLinesEq [] ?_⟩⟩
    rw [hlines, List.take_length_add_append, List.take_succ_cons, List.take_zero]
  · rintro k ⟨e, he⟩
    by_contra hk
    rw [ofSource, Source.ofBytes, lines_of_pieces, hlines,
      List.take_append_of_le_length (by omega), List.map_take] at he
    obtain ⟨earlier, hreads⟩ := stop.reads.take k
    rw [ofLines, readLines_eq_ok_iff.mpr ⟨earlier, hreads, rfl⟩] at he
    cases he

/-- Whatever stands behind the end of the line at which the reading stops, it stops there. -/
theorem append_feed (stop : Stop bytes error) {front rest : List UInt8}
    (hbytes : bytes = front ++ Text.LineEnding.bytes.feed :: rest)
    (hcount : front.count Text.LineEnding.bytes.feed = stop.before.length) (other : List UInt8) :
    ofSource (.ofBytes (front ++ Text.LineEnding.bytes.feed :: other)) = .error error := by
  subst hbytes
  have hfront : Text.lines .bytes (front ++ [Text.LineEnding.bytes.feed]) =
      stop.before ++ [stop.line] := by
    have hlines := stop.lines_eq
    rw [Text.lines_append_feed_append, List.append_cons stop.before] at hlines
    refine (List.append_inj hlines ?_).1
    rw [Text.length_lines_append_feed, hcount, List.length_append, List.length_singleton]
  refine ofSource_eq_error_iff.mpr ⟨stop.ofLinesEq (Text.lines .bytes other) ?_⟩
  rw [List.flatten_singleton, Text.lines_append_feed_append, hfront, List.append_assoc,
    List.singleton_append]

/-- Whether the default action was given where the reading stops. -/
theorem isSome_defaultAction_iff (stop : Stop bytes error) :
    stop.reached.defaultAction.isSome = true ↔ GivesDefault stop.before := by
  rw [givesDefault_iff, stop.reads.isSome_defaultAction_iff]
  simp

/-- The error says that the line cannot be decoded, or it says what is wrong with the line. -/
theorem error_eq (stop : Stop bytes error) :
    (Text.Utf8.decode? stop.line = none ∧ error = .unreadable .notUtf8) ∨
      ∃ text fault, Text.Utf8.decode? stop.line = some text ∧
        error = .malformed (stop.before.length + 1) fault ∧
        Line.FaultIn (GivesDefault stop.before) text fault := by
  rw [← stop.isSome_defaultAction_iff]
  exact stopsAt_decodeLine stop.stopsAt

end Stop

/-- Reading bytes fails at the first line with which they cannot be read. If the line cannot be
decoded, the error says so, and else it has the number of the line. What it says is the only thing
wrong with the line, given whether the default action was given before. If the line is ended,
nothing behind its end matters. The bytes may come in any pieces; an empty one, which no source that
is read through a buffer hands out before its end, adds nothing. -/
theorem ofSource_error_of_first_fault {pieces : List (List UInt8)} {error : Error}
    (h : ofSource ⟨pieces, none⟩ = .error error) :
    ∃ before line after, Text.lines .bytes pieces.flatten = before ++ line :: after ∧
      IsLeast {k | ∃ e, ofSource (.ofBytes (Text.firstLines .bytes k pieces.flatten)) = .error e}
        (before.length + 1) ∧
      ((Text.Utf8.decode? line = none ∧ error = .unreadable .notUtf8) ∨
        ∃ text fault, Text.Utf8.decode? line = some text ∧
          error = .malformed (before.length + 1) fault ∧
          ∀ other, Line.FaultIn (GivesDefault before) text other ↔ other = fault) ∧
      ∀ front rest, pieces.flatten = front ++ Text.LineEnding.bytes.feed :: rest →
        front.count Text.LineEnding.bytes.feed = before.length →
          ∀ other, ofSource (.ofBytes (front ++ Text.LineEnding.bytes.feed :: other)) =
            .error error := by
  obtain ⟨stop⟩ := ofSource_eq_error_iff.mp h
  refine ⟨stop.before, stop.line, stop.after, stop.lines_eq, stop.isLeast_firstLines, ?_,
    fun front rest hbytes hcount => stop.append_feed hbytes hcount⟩
  rcases stop.error_eq with hdecode | ⟨text, fault, hdecode, herror, hfault⟩
  · exact .inl hdecode
  · refine .inr ⟨text, fault, hdecode, herror, fun other => ?_⟩
    constructor
    · exact faultIn_unique hfault
    · rintro rfl
      exact hfault

/-- A rule behind the default action stops the reading of these bytes at their third line, although
it is the second one that says something. -/
theorem ofSource_error_of_late_rule :
    let pieces := ["deny all\n# test\nall".toUTF8.data.toList,
      "ow 10.0.0.1\nfoo".toUTF8.data.toList]
    ofSource ⟨pieces, none⟩ = .error (.malformed 3 .ruleAfterDefault) ∧
      IsLeast {k | ∃ e, ofSource (.ofBytes (Text.firstLines .bytes k pieces.flatten)) = .error e}
        3 := by
  intro pieces
  have h : ofSource ⟨pieces, none⟩ = .error (.malformed 3 .ruleAfterDefault) := rfl
  obtain ⟨before, _, _, _, hleast, hwhy, _⟩ := ofSource_error_of_first_fault h
  have hnumber : before.length + 1 = 3 := by
    rcases hwhy with ⟨_, herror⟩ | ⟨_, _, _, herror, _⟩
    · cases herror
    · exact (Error.malformed.inj herror).1.symm
  rw [hnumber] at hleast
  exact ⟨h, hleast⟩

end RuleList
end AccessList
