import AccessList.Proofs.LineCutting
import AccessList.Proofs.LineText
import AccessList.Proofs.Utf8Text
import AccessList.RuleList.Reader
import Mathlib.Data.List.Forall2

/-!
# How rule lists are written

Lines are read one after the other on top of a draft. A text is a rule list exactly if all of its
lines say something and the default action is given once at most, without rules after it. The list
then has the rules in the order of the lines.
-/

namespace AccessList

/-- Two steps succeed if the first one does, and the second one with what the first one gives. -/
theorem bind_eq_ok_iff {ε α β : Type} {first : Except ε α} {second : α → Except ε β} {b : β} :
    first >>= second = .ok b ↔ ∃ a, first = .ok a ∧ second a = .ok b := by
  cases first <;> simp [bind, Except.bind]

/-- Two steps fail as the first one does, or as the second one with what the first one gives. -/
theorem bind_eq_error_iff {ε α β : Type} {first : Except ε α} {second : α → Except ε β} {e : ε} :
    first >>= second = .error e ↔ first = .error e ∨ ∃ a, first = .ok a ∧ second a = .error e := by
  cases first <;> simp [bind, Except.bind]

/-! ## What lines say together -/

namespace Line

/-- The rule that a line gives, if it gives one. -/
def rule? : Line → Option Rule
  | .rule given => some given
  | .blank | .defaultAction _ => none

/-- The default action that a line gives, if it gives one. -/
def defaultAction? : Line → Option Action
  | .defaultAction given => some given
  | .blank | .rule _ => none

/-- The order of the lines of a rule list. -/
structure InOrder (lines : List Line) : Prop where
  /-- The default action is given once at most. -/
  default_once : (lines.filterMap defaultAction?).length ≤ 1
  /-- No rule comes after it. -/
  no_rule_after : lines.Pairwise fun earlier later =>
    earlier.defaultAction?.isSome → later.rule? = none

variable {line : Line} {lines : List Line}

/-- Only the line of a default action gives it. -/
theorem defaultAction?_eq_some_iff {action : Action} :
    line.defaultAction? = some action ↔ line = .defaultAction action := by
  cases line <;> simp [defaultAction?]

/-- A default action in the first line comes before those of the later lines. -/
theorem filterMap_cons_defaultAction (action : Action) :
    (defaultAction action :: lines).filterMap defaultAction? =
      action :: lines.filterMap defaultAction? := rfl

/-- Lines that say nothing give nothing. -/
theorem filterMap_eq_nil_of_blank {α : Type} {part? : Line → Option α} (hpart : part? .blank = none)
    (h : ∀ line ∈ lines, line = .blank) : lines.filterMap part? = [] := by
  rw [List.filterMap_eq_nil_iff]
  intro line hline
  rw [h line hline, hpart]

/-- A line that does not give the default action may stand in front. -/
theorem inOrder_cons_of_eq_none (h : line.defaultAction? = none) :
    InOrder (line :: lines) ↔ InOrder lines := by
  constructor
  · intro horder
    have honce := horder.default_once
    rw [List.filterMap_cons_none h] at honce
    exact ⟨honce, (List.pairwise_cons.mp horder.no_rule_after).2⟩
  · intro horder
    refine ⟨?_, List.pairwise_cons.mpr ⟨?_, horder.no_rule_after⟩⟩
    · rw [List.filterMap_cons_none h]
      exact horder.default_once
    · intro later _ hgiven
      rw [h] at hgiven
      cases hgiven

/-- Behind the default action nothing more is said. -/
theorem inOrder_cons_defaultAction (action : Action) :
    InOrder (.defaultAction action :: lines) ↔ ∀ later ∈ lines, later = .blank := by
  constructor
  · intro horder later hlater
    have hrule := (List.pairwise_cons.mp horder.no_rule_after).1 later hlater rfl
    have hnone : lines.filterMap defaultAction? = [] := by
      have honce := horder.default_once
      rw [filterMap_cons_defaultAction, List.length_cons] at honce
      exact List.eq_nil_of_length_eq_zero (by omega)
    have hdefault := List.filterMap_eq_nil_iff.mp hnone later hlater
    cases later with
    | blank => rfl
    | defaultAction _ => cases hdefault
    | rule _ => cases hrule
  · intro hblank
    refine ⟨?_, List.pairwise_cons.mpr ⟨fun later hlater _ => ?_, ?_⟩⟩
    · rw [filterMap_cons_defaultAction, filterMap_eq_nil_of_blank rfl hblank]
      exact Nat.le_refl 1
    · rw [hblank later hlater]
      rfl
    · refine List.pairwise_of_forall_mem_list fun earlier _ later hlater _ => ?_
      rw [hblank later hlater]
      rfl

end Line

namespace RuleList

/-- The list that lines say together: their rules in order, and their default action if there is
one. -/
def ofSaid (lines : List Line) : RuleList :=
  ⟨lines.filterMap Line.rule?, (lines.filterMap Line.defaultAction?).head?.getD .allow⟩

variable {draft next final : Draft} {line : Line} {lines : List Line}

/-! ## Adding lines to a draft -/

/-- As long as the default action is not given, every line can be added. -/
theorem Draft.add_of_eq_none (h : draft.defaultAction = none) (line : Line) :
    draft.add line = .ok ⟨line.rule?.toList ++ draft.rules, line.defaultAction?⟩ := by
  obtain ⟨rules, given⟩ := draft
  obtain rfl : given = none := h
  cases line <;> rfl

/-- Once the default action is given, only a line that says nothing can be added. -/
theorem Draft.add_of_isSome (h : draft.defaultAction.isSome = true) :
    draft.add line = .ok next ↔ line = .blank ∧ next = draft := by
  cases line <;> simp [Draft.add, h, eq_comm]

/-- Once the default action is given, only lines that say nothing can be added, and they change
nothing. -/
theorem Draft.foldlM_add_of_isSome (h : draft.defaultAction.isSome = true) :
    lines.foldlM Draft.add draft = .ok final ↔ (∀ line ∈ lines, line = .blank) ∧ final = draft := by
  induction lines with
  | nil =>
    rw [List.foldlM_nil]
    simp [pure, Except.pure, eq_comm]
  | cons line lines ih =>
    rw [List.foldlM_cons, bind_eq_ok_iff, List.forall_mem_cons]
    simp only [Draft.add_of_isSome h, and_assoc, exists_and_left, exists_eq_left, ih]

/-- As long as the default action is not given, lines can be added if they are in order. From the
line of the default action on these are lines that say nothing. -/
theorem Draft.foldlM_add_of_eq_none (h : draft.defaultAction = none) :
    lines.foldlM Draft.add draft = .ok final ↔ Line.InOrder lines ∧
      final = ⟨(lines.filterMap Line.rule?).reverse ++ draft.rules,
        (lines.filterMap Line.defaultAction?).head?⟩ := by
  induction lines generalizing draft with
  | nil =>
    obtain ⟨rules, given⟩ := draft
    obtain rfl : given = none := h
    have horder : Line.InOrder [] := ⟨Nat.zero_le 1, .nil⟩
    simp [horder, pure, Except.pure, eq_comm]
  | cons line lines ih =>
    rw [List.foldlM_cons, Draft.add_of_eq_none h]
    change lines.foldlM Draft.add _ = _ ↔ _
    cases hdefault : line.defaultAction? with
    | none =>
      rw [ih rfl, Line.inOrder_cons_of_eq_none hdefault, List.filterMap_cons_none hdefault]
      cases hrule : line.rule? with
      | none => rw [List.filterMap_cons_none hrule]; rfl
      | some rule =>
        rw [List.filterMap_cons_some hrule, List.reverse_cons, List.append_assoc]
        rfl
    | some action =>
      obtain rfl := Line.defaultAction?_eq_some_iff.mp hdefault
      rw [Draft.foldlM_add_of_isSome rfl, Line.inOrder_cons_defaultAction]
      refine and_congr_right fun hblank => ?_
      have hrules : lines.filterMap Line.rule? = [] := Line.filterMap_eq_nil_of_blank rfl hblank
      rw [Line.filterMap_cons_defaultAction, List.filterMap_cons_none rfl, hrules]
      rfl

/-! ## Reading lines -/

/-- Lines lead from one draft to another: each of them says what is added. -/
inductive Reads : Draft → List (Except ReadFault (List Char)) → Draft → Prop where
  /-- Without lines the draft stays as it is. -/
  | nil (draft : Draft) : Reads draft [] draft
  /-- What the first line says is added before the other lines are read. -/
  | cons {draft next final : Draft} {text : List Char} {line : Line}
      {later : List (Except ReadFault (List Char))} : Line.Writes text line →
      draft.add line = .ok next → Reads next later final → Reads draft (.ok text :: later) final

/-- What a line adds to a draft. -/
theorem ofChars_bind_add_eq_ok_iff {text : List Char} :
    Line.ofChars text >>= draft.add = .ok final ↔
      ∃ line, Line.Writes text line ∧ draft.add line = .ok final := by
  simp only [bind_eq_ok_iff, Line.ofChars_eq_ok_iff]

/-- Reading lines gives a list exactly if they lead to a draft of it. -/
theorem readLines_eq_ok_iff {number : Nat} {lines : List (Except ReadFault (List Char))}
    {list : RuleList} :
    readLines number draft lines = .ok list ↔
      ∃ final, Reads draft lines final ∧ list = final.toList := by
  induction lines generalizing number draft with
  | nil =>
    constructor
    · intro h
      cases h
      exact ⟨draft, .nil draft, rfl⟩
    · rintro ⟨_, ⟨⟩, rfl⟩
      rfl
  | cons line later ih =>
    cases line with
    | error fault =>
      constructor
      · intro h
        cases h
      · rintro ⟨_, ⟨⟩, _⟩
    | ok text =>
      rw [readLines]
      constructor
      · intro h
        split at h
        · cases h
        · next next hnext =>
          obtain ⟨line, hwrites, hadd⟩ := ofChars_bind_add_eq_ok_iff.mp hnext
          obtain ⟨final, hreads, hlist⟩ := ih.mp h
          exact ⟨final, .cons hwrites hadd hreads, hlist⟩
      · rintro ⟨final, hreads, rfl⟩
        cases hreads with
        | cons hwrites hadd hlater =>
          rw [ofChars_bind_add_eq_ok_iff.mpr ⟨_, hwrites, hadd⟩]
          exact ih.mpr ⟨final, hlater, rfl⟩

/-- A text without line feeds is read as one line. An empty one has no line, but an empty line would
say nothing. -/
theorem readLines_lines_of_notMem {number : Nat} {line : List Char} (h : '\n' ∉ line) :
    readLines number draft ((Text.lines .chars line).map .ok) =
      readLines number draft [.ok line] := by
  by_cases hne : line = []
  · subst hne
    rfl
  · rw [Text.lines_of_notMem h hne]
    rfl

/-- Lines of text lead to a draft exactly if what they say can be added. -/
theorem reads_map_ok_iff {cut : List (List Char)} :
    Reads draft (cut.map .ok) final ↔
      ∃ said, List.Forall₂ Line.Writes cut said ∧ said.foldlM Draft.add draft = .ok final := by
  induction cut generalizing draft with
  | nil =>
    constructor
    · rintro ⟨⟩
      exact ⟨[], .nil, rfl⟩
    · rintro ⟨_, ⟨⟩, hadd⟩
      cases hadd
      exact .nil _
  | cons text cut ih =>
    constructor
    · intro h
      cases h with
      | cons hwrites hadd hlater =>
        obtain ⟨said, hsaid, hfold⟩ := ih.mp hlater
        refine ⟨_ :: said, .cons hwrites hsaid, ?_⟩
        rw [List.foldlM_cons, bind_eq_ok_iff]
        exact ⟨_, hadd, hfold⟩
    · rintro ⟨_, hsaid, hfold⟩
      cases hsaid with
      | cons hwrites hsaid =>
        rw [List.foldlM_cons, bind_eq_ok_iff] at hfold
        obtain ⟨next, hadd, hfold⟩ := hfold
        exact .cons hwrites hadd (ih.mpr ⟨_, hsaid, hfold⟩)

/-! ## Texts of rule lists -/

/-- A list is what the lines of a text say together. -/
theorem ofText_eq_ok_iff {text : String} {list : RuleList} :
    ofText text = .ok list ↔ ∃ said,
      List.Forall₂ Line.Writes (Text.lines .chars text.toList) said ∧ Line.InOrder said ∧
        list = ofSaid said := by
  have hstart : ({} : Draft).defaultAction = none := rfl
  rw [ofText, ofLines, readLines_eq_ok_iff]
  simp only [reads_map_ok_iff, Draft.foldlM_add_of_eq_none hstart]
  constructor
  · rintro ⟨final, ⟨said, hsaid, horder, rfl⟩, rfl⟩
    refine ⟨said, hsaid, horder, ?_⟩
    rw [Draft.toList, List.append_nil, List.reverse_reverse]
    rfl
  · rintro ⟨said, hsaid, horder, rfl⟩
    refine ⟨_, ⟨said, hsaid, horder, rfl⟩, ?_⟩
    rw [Draft.toList, List.append_nil, List.reverse_reverse]
    rfl

/-- The lines of bytes do not depend on the pieces that they come in. -/
theorem lines_of_pieces (pieces : List (List UInt8)) :
    Source.lines ⟨pieces, none⟩ =
      (Text.lines .bytes pieces.flatten).map Source.decodeLine := by
  rw [Source.lines, Source.cutter, Text.LineCutter.foldl_pushAll]
  rfl

/-- Bytes that come all at once are read line by line. -/
theorem ofSource_ofBytes (bytes : List UInt8) :
    ofSource (.ofBytes bytes) = ofLines ((Text.lines .bytes bytes).map Source.decodeLine) := by
  rw [ofSource, Source.ofBytes, lines_of_pieces, List.flatten_singleton]

/-- Reading the bytes of a text is reading the text. -/
theorem ofSource_toUTF8 (text : String) :
    ofSource (.ofBytes text.toUTF8.data.toList) = ofText text := by
  rw [ofSource_ofBytes, Text.Utf8.toList_toUTF8, Text.Utf8.lines_encode, List.map_map, ofText]
  congr 1
  refine List.map_congr_left fun line _ => ?_
  rw [Function.comp_apply, Source.decodeLine, Text.Utf8.decode?_encode]

/-- Cut into lines, a text is a rule list exactly if every line is white space, a comment, or an
action and a target, and `all` is the target of one line at most, behind all rules. The list has the
rules in order, and its default action is the one given with `all`, or to let addresses through. The
same holds for the bytes of the text. -/
theorem ofText_eq_ok_iff_lines_in_order (text : String) :
    ofSource (.ofBytes text.toUTF8.data.toList) = ofText text ∧
      ∀ list, ofText text = .ok list ↔ ∃ cut said, Text.IsCut .chars text.toList cut ∧
        List.Forall₂ Line.Writes cut said ∧ Line.InOrder said ∧
          list.rules = said.filterMap Line.rule? ∧
            list.defaultAction = (said.filterMap Line.defaultAction?).head?.getD .allow := by
  refine ⟨ofSource_toUTF8 text, fun list => ?_⟩
  have hcut : ∀ cut, Text.IsCut .chars text.toList cut ↔ cut = Text.lines .chars text.toList :=
    fun _ => Text.isCut_iff (by decide)
  have hlist : ∀ said, list = ofSaid said ↔ list.rules = said.filterMap Line.rule? ∧
      list.defaultAction = (said.filterMap Line.defaultAction?).head?.getD .allow := by
    intro said
    obtain ⟨rules, defaultAction⟩ := list
    rw [ofSaid, RuleList.mk.injEq]
  simp only [hcut, ← hlist]
  rw [ofText_eq_ok_iff]
  constructor
  · rintro ⟨said, hsaid⟩
    exact ⟨_, said, rfl, hsaid⟩
  · rintro ⟨_, said, rfl, hsaid⟩
    exact ⟨said, hsaid⟩

end RuleList
end AccessList
