import AccessList.Proofs.RuleListText
import AccessList.Proofs.RuleText

/-!
# Layouts of rule lists

A rule list can be written down in many ways: there may be white space around what a line says,
lines that say nothing anywhere, and either kind of line end. However that is done, reading the text
gives the list back, with all host bits of its targets.
-/

namespace AccessList

open Text (IsBlankText LineEnding)

namespace Text

/-- White space that can be put into a line. -/
structure IsSpacing (text : List Char) : Prop where
  /-- There is nothing but white space. -/
  isBlankText : IsBlankText text
  /-- The line is not ended by it. -/
  feed_notMem : '\n' ∉ text

/-- Either kind of line end is white space and then a feed. -/
theorem exists_isSpacing_of_ending {ending : List Char}
    (h : ending = ['\n'] ∨ ending = ['\r', '\n']) :
    ∃ back, IsSpacing back ∧ ending = back ++ ['\n'] := by
  rcases h with rfl | rfl
  · exact ⟨[], ⟨isBlankText_nil, by decide⟩, rfl⟩
  · exact ⟨['\r'], ⟨by decide, by decide⟩, rfl⟩

/-- The carriage return that belongs to the end of a line is in no field. -/
theorem fields_dropReturn (line : List Char) :
    fields (LineCutter.dropReturn .chars line.reverse).reverse = fields line := by
  by_cases hlast : line.getLast? = some '\r'
  · obtain ⟨front, rfl⟩ := List.getLast?_eq_some_iff.mp hlast
    have hfront : (LineCutter.dropReturn .chars (front ++ ['\r']).reverse).reverse = front :=
      reverse_dropReturn_append front
    rw [hfront, fields_append_isBlankText (by decide)]
  · rw [reverse_dropReturn_of_ne hlast]

end Text

namespace Line

/-! ## One line -/

/-- What a line says, as it is printed. -/
def chars : Line → List Char
  | blank => []
  | defaultAction action => action.text.toList ++ [' ', 'a', 'l', 'l']
  | rule said => said.text.toList

/-- How a line may be laid out, without its end. -/
inductive LaidOut : Line → List Char → Prop
  /-- There may be white space before and behind what the line says. -/
  | padded (line : Line) {before after : List Char} : IsBlankText before → '\n' ∉ before →
      IsBlankText after → '\n' ∉ after → LaidOut line (before ++ (line.chars ++ after))
  /-- A line that says nothing may be a comment. -/
  | comment {text : List Char} : IsComment text → '\n' ∉ text → LaidOut blank text

variable {line : Line} {text : List Char}

/-- There is no feed in the characters of a line. -/
theorem feed_notMem_chars (line : Line) : '\n' ∉ line.chars := by
  cases line with
  | blank => exact List.not_mem_nil
  | defaultAction action => cases action <;> decide
  | rule said =>
    rw [chars, said.toList_text, List.mem_append, List.mem_cons]
    rintro (haction | hspace | htarget)
    · exact said.action.isField_text.feed_notMem haction
    · exact absurd hspace (by decide)
    · exact said.target.isField_text.feed_notMem htarget

/-- A line that is laid out has no end in it. -/
theorem LaidOut.feed_notMem (h : LaidOut line text) : '\n' ∉ text := by
  cases h with
  | padded line _ hbefore _ hafter =>
    simp [hbefore, hafter, line.feed_notMem_chars]
  | comment _ htext => exact htext

/-- A line that is laid out says what it was laid out for. -/
theorem LaidOut.writes (h : LaidOut line text) : Writes text line := by
  cases h with
  | padded line hbefore _ hafter _ =>
    cases line with
    | blank =>
      refine .empty fun c hc => ?_
      rcases List.mem_append.mp hc with hc | hc
      · exact hbefore c hc
      · exact hafter c hc
    | defaultAction action =>
      have hall : Text.IsField ['a', 'l', 'l'] := by decide
      exact .fields (hasTwoFields_of_space action.isField_text hall hbefore hafter)
        (.defaultAction action)
    | rule said => exact writes_text_of_rule said hbefore hafter
  | comment hcomment _ => exact .comment hcomment

/-- White space behind a line does not change what it says. -/
theorem writes_append_isBlankText {blank : List Char} (hblank : IsBlankText blank) :
    Writes (text ++ blank) line ↔ Writes text line := by
  simp only [← ofChars_eq_ok_iff, ofChars, Text.fields_append_isBlankText hblank]

/-- A carriage return at the end of a line, which is taken for a part of the end, is not missed. -/
theorem Writes.dropReturn (h : Writes text line) :
    Writes (Text.LineCutter.dropReturn .chars text.reverse).reverse line := by
  rw [← ofChars_eq_ok_iff] at h ⊢
  rwa [ofChars, Text.fields_dropReturn, ← ofChars]

/-! ## Many lines -/

/-- How lines may be laid out as a text. -/
inductive AllLaidOut : List Line → List Char → Prop
  /-- Without lines there is no text. -/
  | nil : AllLaidOut [] []
  /-- Each line is ended, in one way or the other. -/
  | cons {line : Line} {lines : List Line} {text ending rest : List Char} : LaidOut line text →
      ending = ['\n'] ∨ ending = ['\r', '\n'] → AllLaidOut lines rest →
        AllLaidOut (line :: lines) (text ++ (ending ++ rest))

/-- Behind a text without line feeds, either end leaves the line but for a carriage return. -/
theorem lines_append_ending {text ending : List Char} (htext : '\n' ∉ text)
    (hending : ending = ['\n'] ∨ ending = ['\r', '\n']) (rest : List Char) :
    ∃ back, IsBlankText back ∧ Text.lines .chars (text ++ (ending ++ rest)) =
      (Text.LineCutter.dropReturn .chars (text ++ back).reverse).reverse ::
        Text.lines .chars rest := by
  obtain ⟨back, hback, rfl⟩ := Text.exists_isSpacing_of_ending hending
  have hnone : '\n' ∉ text ++ back := by simp [htext, hback.feed_notMem]
  have hsplit : text ++ (back ++ ['\n'] ++ rest) = text ++ back ++ '\n' :: rest := by simp
  refine ⟨back, hback.isBlankText, ?_⟩
  rw [hsplit]
  exact Text.lines_append_feed hnone rest

/-- Cut into lines, a text that lines are laid out as says what the lines say. -/
theorem AllLaidOut.writes_lines {said : List Line} (h : AllLaidOut said text) :
    List.Forall₂ Writes (Text.lines .chars text) said := by
  induction h with
  | nil => exact .nil
  | @cons line lines text ending rest hline hending _ ih =>
    obtain ⟨back, hback, hlines⟩ := lines_append_ending hline.feed_notMem hending rest
    have hwrites : Writes (text ++ back) line := (writes_append_isBlankText hback).mpr hline.writes
    rw [hlines]
    exact .cons hwrites.dropReturn ih

/-! ## Lists -/

/-- Where the lines that say something are rules and then the default action, the lines are in
order. -/
theorem inOrder_of_filter {lines : List Line} {rules : List Rule} {defaultAction : Action}
    (h : lines.filter (· ≠ .blank) = rules.map .rule ++ [.defaultAction defaultAction]) :
    InOrder lines := by
  induction lines generalizing rules with
  | nil => simp at h
  | cons line lines ih =>
    cases line with
    | blank => exact (inOrder_cons_of_eq_none rfl).mpr (ih h)
    | rule said =>
      cases rules with
      | nil => simp at h
      | cons first rules => exact (inOrder_cons_of_eq_none rfl).mpr (ih (List.cons.inj h).2)
    | defaultAction action =>
      cases rules with
      | nil =>
        have hrest : lines.filter (· ≠ .blank) = [] := (List.cons.inj h).2
        refine (inOrder_cons_defaultAction action).mpr fun later hlater => ?_
        simpa using List.filter_eq_nil_iff.mp hrest later hlater
      | cons first rules => simp at h

/-- What is left of lines does not depend on those that say nothing. -/
theorem filterMap_eq_filterMap_filter {α : Type} {part? : Line → Option α}
    (hpart : part? .blank = none) (lines : List Line) :
    lines.filterMap part? = (lines.filter (· ≠ .blank)).filterMap part? := by
  rw [List.filterMap_filter]
  refine List.filterMap_congr fun line _ => ?_
  by_cases hline : line = .blank
  · rw [hline, hpart]
    rfl
  · rw [if_pos (decide_eq_true hline)]

end Line

namespace RuleList

open Line (AllLaidOut)

/-- The list that lines say does not depend on those that say nothing. -/
theorem ofSaid_of_filter {lines : List Line} {rules : List Rule} {defaultAction : Action}
    (h : lines.filter (· ≠ .blank) = rules.map .rule ++ [.defaultAction defaultAction]) :
    ofSaid lines = ⟨rules, defaultAction⟩ := by
  have hrules : lines.filterMap Line.rule? = rules := by
    have hsome : Line.rule? ∘ Line.rule = some := rfl
    rw [Line.filterMap_eq_filterMap_filter rfl, h, List.filterMap_append, List.filterMap_map, hsome,
      List.filterMap_some]
    exact List.append_nil rules
  have hdefault : lines.filterMap Line.defaultAction? = [defaultAction] := by
    have hnone : Line.defaultAction? ∘ Line.rule = fun _ => none := rfl
    rw [Line.filterMap_eq_filterMap_filter rfl, h, List.filterMap_append, List.filterMap_map, hnone,
      List.filterMap_none]
    rfl
  rw [ofSaid, hrules, hdefault]
  rfl

/-- However the rules of a list and then its default action are laid out as a text, among lines that
say nothing, the list is read back from the text, and from the bytes of the text as well. -/
theorem ofText_of_allLaidOut {lines : List Line} {text : String} {list : RuleList}
    (htext : AllLaidOut lines text.toList)
    (hlines : lines.filter (· ≠ .blank) =
      list.rules.map .rule ++ [.defaultAction list.defaultAction]) :
    ofText text = .ok list ∧ ofSource (.ofBytes text.toUTF8.data.toList) = .ok list := by
  rw [ofSource_toUTF8, and_self]
  refine ofText_eq_ok_iff.mpr ⟨lines, htext.writes_lines, Line.inOrder_of_filter hlines, ?_⟩
  exact (ofSaid_of_filter hlines).symm

/-- Two rules with host bits among lines that say nothing, with white space around them and with
both kinds of line ends, are read back. -/
theorem ofText_of_host_bits_laid_out :
    let text := "# hosts\r\n\tdeny 10.1.2.3/8 \n\n allow ::ffff:1.2.3.4/96\r\ndeny all\n"
    let list : RuleList :=
      ⟨[⟨.v4 ⟨.ofNat 0x0A010203, 8, by decide⟩, .deny⟩,
        ⟨.v6 ⟨.ofNat 0xFFFF01020304, 96, by decide⟩, .allow⟩], .deny⟩
    (∃ lines, AllLaidOut lines text.toList ∧ lines.filter (· ≠ .blank) =
      list.rules.map .rule ++ [.defaultAction list.defaultAction]) ∧ ofText text = .ok list := by
  intro text list
  have hblank : ∀ blank ∈ [[], ['\t'], [' ']], IsBlankText blank ∧ '\n' ∉ blank := by decide
  have hnil := hblank [] (by decide)
  have htab := hblank ['\t'] (by decide)
  have hspace := hblank [' '] (by decide)
  let first : Line := .rule ⟨.v4 ⟨.ofNat 0x0A010203, 8, by decide⟩, .deny⟩
  let second : Line := .rule ⟨.v6 ⟨.ofNat 0xFFFF01020304, 96, by decide⟩, .allow⟩
  have hlaid : AllLaidOut [.blank, first, .blank, second, .defaultAction .deny] _ :=
    .cons (.comment ⟨[], " hosts".toList, rfl, hnil.1⟩ (by decide)) (.inr rfl) <|
    .cons (.padded _ htab.1 htab.2 hspace.1 hspace.2) (.inl rfl) <|
    .cons (.padded _ hnil.1 hnil.2 hnil.1 hnil.2) (.inl rfl) <|
    .cons (.padded _ hspace.1 hspace.2 hnil.1 hnil.2) (.inr rfl) <|
    .cons (.padded _ hnil.1 hnil.2 hnil.1 hnil.2) (.inl rfl) .nil
  have htext : AllLaidOut [.blank, first, .blank, second, .defaultAction .deny] text.toList := by
    refine cast (congrArg (AllLaidOut _) ?_) hlaid
    decide +kernel
  exact ⟨⟨_, htext, rfl⟩, (ofText_of_allLaidOut htext rfl).1⟩

end RuleList
end AccessList
