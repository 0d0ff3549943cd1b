import AccessList.Proofs.Fields
import AccessList.Proofs.TargetText
import AccessList.RuleList.Line
import Mathlib.Data.List.Basic

/-!
# How lines are written

What a line says, or what is wrong with it, told by how it is written. A line that is white space or
a comment says nothing. In a line of two fields the first one has to be the keyword of an action,
and only then the second one matters. Any other line has the wrong number of fields. Reading a line
gives exactly this.
-/

namespace AccessList.Line

open Text (IsBlankText HasTwoFields fields)

variable {text first second : List Char}

/-- A text that begins with a number sign, but for white space. -/
def IsComment (text : List Char) : Prop :=
  ∃ before rest, text = before ++ '#' :: rest ∧ IsBlankText before

/-- What two fields say. -/
inductive FieldsSay : List Char → List Char → Line → Prop where
  /-- The target `all` gives the default action. -/
  | defaultAction (action : Action) :
      FieldsSay action.text.toList ['a', 'l', 'l'] (.defaultAction action)
  /-- Any other target gives a rule. -/
  | rule (action : Action) {field : List Char} {target : Target} :
      Target.IsWritten field target →
        FieldsSay action.text.toList field (.rule ⟨target, action⟩)

/-- What a line says. -/
inductive Writes : List Char → Line → Prop where
  /-- White space says nothing. -/
  | empty {text : List Char} : IsBlankText text → Writes text .blank
  /-- A comment says nothing. -/
  | comment {text : List Char} : IsComment text → Writes text .blank
  /-- Two fields say what they say together. -/
  | fields {text first second : List Char} {line : Line} :
      HasTwoFields text first second → FieldsSay first second line → Writes text line

/-- What is wrong with two fields. -/
inductive FieldsFault : List Char → List Char → LineFault → Prop where
  /-- The first field is no action, whatever the second one is. -/
  | unknownAction {first second : List Char} : (∀ action : Action, first ≠ action.text.toList) →
      FieldsFault first second (.unknownAction (String.ofList first))
  /-- The second field is a target only without the zone in it. -/
  | zoneIdentifier (action : Action) {field bare : List Char} {target : Target} :
      field ≠ ['a', 'l', 'l'] → (∀ target, ¬ Target.IsWritten field target) →
        withoutZone? field = some bare → Target.IsWritten bare target →
          FieldsFault action.text.toList field (.zoneIdentifier (String.ofList field))
  /-- The second field is no target, with or without a zone. -/
  | invalidTarget (action : Action) {field : List Char} :
      field ≠ ['a', 'l', 'l'] → (∀ target, ¬ Target.IsWritten field target) →
        (∀ bare, withoutZone? field = some bare → ∀ target, ¬ Target.IsWritten bare target) →
          FieldsFault action.text.toList field (.invalidTarget (String.ofList field))

/-- What is wrong with a line in itself. -/
inductive OwnFault : List Char → LineFault → Prop where
  /-- There have to be two fields where something is said. -/
  | fieldCount {text : List Char} : ¬ IsBlankText text → ¬ IsComment text →
      (fields text).length ≠ 2 → OwnFault text (.fieldCount (fields text).length)
  /-- One of the two fields is wrong. -/
  | fields {text first second : List Char} {fault : LineFault} : ¬ IsComment text →
      HasTwoFields text first second → FieldsFault first second fault → OwnFault text fault

/-! ## Two fields -/

/-- A field is read as an action exactly when it is that action's keyword. -/
theorem ofText?_ofList {action : Action} :
    Action.ofText? (String.ofList first) = some action ↔ first = action.text.toList := by
  rw [Action.ofText?_eq_some_iff]
  constructor
  · intro h
    rw [← h, String.toList_ofList]
  · intro h
    rw [h, String.ofList_toList]

/-- A field is read as no target exactly when it writes none. -/
theorem ofChars?_eq_none_iff :
    Target.ofChars? second = none ↔ ∀ target, ¬ Target.IsWritten second target := by
  simp only [Option.eq_none_iff_forall_ne_some, ne_eq, Target.ofChars?_eq_some_iff]

/-- The word `all` is free to stand for all addresses. -/
theorem not_isWritten_all (target : Target) : ¬ Target.IsWritten ['a', 'l', 'l'] target :=
  ofChars?_eq_none_iff.mp (by decide) target

/-- Behind the keyword of an action, what is said depends on the second field. -/
theorem ofFields_text (action : Action) (second : List Char) :
    ofFields action.text.toList second =
      if second = ['a', 'l', 'l'] then .ok (.defaultAction action)
      else
        match Target.ofChars? second with
        | some target => .ok (.rule ⟨target, action⟩)
        | none => .error (targetFault second) := by
  have haction : Action.ofText? (String.ofList action.text.toList) = some action :=
    ofText?_ofList.mpr rfl
  unfold ofFields
  split
  · next hnone =>
    rw [haction] at hnone
    cases hnone
  · next found hfound =>
    rw [haction] at hfound
    cases hfound
    rfl

/-- Without the keyword of an action, nothing is said. -/
theorem ofFields_of_ne (h : ∀ action : Action, first ≠ action.text.toList) :
    ofFields first second = .error (.unknownAction (String.ofList first)) := by
  have hnone : Action.ofText? (String.ofList first) = none := by
    rw [Option.eq_none_iff_forall_ne_some]
    exact fun action haction => h action (ofText?_ofList.mp haction)
  rw [ofFields, hnone]

/-- Two fields say what is read from them. -/
theorem ofFields_eq_ok_iff {line : Line} :
    ofFields first second = .ok line ↔ FieldsSay first second line := by
  constructor
  · intro h
    by_cases haction : ∃ action : Action, first = action.text.toList
    · obtain ⟨action, rfl⟩ := haction
      rw [ofFields_text] at h
      split at h
      · next hall =>
        subst hall
        cases h
        exact .defaultAction action
      · split at h
        · next target htarget =>
          cases h
          exact .rule action (Target.ofChars?_eq_some_iff.mp htarget)
        · cases h
    · rw [ofFields_of_ne (not_exists.mp haction)] at h
      cases h
  · intro h
    cases h with
    | defaultAction action => rw [ofFields_text, if_pos rfl]
    | rule action hwritten =>
      have hall : second ≠ ['a', 'l', 'l'] := by
        rintro rfl
        exact not_isWritten_all _ hwritten
      rw [ofFields_text, if_neg hall, Target.ofChars?_eq_some_iff.mpr hwritten]

/-- A field that is a target without the zone in it is said to have a zone. -/
theorem targetFault_of_isWritten {bare : List Char} {target : Target}
    (hbare : withoutZone? second = some bare) (h : Target.IsWritten bare target) :
    targetFault second = .zoneIdentifier (String.ofList second) := by
  rw [targetFault, hbare, Option.bind_some, Target.ofChars?_eq_some_iff.mpr h]
  rfl

/-- A field that is no target without a zone either is said to be no target. -/
theorem targetFault_of_not_isWritten
    (h : ∀ bare, withoutZone? second = some bare → ∀ target, ¬ Target.IsWritten bare target) :
    targetFault second = .invalidTarget (String.ofList second) := by
  have hnone : (withoutZone? second).bind Target.ofChars? = none := by
    rw [Option.bind_eq_none_iff]
    exact fun bare hbare => ofChars?_eq_none_iff.mpr (h bare hbare)
  rw [targetFault, hnone]
  rfl

/-- What is wrong with two fields is found, and the first field is looked at first. -/
theorem ofFields_eq_error_iff {fault : LineFault} :
    ofFields first second = .error fault ↔ FieldsFault first second fault := by
  constructor
  · intro h
    by_cases haction : ∃ action : Action, first = action.text.toList
    · obtain ⟨action, rfl⟩ := haction
      rw [ofFields_text] at h
      split at h
      · cases h
      · next hall =>
        split at h
        · cases h
        · next hnone =>
          cases h
          have hwritten := ofChars?_eq_none_iff.mp hnone
          by_cases hzone : ∃ bare target, withoutZone? second = some bare ∧
              Target.IsWritten bare target
          · obtain ⟨bare, target, hbare, htarget⟩ := hzone
            rw [targetFault_of_isWritten hbare htarget]
            exact .zoneIdentifier action hall hwritten hbare htarget
          · have hbare : ∀ bare, withoutZone? second = some bare →
                ∀ target, ¬ Target.IsWritten bare target :=
              fun bare hbare target htarget => hzone ⟨bare, target, hbare, htarget⟩
            rw [targetFault_of_not_isWritten hbare]
            exact .invalidTarget action hall hwritten hbare
    · rw [ofFields_of_ne (not_exists.mp haction)] at h
      cases h
      exact .unknownAction (not_exists.mp haction)
  · intro h
    cases h with
    | unknownAction haction => exact ofFields_of_ne haction
    | zoneIdentifier action hall hwritten hbare htarget =>
      rw [ofFields_text, if_neg hall, ofChars?_eq_none_iff.mpr hwritten,
        targetFault_of_isWritten hbare htarget]
    | invalidTarget action hall hwritten hbare =>
      rw [ofFields_text, if_neg hall, ofChars?_eq_none_iff.mpr hwritten,
        targetFault_of_not_isWritten hbare]

/-! ## Lines -/

/-- A line is a comment exactly if its first field begins with a number sign. -/
theorem isComment_iff : IsComment text ↔ ∃ field more, fields text = ('#' :: field) :: more := by
  constructor
  · rintro ⟨before, rest, rfl, hbefore⟩
    rw [Text.fields_append_of_blank hbefore]
    exact Text.exists_fields_cons_eq (by decide) rest
  · rintro ⟨field, more, h⟩
    obtain ⟨before, rest, rfl, hbefore, _⟩ := Text.fields_eq_cons_iff.mp h
    exact ⟨before, field ++ rest, rfl, hbefore⟩

/-- A line that begins with the keyword of an action is no comment. -/
theorem not_isComment_of_action {action : Action}
    (hfields : HasTwoFields text action.text.toList second) : ¬ IsComment text := by
  intro hcomment
  obtain ⟨field, more, hsign⟩ := isComment_iff.mp hcomment
  rw [Text.fields_eq_pair_iff.mpr hfields, List.cons.injEq] at hsign
  cases action <;> exact absurd (List.cons.inj hsign.1).1 (by decide)

/-- A line of which the two fields say something is no comment. -/
theorem not_isComment_of_fieldsSay {line : Line} (hfields : HasTwoFields text first second)
    (h : FieldsSay first second line) : ¬ IsComment text := by
  cases h with
  | defaultAction action => exact not_isComment_of_action hfields
  | rule action _ => exact not_isComment_of_action hfields

/-- White space and comments are read as nothing. -/
theorem ofChars_of_isBlankText (h : IsBlankText text) : ofChars text = .ok .blank := by
  rw [ofChars, Text.fields_eq_nil_iff.mpr h]

/-- A comment is read as nothing. -/
theorem ofChars_of_isComment (h : IsComment text) : ofChars text = .ok .blank := by
  obtain ⟨field, more, hfields⟩ := isComment_iff.mp h
  rw [ofChars, hfields]
  rfl

/-- Where there is no comment, two fields are read together. -/
theorem ofChars_of_hasTwoFields (hcomment : ¬ IsComment text)
    (h : HasTwoFields text first second) : ofChars text = ofFields first second := by
  have hfields := Text.fields_eq_pair_iff.mpr h
  rw [ofChars, hfields]
  split
  · next hnil => cases hnil
  · next field more hsign =>
    exact absurd (isComment_iff.mpr ⟨field, more, hfields.trans hsign⟩) hcomment
  · next hpair => cases hpair; rfl
  · next hne => exact absurd rfl (hne first second)

/-- Where there is something else, the fields are counted. -/
theorem ofChars_of_length_ne (hblank : ¬ IsBlankText text) (hcomment : ¬ IsComment text)
    (h : (fields text).length ≠ 2) :
    ofChars text = .error (.fieldCount (fields text).length) := by
  rw [ofChars]
  split
  · next hnil => exact absurd (Text.fields_eq_nil_iff.mp hnil) hblank
  · next field more hsign => exact absurd (isComment_iff.mpr ⟨field, more, hsign⟩) hcomment
  · next hpair => exact absurd (congrArg List.length hpair) h
  · rfl

/-- A line is white space, a comment, two fields or something else. -/
theorem line_cases (text : List Char) : IsBlankText text ∨ IsComment text ∨
    (¬ IsComment text ∧ ∃ first second, HasTwoFields text first second) ∨
      ¬ IsBlankText text ∧ ¬ IsComment text ∧ (fields text).length ≠ 2 := by
  by_cases hblank : IsBlankText text
  · exact .inl hblank
  by_cases hcomment : IsComment text
  · exact .inr (.inl hcomment)
  by_cases hlength : (fields text).length = 2
  · obtain ⟨first, second, hfields⟩ := List.length_eq_two.mp hlength
    exact .inr (.inr (.inl ⟨hcomment, first, second, Text.fields_eq_pair_iff.mp hfields⟩))
  · exact .inr (.inr (.inr ⟨hblank, hcomment, hlength⟩))

/-- A line says what is read from it. -/
theorem ofChars_eq_ok_iff {line : Line} : ofChars text = .ok line ↔ Writes text line := by
  constructor
  · intro h
    rcases line_cases text with hblank | hcomment | ⟨hcomment, first, second, hfields⟩ |
      ⟨hblank, hcomment, hlength⟩
    · rw [ofChars_of_isBlankText hblank] at h
      cases h
      exact .empty hblank
    · rw [ofChars_of_isComment hcomment] at h
      cases h
      exact .comment hcomment
    · rw [ofChars_of_hasTwoFields hcomment hfields] at h
      exact .fields hfields (ofFields_eq_ok_iff.mp h)
    · rw [ofChars_of_length_ne hblank hcomment hlength] at h
      cases h
  · intro h
    cases h with
    | empty hblank => exact ofChars_of_isBlankText hblank
    | comment hcomment => exact ofChars_of_isComment hcomment
    | fields hfields hsay =>
      rw [ofChars_of_hasTwoFields (not_isComment_of_fieldsSay hfields hsay) hfields]
      exact ofFields_eq_ok_iff.mpr hsay

/-- What is wrong with a line in itself is what is found wrong with it. -/
theorem ofChars_eq_error_iff {fault : LineFault} :
    ofChars text = .error fault ↔ OwnFault text fault := by
  constructor
  · intro h
    rcases line_cases text with hblank | hcomment | ⟨hcomment, first, second, hfields⟩ |
      ⟨hblank, hcomment, hlength⟩
    · rw [ofChars_of_isBlankText hblank] at h
      cases h
    · rw [ofChars_of_isComment hcomment] at h
      cases h
    · rw [ofChars_of_hasTwoFields hcomment hfields] at h
      exact .fields hcomment hfields (ofFields_eq_error_iff.mp h)
    · rw [ofChars_of_length_ne hblank hcomment hlength] at h
      cases h
      exact .fieldCount hblank hcomment hlength
  · intro h
    cases h with
    | fieldCount hblank hcomment hlength => exact ofChars_of_length_ne hblank hcomment hlength
    | fields hcomment hfields hfault =>
      rw [ofChars_of_hasTwoFields hcomment hfields]
      exact ofFields_eq_error_iff.mpr hfault

end AccessList.Line
