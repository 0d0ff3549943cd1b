import AccessList.Proofs.FirstFault
import AccessList.Proofs.RuleText
import AccessList.Proofs.SingleRule

/-!
# Zones in targets

No address is written with a percent sign, so a field with one is never a target. Where it would be
a target but for the zone between the first percent sign and the length, the error says so, and it
says so of no field without a percent sign.
-/

namespace AccessList

open Text (IsField HasTwoFields isBlank fields)

/-- No target is written with a percent sign. -/
theorem Target.IsWritten.percent_notMem {text : List Char} {target : Target}
    (h : IsWritten text target) : '%' ∉ text :=
  fun hmem => absurd (h.isSign_or_slash hmem) (by decide)

namespace Line

variable {text front zone back : List Char}

/-! ## Taking zones out -/

/-- What can be a zone: white space would end the field, and a slash the zone. -/
structure IsZone (zone : List Char) : Prop where
  /-- There is no white space in a zone. -/
  not_blank : ∀ c ∈ zone, isBlank c = false
  /-- There is no slash in a zone. -/
  slash_notMem : '/' ∉ zone

/-- The part of a target behind its address: nothing, or a slash and a length. -/
def IsLengthPart (text : List Char) : Prop := text = [] ∨ ∃ length, text = '/' :: length

/-- A zone is taken out, with the percent sign in front of it, up to the length. -/
theorem withoutZone?_append (hfront : '%' ∉ front) (hzone : '/' ∉ zone)
    (hback : IsLengthPart back) :
    withoutZone? (front ++ '%' :: (zone ++ back)) = some (front ++ back) := by
  have hmem : '%' ∈ front ++ '%' :: (zone ++ back) := by simp
  have hbefore : ∀ c ∈ front, decide (c ≠ '%') = true :=
    fun c hc => decide_eq_true (ne_of_mem_of_not_mem hc hfront)
  have hinside : ∀ c ∈ '%' :: zone, decide (c ≠ '/') = true := by
    rw [List.forall_mem_cons]
    exact ⟨by decide, fun c hc => decide_eq_true (ne_of_mem_of_not_mem hc hzone)⟩
  have hend : back.dropWhile (· ≠ '/') = back := by
    rcases hback with rfl | ⟨length, rfl⟩
    · rfl
    · exact List.dropWhile_cons_of_neg (by decide)
  rw [withoutZone?, if_pos hmem, List.takeWhile_append_of_pos hbefore,
    List.takeWhile_cons_of_neg (by decide), List.dropWhile_append_of_pos hbefore,
    List.dropWhile_cons_of_neg (by decide), ← List.cons_append,
    List.dropWhile_append_of_pos hinside, hend, List.append_nil]

/-- Without a percent sign there is no zone to take out. -/
theorem percent_mem_of_withoutZone? {bare : List Char} (h : withoutZone? text = some bare) :
    '%' ∈ text := by
  unfold withoutZone? at h
  split at h
  · next hmem => exact hmem
  · cases h

/-! ## Fields with a percent sign -/

/-- A target with a zone put in front of its length, or at its end, is still a field. -/
theorem isField_of_zone {target : Target} (htarget : Target.IsWritten (front ++ back) target)
    (hzone : IsZone zone) : IsField (front ++ '%' :: (zone ++ back)) := by
  refine ⟨by simp, fun c hc => ?_⟩
  rw [List.mem_append, List.mem_cons, List.mem_append] at hc
  rcases hc with hc | rfl | hc | hc
  · exact htarget.isField.not_blank c (List.mem_append_left back hc)
  · decide
  · exact hzone.not_blank c hc
  · exact htarget.isField.not_blank c (List.mem_append_right front hc)

/-- Behind an action, such a field is at fault for its zone. -/
theorem ownFault_of_zone {target : Target} (htarget : Target.IsWritten (front ++ back) target)
    (hback : IsLengthPart back) (hzone : IsZone zone) {action : Action}
    (hline : HasTwoFields text action.text.toList (front ++ '%' :: (zone ++ back))) :
    OwnFault text (.zoneIdentifier (String.ofList (front ++ '%' :: (zone ++ back)))) := by
  have hmem : '%' ∈ front ++ '%' :: (zone ++ back) := by simp
  have hfront : '%' ∉ front := fun h => htarget.percent_notMem (List.mem_append_left back h)
  have hall : front ++ '%' :: (zone ++ back) ≠ ['a', 'l', 'l'] := by
    intro hall
    rw [hall] at hmem
    exact absurd hmem (by decide)
  exact .fields (not_isComment_of_action hline) hline <|
    .zoneIdentifier action hall (fun _ h => h.percent_notMem hmem)
      (withoutZone?_append hfront hzone.slash_notMem hback) htarget

/-- A line with a percent sign in its second field says nothing, if it can be read at all. -/
theorem eq_blank_of_percent_mem {line : Line} {first second : List Char} {more : List (List Char)}
    (hfields : fields text = first :: second :: more) (hmem : '%' ∈ second)
    (h : Writes text line) : line = .blank := by
  cases h with
  | empty _ => rfl
  | comment _ => rfl
  | fields htwo hsay =>
    rw [Text.fields_eq_pair_iff.mpr htwo] at hfields
    cases hfields
    cases hsay with
    | defaultAction action => exact absurd hmem (by decide)
    | rule action hwritten => exact absurd hmem hwritten.percent_notMem

/-- The field that is at fault for its zone has a percent sign. -/
theorem OwnFault.percent_mem {field : String} (h : OwnFault text (.zoneIdentifier field)) :
    '%' ∈ field.toList := by
  cases h with
  | fields _ _ hfault =>
    cases hfault with
    | zoneIdentifier _ _ _ hbare _ =>
      rw [String.toList_ofList]
      exact percent_mem_of_withoutZone? hbare

end Line

/-! ## Rules and lists -/

/-- What is said of a zone about the text of a rule is said about its line. -/
theorem Rule.ownFault_of_ofText_eq_error {text field : String} {number : Nat}
    (h : ofText text = .error (.malformed number (.zoneIdentifier field))) :
    Line.OwnFault text.toList (.zoneIdentifier field) := by
  rcases Line.exists_writes_or_ownFault text.toList with ⟨line, hline⟩ | ⟨fault, hfault⟩
  · cases line with
    | blank =>
      rw [ofText_of_writes_blank hline] at h
      cases h
    | defaultAction action =>
      rw [ofText_of_writes_defaultAction hline] at h
      cases h
    | rule rule =>
      rw [ofText_eq_ok_iff_writes.mpr hline] at h
      cases h
  · rw [ofText_of_ownFault hfault] at h
    cases h
    exact hfault

namespace RuleList

/-- What is wrong with a line in itself stops the reading there, whatever was read before. -/
theorem readLines_of_ownFault {text : List Char} {fault : LineFault}
    (hfault : Line.OwnFault text fault) (number : Nat) (draft : Draft)
    (later : List (Except ReadFault (List Char))) :
    readLines number draft (.ok text :: later) = .error (.malformed number fault) := by
  rw [readLines, Line.ofChars_eq_error_iff.mpr hfault]
  rfl

/-- What is said of a zone about a list is said about one of its lines. -/
theorem exists_ownFault_of_readLines_eq_error {number line : Nat} {draft : Draft}
    {lines : List (Except ReadFault (List Char))} {field : String}
    (h : readLines number draft lines = .error (.malformed line (.zoneIdentifier field))) :
    ∃ text, .ok text ∈ lines ∧ Line.OwnFault text (.zoneIdentifier field) := by
  obtain ⟨before, stop, after, _, rfl, _, hstop⟩ := readLines_eq_error_iff.mp h
  cases hstop with
  | malformed hfault =>
    cases hfault with
    | own hown => exact ⟨_, by simp, hown⟩

/-- A target with a zone between its address and its length is a field that is quoted in the error,
by itself or in a list, at whatever line. A line with a percent sign in its second field never says
anything, and what is quoted for its zone always has a percent sign. -/
theorem error_of_zone :
    (∀ {front zone back : List Char} {target : Target},
      Target.ofChars? (front ++ back) = some target → Line.IsLengthPart back → Line.IsZone zone →
        let field := front ++ '%' :: (zone ++ back)
        let fault := LineFault.zoneIdentifier (String.ofList field)
        IsField field ∧ ∀ (action : Action) (line : String),
          HasTwoFields line.toList action.text.toList field →
            Rule.ofText line = .error (.malformed 1 fault) ∧ ∀ number draft later,
              readLines number draft (.ok line.toList :: later) =
                .error (.malformed number fault)) ∧
      (∀ {line first second : List Char} {more : List (List Char)} {said : Line},
        fields line = first :: second :: more → '%' ∈ second → Line.ofChars line = .ok said →
          said = .blank) ∧
      (∀ {text field : String} {number : Nat},
        Rule.ofText text = .error (.malformed number (.zoneIdentifier field)) →
          '%' ∈ field.toList) ∧
      ∀ {first number : Nat} {draft : Draft} {lines : List (Except ReadFault (List Char))}
        {field : String},
        readLines first draft lines = .error (.malformed number (.zoneIdentifier field)) →
          '%' ∈ field.toList := by
  refine ⟨fun htarget hback hzone => ?_, fun hfields hmem hline => ?_, fun h => ?_, fun h => ?_⟩
  · have hwritten := Target.ofChars?_eq_some_iff.mp htarget
    refine ⟨Line.isField_of_zone hwritten hzone, fun action line hline => ?_⟩
    have hfault := Line.ownFault_of_zone hwritten hback hzone hline
    exact ⟨Rule.ofText_of_ownFault hfault, readLines_of_ownFault hfault⟩
  · exact Line.eq_blank_of_percent_mem hfields hmem (Line.ofChars_eq_ok_iff.mp hline)
  · exact (Rule.ownFault_of_ofText_eq_error h).percent_mem
  · obtain ⟨_, _, hfault⟩ := exists_ownFault_of_readLines_eq_error h
    exact hfault.percent_mem

/-- A zone that looks like a zone and an address itself is quoted with the address and the length
around it. -/
theorem error_of_zone_before_length :
    let front := "fe80::1".toList
    let zone := "%10.0.0.1".toList
    let back := "/64".toList
    let line := "deny fe80::1%%10.0.0.1/64"
    (∃ target, Target.ofChars? (front ++ back) = some target) ∧ Line.IsLengthPart back ∧
      Line.IsZone zone ∧
      HasTwoFields line.toList Action.deny.text.toList (front ++ '%' :: (zone ++ back)) ∧
      Rule.ofText line = .error (.malformed 1 (.zoneIdentifier "fe80::1%%10.0.0.1/64")) := by
  intro front zone back line
  have htarget : Target.ofChars? (front ++ back) =
      some (.v6 ⟨.ofNat 0xFE800000000000000000000000000001, 64, by decide⟩) := by decide +kernel
  have hback : Line.IsLengthPart back := .inr ⟨"64".toList, by decide⟩
  have hzone : Line.IsZone zone := ⟨(show IsField zone by decide).not_blank, by decide⟩
  have hline : HasTwoFields line.toList Action.deny.text.toList (front ++ '%' :: (zone ++ back)) :=
    Text.fields_eq_pair_iff.mp (by decide +kernel)
  obtain ⟨_, hrejected⟩ := error_of_zone.1 htarget hback hzone
  exact ⟨⟨_, htarget⟩, hback, hzone, hline, (hrejected .deny line hline).1⟩

end RuleList
end AccessList
