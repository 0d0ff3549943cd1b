import AccessList.Text.Blank

/-!
# How fields are written

A text has no fields exactly if it is white space, and it has a first field exactly if the field
stands in it behind white space and up to white space or the end. So the fields of a text tell how
it is written, but for the white space.
-/

namespace AccessList.Text

/-- A text of white space only. -/
def IsBlankText (text : List Char) : Prop := ∀ c ∈ text, isBlank c = true

instance (text : List Char) : Decidable (IsBlankText text) :=
  decidable_of_iff (text.all isBlank = true) List.all_eq_true

/-- A text that can be a field. -/
structure IsField (text : List Char) : Prop where
  /-- A field is not empty. -/
  ne_nil : text ≠ []
  /-- There is no white space in a field. -/
  not_blank : ∀ c ∈ text, isBlank c = false

/-- Whether a text can be a field is decided character by character. -/
theorem isField_iff {text : List Char} :
    IsField text ↔ text.isEmpty = false ∧ text.all (! isBlank ·) = true := by
  rw [List.isEmpty_eq_false_iff, List.all_eq_true]
  constructor
  · intro h
    exact ⟨h.ne_nil, fun c hc => by rw [h.not_blank c hc, Bool.not_false]⟩
  · rintro ⟨hne, hall⟩
    exact ⟨hne, fun c hc => by simpa using hall c hc⟩

instance (text : List Char) : Decidable (IsField text) := decidable_of_iff _ isField_iff.symm

/-- White space stands right behind a field unless the text ends there. -/
def EndsField (rest : List Char) : Prop := rest.head?.all isBlank = true

/-- The empty text is white space. -/
theorem isBlankText_nil : IsBlankText [] := nofun

/-- A text is white space if its first character and the rest are. -/
theorem isBlankText_cons {c : Char} {text : List Char} :
    IsBlankText (c :: text) ↔ isBlank c = true ∧ IsBlankText text :=
  List.forall_mem_cons

/-- White space ends a field. -/
theorem IsBlankText.endsField {text : List Char} (h : IsBlankText text) : EndsField text := by
  cases text with
  | nil => rfl
  | cons c text => exact (isBlankText_cons.mp h).1

/-- Where a field begins, no field ends. -/
theorem IsField.not_endsField {field : List Char} (h : IsField field) (rest : List Char) :
    ¬ EndsField (field ++ rest) := by
  cases field with
  | nil => exact absurd rfl h.ne_nil
  | cons c field => simp [EndsField, h.not_blank c List.mem_cons_self]

/-- A text is white space, or there is a field in it behind white space. -/
theorem isBlankText_or_exists_field (text : List Char) :
    IsBlankText text ∨ ∃ blank field rest, text = blank ++ (field ++ rest) ∧
      IsBlankText blank ∧ IsField field ∧ EndsField rest := by
  induction text with
  | nil => exact .inl isBlankText_nil
  | cons c text ih =>
    cases hc : isBlank c with
    | true =>
      rcases ih with hblank | ⟨blank, field, rest, rfl, hblank, hfield, hrest⟩
      · exact .inl (isBlankText_cons.mpr ⟨hc, hblank⟩)
      · exact .inr ⟨c :: blank, field, rest, rfl, isBlankText_cons.mpr ⟨hc, hblank⟩, hfield, hrest⟩
    | false =>
      right
      have hone : IsField [c] := ⟨List.cons_ne_nil _ _, by simpa using hc⟩
      rcases ih with hblank | ⟨blank, field, rest, rfl, hblank, hfield, hrest⟩
      · exact ⟨[], [c], text, rfl, isBlankText_nil, hone, hblank.endsField⟩
      · cases blank with
        | nil =>
          refine ⟨[], c :: field, rest, rfl, isBlankText_nil, ⟨List.cons_ne_nil _ _, ?_⟩, hrest⟩
          exact List.forall_mem_cons.mpr ⟨hc, hfield.not_blank⟩
        | cons b blank =>
          exact ⟨[], [c], _, rfl, isBlankText_nil, hone, (isBlankText_cons.mp hblank).1⟩

/-- A field behind white space is the first one. -/
theorem fields_of_field {blank field rest : List Char} (hblank : IsBlankText blank)
    (hfield : IsField field) (hrest : EndsField rest) :
    fields (blank ++ (field ++ rest)) = field :: fields rest := by
  rw [fields_append_of_blank hblank,
    fields_append_of_not_blank hfield.ne_nil hfield.not_blank hrest]

/-- A text has no fields exactly if it is white space. -/
theorem fields_eq_nil_iff {text : List Char} : fields text = [] ↔ IsBlankText text := by
  constructor
  · intro h
    rcases isBlankText_or_exists_field text with hblank | ⟨blank, field, rest, rfl, hb, hf, hr⟩
    · exact hblank
    · rw [fields_of_field hb hf hr] at h
      cases h
  · intro h
    have hfields := fields_append_of_blank h []
    rwa [List.append_nil] at hfields

/-- A text has a first field exactly if the field stands in it behind white space, and the other
fields are those of the text behind it. -/
theorem fields_eq_cons_iff {text field : List Char} {more : List (List Char)} :
    fields text = field :: more ↔ ∃ blank rest, text = blank ++ (field ++ rest) ∧
      IsBlankText blank ∧ IsField field ∧ EndsField rest ∧ fields rest = more := by
  constructor
  · intro h
    rcases isBlankText_or_exists_field text with hblank | ⟨blank, field', rest, rfl, hb, hf, hr⟩
    · rw [fields_eq_nil_iff.mpr hblank] at h
      cases h
    · rw [fields_of_field hb hf hr] at h
      cases h
      exact ⟨blank, rest, rfl, hb, hf, hr, rfl⟩
  · rintro ⟨blank, rest, rfl, hb, hf, hr, rfl⟩
    exact fields_of_field hb hf hr

/-- White space behind a text adds no field. -/
theorem fields_append_isBlankText {blank : List Char} (hblank : IsBlankText blank)
    (text : List Char) : fields (text ++ blank) = fields text := by
  induction text with
  | nil => exact fields_eq_nil_iff.mpr hblank
  | cons c text ih =>
    have hends : (text ++ blank).head?.all isBlank = text.head?.all isBlank := by
      cases text with
      | nil => exact hblank.endsField
      | cons d text => rfl
    rw [List.cons_append, fields, fields, ih, hends]

/-- A text has two fields: there is white space between them, and nothing else around them. -/
structure HasTwoFields (text first second : List Char) : Prop where
  /-- The first part between white space is a field. -/
  first_isField : IsField first
  /-- So is the second one. -/
  second_isField : IsField second
  /-- There is nothing else but white space. -/
  parts : ∃ before gap after, text = before ++ (first ++ (gap ++ (second ++ after))) ∧
    IsBlankText before ∧ IsBlankText gap ∧ gap ≠ [] ∧ IsBlankText after

/-- The fields of a text are two exactly when there are two parts of it with white space between
them, and nothing else but white space. -/
theorem fields_eq_pair_iff {text first second : List Char} :
    fields text = [first, second] ↔ HasTwoFields text first second := by
  constructor
  · intro h
    obtain ⟨before, rest, rfl, hbefore, hfirst, hends, hrest⟩ := fields_eq_cons_iff.mp h
    obtain ⟨gap, after, rfl, hgap, hsecond, _, hafter⟩ := fields_eq_cons_iff.mp hrest
    refine ⟨hfirst, hsecond, before, gap, after, rfl, hbefore, hgap, ?_,
      fields_eq_nil_iff.mp hafter⟩
    rintro rfl
    exact hsecond.not_endsField after hends
  · rintro ⟨hfirst, hsecond, before, gap, after, rfl, hbefore, hgap, hne, hafter⟩
    have hends : EndsField (gap ++ (second ++ after)) := by
      cases gap with
      | nil => exact absurd rfl hne
      | cons c gap => exact (isBlankText_cons.mp hgap).1
    rw [fields_of_field hbefore hfirst hends, fields_of_field hgap hsecond hafter.endsField,
      fields_eq_nil_iff.mpr hafter]

/-- The first field of a text that does not begin with white space begins where the text does. -/
theorem exists_fields_cons_eq {c : Char} (hc : isBlank c = false) (rest : List Char) :
    ∃ field more, fields (c :: rest) = (c :: field) :: more := by
  rw [fields, if_neg (by simpa using hc)]
  split
  · exact ⟨[], fields rest, rfl⟩
  · cases fields rest with
    | nil => exact ⟨[], [], rfl⟩
    | cons field more => exact ⟨field, more, rfl⟩

end AccessList.Text
