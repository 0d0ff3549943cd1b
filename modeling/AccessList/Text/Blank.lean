/-!
# White space and fields

A class of characters is given by a table of inclusive code point ranges, as character standards
print them. This module has the white space of the Unicode property `White_Space`, and the fields of
a text: its maximal runs of characters that are not white space. Leading and trailing white space
therefore never matters.
-/

namespace AccessList.Text

/-- Inclusive ranges of code points. -/
abbrev CodeRanges := List (Nat × Nat)

/-- Whether a character's code point lies in one of the ranges. -/
def CodeRanges.contains (ranges : CodeRanges) (c : Char) : Bool :=
  ranges.any fun range => range.1 ≤ c.toNat && c.toNat ≤ range.2

/-- The code points with the property `White_Space`. -/
def whiteSpace : CodeRanges :=
  [(0x09, 0x0D), (0x20, 0x20), (0x85, 0x85), (0xA0, 0xA0), (0x1680, 0x1680), (0x2000, 0x200A),
    (0x2028, 0x2029), (0x202F, 0x202F), (0x205F, 0x205F), (0x3000, 0x3000)]

/-- Whether a character is white space. -/
def isBlank (c : Char) : Bool := whiteSpace.contains c

/-- Puts a character in front of the first field, or starts a field with it. -/
def extendFirst (c : Char) : List (List Char) → List (List Char)
  | [] => [[c]]
  | field :: more => (c :: field) :: more

/-- The fields of a text, in order. A field that starts at a character goes on through the next
one unless that is white space. -/
def fields : List Char → List (List Char)
  | [] => []
  | c :: rest =>
    if isBlank c then fields rest
    else if rest.head?.all isBlank then [c] :: fields rest
    else extendFirst c (fields rest)

/-- White space in front of a text adds no field. -/
theorem fields_append_of_blank {blank : List Char} (hblank : ∀ c ∈ blank, isBlank c = true)
    (rest : List Char) : fields (blank ++ rest) = fields rest := by
  induction blank with
  | nil => rfl
  | cons c blank ih =>
    rw [List.cons_append, fields, if_pos (hblank c (by simp))]
    exact ih fun d hd => hblank d (by simp [hd])

/-- A run without white space, followed by white space or the end, is one field. -/
theorem fields_append_of_not_blank {field : List Char} (hne : field ≠ [])
    (hfield : ∀ c ∈ field, isBlank c = false) {rest : List Char}
    (hrest : rest.head?.all isBlank = true) :
    fields (field ++ rest) = field :: fields rest := by
  induction field with
  | nil => exact absurd rfl hne
  | cons c field ih =>
    have hc : isBlank c = false := hfield c (by simp)
    cases field with
    | nil => simp [fields, hc, hrest]
    | cons d field =>
      have hd : isBlank d = false := hfield d (by simp)
      have htail := ih (by simp) fun e he => hfield e (List.mem_cons_of_mem c he)
      rw [List.cons_append, fields, htail]
      simp [hc, hd, extendFirst]

end AccessList.Text
