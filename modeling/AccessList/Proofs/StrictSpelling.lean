import AccessList.Proofs.RuleText

/-!
# Strict spellings are lenient ones

The two spellings of addresses differ in leading zeros and in how many groups a double colon stands
for, and hence in where four octets may be tried. Whatever is spelled strictly is nevertheless read
as the same address in the lenient spelling, with a slash behind it. So a bare address says the same
as the block of full length that it is short for.
-/

namespace AccessList

open Text (IsField HasTwoFields NoDigit noDigit_cons digit? leadingDigits numeral skip?
  skip?_eq_some_iff)

/-! ## Numerals with a text behind them -/

namespace Text

variable {radix : Nat} {text after rest : List Char}

/-- A digit is the same digit of a larger radix. -/
theorem digit?_of_le {larger : Nat} (hle : radix ≤ larger) {c : Char} {d : Nat}
    (h : digit? radix c = some d) : digit? larger c = some d := by
  unfold digit? at h ⊢
  rw [Option.filter_eq_some_iff, decide_eq_true_eq] at h ⊢
  exact ⟨h.1, Nat.lt_of_lt_of_le h.2 hle⟩

/-- A digit in front of a text is the first one of its digits. -/
theorem leadingDigits_cons_of_eq_some {c : Char} {d : Nat} (hc : digit? radix c = some d)
    (text : List Char) : leadingDigits radix (c :: text) =
      (d :: (leadingDigits radix text).1, (leadingDigits radix text).2) := by
  rw [leadingDigits, hc]

/-- Where no digit begins, there are none. -/
theorem leadingDigits_of_noDigit (h : NoDigit radix text) :
    leadingDigits radix text = ([], text) := by
  cases text with
  | nil => rfl
  | cons c text => rw [leadingDigits, h c rfl]

/-- What does not go on with a digit does not change the digits in front of it. -/
theorem leadingDigits_append_of_noDigit (hrest : NoDigit radix rest) (text : List Char) :
    leadingDigits radix (text ++ rest) =
      ((leadingDigits radix text).1, (leadingDigits radix text).2 ++ rest) := by
  induction text with
  | nil => exact leadingDigits_of_noDigit hrest
  | cons c text ih =>
    cases hc : digit? radix c with
    | some d =>
      rw [List.cons_append, leadingDigits_cons_of_eq_some hc, leadingDigits_cons_of_eq_some hc, ih]
    | none =>
      rw [leadingDigits_of_noDigit (noDigit_cons hc)]
      exact leadingDigits_of_noDigit (noDigit_cons hc)

/-- Decimal digits up to a character that is no digit at all are all the hexadecimal digits. -/
theorem leadingDigits_of_decimal {c : Char} (hc : digit? 16 c = none) {digits : List Nat}
    (h : leadingDigits 10 text = (digits, c :: after)) :
    leadingDigits 16 text = (digits, c :: after) := by
  induction text generalizing digits with
  | nil => cases h
  | cons c' text ih =>
    cases hc' : digit? 10 c' with
    | some d =>
      rw [leadingDigits_cons_of_eq_some hc', Prod.mk.injEq] at h
      obtain ⟨rfl, hafter⟩ := h
      have hlater := ih (Prod.ext rfl hafter)
      rw [leadingDigits_cons_of_eq_some (digit?_of_le (by decide) hc'), hlater]
    | none =>
      rw [leadingDigits_of_noDigit (noDigit_cons hc')] at h
      cases h
      exact leadingDigits_of_noDigit (noDigit_cons hc)

/-- A sign is skipped in front of anything. -/
theorem skip?_append {c : Char} (h : skip? c text = some after) (rest : List Char) :
    skip? c (text ++ rest) = some (after ++ rest) := by
  rw [skip?_eq_some_iff] at h ⊢
  rw [h, List.cons_append]

namespace NumberForm

variable {form : NumberForm} {n : Nat}

/-- A number is read in front of anything that does not go on with a digit, also by a form that
accepts more. -/
theorem read?_append {other : NumberForm} (hradix : other.radix = form.radix)
    (haccepts : ∀ digits, form.accepts digits = true → other.accepts digits = true)
    (hrest : NoDigit form.radix rest) (h : form.read? text = some (n, after)) :
    other.read? (text ++ rest) = some (n, after ++ rest) := by
  obtain ⟨digits, hdigits, haccepted, hvalue⟩ := read?_eq_some_iff.mp h
  rw [read?_eq_some_iff, hradix]
  refine ⟨digits, ?_, haccepts digits haccepted, hvalue⟩
  rw [leadingDigits_append_of_noDigit hrest, hdigits]

end NumberForm
end Text

/-! ## Addresses with a slash behind them -/

namespace Spelling

variable {text after digits : List Char}

/-- No digit of any radix and no point begins with a slash. -/
theorem noDigit_slash {radix : Nat} (hradix : radix ≤ 16) (digits : List Char) :
    NoDigit radix ('/' :: digits) := by
  refine noDigit_cons (Option.eq_none_iff_forall_ne_some.mpr fun d hd => ?_)
  exact absurd (Text.digit?_of_le hradix hd) (by simp [show digit? 16 '/' = none by decide])

/-- Octets of the strict spelling are octets of the lenient one. -/
theorem readOctet?_slash {octet : Nat} (h : strict.octet.read? text = some (octet, after))
    (digits : List Char) :
    lenient.octet.read? (text ++ '/' :: digits) = some (octet, after ++ '/' :: digits) := by
  have hradix : lenient.octet.radix = strict.octet.radix := rfl
  refine Text.NumberForm.read?_append hradix (fun ds hds => ?_) (noDigit_slash (by decide) _) h
  simp only [Text.NumberForm.accepts, strict, lenient, Bool.and_eq_true] at hds ⊢
  exact ⟨hds.1, rfl⟩

/-- Four octets of the strict spelling are read in the lenient one, up to the slash. -/
theorem readOctets?_slash {octets : List Nat} (h : strict.readOctets? text = some (octets, after))
    (digits : List Char) :
    lenient.readOctets? (text ++ '/' :: digits) = some (octets, after ++ '/' :: digits) := by
  simp only [readOctets?, Option.bind_eq_bind, Option.bind_eq_some_iff, Prod.exists] at h ⊢
  obtain ⟨a, _, h₁, _, h₂, b, _, h₃, _, h₄, c, _, h₅, _, h₆, d, _, h₇, hrest⟩ := h
  cases hrest
  exact ⟨a, _, readOctet?_slash h₁ digits, _, Text.skip?_append h₂ _, b, _,
    readOctet?_slash h₃ digits, _, Text.skip?_append h₄ _, c, _, readOctet?_slash h₅ digits, _,
    Text.skip?_append h₆ _, d, _, readOctet?_slash h₇ digits, rfl⟩

/-- So are two groups that are written as octets. -/
theorem readDottedGroups?_slash {groups : List Nat}
    (h : strict.readDottedGroups? text = some (groups, after)) (digits : List Char) :
    lenient.readDottedGroups? (text ++ '/' :: digits) = some (groups, after ++ '/' :: digits) := by
  simp only [readDottedGroups?, Option.bind_eq_bind, Option.bind_eq_some_iff, Prod.exists] at h ⊢
  obtain ⟨octets, _, hoctets, hgroups⟩ := h
  cases hgroups
  exact ⟨octets, _, readOctets?_slash hoctets digits, rfl⟩

/-- Both spellings have the same groups, and a slash makes none longer. -/
theorem readGroup?_slash {g : Nat} (h : group.read? text = some (g, after)) (digits : List Char) :
    group.read? (text ++ '/' :: digits) = some (g, after ++ '/' :: digits) :=
  Text.NumberForm.read?_append rfl (fun _ => id) (noDigit_slash (by decide) _) h

/-- The colon in front of a group is removed whatever stands behind the text. -/
theorem skipColon?_append {isFirst : Bool} (h : skipColon? isFirst text = some after)
    (rest : List Char) : skipColon? isFirst (text ++ rest) = some (after ++ rest) := by
  cases isFirst with
  | true =>
    cases h
    rfl
  | false => exact Text.skip?_append h rest

/-- Where the lenient spelling has octets, a group is read only up to a point: the decimal digits
end in the text itself, at the point that the octets go on with. -/
theorem exists_point_of_readDottedGroups? {groups : List Nat} {g : Nat} {behind : List Char}
    (hoctets : lenient.readDottedGroups? (text ++ '/' :: digits) = some (groups, behind))
    (hgroup : group.read? text = some (g, after)) : ∃ later, after = '.' :: later := by
  simp only [readDottedGroups?, readOctets?, Option.bind_eq_bind, Option.bind_assoc,
    Option.bind_eq_some_iff, Prod.exists] at hoctets
  obtain ⟨_, _, hfirst, _, hpoint, _⟩ := hoctets
  obtain ⟨ds, hds, _, _⟩ := Text.NumberForm.read?_eq_some_iff.mp hfirst
  obtain ⟨hs, hhs, _, _⟩ := Text.NumberForm.read?_eq_some_iff.mp hgroup
  have hslash : NoDigit 10 ('/' :: digits) := noDigit_slash (by decide) digits
  have hsplit := Text.leadingDigits_append_of_noDigit hslash text
  rw [skip?_eq_some_iff.mp hpoint] at hds
  obtain ⟨-, hpoint⟩ := Prod.mk.inj (hsplit.symm.trans hds)
  cases hdecimal : (leadingDigits 10 text).2 with
  | nil =>
    rw [hdecimal, List.nil_append, List.cons.injEq] at hpoint
    exact absurd hpoint.1 (by decide)
  | cons c later =>
    rw [hdecimal, List.cons_append, List.cons.injEq] at hpoint
    obtain ⟨rfl, -⟩ := hpoint
    have hhexadecimal := Text.leadingDigits_of_decimal (by decide) (Prod.ext rfl hdecimal)
    exact ⟨later, (Prod.mk.inj (hhs.symm.trans hhexadecimal)).2⟩

/-- A point ends a run of groups. -/
theorem readRun_point (text : List Char) (limit : Nat) :
    strict.readRun limit false ('.' :: text) = ⟨[], false, '.' :: text⟩ := by
  refine readRun_of_noGroup known_strict ⟨noDigit_cons (by decide), fun rest h => ?_⟩ limit false
  exact absurd (List.cons.inj h).1 (by decide)

/-- A run of groups in the strict spelling is one in the lenient spelling, also where that has room
for more groups, if it stops neither at a point nor where a group could go on. Octets that only the
lenient spelling has would have left a point. -/
theorem readRun_slash {limit room : Nat} (hroom : limit ≤ room) {isFirst dotted : Bool}
    {groups : List Nat} (h : strict.readRun limit isFirst text = ⟨groups, dotted, after⟩)
    (hpoint : ∀ later, after ≠ '.' :: later) (hend : NoGroup (after ++ '/' :: digits)) :
    lenient.readRun room isFirst (text ++ '/' :: digits) =
      ⟨groups, dotted, after ++ '/' :: digits⟩ := by
  induction limit generalizing room isFirst text groups with
  | zero =>
    cases h
    exact readRun_of_noGroup known_lenient hend room isFirst
  | succ limit ih =>
    obtain ⟨room, rfl⟩ : ∃ more, room = more + 1 := ⟨room - 1, by omega⟩
    rcases readRun_cases h with ⟨body, hlimit, hskip, rfl, hread⟩ |
      ⟨body, g, rest, later, hskip, hread, hrun, rfl⟩ | ⟨rfl, rfl, rfl⟩
    · exact readRun_of_dotted (by omega) (skipColon?_append hskip _)
        (readDottedGroups?_slash hread digits)
    · have hnone : lenient.readDottedGroups? (body ++ '/' :: digits) = none := by
        rw [Option.eq_none_iff_forall_ne_some]
        rintro ⟨found, behind⟩ hdotted
        obtain ⟨more, rfl⟩ := exists_point_of_readDottedGroups? hdotted hread
        rw [readRun_point] at hrun
        cases hrun
        exact hpoint more rfl
      exact readRun_of_group (skipColon?_append hskip _) hnone (readGroup?_slash hread digits)
        (ih (by omega) hrun)
    · exact readRun_of_noGroup known_lenient hend _ isFirst

/-- Nothing goes on with a group at a slash. -/
theorem noGroup_slash (digits : List Char) : NoGroup ('/' :: digits) :=
  ⟨noDigit_slash (by decide) digits, fun _ h => absurd (List.cons.inj h).1 (by decide)⟩

/-- Eight groups in the strict spelling are the same groups in the lenient spelling. -/
theorem SpellsGroups.slash {groups : List Nat} (h : SpellsGroups strict text groups [])
    (digits : List Char) :
    SpellsGroups lenient (text ++ '/' :: digits) groups ('/' :: digits) := by
  cases h with
  | full hhead height =>
    exact .full (readRun_slash (Nat.le_refl 8) hhead nofun (noGroup_slash digits)) height
  | @elided front back dotted later _ hhead height htail =>
    have hpoint : ∀ more, ':' :: ':' :: later ≠ '.' :: more :=
      fun more h => absurd (List.cons.inj h).1 (by decide)
    have hroom : 8 - (front.length + strict.leastElided) ≤
        8 - (front.length + lenient.leastElided) :=
      Nat.sub_le_sub_left (Nat.add_le_add_left (by decide) _) 8
    exact .elided (readRun_slash (Nat.le_refl 8) hhead hpoint (noGroup_colon_colon _)) height
      (readRun_slash hroom htail nofun (noGroup_slash digits))

end Spelling

namespace Address

variable {family : Family} {text : List Char}

/-- An address in the strict spelling is read in the lenient spelling in front of a slash. -/
theorem read?_slash {a : Address family} (h : ofChars? .strict family text = some a)
    (digits : List Char) :
    read? .lenient family (text ++ '/' :: digits) = some (a, '/' :: digits) := by
  rw [ofChars?_eq_some_iff] at h
  cases family with
  | v4 =>
    simp only [read?, Option.bind_eq_bind, Option.bind_eq_some_iff, Prod.exists] at h ⊢
    obtain ⟨octets, _, hoctets, hread⟩ := h
    cases hread
    exact ⟨octets, _, Spelling.readOctets?_slash hoctets digits, rfl⟩
  | v6 =>
    simp only [read?, Option.bind_eq_bind, Option.bind_eq_some_iff, Prod.exists,
      Spelling.readGroups?_eq_some_iff] at h ⊢
    obtain ⟨groups, _, hgroups, hread⟩ := h
    cases hread
    exact ⟨groups, _, hgroups.slash digits, rfl⟩

end Address
end AccessList
