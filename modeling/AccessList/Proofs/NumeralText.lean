import AccessList.Text.Numeral

/-!
# Reading numerals back

The shortest numeral of a number is read back as that number by every form that allows its digits,
as long as no further digit follows.
-/

namespace AccessList.Text

-- Powers of natural numbers are core's, whatever other instances are imported.
attribute [local instance(high)] instPowNat

variable {radix : Nat}

/-! ## Digits -/

/-- The character for a digit is read as that digit. -/
theorem digit?_digitChar (hradix : radix ≤ 16) {d : Nat} (hd : d < radix) :
    digit? radix d.digitChar = some d := by
  have hdecimal : ∀ e < 16, digit? 16 e.digitChar = some e := by decide
  have hfound := hdecimal d (by omega)
  unfold digit? at hfound ⊢
  rw [Option.filter_eq_some_iff] at hfound ⊢
  exact ⟨hfound.1, decide_eq_true hd⟩

/-- A text does not start with a digit. -/
def NoDigit (radix : Nat) (text : List Char) : Prop := ∀ c ∈ text.head?, digit? radix c = none

/-- The empty text does not start with a digit. -/
theorem noDigit_nil : NoDigit radix [] := nofun

/-- A text that starts with a character that is no digit does not start with a digit. -/
theorem noDigit_cons {c : Char} {text : List Char} (hc : digit? radix c = none) :
    NoDigit radix (c :: text) := by
  intro c' hc'
  rwa [← Option.some_inj.mp hc']

/-- A text that starts with no digit at all does not start with a decimal one. -/
theorem NoDigit.decimal {text : List Char} (h : NoDigit 16 text) : NoDigit 10 text := by
  intro c hc
  have hnone := h c hc
  unfold digit? at hnone ⊢
  rw [Option.filter_eq_none_iff] at hnone ⊢
  intro d hd
  have hge := hnone d hd
  simp only [decide_eq_true_eq] at hge ⊢
  omega

/-- The digits of a text are read as far as they go. -/
theorem leadingDigits_append (hradix : radix ≤ 16) {digits : List Nat} {rest : List Char}
    (hdigits : ∀ d ∈ digits, d < radix) (hrest : NoDigit radix rest) :
    leadingDigits radix (digits.map Nat.digitChar ++ rest) = (digits, rest) := by
  induction digits with
  | nil =>
    cases rest with
    | nil => rfl
    | cons c rest => rw [List.map_nil, List.nil_append, leadingDigits, hrest c rfl]
  | cons d digits ih =>
    have hd := digit?_digitChar hradix (hdigits d List.mem_cons_self)
    have hlater := ih fun e he => hdigits e (List.mem_cons_of_mem _ he)
    rw [List.map_cons, List.cons_append, leadingDigits, hd]
    simp only [hlater]

/-- What follows the digits of a text is an end of the text. -/
theorem leadingDigits_suffix (radix : Nat) (text : List Char) :
    (leadingDigits radix text).2 <:+ text := by
  induction text with
  | nil => exact List.suffix_rfl
  | cons c text ih =>
    rw [leadingDigits]
    split
    · exact ih.trans (List.suffix_cons c text)
    · exact List.suffix_rfl

/-! ## Numerals -/

/-- The shortest numeral of a number has digits of the radix that stand for the number, and no zero
in front of other digits, as it would be all there is of the number without its last digit. -/
theorem exists_digits_numeral (hradix : 1 < radix) (n : Nat) :
    ∃ digits : List Nat, numeral radix n = digits.map Nat.digitChar ∧
      (∀ d ∈ digits, d < radix) ∧ Radix.value radix digits = n ∧
      (digits.head? = some 0 → digits.length = 1) := by
  induction n using Nat.strongRecOn with
  | _ n ih =>
    rcases Nat.lt_or_ge n radix with hlt | hge
    · exact ⟨[n], Nat.toDigits_of_lt_base hlt, by simpa using hlt, by simp [Radix.value], by simp⟩
    · obtain ⟨digits, hchars, hdigits, hvalue, hzero⟩ :=
        ih (n / radix) (Nat.div_lt_self (by omega) hradix)
      have hpos : 0 < n / radix := Nat.div_pos hge (by omega)
      refine ⟨digits ++ [n % radix], ?_, ?_, ?_, ?_⟩
      · rw [numeral, Nat.toDigits_of_base_le hradix hge, List.map_append]
        exact congrArg (· ++ [(n % radix).digitChar]) hchars
      · intro d hd
        rcases List.mem_append.mp hd with hd | hd
        · exact hdigits d hd
        · rw [List.mem_singleton.mp hd]
          exact Nat.mod_lt _ (by omega)
      · have hsplit := Nat.div_add_mod n radix
        rw [Radix.value, List.foldl_append, ← Radix.value, hvalue, List.foldl_cons, List.foldl_nil,
          Nat.mul_comm]
        exact hsplit
      · intro hhead
        exfalso
        cases digits with
        | nil => simp [Radix.value] at hvalue; omega
        | cons d digits =>
          obtain rfl : d = 0 := by simpa using hhead
          have hlength := hzero rfl
          obtain rfl : digits = [] := by simpa using hlength
          simp [Radix.value] at hvalue
          omega

/-- Every character of a numeral is a hexadecimal digit, whatever the radix. -/
theorem isSome_digit?_of_mem_numeral (hradix : 1 < radix) (hradix' : radix ≤ 16) {n : Nat}
    {c : Char} (hc : c ∈ numeral radix n) : (digit? 16 c).isSome := by
  obtain ⟨digits, hchars, hdigits, _, _⟩ := exists_digits_numeral hradix n
  rw [hchars] at hc
  obtain ⟨d, hd, rfl⟩ := List.mem_map.mp hc
  rw [digit?_digitChar (Nat.le_refl 16) (Nat.lt_of_lt_of_le (hdigits d hd) hradix')]
  rfl

/-- Every number is written with a digit. -/
theorem numeral_ne_nil (radix n : Nat) : numeral radix n ≠ [] := Nat.toDigits_ne_nil

namespace NumberForm

/-- A form has room for all numbers below its bound. -/
structure Ample (form : NumberForm) : Prop where
  /-- There are at least two digits. -/
  one_lt_radix : 1 < form.radix
  /-- Every digit has a character. -/
  radix_le : form.radix ≤ 16
  /-- A numeral may have a digit. -/
  maxDigits_pos : 0 < form.maxDigits
  /-- Numbers below the bound do not need more digits than allowed. -/
  bound_le : form.bound ≤ form.radix ^ form.maxDigits

/-- A number is read from all digits at the start, if they have the form. -/
theorem read?_eq_some_iff {form : NumberForm} {text rest : List Char} {n : Nat} :
    form.read? text = some (n, rest) ↔
      ∃ digits, leadingDigits form.radix text = (digits, rest) ∧ form.accepts digits = true ∧
        Radix.value form.radix digits = n := by
  unfold read?
  rcases leadingDigits form.radix text with ⟨found, behind⟩
  rw [Option.ite_none_right_eq_some, Option.some_inj]
  constructor
  · rintro ⟨haccepts, hread⟩
    cases hread
    exact ⟨found, rfl, haccepts, rfl⟩
  · rintro ⟨digits, hdigits, haccepts, rfl⟩
    cases hdigits
    exact ⟨haccepts, rfl⟩

/-- The numeral of a number below the bound is read back. -/
theorem Ample.read?_numeral {form : NumberForm} (hform : form.Ample) {n : Nat} (hn : n < form.bound)
    {rest : List Char} (hrest : NoDigit form.radix rest) :
    form.read? (numeral form.radix n ++ rest) = some (n, rest) := by
  obtain ⟨digits, hchars, hdigits, hvalue, hzero⟩ := exists_digits_numeral hform.one_lt_radix n
  have hlength : digits.length ≤ form.maxDigits := by
    have hle := (Nat.length_toDigits_le_iff hform.one_lt_radix hform.maxDigits_pos).mpr
      (Nat.lt_of_lt_of_le hn hform.bound_le)
    change (numeral form.radix n).length ≤ form.maxDigits at hle
    rwa [hchars, List.length_map] at hle
  have hne : digits ≠ [] := by
    rintro rfl
    exact numeral_ne_nil _ n hchars
  have haccepts : form.accepts digits = true := by
    by_cases hhead : digits.head? = some 0
    · simp [accepts, hne, hvalue, hn, hzero hhead, Nat.succ_le_of_lt hform.maxDigits_pos]
    · simp [accepts, hne, hlength, hvalue, hn, hhead]
  rw [hchars, read?_eq_some_iff]
  exact ⟨digits, leadingDigits_append hform.radix_le hdigits hrest, haccepts, hvalue⟩

/-- Without a digit at the start nothing is read. -/
theorem read?_eq_none (form : NumberForm) {text : List Char} (h : NoDigit form.radix text) :
    form.read? text = none := by
  cases text with
  | nil => simp [read?, leadingDigits, accepts]
  | cons c text => simp [read?, leadingDigits, h c rfl, accepts]

/-- What follows a number that was read is an end of the text. -/
theorem suffix_of_read? {form : NumberForm} {text rest : List Char} {n : Nat}
    (h : form.read? text = some (n, rest)) : rest <:+ text := by
  obtain ⟨_, hdigits, _⟩ := read?_eq_some_iff.mp h
  have hsuffix := leadingDigits_suffix form.radix text
  rwa [hdigits] at hsuffix

/-- A number that was read is below the bound. -/
theorem lt_bound_of_read? {form : NumberForm} {text rest : List Char} {n : Nat}
    (h : form.read? text = some (n, rest)) : n < form.bound := by
  obtain ⟨digits, _, haccepts, rfl⟩ := read?_eq_some_iff.mp h
  simp only [accepts, Bool.and_eq_true, decide_eq_true_eq] at haccepts
  exact haccepts.1.2

end NumberForm

/-- A character is removed exactly where it stands at the start. -/
theorem skip?_eq_some_iff {expected : Char} {text rest : List Char} :
    skip? expected text = some rest ↔ text = expected :: rest := by
  cases text with
  | nil => simp [skip?]
  | cons c text =>
    unfold skip?
    split
    · next h => simp [h]
    · next h => simp [h]

end AccessList.Text
