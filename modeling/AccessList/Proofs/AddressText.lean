import AccessList.Address.Printer
import AccessList.Proofs.GroupRuns
import AccessList.Proofs.JoinedText

/-!
# Reading printed addresses back

Both spellings of addresses are more liberal than the printer, and both read what it prints as the
address that was printed, whatever stands behind it, as long as that does not go on with a digit
or a further group. In particular no two addresses of a family are printed alike.
-/

namespace AccessList

open Text (NoDigit noDigit_nil noDigit_cons numeral digit? skip? skip?_eq_some_iff)

-- Powers of natural numbers are core's, whatever other instances are imported.
attribute [local instance(high)] instPowNat

namespace Spelling

/-- What the two spellings have in common. -/
structure Known (spelling : Spelling) : Prop where
  /-- Octets are decimal. -/
  radix_eq : spelling.octet.radix = 10
  /-- Octets are the numbers below 256. -/
  bound_eq : spelling.octet.bound = 256
  /-- Every octet can be written. -/
  ample : spelling.octet.Ample
  /-- Two zero groups or more can always be left out. -/
  leastElided_le : spelling.leastElided ≤ 1

/-- The strict spelling has what both have in common. -/
theorem known_strict : Known strict :=
  ⟨rfl, rfl, ⟨by decide, by decide, by decide, by decide⟩, by decide⟩

/-- So has the lenient spelling. -/
theorem known_lenient : Known lenient :=
  ⟨rfl, rfl, ⟨by decide, by decide, by decide, by decide⟩, by decide⟩

/-- Four hexadecimal digits are enough for every group. -/
theorem ample_group : group.Ample := ⟨by decide, by decide, by decide, by decide⟩

variable {spelling : Spelling}

/-! ## Octets -/

/-- An octet is read back. -/
theorem read?_octet (hspelling : spelling.Known) {octet : Nat} (hoctet : octet < 256)
    {rest : List Char} (hrest : NoDigit 10 rest) :
    spelling.octet.read? (numeral 10 octet ++ rest) = some (octet, rest) := by
  obtain ⟨hradix, hbound, hample, _⟩ := hspelling
  rw [← hbound] at hoctet
  rw [← hradix] at hrest ⊢
  exact hample.read?_numeral hoctet hrest

/-- Four octets are read back. -/
theorem readOctets?_dotted (hspelling : spelling.Known) {a b c d : Nat} (ha : a < 256)
    (hb : b < 256) (hc : c < 256) (hd : d < 256) {rest : List Char} (hrest : NoDigit 10 rest) :
    spelling.readOctets? (Address.dotted [a, b, c, d] ++ rest) = some ([a, b, c, d], rest) := by
  have hpoint : ∀ text, NoDigit 10 ('.' :: text) := fun text => noDigit_cons (by decide)
  simp [Address.dotted, List.intercalate, readOctets?, skip?, read?_octet hspelling, ha, hb, hc,
    hd, hpoint, hrest]

/-- The octets of a number, which are below 256 as its digits, are read back. -/
theorem readOctets?_digits (hspelling : spelling.Known) (n : Nat) {rest : List Char}
    (hrest : NoDigit 10 rest) :
    spelling.readOctets? (Address.dotted (Radix.digits 256 4 n) ++ rest) =
      some (Radix.digits 256 4 n, rest) := by
  have hlt : ∀ m, m % 256 < 256 := fun m => Nat.mod_lt m (by decide)
  exact readOctets?_dotted hspelling (hlt _) (hlt _) (hlt _) (hlt _) hrest

/-- Octets need points. -/
theorem readOctets?_eq_none_of_notMem {text : List Char} (h : '.' ∉ text) :
    spelling.readOctets? text = none := by
  unfold readOctets?
  cases hread : spelling.octet.read? text with
  | none => rfl
  | some found =>
    obtain ⟨octet, rest⟩ := found
    have hsuffix := Text.NumberForm.suffix_of_read? hread
    cases hskip : skip? '.' rest with
    | none => simp [hskip]
    | some after =>
      rw [skip?_eq_some_iff] at hskip
      exact absurd (hsuffix.subset (by rw [hskip]; exact List.mem_cons_self)) h

/-- Octets need a digit at the start. -/
theorem readOctets?_eq_none_of_noDigit (hspelling : spelling.Known) {text : List Char}
    (h : NoDigit 10 text) : spelling.readOctets? text = none := by
  rw [← hspelling.radix_eq] at h
  rw [readOctets?, Text.NumberForm.read?_eq_none _ h]
  rfl

/-- Groups that are written as octets need points. -/
theorem readDottedGroups?_eq_none_of_notMem {text : List Char} (h : '.' ∉ text) :
    spelling.readDottedGroups? text = none := by
  rw [readDottedGroups?, readOctets?_eq_none_of_notMem h]
  rfl

/-- They need a digit at the start. -/
theorem readDottedGroups?_eq_none_of_noDigit (hspelling : spelling.Known) {text : List Char}
    (h : NoDigit 10 text) : spelling.readDottedGroups? text = none := by
  rw [readDottedGroups?, readOctets?_eq_none_of_noDigit hspelling h]
  rfl

/-! ## Groups -/

/-- Groups behind a first one, each with a colon in front. -/
def moreGroups (groups : List Nat) : List Char := groups.flatMap fun g => ':' :: numeral 16 g

/-- Groups separated by colons are the first group and further ones, each behind a colon. -/
theorem colons_cons (first : Nat) (later : List Nat) :
    Address.colons (first :: later) = numeral 16 first ++ moreGroups later := by
  rw [Address.colons, List.map_cons, Text.intercalate_cons, List.flatMap_map]
  rfl

/-- A text does not go on with a group, neither right away nor behind a colon. -/
structure NoGroup (text : List Char) : Prop where
  /-- There is no digit at the start. -/
  noDigit : NoDigit 16 text
  /-- There is no digit behind a colon at the start. -/
  noDigit_of_colon : ∀ rest, text = ':' :: rest → NoDigit 16 rest

/-- At the end of a text no group goes on. -/
theorem noGroup_nil : NoGroup [] := ⟨noDigit_nil, nofun⟩

/-- A double colon is not the colon in front of a group. -/
theorem noGroup_colon_colon (text : List Char) : NoGroup (':' :: ':' :: text) := by
  refine ⟨noDigit_cons (by decide), fun rest h => ?_⟩
  rw [← (List.cons.inj h).2]
  exact noDigit_cons (by decide)

/-- Further groups begin with a colon, so they do not make a number longer. -/
theorem noDigit_moreGroups (groups : List Nat) {rest : List Char} (hrest : NoDigit 16 rest) :
    NoDigit 16 (moreGroups groups ++ rest) := by
  cases groups with
  | nil => exact hrest
  | cons g groups => exact noDigit_cons (by decide)

/-- There is no point in a group. -/
theorem notMem_numeral (n : Nat) : '.' ∉ numeral 16 n := by
  intro h
  have hdigit := Text.isSome_digit?_of_mem_numeral (by decide) (by decide) h
  exact absurd hdigit (by decide)

/-- There is no point in groups. -/
theorem notMem_moreGroups (groups : List Nat) : '.' ∉ moreGroups groups := by
  simp [moreGroups, notMem_numeral]

/-- There is no point in groups separated by colons. -/
theorem notMem_colons (groups : List Nat) : '.' ∉ Address.colons groups := by
  cases groups with
  | nil => exact List.not_mem_nil
  | cons g groups => simp [colons_cons, notMem_numeral, notMem_moreGroups]

/-- A run ends where no group goes on, whatever comes later. -/
theorem readRun_of_noGroup (hspelling : spelling.Known) {text : List Char} (h : NoGroup text)
    (limit : Nat) (isFirst : Bool) : spelling.readRun limit isFirst text = ⟨[], false, text⟩ := by
  have hbody : ∀ body, skipColon? isFirst text = some body → NoDigit 16 body := by
    intro body hskip
    cases isFirst with
    | true =>
      cases hskip
      exact h.noDigit
    | false => exact h.noDigit_of_colon body (skip?_eq_some_iff.mp hskip)
  refine readRun_eq_end ?_ ?_ limit
  · refine Option.bind_eq_none_iff.mpr fun body hskip => ?_
    exact readDottedGroups?_eq_none_of_noDigit hspelling (hbody body hskip).decimal
  · refine Option.bind_eq_none_iff.mpr fun body hskip => ?_
    exact Text.NumberForm.read?_eq_none group (hbody body hskip)

/-- Groups with colons in front are read back. -/
theorem readRun_moreGroups (hspelling : spelling.Known) {groups : List Nat}
    (hgroups : ∀ g ∈ groups, g < 0x10000) {rest : List Char} (hpoint : '.' ∉ rest)
    (hrest : NoGroup rest) {limit : Nat} (hlimit : groups.length ≤ limit) :
    spelling.readRun limit false (moreGroups groups ++ rest) = ⟨groups, false, rest⟩ := by
  induction groups generalizing limit with
  | nil => exact readRun_of_noGroup hspelling hrest limit false
  | cons g groups ih =>
    cases limit with
    | zero => simp at hlimit
    | succ limit =>
      have hskip : skipColon? false (moreGroups (g :: groups) ++ rest) =
          some (numeral 16 g ++ (moreGroups groups ++ rest)) := by
        simp [moreGroups, skipColon?, skip?]
      have htext : '.' ∉ numeral 16 g ++ (moreGroups groups ++ rest) := by
        simp [notMem_numeral, notMem_moreGroups, hpoint]
      have hread := ample_group.read?_numeral (hgroups g List.mem_cons_self)
        (noDigit_moreGroups groups hrest.noDigit)
      exact readRun_of_group hskip (readDottedGroups?_eq_none_of_notMem htext) hread <|
        ih (fun h hh => hgroups h (List.mem_cons_of_mem _ hh)) (Nat.le_of_succ_le_succ hlimit)

/-- Groups with colons between them are read back. -/
theorem readRun_colons (hspelling : spelling.Known) {groups : List Nat}
    (hgroups : ∀ g ∈ groups, g < 0x10000) {rest : List Char} (hpoint : '.' ∉ rest)
    (hrest : NoGroup rest) {limit : Nat} (hlimit : groups.length ≤ limit) :
    spelling.readRun limit true (Address.colons groups ++ rest) = ⟨groups, false, rest⟩ := by
  cases groups with
  | nil => exact readRun_of_noGroup hspelling hrest limit true
  | cons g groups =>
    cases limit with
    | zero => simp at hlimit
    | succ limit =>
      have hskip : skipColon? true (Address.colons (g :: groups) ++ rest) =
          some (numeral 16 g ++ (moreGroups groups ++ rest)) := by
        simp [colons_cons, skipColon?]
      have htext : '.' ∉ numeral 16 g ++ (moreGroups groups ++ rest) := by
        simp [notMem_numeral, notMem_moreGroups, hpoint]
      have hread := ample_group.read?_numeral (hgroups g List.mem_cons_self)
        (noDigit_moreGroups groups hrest.noDigit)
      exact readRun_of_group hskip (readDottedGroups?_eq_none_of_notMem htext) hread <|
        readRun_moreGroups hspelling (fun h hh => hgroups h (List.mem_cons_of_mem _ hh)) hpoint
          hrest (Nat.le_of_succ_le_succ hlimit)

end Spelling

/-! ## Zero groups -/

namespace Address

/-- The zeros that a list starts with, and what comes behind them. -/
theorem leadingZeros_spec (groups : List Nat) :
    List.replicate (leadingZeros groups) 0 ++ groups.drop (leadingZeros groups) = groups := by
  induction groups with
  | nil => rfl
  | cons g groups ih =>
    by_cases hg : g = 0
    · subst hg
      have hcount : leadingZeros (0 :: groups) = leadingZeros groups + 1 := by
        simp [leadingZeros]
      rw [hcount, List.replicate_succ, List.cons_append, List.drop_succ_cons, ih]
    · have hcount : leadingZeros (g :: groups) = 0 := by
        simp [leadingZeros, hg]
      rw [hcount]
      rfl

/-- A list has no more leading zeros than groups. -/
theorem leadingZeros_le (groups : List Nat) : leadingZeros groups ≤ groups.length :=
  (List.takeWhile_prefix _).length_le

/-- The longest run of zeros is there, between what comes before and behind it. -/
theorem longestZeroRun_spec {groups : List Nat} {start length : Nat}
    (h : longestZeroRun groups = (start, length)) :
    start + length ≤ groups.length ∧
      groups.take start ++ List.replicate length 0 ++ groups.drop (start + length) = groups := by
  induction groups generalizing start length with
  | nil =>
    cases h
    exact ⟨Nat.le_refl _, rfl⟩
  | cons g groups ih =>
    rcases hlater : longestZeroRun groups with ⟨laterStart, laterLength⟩
    obtain ⟨hle, hsplit⟩ := ih hlater
    simp only [longestZeroRun, hlater] at h
    split at h
    · cases h
      rw [List.take_zero, List.nil_append, Nat.zero_add]
      exact ⟨leadingZeros_le _, leadingZeros_spec _⟩
    · cases h
      rw [List.take_succ_cons, List.cons_append, List.cons_append, Nat.add_right_comm,
        List.drop_succ_cons, hsplit, List.length_cons]
      exact ⟨Nat.succ_le_succ hle, rfl⟩

end Address

namespace Spelling

variable {spelling : Spelling}

/-- Eight groups are read back, with or without some of them left out. -/
theorem readGroups?_compressed (hspelling : spelling.Known) {groups : List Nat}
    (hlength : groups.length = 8) (hgroups : ∀ g ∈ groups, g < 0x10000) {rest : List Char}
    (hpoint : '.' ∉ rest) (hrest : NoGroup rest) :
    spelling.readGroups? (Address.compressed groups ++ rest) = some (groups, rest) := by
  rcases hrun : Address.longestZeroRun groups with ⟨start, length⟩
  obtain ⟨hle, hsplit⟩ := Address.longestZeroRun_spec hrun
  have hleast := hspelling.leastElided_le
  rw [readGroups?_eq_some_iff]
  simp only [Address.compressed, hrun]
  split
  · next hlong =>
    have hstart : (groups.take start).length = start := by
      rw [List.length_take]
      omega
    have hafter : '.' ∉ Address.colons (groups.drop (start + length)) ++ rest := by
      simp [notMem_colons, hpoint]
    have hhead : spelling.readRun 8 true (Address.colons (groups.take start) ++
        ':' :: ':' :: (Address.colons (groups.drop (start + length)) ++ rest)) =
          ⟨groups.take start, false,
            ':' :: ':' :: (Address.colons (groups.drop (start + length)) ++ rest)⟩ := by
      refine readRun_colons hspelling (fun g hg => hgroups g (List.mem_of_mem_take hg)) ?_
        (noGroup_colon_colon _) ?_
      · simpa using hafter
      · omega
    have htail : spelling.readRun (8 - ((groups.take start).length + spelling.leastElided)) true
        (Address.colons (groups.drop (start + length)) ++ rest) =
          ⟨groups.drop (start + length), false, rest⟩ := by
      refine readRun_colons hspelling (fun g hg => hgroups g (List.mem_of_mem_drop hg)) hpoint
        hrest ?_
      rw [List.length_drop]
      omega
    have hcount : 8 - ((groups.take start).length + (groups.drop (start + length)).length) =
        length := by
      rw [List.length_drop]
      omega
    have hspells := SpellsGroups.elided hhead (by omega) htail
    rw [hcount, hsplit] at hspells
    simpa using hspells
  · exact .full (readRun_colons hspelling hgroups hpoint hrest (Nat.le_of_eq hlength)) hlength

/-- Octets behind a colon are read as the two groups that hold them, and end the run. -/
theorem readRun_dotted (hspelling : spelling.Known) (n : Nat) {rest : List Char}
    (hrest : NoDigit 10 rest) (limit : Nat) :
    spelling.readRun (limit + 2) false
        (':' :: (Address.dotted (Radix.digits 256 4 n) ++ rest)) =
      ⟨Radix.digits 0x10000 2 (Radix.value 256 (Radix.digits 256 4 n)), true, rest⟩ := by
  have hoctets : spelling.readDottedGroups? (Address.dotted (Radix.digits 256 4 n) ++ rest) =
      some (Radix.digits 0x10000 2 (Radix.value 256 (Radix.digits 256 4 n)), rest) := by
    rw [readDottedGroups?, readOctets?_digits hspelling n hrest]
    rfl
  exact readRun_of_dotted (Nat.succ_ne_zero limit) rfl hoctets

/-- The groups of an embedded address are read back from its octets: nothing stands in front of the
double colon, and behind it the group that marks such an address and the octets. -/
theorem readGroups?_mapped (hspelling : spelling.Known) (n : Nat) {rest : List Char}
    (hrest : NoDigit 10 rest) :
    spelling.readGroups?
        ([':', ':', 'f', 'f', 'f', 'f', ':'] ++ (Address.dotted (Radix.digits 256 4 n) ++ rest)) =
      some (List.replicate 5 0 ++ 0xFFFF ::
        Radix.digits 0x10000 2 (Radix.value 256 (Radix.digits 256 4 n)), rest) := by
  have hleast := hspelling.leastElided_le
  obtain ⟨limit, hlimit⟩ : ∃ limit, 8 - (0 + spelling.leastElided) = limit + 3 :=
    ⟨5 - spelling.leastElided, by omega⟩
  have hdotted := readRun_dotted hspelling n hrest limit
  generalize Address.dotted (Radix.digits 256 4 n) ++ rest = after at hdotted ⊢
  have hhead := readRun_of_noGroup hspelling
    (noGroup_colon_colon ('f' :: 'f' :: 'f' :: 'f' :: ':' :: after)) 8 true
  have htail : spelling.readRun (limit + 3) true ('f' :: 'f' :: 'f' :: 'f' :: ':' :: after) =
      ⟨0xFFFF :: Radix.digits 0x10000 2 (Radix.value 256 (Radix.digits 256 4 n)), true, rest⟩ := by
    have hletter : NoDigit 10 ('f' :: 'f' :: 'f' :: 'f' :: ':' :: after) :=
      noDigit_cons (by decide)
    have hcolon : NoDigit group.radix (':' :: after) := noDigit_cons (by decide)
    have hfits : 0xFFFF < group.bound := by decide
    have hmark : group.read? (numeral 16 0xFFFF ++ ':' :: after) = some (0xFFFF, ':' :: after) :=
      ample_group.read?_numeral hfits hcolon
    exact readRun_of_group rfl (readDottedGroups?_eq_none_of_noDigit hspelling hletter) hmark
      hdotted
  rw [← hlimit] at htail
  have hspells := SpellsGroups.elided hhead (by decide) htail
  rw [List.length_cons, Radix.length_digits] at hspells
  exact readGroups?_eq_some_iff.mpr hspells

end Spelling

/-! ## Addresses -/

namespace Address

variable {family : Family} {spelling : Spelling}

/-- The octets at the end of an address stand for its lower 32 bits. -/
theorem value_octets (n : Nat) : Radix.value 256 (Radix.digits 256 4 n) = n % 2 ^ (32 : Nat) :=
  Radix.value_digits 256 4 n

/-- An address that embeds another one is the value of its groups. -/
theorem ofNat_mapped {a : Address .v6} (hmapped : a.isMapped = true) :
    ofNat (Radix.value 0x10000 (List.replicate 5 0 ++ 0xFFFF ::
      Radix.digits 0x10000 2 (Radix.value 256 (Radix.digits 256 4 a.toNat)))) = a := by
  have hupper : a.toNat / 2 ^ (32 : Nat) = 0xFFFF := of_decide_eq_true hmapped
  have hsplit := Nat.div_add_mod a.toNat (2 ^ (32 : Nat))
  rw [value_octets, Radix.value_append, Radix.value_cons, Radix.value_digits, Radix.length_digits]
  have hzero : Radix.value 0x10000 (List.replicate 5 0) = 0 := by decide
  have hpow : (0x10000 : Nat) ^ 2 = 2 ^ (32 : Nat) := by decide
  rw [hzero, hpow, Nat.mod_mod, Nat.zero_mul, Nat.zero_add, ← hupper, Nat.mul_comm, hsplit,
    ofNat_toNat]

/-- What may stand behind an address. -/
structure Ends (rest : List Char) : Prop where
  /-- No group goes on. -/
  noGroup : Spelling.NoGroup rest
  /-- There are no points. -/
  notMem : '.' ∉ rest

/-- Nothing may stand behind an address. -/
theorem ends_nil : Ends [] := ⟨Spelling.noGroup_nil, List.not_mem_nil⟩

/-- A printed address is read back, whatever of a further text stands behind it. -/
theorem read?_chars (hspelling : spelling.Known) (a : Address family) {rest : List Char}
    (hrest : Ends rest) : read? spelling family (a.chars ++ rest) = some (a, rest) := by
  have hlt := a.toNat_lt
  cases family with
  | v4 =>
    rw [chars, read?, Spelling.readOctets?_digits hspelling _ hrest.noGroup.noDigit.decimal]
    have hvalue : ofNat (Radix.value 256 (Radix.digits 256 4 a.toNat)) = a := by
      rw [value_octets, Nat.mod_eq_of_lt hlt, ofNat_toNat]
    exact congrArg (fun b => some (b, rest)) hvalue
  | v6 =>
    rw [chars]
    split
    · next hmapped =>
      rw [List.append_assoc, read?,
        Spelling.readGroups?_mapped hspelling _ hrest.noGroup.noDigit.decimal]
      exact congrArg (fun b => some (b, rest)) (ofNat_mapped hmapped)
    · have hlength : a.groups.length = 8 := Radix.length_digits _ _ _
      have hgroups : ∀ g ∈ a.groups, g < 0x10000 :=
        fun g hg => Radix.lt_of_mem_digits (by decide) hg
      rw [read?, Spelling.readGroups?_compressed hspelling hlength hgroups hrest.notMem
        hrest.noGroup]
      have hvalue : ofNat (Radix.value 0x10000 a.groups) = a := by
        have hpow : (0x10000 : Nat) ^ 8 = 2 ^ Family.v6.width := by decide
        rw [groups, Radix.value_digits, hpow, Nat.mod_eq_of_lt hlt, ofNat_toNat]
      exact congrArg (fun b => some (b, rest)) hvalue

/-- The text of an address spells the address, in both spellings. -/
theorem ofChars?_chars (hspelling : spelling.Known) (a : Address family) :
    ofChars? spelling family a.chars = some a := by
  have hread := read?_chars hspelling a ends_nil
  rw [List.append_nil] at hread
  simp [ofChars?, hread]

/-- No two addresses of a family are printed alike. -/
theorem chars_inj {a b : Address family} : a.chars = b.chars ↔ a = b := by
  constructor
  · intro h
    have hread := ofChars?_chars Spelling.known_strict a
    rw [h, ofChars?_chars Spelling.known_strict b] at hread
    exact (Option.some_inj.mp hread).symm
  · exact congrArg chars

/-- Every address is printed, because no address is read from an empty text. -/
theorem chars_ne_nil (a : Address family) : a.chars ≠ [] := by
  intro h
  have hread := ofChars?_chars Spelling.known_strict a
  have hnone : ofChars? .strict family [] = none := by cases family <;> decide
  rw [h, hnone] at hread
  exact absurd hread (by simp)

/-! ## The characters of addresses -/

/-- The characters that addresses are written with. -/
def IsSign (c : Char) : Prop := (digit? 16 c).isSome = true ∨ c = ':' ∨ c = '.'

instance : DecidablePred IsSign := fun c =>
  inferInstanceAs (Decidable ((digit? 16 c).isSome = true ∨ c = ':' ∨ c = '.'))

/-- Numerals joined by a sign have signs only. -/
theorem isSign_of_mem_intercalate {separator : Char} (hseparator : IsSign separator) {radix : Nat}
    (hradix : 1 < radix) (hradix' : radix ≤ 16) {numbers : List Nat} {c : Char}
    (hc : c ∈ [separator].intercalate (numbers.map (numeral radix))) : IsSign c := by
  rcases Text.exists_of_mem_intercalate hc with hc | ⟨text, htext, hc⟩
  · rwa [List.mem_singleton.mp hc]
  · obtain ⟨n, _, rfl⟩ := List.mem_map.mp htext
    exact .inl (Text.isSome_digit?_of_mem_numeral hradix hradix' hc)

/-- Octets separated by points have signs only. -/
theorem isSign_of_mem_dotted {octets : List Nat} {c : Char} (hc : c ∈ dotted octets) :
    IsSign c :=
  isSign_of_mem_intercalate (by decide) (by decide) (by decide) hc

/-- Groups separated by colons have signs only. -/
theorem isSign_of_mem_colons {groups : List Nat} {c : Char} (hc : c ∈ colons groups) :
    IsSign c :=
  isSign_of_mem_intercalate (by decide) (by decide) (by decide) hc

/-- Groups of which a run of zeros is left out have signs only. -/
theorem isSign_of_mem_compressed {groups : List Nat} {c : Char} (hc : c ∈ compressed groups) :
    IsSign c := by
  unfold compressed at hc
  split at hc
  rename_i start length _
  split at hc
  · rw [List.append_assoc, List.mem_append, List.mem_append] at hc
    rcases hc with hc | hc | hc
    · exact isSign_of_mem_colons hc
    · exact .inr (.inl (by simpa using hc))
    · exact isSign_of_mem_colons hc
  · exact isSign_of_mem_colons hc

/-- The text of an address has signs of addresses only. -/
theorem isSign_of_mem_chars {a : Address family} {c : Char} (hc : c ∈ a.chars) : IsSign c := by
  cases family with
  | v4 => exact isSign_of_mem_dotted hc
  | v6 =>
    rw [chars] at hc
    split at hc
    · rcases List.mem_append.mp hc with hc | hc
      · have hmark : c = ':' ∨ c = 'f' ∨ c = ':' := by simpa using hc
        rcases hmark with rfl | rfl | rfl <;> decide
      · exact isSign_of_mem_dotted hc
    · exact isSign_of_mem_compressed hc

end Address
end AccessList
