import AccessList.Proofs.AddressText
import AccessList.Target

/-!
# Texts of targets

In every spelling a reader of addresses goes over hexadecimal digits, colons and points only. A
block has a slash behind its address, so no text is both a block and a bare address. Octets have no
colons, and no address of the other family does without them, so no text is of both families. Hence
it does not matter in which order a text is tried.
-/

namespace AccessList

open Address (IsSign)
open Text (digit? skip? skip?_eq_some_iff)

/-! ## What readers go over -/

/-- A text goes on as another one behind signs. -/
def LeadsTo (sign : Char → Prop) (text rest : List Char) : Prop :=
  ∃ front, text = front ++ rest ∧ ∀ c ∈ front, sign c

namespace LeadsTo

variable {sign : Char → Prop}

/-- A text goes on as itself, behind no signs. -/
theorem refl (text : List Char) : LeadsTo sign text text := ⟨[], rfl, nofun⟩

/-- Going over signs and then over more of them is going over signs. -/
theorem trans {text middle rest : List Char} (h : LeadsTo sign text middle)
    (h' : LeadsTo sign middle rest) : LeadsTo sign text rest := by
  obtain ⟨front, rfl, hfront⟩ := h
  obtain ⟨front', rfl, hfront'⟩ := h'
  refine ⟨front ++ front', (List.append_assoc _ _ _).symm, fun c hc => ?_⟩
  rcases List.mem_append.mp hc with hc | hc
  · exact hfront c hc
  · exact hfront' c hc

/-- A sign in front of a text may be gone over as well. -/
theorem cons {c : Char} {text rest : List Char} (hc : sign c) (h : LeadsTo sign text rest) :
    LeadsTo sign (c :: text) rest := by
  obtain ⟨front, rfl, hfront⟩ := h
  exact ⟨c :: front, rfl, List.forall_mem_cons.mpr ⟨hc, hfront⟩⟩

/-- With more signs one gets as far. -/
theorem mono {more : Char → Prop} (hmore : ∀ c, sign c → more c) {text rest : List Char}
    (h : LeadsTo sign text rest) : LeadsTo more text rest := by
  obtain ⟨front, rfl, hfront⟩ := h
  exact ⟨front, rfl, fun c hc => hmore c (hfront c hc)⟩

/-- What is left over is the end of the text. -/
theorem suffix {text rest : List Char} (h : LeadsTo sign text rest) : rest <:+ text := by
  obtain ⟨front, rfl, _⟩ := h
  exact List.suffix_append front rest

/-- Every character of the text is a sign or left over. -/
theorem sign_or_mem {text rest : List Char} (h : LeadsTo sign text rest) {c : Char}
    (hc : c ∈ text) : sign c ∨ c ∈ rest := by
  obtain ⟨front, rfl, hfront⟩ := h
  exact (List.mem_append.mp hc).imp_left (hfront c)

/-- A text gone over to its end has signs only. -/
theorem sign_of_nil {text : List Char} (h : LeadsTo sign text []) {c : Char} (hc : c ∈ text) :
    sign c :=
  (h.sign_or_mem hc).resolve_right List.not_mem_nil

end LeadsTo

namespace Text

/-- A digit of the largest radix. -/
def IsDigit (c : Char) : Prop := (digit? 16 c).isSome = true

/-- A digit of a smaller radix is one of the largest radix. -/
theorem isDigit_of_digit? {radix : Nat} (hradix : radix ≤ 16) {c : Char} {d : Nat}
    (h : digit? radix c = some d) : IsDigit c := by
  unfold digit? at h
  unfold IsDigit digit?
  obtain ⟨hfound, hd⟩ := Option.filter_eq_some_iff.mp h
  rw [hfound, Option.filter_some]
  rw [decide_eq_true_eq] at hd
  rw [if_pos (decide_eq_true (by omega))]
  rfl

/-- Reading digits goes over digits. -/
theorem leadsTo_leadingDigits {radix : Nat} (hradix : radix ≤ 16) (text : List Char) :
    LeadsTo IsDigit text (leadingDigits radix text).2 := by
  induction text with
  | nil => exact .refl []
  | cons c text ih =>
    rw [leadingDigits]
    split
    · next hdigit => exact .cons (isDigit_of_digit? hradix hdigit) ih
    · exact .refl _

/-- Reading a number goes over digits. -/
theorem NumberForm.leadsTo_of_read? {form : NumberForm} (hradix : form.radix ≤ 16)
    {text rest : List Char} {n : Nat} (h : form.read? text = some (n, rest)) :
    LeadsTo IsDigit text rest := by
  obtain ⟨_, hdigits, _⟩ := read?_eq_some_iff.mp h
  have hleads := leadsTo_leadingDigits hradix text
  rwa [hdigits] at hleads

/-- Skipping a sign goes over it. -/
theorem leadsTo_of_skip? {sign : Char → Prop} {c : Char} (hc : sign c) {text rest : List Char}
    (h : skip? c text = some rest) : LeadsTo sign text rest := by
  rw [skip?_eq_some_iff.mp h]
  exact .cons hc (.refl rest)

end Text

/-! ## Addresses -/

/-- The characters that octets are written with. -/
def Address.IsOctetSign (c : Char) : Prop := Text.IsDigit c ∨ c = '.'

/-- The characters of octets are characters of addresses. -/
theorem Address.IsOctetSign.isSign {c : Char} (h : IsOctetSign c) : IsSign c := h.imp_right .inr

/-- A colon is no character of octets. -/
theorem Address.not_isOctetSign_colon : ¬ IsOctetSign ':' := by
  unfold IsOctetSign Text.IsDigit
  decide

namespace Spelling

open Address (IsOctetSign)

variable {spelling : Spelling} {text rest : List Char}

/-- Reading an octet goes over characters of octets. -/
theorem leadsTo_of_readOctet? (hspelling : spelling.Known) {octet : Nat}
    (h : spelling.octet.read? text = some (octet, rest)) : LeadsTo IsOctetSign text rest := by
  have hradix : spelling.octet.radix ≤ 16 := by
    rw [hspelling.radix_eq]
    decide
  exact (Text.NumberForm.leadsTo_of_read? hradix h).mono fun _ => .inl

/-- Skipping a point goes over such a character. -/
theorem leadsTo_of_skip?_point (h : skip? '.' text = some rest) : LeadsTo IsOctetSign text rest :=
  Text.leadsTo_of_skip? (.inr rfl) h

/-- Skipping a colon goes over a character of addresses. -/
theorem leadsTo_of_skip?_colon (h : skip? ':' text = some rest) : LeadsTo IsSign text rest :=
  Text.leadsTo_of_skip? (by decide) h

/-- Reading four octets goes over characters of octets. -/
theorem leadsTo_of_readOctets? (hspelling : spelling.Known) {octets : List Nat}
    (h : spelling.readOctets? text = some (octets, rest)) : LeadsTo IsOctetSign text rest := by
  simp only [readOctets?, Option.bind_eq_bind, Option.bind_eq_some_iff, Prod.exists] at h
  obtain ⟨_, text₁, h₁, text₂, h₂, _, text₃, h₃, text₄, h₄, _, text₅, h₅, text₆, h₆, _, text₇, h₇,
    hrest⟩ := h
  cases hrest
  exact (leadsTo_of_readOctet? hspelling h₁).trans <| (leadsTo_of_skip?_point h₂).trans <|
    (leadsTo_of_readOctet? hspelling h₃).trans <| (leadsTo_of_skip?_point h₄).trans <|
    (leadsTo_of_readOctet? hspelling h₅).trans <| (leadsTo_of_skip?_point h₆).trans <|
    leadsTo_of_readOctet? hspelling h₇

/-- Octets are read as two groups. -/
theorem leadsTo_of_readDottedGroups? (hspelling : spelling.Known) {groups : List Nat}
    (h : spelling.readDottedGroups? text = some (groups, rest)) :
    LeadsTo IsOctetSign text rest ∧ groups.length = 2 := by
  simp only [readDottedGroups?, Option.bind_eq_bind, Option.bind_eq_some_iff, Prod.exists] at h
  obtain ⟨_, _, hoctets, hrest⟩ := h
  cases hrest
  exact ⟨leadsTo_of_readOctets? hspelling hoctets, Radix.length_digits _ _ _⟩

/-- Reading a group goes over signs. -/
theorem leadsTo_of_readGroup? {g : Nat} (h : group.read? text = some (g, rest)) :
    LeadsTo IsSign text rest :=
  (Text.NumberForm.leadsTo_of_read? (by decide) h).mono fun _ => .inl

/-- Removing the colon in front of a group goes over a sign or over nothing. -/
theorem leadsTo_of_skipColon? {isFirst : Bool} (h : skipColon? isFirst text = some rest) :
    LeadsTo IsSign text rest := by
  unfold skipColon? at h
  split at h
  · cases h
    exact .refl _
  · exact leadsTo_of_skip?_colon h

/-- A run of groups goes over signs, however far it gets. -/
theorem leadsTo_of_readRun (hspelling : spelling.Known) {limit : Nat} {isFirst dotted : Bool}
    {groups : List Nat} (h : spelling.readRun limit isFirst text = ⟨groups, dotted, rest⟩) :
    LeadsTo IsSign text rest := by
  induction limit generalizing isFirst text groups with
  | zero =>
    cases h
    exact .refl rest
  | succ limit ih =>
    rcases readRun_cases h with ⟨body, _, hskip, _, hread⟩ |
      ⟨body, _, _, _, hskip, hread, hrun, _⟩ | ⟨_, _, rfl⟩
    · have hleads := (leadsTo_of_readDottedGroups? hspelling hread).1
      exact (leadsTo_of_skipColon? hskip).trans (hleads.mono fun _ => Address.IsOctetSign.isSign)
    · exact (leadsTo_of_skipColon? hskip).trans ((leadsTo_of_readGroup? hread).trans (ih hrun))
    · exact .refl rest

/-- However eight groups are spelled, reading them goes over signs. -/
theorem leadsTo_of_spellsGroups (hspelling : spelling.Known) {groups : List Nat}
    (h : SpellsGroups spelling text groups rest) : LeadsTo IsSign text rest := by
  cases h with
  | full hhead _ => exact leadsTo_of_readRun hspelling hhead
  | elided hhead _ htail =>
    have hcolon : IsSign ':' := by decide
    exact (leadsTo_of_readRun hspelling hhead).trans <| .cons hcolon <| .cons hcolon <|
      leadsTo_of_readRun hspelling htail

/-- Without colons there is one group, or two that are written as octets, because no further group
follows the first one. -/
theorem length_le_two_of_readRun (hspelling : spelling.Known) (hcolon : ':' ∉ text) {limit : Nat}
    {dotted : Bool} {groups : List Nat}
    (h : spelling.readRun limit true text = ⟨groups, dotted, rest⟩) : groups.length ≤ 2 := by
  cases limit with
  | zero =>
    cases h
    exact Nat.zero_le 2
  | succ limit =>
    rcases readRun_cases h with ⟨body, _, _, _, hread⟩ |
      ⟨body, g, behind, later, hskip, hread, hrun, rfl⟩ | ⟨rfl, _, _⟩
    · exact Nat.le_of_eq (leadsTo_of_readDottedGroups? hspelling hread).2
    · have hnone : skipColon? false behind = none := by
        rw [Option.eq_none_iff_forall_ne_some]
        intro more hmore
        cases hskip
        have hsuffix := Text.NumberForm.suffix_of_read? hread
        rw [skip?_eq_some_iff.mp hmore] at hsuffix
        exact hcolon (hsuffix.subset List.mem_cons_self)
      rw [readRun_eq_end (by rw [hnone]; rfl) (by rw [hnone]; rfl)] at hrun
      cases hrun
      exact Nat.le_succ 1
    · exact Nat.zero_le 2

/-- Eight groups are not written without a colon. -/
theorem colon_mem_of_spellsGroups (hspelling : spelling.Known) {groups : List Nat}
    (h : SpellsGroups spelling text groups rest) : ':' ∈ text := by
  cases h with
  | full hhead height =>
    refine Decidable.byContradiction fun hcolon => ?_
    have hlength := length_le_two_of_readRun hspelling hcolon hhead
    omega
  | elided hhead _ _ =>
    exact (leadsTo_of_readRun hspelling hhead).suffix.subset List.mem_cons_self

end Spelling

namespace Address

variable {spelling : Spelling} {family : Family} {text rest : List Char}

/-- Reading an IPv4 address goes over characters of octets. -/
theorem leadsTo_of_read?_v4 (hspelling : spelling.Known) {a : Address .v4}
    (h : read? spelling .v4 text = some (a, rest)) : LeadsTo IsOctetSign text rest := by
  simp only [read?, Option.bind_eq_bind, Option.bind_eq_some_iff, Prod.exists] at h
  obtain ⟨_, _, hoctets, hrest⟩ := h
  cases hrest
  exact Spelling.leadsTo_of_readOctets? hspelling hoctets

/-- Reading an IPv6 address goes over signs, and its text has a colon. -/
theorem leadsTo_of_read?_v6 (hspelling : spelling.Known) {a : Address .v6}
    (h : read? spelling .v6 text = some (a, rest)) : LeadsTo IsSign text rest ∧ ':' ∈ text := by
  simp only [read?, Option.bind_eq_bind, Option.bind_eq_some_iff, Prod.exists] at h
  obtain ⟨_, _, hgroups, hrest⟩ := h
  cases hrest
  rw [Spelling.readGroups?_eq_some_iff] at hgroups
  exact ⟨Spelling.leadsTo_of_spellsGroups hspelling hgroups,
    Spelling.colon_mem_of_spellsGroups hspelling hgroups⟩

/-- Reading an address goes over signs of addresses. -/
theorem leadsTo_of_read? (hspelling : spelling.Known) {a : Address family}
    (h : read? spelling family text = some (a, rest)) : LeadsTo IsSign text rest := by
  cases family with
  | v4 => exact (leadsTo_of_read?_v4 hspelling h).mono fun _ => IsOctetSign.isSign
  | v6 => exact (leadsTo_of_read?_v6 hspelling h).1

/-- A whole text spells an address if nothing is left over behind it. -/
theorem ofChars?_eq_some_iff {a : Address family} :
    ofChars? spelling family text = some a ↔ read? spelling family text = some (a, []) := by
  simp only [ofChars?, Option.bind_eq_bind, Option.bind_eq_some_iff, Prod.exists]
  constructor
  · rintro ⟨found, rest, hread, hrest⟩
    split at hrest
    · next hempty =>
      cases hrest
      rw [hread, List.isEmpty_iff.mp hempty]
    · cases hrest
  · exact fun h => ⟨a, [], h, rfl⟩

/-- A text that spells an address has signs of addresses only. -/
theorem isSign_of_ofChars?_eq_some (hspelling : spelling.Known) {a : Address family}
    (h : ofChars? spelling family text = some a) {c : Char} (hc : c ∈ text) : IsSign c :=
  (leadsTo_of_read? hspelling (ofChars?_eq_some_iff.mp h)).sign_of_nil hc

/-- No text is an address of both families. -/
theorem ofChars?_v4_eq_none (hspelling : spelling.Known) {a : Address .v6}
    (h : ofChars? spelling .v6 text = some a) : ofChars? spelling .v4 text = none := by
  rw [Option.eq_none_iff_forall_ne_some]
  intro b hb
  have hcolon := (leadsTo_of_read?_v6 hspelling (ofChars?_eq_some_iff.mp h)).2
  have hleads := leadsTo_of_read?_v4 hspelling (ofChars?_eq_some_iff.mp hb)
  exact not_isOctetSign_colon (hleads.sign_of_nil hcolon)

end Address

namespace IpAddress

variable {text : List Char}

/-- The address of either family that a text spells is the one that it spells in its family. -/
theorem ofChars?_eq_some_of_iff {family : Family} {a : Address family} :
    ofChars? text = some (.of a) ↔ Address.ofChars? .strict family text = some a := by
  unfold ofChars?
  cases family with
  | v4 => cases Address.ofChars? .strict .v4 text <;> simp [EitherFamily.of]
  | v6 =>
    cases hv6 : Address.ofChars? .strict .v6 text with
    | some b => simp [Address.ofChars?_v4_eq_none Spelling.known_strict hv6, EitherFamily.of]
    | none => cases Address.ofChars? .strict .v4 text <;> simp [EitherFamily.of]

/-- A text that spells an address of either family has signs of addresses only. -/
theorem isSign_of_ofChars?_eq_some {ip : IpAddress} (h : ofChars? text = some ip) {c : Char}
    (hc : c ∈ text) : IsSign c := by
  obtain ⟨family, a, rfl⟩ := ip.exists_eq_of
  exact Address.isSign_of_ofChars?_eq_some Spelling.known_strict (ofChars?_eq_some_of_iff.mp h) hc

end IpAddress

/-! ## Blocks and bare addresses -/

namespace Block

variable {family : Family} {text : List Char}

/-- A block is written as its address, with all bits, a slash and its length. -/
theorem ofChars?_eq_some_iff {block : Block family} :
    ofChars? family text = some block ↔
      ∃ digits, Address.read? .lenient family text = some (block.address, '/' :: digits) ∧
        (lengthForm family).read? digits = some (block.length, []) := by
  simp only [ofChars?, Option.bind_eq_bind, Option.bind_eq_some_iff, Prod.exists,
    skip?_eq_some_iff]
  constructor
  · rintro ⟨address, _, haddress, digits, rfl, length, rest, hlength, hblock⟩
    split at hblock
    · split at hblock
      · next hempty =>
        cases hblock
        rw [List.isEmpty_iff.mp hempty] at hlength
        exact ⟨digits, haddress, hlength⟩
      · cases hblock
    · cases hblock
  · rintro ⟨digits, haddress, hlength⟩
    refine ⟨block.address, _, haddress, digits, rfl, block.length, [], hlength, ?_⟩
    rw [dif_pos block.length_le]
    rfl

/-- The text of a block has a slash. -/
theorem slash_mem_of_ofChars?_eq_some {block : Block family}
    (h : ofChars? family text = some block) : '/' ∈ text := by
  obtain ⟨digits, haddress, _⟩ := ofChars?_eq_some_iff.mp h
  have hsuffix := (Address.leadsTo_of_read? Spelling.known_lenient haddress).suffix
  exact hsuffix.subset List.mem_cons_self

/-- No text is a block of both families. -/
theorem ofChars?_v4_eq_none {block : Block .v6} (h : ofChars? .v6 text = some block) :
    ofChars? .v4 text = none := by
  rw [Option.eq_none_iff_forall_ne_some]
  intro other hother
  obtain ⟨_, haddress, _⟩ := ofChars?_eq_some_iff.mp h
  obtain ⟨digits, haddress', hlength⟩ := ofChars?_eq_some_iff.mp hother
  have hcolon := (Address.leadsTo_of_read?_v6 Spelling.known_lenient haddress).2
  have hoctets := Address.leadsTo_of_read?_v4 Spelling.known_lenient haddress'
  have hdigits := Text.NumberForm.leadsTo_of_read? (by decide) hlength
  rcases hoctets.sign_or_mem hcolon with hsign | hrest
  · exact Address.not_isOctetSign_colon hsign
  · rcases List.mem_cons.mp hrest with hslash | hdigit
    · exact absurd hslash (by decide)
    · exact Address.not_isOctetSign_colon (.inl (hdigits.sign_of_nil hdigit))

end Block

namespace Target

variable {text : List Char}

/-- The block of either family that a text writes is the one that it writes in its family. -/
theorem ofBlockChars?_eq_some_of_iff {family : Family} {block : Block family} :
    ofBlockChars? text = some (.of block) ↔ Block.ofChars? family text = some block := by
  unfold ofBlockChars?
  cases family with
  | v4 => cases Block.ofChars? .v4 text <;> simp [EitherFamily.of]
  | v6 =>
    cases hv6 : Block.ofChars? .v6 text with
    | some other => simp [Block.ofChars?_v4_eq_none hv6, EitherFamily.of]
    | none => cases Block.ofChars? .v4 text <;> simp [EitherFamily.of]

/-- No text is both a bare address and a block. -/
theorem ofBlockChars?_eq_none_of_address {ip : IpAddress}
    (h : IpAddress.ofChars? text = some ip) : ofBlockChars? text = none := by
  rw [Option.eq_none_iff_forall_ne_some]
  intro target hblock
  obtain ⟨family, block, rfl⟩ := target.exists_eq_of
  have hslash := Block.slash_mem_of_ofChars?_eq_some (ofBlockChars?_eq_some_of_iff.mp hblock)
  exact absurd (IpAddress.isSign_of_ofChars?_eq_some h hslash) (by decide)

/-- The target that a text writes is the block that it writes, or the one that holds just the
address that it spells. -/
theorem ofChars?_eq_some_of_iff {family : Family} {block : Block family} :
    ofChars? text = some (.of block) ↔ Block.ofChars? family text = some block ∨
      ∃ a, Address.ofChars? .strict family text = some a ∧ block = .single a := by
  rw [← ofBlockChars?_eq_some_of_iff]
  unfold ofChars?
  cases hblock : ofBlockChars? text with
  | some target =>
    refine ⟨.inl, ?_⟩
    rintro (h | ⟨a, haddress, _⟩)
    · exact h
    · rw [ofBlockChars?_eq_none_of_address (IpAddress.ofChars?_eq_some_of_iff.mpr haddress)]
        at hblock
      cases hblock
  | none =>
    simp only [Option.map_eq_some_iff, reduceCtorEq, false_or]
    constructor
    · rintro ⟨ip, haddress, hsingle⟩
      obtain ⟨family', a, rfl⟩ := ip.exists_eq_of
      rw [single, EitherFamily.map_of] at hsingle
      have hfamily := congrArg EitherFamily.family hsingle
      rw [EitherFamily.family_of, EitherFamily.family_of] at hfamily
      subst hfamily
      have hblock := congrArg (EitherFamily.within? family') hsingle
      rw [EitherFamily.within?_of, EitherFamily.within?_of, Option.some_inj] at hblock
      exact ⟨a, IpAddress.ofChars?_eq_some_of_iff.mp haddress, hblock.symm⟩
    · rintro ⟨a, haddress, rfl⟩
      refine ⟨.of a, IpAddress.ofChars?_eq_some_of_iff.mpr haddress, ?_⟩
      rw [single, EitherFamily.map_of]

/-- How the target of a rule is written. -/
inductive IsWritten : List Char → Target → Prop where
  /-- A block has an address, with all its bits, a slash and a length. -/
  | block {family : Family} {text digits : List Char} {block : Block family} :
      Address.read? .lenient family text = some (block.address, '/' :: digits) →
        (Block.lengthForm family).read? digits = some (block.length, []) →
          IsWritten text (.of block)
  /-- A bare address is a block in which all bits count. -/
  | address {family : Family} {text : List Char} {a : Address family} :
      Address.ofChars? .strict family text = some a →
        IsWritten text (.of ⟨a, family.width, Nat.le_refl _⟩)

/-- A text is read as a target exactly when it is one way to write it. -/
theorem ofChars?_eq_some_iff {target : Target} :
    ofChars? text = some target ↔ IsWritten text target := by
  constructor
  · intro h
    obtain ⟨family, block, rfl⟩ := target.exists_eq_of
    rcases ofChars?_eq_some_of_iff.mp h with hblock | ⟨a, haddress, rfl⟩
    · obtain ⟨digits, hread, hlength⟩ := Block.ofChars?_eq_some_iff.mp hblock
      exact .block hread hlength
    · exact .address haddress
  · intro h
    cases h with
    | block hread hlength =>
      exact ofChars?_eq_some_of_iff.mpr (.inl (Block.ofChars?_eq_some_iff.mpr ⟨_, hread, hlength⟩))
    | address haddress => exact ofChars?_eq_some_of_iff.mpr (.inr ⟨_, haddress, rfl⟩)

/-- A target is written with signs of addresses and a slash. -/
theorem IsWritten.isSign_or_slash {target : Target} (h : IsWritten text target) {c : Char}
    (hc : c ∈ text) : IsSign c ∨ c = '/' := by
  cases h with
  | @block family _ digits _ hread hlength =>
    have hradix : (Block.lengthForm family).radix ≤ 16 := by cases family <;> decide
    have hdigits := Text.NumberForm.leadsTo_of_read? hradix hlength
    rcases (Address.leadsTo_of_read? Spelling.known_lenient hread).sign_or_mem hc with hsign | hrest
    · exact .inl hsign
    · rcases List.mem_cons.mp hrest with hslash | hdigit
      · exact .inr hslash
      · exact .inl (.inl (hdigits.sign_of_nil hdigit))
  | address haddress =>
    exact .inl (Address.isSign_of_ofChars?_eq_some Spelling.known_strict haddress hc)

/-- There is no target without characters. -/
theorem IsWritten.ne_nil {target : Target} (h : IsWritten text target) : text ≠ [] := by
  rintro rfl
  have hnone : ofChars? [] = none := by decide
  rw [ofChars?_eq_some_iff.mpr h] at hnone
  cases hnone

end Target
end AccessList
