import AccessList.Proofs.Octets

/-!
# The canonical text of an address

An address is printed in one of several shapes: four octets, octets behind a mark for an address
that embeds another one, or groups, with the longest run of zeros left out wherever it stands. Every
shape is read back as the address that was printed, so the text of an address determines it.
-/

namespace AccessList.Address

-- Powers of natural numbers are core's, whatever other instances are imported.
attribute [local instance(high)] instPowNat

/-! ## Runs of zeros -/

/-- Zeros stand at `length` places in a row, from the place `start` on. -/
def IsZeroRun (groups : List Nat) (start length : Nat) : Prop :=
  List.replicate length 0 <+: groups.drop start

/-- Leading zeros are counted one by one, up to the first other group. -/
theorem leadingZeros_cons (g : Nat) (groups : List Nat) :
    leadingZeros (g :: groups) = if g = 0 then leadingZeros groups + 1 else 0 := by
  by_cases hg : g = 0 <;> simp [leadingZeros, hg]

/-- A list starts with as many zeros as are counted, and with no more. -/
theorem replicate_prefix_iff {groups : List Nat} {count : Nat} :
    List.replicate count 0 <+: groups ↔ count ≤ leadingZeros groups := by
  induction groups generalizing count with
  | nil => simp [leadingZeros]
  | cons g groups ih =>
    cases count with
    | zero => simp
    | succ count =>
      rw [List.replicate_succ, List.cons_prefix_cons, ih, leadingZeros_cons, eq_comm]
      split
      · next hg => simp [hg]
      · next hg => simp [hg]

/-- No run of zeros is longer than the one that is found, and none of the same length starts
earlier. -/
theorem longestZeroRun_longest {groups : List Nat} {start length : Nat}
    (h : longestZeroRun groups = (start, length)) {other count : Nat}
    (hrun : IsZeroRun groups other count) : count ≤ length ∧ (count = length → start ≤ other) := by
  induction groups generalizing start length other with
  | nil =>
    cases h
    simp only [IsZeroRun, List.drop_nil, List.prefix_nil, List.replicate_eq_nil_iff] at hrun
    exact ⟨Nat.le_of_eq hrun, fun _ => Nat.zero_le _⟩
  | cons g groups ih =>
    rcases hlater : longestZeroRun groups with ⟨laterStart, laterLength⟩
    simp only [longestZeroRun, hlater] at h
    cases other with
    | zero =>
      have hcount : count ≤ leadingZeros (g :: groups) := replicate_prefix_iff.mp hrun
      split at h
      · cases h
        exact ⟨hcount, fun _ => Nat.le_refl _⟩
      · cases h
        omega
    | succ other =>
      obtain ⟨hle, hfirst⟩ := ih hlater hrun
      split at h
      · cases h
        exact ⟨by omega, fun _ => Nat.zero_le _⟩
      · cases h
        exact ⟨hle, fun heq => Nat.succ_le_succ (hfirst heq)⟩

/-- The run that is found is a run of zeros. -/
theorem isZeroRun_longestZeroRun {groups : List Nat} {start length : Nat}
    (h : longestZeroRun groups = (start, length)) : IsZeroRun groups start length := by
  obtain ⟨hle, hsplit⟩ := longestZeroRun_spec h
  have hstart : (groups.take start).length = start := by
    rw [List.length_take]
    omega
  refine ⟨groups.drop (start + length), ?_⟩
  have hdrop : (groups.take start ++ (List.replicate length 0 ++
      groups.drop (start + length))).drop start =
        List.replicate length 0 ++ groups.drop (start + length) :=
    List.drop_left' hstart
  rw [← hdrop, ← List.append_assoc, hsplit]

/-! ## Shapes of texts -/

/-- How groups are written: the longest run of at least two zeros is left out, and of several such
runs the first; without such a run all groups are written. -/
inductive WritesGroups (groups : List Nat) : List Char → Prop where
  /-- No two zeros follow each other. -/
  | all : (∀ start, ¬ IsZeroRun groups start 2) → WritesGroups groups (colons groups)
  /-- Two colons stand for the run. -/
  | elided {start length : Nat} : 2 ≤ length → IsZeroRun groups start length →
      (∀ other count, IsZeroRun groups other count →
        count ≤ length ∧ (count = length → start ≤ other)) →
      WritesGroups groups
        (colons (groups.take start) ++ [':', ':'] ++ colons (groups.drop (start + length)))

/-- The octets in front of an embedded address. -/
def mappedMark : List UInt8 := List.replicate 10 0 ++ [0xFF, 0xFF]

/-- How octets are written as an address. -/
inductive WritesOctets : Family → List UInt8 → List Char → Prop where
  /-- In IPv4 octets are decimal numbers. -/
  | v4 {octets : List UInt8} : WritesOctets .v4 octets (dotted (octets.map UInt8.toNat))
  /-- So are the octets of an embedded address. -/
  | mapped {octets : List UInt8} : WritesOctets .v6 (mappedMark ++ octets)
      ([':', ':', 'f', 'f', 'f', 'f', ':'] ++ dotted (octets.map UInt8.toNat))
  /-- Otherwise two octets make a group. -/
  | v6 {octets : List UInt8} {text : List Char} : ¬ mappedMark <+: octets →
      WritesGroups (groupsOfOctets octets) text → WritesOctets .v6 octets text

/-- Groups are printed as they are written. -/
theorem writesGroups_compressed (groups : List Nat) : WritesGroups groups (compressed groups) := by
  rcases hrun : longestZeroRun groups with ⟨start, length⟩
  simp only [compressed, hrun]
  split
  · next hlong =>
    exact .elided hlong (isZeroRun_longestZeroRun hrun) fun _ _ => longestZeroRun_longest hrun
  · next hshort =>
    refine .all fun other hzeros => hshort ?_
    exact (longestZeroRun_longest hrun hzeros).1

/-- The octets of an IPv6 address are those of its upper 96 bits and four more. -/
theorem octets_eq_append (a : Address .v6) :
    a.octets = (Radix.digits 256 12 (a.toNat / 2 ^ (32 : Nat))).map UInt8.ofNat ++
      (Radix.digits 256 4 a.toNat).map UInt8.ofNat := by
  have hpow : (256 : Nat) ^ 4 = 2 ^ (32 : Nat) := by decide
  rw [octets, ← List.map_append, ← hpow, ← Radix.digits_add]

/-- The mark has the digits of the upper 96 bits of an embedded address. -/
theorem mappedMark_eq : mappedMark = (Radix.digits 256 12 0xFFFF).map UInt8.ofNat := by
  decide

/-- An address embeds another one exactly if its octets begin with the mark. -/
theorem mappedMark_prefix_iff {a : Address .v6} :
    mappedMark <+: a.octets ↔ a.isMapped = true := by
  have hlt : a.toNat / 2 ^ (32 : Nat) < 256 ^ 12 :=
    Nat.div_lt_of_lt_mul a.toNat_lt
  constructor
  · rintro ⟨octets, happend⟩
    rw [octets_eq_append, mappedMark_eq] at happend
    obtain ⟨hmark, _⟩ := List.append_inj happend (by simp [Radix.length_digits])
    have hdigits := congrArg (List.map UInt8.toNat) hmark
    rw [map_toNat_map_ofNat fun _ => Radix.lt_of_mem_digits (by decide),
      map_toNat_map_ofNat fun _ => Radix.lt_of_mem_digits (by decide)] at hdigits
    have hmod := Radix.mod_eq_of_digits_eq hdigits
    rw [Nat.mod_eq_of_lt hlt] at hmod
    exact decide_eq_true hmod.symm
  · intro hmapped
    have hupper : a.toNat / 2 ^ (32 : Nat) = 0xFFFF := of_decide_eq_true hmapped
    rw [octets_eq_append, hupper, ← mappedMark_eq]
    exact List.prefix_append _ _

/-- An address is printed as its octets are written. -/
theorem writesOctets_chars {family : Family} (a : Address family) :
    WritesOctets family a.octets a.chars := by
  cases family with
  | v4 =>
    have hdigits : a.octets.map UInt8.toNat = Radix.digits 256 4 a.toNat := map_toNat_octets a
    rw [chars, ← hdigits]
    exact .v4
  | v6 =>
    rw [chars]
    split
    · next hmapped =>
      have hupper : a.toNat / 2 ^ (32 : Nat) = 0xFFFF := of_decide_eq_true hmapped
      have hwrites : WritesOctets .v6
          (mappedMark ++ (Radix.digits 256 4 a.toNat).map UInt8.ofNat) _ := .mapped
      rw [map_toNat_map_ofNat fun _ => Radix.lt_of_mem_digits (by decide)] at hwrites
      rw [octets_eq_append, hupper, ← mappedMark_eq]
      exact hwrites
    · next hother =>
      refine .v6 (mt mappedMark_prefix_iff.mp hother) ?_
      rw [groupsOfOctets_octets]
      exact writesGroups_compressed a.groups

/-! ## Reading the text back -/

/-- The text of an address is read back as the address, by way of its octets too, and no other
address of the family has the text. -/
theorem ofText?_text_and_text_inj {family : Family} (a : Address family) :
    ofText? family a.text = some a ∧ (∀ b : Address family, b.text = a.text ↔ b = a) ∧
      WritesOctets family a.octets a.text.toList ∧
      octetsOfChars? family a.text.toList = some a.octets ∧ ofOctets? a.octets = some a := by
  have hread : ofChars? .strict family a.chars = some a := ofChars?_chars Spelling.known_strict a
  have hoctets : octetsOfChars? family a.chars = some a.octets := by
    obtain ⟨octets, hfound, hsame⟩ : ∃ octets, octetsOfChars? family a.chars = some octets ∧
        ofOctets? octets = some a := by
      rwa [ofChars?_eq_bind_ofOctets?, Option.bind_eq_some_iff] at hread
    rw [hfound, ofOctets?_eq_some_iff.mp hsame]
  have htext : a.text.toList = a.chars := String.toList_ofList
  rw [htext]
  refine ⟨?_, fun b => ?_, writesOctets_chars a, hoctets, ofOctets?_eq_some_iff.mpr rfl⟩
  · rw [ofText?, htext]
    exact hread
  · rw [text, text, String.ofList_inj]
    exact chars_inj

/-- Of two runs of the same length the first is left out: the same signs with the second left out
are read as the same address, which is never printed so. -/
theorem ofText?_text_of_two_runs :
    (ofHalves 0x0001000000000002 0x0000000000030004).text = "1::2:0:0:3:4" ∧
      ofText? .v6 "1:0:0:2::3:4" = some (ofHalves 0x0001000000000002 0x0000000000030004) ∧
      ofText? .v6 "1::2:0:0:3:4" = some (ofHalves 0x0001000000000002 0x0000000000030004) := by
  have htext : (ofHalves 0x0001000000000002 0x0000000000030004).text = "1::2:0:0:3:4" := by
    decide +kernel
  refine ⟨htext, by decide +kernel, ?_⟩
  rw [← htext]
  exact (ofText?_text_and_text_inj _).1

end AccessList.Address
