import AccessList.Proofs.RegionOrder

/-!
# Neighbouring ranges

The tests on two ranges compare their ends only, and yet they speak about all addresses. Ranges are
neighbours exactly if they share no address and together are a range again. The line of addresses
has two ends, so a range at its upper end does not touch one at its lower end.
-/

namespace AccessList.Range

variable {family : Family} {r s t : Range family} {a b c : Address family}

/-- A range has all addresses between two of its own. -/
theorem mem_of_le_of_le (ha : a ∈ t) (hb : b ∈ t) (hac : a ≤ c) (hcb : c ≤ b) : c ∈ t :=
  ⟨Nat.le_trans ha.1 hac, Nat.le_trans hcb hb.2⟩

/-- Ranges that share no address lie one below the other. -/
theorem overlaps_eq_false_iff : r.overlaps s = false ↔ r.hi < s.lo ∨ s.hi < r.lo := by
  rw [overlaps, Bool.and_eq_false_iff, decide_eq_false_iff_not, decide_eq_false_iff_not]
  simp only [Address.le_def, Address.lt_def]
  omega

/-- Two ranges are neighbours exactly when one of them begins right after the other ends. -/
theorem isNeighbor_iff :
    r.isNeighbor s = true ↔ r.hi.next? = some s.lo ∨ s.hi.next? = some r.lo := by
  rw [isNeighbor, Bool.or_eq_true, decide_eq_true_eq, decide_eq_true_eq]

/-- A range that begins right after another ends is above it. -/
theorem hi_lt_lo_of_next? (h : r.hi.next? = some s.lo) : r.hi < s.lo := by
  have hstep := Address.next?_eq_some_iff.mp h
  rw [Address.lt_def]
  omega

/-- Neighbours share no address. -/
theorem overlaps_eq_false_of_isNeighbor (h : r.isNeighbor s = true) : r.overlaps s = false :=
  overlaps_eq_false_iff.mpr ((isNeighbor_iff.mp h).imp hi_lt_lo_of_next? hi_lt_lo_of_next?)

/-- Where a range begins right after another ends, there is a range with the addresses of both. -/
theorem exists_union_of_next? (h : r.hi.next? = some s.lo) :
    ∃ t : Range family, ∀ a, a ∈ t ↔ a ∈ r ∨ a ∈ s := by
  have hjoin : r.join? s ≠ none := fun hnone => join?_eq_none_iff.mp hnone h
  obtain ⟨t, ht⟩ := Option.ne_none_iff_exists'.mp hjoin
  exact ⟨t, fun a => mem_join? ht a⟩

/-- If a range has the addresses of two others and no more, of which one is above the other, then
that one begins right after the other ends: the next address is in the range, hence in one of the
two. -/
theorem next?_eq_of_union (hlt : r.hi < s.lo) (hunion : ∀ a, a ∈ t ↔ a ∈ r ∨ a ∈ s) :
    r.hi.next? = some s.lo := by
  have hhi : r.hi ∈ t := (hunion r.hi).mpr (.inl r.hi_mem)
  have hlo : s.lo ∈ t := (hunion s.lo).mpr (.inr s.lo_mem)
  rw [Address.lt_def] at hlt
  cases hnext : r.hi.next? with
  | none =>
    have hle := Address.le_def.mp s.lo.le_last
    rw [Address.next?_eq_none_iff.mp hnext] at hlt
    omega
  | some next =>
    have hstep := Address.next?_eq_some_iff.mp hnext
    have hbetween : next ∈ t := by
      apply mem_of_le_of_le hhi hlo
      · rw [Address.le_def]
        omega
      · rw [Address.le_def]
        omega
    congr 1
    apply Address.ext_toNat
    rcases (hunion next).mp hbetween with hr | hs
    · have hle := Address.le_def.mp hr.2
      omega
    · have hle := Address.le_def.mp hs.1
      omega

/-- Neighbours are the ranges that share no address and together are a range. -/
theorem isNeighbor_iff_exists_union :
    r.isNeighbor s = true ↔
      r.overlaps s = false ∧ ∃ t : Range family, ∀ a, a ∈ t ↔ a ∈ r ∨ a ∈ s := by
  constructor
  · intro h
    refine ⟨overlaps_eq_false_of_isNeighbor h, ?_⟩
    rcases isNeighbor_iff.mp h with hrs | hsr
    · exact exists_union_of_next? hrs
    · obtain ⟨t, hunion⟩ := exists_union_of_next? hsr
      exact ⟨t, fun a => (hunion a).trans or_comm⟩
  · rintro ⟨hover, t, hunion⟩
    apply isNeighbor_iff.mpr
    rcases overlaps_eq_false_iff.mp hover with hrs | hsr
    · exact .inl (next?_eq_of_union hrs hunion)
    · exact .inr (next?_eq_of_union hsr fun a => (hunion a).trans or_comm)

/-- Neighbours at both ends of the line leave no address between them, so it is not for the ends
that they are neighbours. -/
theorem mem_or_mem_of_isNeighbor (hr : r.hi = .last) (hs : s.lo = .first)
    (h : r.isNeighbor s = true) (a : Address family) : a ∈ r ∨ a ∈ s := by
  obtain ⟨_, t, hunion⟩ := isNeighbor_iff_exists_union.mp h
  have hlast : .last ∈ t := (hunion _).mpr (.inl (hr ▸ r.hi_mem))
  have hfirst : .first ∈ t := (hunion _).mpr (.inr (hs ▸ s.lo_mem))
  exact (hunion a).mp (mem_of_le_of_le hfirst hlast a.first_le a.le_last)

/-- What the tests on two ranges say about addresses. They overlap exactly if they share an address,
and the first contains the second exactly if it has all of its addresses. They are neighbours
exactly if they share no address and there is a range with the addresses of both and no others. So
ranges at the two ends of the line are no neighbours unless they have all addresses together, and
neighbours never overlap. -/
theorem overlaps_contains_isNeighbor_iff (r s : Range family) :
    (r.overlaps s = true ↔ ∃ a, a ∈ r ∧ a ∈ s) ∧
      (r.contains s = true ↔ ∀ a ∈ s, a ∈ r) ∧
      (r.isNeighbor s = true ↔
        (¬ ∃ a, a ∈ r ∧ a ∈ s) ∧ ∃ t : Range family, ∀ a, a ∈ t ↔ a ∈ r ∨ a ∈ s) ∧
      (r.hi = .last → s.lo = .first → r.isNeighbor s = true → ∀ a, a ∈ r ∨ a ∈ s) ∧
      ¬ (r.isNeighbor s = true ∧ r.overlaps s = true) := by
  refine ⟨overlaps_iff, contains_iff, ?_, mem_or_mem_of_isNeighbor, ?_⟩
  · rw [isNeighbor_iff_exists_union, ← overlaps_iff, Bool.not_eq_true]
  · rintro ⟨hneighbor, hover⟩
    rw [overlaps_eq_false_of_isNeighbor hneighbor] at hover
    cases hover

/-- A range at each end of the line, with addresses between them: they are no neighbours. The upper
and the lower half of the line are at its ends as well, but they touch in the middle. -/
theorem overlaps_contains_isNeighbor_iff_at_ends :
    let top : Range .v4 := ⟨.ofNat 0xFFFFFF00, .last, by decide⟩
    let bottom : Range .v4 := ⟨.first, .ofNat 0xFF, by decide⟩
    let upper : Range .v4 := ⟨.ofNat 0x80000000, .last, by decide⟩
    let lower : Range .v4 := ⟨.first, .ofNat 0x7FFFFFFF, by decide⟩
    top.hi = .last ∧ bottom.lo = .first ∧ ¬ top.isNeighbor bottom = true ∧
      upper.isNeighbor lower = true ∧ ∀ a, a ∈ upper ∨ a ∈ lower := by
  intro top bottom upper lower
  obtain ⟨_, _, _, hends, _⟩ := overlaps_contains_isNeighbor_iff top bottom
  obtain ⟨_, _, _, hhalves, _⟩ := overlaps_contains_isNeighbor_iff upper lower
  have hneighbor : upper.isNeighbor lower = true := by decide
  refine ⟨rfl, rfl, fun h => ?_, hneighbor, hhalves rfl rfl hneighbor⟩
  have hbetween := hends rfl rfl h (.ofNat 0xC0000200)
  revert hbetween
  decide

end AccessList.Range
