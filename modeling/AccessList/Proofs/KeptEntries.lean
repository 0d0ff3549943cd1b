import AccessList.Proofs.CanonicalForm

/-!
# What becomes of the entries

An insertion can make an entry longer on either side, and it can close the gap between two entries
so that both become one. It does nothing else to the entries: each of them ends up as a part of
exactly one entry, which has its action. One that the region does not reach stays as it is.
-/

namespace AccessList

variable {family : Family}

/-! ## Ranges apart -/

namespace Range

variable {r s : Range family}

/-- The address right below a range is not in another one that neither overlaps it nor is its
neighbour, for that one would have to end there. -/
theorem notMem_of_prev?_eq_some (hover : r.overlaps s = false) (htouch : r.isNeighbor s = false)
    {p : Address family} (hprev : r.lo.prev? = some p) : p ∉ s := by
  intro hmem
  have hstep := Address.prev?_eq_some_iff.mp hprev
  have hlo : r.lo ∉ s := fun hlo => Bool.eq_false_iff.mp hover (overlaps_iff.mpr ⟨_, r.lo_mem, hlo⟩)
  simp only [mem_def, Address.le_def] at hmem hlo
  have hnext : s.hi.next? = some r.lo := Address.next?_eq_some_iff.mpr (by omega)
  simp [isNeighbor, hnext] at htouch

/-- The address right above a range is not in another one that neither overlaps it nor is its
neighbour, for that one would have to begin there. -/
theorem notMem_of_next?_eq_some (hover : r.overlaps s = false) (htouch : r.isNeighbor s = false)
    {n : Address family} (hnext : r.hi.next? = some n) : n ∉ s := by
  intro hmem
  have hstep := Address.next?_eq_some_iff.mp hnext
  have hhi : r.hi ∉ s := fun hhi => Bool.eq_false_iff.mp hover (overlaps_iff.mpr ⟨_, r.hi_mem, hhi⟩)
  simp only [mem_def, Address.le_def] at hmem hhi
  obtain rfl : n = s.lo := Address.ext_toNat (by omega)
  simp [isNeighbor, hnext] at htouch

end Range

namespace Region

variable {regions : List (Region family)} {s : Range family} {action : Action}

/-- A run holds all addresses in a row that get its action, if it holds one of them. -/
theorem IsRun.contains {answers : Address family → Option Action} {r : Region family}
    (hr : IsRun answers r) (hs : ∀ a ∈ s, answers a = some r.action) {a : Address family}
    (har : a ∈ r.range) (has : a ∈ s) : r.range.contains s = true :=
  Range.contains_iff.mpr fun _ hb =>
    ⟨Nat.le_trans (hr.lo_le_lo hs har has) hb.1, Nat.le_trans hb.2 (hr.hi_le_hi hs har has)⟩

/-- In normal form, addresses in a row that get one action are all in one region, which has that
action, and in no other one. -/
theorem IsNormal.exists_filter_contains_eq_singleton (h : IsNormal regions)
    (hs : ∀ a ∈ s, find? regions a = some action) :
    ∃ r, regions.filter (·.range.contains s) = [r] ∧ r.action = action := by
  obtain ⟨r, hr, hmem, rfl⟩ := exists_of_find?_eq_some (hs s.lo s.lo_mem)
  have hcontains : r.range.contains s = true := (h.isRun_of_mem hr).contains hs hmem s.lo_mem
  refine ⟨r, ?_, rfl⟩
  calc regions.filter (·.range.contains s)
      = (regions.filter (s.lo ∈ ·.range)).filter (·.range.contains s) := by
        rw [List.filter_filter]
        refine List.filter_congr fun t _ => ?_
        cases ht : t.range.contains s with
        | false => rfl
        | true => simpa using Range.contains_iff.mp ht s.lo s.lo_mem
    _ = [r].filter (·.range.contains s) := by rw [filter_mem_eq_singleton h.ordered hr hmem]
    _ = [r] := List.filter_eq_self.mpr fun t ht => (List.mem_singleton.mp ht).symm ▸ hcontains

end Region

namespace IntervalSet

open Region (IsNormal)

variable {set : IntervalSet family} {entry : Region family}

/-- After any run of insertions every entry is a part of exactly one entry, which has its
action. -/
theorem exists_filter_contains_eq_singleton (hset : IsNormal set.entries)
    (hentry : entry ∈ set.entries) (regions : List (Region family)) :
    ∃ grown, (set.insertAll regions).entries.filter (·.range.contains entry.range) = [grown] ∧
      grown.action = entry.action :=
  (isNormal_insertAll hset regions).exists_filter_contains_eq_singleton
    fun _ ha => find?_insertAll_of_mem hset.ordered hentry ha regions

/-- An entry that a region does not reach is still a run of the answers, so it is still there. -/
theorem mem_entries_insert_of_apart (hset : IsNormal set.entries) (hentry : entry ∈ set.entries)
    {incoming : Region family} (hover : entry.range.overlaps incoming.range = false)
    (htouch : entry.range.isNeighbor incoming.range = false) :
    entry ∈ (set.insert incoming).entries := by
  have hrun := hset.isRun_of_mem hentry
  refine (isNormal_insert hset.ordered incoming).mem_iff_isRun.mpr ⟨?_, ?_, ?_⟩
  · exact fun a ha => find?_insertAll_of_mem hset.ordered hentry ha [incoming]
  · intro p hprev
    have hnot := Range.notMem_of_prev?_eq_some hover htouch hprev
    have hsame := find?_insert_of_notMem hset.ordered hnot
    exact fun hanswer => hrun.below p hprev (hsame.symm.trans hanswer)
  · intro n hnext
    have hnot := Range.notMem_of_next?_eq_some hover htouch hnext
    have hsame := find?_insert_of_notMem hset.ordered hnot
    exact fun hanswer => hrun.above n hnext (hsame.symm.trans hanswer)

/-- For every set that insertions lead to and every region inserted, each entry is a part of exactly
one entry afterwards, and that one has its action; so no entry is split, made shorter, given the
other action or dropped. An entry that the region neither overlaps nor touches is there as it
was. -/
theorem entries_insert_keeps (hset : set.Reachable) (incoming : Region family) :
    (∀ entry ∈ set.entries, ∃ grown,
        (set.insert incoming).entries.filter (·.range.contains entry.range) = [grown] ∧
          grown.action = entry.action) ∧
      ∀ entry ∈ set.entries, entry.range.overlaps incoming.range = false →
        entry.range.isNeighbor incoming.range = false → entry ∈ (set.insert incoming).entries :=
  ⟨fun _ hentry => exists_filter_contains_eq_singleton hset.isNormal hentry [incoming],
    fun _ hentry => mem_entries_insert_of_apart hset.isNormal hentry⟩

/-- Two denied entries become one through the gap between them, and an allowed one two addresses
above the region stays as it is. -/
theorem entries_insert_keeps_around_gap :
    let low : Region .v4 := ⟨⟨.ofNat 4, .ofNat 6, by decide⟩, .deny⟩
    let high : Region .v4 := ⟨⟨.ofNat 9, .ofNat 10, by decide⟩, .deny⟩
    let apart : Region .v4 := ⟨⟨.ofNat 12, .ofNat 13, by decide⟩, .allow⟩
    let set : IntervalSet .v4 := IntervalSet.empty.insertAll [low, high, apart]
    let incoming : Region .v4 := ⟨⟨.ofNat 5, .ofNat 10, by decide⟩, .deny⟩
    let fused : Region .v4 := ⟨⟨.ofNat 4, .ofNat 10, by decide⟩, .deny⟩
    set.Reachable ∧ apart ∈ (set.insert incoming).entries ∧
      (set.insert incoming).entries.filter (·.range.contains low.range) = [fused] ∧
      (set.insert incoming).entries.filter (·.range.contains high.range) = [fused] := by
  intro low high apart set incoming fused
  have hset : set.Reachable := .insert _ (.insert _ (.insert _ .empty))
  obtain ⟨hgrown, hapart⟩ := entries_insert_keeps hset incoming
  have hfused : fused ∈ (set.insert incoming).entries := by decide
  have hpart : ∀ entry ∈ set.entries, fused.range.contains entry.range = true →
      (set.insert incoming).entries.filter (·.range.contains entry.range) = [fused] := by
    intro entry hentry hcontains
    obtain ⟨grown, hfilter, _⟩ := hgrown entry hentry
    have hmem : fused ∈ (set.insert incoming).entries.filter (·.range.contains entry.range) :=
      List.mem_filter.mpr ⟨hfused, hcontains⟩
    rw [hfilter, List.mem_singleton] at hmem
    rw [hfilter, hmem]
  exact ⟨hset, hapart apart (by decide) (by decide) (by decide),
    hpart low (by decide) (by decide), hpart high (by decide) (by decide)⟩

end IntervalSet
end AccessList
