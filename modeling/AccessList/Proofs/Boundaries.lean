import AccessList.Proofs.Compilation
import Mathlib.Data.List.Perm.Subperm

/-!
# Boundaries

The boundaries of a table are the first address and the addresses at which the answer changes.
No list of regions that gives the same answers is shorter: it needs a region for every boundary.
-/

namespace AccessList

variable {family : Family}

namespace LookupTable

open Region (Before)

variable {set : IntervalSet family} {defaultAction : Action}

/-- A region that a table was made of gives the answer for the addresses that it holds. -/
theorem lookup_ofSet_of_mem_filled (hord : set.entries.Pairwise Before) {r : Region family}
    (hr : r ∈ filled set defaultAction) {a : Address family} (ha : a ∈ r.range) :
    (ofSet set defaultAction).lookup a = r.action := by
  have hlookup := find?_filled_eq_lookup hord defaultAction a
  rw [Region.find?_eq_some_of_mem (isNormal_filled hord defaultAction).ordered hr ha] at hlookup
  exact (Option.some_inj.mp hlookup).symm

/-- Every address is in a region that the table was made of. -/
theorem exists_mem_filled (hord : set.entries.Pairwise Before) (defaultAction : Action)
    (a : Address family) : ∃ r ∈ filled set defaultAction, a ∈ r.range := by
  obtain ⟨r, hr, hmem, _⟩ := Region.exists_of_find?_eq_some (find?_filled hord defaultAction a)
  exact ⟨r, hr, hmem⟩

/-- At a boundary other than the first address the answer changes. -/
theorem lookup_ne_of_mem_boundaries (hord : set.entries.Pairwise Before) {a : Address family}
    (ha : a ∈ (ofSet set defaultAction).boundaries) :
    a = .first ∨ ∃ p, a.prev? = some p ∧
      (ofSet set defaultAction).lookup a ≠ (ofSet set defaultAction).lookup p := by
  have hsep := (isNormal_filled hord defaultAction).separate
  have hcovers := covers_filled hord defaultAction
  rw [boundaries_ofSet] at ha
  obtain ⟨r, hr, rfl⟩ := List.mem_map.mp ha
  rcases IntervalSet.eq_or_exists_follows hsep hcovers hr with hfirst | ⟨s, hs, hnext, hturn⟩
  · exact .inl hfirst
  · right
    have hstep := Address.next?_eq_some_iff.mp hnext
    refine ⟨s.range.hi, Address.prev?_eq_some_iff.mpr hstep.symm, ?_⟩
    rw [lookup_ofSet_of_mem_filled hord hr r.range.lo_mem,
      lookup_ofSet_of_mem_filled hord hs s.range.hi_mem]
    exact hturn.symm

/-- Where the answer changes, a region starts, for one that starts earlier holds the address before
as well and gives both the same answer. -/
theorem mem_boundaries_of_lookup_ne (hord : set.entries.Pairwise Before) {a p : Address family}
    (hprev : a.prev? = some p)
    (hne : (ofSet set defaultAction).lookup a ≠ (ofSet set defaultAction).lookup p) :
    a ∈ (ofSet set defaultAction).boundaries := by
  obtain ⟨r, hr, hlo, hhi⟩ := exists_mem_filled hord defaultAction a
  rw [boundaries_ofSet]
  refine List.mem_map.mpr ⟨r, hr, ?_⟩
  by_contra hstart
  have hstep := Address.prev?_eq_some_iff.mp hprev
  have hmem : p ∈ r.range := by
    have hneq : r.range.lo.toNat ≠ a.toNat := fun heq => hstart (Address.ext_toNat heq)
    simp only [Range.mem_def, Address.le_def] at hlo hhi ⊢
    omega
  apply hne
  rw [lookup_ofSet_of_mem_filled hord hr ⟨hlo, hhi⟩, lookup_ofSet_of_mem_filled hord hr hmem]

/-- The first address is a boundary. -/
theorem first_mem_boundaries (hord : set.entries.Pairwise Before) (defaultAction : Action) :
    .first ∈ (ofSet set defaultAction).boundaries := by
  obtain ⟨r, hr, hlo, _⟩ := exists_mem_filled hord defaultAction .first
  rw [boundaries_ofSet]
  refine List.mem_map.mpr ⟨r, hr, Address.ext_toNat ?_⟩
  rw [Address.le_def, Address.toNat_first] at hlo
  rw [Address.toNat_first]
  omega

/-- The boundaries of a table are the first address and the addresses at which the answer
changes. -/
theorem mem_boundaries_ofSet_iff (hord : set.entries.Pairwise Before) {a : Address family} :
    a ∈ (ofSet set defaultAction).boundaries ↔
      a = .first ∨ ∃ p, a.prev? = some p ∧
        (ofSet set defaultAction).lookup a ≠ (ofSet set defaultAction).lookup p := by
  constructor
  · exact lookup_ne_of_mem_boundaries hord
  · rintro (rfl | ⟨p, hprev, hne⟩)
    · exact first_mem_boundaries hord defaultAction
    · exact mem_boundaries_of_lookup_ne hord hprev hne

/-- Two boundaries are never in one region that gives the answers of the table: right before the
higher one the answer is another. -/
theorem not_mem_of_lt_of_mem_boundaries (hord : set.entries.Pairwise Before)
    {part : Region family}
    (hpart : ∀ a ∈ part.range, (ofSet set defaultAction).lookup a = part.action)
    {low high : Address family} (hlt : low < high) (hlow : low ∈ part.range)
    (hhigh : high ∈ (ofSet set defaultAction).boundaries) : high ∉ part.range := by
  intro hmem
  rw [Address.lt_def] at hlt
  rcases lookup_ne_of_mem_boundaries hord hhigh with rfl | ⟨p, hprev, hne⟩
  · simp at hlt
  · have hstep := Address.prev?_eq_some_iff.mp hprev
    have hp : p ∈ part.range := by
      simp only [Range.mem_def, Address.le_def] at hlow hmem ⊢
      omega
    exact hne ((hpart high hmem).trans (hpart p hp).symm)

/-- Regions that hold all addresses and give the answers of a table are no fewer than those of the
table: every boundary is in one of them, and no two are in the same one. -/
theorem size_ofSet_le_length (hord : set.entries.Pairwise Before) {parts : List (Region family)}
    (hcover : ∀ a, ∃ part ∈ parts, a ∈ part.range)
    (hanswer : ∀ part ∈ parts, ∀ a ∈ part.range,
      (ofSet set defaultAction).lookup a = part.action) :
    (ofSet set defaultAction).size ≤ parts.length := by
  choose part hpart hmem using hcover
  have hnodup : ((ofSet set defaultAction).boundaries.map part).Nodup := by
    rw [List.Nodup, List.pairwise_map]
    refine (pairwise_boundaries_ofSet hord defaultAction).imp_of_mem ?_
    intro low high _ hhigh hlt heq
    have hnot := not_mem_of_lt_of_mem_boundaries hord (hanswer _ (hpart low)) hlt (hmem low) hhigh
    rw [heq] at hnot
    exact hnot (hmem high)
  have hsubset : (ofSet set defaultAction).boundaries.map part ⊆ parts := by
    intro r hr
    obtain ⟨a, _, rfl⟩ := List.mem_map.mp hr
    exact hpart a
  have hlength := (List.subperm_of_subset hnodup hsubset).length_le
  rwa [List.length_map] at hlength

end LookupTable

namespace Acl

/-- For all rules and default actions and in each family, the boundaries are in strict order and
are the first address and the addresses at which the answer changes. So no regions that hold all
addresses and answer like the access list are fewer, and in particular no partition of the
addresses has fewer parts. -/
theorem boundaries_ofRules_least (rules : List Rule) (defaultAction : Action) (family : Family) :
    let acl := ofRules rules defaultAction
    let table := acl.table family
    table.boundaries.Pairwise (· < ·) ∧
      (∀ a : Address family, a ∈ table.boundaries ↔
        a = .first ∨ ∃ p, a.prev? = some p ∧ acl.lookup (.of a) ≠ acl.lookup (.of p)) ∧
      ∀ parts : List (Region family), (∀ a, ∃ part ∈ parts, a ∈ part.range) →
        (∀ part ∈ parts, ∀ a ∈ part.range, acl.lookup (.of a) = part.action) →
        table.size ≤ parts.length := by
  have hord : (completed family rules { defaultAction }).entries.Pairwise Region.Before :=
    (isNormal_completed rules _).ordered
  simp only [lookup_of, table_ofRules]
  refine ⟨LookupTable.pairwise_boundaries_ofSet hord _, fun a => ?_, fun parts hcover hanswer => ?_⟩
  · exact LookupTable.mem_boundaries_ofSet_iff hord
  · exact LookupTable.size_ofSet_le_length hord hcover hanswer

/-- One denied block inside the addresses makes three parts: what is below the block, the block, and
what is above it. The answer changes where the block begins and right above its end, so these two
addresses are boundaries besides the first one, and no fewer than three parts answer alike. -/
theorem boundaries_ofRules_least_of_one_block :
    let rules : List Rule := [⟨.v4 ⟨.ofNat 0x0A000000, 8, by decide⟩, .deny⟩]
    let acl := ofRules rules .allow
    let below : Region .v4 := ⟨⟨.first, .ofNat 0x09FFFFFF, by decide⟩, .allow⟩
    let block : Region .v4 := ⟨⟨.ofNat 0x0A000000, .ofNat 0x0AFFFFFF, by decide⟩, .deny⟩
    let above : Region .v4 := ⟨⟨.ofNat 0x0B000000, .last, by decide⟩, .allow⟩
    let parts := [below, block, above]
    (∀ a, ∃ part ∈ parts, a ∈ part.range) ∧
      (∀ part ∈ parts, ∀ a ∈ part.range, acl.lookup (.of a) = part.action) ∧
      (acl.table .v4).size ≤ parts.length ∧
      (acl.table .v4).boundaries = [.first, block.range.lo, above.range.lo] ∧
      acl.lookup (.of block.range.lo) ≠ acl.lookup (.of below.range.hi) ∧
      acl.lookup (.of above.range.lo) ≠ acl.lookup (.of block.range.hi) ∧
      ∀ others : List (Region .v4), (∀ a, ∃ part ∈ others, a ∈ part.range) →
        (∀ part ∈ others, ∀ a ∈ part.range, acl.lookup (.of a) = part.action) →
        parts.length ≤ others.length := by
  intro rules acl below block above parts
  have hord : (completed .v4 rules {}).entries.Pairwise Region.Before :=
    (isNormal_completed rules {}).ordered
  have hfilled : LookupTable.filled (completed .v4 rules {}) .allow = parts := by decide +kernel
  have hcover : ∀ a, ∃ part ∈ parts, a ∈ part.range := fun a => by
    rw [← hfilled]
    exact LookupTable.exists_mem_filled hord .allow a
  have hanswer : ∀ part ∈ parts, ∀ a ∈ part.range, acl.lookup (.of a) = part.action := by
    intro part hpart a ha
    rw [← hfilled] at hpart
    rw [lookup_of, table_ofRules]
    exact LookupTable.lookup_ofSet_of_mem_filled hord hpart ha
  have hboundaries : (acl.table .v4).boundaries = [.first, block.range.lo, above.range.lo] := by
    rw [table_ofRules, LookupTable.boundaries_ofSet, hfilled]
    rfl
  have hsize : (acl.table .v4).size = parts.length := congrArg List.length hboundaries
  obtain ⟨_, hchange, hleast⟩ := boundaries_ofRules_least rules .allow .v4
  have hturn : ∀ a ∈ [block.range.lo, above.range.lo], ∀ p, a.prev? = some p →
      acl.lookup (.of a) ≠ acl.lookup (.of p) := by
    intro a ha p hprev
    have hmem : a ∈ (acl.table .v4).boundaries := hboundaries ▸ List.mem_cons_of_mem _ ha
    rcases (hchange a).mp hmem with rfl | ⟨q, hq, hne⟩
    · cases hprev
    · rwa [Option.some_inj.mp (hprev.symm.trans hq)]
  refine ⟨hcover, hanswer, hleast parts hcover hanswer, hboundaries, ?_, ?_, ?_⟩
  · exact hturn block.range.lo (by decide) below.range.hi (by decide)
  · exact hturn above.range.lo (by decide) block.range.hi (by decide)
  · intro others hothers hsame
    exact hsize ▸ hleast others hothers hsame

end Acl
end AccessList
