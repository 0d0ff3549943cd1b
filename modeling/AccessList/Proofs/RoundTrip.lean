import AccessList.Proofs.Equivalence

/-!
# Tables and back

A table keeps less than the entries that it is made of, and they can be told from it all the same.
Its regions are these entries, one for each boundary. They hold every address exactly once, and
where halving looks an address up, it finds the action of the region that holds it.
-/

namespace AccessList

variable {family : Family}

namespace LookupTable

open Region (Before)

variable {set : IntervalSet family}

/-- Every address is in exactly one region of a table, and the table gives it the action of that
region. -/
theorem exists_filter_regions_eq_singleton (hord : set.entries.Pairwise Before)
    (defaultAction : Action) (a : Address family) :
    ∃ r, (ofSet set defaultAction).regions.filter (a ∈ ·.range) = [r] ∧
      (ofSet set defaultAction).lookup a = r.action := by
  obtain ⟨r, hr, ha, haction⟩ :=
    Region.exists_of_find?_eq_some (find?_regions_ofSet hord defaultAction a)
  have hregions : (ofSet set defaultAction).regions.Pairwise Before := by
    rw [regions_ofSet hord]
    exact (isNormal_filled hord defaultAction).ordered
  exact ⟨r, Region.filter_mem_eq_singleton hregions hr ha, haction.symm⟩

/-- For every set that insertions lead to and every default action, the regions of the table are
the entries of the set after the default action has filled the rest, and each boundary starts one
of them. Every address is in exactly one of these regions, and it is looked up as the action of
that region. -/
theorem regions_ofSet_round_trip (hset : set.Reachable) (defaultAction : Action) :
    let table := ofSet set defaultAction
    table.regions = (set.insert (.full defaultAction)).entries ∧
      table.regions.map (·.range.lo) = table.boundaries ∧
      ∀ a, ∃ r, table.regions.filter (a ∈ ·.range) = [r] ∧ table.lookup a = r.action := by
  intro table
  have hord := hset.isNormal.ordered
  have hregions : table.regions = filled set defaultAction := regions_ofSet hord defaultAction
  refine ⟨hregions, ?_, exists_filter_regions_eq_singleton hord defaultAction⟩
  rw [hregions, boundaries_ofSet]

/-- With only the last address denied, the table has a region up to the address before it and one
for it alone, and no other region holds it. -/
theorem regions_ofSet_of_last_denied :
    let set : IntervalSet .v4 := IntervalSet.empty.insert ⟨.single .last, .deny⟩
    let allowed : Region .v4 := ⟨⟨.first, .ofNat 0xFFFFFFFE, by decide⟩, .allow⟩
    let denied : Region .v4 := ⟨.single .last, .deny⟩
    set.Reachable ∧ (ofSet set .allow).regions = [allowed, denied] ∧
      (ofSet set .allow).regions.filter (.last ∈ ·.range) = [denied] ∧
      (ofSet set .allow).lookup .last = .deny := by
  intro set allowed denied
  have hset : set.Reachable := .insert _ .empty
  obtain ⟨hregions, _, hlookup⟩ := regions_ofSet_round_trip hset .allow
  have hentries : (ofSet set .allow).regions = [allowed, denied] := by
    rw [hregions]
    decide
  obtain ⟨r, hfilter, haction⟩ := hlookup .last
  have hlast : (ofSet set .allow).regions.filter (.last ∈ ·.range) = [denied] := by
    rw [hentries]
    decide
  obtain rfl : r = denied := List.singleton_inj.mp (hfilter.symm.trans hlast)
  exact ⟨hset, hentries, hlast, haction⟩

end LookupTable
end AccessList
