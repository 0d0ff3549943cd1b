import AccessList.Proofs.Boundaries
import AccessList.Proofs.InsertionLaws
import Mathlib.Data.Finset.Max

/-!
# Where boundaries come from

The answers of a list of regions change only where one of its regions starts or right after one
ends. So every entry of an interval set starts at such an address, and none starts after the
highest end, where nothing is decided any more. This bounds the number of entries, although one
insertion may fill any number of gaps, and with the default action as one more region it bounds
the size of a table.
-/

namespace AccessList

variable {family : Family}

namespace Region

variable {regions entries : List (Region family)}

/-! ## Where answers change -/

/-- Addresses that the same regions of a list hold get the same answer from it. -/
theorem find?_congr {a b : Address family} (h : ∀ r ∈ regions, a ∈ r.range ↔ b ∈ r.range) :
    find? regions a = find? regions b := by
  induction regions with
  | nil => rfl
  | cons r regions ih =>
    obtain ⟨hr, hlater⟩ := List.forall_mem_cons.mp h
    simp only [find?_cons, hr, ih hlater]

/-- Where the answer changes from one address to the next, a region starts or the last one
ended. -/
theorem exists_lo_eq_or_next?_eq_of_find?_ne {p a : Address family} (hnext : p.next? = some a)
    (hne : find? regions p ≠ find? regions a) :
    ∃ r ∈ regions, r.range.lo = a ∨ r.range.hi.next? = some a := by
  by_contra hnone
  push Not at hnone
  refine hne (find?_congr fun r hr => ?_)
  obtain ⟨hlo, hhi⟩ := hnone r hr
  have hlo : r.range.lo.toNat ≠ a.toNat := fun heq => hlo (Address.ext_toNat heq)
  have hhi : a.toNat ≠ r.range.hi.toNat + 1 := fun heq => hhi (Address.next?_eq_some_iff.mpr heq)
  have hstep := Address.next?_eq_some_iff.mp hnext
  simp only [Range.mem_def, Address.le_def]
  omega

/-- The start of a run of answers is an address of one of the regions. -/
theorem IsRun.exists_lo_mem {r : Region family} (hr : IsRun (find? regions) r) :
    ∃ s ∈ regions, r.range.lo ∈ s.range := by
  obtain ⟨s, hs, hmem, _⟩ := exists_of_find?_eq_some (hr.inside _ r.range.lo_mem)
  exact ⟨s, hs, hmem⟩

/-- A run of answers starts where a region starts or right after one ends. At the first address only
the former can be, as only a region that starts there holds it. -/
theorem IsRun.exists_lo_eq_or_next?_eq {r : Region family} (hr : IsRun (find? regions) r) :
    ∃ s ∈ regions, s.range.lo = r.range.lo ∨ s.range.hi.next? = some r.range.lo := by
  cases hprev : r.range.lo.prev? with
  | none =>
    have hfirst := Address.prev?_eq_none_iff.mp hprev
    obtain ⟨s, hs, hmem⟩ := hr.exists_lo_mem
    refine ⟨s, hs, .inl (Address.ext_toNat ?_)⟩
    have hlo := Address.le_def.mp hmem.1
    rw [hfirst, Address.toNat_first] at hlo ⊢
    omega
  | some p =>
    have hstep := Address.prev?_eq_some_iff.mp hprev
    apply exists_lo_eq_or_next?_eq_of_find?_ne (Address.next?_eq_some_iff.mpr hstep.symm)
    rw [hr.inside _ r.range.lo_mem]
    exact hr.below p hprev

/-! ## Counting -/

/-- Of regions, if there are any, one ends highest. -/
theorem exists_forall_hi_le (hne : regions ≠ []) :
    ∃ top ∈ regions, ∀ r ∈ regions, r.range.hi ≤ top.range.hi := by
  obtain ⟨top, htop, hmax⟩ := Finset.exists_max_image regions.toFinset (·.range.hi.toNat)
    (List.toFinset_nonempty_iff regions |>.mpr hne)
  exact ⟨top, List.mem_toFinset.mp htop, fun r hr => hmax r (List.mem_toFinset.mpr hr)⟩

/-- The addresses at which answers can start: the starts of regions, and what comes right after
the end of a region other than the given one. -/
def startsExcept (top : Region family) (regions : List (Region family)) : List (Address family) :=
  regions.map (·.range.lo) ++ (regions.erase top).filterMap (·.range.hi.next?)

/-- There are two addresses for each region at most, and one less in all, because the region left
out has a start only. -/
theorem length_startsExcept_le {top : Region family} (htop : top ∈ regions) :
    (startsExcept top regions).length ≤ 2 * regions.length - 1 := by
  have hends := List.length_filterMap_le (fun r : Region family => r.range.hi.next?)
    (regions.erase top)
  have herase := List.length_erase_of_mem htop
  rw [startsExcept, List.length_append, List.length_map]
  omega

/-- No run of answers starts right after the highest end. -/
theorem IsRun.lo_mem_startsExcept {top r : Region family}
    (hmax : ∀ s ∈ regions, s.range.hi ≤ top.range.hi) (hr : IsRun (find? regions) r) :
    r.range.lo ∈ startsExcept top regions := by
  obtain ⟨s, hs, hlo | hnext⟩ := hr.exists_lo_eq_or_next?_eq
  · exact List.mem_append_left _ (List.mem_map.mpr ⟨s, hs, hlo⟩)
  · have hne : s ≠ top := by
      rintro rfl
      obtain ⟨t, ht, hmem⟩ := hr.exists_lo_mem
      have hhi := Address.le_def.mp hmem.2
      have htop := Address.le_def.mp (hmax t ht)
      have hstep := Address.next?_eq_some_iff.mp hnext
      omega
    have hs : s ∈ regions.erase top := (List.mem_erase_of_ne hne).mpr hs
    exact List.mem_append_right _ (List.mem_filterMap.mpr ⟨s, hs, hnext⟩)

/-- No two regions of an ordered list start at the same address. -/
theorem nodup_map_lo (hord : entries.Pairwise Before) : (entries.map (·.range.lo)).Nodup := by
  rw [List.Nodup, List.pairwise_map]
  refine hord.imp fun {r s} hbefore heq => ?_
  have hlt := Address.lt_def.mp hbefore.lo_lt_lo
  rw [heq] at hlt
  exact Nat.lt_irrefl _ hlt

/-- A list in normal form that answers like some regions has at most two entries for each of them,
less one. -/
theorem IsNormal.length_le (h : IsNormal entries)
    (hanswers : ∀ a, find? entries a = find? regions a) :
    entries.length ≤ 2 * regions.length - 1 := by
  rcases eq_or_ne regions [] with rfl | hregions
  · cases entries with
    | nil => simp
    | cons entry later =>
      have hanswer := hanswers entry.range.lo
      simp [find?_cons, entry.range.lo_mem] at hanswer
  · obtain ⟨top, htop, hmax⟩ := exists_forall_hi_le hregions
    have hsubset : entries.map (·.range.lo) ⊆ startsExcept top regions := by
      intro a ha
      obtain ⟨r, hr, rfl⟩ := List.mem_map.mp ha
      have hrun := h.isRun_of_mem hr
      rw [funext hanswers] at hrun
      exact hrun.lo_mem_startsExcept hmax
    have hlength := (List.subperm_of_subset (nodup_map_lo h.ordered) hsubset).length_le
    rw [List.length_map] at hlength
    exact hlength.trans (length_startsExcept_le htop)

end Region

namespace IntervalSet

/-- A run of insertions into an empty set answers like the regions read from the top. -/
theorem find?_entries_insertAll (traced : Bool) (regions : List (Region family))
    (a : Address family) :
    Region.find? (insertAll { traced } regions).entries a = Region.find? regions a :=
  find?_insertAll .nil regions a

/-- Insertions leave at most two entries for each region, less one. -/
theorem size_insertAll_le (traced : Bool) (regions : List (Region family)) :
    (insertAll { traced } regions).size ≤ 2 * regions.length - 1 :=
  (isNormal_insertAll (isNormal_empty traced) regions).length_le
    (find?_entries_insertAll traced regions)

/-- The bound is reached where one region leaves gaps on both sides for another. -/
example : (insertAll {} [⟨.single (.ofNat 7), .deny⟩, (.full .allow : Region .v4)]).size = 3 := by
  decide

/-- After insertions every entry starts where a region starts or right after one ends. -/
theorem exists_lo_eq_or_next?_eq_of_mem_insertAll {traced : Bool} {regions : List (Region family)}
    {entry : Region family} (hentry : entry ∈ (insertAll { traced } regions).entries) :
    ∃ r ∈ regions, r.range.lo = entry.range.lo ∨ r.range.hi.next? = some entry.range.lo := by
  have hrun := (isNormal_insertAll (isNormal_empty traced) regions).isRun_of_mem hentry
  rw [funext (find?_entries_insertAll traced regions)] at hrun
  exact hrun.exists_lo_eq_or_next?_eq

end IntervalSet

/-! ## Compiled rules -/

namespace Rule

/-- The regions of a family come from the rules. -/
theorem mem_regions_iff {rules : List Rule} {region : Region family} :
    region ∈ regions family rules ↔ ∃ rule ∈ rules, rule.region = .of region := by
  rw [regions, List.mem_filterMap]
  simp only [EitherFamily.within?_eq_some_iff]

/-- There are as many regions of a family as rules with a target of that family. -/
theorem length_regions (family : Family) (rules : List Rule) :
    (regions family rules).length = rules.countP (·.target.family = family) := by
  rw [regions, List.length_filterMap_eq_countP]
  refine List.countP_congr fun rule _ => ?_
  obtain ⟨target, action⟩ := rule
  cases family <;> cases target <;>
    simp [region, EitherFamily.map, EitherFamily.within?, EitherFamily.family]

end Rule

namespace Acl

/-- What the rules decide, with the default action for the rest, is a run of insertions whose last
region holds all addresses. -/
theorem completed_eq_insertAll (rules : List Rule) (settings : Settings) :
    completed family rules settings = IntervalSet.insertAll { traced := settings.traceInserts }
      (Rule.regions family rules ++ [.full settings.defaultAction]) := by
  rw [IntervalSet.insertAll, List.foldl_append]
  rfl

/-- Once the default action decides the rest, deciding it again adds nothing. -/
theorem filled_completed (rules : List Rule) (settings : Settings) :
    LookupTable.filled (completed family rules settings) settings.defaultAction =
      (completed family rules settings).entries := by
  refine IntervalSet.entries_insert_of_decided (isNormal_completed rules settings) fun a _ => ?_
  rw [completed, IntervalSet.find?_insert_full (isNormal_decided rules settings).ordered]
  exact Option.some_ne_none _

/-- The boundaries of a family are the starts of the entries once all is decided. -/
theorem boundaries_ofRules (rules : List Rule) (defaultAction : Action) :
    ((ofRules rules defaultAction).table family).boundaries =
      (completed family rules { defaultAction }).entries.map (·.range.lo) := by
  rw [table_ofRules, LookupTable.boundaries_ofSet]
  exact congrArg _ (filled_completed rules { defaultAction })

/-- A boundary other than the first address is the start of a region of the rules or comes right
after the end of one. The region of all addresses adds none, because it starts at the first address
and nothing comes after its end. -/
theorem eq_first_or_exists_of_mem_boundaries_ofRules {rules : List Rule} {defaultAction : Action}
    {a : Address family} (ha : a ∈ ((ofRules rules defaultAction).table family).boundaries) :
    a = .first ∨ ∃ region ∈ Rule.regions family rules,
      region.range.lo = a ∨ region.range.hi.next? = some a := by
  rw [boundaries_ofRules, completed_eq_insertAll] at ha
  obtain ⟨entry, hentry, rfl⟩ := List.mem_map.mp ha
  obtain ⟨region, hregion, horigin⟩ :=
    IntervalSet.exists_lo_eq_or_next?_eq_of_mem_insertAll hentry
  rcases List.mem_append.mp hregion with hregion | hregion
  · exact .inr ⟨region, hregion, horigin⟩
  · obtain rfl := List.mem_singleton.mp hregion
    rcases horigin with hlo | hnext
    · exact .inl hlo.symm
    · have hlast : (Range.full : Range family).hi.next? = none := Address.next?_eq_none_iff.mpr rfl
      cases hlast.symm.trans hnext

/-- A table has at most two regions for each rule of its family, and one more. -/
theorem size_table_ofRules_le (rules : List Rule) (defaultAction : Action) (family : Family) :
    ((ofRules rules defaultAction).table family).size ≤
      2 * rules.countP (·.target.family = family) + 1 := by
  calc ((ofRules rules defaultAction).table family).size
      = ((ofRules rules defaultAction).table family).boundaries.length := rfl
    _ = (completed family rules { defaultAction }).size := by
        rw [boundaries_ofRules, List.length_map]
        rfl
    _ ≤ 2 * (Rule.regions family rules ++ [Region.full defaultAction]).length - 1 := by
        rw [completed_eq_insertAll]
        exact IntervalSet.size_insertAll_le _ _
    _ = 2 * rules.countP (·.target.family = family) + 1 := by
        rw [List.length_append, Rule.length_regions, List.length_singleton]
        omega

/-- For all rules and default actions and in each family, a boundary is the first address, the
start of the region of a rule or the address right after the end of one, and with `n` rules of the
family there are at most `2 * n + 1` boundaries. Likewise insertions of `n` regions, of any regions
at all, leave at most `2 * n - 1` entries. -/
theorem boundaries_ofRules_origin_and_size (rules : List Rule) (defaultAction : Action)
    (family : Family) :
    let table := (ofRules rules defaultAction).table family
    (∀ a ∈ table.boundaries, a = .first ∨
        ∃ rule ∈ rules, ∃ region : Region family, rule.region = .of region ∧
          (region.range.lo = a ∨ region.range.hi.next? = some a)) ∧
      table.size ≤ 2 * rules.countP (·.target.family = family) + 1 ∧
      ∀ (traced : Bool) (regions : List (Region family)),
        (IntervalSet.insertAll { traced } regions).size ≤ 2 * regions.length - 1 := by
  intro table
  refine ⟨fun a ha => ?_, size_table_ofRules_le rules defaultAction family,
    IntervalSet.size_insertAll_le⟩
  rcases eq_first_or_exists_of_mem_boundaries_ofRules ha with hfirst | ⟨region, hregion, horigin⟩
  · exact .inl hfirst
  · obtain ⟨rule, hrule, heq⟩ := Rule.mem_regions_iff.mp hregion
    exact .inr ⟨rule, hrule, region, heq, horigin⟩

/-- One denied block makes as long a table as one rule can: the boundaries are the first address,
the start of the block and the address right after its end. -/
theorem boundaries_ofRules_of_one_block :
    let rules : List Rule := [⟨.v4 ⟨.ofNat 8, 30, by decide⟩, .deny⟩]
    let table := (ofRules rules .allow).table .v4
    table.boundaries = [.first, .ofNat 8, .ofNat 12] ∧ table.size ≤ 3 ∧
      ∃ rule ∈ rules, ∃ region : Region .v4, rule.region = .of region ∧
        (region.range.lo = .ofNat 12 ∨ region.range.hi.next? = some (.ofNat 12)) := by
  intro rules table
  have hboundaries : table.boundaries = [.first, .ofNat 8, .ofNat 12] := by decide +kernel
  obtain ⟨horigin, hsize, _⟩ := boundaries_ofRules_origin_and_size rules .allow .v4
  refine ⟨hboundaries, hsize, (horigin (.ofNat 12) ?_).resolve_left (by decide)⟩
  rw [hboundaries]
  decide

end Acl
end AccessList
