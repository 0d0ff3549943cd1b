import AccessList.Proofs.CanonicalForm
import AccessList.Proofs.Compilation
import AccessList.Proofs.RegionText
import AccessList.Proofs.TableRegions

/-!
# Access lists that answer alike

The regions of a table are in normal form, so they depend on its answers only, and with the default
action they are all there is to a table. The text of an access list tells the regions of both
families. So access lists are printed alike exactly when they answer alike, whatever rules they were
compiled from, and they are the same exactly when their default actions agree as well.
-/

namespace AccessList

/-! ## Tables -/

namespace LookupTable

open Region (Before)

variable {family : Family} {set other : IntervalSet family}

/-- The regions of a table answer like the table. -/
theorem find?_regions_ofSet (hset : set.entries.Pairwise Before) (defaultAction : Action)
    (a : Address family) :
    Region.find? (ofSet set defaultAction).regions a =
      some ((ofSet set defaultAction).lookup a) := by
  rw [regions_ofSet hset, find?_filled_eq_lookup hset]

/-- Tables have the same regions exactly when they answer alike. -/
theorem regions_ofSet_eq_iff (hset : set.entries.Pairwise Before)
    (hother : other.entries.Pairwise Before) (defaultAction defaultAction' : Action) :
    (ofSet set defaultAction).regions = (ofSet other defaultAction').regions ↔
      ∀ a, (ofSet set defaultAction).lookup a = (ofSet other defaultAction').lookup a := by
  constructor
  · intro h a
    rw [← Option.some_inj, ← find?_regions_ofSet hset, ← find?_regions_ofSet hother, h]
  · intro hlookup
    rw [regions_ofSet hset, regions_ofSet hother]
    refine (isNormal_filled hset defaultAction).eq_of_find?_eq
      (isNormal_filled hother defaultAction') fun a => ?_
    rw [find?_filled_eq_lookup hset, find?_filled_eq_lookup hother, hlookup]

/-- Tables are the same exactly when they have the same regions and default action. -/
theorem ofSet_eq_iff (hset : set.entries.Pairwise Before)
    (hother : other.entries.Pairwise Before) (defaultAction defaultAction' : Action) :
    ofSet set defaultAction = ofSet other defaultAction' ↔
      (ofSet set defaultAction).regions = (ofSet other defaultAction').regions ∧
        defaultAction = defaultAction' := by
  constructor
  · exact fun h => ⟨congrArg regions h, congrArg LookupTable.defaultAction h⟩
  · rintro ⟨hregions, rfl⟩
    rw [regions_ofSet hset, regions_ofSet hother, filled, filled] at hregions
    simp only [ofSet, hregions]

end LookupTable

/-! ## Access lists -/

namespace Acl

/-- Access lists are the same exactly when they have the same tables and default action. -/
theorem eq_iff {acl other : Acl} :
    acl = other ↔
      (∀ family, acl.table family = other.table family) ∧
        acl.defaultAction = other.defaultAction := by
  constructor
  · rintro rfl
    exact ⟨fun _ => rfl, rfl⟩
  · rintro ⟨htable, hdefault⟩
    obtain ⟨v4, v6, defaultAction⟩ := acl
    obtain ⟨v4', v6', defaultAction'⟩ := other
    obtain rfl : v4 = v4' := htable .v4
    obtain rfl : v6 = v6' := htable .v6
    obtain rfl : defaultAction = defaultAction' := hdefault
    rfl

/-- Access lists answer alike exactly when their tables do in both families. -/
theorem lookup_eq_iff {acl other : Acl} :
    (∀ ip, acl.lookup ip = other.lookup ip) ↔
      ∀ family a, (acl.table family).lookup a = (other.table family).lookup a := by
  constructor
  · intro h family a
    rw [← lookup_of, ← lookup_of, h]
  · intro h ip
    cases ip with
    | v4 a => exact h .v4 a
    | v6 a => exact h .v6 a

/-- Access lists are printed alike exactly when they have the same regions in both families, because
the first bracket in a text is the one behind the regions for IPv4. -/
theorem text_eq_iff {acl other : Acl} :
    acl.text = other.text ↔
      ∀ family, (acl.table family).regions = (other.table family).regions := by
  constructor
  · intro h
    simp only [text, ← String.toList_inj, String.toList_append, List.append_assoc,
      List.append_cancel_left_eq] at h
    obtain ⟨hv4, hlater⟩ := Text.append_cons_inj (Region.bracket_notMem_listText _)
      (Region.bracket_notMem_listText _) h
    have hv6 := List.append_cancel_right (List.append_cancel_left hlater)
    intro family
    cases family with
    | v4 => exact Region.listText_inj.mp (String.toList_inj.mp hv4)
    | v6 => exact Region.listText_inj.mp (String.toList_inj.mp hv6)
  · intro h
    have hv4 : acl.v4.regions = other.v4.regions := h .v4
    have hv6 : acl.v6.regions = other.v6.regions := h .v6
    rw [text, text, hv4, hv6]

/-- Compiled access lists have the same regions exactly when they answer alike. -/
theorem regions_compile_eq_iff (rules rules' : List Rule) (settings settings' : Settings) :
    (∀ family, ((compile rules settings).value.table family).regions =
        ((compile rules' settings').value.table family).regions) ↔
      ∀ ip, (compile rules settings).value.lookup ip =
        (compile rules' settings').value.lookup ip := by
  rw [lookup_eq_iff]
  refine forall_congr' fun family => ?_
  rw [table_compile, table_compile]
  exact LookupTable.regions_ofSet_eq_iff (isNormal_completed rules settings).ordered
    (isNormal_completed rules' settings').ordered _ _

/-- Whatever rules and settings two access lists are compiled from, they are printed alike exactly
when they answer alike for every address of both families, and they are the same exactly when in
addition their default actions are the same. -/
theorem text_eq_and_eq_iff_lookup_eq (rules rules' : List Rule) (settings settings' : Settings) :
    let acl := (compile rules settings).value
    let other := (compile rules' settings').value
    (acl.text = other.text ↔ ∀ ip, acl.lookup ip = other.lookup ip) ∧
      (acl = other ↔
        (∀ ip, acl.lookup ip = other.lookup ip) ∧ acl.defaultAction = other.defaultAction) := by
  intro acl other
  have hregions := regions_compile_eq_iff rules rules' settings settings'
  refine ⟨text_eq_iff.trans hregions, ?_⟩
  rw [eq_iff, ← hregions]
  refine and_congr_left fun hdefault => forall_congr' fun family => ?_
  rw [defaultAction_compile, defaultAction_compile] at hdefault
  rw [table_compile, table_compile, LookupTable.ofSet_eq_iff
    (isNormal_completed rules settings).ordered (isNormal_completed rules' settings').ordered]
  exact and_iff_left hdefault

end Acl
end AccessList
