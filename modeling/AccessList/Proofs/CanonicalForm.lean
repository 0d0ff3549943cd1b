import AccessList.Proofs.Insertion
import Mathlib.Data.List.Sort

/-!
# Canonical form

The regions of a list in normal form are the longest runs of addresses with one answer. So the
answers of an interval set determine its entries, whatever insertions led to it.
-/

namespace AccessList

variable {family : Family}

namespace Region

/-! ## Runs of one answer -/

/-- A region is a run of answers: its addresses get its action, and the addresses right below and
right above it do not. -/
structure IsRun (answers : Address family → Option Action) (r : Region family) : Prop where
  /-- The addresses of the region get its action. -/
  inside : ∀ a ∈ r.range, answers a = some r.action
  /-- The run begins no earlier. -/
  below : ∀ p, r.range.lo.prev? = some p → answers p ≠ some r.action
  /-- The run goes on no longer. -/
  above : ∀ n, r.range.hi.next? = some n → answers n ≠ some r.action

variable {answers : Address family → Option Action}

/-- Addresses in a row that get the action of a run and share one with it do not begin before
it. -/
theorem IsRun.lo_le_lo {r : Region family} {s : Range family} (hr : IsRun answers r)
    (hs : ∀ a ∈ s, answers a = some r.action) {a : Address family} (har : a ∈ r.range)
    (has : a ∈ s) : r.range.lo ≤ s.lo := by
  simp only [Range.mem_def, Address.le_def] at har has ⊢
  by_contra hlt
  cases hprev : r.range.lo.prev? with
  | none =>
    rw [Address.prev?_eq_none_iff.mp hprev, Address.toNat_first] at hlt
    omega
  | some p =>
    have hstep := Address.prev?_eq_some_iff.mp hprev
    have hmem : p ∈ s := by
      simp only [Range.mem_def, Address.le_def]
      omega
    exact hr.below p hprev (hs p hmem)

/-- Addresses in a row that get the action of a run and share one with it do not end after it. -/
theorem IsRun.hi_le_hi {r : Region family} {s : Range family} (hr : IsRun answers r)
    (hs : ∀ a ∈ s, answers a = some r.action) {a : Address family} (har : a ∈ r.range)
    (has : a ∈ s) : s.hi ≤ r.range.hi := by
  simp only [Range.mem_def, Address.le_def] at har has ⊢
  by_contra hlt
  cases hnext : r.range.hi.next? with
  | none =>
    have hlast := Address.le_def.mp s.hi.le_last
    rw [Address.next?_eq_none_iff.mp hnext] at hlt
    omega
  | some n =>
    have hstep := Address.next?_eq_some_iff.mp hnext
    have hmem : n ∈ s := by
      simp only [Range.mem_def, Address.le_def]
      omega
    exact hr.above n hnext (hs n hmem)

/-- No two runs share an address. -/
theorem IsRun.eq_of_mem {r s : Region family} (hr : IsRun answers r) (hs : IsRun answers s)
    {a : Address family} (har : a ∈ r.range) (has : a ∈ s.range) : r = s := by
  have haction : r.action = s.action :=
    Option.some_inj.mp ((hr.inside a har).symm.trans (hs.inside a has))
  have hrs : ∀ b ∈ s.range, answers b = some r.action := haction ▸ hs.inside
  have hsr : ∀ b ∈ r.range, answers b = some s.action := haction ▸ hr.inside
  have hlo : r.range.lo = s.range.lo :=
    Address.ext_toNat (Nat.le_antisymm (hr.lo_le_lo hrs har has) (hs.lo_le_lo hsr has har))
  have hhi : r.range.hi = s.range.hi :=
    Address.ext_toNat (Nat.le_antisymm (hs.hi_le_hi hsr has har) (hr.hi_le_hi hrs har has))
  exact ext (Range.ext hlo hhi) haction

/-! ## Regions in normal form -/

/-- In normal form all regions that touch differ in action, for they are neighbours in the list: a
region in between leaves no room to touch. -/
theorem IsNormal.pairwise_separate {regions : List (Region family)} (h : IsNormal regions) :
    regions.Pairwise Separate := by
  obtain ⟨hord, hsep⟩ := h
  induction regions with
  | nil => exact .nil
  | cons r regions ih =>
    obtain ⟨hbefore, hord⟩ := List.pairwise_cons.mp hord
    refine List.pairwise_cons.mpr ⟨fun s hs htouch => ?_, ih hord hsep.of_cons⟩
    cases regions with
    | nil => simp at hs
    | cons t regions =>
      rcases List.mem_cons.mp hs with rfl | hs
      · exact (List.isChain_cons_cons.mp hsep).1 htouch
      · have hrt := before_def.mp (hbefore t List.mem_cons_self)
        have hts := before_def.mp ((List.pairwise_cons.mp hord).1 s hs)
        have ht := Address.le_def.mp t.range.lo_le_hi
        have hstep := Address.next?_eq_some_iff.mp htouch
        omega

/-- Two regions of a list in normal form are the same, or one is before the other and separate
from it. -/
theorem IsNormal.eq_or_before {regions : List (Region family)} (h : IsNormal regions)
    {r s : Region family} (hr : r ∈ regions) (hs : s ∈ regions) :
    r = s ∨ (r.Before s ∧ r.Separate s) ∨ (s.Before r ∧ s.Separate r) := by
  have hord := List.pairwise_iff_getElem.mp h.ordered
  have hsep := List.pairwise_iff_getElem.mp h.pairwise_separate
  obtain ⟨i, hi, rfl⟩ := List.mem_iff_getElem.mp hr
  obtain ⟨j, hj, rfl⟩ := List.mem_iff_getElem.mp hs
  rcases Nat.lt_trichotomy i j with hij | rfl | hji
  · exact .inr (.inl ⟨hord i j hi hj hij, hsep i j hi hj hij⟩)
  · exact .inl rfl
  · exact .inr (.inr ⟨hord j i hj hi hji, hsep j i hj hi hji⟩)

/-- The regions of a list in normal form are runs of its answers. One that holds the address right
below ends there, and one that holds the address right above begins there, so both differ in
action. -/
theorem IsNormal.isRun_of_mem {regions : List (Region family)} (h : IsNormal regions)
    {r : Region family} (hr : r ∈ regions) : IsRun (find? regions) r where
  inside a ha := find?_eq_some_of_mem h.ordered hr ha
  below p hprev hanswer := by
    obtain ⟨s, hs, hmem, haction⟩ := exists_of_find?_eq_some hanswer
    have hstep := Address.prev?_eq_some_iff.mp hprev
    have hrle := Address.le_def.mp r.range.lo_le_hi
    simp only [Range.mem_def, Address.le_def] at hmem
    rcases h.eq_or_before hr hs with rfl | ⟨hbefore, _⟩ | ⟨hbefore, hsep⟩
    · omega
    · rw [before_def] at hbefore
      omega
    · rw [before_def] at hbefore
      exact hsep (Address.next?_eq_some_iff.mpr (by omega)) haction
  above n hnext hanswer := by
    obtain ⟨s, hs, hmem, haction⟩ := exists_of_find?_eq_some hanswer
    have hstep := Address.next?_eq_some_iff.mp hnext
    have hrle := Address.le_def.mp r.range.lo_le_hi
    simp only [Range.mem_def, Address.le_def] at hmem
    rcases h.eq_or_before hr hs with rfl | ⟨hbefore, hsep⟩ | ⟨hbefore, _⟩
    · omega
    · rw [before_def] at hbefore
      exact hsep (Address.next?_eq_some_iff.mpr (by omega)) haction.symm
    · rw [before_def] at hbefore
      omega

/-- The regions of a list in normal form are the runs of its answers, and there are no others. -/
theorem IsNormal.mem_iff_isRun {regions : List (Region family)} (h : IsNormal regions)
    {r : Region family} : r ∈ regions ↔ IsRun (find? regions) r := by
  constructor
  · exact h.isRun_of_mem
  · intro hrun
    have hlo := r.range.lo_mem
    obtain ⟨s, hs, hmem, _⟩ := exists_of_find?_eq_some (hrun.inside _ hlo)
    rwa [hrun.eq_of_mem (h.isRun_of_mem hs) hlo hmem]

/-- No region is before itself, and of two regions only one can be before the other. -/
instance : Std.Irrefl (@Before family) where
  irrefl r := fun h => Nat.not_lt.mpr r.range.lo_le_hi h

instance : Std.Antisymm (@Before family) where
  antisymm r _ hrs hsr := absurd (hrs.trans hsr) (Std.Irrefl.irrefl r)

/-- Lists in normal form with the same answers are the same list. -/
theorem IsNormal.eq_of_find?_eq {regions others : List (Region family)} (h : IsNormal regions)
    (hothers : IsNormal others) (hanswers : ∀ a, find? regions a = find? others a) :
    regions = others := by
  refine h.ordered.eq_of_mem_iff hothers.ordered fun r => ?_
  rw [h.mem_iff_isRun, hothers.mem_iff_isRun, funext hanswers]

/-- In an ordered list an address gets an action exactly from a region that holds it. -/
theorem find?_eq_some_iff {regions : List (Region family)} (hord : regions.Pairwise Before)
    {a : Address family} {action : Action} :
    find? regions a = some action ↔ ∃ r ∈ regions, a ∈ r.range ∧ r.action = action := by
  constructor
  · exact exists_of_find?_eq_some
  · rintro ⟨r, hr, hmem, rfl⟩
    exact find?_eq_some_of_mem hord hr hmem

/-- The answers of an ordered list do not depend on the order in which its regions are read. -/
theorem find?_eq_of_perm {regions others : List (Region family)}
    (hord : regions.Pairwise Before) (hperm : others.Perm regions) (a : Address family) :
    find? others a = find? regions a := by
  cases hanswer : find? others a with
  | none =>
    rw [find?_eq_none_iff] at hanswer
    exact (find?_eq_none_iff.mpr fun r hr => hanswer r (hperm.mem_iff.mpr hr)).symm
  | some action =>
    obtain ⟨r, hr, hmem, rfl⟩ := exists_of_find?_eq_some hanswer
    exact (find?_eq_some_of_mem hord (hperm.mem_iff.mp hr) hmem).symm

end Region

namespace IntervalSet

open Region (IsNormal)

/-! ## Two histories -/

/-- A set decides an address by an action if an entry with that action holds the address. -/
def Decides (set : IntervalSet family) (a : Address family) (action : Action) : Prop :=
  ∃ entry ∈ set.entries, a ∈ entry.range ∧ entry.action = action

variable {set other : IntervalSet family}

/-- The answers of a set whose entries are in order are what it decides. -/
theorem find?_eq_some_iff_decides (hset : set.entries.Pairwise Region.Before)
    {a : Address family} {action : Action} :
    set.find? a = some action ↔ set.Decides a action :=
  Region.find?_eq_some_iff hset

/-- Sets that insertions lead to have the same entries exactly when they decide the same addresses
by the same actions, however different the insertions were. -/
theorem entries_eq_iff_decides (hset : set.Reachable) (hother : other.Reachable) :
    set.entries = other.entries ↔ ∀ a action, set.Decides a action ↔ other.Decides a action := by
  constructor
  · intro heq a action
    rw [Decides, Decides, heq]
  · intro hdecides
    refine hset.isNormal.eq_of_find?_eq hother.isNormal fun a => Option.ext fun action => ?_
    exact (find?_eq_some_iff_decides hset.isNormal.ordered).trans
      ((hdecides a action).trans (find?_eq_some_iff_decides hother.isNormal.ordered).symm)

/-- Two denied addresses that touch, inserted one by one from above with a rule for one of them
that comes too late, are the same entries as the region of both. -/
theorem entries_eq_of_two_denied :
    let set : IntervalSet .v4 := IntervalSet.empty.insertAll
      [⟨.single (.ofNat 8), .deny⟩, ⟨.single (.ofNat 7), .deny⟩, ⟨.single (.ofNat 8), .allow⟩]
    let other : IntervalSet .v4 :=
      IntervalSet.empty.insert ⟨⟨.ofNat 7, .ofNat 8, by decide⟩, .deny⟩
    set.Reachable ∧ other.Reachable ∧ set.entries = other.entries ∧
      ∀ a action, set.Decides a action ↔ other.Decides a action := by
  intro set other
  have hset : set.Reachable := .insert _ (.insert _ (.insert _ .empty))
  have hother : other.Reachable := .insert _ .empty
  have heq : set.entries = other.entries := by decide
  exact ⟨hset, hother, heq, (entries_eq_iff_decides hset hother).mp heq⟩

/-- Regions that were merged on their own can be laid under a set entry by entry, in any order:
the outcome is the same as if they were inserted one after another. -/
theorem entries_insertAll_of_perm (traced traced' : Bool) {xs ys zs : List (Region family)}
    (hperm : zs.Perm (insertAll { traced := traced' } ys).entries) :
    ((insertAll { traced } xs).insertAll zs).entries = (insertAll { traced } (xs ++ ys)).entries := by
  have hxs : IsNormal (insertAll { traced } xs).entries :=
    isNormal_insertAll (isNormal_empty traced) xs
  have hys : IsNormal (insertAll { traced := traced' } ys).entries :=
    isNormal_insertAll (isNormal_empty traced') ys
  have hall : IsNormal (insertAll { traced } (xs ++ ys)).entries :=
    isNormal_insertAll (isNormal_empty traced) (xs ++ ys)
  refine (isNormal_insertAll hxs zs).eq_of_find?_eq hall fun a => ?_
  calc ((insertAll { traced } xs).insertAll zs).find? a
      = ((insertAll { traced } xs).find? a).or (Region.find? zs a) :=
        find?_insertAll hxs.ordered zs a
    _ = ((insertAll { traced } xs).find? a).or ((insertAll { traced := traced' } ys).find? a) := by
        rw [Region.find?_eq_of_perm hys.ordered hperm]
        rfl
    _ = (Region.find? xs a).or (Region.find? ys a) := by
        rw [find?_insertAll .nil, find?_insertAll .nil]
        rfl
    _ = (insertAll { traced } (xs ++ ys)).find? a := by
        rw [find?_insertAll .nil, Region.find?_append]
        rfl

/-- A denied address, under it a block of three regions around it, and the entries of the block
from above. -/
theorem entries_insertAll_of_reversed_block :
    let xs : List (Region .v4) := [⟨.single (.ofNat 9), .deny⟩]
    let ys : List (Region .v4) :=
      [⟨⟨.ofNat 7, .ofNat 9, by decide⟩, .deny⟩, ⟨⟨.ofNat 6, .ofNat 12, by decide⟩, .allow⟩]
    let zs : List (Region .v4) :=
      [⟨⟨.ofNat 10, .ofNat 12, by decide⟩, .allow⟩, ⟨⟨.ofNat 7, .ofNat 9, by decide⟩, .deny⟩,
        ⟨.single (.ofNat 6), .allow⟩]
    zs.Perm (insertAll {} ys).entries ∧
      ((insertAll {} xs).insertAll zs).entries = (insertAll {} (xs ++ ys)).entries := by
  intro xs ys zs
  have hperm : zs.Perm (insertAll {} ys).entries := by decide
  exact ⟨hperm, entries_insertAll_of_perm false false hperm⟩

end IntervalSet
end AccessList
