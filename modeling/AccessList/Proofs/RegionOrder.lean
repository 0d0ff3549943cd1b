import AccessList.Region
import Mathlib.Data.List.Chain

/-!
# Regions in order

Interval sets keep their regions in order of address, and none that could be joined with the next
one. Joining keeps the order and the answers of a list of regions, and afterwards nothing is left
to join.
-/

namespace AccessList

variable {family : Family}

/-! ## Joining two regions -/

/-- Ranges stay apart exactly when the second does not begin right after the first. -/
theorem Range.join?_eq_none_iff {r s : Range family} :
    r.join? s = none ↔ r.hi.next? ≠ some s.lo := by
  unfold join?
  split
  · next hnext =>
    have hr := Address.le_def.mp r.lo_le_hi
    have hs := Address.le_def.mp s.lo_le_hi
    have hstep := Address.next?_eq_some_iff.mp hnext
    simp only [ofBounds?_eq_none_iff, Address.lt_def, hnext, ne_eq, not_true_eq_false, iff_false]
    omega
  · next hnext => simp [hnext]

/-- Joined ranges have the addresses of both. -/
theorem Range.mem_join? {r s t : Range family} (h : r.join? s = some t) (a : Address family) :
    a ∈ t ↔ a ∈ r ∨ a ∈ s := by
  obtain ⟨hnext, hlo, hhi⟩ := join?_eq_some_iff.mp h
  have hr := Address.le_def.mp r.lo_le_hi
  have hs := Address.le_def.mp s.lo_le_hi
  have hstep := Address.next?_eq_some_iff.mp hnext
  simp only [mem_def, Address.le_def, hlo, hhi]
  omega

namespace Region

/-- A region ends below the start of another. -/
def Before (r s : Region family) : Prop := r.range.hi < s.range.lo

/-- Two regions say more than one region could: where the second begins right after the first,
the action changes. -/
def Separate (r s : Region family) : Prop :=
  r.range.hi.next? = some s.range.lo → r.action ≠ s.action

/-- A region is before another one exactly when it ends at a lower position than that one starts
at. -/
theorem before_def {r s : Region family} :
    r.Before s ↔ r.range.hi.toNat < s.range.lo.toNat := Iff.rfl

/-- An order of regions is carried over a region between them. -/
theorem Before.trans {r s t : Region family} (hrs : r.Before s) (hst : s.Before t) :
    r.Before t := by
  have hs := Address.le_def.mp s.range.lo_le_hi
  rw [before_def] at hrs hst ⊢
  omega

/-- A region before another starts before it as well. -/
theorem Before.lo_lt_lo {r s : Region family} (hrs : r.Before s) : r.range.lo < s.range.lo := by
  have hr := Address.le_def.mp r.range.lo_le_hi
  rw [before_def] at hrs
  rw [Address.lt_def]
  omega

/-- No region starts at or below an address that an earlier one reaches up to. -/
theorem Before.not_lo_le {r s : Region family} (hrs : r.Before s) {a : Address family}
    (ha : a ≤ r.range.hi) : ¬ s.range.lo ≤ a := by
  rw [before_def] at hrs
  rw [Address.le_def] at ha ⊢
  omega

/-- An address of a region is in no later one. -/
theorem Before.notMem {r s : Region family} (hrs : r.Before s) {a : Address family}
    (ha : a ∈ r.range) : a ∉ s.range :=
  fun hmem => hrs.not_lo_le ha.2 hmem.1

/-- A joined region starts and acts like the first of the two and ends like the second. -/
theorem join?_eq_some_iff {r s t : Region family} :
    r.join? s = some t ↔
      r.action = s.action ∧ r.range.hi.next? = some s.range.lo ∧
        t.range.lo = r.range.lo ∧ t.range.hi = s.range.hi ∧ t.action = r.action := by
  unfold join?
  split
  · next haction =>
    simp only [Option.map_eq_some_iff, Range.join?_eq_some_iff]
    constructor
    · rintro ⟨range, ⟨hnext, hlo, hhi⟩, rfl⟩
      exact ⟨haction, hnext, hlo, hhi, rfl⟩
    · rintro ⟨_, hnext, hlo, hhi, htaction⟩
      refine ⟨t.range, ⟨hnext, hlo, hhi⟩, ?_⟩
      rw [← htaction]
  · next haction => simp [haction]

/-- Regions that cannot be joined are separate, and the other way around. -/
theorem join?_eq_none_iff {r s : Region family} : r.join? s = none ↔ r.Separate s := by
  unfold join? Separate
  split
  · next haction => simp [Range.join?_eq_none_iff, haction]
  · next haction => simp [haction]

/-- A joined region holds the addresses of both regions. -/
theorem mem_range_join? {r s t : Region family} (h : r.join? s = some t) (a : Address family) :
    a ∈ t.range ↔ a ∈ r.range ∨ a ∈ s.range := by
  obtain ⟨_, hnext, hlo, hhi, _⟩ := join?_eq_some_iff.mp h
  exact Range.mem_join? (Range.join?_eq_some_iff.mpr ⟨hnext, hlo, hhi⟩) a

/-! ## The answers of a list -/

/-- The regions of a first list decide the addresses that they hold, and the others decide the
rest. -/
theorem find?_append (regions others : List (Region family)) (a : Address family) :
    find? (regions ++ others) a = (find? regions a).or (find? others a) := by
  induction regions with
  | nil => simp
  | cons r regions ih =>
    rw [List.cons_append, find?_cons, find?_cons, ih]
    split <;> simp

/-- An address is undecided exactly when no region holds it. -/
theorem find?_eq_none_iff {regions : List (Region family)} {a : Address family} :
    find? regions a = none ↔ ∀ r ∈ regions, a ∉ r.range := by
  simp [find?]

/-- Only a region that holds an address gives its action. -/
theorem exists_of_find?_eq_some {regions : List (Region family)} {a : Address family}
    {action : Action} (h : find? regions a = some action) :
    ∃ r ∈ regions, a ∈ r.range ∧ r.action = action := by
  obtain ⟨r, hfound, rfl⟩ := Option.map_eq_some_iff.mp h
  exact ⟨r, List.mem_of_find?_eq_some hfound, by simpa using List.find?_some hfound, rfl⟩

/-- In an ordered list the region that holds an address is the one that decides it. -/
theorem find?_eq_some_of_mem {regions : List (Region family)} (hord : regions.Pairwise Before)
    {r : Region family} (hr : r ∈ regions) {a : Address family} (ha : a ∈ r.range) :
    find? regions a = some r.action := by
  induction regions with
  | nil => simp at hr
  | cons s regions ih =>
    obtain ⟨hbefore, hord⟩ := List.pairwise_cons.mp hord
    rw [find?_cons]
    rcases List.mem_cons.mp hr with rfl | hr
    · rw [if_pos ha]
    · have hnot : a ∉ s.range := fun hmem => (hbefore r hr).notMem hmem ha
      rw [if_neg hnot, ih hord hr]

/-- Of ordered regions only one holds an address, and it stands in the list only once. -/
theorem filter_mem_eq_singleton {regions : List (Region family)}
    (hord : regions.Pairwise Before) {r : Region family} (hr : r ∈ regions) {a : Address family}
    (ha : a ∈ r.range) : regions.filter (a ∈ ·.range) = [r] := by
  induction regions with
  | nil => exact absurd hr List.not_mem_nil
  | cons s regions ih =>
    obtain ⟨hbefore, hord⟩ := List.pairwise_cons.mp hord
    rcases List.mem_cons.mp hr with rfl | hr
    · have hlater : regions.filter (a ∈ ·.range) = [] := by
        rw [List.filter_eq_nil_iff]
        intro t ht
        rw [decide_eq_true_eq]
        exact (hbefore t ht).notMem ha
      rw [List.filter_cons_of_pos (by simpa using ha), hlater]
    · have hnot : a ∉ s.range := fun hmem => (hbefore r hr).notMem hmem ha
      rw [List.filter_cons_of_neg (by simpa using hnot), ih hord hr]

/-! ## Joining a whole list -/

/-- Joining a region to the front of a list changes no answer. -/
theorem find?_consJoined (r : Region family) (regions : List (Region family))
    (a : Address family) : find? (consJoined r regions) a = find? (r :: regions) a := by
  cases regions with
  | nil => rfl
  | cons s rest =>
    cases hjoin : r.join? s with
    | none => simp only [consJoined, hjoin]
    | some t =>
      have hmem := mem_range_join? hjoin a
      obtain ⟨haction, _, _, _, htaction⟩ := join?_eq_some_iff.mp hjoin
      simp only [consJoined, hjoin, find?_cons, hmem, htaction, ← haction]
      by_cases har : a ∈ r.range <;> simp [har]

/-- Joining all regions of a list changes no answer. -/
theorem find?_coalesce (regions : List (Region family)) (a : Address family) :
    find? (coalesce regions) a = find? regions a := by
  induction regions with
  | nil => rfl
  | cons r regions ih => rw [coalesce, find?_consJoined, find?_cons, find?_cons, ih]

/-- A region joined to two that were joined before is joined to the first of them first. -/
theorem consJoined_consJoined_of_some {r s t : Region family} (h : r.join? s = some t)
    (regions : List (Region family)) :
    consJoined r (consJoined s regions) = consJoined t regions := by
  obtain ⟨haction, hnext, hlo, hhi, htaction⟩ := join?_eq_some_iff.mp h
  cases regions with
  | nil => simp only [consJoined, h]
  | cons u regions =>
    cases hsu : s.join? u with
    | none =>
      have htu : t.join? u = none := by
        rw [join?_eq_none_iff] at hsu ⊢
        unfold Separate at hsu ⊢
        rwa [hhi, htaction, haction]
      simp only [consJoined, hsu, h, htu]
    | some v =>
      obtain ⟨hsaction, hsnext, hvlo, hvhi, hvaction⟩ := join?_eq_some_iff.mp hsu
      cases htu : t.join? u with
      | none =>
        have hseparate := join?_eq_none_iff.mp htu
        unfold Separate at hseparate
        rw [hhi, htaction, haction] at hseparate
        exact absurd hsaction (hseparate hsnext)
      | some w =>
        obtain ⟨_, _, hwlo, hwhi, hwaction⟩ := join?_eq_some_iff.mp htu
        have hrv : r.join? v = some w := by
          rw [join?_eq_some_iff, hvaction, hvlo, hvhi, hwlo, hwhi, hwaction]
          exact ⟨haction, hnext, hlo, rfl, htaction⟩
        simp only [consJoined, hsu, hrv, htu]

/-- A region that is separate from another is not joined to it when that one is joined to what
follows. -/
theorem consJoined_consJoined_of_none {r s : Region family} (h : r.join? s = none)
    (regions : List (Region family)) :
    consJoined r (consJoined s regions) = r :: consJoined s regions := by
  cases regions with
  | nil => simp only [consJoined, h]
  | cons u regions =>
    cases hsu : s.join? u with
    | none => simp only [consJoined, hsu, h]
    | some v =>
      obtain ⟨_, _, hvlo, _, hvaction⟩ := join?_eq_some_iff.mp hsu
      have hrv : r.join? v = none := by
        rw [join?_eq_none_iff] at h ⊢
        unfold Separate at h ⊢
        rwa [hvlo, hvaction]
      simp only [consJoined, hsu, hrv]

/-- After joining a region to the front of a list, every region still starts where one did. -/
theorem exists_lo_eq_of_mem_consJoined {r t : Region family} {regions : List (Region family)}
    (h : t ∈ consJoined r regions) : ∃ s ∈ r :: regions, t.range.lo = s.range.lo := by
  cases regions with
  | nil => exact ⟨t, h, rfl⟩
  | cons s rest =>
    cases hjoin : r.join? s with
    | none => exact ⟨t, by simpa only [consJoined, hjoin] using h, rfl⟩
    | some joined =>
      simp only [consJoined, hjoin] at h
      rcases List.mem_cons.mp h with rfl | hrest
      · exact ⟨r, List.mem_cons_self, (join?_eq_some_iff.mp hjoin).2.2.1⟩
      · exact ⟨t, by simp [hrest], rfl⟩

/-- After joining, every region still starts where one did before. -/
theorem exists_lo_eq_of_mem_coalesce {t : Region family} {regions : List (Region family)}
    (h : t ∈ coalesce regions) : ∃ s ∈ regions, t.range.lo = s.range.lo := by
  induction regions generalizing t with
  | nil => simp [coalesce] at h
  | cons r regions ih =>
    obtain ⟨s, hs, hlo⟩ := exists_lo_eq_of_mem_consJoined h
    rcases List.mem_cons.mp hs with rfl | hs
    · exact ⟨s, List.mem_cons_self, hlo⟩
    · obtain ⟨u, hu, hlo'⟩ := ih hs
      exact ⟨u, List.mem_cons_of_mem _ hu, hlo.trans hlo'⟩

/-- Joining a region to the front of an ordered list keeps the order. -/
theorem pairwise_before_consJoined {r : Region family} {regions : List (Region family)}
    (hord : (r :: regions).Pairwise Before) : (consJoined r regions).Pairwise Before := by
  cases regions with
  | nil => exact hord
  | cons s rest =>
    cases hjoin : r.join? s with
    | none => simpa only [consJoined, hjoin] using hord
    | some t =>
      have hhi := (join?_eq_some_iff.mp hjoin).2.2.2.1
      obtain ⟨hbefore, hrest⟩ := List.pairwise_cons.mp hord.of_cons
      simp only [consJoined, hjoin]
      refine List.pairwise_cons.mpr ⟨fun u hu => ?_, hrest⟩
      rw [before_def, hhi]
      exact hbefore u hu

/-- Joining the regions of an ordered list keeps the order. -/
theorem pairwise_before_coalesce {regions : List (Region family)}
    (hord : regions.Pairwise Before) : (coalesce regions).Pairwise Before := by
  induction regions with
  | nil => exact hord
  | cons r regions ih =>
    obtain ⟨hbefore, hord⟩ := List.pairwise_cons.mp hord
    refine pairwise_before_consJoined (List.pairwise_cons.mpr ⟨fun t ht => ?_, ih hord⟩)
    obtain ⟨s, hs, hlo⟩ := exists_lo_eq_of_mem_coalesce ht
    rw [before_def, hlo]
    exact hbefore s hs

/-- A region joined to the front of a list of separate regions leaves them separate: a joined
region ends where the first one of the list did. -/
theorem isChain_separate_consJoined {r : Region family} {regions : List (Region family)}
    (hsep : regions.IsChain Separate) : (consJoined r regions).IsChain Separate := by
  cases regions with
  | nil => exact .singleton r
  | cons s rest =>
    cases hjoin : r.join? s with
    | none =>
      simp only [consJoined, hjoin]
      exact .cons_cons (join?_eq_none_iff.mp hjoin) hsep
    | some t =>
      obtain ⟨haction, _, _, hhi, htaction⟩ := join?_eq_some_iff.mp hjoin
      simp only [consJoined, hjoin]
      cases rest with
      | nil => exact .singleton t
      | cons u rest =>
        rw [List.isChain_cons_cons] at hsep ⊢
        refine ⟨?_, hsep.2⟩
        unfold Separate
        rw [hhi, htaction, haction]
        exact hsep.1

/-- After joining, nothing is left to join. -/
theorem isChain_separate_coalesce (regions : List (Region family)) :
    (coalesce regions).IsChain Separate := by
  induction regions with
  | nil => exact .nil
  | cons r regions ih => exact isChain_separate_consJoined ih

/-- The form in which regions are kept: in order, and none of them joined with the next. -/
structure IsNormal (regions : List (Region family)) : Prop where
  /-- Every region ends below the start of those after it. -/
  ordered : regions.Pairwise Before
  /-- Regions that touch differ in action. -/
  separate : regions.IsChain Separate

/-- Joining brings an ordered list to normal form. -/
theorem isNormal_coalesce {regions : List (Region family)} (hord : regions.Pairwise Before) :
    IsNormal (coalesce regions) :=
  ⟨pairwise_before_coalesce hord, isChain_separate_coalesce regions⟩

end Region
end AccessList
