import AccessList.Proofs.InsertionLaws
import AccessList.Proofs.TableLookup

/-!
# What an insertion decides

Address by address, an insertion decides what was undecided in a region by the action of the
region, and what was decided stays decided as it was. So an insertion leaves the entries alone
exactly when all its addresses are decided already, and the default action has to fill the rest
only once.
-/

namespace AccessList

variable {family : Family}

namespace IntervalSet

open Region (Before)

variable {set : IntervalSet family} {a : Address family} {action other : Action}

/-! ## Decided addresses -/

/-- A set decides an address if an entry holds it. -/
def IsDecided (set : IntervalSet family) (a : Address family) : Prop :=
  ∃ entry ∈ set.entries, a ∈ entry.range

/-- An address is decided exactly when it gets an answer. -/
theorem isDecided_iff_find?_ne_none : set.IsDecided a ↔ set.find? a ≠ none := by
  simp only [IsDecided, find?, ne_eq, Region.find?_eq_none_iff, not_forall, not_not, exists_prop]

/-- An address is decided exactly when it is decided by some action. -/
theorem isDecided_iff_exists_decides : set.IsDecided a ↔ ∃ action, set.Decides a action := by
  constructor
  · rintro ⟨entry, hentry, hmem⟩
    exact ⟨entry.action, entry, hentry, hmem, rfl⟩
  · rintro ⟨_, entry, hentry, hmem, _⟩
    exact ⟨entry, hentry, hmem⟩

/-- No address is decided by two actions. -/
theorem Decides.eq (h : set.Decides a action) (hother : set.Decides a other)
    (hord : set.entries.Pairwise Before) : action = other := by
  have haction := (find?_eq_some_iff_decides hord).mpr h
  rw [(find?_eq_some_iff_decides hord).mpr hother] at haction
  exact (Option.some_inj.mp haction).symm

/-! ## One insertion, address by address -/

/-- After an insertion an address is decided as it was before, or else by the action of the region
if it is in the region. -/
theorem decides_insert_iff_or (hord : set.entries.Pairwise Before) (incoming : Region family) :
    (set.insert incoming).Decides a action ↔
      set.Decides a action ∨
        ¬ set.IsDecided a ∧ a ∈ incoming.range ∧ action = incoming.action := by
  rw [← find?_eq_some_iff_decides (isNormal_insert hord incoming).ordered,
    ← find?_eq_some_iff_decides hord, isDecided_iff_find?_ne_none, find?_insert hord, not_not]
  cases hanswer : set.find? a with
  | some before => simp
  | none => by_cases ha : a ∈ incoming.range <;> simp [ha, eq_comm]

/-- After an insertion the decided addresses are those decided before and those of the region. -/
theorem isDecided_insert_iff (hord : set.entries.Pairwise Before) (incoming : Region family) :
    (set.insert incoming).IsDecided a ↔ set.IsDecided a ∨ a ∈ incoming.range := by
  simp only [isDecided_iff_exists_decides, decides_insert_iff_or hord, exists_or, exists_and_left,
    exists_eq, and_true]
  by_cases hdecided : ∃ action, set.Decides a action <;> simp [hdecided]

/-- For every set that insertions lead to and every region inserted, an address is decided by an
action afterwards exactly when it was decided by that action before, or was undecided, is in the
region, and the action is that of the region. No address is lost and none outside the region is
added, and what was decided keeps its action. -/
theorem decides_insert_iff (hset : set.Reachable) (incoming : Region family)
    (a : Address family) :
    (∀ action, (set.insert incoming).Decides a action ↔
        set.Decides a action ∨
          ¬ set.IsDecided a ∧ a ∈ incoming.range ∧ action = incoming.action) ∧
      ((set.insert incoming).IsDecided a ↔ set.IsDecided a ∨ a ∈ incoming.range) ∧
      ∀ before after, set.Decides a before → (set.insert incoming).Decides a after →
        after = before := by
  have hord := hset.isNormal.ordered
  refine ⟨fun action => decides_insert_iff_or hord incoming, isDecided_insert_iff hord incoming,
    fun before after hbefore hafter => ?_⟩
  rcases (decides_insert_iff_or hord incoming).mp hafter with hkept | ⟨hnot, _⟩
  · exact hkept.eq hbefore hord
  · exact absurd (isDecided_iff_exists_decides.mpr ⟨before, hbefore⟩) hnot

/-- Two denied blocks with a gap, and an allowed region that begins inside the first one and ends
inside the second one: the gap is allowed, the last address of the first block stays denied, and
the address above the region stays undecided. -/
theorem decides_insert_between_denied :
    let set : IntervalSet .v4 := IntervalSet.empty.insertAll
      [⟨⟨.ofNat 4, .ofNat 6, by decide⟩, .deny⟩, ⟨⟨.ofNat 9, .ofNat 10, by decide⟩, .deny⟩]
    let incoming : Region .v4 := ⟨⟨.ofNat 5, .ofNat 9, by decide⟩, .allow⟩
    set.Reachable ∧ (set.insert incoming).Decides (.ofNat 7) .allow ∧
      (set.insert incoming).Decides (.ofNat 6) .deny ∧
      ¬ (set.insert incoming).Decides (.ofNat 6) .allow ∧
      ¬ (set.insert incoming).IsDecided (.ofNat 11) := by
  intro set incoming
  have hset : set.Reachable := .insert _ (.insert _ .empty)
  have hgap : ¬ set.IsDecided (.ofNat 7) := by
    rw [isDecided_iff_find?_ne_none]
    decide
  have hdenied : set.Decides (.ofNat 6) .deny :=
    (find?_eq_some_iff_decides hset.isNormal.ordered).mp (by decide)
  obtain ⟨hdecides, _, hkeeps⟩ := decides_insert_iff hset incoming (.ofNat 6)
  refine ⟨hset, ((decides_insert_iff hset incoming (.ofNat 7)).1 .allow).mpr
    (.inr ⟨hgap, by decide, rfl⟩), (hdecides .deny).mpr (.inl hdenied), fun hallowed => ?_,
    fun habove => ?_⟩
  · exact absurd (hkeeps .deny .allow hdenied hallowed) (by decide)
  · rcases (decides_insert_iff hset incoming (.ofNat 11)).2.1.mp habove with hold | hnew
    · rw [isDecided_iff_find?_ne_none] at hold
      exact absurd hold (by decide)
    · exact absurd hnew (by decide)

/-! ## Insertions that change nothing -/

/-- An insertion leaves the entries alone exactly when the region holds decided addresses only. -/
theorem entries_insert_eq_iff (hset : Region.IsNormal set.entries) (incoming : Region family) :
    (set.insert incoming).entries = set.entries ↔ ∀ a ∈ incoming.range, set.IsDecided a := by
  constructor
  · intro heq a ha
    have hafter : (set.insert incoming).IsDecided a :=
      (isDecided_insert_iff hset.ordered incoming).mpr (.inr ha)
    rwa [IsDecided, heq] at hafter
  · intro hdecided
    exact entries_insert_of_decided hset fun a ha =>
      isDecided_iff_find?_ne_none.mp (hdecided a ha)

/-- Once the default action has filled the rest, no insertion changes the entries any more. -/
theorem entries_insert_insert_full (hset : Region.IsNormal set.entries) (defaultAction : Action)
    (incoming : Region family) :
    ((set.insert (.full defaultAction)).insert incoming).entries =
      (set.insert (.full defaultAction)).entries := by
  refine (entries_insert_eq_iff (isNormal_insert hset.ordered _) incoming).mpr fun a _ => ?_
  exact (isDecided_insert_iff hset.ordered _).mpr (.inr (Range.mem_full a))

/-- A table is the same whether or not the default action has filled the rest before. -/
theorem ofSet_insert_full (hset : Region.IsNormal set.entries) (defaultAction : Action) :
    LookupTable.ofSet (set.insert (.full defaultAction)) defaultAction =
      .ofSet set defaultAction := by
  simp only [LookupTable.ofSet, entries_insert_insert_full hset defaultAction]

/-- For every set that insertions lead to, an insertion leaves the entries exactly as they were if
and only if every address of the region is decided, whatever the action of the region is and
however many entries hold its addresses. So where the default action has filled the rest already,
filling it again changes nothing, and the table that is made is the same as without filling it
before. -/
theorem entries_insert_eq_iff_isDecided (hset : set.Reachable) :
    (∀ incoming : Region family, (set.insert incoming).entries = set.entries ↔
        ∀ a ∈ incoming.range, set.IsDecided a) ∧
      ∀ defaultAction,
        LookupTable.filled (set.insert (.full defaultAction)) defaultAction =
            (set.insert (.full defaultAction)).entries ∧
          LookupTable.ofSet (set.insert (.full defaultAction)) defaultAction =
            .ofSet set defaultAction :=
  ⟨entries_insert_eq_iff hset.isNormal, fun defaultAction =>
    ⟨entries_insert_insert_full hset.isNormal defaultAction _,
      ofSet_insert_full hset.isNormal defaultAction⟩⟩

/-- Three entries that touch, with alternating actions. A denied region over all of them changes
nothing; one that goes on by a single address does. -/
theorem entries_insert_eq_over_three_entries :
    let set : IntervalSet .v4 := IntervalSet.empty.insertAll
      [⟨⟨.ofNat 5, .ofNat 6, by decide⟩, .deny⟩, ⟨⟨.ofNat 3, .ofNat 8, by decide⟩, .allow⟩]
    let within : Region .v4 := ⟨⟨.ofNat 4, .ofNat 8, by decide⟩, .deny⟩
    let beyond : Region .v4 := ⟨⟨.ofNat 4, .ofNat 9, by decide⟩, .deny⟩
    set.Reachable ∧ set.size = 3 ∧ (set.insert within).entries = set.entries ∧
      (set.insert beyond).entries ≠ set.entries ∧
      LookupTable.ofSet (set.insert (.full .deny)) .deny = .ofSet set .deny := by
  intro set within beyond
  have hset : set.Reachable := .insert _ (.insert _ .empty)
  obtain ⟨hinsert, hfilled⟩ := entries_insert_eq_iff_isDecided hset
  refine ⟨hset, by decide, (hinsert within).mpr fun a ha => ?_, fun heq => ?_, (hfilled .deny).2⟩
  · have hall : a ∈ (⟨.ofNat 3, .ofNat 8, by decide⟩ : Range .v4) :=
      ⟨Nat.le_trans (by decide) ha.1, ha.2⟩
    exact (isDecided_insert_iff (isNormal_insert .nil _).ordered _).mpr (.inr hall)
  · have hover := (hinsert beyond).mp heq (.ofNat 9) (by decide)
    rw [isDecided_iff_find?_ne_none] at hover
    exact absurd hover (by decide)

end IntervalSet
end AccessList
