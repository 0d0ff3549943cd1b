import AccessList.Proofs.Decisions

/-!
# Full coverage

Whether the entries cover all addresses is told from the two ends and from the places where one
entry follows another. For ordered entries that is the same as every address being in an entry, and
once it is so, insertions find nothing left to decide.
-/

namespace AccessList.IntervalSet

open Region (Before IsNormal)

variable {family : Family} {set : IntervalSet family}

/-! ## Ends and steps -/

/-- Regions follow each other from an address to the last one exactly when the first of them begins
there, the last one ends there, and each of the others begins right after the one before. -/
theorem covers_some_iff {start : Address family} {regions : List (Region family)} :
    covers (some start) regions = true ↔ ∃ first last, regions.head? = some first ∧
      regions.getLast? = some last ∧ first.range.lo = start ∧ last.range.hi = .last ∧
        regions.IsChain fun r s => r.range.hi.next? = some s.range.lo := by
  induction regions generalizing start with
  | nil => simp [covers]
  | cons r regions ih =>
    cases regions with
    | nil =>
      rw [covers_cons_iff, covers_nil_iff, Address.next?_eq_none_iff]
      simp [eq_comm]
    | cons s regions =>
      have hlater : covers r.range.hi.next? (s :: regions) = true ↔
          r.range.hi.next? = some s.range.lo ∧ covers (some s.range.lo) (s :: regions) = true := by
        simp [covers_cons_iff]
      rw [covers_cons_iff, hlater, ih]
      constructor
      · rintro ⟨hstart, hnext, _, last, _, hlast, _, hhi, hchain⟩
        rw [← List.getLast?_cons_cons] at hlast
        exact ⟨r, last, rfl, hlast, (Option.some_inj.mp hstart).symm, hhi, .cons_cons hnext hchain⟩
      · rintro ⟨first, last, hfirst, hlast, hlo, hhi, hchain⟩
        obtain rfl : r = first := Option.some_inj.mp hfirst
        obtain ⟨hnext, hchain⟩ := List.isChain_cons_cons.mp hchain
        rw [List.getLast?_cons_cons] at hlast
        exact ⟨congrArg some hlo.symm, hnext, s, last, rfl, hlast, rfl, hhi, hchain⟩

/-- Where regions follow each other from an address on, each address from there on is in one of
them. -/
theorem exists_mem_of_covers {start a : Address family} {regions : List (Region family)}
    (hcovers : covers (some start) regions = true) (ha : start ≤ a) :
    ∃ r ∈ regions, a ∈ r.range := by
  induction regions generalizing start with
  | nil => simp [covers] at hcovers
  | cons r regions ih =>
    obtain ⟨hstart, hlater⟩ := covers_cons_iff.mp hcovers
    obtain rfl : start = r.range.lo := Option.some_inj.mp hstart
    by_cases hhi : a ≤ r.range.hi
    · exact ⟨r, List.mem_cons_self, ha, hhi⟩
    · cases hnext : r.range.hi.next? with
      | none =>
        rw [Address.next?_eq_none_iff.mp hnext] at hhi
        exact absurd a.le_last hhi
      | some next =>
        have hstep := Address.next?_eq_some_iff.mp hnext
        have hle : next ≤ a := by
          rw [Address.le_def] at hhi ⊢
          omega
        rw [hnext] at hlater
        obtain ⟨s, hs, hmem⟩ := ih hlater hle
        exact ⟨s, List.mem_cons_of_mem r hs, hmem⟩

/-! ## All addresses -/

/-- The check of the entries tells whether all addresses are decided. -/
theorem coversAll_iff (hord : set.entries.Pairwise Before) :
    set.coversAll = true ↔ ∀ a, set.IsDecided a := by
  constructor
  · exact fun hcovers a => exists_mem_of_covers hcovers a.first_le
  · intro hdecided
    exact covers_of_total hord (fun r _ => r.range.lo.first_le)
      fun a _ => isDecided_iff_find?_ne_none.mp (hdecided a)

/-- Into a set that covers all addresses, an insertion puts nothing. -/
theorem entries_insert_of_coversAll (hset : IsNormal set.entries) (hcovers : set.coversAll = true)
    (incoming : Region family) : (set.insert incoming).entries = set.entries :=
  (entries_insert_eq_iff hset incoming).mpr fun a _ => (coversAll_iff hset.ordered).mp hcovers a

/-- Into a set that covers all addresses, no run of insertions puts anything. -/
theorem entries_insertAll_of_coversAll (hset : IsNormal set.entries)
    (hcovers : set.coversAll = true) (regions : List (Region family)) :
    (set.insertAll regions).entries = set.entries := by
  induction regions generalizing set with
  | nil => rfl
  | cons region regions ih =>
    have hsame := entries_insert_of_coversAll hset hcovers region
    have hstill : (set.insert region).coversAll = true := by rwa [coversAll, hsame]
    rw [insertAll_cons, ih (isNormal_insert hset.ordered region) hstill, hsame]

/-- For every set that insertions lead to, the check looks at the two ends and at the steps from
entry to entry only, and it tells whether every address is in an entry. Once it succeeds, it does so
after all further insertions, and they leave the entries as they are. -/
theorem coversAll_iff_forall_isDecided (hset : set.Reachable) :
    (set.coversAll = true ↔ ∃ first last, set.entries.head? = some first ∧
        set.entries.getLast? = some last ∧ first.range.lo = .first ∧ last.range.hi = .last ∧
          set.entries.IsChain fun r s => r.range.hi.next? = some s.range.lo) ∧
      (set.coversAll = true ↔ ∀ a, set.IsDecided a) ∧
      (set.coversAll = true → ∀ regions, (set.insertAll regions).coversAll = true ∧
        (set.insertAll regions).entries = set.entries) := by
  refine ⟨covers_some_iff, coversAll_iff hset.isNormal.ordered, fun hcovers regions => ?_⟩
  have hsame := entries_insertAll_of_coversAll hset.isNormal hcovers regions
  exact ⟨by rwa [coversAll, hsame], hsame⟩

/-- A denied address with allowed regions up to it and from it on covers everything, and so denying
everything changes nothing. Without the region from it on, the last address is in no entry. -/
theorem coversAll_of_one_denied :
    let denied : Region .v4 := ⟨.single (.ofNat 7), .deny⟩
    let below : Region .v4 := ⟨⟨.first, .ofNat 7, by decide⟩, .allow⟩
    let above : Region .v4 := ⟨.since (.ofNat 7), .allow⟩
    let set : IntervalSet .v4 := IntervalSet.empty.insertAll [denied, below, above]
    let partly : IntervalSet .v4 := IntervalSet.empty.insertAll [denied, below]
    set.Reachable ∧ set.size = 3 ∧ set.coversAll = true ∧ (∀ a, set.IsDecided a) ∧
      (set.insertAll [.full .deny]).entries = set.entries ∧
      partly.Reachable ∧ ¬ ∀ a, partly.IsDecided a := by
  intro denied below above set partly
  have hset : set.Reachable := .insert _ (.insert _ (.insert _ .empty))
  have hpartly : partly.Reachable := .insert _ (.insert _ .empty)
  have hcovers : set.coversAll = true := by decide
  obtain ⟨_, hdecided, hkept⟩ := coversAll_iff_forall_isDecided hset
  obtain ⟨_, hpartlyDecided, _⟩ := coversAll_iff_forall_isDecided hpartly
  refine ⟨hset, by decide, hcovers, hdecided.mp hcovers, (hkept hcovers _).2, hpartly, ?_⟩
  rw [← hpartlyDecided]
  decide

end AccessList.IntervalSet
