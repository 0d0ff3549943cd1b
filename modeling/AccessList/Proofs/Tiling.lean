import AccessList.IntervalSet.Basic
import AccessList.Proofs.RegionOrder

/-!
# Regions without gaps

Regions in normal form that leave no address undecided follow each other without a gap, and so
they take turns between the two actions. The action at an address can then be told from the first
action and the number of regions that start at or below the address.
-/

namespace AccessList

variable {family : Family}

/-! ## Taking turns -/

namespace Action

/-- The action at a place, counted from zero, where two actions take turns. -/
def alternate (first : Action) (place : Nat) : Action :=
  if place % 2 = 0 then first else first.negate

/-- The first turn has the first action. -/
@[simp] theorem alternate_zero (first : Action) : first.alternate 0 = first := rfl

/-- The turns after the first one begin with the opposite action. -/
theorem alternate_succ (first : Action) (place : Nat) :
    first.alternate (place + 1) = first.negate.alternate place := by
  unfold alternate
  rcases Nat.mod_two_eq_zero_or_one place with h | h
  · rw [if_neg (by omega), if_pos h]
  · rw [if_pos (by omega), if_neg (by omega), negate_negate]

/-- There are two actions, so what differs from one is the other. -/
theorem eq_negate_of_ne {first second : Action} (h : first ≠ second) :
    second = first.negate := by
  cases first <;> cases second <;> simp_all [negate]

end Action

namespace IntervalSet

open Region (Before Separate IsNormal)

/-! ## Following without a gap -/

/-- Without regions only what comes after the last address is covered. -/
theorem covers_nil_iff {start : Option (Address family)} :
    covers start [] = true ↔ start = none := by
  simp [covers]

/-- What it means that a region and those after it cover the addresses from a given one on. -/
theorem covers_cons_iff {start : Option (Address family)} {r : Region family}
    {regions : List (Region family)} :
    covers start (r :: regions) = true ↔
      start = some r.range.lo ∧ covers r.range.hi.next? regions = true := by
  simp [covers]

/-- Ordered regions that leave nothing undecided from an address on follow each other without a gap
from there to the last address: some region holds that address, and those after the first begin too
late for it. -/
theorem covers_of_total {start : Address family} {regions : List (Region family)}
    (hord : regions.Pairwise Before) (hstart : ∀ r ∈ regions, start ≤ r.range.lo)
    (htotal : ∀ a, start ≤ a → Region.find? regions a ≠ none) :
    covers (some start) regions = true := by
  induction regions generalizing start with
  | nil => exact absurd rfl (htotal start (Nat.le_refl _))
  | cons r regions ih =>
    obtain ⟨hbefore, hord⟩ := List.pairwise_cons.mp hord
    have hr := Address.le_def.mp r.range.lo_le_hi
    have hlo : start = r.range.lo := by
      obtain ⟨action, hfind⟩ := Option.ne_none_iff_exists'.mp (htotal start (Nat.le_refl _))
      obtain ⟨s, hs, hmem, _⟩ := Region.exists_of_find?_eq_some hfind
      have hle := hstart r List.mem_cons_self
      rcases List.mem_cons.mp hs with rfl | hs
      · exact Address.ext_toNat (Nat.le_antisymm hle hmem.1)
      · exact absurd hmem.1 ((hbefore s hs).not_lo_le (Nat.le_trans hle r.range.lo_le_hi))
    have hlater : covers r.range.hi.next? regions = true := by
      cases hnext : r.range.hi.next? with
      | none =>
        have hlast := Address.next?_eq_none_iff.mp hnext
        cases regions with
        | nil => rfl
        | cons s regions =>
          have hle : .last ≤ r.range.hi := by
            rw [hlast]
            exact Nat.le_refl _
          exact absurd s.range.lo.le_last ((hbefore s List.mem_cons_self).not_lo_le hle)
      | some next =>
        have hstep := Address.next?_eq_some_iff.mp hnext
        apply ih hord
        · intro s hs
          have hgap := Region.before_def.mp (hbefore s hs)
          rw [Address.le_def]
          omega
        · intro a ha
          rw [Address.le_def] at ha
          have hnot : a ∉ r.range := by
            simp only [Range.mem_def, Address.le_def]
            omega
          have hfind := htotal a (by rw [Address.le_def, hlo]; omega)
          rwa [Region.find?_cons, if_neg hnot] at hfind
    exact covers_cons_iff.mpr ⟨congrArg some hlo, hlater⟩

/-- Where regions in normal form leave no gap, each one begins right after the one before it and
with the opposite action. -/
theorem isChain_of_covers {start : Option (Address family)} {regions : List (Region family)}
    (hsep : regions.IsChain Separate) (hcovers : covers start regions = true) :
    regions.IsChain fun r s => r.range.hi.next? = some s.range.lo ∧ r.action ≠ s.action := by
  induction regions generalizing start with
  | nil => exact .nil
  | cons r regions ih =>
    obtain ⟨_, hlater⟩ := covers_cons_iff.mp hcovers
    cases regions with
    | nil => exact .singleton r
    | cons s regions =>
      obtain ⟨hturn, hsep⟩ := List.isChain_cons_cons.mp hsep
      have hnext := (covers_cons_iff.mp hlater).1
      exact .cons_cons ⟨hnext, hturn hnext⟩ (ih hsep hlater)

/-- Regions in normal form that cover the addresses from a given one on start there or right after
another of them, which has the opposite action. -/
theorem eq_or_exists_follows {start : Address family} {regions : List (Region family)}
    (hsep : regions.IsChain Separate) (hcovers : covers (some start) regions = true)
    {r : Region family} (hr : r ∈ regions) :
    r.range.lo = start ∨
      ∃ s ∈ regions, s.range.hi.next? = some r.range.lo ∧ s.action ≠ r.action := by
  have hchain := List.isChain_iff_getElem.mp (isChain_of_covers hsep hcovers)
  obtain ⟨i, hi, rfl⟩ := List.mem_iff_getElem.mp hr
  cases i with
  | zero =>
    left
    cases regions with
    | nil => simp at hi
    | cons first later => exact (Option.some_inj.mp (covers_cons_iff.mp hcovers).1).symm
  | succ i => exact .inr ⟨regions[i], List.getElem_mem _, hchain i hi⟩

/-- Regions that cover the addresses from a given one on take turns between the actions: the number
of regions that start at or below an address tells whose turn it is. Above the first region the
turns begin anew with the second one and the opposite action. -/
theorem find?_eq_alternate {start : Option (Address family)} {r : Region family}
    {regions : List (Region family)} (hnormal : IsNormal (r :: regions))
    (hcovers : covers start (r :: regions) = true) {a : Address family}
    (ha : r.range.lo ≤ a) :
    ∃ place, (r :: regions).countP (·.range.lo ≤ a) = place + 1 ∧
      Region.find? (r :: regions) a = some (r.action.alternate place) := by
  obtain ⟨hord, hsep⟩ := hnormal
  induction regions generalizing start r with
  | nil =>
    have hlast := (covers_cons_iff.mp hcovers).2
    have hhi : r.range.hi = .last := Address.next?_eq_none_iff.mp (covers_nil_iff.mp hlast)
    have hmem : a ∈ r.range := by
      rw [Range.mem_def, hhi]
      exact ⟨ha, a.le_last⟩
    exact ⟨0, by simp [ha], by simp [Region.find?_cons, hmem]⟩
  | cons s regions ih =>
    obtain ⟨_, hlater⟩ := covers_cons_iff.mp hcovers
    obtain ⟨hnext, _⟩ := covers_cons_iff.mp hlater
    obtain ⟨hbefore, hord⟩ := List.pairwise_cons.mp hord
    obtain ⟨hturn, hsep⟩ := List.isChain_cons_cons.mp hsep
    by_cases hhi : a ≤ r.range.hi
    · have hmem : a ∈ r.range := ⟨ha, hhi⟩
      have hnone : (s :: regions).countP (·.range.lo ≤ a) = 0 := by
        rw [List.countP_eq_zero]
        intro t ht
        rw [decide_eq_true_eq]
        exact (hbefore t ht).not_lo_le hhi
      refine ⟨0, ?_, ?_⟩
      · rw [List.countP_cons, hnone]
        simp [ha]
      · simp [Region.find?_cons, hmem]
    · have hnot : a ∉ r.range := fun hmem => hhi hmem.2
      have hstep := Address.next?_eq_some_iff.mp hnext
      have hle : s.range.lo ≤ a := by
        rw [Address.le_def] at hhi ⊢
        omega
      obtain ⟨place, hcount, hfind⟩ := ih hlater hle hord hsep
      have haction : s.action = r.action.negate := Action.eq_negate_of_ne (hturn hnext)
      refine ⟨place + 1, ?_, ?_⟩
      · rw [List.countP_cons, hcount]
        simp [ha]
      · rw [Region.find?_cons, if_neg hnot, hfind, haction, Action.alternate_succ]

end IntervalSet
end AccessList
