import AccessList.Address.Printer

/-!
# Ranges of addresses

Inclusive ranges, which are never empty. Besides tests on two ranges there is the cut of a range
at an address: the part `below` it and the part `above` it, either of which may be missing.
-/

namespace AccessList

/-- The addresses from `lo` to `hi`, both included. -/
structure Range (family : Family) where
  /-- The lowest address. -/
  lo : Address family
  /-- The highest address. -/
  hi : Address family
  /-- A range has at least one address. -/
  lo_le_hi : lo ≤ hi
  deriving DecidableEq

namespace Range

variable {family : Family}

instance : Membership (Address family) (Range family) := ⟨fun r a => r.lo ≤ a ∧ a ≤ r.hi⟩

/-- A range has the addresses between its bounds. -/
theorem mem_def {r : Range family} {a : Address family} : a ∈ r ↔ r.lo ≤ a ∧ a ≤ r.hi :=
  Iff.rfl

instance (r : Range family) (a : Address family) : Decidable (a ∈ r) :=
  inferInstanceAs (Decidable (r.lo ≤ a ∧ a ≤ r.hi))

/-- A range has its lowest address. -/
theorem lo_mem (r : Range family) : r.lo ∈ r := ⟨Nat.le_refl _, r.lo_le_hi⟩

/-- A range has its highest address. -/
theorem hi_mem (r : Range family) : r.hi ∈ r := ⟨r.lo_le_hi, Nat.le_refl _⟩

/-- Ranges with the same bounds are the same. -/
theorem ext {r s : Range family} (hlo : r.lo = s.lo) (hhi : r.hi = s.hi) : r = s := by
  cases r
  cases s
  cases hlo
  cases hhi
  rfl

/-! ## Making ranges -/

/-- The range between two bounds, unless they are inverted. -/
def ofBounds? (lo hi : Address family) : Option (Range family) :=
  if h : lo ≤ hi then some ⟨lo, hi, h⟩ else none

/-- The range of one address. -/
def single (a : Address family) : Range family := ⟨a, a, Nat.le_refl _⟩

/-- The range of all addresses. -/
def full : Range family := ⟨.first, .last, Address.first_le _⟩

/-- All addresses from the given one on. -/
def since (lo : Address family) : Range family := ⟨lo, .last, lo.le_last⟩

/-- The addresses with the same top `length` bits as the given one. -/
def ofTopBits (a : Address family) (length : Nat) : Range family :=
  ⟨a.network length, a.broadcast length,
    Nat.le_trans (a.network_le length) (a.le_broadcast length)⟩

/-- Two bounds make the range that has them. -/
theorem ofBounds?_eq_some_iff {lo hi : Address family} {r : Range family} :
    ofBounds? lo hi = some r ↔ r.lo = lo ∧ r.hi = hi := by
  unfold ofBounds?
  constructor
  · intro h
    split at h
    · cases h
      exact ⟨rfl, rfl⟩
    · cases h
  · rintro ⟨rfl, rfl⟩
    rw [dif_pos r.lo_le_hi]

/-- Bounds make no range exactly when they are inverted. -/
theorem ofBounds?_eq_none_iff {lo hi : Address family} : ofBounds? lo hi = none ↔ hi < lo := by
  unfold ofBounds?
  split
  · next h => simpa [Address.lt_def] using Address.le_def.mp h
  · next h => simpa [Address.lt_def, Address.le_def] using h

/-- The range of all addresses has every address. -/
theorem mem_full (a : Address family) : a ∈ (full : Range family) :=
  ⟨a.first_le, a.le_last⟩

/-! ## Two ranges -/

/-- Whether two ranges share an address. -/
def overlaps (r s : Range family) : Bool := r.lo ≤ s.hi && s.lo ≤ r.hi

/-- Whether one of two ranges begins right after the other ends. -/
def isNeighbor (r s : Range family) : Bool :=
  r.hi.next? = some s.lo || s.hi.next? = some r.lo

/-- Whether every address of the second range is one of the first. -/
def contains (r s : Range family) : Bool := r.lo ≤ s.lo && s.hi ≤ r.hi

/-- Ranges overlap exactly when they share an address, such as the later one of their two starts. -/
theorem overlaps_iff {r s : Range family} : r.overlaps s = true ↔ ∃ a, a ∈ r ∧ a ∈ s := by
  rw [overlaps, Bool.and_eq_true, decide_eq_true_eq, decide_eq_true_eq]
  constructor
  · rintro ⟨hrs, hsr⟩
    rcases Nat.le_total r.lo.toNat s.lo.toNat with hle | hle
    · exact ⟨s.lo, ⟨hle, hsr⟩, s.lo_mem⟩
    · exact ⟨r.lo, r.lo_mem, ⟨hle, hrs⟩⟩
  · rintro ⟨a, har, has⟩
    exact ⟨Nat.le_trans har.1 has.2, Nat.le_trans has.1 har.2⟩

/-- A range contains another one exactly when it has all of its addresses. -/
theorem contains_iff {r s : Range family} : r.contains s = true ↔ ∀ a ∈ s, a ∈ r := by
  rw [contains, Bool.and_eq_true, decide_eq_true_eq, decide_eq_true_eq]
  constructor
  · rintro ⟨hlo, hhi⟩ a ha
    exact ⟨Nat.le_trans hlo ha.1, Nat.le_trans ha.2 hhi⟩
  · intro h
    exact ⟨(h s.lo s.lo_mem).1, (h s.hi s.hi_mem).2⟩

/-- Ranges with the same addresses are the same. -/
theorem eq_of_contains {r s : Range family} (hrs : r.contains s = true)
    (hsr : s.contains r = true) : r = s := by
  simp only [contains, Bool.and_eq_true, decide_eq_true_eq, Address.le_def] at hrs hsr
  exact ext (Address.ext_toNat (by omega)) (Address.ext_toNat (by omega))

/-- Two ranges as one, if the second begins right after the first ends. -/
def join? (r s : Range family) : Option (Range family) :=
  if r.hi.next? = some s.lo then ofBounds? r.lo s.hi else none

/-- Ranges are joined whenever the second begins right after the first, and together they reach
from the start of the first to the end of the second. -/
theorem join?_eq_some_iff {r s t : Range family} :
    r.join? s = some t ↔ r.hi.next? = some s.lo ∧ t.lo = r.lo ∧ t.hi = s.hi := by
  unfold join?
  split
  · next h => simp [ofBounds?_eq_some_iff, h]
  · next h => simp [h]

/-! ## Cutting a range -/

/-- The addresses of a range below a given one. -/
def below? (r : Range family) (a : Address family) : Option (Range family) :=
  a.prev?.bind fun prev => ofBounds? r.lo (min r.hi prev)

/-- The addresses of a range above a given one. -/
def above? (r : Range family) (a : Address family) : Option (Range family) :=
  a.next?.bind fun next => ofBounds? (max r.lo next) r.hi

/-- Nothing of a range is below an address exactly when the range starts there or later. -/
theorem below?_eq_none_iff {r : Range family} {a : Address family} :
    r.below? a = none ↔ a ≤ r.lo := by
  have hr := Address.le_def.mp r.lo_le_hi
  rw [below?, Address.le_def]
  cases hprev : a.prev? with
  | none =>
    rw [Address.prev?_eq_none_iff] at hprev
    subst hprev
    simp
  | some prev =>
    rw [Address.prev?_eq_some_iff] at hprev
    simp only [Option.bind_some, ofBounds?_eq_none_iff, Address.lt_def, Address.toNat_min]
    omega

/-- The part of a range below an address keeps the start and ends right before the address, or
where the range ends. -/
theorem below?_eq_some_iff {r s : Range family} {a : Address family} :
    r.below? a = some s ↔
      r.lo < a ∧ s.lo = r.lo ∧ s.hi.toNat = min r.hi.toNat (a.toNat - 1) := by
  have hr := Address.le_def.mp r.lo_le_hi
  have hs := Address.le_def.mp s.lo_le_hi
  rw [below?, Address.lt_def]
  cases hprev : a.prev? with
  | none =>
    rw [Address.prev?_eq_none_iff] at hprev
    subst hprev
    simp
  | some prev =>
    rw [Address.prev?_eq_some_iff] at hprev
    simp only [Option.bind_some, ofBounds?_eq_some_iff, ← Address.toNat_inj, Address.toNat_min]
    omega

/-- The part of a range below an address has the addresses of the range that are below it. -/
theorem exists_mem_below?_iff {r : Range family} {a bound : Address family} :
    (∃ s ∈ r.below? bound, a ∈ s) ↔ a ∈ r ∧ a < bound := by
  simp only [mem_def, Address.le_def, Address.lt_def]
  cases hcut : r.below? bound with
  | none =>
    have hlo := Address.le_def.mp (below?_eq_none_iff.mp hcut)
    simp only [Option.mem_def, reduceCtorEq, false_and, exists_false, false_iff]
    omega
  | some s =>
    obtain ⟨hlt, hlo, hhi⟩ := below?_eq_some_iff.mp hcut
    rw [Address.lt_def] at hlt
    simp only [Option.mem_def, Option.some.injEq, exists_eq_left', hlo, hhi]
    omega

/-- Nothing of a range is above an address exactly when the range ends there or earlier. -/
theorem above?_eq_none_iff {r : Range family} {a : Address family} :
    r.above? a = none ↔ r.hi ≤ a := by
  have hr := Address.le_def.mp r.lo_le_hi
  rw [above?, Address.le_def]
  cases hnext : a.next? with
  | none =>
    rw [Address.next?_eq_none_iff] at hnext
    subst hnext
    simpa using Address.le_def.mp r.hi.le_last
  | some next =>
    rw [Address.next?_eq_some_iff] at hnext
    simp only [Option.bind_some, ofBounds?_eq_none_iff, Address.lt_def, Address.toNat_max]
    omega

/-- The part of a range above an address keeps the end and starts right after the address, or
where the range starts. -/
theorem above?_eq_some_iff {r s : Range family} {a : Address family} :
    r.above? a = some s ↔
      a < r.hi ∧ s.hi = r.hi ∧ s.lo.toNat = max r.lo.toNat (a.toNat + 1) := by
  have hr := Address.le_def.mp r.lo_le_hi
  have hs := Address.le_def.mp s.lo_le_hi
  have hlast := Address.le_def.mp r.hi.le_last
  rw [above?, Address.lt_def]
  cases hnext : a.next? with
  | none =>
    rw [Address.next?_eq_none_iff] at hnext
    subst hnext
    simp only [Option.bind_none, reduceCtorEq, false_iff]
    omega
  | some next =>
    rw [Address.next?_eq_some_iff] at hnext
    simp only [Option.bind_some, ofBounds?_eq_some_iff, ← Address.toNat_inj, Address.toNat_max]
    omega

/-- The part of a range above an address has the addresses of the range that are above it. -/
theorem exists_mem_above?_iff {r : Range family} {a bound : Address family} :
    (∃ s ∈ r.above? bound, a ∈ s) ↔ a ∈ r ∧ bound < a := by
  simp only [mem_def, Address.le_def, Address.lt_def]
  cases hcut : r.above? bound with
  | none =>
    have hhi := Address.le_def.mp (above?_eq_none_iff.mp hcut)
    simp only [Option.mem_def, reduceCtorEq, false_and, exists_false, false_iff]
    omega
  | some s =>
    obtain ⟨hlt, hhi, hlo⟩ := above?_eq_some_iff.mp hcut
    simp only [Option.mem_def, Option.some.injEq, exists_eq_left', hlo, hhi]
    omega

/-- What a range has below the start of another one ends before that one does. -/
theorem hi_le_hi_of_below? {r s gap : Range family} (h : r.below? s.lo = some gap) :
    gap.hi ≤ s.hi := by
  obtain ⟨hlo, _, hhi⟩ := below?_eq_some_iff.mp h
  have hs := Address.le_def.mp s.lo_le_hi
  rw [Address.lt_def] at hlo
  rw [Address.le_def]
  omega

/-- Cutting a range twice is cutting it at the higher address. -/
theorem above?_bind_above? (r : Range family) {a b : Address family} (hle : a ≤ b) :
    (r.above? a).bind (·.above? b) = r.above? b := by
  rw [Address.le_def] at hle
  cases habove : r.above? a with
  | none =>
    have hover := Address.le_def.mp (above?_eq_none_iff.mp habove)
    symm
    rw [Option.bind_none, above?_eq_none_iff, Address.le_def]
    omega
  | some s =>
    obtain ⟨_, hhi, hlo⟩ := above?_eq_some_iff.mp habove
    unfold above?
    cases hnext : b.next? with
    | none => simp
    | some next =>
      have hstep := Address.next?_eq_some_iff.mp hnext
      have hmax : max s.lo next = max r.lo next := by
        apply Address.ext_toNat
        rw [Address.toNat_max, Address.toNat_max]
        omega
      simp [hmax, hhi]

/-- Once the part of a range below an address is taken away, nothing of the range is left there. -/
theorem below?_eq_none_of_above? {r s part : Range family} {a : Address family}
    (hbelow : r.below? a = some part) (habove : r.above? part.hi = some s) :
    s.below? a = none := by
  obtain ⟨hlo, _, hhi⟩ := below?_eq_some_iff.mp hbelow
  obtain ⟨hover, _, hstart⟩ := above?_eq_some_iff.mp habove
  rw [Address.lt_def] at hlo hover
  rw [below?_eq_none_iff, Address.le_def]
  omega

/-- A range as text; a single address stands for itself. -/
def text (r : Range family) : String :=
  if r.lo = r.hi then r.lo.text else r.lo.text ++ "-" ++ r.hi.text

end Range
end AccessList
