/-!
# Positional notation

Numbers as digits of a fixed base, most significant digit first. Octets, address groups and
halves are all digits of one address in different bases, and decimal or hexadecimal text is read
by the same `value`. Reading a fixed number of digits and writing them are inverse.
-/

namespace AccessList.Radix

-- Powers of natural numbers are core's, whatever other instances are imported.
attribute [local instance(high)] instPowNat

/-- The number that a list of digits stands for, most significant first. -/
def value (base : Nat) (digits : List Nat) : Nat :=
  digits.foldl (fun total digit => total * base + digit) 0

/-- The lowest `count` digits of a number, most significant first. -/
def digits (base : Nat) : (count : Nat) → Nat → List Nat
  | 0, _ => []
  | count + 1, n => n / base ^ count % base :: digits base count n

/-- As many digits are taken as are asked for. -/
@[simp] theorem length_digits (base count n : Nat) : (digits base count n).length = count := by
  induction count with
  | zero => rfl
  | succ count ih => simp [digits, ih]

/-- Every digit is below a positive base. -/
theorem lt_of_mem_digits {base count n digit : Nat} (hbase : 0 < base)
    (hmem : digit ∈ digits base count n) : digit < base := by
  induction count with
  | zero => simp [digits] at hmem
  | succ count ih =>
    rcases List.mem_cons.mp hmem with rfl | hmem
    · exact Nat.mod_lt _ hbase
    · exact ih hmem

/-- Accumulating from a start value shifts it by the number of digits. -/
theorem foldl_eq (base start : Nat) (ds : List Nat) :
    ds.foldl (fun total digit => total * base + digit) start
      = start * base ^ ds.length + value base ds := by
  induction ds generalizing start with
  | nil => simp [value]
  | cons d ds ih =>
    simp only [List.foldl_cons, List.length_cons, value]
    rw [ih (start * base + d), ih (0 * base + d), Nat.pow_succ, Nat.add_mul]
    simp only [Nat.zero_mul, Nat.zero_add]
    rw [Nat.mul_assoc, Nat.mul_comm base, Nat.add_assoc]

/-- The first digit counts in units of all the others. -/
theorem value_cons (base d : Nat) (ds : List Nat) :
    value base (d :: ds) = d * base ^ ds.length + value base ds := by
  rw [value, List.foldl_cons, foldl_eq, Nat.zero_mul, Nat.zero_add]

/-- Digits in front count in units of the digits behind them. -/
theorem value_append (base : Nat) (front back : List Nat) :
    value base (front ++ back) = value base front * base ^ back.length + value base back := by
  rw [value, List.foldl_append, foldl_eq]
  rfl

/-- Digits below the base keep the number below the power of the base. -/
theorem value_lt {base : Nat} {ds : List Nat} (hds : ∀ d ∈ ds, d < base) :
    value base ds < base ^ ds.length := by
  induction ds with
  | nil => simp [value]
  | cons d ds ih =>
    have hd : d + 1 ≤ base := hds d (by simp)
    have hrest := ih fun e he => hds e (by simp [he])
    have hmul : (d + 1) * base ^ ds.length ≤ base * base ^ ds.length :=
      Nat.mul_le_mul_right _ hd
    rw [value_cons, List.length_cons, Nat.pow_succ, Nat.mul_comm (base ^ ds.length) base]
    rw [Nat.add_mul, Nat.one_mul] at hmul
    omega

/-- Reading the written digits gives the number back, up to the digits that were dropped. -/
theorem value_digits (base count n : Nat) :
    value base (digits base count n) = n % base ^ count := by
  induction count with
  | zero => simp [digits, value, Nat.mod_one]
  | succ count ih =>
    rw [digits, value_cons, length_digits, ih, Nat.pow_succ, Nat.mod_mul, Nat.add_comm,
      Nat.mul_comm]

/-- Writing the number read from proper digits gives the digits back. -/
theorem digits_value {base : Nat} {ds : List Nat} (hds : ∀ d ∈ ds, d < base) :
    digits base ds.length (value base ds) = ds := by
  suffices h : ∀ high, digits base ds.length (high * base ^ ds.length + value base ds) = ds by
    simpa using h 0
  induction ds with
  | nil => intro high; rfl
  | cons d ds ih =>
    intro high
    have hd : d < base := hds d (by simp)
    have hrest : ∀ e ∈ ds, e < base := fun e he => hds e (by simp [he])
    have hlt := value_lt hrest
    have hsplit : high * base ^ (d :: ds).length + value base (d :: ds)
        = (high * base + d) * base ^ ds.length + value base ds := by
      rw [value_cons, List.length_cons, Nat.pow_succ, Nat.add_mul, Nat.mul_comm (base ^ ds.length),
        Nat.mul_assoc, Nat.add_assoc]
    rw [hsplit, List.length_cons, digits, ih hrest]
    congr 1
    rw [Nat.mul_comm, Nat.mul_add_div (by omega), Nat.div_eq_of_lt hlt, Nat.add_zero,
      Nat.mul_comm, Nat.mul_add_mod]
    exact Nat.mod_eq_of_lt hd

end AccessList.Radix
