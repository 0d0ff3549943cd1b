import AccessList.Radix

/-!
# Numerals

Numbers written in a radix up to sixteen, and a reader whose form says how many digits are
allowed, how large the number may be and whether a leading zero is.
-/

namespace AccessList.Text

/-- The value of an ASCII digit or letter as a digit of the radix. -/
def digit? (radix : Nat) (c : Char) : Option Nat :=
  let found :=
    if '0' ≤ c ∧ c ≤ '9' then some (c.toNat - '0'.toNat)
    else if 'a' ≤ c ∧ c ≤ 'f' then some (c.toNat - 'a'.toNat + 10)
    else if 'A' ≤ c ∧ c ≤ 'F' then some (c.toNat - 'A'.toNat + 10)
    else none
  found.filter (· < radix)

/-- The digits at the start of a text, and the text after them. -/
def leadingDigits (radix : Nat) : List Char → List Nat × List Char
  | [] => ([], [])
  | c :: rest =>
    match digit? radix c with
    | some digit =>
      let (digits, rest) := leadingDigits radix rest
      (digit :: digits, rest)
    | none => ([], c :: rest)

/-- The shortest numeral of a number, with lower-case letters. -/
def numeral (radix n : Nat) : List Char := Nat.toDigits radix n

/-- What a reader accepts as a number. -/
structure NumberForm where
  /-- The radix of the digits. -/
  radix : Nat
  /-- The number of digits that may be written at most. -/
  maxDigits : Nat
  /-- The number read is below this bound. -/
  bound : Nat
  /-- Whether a numeral of several digits may start with zero. -/
  leadingZeros : Bool

/-- Whether a run of digits has the form. -/
def NumberForm.accepts (form : NumberForm) (digits : List Nat) : Bool :=
  digits ≠ [] && digits.length ≤ form.maxDigits && Radix.value form.radix digits < form.bound
    && (form.leadingZeros || digits.head? ≠ some 0 || digits.length = 1)

/-- Reads all digits at the start of a text as one number of the form, and gives the text after
it. -/
def NumberForm.read? (form : NumberForm) (text : List Char) : Option (Nat × List Char) :=
  let (digits, rest) := leadingDigits form.radix text
  if form.accepts digits then some (Radix.value form.radix digits, rest) else none

/-- Removes an expected character from the start of a text. -/
def skip? (expected : Char) : List Char → Option (List Char)
  | [] => none
  | c :: rest => if c = expected then some rest else none

end AccessList.Text
