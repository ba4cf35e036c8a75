/-!
# Dhcp.Json.Number

Which decimal numbers are too large for a double.  A numeral is read as digits that
fit 64 bits and a power of ten; digits beyond those only count towards the power.
Its value is the product of the two, each rounded to a double, rounded to a double.
-/

namespace Dhcp.Json

/-- A natural number rounded to 53 binary digits, a half to the even neighbour. -/
def roundDouble (n : Nat) : Nat :=
  if n.log2 < 53 then n
  else
    let unit := 1 <<< (n.log2 - 52)
    let (q, r) := (n / unit, n % unit)
    if 2 * r < unit ∨ (2 * r = unit ∧ q % 2 = 0) then q * unit else (q + 1) * unit

/-- Whether digits times a power of ten are beyond the greatest double. -/
def overflowsDouble (digits : Nat) (exponent : Int) : Bool :=
  digits ≠ 0 && 0 ≤ exponent
    && (308 < exponent
      || 1024 ≤ (roundDouble (roundDouble digits * roundDouble (Nat.pow 10 exponent.toNat))).log2)

/-- The value of a decimal digit. -/
def digitValue (c : Char) : Nat := c.toNat - '0'.toNat

/-- Appends a digit to a number unless the number would no longer fit 64 bits. -/
def pushDigit? (n : Nat) (c : Char) : Option Nat :=
  if 10 * n + digitValue c < UInt64.size then some (10 * n + digitValue c) else none

theorem pushDigit?_of_lt {n : Nat} {c : Char} (h : 10 * n + digitValue c < UInt64.size) :
    pushDigit? n c = some (10 * n + digitValue c) := by
  rw [pushDigit?, if_pos h]

-- where a number is unknown its comparison would count down from the bound one by one
attribute [irreducible] pushDigit?

/-- Reads the digits of a whole number: as many as fit 64 bits, and how many are left. -/
def wholeDigits (n : Nat) : List Char → Nat × Nat
  | [] => (n, 0)
  | c :: cs =>
    match pushDigit? n c with
    | some n => wholeDigits n cs
    | none => (n, cs.length + 1)

/-- Reads the digits of a fraction: as many as fit 64 bits, and how many those are. -/
def fractionDigits (n taken : Nat) : List Char → Nat × Nat
  | [] => (n, taken)
  | c :: cs =>
    match pushDigit? n c with
    | some n => fractionDigits n (taken + 1) cs
    | none => (n, taken)

end Dhcp.Json
