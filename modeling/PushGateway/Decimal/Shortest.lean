import PushGateway.Decimal.Numeral

/-!
The shortest decimal that reads back as a given magnitude. For 1, 2, … 17 digits the two decimals
next to the magnitude are read back; the first count of digits with a hit wins, of two hits the
nearer one.
-/

namespace PushGateway.Decimal

/-- Which of two decimals is taken when the magnitude lies half way between them. -/
inductive Tie
  | upper
  | even
  deriving DecidableEq, Repr

structure Digits where
  coefficient : Nat
  exponent : Int
  deriving DecidableEq, Repr

def Digits.magnitude (d : Digits) : Nat :=
  (Binary64.ofDecimal false d.coefficient d.exponent).magnitude

def digitCount (n : Nat) : Nat := if n = 0 then 0 else (Nat.toDigits 10 n).length

/-- The exponent of the leading digit of a number of units that is not zero. -/
def leadingExponent (units : Nat) : Int :=
  if Binary64.unitsPerOne ≤ units then (digitCount (units / Binary64.unitsPerOne) : Int) - 1
  else -(digitCount ((Binary64.unitsPerOne - 1) / units) : Int)

/-- The exact value of a number of units over one unit of the last place, as a quotient. -/
def scaled (units : Nat) : Int → Nat × Nat
  | .ofNat e => (units, Nat.pow 10 e * Binary64.unitsPerOne)
  | .negSucc e => (units * Nat.pow 10 (e + 1), Binary64.unitsPerOne)

/-- The decimal with last place `exponent` that reads back as the magnitude, if one does. -/
def hit? (tie : Tie) (magnitude : Nat) (exponent : Int) : Option Digits :=
  let (num, den) := scaled (Binary64.units magnitude) exponent
  let lower : Digits := ⟨num / den, exponent⟩
  let upper : Digits := ⟨num / den + 1, exponent⟩
  let twice := 2 * (num % den)
  let upperNearer := den < twice
    || (twice == den && (tie == .upper || lower.coefficient % 2 == 1))
  let (first, second) := if upperNearer then (upper, lower) else (lower, upper)
  if first.magnitude = magnitude then some first
  else if second.magnitude = magnitude then some second
  else none

/-- The same value without zeros at the end of the coefficient. -/
def Digits.trim : Nat → Digits → Digits
  | 0, d => d
  | fuel + 1, d =>
    if d.coefficient % 10 = 0 then Digits.trim fuel ⟨d.coefficient / 10, d.exponent + 1⟩ else d

/-- All digits of the magnitude: units of 2 to the power -1074 are tenths to the power 1074. -/
def exactDigits (magnitude : Nat) : Digits :=
  ⟨Binary64.units magnitude * Nat.pow 5 1074, -1074⟩

def shortest (tie : Tie) (magnitude : Nat) : Digits :=
  let leading := leadingExponent (Binary64.units magnitude)
  let found := (List.range 17).findSome? fun (n : Nat) => hit? tie magnitude (leading - n)
  let digits := found.getD (exactDigits magnitude)
  if digits.coefficient = 0 then digits else digits.trim (digitCount digits.coefficient)

end PushGateway.Decimal
