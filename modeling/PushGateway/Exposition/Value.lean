import PushGateway.Decimal.Layout

/-!
Sample values in the exposition format. The special values are spelled NaN, +Inf and -Inf and no
other way; every other value is a decimal numeral.
-/

namespace PushGateway.Exposition

open Binary64 Decimal

def isValueChar (c : Char) : Bool :=
  Numeral.isDigit c || c == '+' || c == '-' || c == '.' || c == 'e' || c == 'E'

def readValue? (cs : List Char) : Option Binary64 :=
  if cs = ['N', 'a', 'N'] then some nan
  else if cs = ['+', 'I', 'n', 'f'] then some infinity
  else if cs = ['-', 'I', 'n', 'f'] then some negInfinity
  else if cs.all isValueChar then (Numeral.read? cs).map Numeral.toBinary64
  else none

/-- Magnitudes from 10^21 on and those below 10^-6 are written in scientific notation. -/
def isScientific (magnitude : Nat) : Bool :=
  (ofDecimal false 1 21).magnitude ≤ magnitude || magnitude < (ofDecimal false 1 (-6)).magnitude

def valueDigits (magnitude : Nat) : List Char :=
  if magnitude = 0 then ['0']
  else if isScientific magnitude then scientific [] (shortest .upper magnitude)
  else positional [] (shortest .upper magnitude)

def valueText (x : Binary64) : List Char :=
  if x.isNaN then ['N', 'a', 'N']
  else if x = infinity then ['+', 'I', 'n', 'f']
  else if x = negInfinity then ['-', 'I', 'n', 'f']
  else (if x.negative then ['-'] else []) ++ valueDigits x.magnitude

end PushGateway.Exposition
