/-!
Binary floating-point numbers of 64 bits. Every finite magnitude is a whole number of units of
2 to the power -1074, and magnitudes are ordered as their bits are.
-/

namespace PushGateway

structure Binary64 where
  bits : UInt64
  deriving DecidableEq, Repr, Hashable

namespace Binary64

def signBit : Nat := 0x8000000000000000

/-- The bits of infinity: magnitudes below it are finite, those above it are NaN. -/
def infinityBits : Nat := 0x7FF0000000000000

/-- One more than the largest significand of a subnormal number. -/
def hidden : Nat := 0x10000000000000

def ofMagnitude (negative : Bool) (m : Nat) : Binary64 :=
  ⟨UInt64.ofNat (if negative then signBit + m else m)⟩

def negative (x : Binary64) : Bool := decide (signBit ≤ x.bits.toNat)

def magnitude (x : Binary64) : Nat := x.bits.toNat % signBit

def isNaN (x : Binary64) : Bool := decide (infinityBits < x.magnitude)

def isFinite (x : Binary64) : Bool := decide (x.magnitude < infinityBits)

def nan : Binary64 := ⟨0x7FF8000000000000⟩

def infinity : Binary64 := ofMagnitude false infinityBits

def negInfinity : Binary64 := ofMagnitude true infinityBits

def zero : Binary64 := ofMagnitude false 0

def units (m : Nat) : Nat :=
  if m < hidden then m else (hidden + m % hidden) * Nat.pow 2 (m / hidden - 1)

def unitsPerOne : Nat := Nat.pow 2 1074

/-- Equality of values: the two zeros are equal, and a NaN equals nothing. -/
def same (x y : Binary64) : Bool :=
  !x.isNaN && !y.isNaN && (x == y || (x.magnitude == 0 && y.magnitude == 0))

/-- The position in the total order: negative NaNs, negative numbers, the two zeros, positive
numbers, positive NaNs. -/
def rank (x : Binary64) : Int :=
  if x.negative then -(x.magnitude : Int) - 1 else x.magnitude

def before (x y : Binary64) : Bool := decide (x.rank < y.rank)

end Binary64

end PushGateway
