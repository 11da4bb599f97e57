import PushGateway.Binary64.Basic

/-!
Rounding a quotient of natural numbers to the nearest magnitude, a tie going to the even one, and
the operations that round once.
-/

namespace PushGateway.Binary64

def nearest (num den : Nat) : Nat :=
  let excess := (num / den).log2 - 52
  let step := den * Nat.pow 2 excess
  let floor := num / step
  let left := num % step
  let up := step < 2 * left || (step == 2 * left && floor % 2 == 1)
  min infinityBits (excess * hidden + floor + (if up then 1 else 0))

/-- The number nearest to `coefficient` times ten to the power `exponent`. Powers so large or so
small that only infinity or zero is near are not computed. -/
def ofDecimal (negative : Bool) (coefficient : Nat) (exponent : Int) : Binary64 :=
  ofMagnitude negative <|
    if coefficient = 0 then 0
    else if 400 < exponent then infinityBits
    else if exponent + (coefficient.log2 + 1 : Nat) < -400 then 0
    else match exponent with
      | .ofNat e => nearest (coefficient * Nat.pow 10 e * unitsPerOne) 1
      | .negSucc e => nearest (coefficient * unitsPerOne) (Nat.pow 10 (e + 1))

def mul (x y : Binary64) : Binary64 :=
  ofMagnitude (x.negative != y.negative)
    (nearest (units x.magnitude * units y.magnitude) unitsPerOne)

end PushGateway.Binary64
