import PushGateway.Exposition.Value
import PushGateway.Json.Reader

/-!
Numbers in JSON. A finite number is written with its shortest digits, positionally if its leading
digit stands between the fifth decimal place and the sixteenth whole place; the special values
are written as texts.
-/

namespace PushGateway.Json

open Binary64 Decimal

def isPositional (d : Digits) : Bool :=
  let leading := d.exponent + ((Numeral.digits d.coefficient).length - 1 : Nat)
  decide (-5 ≤ leading) && decide (leading < 16)

def numberDigits (magnitude : Nat) : List Char :=
  if magnitude = 0 then ['0', '.', '0']
  else
    let d := shortest .even magnitude
    if isPositional d then positional ['.', '0'] d else scientific ['+'] d

def ofBinary64 (x : Binary64) : Json :=
  if x.isFinite then
    .number (String.ofList ((if x.negative then ['-'] else []) ++ numberDigits x.magnitude))
  else str (String.ofList (Exposition.valueText x))

def ofInt (i : Int) : Json := .number (String.ofList (Numeral.intText i))

def finite? (literal : String) : Option Binary64 :=
  match (Numeral.read? literal.toList).map Numeral.toBinary64 with
  | some x => if x.isFinite then some x else none
  | none => none

/-- A number in range, or the text of a sample value. -/
def toBinary64? : Json → Option Binary64
  | .number literal => finite? literal
  | .string (some s) => Exposition.readValue? s.toList
  | _ => none

/-- A number written without fraction and exponent; a negative zero is not one. -/
def toInt? : Json → Option Int
  | .number literal =>
    if literal.toList = ['-', '0'] then none else Numeral.readInt? literal.toList
  | _ => none

def toUInt64? (j : Json) : Option UInt64 :=
  match j.toInt? with
  | some i => if 0 ≤ i ∧ i < UInt64.size then some (UInt64.ofNat i.toNat) else none
  | none => none

def toInt64? (j : Json) : Option Int64 :=
  match j.toInt? with
  | some i => if Int64.minValue.toInt ≤ i ∧ i ≤ Int64.maxValue.toInt then some (.ofInt i) else none
  | none => none

def toString? : Json → Option String
  | .string s => s
  | _ => none

def toArray? : Json → Option (List Json)
  | .array js => some js
  | _ => none

end PushGateway.Json
