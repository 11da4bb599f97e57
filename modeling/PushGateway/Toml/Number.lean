import PushGateway.Decimal.Numeral
import PushGateway.Text.Hexadecimal

/-!
TOML numbers. An underscore may stand between two digits. A decimal number has no leading zeros;
a whole number with a base has no sign; whole numbers fit into 64 bits.
-/

namespace PushGateway.Toml

/-- Digits after the first one: each may follow an underscore. -/
def moreDigits (isDigit : Char → Bool) (read : List Char) : List Char → List Char × List Char
  | '_' :: c :: rest =>
    if isDigit c then moreDigits isDigit (c :: read) rest else (read.reverse, '_' :: c :: rest)
  | c :: rest =>
    if isDigit c then moreDigits isDigit (c :: read) rest else (read.reverse, c :: rest)
  | [] => (read.reverse, [])

/-- One or more digits, without their underscores, and what follows. -/
def readDigits? (isDigit : Char → Bool) : List Char → Option (List Char × List Char)
  | c :: rest => if isDigit c then some (moreDigits isDigit [c] rest) else none
  | [] => none

def readWhole? : List Char → Option (List Char × List Char)
  | '0' :: rest => some (['0'], rest)
  | cs => readDigits? Numeral.isDigit cs

def inRange (i : Int) : Option Int :=
  if -9223372036854775808 ≤ i && i ≤ 9223372036854775807 then some i else none

def digitOf (base : Nat) (c : Char) : Option Nat :=
  (Text.hexDigit? c).bind fun d => if d < base then some d else none

def readBased? (base : Nat) (cs : List Char) : Option (Int × List Char) := do
  let (ds, rest) ← readDigits? (fun c => (digitOf base c).isSome) cs
  let n := (ds.filterMap (digitOf base)).foldl (fun n d => base * n + d) 0
  return (← inRange n, rest)

def readInteger? : List Char → Option (Int × List Char)
  | '0' :: 'x' :: rest => readBased? 16 rest
  | '0' :: 'o' :: rest => readBased? 8 rest
  | '0' :: 'b' :: rest => readBased? 2 rest
  | cs => do
    let (negative, cs) := Numeral.splitSign cs
    let (ds, rest) ← readWhole? cs
    let n : Int := Numeral.ofDigits ds
    return (← inRange (if negative then -n else n), rest)

def readFraction? : List Char → Option (List Char × List Char)
  | '.' :: rest => readDigits? Numeral.isDigit rest
  | cs => some ([], cs)

def readPower? (cs : List Char) : Option (Int × List Char) := do
  let (negative, cs) := Numeral.splitSign cs
  let (ds, rest) ← readDigits? Numeral.isDigit cs
  let n : Int := Numeral.ofDigits ds
  return (if negative then -n else n, rest)

def readExponent? : List Char → Option (Int × List Char)
  | 'e' :: rest => readPower? rest
  | 'E' :: rest => readPower? rest
  | cs => some (0, cs)

def readNumeral? (cs : List Char) : Option (Numeral × List Char) := do
  let (negative, cs) := Numeral.splitSign cs
  let (whole, cs) ← readWhole? cs
  match cs with
  | '.' :: _ | 'e' :: _ | 'E' :: _ =>
    let (fraction, cs) ← readFraction? cs
    let (e, rest) ← readExponent? cs
    return (⟨negative, Numeral.ofDigits (whole ++ fraction), e - fraction.length⟩, rest)
  | _ => none

def readSpecial? (cs : List Char) : Option (Binary64 × List Char) :=
  match Numeral.splitSign cs with
  | (false, 'i' :: 'n' :: 'f' :: rest) => some (.infinity, rest)
  | (true, 'i' :: 'n' :: 'f' :: rest) => some (.negInfinity, rest)
  | (_, 'n' :: 'a' :: 'n' :: rest) => some (.nan, rest)
  | _ => none

/-- A number too large for a positive double is refused; a negative one reads as infinity. -/
def readFloat? (cs : List Char) : Option (Binary64 × List Char) :=
  match readNumeral? cs with
  | some (n, rest) =>
    if n.toBinary64 = .infinity then none else some (n.toBinary64, rest)
  | none => readSpecial? cs

end PushGateway.Toml
