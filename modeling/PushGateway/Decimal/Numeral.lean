import PushGateway.Binary64.Round

/-!
Decimal numerals: a sign, a coefficient and a power of ten, read from text and rounded to the
nearest binary number.
-/

namespace PushGateway

structure Numeral where
  negative : Bool
  coefficient : Nat
  exponent : Int
  deriving DecidableEq, Repr

namespace Numeral

def toBinary64 (n : Numeral) : Binary64 :=
  Binary64.ofDecimal n.negative n.coefficient n.exponent

def isDigit (c : Char) : Bool := '0'.toNat ≤ c.toNat && c.toNat ≤ '9'.toNat

def ofDigits (cs : List Char) : Nat := cs.foldl (fun n c => 10 * n + (c.toNat - '0'.toNat)) 0

def digits (n : Nat) : List Char := Nat.toDigits 10 n

def intText (i : Int) : List Char := (if i < 0 then ['-'] else []) ++ digits i.natAbs

def splitSign : List Char → Bool × List Char
  | '-' :: rest => (true, rest)
  | '+' :: rest => (false, rest)
  | rest => (false, rest)

/-- A whole number with an optional sign that fills the text. -/
def readInt? (cs : List Char) : Option Int :=
  let (negative, ds) := splitSign cs
  if ds.isEmpty || !ds.all isDigit then none
  else if negative then some (-(ofDigits ds : Int)) else some (ofDigits ds)

/-- The exponent part that ends a numeral: empty, or an `e` and a whole number. -/
def readExponent? : List Char → Option Int
  | [] => some 0
  | 'e' :: rest => readInt? rest
  | 'E' :: rest => readInt? rest
  | _ => none

/-- The fraction digits after a point, if there is one, and the rest. -/
def splitFraction : List Char → List Char × List Char
  | '.' :: rest => (rest.takeWhile isDigit, rest.dropWhile isDigit)
  | rest => ([], rest)

/-- A numeral that fills the text: digits with at most one point among them, of which at least
one digit, and an optional exponent. -/
def read? (cs : List Char) : Option Numeral :=
  let (negative, cs) := splitSign cs
  let whole := cs.takeWhile isDigit
  let (fraction, rest) := splitFraction (cs.dropWhile isDigit)
  if whole.isEmpty && fraction.isEmpty then none
  else (readExponent? rest).map fun e =>
    ⟨negative, ofDigits (whole ++ fraction), e - fraction.length⟩

end Numeral

end PushGateway
