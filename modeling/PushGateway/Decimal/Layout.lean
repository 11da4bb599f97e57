import PushGateway.Decimal.Shortest

/-!
The two ways to write a decimal: positional, and scientific with one digit before the point.
-/

namespace PushGateway.Decimal

def zeros (n : Nat) : List Char := List.replicate n '0'

/-- Positional notation; a whole number is followed by `whole`. -/
def positional (whole : List Char) (d : Digits) : List Char :=
  let ds := Numeral.digits d.coefficient
  match d.exponent with
  | .ofNat e => ds ++ zeros e ++ whole
  | .negSucc e =>
    let places := e + 1
    if places < ds.length then ds.take (ds.length - places) ++ '.' :: ds.drop (ds.length - places)
    else ['0', '.'] ++ zeros (places - ds.length) ++ ds

/-- Scientific notation; `plus` stands before an exponent that is not negative. -/
def scientific (plus : List Char) (d : Digits) : List Char :=
  let ds := Numeral.digits d.coefficient
  let mantissa := match ds with
    | [c] => [c]
    | c :: cs => c :: '.' :: cs
    | [] => []
  let e := d.exponent + (ds.length - 1 : Nat)
  mantissa ++ 'e' :: (if e < 0 then ['-'] else plus) ++ Numeral.digits e.natAbs

end PushGateway.Decimal
