/-!
Hexadecimal digits, written in lowercase and read in either case.
-/

namespace PushGateway.Text

def hexadecimal (n : Nat) : List Char := Nat.toDigits 16 n

def hexDigit? (c : Char) : Option Nat :=
  let n := c.toNat
  if 48 ≤ n && n ≤ 57 then some (n - 48)
  else if 65 ≤ n && n ≤ 70 then some (n - 55)
  else if 97 ≤ n && n ≤ 102 then some (n - 87)
  else none

def ofHexDigits (ds : List Nat) : Nat := ds.foldl (fun n d => 16 * n + d) 0

end PushGateway.Text
