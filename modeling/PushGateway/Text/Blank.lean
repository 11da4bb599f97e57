/-!
Blank characters, those with the Unicode property White_Space, and the trims and splits made
at them.
-/

namespace PushGateway.Text

def isBlank (c : Char) : Bool :=
  let n := c.toNat
  (9 ≤ n && n ≤ 13) || n == 32 || n == 0x85 || n == 0xA0 || n == 0x1680
    || (0x2000 ≤ n && n ≤ 0x200A) || n == 0x2028 || n == 0x2029 || n == 0x202F || n == 0x205F
    || n == 0x3000

def trimStart (cs : List Char) : List Char := cs.dropWhile isBlank

def trimEnd (cs : List Char) : List Char := (cs.reverse.dropWhile isBlank).reverse

def trim (cs : List Char) : List Char := trimEnd (trimStart cs)

/-- The text before the first blank, and what follows that blank. -/
def splitAtBlank? (cs : List Char) : Option (List Char × List Char) :=
  match cs.dropWhile (fun c => !isBlank c) with
  | [] => none
  | _ :: rest => some (cs.takeWhile (fun c => !isBlank c), rest)

/-- The maximal runs of characters that are not blank. -/
def fields (cs : List Char) : List (List Char) :=
  (cs.splitOnP isBlank).filter (fun f => !f.isEmpty)

end PushGateway.Text
