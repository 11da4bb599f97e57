import PushGateway.Decimal.Numeral

/-!
TOML dates and times: a date, a time of day, or both with an optional offset. Only their extent is
of interest, so a reader answers with what follows.
-/

namespace PushGateway.Toml

def readFixed? (count : Nat) (cs : List Char) : Option (Nat × List Char) :=
  let ds := cs.take count
  if ds.length = count && ds.all Numeral.isDigit then some (Numeral.ofDigits ds, cs.drop count)
  else none

def readBetween? (low high : Nat) (cs : List Char) : Option (Nat × List Char) := do
  let (n, rest) ← readFixed? 2 cs
  if low ≤ n && n ≤ high then some (n, rest) else none

def skip? (c : Char) : List Char → Option (List Char)
  | d :: rest => if d = c then some rest else none
  | [] => none

def isLeap (year : Nat) : Bool := year % 4 == 0 && (year % 100 != 0 || year % 400 == 0)

def daysIn (year month : Nat) : Nat :=
  if month = 2 then (if isLeap year then 29 else 28)
  else if month = 4 || month = 6 || month = 9 || month = 11 then 30
  else 31

def skipDate? (cs : List Char) : Option (List Char) := do
  let (year, cs) ← readFixed? 4 cs
  let (month, cs) ← readBetween? 1 12 (← skip? '-' cs)
  let (_, cs) ← readBetween? 1 (daysIn year month) (← skip? '-' cs)
  return cs

def skipSecondFraction : List Char → List Char
  | '.' :: c :: rest =>
    if Numeral.isDigit c then rest.dropWhile Numeral.isDigit else '.' :: c :: rest
  | cs => cs

def skipTime? (cs : List Char) : Option (List Char) := do
  let (_, cs) ← readBetween? 0 23 cs
  let (_, cs) ← readBetween? 0 59 (← skip? ':' cs)
  let (_, cs) ← readBetween? 0 60 (← skip? ':' cs)
  return skipSecondFraction cs

def skipOffset? : List Char → Option (List Char)
  | 'Z' :: rest => some rest
  | 'z' :: rest => some rest
  | '+' :: rest => skipShift? rest
  | '-' :: rest => skipShift? rest
  | cs => some cs
where
  skipShift? (cs : List Char) : Option (List Char) := do
    let (_, cs) ← readBetween? 0 23 cs
    let (_, cs) ← readBetween? 0 59 (← skip? ':' cs)
    return cs

def startsTime (cs : List Char) : Bool :=
  ((readBetween? 0 23 cs).bind fun r => skip? ':' r.2).isSome

def skipTimeOfDate? : List Char → Option (List Char)
  | c :: rest =>
    if (c == 'T' || c == 't' || c == ' ') && startsTime rest then (skipTime? rest).bind skipOffset?
    else some (c :: rest)
  | [] => some []

def skipDateTime? (cs : List Char) : Option (List Char) :=
  match skipDate? cs with
  | some rest => skipTimeOfDate? rest
  | none => skipTime? cs

end PushGateway.Toml
