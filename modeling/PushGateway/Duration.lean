import PushGateway.Decimal.Numeral
import PushGateway.Text.Blank
import PushGateway.Text.Quoted

/-!
Lengths of time in whole nanoseconds, and their text: amounts that are each followed by a unit,
as in `1m30s`. An amount is read as a binary number, multiplied by its unit and rounded to the
nearest nanosecond; the parts are added up.
-/

namespace PushGateway

structure Duration where
  nanos : Nat
  deriving DecidableEq, Repr

namespace Duration

def nanosPerSecond : Nat := 1000000000

/-- No duration is as long as this: two to the power 64 seconds. -/
def limit : Nat := 18446744073709551616 * nanosPerSecond

def ofSeconds (s : Nat) : Duration := ⟨s * nanosPerSecond⟩

def ofMillis (ms : Nat) : Duration := ⟨ms * 1000000⟩

inductive Unit
  | millisecond
  | second
  | minute
  | hour
  deriving DecidableEq, Repr

def Unit.seconds : Unit → Binary64
  | .millisecond => Binary64.ofDecimal false 1 (-3)
  | .second => Binary64.ofDecimal false 1 0
  | .minute => Binary64.ofDecimal false 60 0
  | .hour => Binary64.ofDecimal false 3600 0

def Unit.read? : List Char → Option Unit
  | ['m', 's'] => some .millisecond
  | ['s'] => some .second
  | ['m'] => some .minute
  | ['h'] => some .hour
  | _ => none

def isAmountChar (c : Char) : Bool := Numeral.isDigit c || c == '.'

/-- A quotient rounded to the nearest whole number, a tie going to the even one. -/
def roundDiv (num den : Nat) : Nat :=
  let floor := num / den
  let twice := 2 * (num % den)
  if den < twice || (twice == den && floor % 2 == 1) then floor + 1 else floor

/-- The nearest whole number of nanoseconds to a number of seconds that is not negative. -/
def ofBinarySeconds? (x : Binary64) : Option Nat :=
  if !x.isFinite then none
  else
    let n := roundDiv (Binary64.units x.magnitude * nanosPerSecond) Binary64.unitsPerOne
    if n < limit then some n else none

def part? (amount unit : List Char) : Option Nat := do
  let x := (← Numeral.read? amount).toBinary64
  let u ← Unit.read? unit
  if x.isFinite then ofBinarySeconds? (x.mul u.seconds) else none

/-- The nanoseconds of each part of a text. -/
def parts? : List Char → Option (List Nat)
  | [] => some []
  | c :: cs => do
    let unitOn := (c :: cs).dropWhile isAmountChar
    let n ← part? ((c :: cs).takeWhile isAmountChar) (unitOn.takeWhile fun d => !isAmountChar d)
    return n :: (← parts? (unitOn.dropWhile fun d => !isAmountChar d))
termination_by cs => cs.length
decreasing_by
  have h₁ := (List.dropWhile_suffix (fun d => !isAmountChar d) (l := cs)).length_le
  have h₂ := (List.dropWhile_suffix (fun d => !isAmountChar d)
    (l := cs.dropWhile isAmountChar)).length_le
  have h₃ := (List.dropWhile_suffix isAmountChar (l := cs)).length_le
  by_cases h : isAmountChar c = true
  · simp only [List.dropWhile_cons, h, if_true, List.length_cons]
    omega
  · simp only [List.dropWhile_cons, h, Bool.not_false, if_true, List.length_cons,
      Bool.false_eq_true, if_false]
    omega

def total (ns : List Nat) : Nat := ns.foldr (fun n sum => n + sum) 0

/-- A text without blanks at its ends: a zero, or one or more parts whose sum is in range. -/
def read? (cs : List Char) : Option Duration :=
  if cs = ['0'] then some ⟨0⟩
  else if cs = [] then none
  else (parts? cs).bind fun ns => if total ns < limit then some ⟨total ns⟩ else none

structure Invalid where
  text : String
  deriving DecidableEq, Repr

def Invalid.message (e : Invalid) : String :=
  "invalid duration " ++ Text.quoted e.text ++ " (expected e.g. 500ms, 30s, 5m, 1h)"

def parse (s : String) : Except Invalid Duration :=
  match read? (Text.trim s.toList) with
  | some d => .ok d
  | none => .error ⟨s⟩

end Duration

end PushGateway
