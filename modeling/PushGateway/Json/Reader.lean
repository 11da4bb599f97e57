import PushGateway.Decimal.Numeral
import PushGateway.Json.Basic

/-!
Reading JSON text. The grammar is strict; numbers of any size and nesting of any depth are read,
and judged where they are used.
-/

namespace PushGateway.Json

def isSpace (c : Char) : Bool := c == ' ' || c == '\t' || c == '\n' || c == '\r'

def skipSpace (cs : List Char) : List Char := cs.dropWhile isSpace

/-- A piece of a text: a character, or a 16-bit unit given by its code. -/
inductive Piece
  | char (c : Char)
  | unit (code : Nat)
  deriving DecidableEq, Repr

def hexCode? (a b c d : Char) : Option Nat := do
  return Text.ofHexDigits
    [← Text.hexDigit? a, ← Text.hexDigit? b, ← Text.hexDigit? c, ← Text.hexDigit? d]

def simpleEscape? (c : Char) : Option Char :=
  if c = '"' || c = '\\' || c = '/' then some c
  else if c = 'b' then some (Char.ofNat 8)
  else if c = 'f' then some (Char.ofNat 12)
  else if c = 'n' then some '\n'
  else if c = 'r' then some '\r'
  else if c = 't' then some '\t'
  else none

/-- The pieces up to the closing quote, last first, and what follows it. -/
def readPieces (read : List Piece) : List Char → Option (List Piece × List Char)
  | [] => none
  | '"' :: rest => some (read, rest)
  | '\\' :: 'u' :: a :: b :: c :: d :: rest => match hexCode? a b c d with
    | some code => readPieces (.unit code :: read) rest
    | none => none
  | '\\' :: c :: rest => match simpleEscape? c with
    | some c => readPieces (.char c :: read) rest
    | none => none
  | c :: rest => if c.toNat < 32 || c = '\\' then none else readPieces (.char c :: read) rest

/-- The characters that pieces stand for: a high unit must be followed by a low one. -/
def joinPieces : List Piece → Option (List Char)
  | [] => some []
  | .char c :: rest => (joinPieces rest).map (c :: ·)
  | .unit a :: .unit b :: rest =>
    if 0xD800 ≤ a && a < 0xDC00 && 0xDC00 ≤ b && b < 0xE000 then
      (joinPieces rest).map (Char.ofNat (0x10000 + (a - 0xD800) * 1024 + (b - 0xDC00)) :: ·)
    else if 0xD800 ≤ a && a < 0xE000 then none
    else (joinPieces (.unit b :: rest)).map (Char.ofNat a :: ·)
  | .unit a :: rest =>
    if 0xD800 ≤ a && a < 0xE000 then none else (joinPieces rest).map (Char.ofNat a :: ·)

def readText (cs : List Char) : Option (Option String × List Char) :=
  (readPieces [] cs).map fun (pieces, rest) =>
    ((joinPieces pieces.reverse).map String.ofList, rest)

/-- The whole part of a number: a single zero, or digits that do not start with one. -/
def readWhole (cs : List Char) : Option (List Char × List Char) :=
  match cs with
  | '0' :: rest => some (['0'], rest)
  | _ =>
    let ds := cs.takeWhile Numeral.isDigit
    if ds.isEmpty then none else some (ds, cs.dropWhile Numeral.isDigit)

/-- Digits after a mark that must be followed by at least one. -/
def readDigits (mark : List Char) (cs : List Char) : Option (List Char × List Char) :=
  let ds := cs.takeWhile Numeral.isDigit
  if ds.isEmpty then none else some (mark ++ ds, cs.dropWhile Numeral.isDigit)

def readFraction : List Char → Option (List Char × List Char)
  | '.' :: rest => readDigits ['.'] rest
  | rest => some ([], rest)

def readPower (letter : Char) : List Char → Option (List Char × List Char)
  | '+' :: rest => readDigits [letter, '+'] rest
  | '-' :: rest => readDigits [letter, '-'] rest
  | rest => readDigits [letter] rest

def readExponent : List Char → Option (List Char × List Char)
  | 'e' :: rest => readPower 'e' rest
  | 'E' :: rest => readPower 'E' rest
  | rest => some ([], rest)

def readNumber (cs : List Char) : Option (List Char × List Char) := do
  let (sign, cs) := match cs with
    | '-' :: rest => (['-'], rest)
    | rest => ([], rest)
  let (whole, cs) ← readWhole cs
  let (fraction, cs) ← readFraction cs
  let (exponent, cs) ← readExponent cs
  return (sign ++ whole ++ fraction ++ exponent, cs)

def dropWord (word : List Char) (cs : List Char) : Option (List Char) := word.isPrefixOf? cs

mutual

/-- A value and what follows it; `fuel` bounds the number of steps. -/
def readValue : Nat → List Char → Option (Json × List Char)
  | 0, _ => none
  | fuel + 1, cs => match skipSpace cs with
    | '"' :: rest => (readText rest).map fun (s, rest) => (.string s, rest)
    | '[' :: rest => match skipSpace rest with
      | ']' :: rest => some (.array [], rest)
      | rest => (readItems fuel [] rest).map fun (js, rest) => (.array js, rest)
    | '{' :: rest => match skipSpace rest with
      | '}' :: rest => some (.object [], rest)
      | rest => (readMembers fuel [] rest).map fun (ms, rest) => (.object ms, rest)
    | 'n' :: rest => (dropWord "ull".toList rest).map fun rest => (.null, rest)
    | 't' :: rest => (dropWord "rue".toList rest).map fun rest => (.bool true, rest)
    | 'f' :: rest => (dropWord "alse".toList rest).map fun rest => (.bool false, rest)
    | cs => (readNumber cs).map fun (literal, rest) => (.number (String.ofList literal), rest)

/-- The items of an array up to its end; `read` holds those before, last first. -/
def readItems : Nat → List Json → List Char → Option (List Json × List Char)
  | 0, _, _ => none
  | fuel + 1, read, cs => match readValue fuel cs with
    | none => none
    | some (j, rest) => match skipSpace rest with
      | ',' :: rest => readItems fuel (j :: read) rest
      | ']' :: rest => some ((j :: read).reverse, rest)
      | _ => none

def readMembers : Nat → List (Option String × Json) → List Char →
    Option (List (Option String × Json) × List Char)
  | 0, _, _ => none
  | fuel + 1, read, cs => match skipSpace cs with
    | '"' :: rest => match readText rest with
      | none => none
      | some (k, rest) => match skipSpace rest with
        | ':' :: rest => match readValue fuel rest with
          | none => none
          | some (j, rest) => match skipSpace rest with
            | ',' :: rest => readMembers fuel ((k, j) :: read) rest
            | '}' :: rest => some (((k, j) :: read).reverse, rest)
            | _ => none
        | _ => none
    | _ => none

end

/-- A text that holds one value and nothing else. Each step but every second one takes a
character. -/
def read? (s : String) : Option Json :=
  let cs := s.toList
  match readValue (2 * cs.length + 2) cs with
  | some (j, rest) => if (skipSpace rest).isEmpty then some j else none
  | none => none

end PushGateway.Json
