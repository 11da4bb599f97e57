import PushGateway.Text.Hexadecimal

/-!
The four kinds of TOML text: between double quotes with escapes, between single quotes without
them, and each of the two over several lines between three quotes. Up to two quotes before the
closing three belong to the text.
-/

namespace PushGateway.Toml

/-- Characters that a comment or a text may hold as they are. -/
def isPlain (c : Char) : Bool := c == '\t' || (32 ≤ c.toNat && c.toNat != 127)

def isSpace (c : Char) : Bool := c == ' ' || c == '\t'

def isSpaceOrBreak (c : Char) : Bool := isSpace c || c == '\n'

def escaped? (c : Char) : Option Char :=
  if c = 'b' then some (Char.ofNat 8)
  else if c = 't' then some '\t'
  else if c = 'n' then some '\n'
  else if c = 'f' then some (Char.ofNat 12)
  else if c = 'r' then some '\r'
  else if c = '"' || c = '\\' then some c
  else none

/-- The character with the code that hexadecimal digits give. -/
def coded? (cs : List Char) : Option Char := do
  let code := Text.ofHexDigits (← cs.mapM Text.hexDigit?)
  if code.isValidChar then some (Char.ofNat code) else none

/-- Reads up to the closing double quote; `read` holds what was read, last first. -/
def readBasic (read : List Char) : List Char → Option (List Char × List Char)
  | [] => none
  | '"' :: rest => some (read.reverse, rest)
  | '\\' :: 'u' :: a :: b :: c :: d :: rest => match coded? [a, b, c, d] with
    | some x => readBasic (x :: read) rest
    | none => none
  | '\\' :: 'U' :: a :: b :: c :: d :: e :: f :: g :: h :: rest =>
    match coded? [a, b, c, d, e, f, g, h] with
    | some x => readBasic (x :: read) rest
    | none => none
  | '\\' :: c :: rest => match escaped? c with
    | some x => readBasic (x :: read) rest
    | none => none
  | c :: rest => if isPlain c && c != '\\' then readBasic (c :: read) rest else none

def readLiteral (cs : List Char) : Option (List Char × List Char) :=
  let isInside := fun c => isPlain c && c != '\''
  match cs.dropWhile isInside with
  | '\'' :: rest => some (cs.takeWhile isInside, rest)
  | _ => none

/-- If the text starts with three quotes, those that still belong to the text before it, and what
follows the closing ones. -/
def closing? (quote : Char) (cs : List Char) : Option (List Char × List Char) :=
  let run := (cs.takeWhile fun c => c == quote).length
  if run < 3 then none
  else
    let extra := min (run - 3) 2
    some (List.replicate extra quote, cs.drop (extra + 3))

/-- Whether the line holds nothing but blanks from here on. -/
def endsLine (cs : List Char) : Bool := (cs.dropWhile isSpace).head? == some '\n'

/-- Reads up to the closing three double quotes. A backslash that ends its line is dropped with
every blank and line break after it, which are skipped while `skipping`. -/
def readBasicLines : Bool → List Char → List Char → Option (List Char × List Char)
  | _, _, [] => none
  | skipping, read, c :: rest =>
    if skipping && isSpaceOrBreak c then readBasicLines true read rest
    else if c = '"' then match closing? '"' (c :: rest) with
      | some (quotes, rest) => some ((quotes ++ read).reverse, rest)
      | none => readBasicLines false (c :: read) rest
    else if c = '\\' then
      if endsLine rest then readBasicLines true read rest
      else match rest with
        | 'u' :: a :: b :: c :: d :: rest => match coded? [a, b, c, d] with
          | some x => readBasicLines false (x :: read) rest
          | none => none
        | 'U' :: a :: b :: c :: d :: e :: f :: g :: h :: rest =>
          match coded? [a, b, c, d, e, f, g, h] with
          | some x => readBasicLines false (x :: read) rest
          | none => none
        | c :: rest => match escaped? c with
          | some x => readBasicLines false (x :: read) rest
          | none => none
        | [] => none
    else if isPlain c || c == '\n' then readBasicLines false (c :: read) rest
    else none

def readLiteralLines (read : List Char) : List Char → Option (List Char × List Char)
  | [] => none
  | c :: rest =>
    if c = '\'' then match closing? '\'' (c :: rest) with
      | some (quotes, rest) => some ((quotes ++ read).reverse, rest)
      | none => readLiteralLines (c :: read) rest
    else if isPlain c || c == '\n' then readLiteralLines (c :: read) rest
    else none

/-- A line break right after the opening quotes is no part of the text. -/
def dropBreak : List Char → List Char
  | '\n' :: rest => rest
  | cs => cs

def readText : List Char → Option (List Char × List Char)
  | '"' :: '"' :: '"' :: rest => readBasicLines false [] (dropBreak rest)
  | '"' :: rest => readBasic [] rest
  | '\'' :: '\'' :: '\'' :: rest => readLiteralLines [] (dropBreak rest)
  | '\'' :: rest => readLiteral rest
  | _ => none

inductive Style
  | basic
  | literal
  | basicLines
  | literalLines
  deriving DecidableEq, Repr

/-- Whether a character can stand in a text only by an escape with its code or its letter. -/
def needsEscape (c : Char) : Bool := !isPlain c && c != '\n'

def longestRun (c : Char) (cs : List Char) : Nat :=
  ((cs.splitOnP fun d => d != c).map List.length).foldl max 0

/-- The plainest style the text can be written in: on one line without escapes, then over several
lines without escapes, then with them. -/
def Style.for (cs : List Char) : Style :=
  let escapes := cs.any needsEscape
  let lines := cs.contains '\n'
  let backslash := cs.contains '\\'
  if !escapes && !backslash && !cs.contains '"' && !lines then .basic
  else if !escapes && !cs.contains '\'' && !lines then .literal
  else if !escapes && !backslash && longestRun '"' cs ≤ 2 then .basicLines
  else if !escapes && longestRun '\'' cs ≤ 2 then .literalLines
  else if lines then .basicLines
  else .basic

def code4 (c : Char) : List Char :=
  let ds := (Text.hexadecimal c.toNat).map Char.toUpper
  List.replicate (4 - ds.length) '0' ++ ds

def escapeChar (c : Char) : List Char :=
  if c.toNat = 8 then ['\\', 'b']
  else if c = '\t' then ['\\', 't']
  else if c = '\n' then ['\\', 'n']
  else if c.toNat = 12 then ['\\', 'f']
  else if c = '\r' then ['\\', 'r']
  else if c = '\\' then ['\\', '\\']
  else if c = '"' then ['\\', '"']
  else if c.toNat < 32 || c.toNat = 127 then '\\' :: 'u' :: code4 c
  else [c]

/-- Over several lines a line break stands for itself, and so do the first two of a run of quotes;
`quotes` counts those that were written as they are. -/
def escapeLines (quotes : Nat) : List Char → List Char
  | [] => []
  | c :: rest =>
    if c = '"' && quotes < 2 then c :: escapeLines (quotes + 1) rest
    else if c = '\n' then c :: escapeLines 0 rest
    else escapeChar c ++ escapeLines 0 rest

/-- A text that holds a line break starts on a line of its own. -/
def opening (quotes : String) (cs : List Char) : List Char :=
  quotes.toList ++ if cs.contains '\n' then ['\n'] else []

def textOf (s : String) : List Char :=
  let cs := s.toList
  match Style.for cs with
  | .basic => '"' :: cs.flatMap escapeChar ++ ['"']
  | .literal => '\'' :: cs ++ ['\'']
  | .basicLines => opening "\"\"\"" cs ++ escapeLines 0 cs ++ "\"\"\"".toList
  | .literalLines => opening "'''" cs ++ cs ++ "'''".toList

end PushGateway.Toml
