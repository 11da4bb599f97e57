import PushGateway.Toml.Basic
import PushGateway.Toml.Number
import PushGateway.Toml.Text
import PushGateway.Toml.Time

/-!
Reading TOML text: first as a list of statements, each a key with a value or a header, and then,
statement by statement, as one table.
-/

namespace PushGateway.Toml

def skipSpace (cs : List Char) : List Char := cs.dropWhile isSpace

/-- Skips blanks, line breaks and comments; none if a comment does not end its line. -/
def skipFiller : Bool → List Char → Option (List Char)
  | _, [] => some []
  | false, c :: rest =>
    if isSpaceOrBreak c then skipFiller false rest
    else if c = '#' then skipFiller true rest
    else some (c :: rest)
  | true, c :: rest =>
    if c = '\n' then skipFiller false rest
    else if isPlain c then skipFiller true rest
    else none

/-- What follows the end of a line, before which blanks and a comment may stand. -/
def skipLineEnd? (cs : List Char) : Option (List Char) :=
  let cs := match skipSpace cs with
    | '#' :: rest => rest.dropWhile isPlain
    | cs => cs
  match cs with
  | [] => some []
  | '\n' :: rest => some rest
  | _ => none

def isBareKeyChar (c : Char) : Bool :=
  Numeral.isDigit c || ('A'.toNat ≤ c.toNat && c.toNat ≤ 'Z'.toNat)
    || ('a'.toNat ≤ c.toNat && c.toNat ≤ 'z'.toNat) || c == '_' || c == '-'

def readSimpleKey? : List Char → Option (List Char × List Char)
  | '"' :: rest => readBasic [] rest
  | '\'' :: rest => readLiteral rest
  | cs =>
    let key := cs.takeWhile isBareKeyChar
    if key.isEmpty then none else some (key, cs.dropWhile isBareKeyChar)

/-- No key has as many parts, and no value is nested as deeply, as this. -/
def nestingLimit : Nat := 80

/-- The parts of a key, between which stand points, and what follows; `fuel` bounds their
number. -/
def readKeyParts? : Nat → List Char → Option (List String × List Char)
  | 0, _ => none
  | fuel + 1, cs => do
    let (part, cs) ← readSimpleKey? (skipSpace cs)
    match skipSpace cs with
    | '.' :: rest =>
      let (parts, rest) ← readKeyParts? fuel rest
      return (String.ofList part :: parts, rest)
    | rest => return ([String.ofList part], rest)

structure Key where
  path : List String
  last : String
  deriving DecidableEq, Repr

def Key.ofParts? (parts : List String) : Option Key :=
  match parts.reverse with
  | [] => none
  | last :: before => some ⟨before.reverse, last⟩

def readKey? (cs : List Char) : Option (Key × List Char) := do
  let (parts, rest) ← readKeyParts? (nestingLimit - 1) cs
  return (← Key.ofParts? parts, rest)

def readScalar? (cs : List Char) : Option (Toml × List Char) :=
  match cs with
  | '"' :: _ | '\'' :: _ => (readText cs).map fun (s, rest) => (.text (String.ofList s), rest)
  | 't' :: 'r' :: 'u' :: 'e' :: rest => some (.boolean true, rest)
  | 'f' :: 'a' :: 'l' :: 's' :: 'e' :: rest => some (.boolean false, rest)
  | _ => match skipDateTime? cs with
    | some rest => some (.time (String.ofList (cs.take (cs.length - rest.length))), rest)
    | none => match readFloat? cs with
      | some (x, rest) => some (.float x, rest)
      | none => (readInteger? cs).map fun (i, rest) => (.integer i, rest)

mutual

/-- A value and what follows it; `room` counts the levels it may still nest, and `fuel` bounds the
number of steps. -/
def readValue? : Nat → Nat → List Char → Option (Toml × List Char)
  | 0, _, _ => none
  | fuel + 1, room, cs => match cs, room with
    | '[' :: rest, room + 1 =>
      (readItems? fuel room [] rest).map fun (items, rest) => (.array items, rest)
    | '{' :: rest, room + 1 => match skipSpace rest with
      | '}' :: rest => some (.table .inline [], rest)
      | rest => (readMembers? fuel room [] rest).map fun (ms, rest) => (.table .inline ms, rest)
    | '[' :: _, 0 => none
    | '{' :: _, 0 => none
    | cs, _ => readScalar? cs

/-- The items of an array up to its end, with an optional comma after the last; `read` holds those
before, last first. -/
def readItems? : Nat → Nat → List Toml → List Char → Option (List Toml × List Char)
  | 0, _, _, _ => none
  | fuel + 1, room, read, cs => match skipFiller false cs with
    | none => none
    | some (']' :: rest) => some (read.reverse, rest)
    | some cs => match readValue? fuel room cs with
      | none => none
      | some (v, cs) => match skipFiller false cs with
        | some (',' :: rest) => readItems? fuel room (v :: read) rest
        | some (']' :: rest) => some ((v :: read).reverse, rest)
        | _ => none

def readMembers? : Nat → Nat → Members → List Char → Option (Members × List Char)
  | 0, _, _, _ => none
  | fuel + 1, room, read, cs => match readKey? cs with
    | some (key, '=' :: rest) => match readValue? fuel room (skipSpace rest) with
      | none => none
      | some (v, cs) => match read.add key.path key.last v with
        | none => none
        | some ms => match skipSpace cs with
          | ',' :: rest => readMembers? fuel room ms rest
          | '}' :: rest => some (ms, rest)
          | _ => none
    | _ => none

end

inductive Statement
  | value (key : Key) (value : Toml)
  | table (key : Key)
  | tables (key : Key)

def readStatement? (cs : List Char) : Option (Statement × List Char) :=
  match cs with
  | '[' :: '[' :: rest => match readKey? rest with
    | some (key, ']' :: ']' :: rest) => (skipLineEnd? rest).map fun rest => (.tables key, rest)
    | _ => none
  | '[' :: rest => match readKey? rest with
    | some (key, ']' :: rest) => (skipLineEnd? rest).map fun rest => (.table key, rest)
    | _ => none
  | cs => match readKey? cs with
    | some (key, '=' :: rest) => do
      let (v, rest) ← readValue? (2 * rest.length + 2) (nestingLimit - 1) (skipSpace rest)
      return (.value key v, ← skipLineEnd? rest)
    | _ => none

/-- The statements of a text; `fuel` bounds their number. -/
def readStatements? : Nat → List Char → Option (List Statement)
  | 0, _ => none
  | fuel + 1, cs => match skipFiller false cs with
    | none => none
    | some [] => some []
    | some cs => do
      let (s, rest) ← readStatement? cs
      return s :: (← readStatements? fuel rest)

/-- The root table so far, and the path of the header that is in force. -/
structure Assembly where
  root : Members
  path : List String

namespace Assembly

def empty : Assembly := ⟨[], []⟩

def apply (a : Assembly) : Statement → Option Assembly
  | .value key v =>
    (a.root.update false (fun _ ms => ms.add key.path key.last v) .header a.path).map fun root =>
      { a with root }
  | .table key => (a.root.update false (openTable key.last) .header key.path).map fun root =>
      ⟨root, key.path ++ [key.last]⟩
  | .tables key => (a.root.update false (openTables key.last) .header key.path).map fun root =>
      ⟨root, key.path ++ [key.last]⟩

end Assembly

def joinBreaks : List Char → List Char
  | '\r' :: '\n' :: rest => '\n' :: joinBreaks rest
  | c :: rest => c :: joinBreaks rest
  | [] => []

/-- A mark of the byte order at the start is skipped. -/
def dropMark : List Char → List Char
  | c :: rest => if c.toNat = 0xFEFF then rest else c :: rest
  | [] => []

/-- The root table of a text. Each statement takes a character. -/
def read? (s : String) : Option Members := do
  let cs := dropMark (joinBreaks s.toList)
  let statements ← readStatements? (cs.length + 1) cs
  return (← statements.foldlM Assembly.apply Assembly.empty).root

end PushGateway.Toml
