import PushGateway.Exposition.Block

/-!
Reading a whole payload. Lines are filed one after the other; a line that names another family
than the open block's closes that block, and no family may be opened twice.
-/

namespace PushGateway.Exposition

structure Assembly where
  finished : Array Family
  open? : Option Block
  deriving DecidableEq

namespace Assembly

def start : Assembly := ⟨#[], none⟩

def hasFinished (a : Assembly) (name : String) : Bool := a.finished.any fun f => f.name == name

/-- Closes the open block. A fault of the family is reported at the line the block starts at. -/
def close (a : Assembly) : Except ParseError (Array Family) :=
  match a.open? with
  | none => .ok a.finished
  | some b => match b.build with
    | .ok f => .ok (a.finished.push f)
    | .error cause => .error ⟨b.start, cause⟩

/-- The block of the named family and the families finished before it. -/
def enter (a : Assembly) (line : Nat) (name : String) :
    Except ParseError (Array Family × Block) := do
  match a.open? with
  | some b => if b.name = name then return (a.finished, b)
  | none => pure ()
  if a.hasFinished name then throw ⟨line, .repeatedBlock name⟩
  return (← a.close, Block.empty name line)

/-- The family that a series of the given name goes to: the open one if the series belongs to it,
else the one of that name. -/
def owner (a : Assembly) (metric : String) : String :=
  match a.open? with
  | some b => if (b.role? metric).isSome then b.name else metric
  | none => metric

def amend (a : Assembly) (line : Nat) (family : String) (f : Block → Except ParseCause Block) :
    Except ParseError Assembly := do
  let (finished, b) ← a.enter line family
  match f b with
  | .ok b => return ⟨finished, some b⟩
  | .error cause => throw ⟨line, cause⟩

def file (a : Assembly) (line : Nat) : Line → Except ParseError Assembly
  | .skip => .ok a
  | .help family text => a.amend line family fun b => b.setHelp text
  | .type family t => a.amend line family fun b => b.setType t
  | .series s => a.amend line (a.owner s.metric) fun b => b.addSeries s

end Assembly

def fileText (state : Nat × Assembly) (cs : List Char) : Except ParseError (Nat × Assembly) :=
  match readLine cs with
  | .error cause => .error ⟨state.1, cause⟩
  | .ok line => (state.2.file state.1 line).map fun a => (state.1 + 1, a)

/-- The lines of a text. A carriage return at the end of a line is a blank of that line. -/
def lines (text : String) : List (List Char) := text.toList.splitOn '\n'

def parse (text : String) : Except ParseError (List Family) := do
  let (_, a) ← (lines text).foldlM fileText (1, Assembly.start)
  return (← a.close).toList

end PushGateway.Exposition
