import PushGateway.Binary64.Basic

/-!
TOML values. A table remembers how it came about, which decides whether it may be added to: by
a header of its own, by a header of a table inside it, by a dotted key, or as a value in braces.
-/

namespace PushGateway

inductive Toml.Origin
  | header
  | implicit
  | dotted
  | inline
  deriving DecidableEq, Repr

/-- A date or a time is kept as it is written. -/
inductive Toml
  | text (s : String)
  | integer (i : Int)
  | float (x : Binary64)
  | boolean (b : Bool)
  | time (literal : String)
  | array (items : List Toml)
  | table (origin : Toml.Origin) (members : List (String × Toml))
  | tables (items : List (List (String × Toml)))

namespace Toml

abbrev Members := List (String × Toml)

def Members.get? (ms : Members) (key : String) : Option Toml :=
  (ms.find? fun m => m.1 == key).map Prod.snd

def Members.set (ms : Members) (key : String) (value : Toml) : Members :=
  if ms.any fun m => m.1 == key then ms.map fun m => if m.1 == key then (key, value) else m
  else ms ++ [(key, value)]

/-- The table that `path` leads to, changed by `f`, which also gets the origin of that table.
Missing tables are made on the way, a list of tables leads to its last one, and a dotted key leads
only through tables that have no header of their own. -/
def Members.update (dotted : Bool) (f : Origin → Members → Option Members) (origin : Origin) :
    List String → Members → Option Members
  | [], ms => f origin ms
  | key :: path, ms => match ms.get? key with
    | none =>
      let made := if dotted then Origin.dotted else Origin.implicit
      (update dotted f made path []).map fun inner => ms.set key (.table made inner)
    | some (.table o inner) =>
      if o = .inline || (dotted && o = .header) then none
      else (update dotted f o path inner).map fun inner => ms.set key (.table o inner)
    | some (.tables items) => match items.reverse with
      | [] => none
      | last :: before => (update dotted f .header path last).map fun inner =>
          ms.set key (.tables (before.reverse ++ [inner]))
    | some _ => none

/-- Adds a value under a key that is new. A dotted key adds only to a table made by dotted keys. -/
def addValue (dotted : Bool) (key : String) (value : Toml) (origin : Origin) (ms : Members) :
    Option Members :=
  if (origin == .dotted) != dotted then none
  else if (ms.get? key).isSome then none
  else some (ms.set key value)

def Members.add (ms : Members) (path : List String) (key : String) (value : Toml) :
    Option Members :=
  ms.update true (addValue (!path.isEmpty) key value) .header path

/-- The table that a header names: a new one, or one that so far came about by the headers of
tables inside it. -/
def openTable (key : String) (_ : Origin) (ms : Members) : Option Members :=
  match ms.get? key with
  | none => some (ms.set key (.table .header []))
  | some (.table .implicit inner) => some (ms.set key (.table .header inner))
  | some _ => none

def openTables (key : String) (_ : Origin) (ms : Members) : Option Members :=
  match ms.get? key with
  | none => some (ms.set key (.tables [[]]))
  | some (.tables items) => some (ms.set key (.tables (items ++ [[]])))
  | some _ => none

end Toml

end PushGateway
