import PushGateway.Json.Metrics

/-!
The contents of a snapshot file: the version of its format, and one row for each group, named by
the text of the group's key. A write replaces all of it.
-/

namespace PushGateway

inductive SnapshotError
  | unusable
  | locked
  | wrongTables
  | version (found : UInt64)
  | undecodable
  | unwritten
  deriving DecidableEq, Repr

def SnapshotError.message : SnapshotError → String
  | .unusable => "failed to open snapshot file"
  | .locked => "snapshot file is locked by another store"
  | .wrongTables => "table error"
  | .version found => "unsupported snapshot format version "
      ++ String.ofList (Numeral.digits found.toNat)
  | .undecodable => "deserialization error"
  | .unwritten => "write error"

namespace Snapshot

/-- A file that was never written has no version. -/
structure Contents where
  version : Option UInt64
  rows : SortedMap String String
  deriving DecidableEq

namespace Contents

def empty : Contents := ⟨none, SortedMap.empty⟩

def formatVersion : UInt64 := 1

def row (g : Group) : String × String := (g.key.text, (Json.ofGroup g).render)

/-- Of several groups with one key the last stays. -/
def ofGroups (groups : List Group) : Contents :=
  ⟨some formatVersion, SortedMap.ofList (groups.map row)⟩

/-- A stored group is built anew, so that it is one that a push could have built. -/
def decodeRow (text : String) : Except SnapshotError Group :=
  match Json.readGroup? text with
  | none => .error .undecodable
  | some g => match Group.build g.key g.families.values g.lastPush g.pushSeq with
    | .ok g => .ok g
    | .error _ => .error .undecodable

/-- The groups in the order of their rows. One row that cannot be decoded spoils them all. -/
def load (c : Contents) : Except SnapshotError (List Group) :=
  match c.version with
  | none => .ok []
  | some v => if v = formatVersion then c.rows.values.mapM decodeRow else .error (.version v)

end Contents

end Snapshot

end PushGateway
