import PushGateway.Snapshot.Contents

/-!
The files that snapshots are kept in. A file that is open is held under a lease: its contents are
with the one who holds the lease until they are given back, wherever the file was moved meanwhile.
-/

namespace PushGateway.Snapshot

/-- The names on the way from the root. -/
abbrev Path := List String

/-- Where a path leads when all that is at `source` goes to `target`. -/
def Path.relocate (p source target : Path) : Path :=
  if source.isPrefixOf p then target ++ p.drop source.length else p

/-- A name has at most 255 bytes, of which none is zero. -/
def isName (s : String) : Bool := s.utf8ByteSize ≤ 255 && s.toList.all fun c => c.toNat != 0

/-- The path beside a path at which an unusable file is put. -/
def Path.aside? (p : Path) : Option Path :=
  let name := p.getLastD "" ++ ".corrupt"
  if isName name then some (p.dropLast ++ [name]) else none

/-- A foreign node is a database whose tables have other columns; a held one is known by the number
of its lease. -/
inductive Node
  | directory
  | text (s : String)
  | foreign
  | database (contents : Contents)
  | held (lease : Nat)
  deriving DecidableEq

/-- An open file: the number it is known by, and what it holds. -/
structure Lease where
  number : Nat
  contents : Contents
  deriving DecidableEq

/-- The working directory, the nodes by their paths, and the number of the next lease. -/
structure Disk where
  home : Path
  nodes : SortedMap Path Node
  nextLease : Nat
  deriving DecidableEq

namespace Disk

/-- Nothing but the directories on the way to the working directory. -/
def empty (home : Path) : Disk :=
  ⟨home, .ofList ((List.range home.length).map fun n => (home.take (n + 1), .directory)), 0⟩

def get? (d : Disk) (p : Path) : Option Node := d.nodes.get? p

def set (d : Disk) (p : Path) (n : Node) : Disk := { d with nodes := d.nodes.insert p n }

/-- The root is always there. -/
def isDirectory (d : Disk) (p : Path) : Bool := p.isEmpty || d.get? p == some .directory

/-- Holds the file at a path, under a number that was never given before. -/
def hold (d : Disk) (p : Path) (c : Contents) : Disk × Lease :=
  ({ d.set p (.held d.nextLease) with nextLease := d.nextLease + 1 }, ⟨d.nextLease, c⟩)

/-- Opens the database at a path and holds it. A missing file, and a file that holds nothing,
becomes an empty database. -/
def acquire (d : Disk) (p : Path) : Except SnapshotError (Disk × Lease) :=
  if p.isEmpty || !d.isDirectory p.dropLast then .error .unusable
  else match d.get? p with
    | none => .ok (d.hold p .empty)
    | some (.text s) => if s.isEmpty then .ok (d.hold p .empty) else .error .unusable
    | some .directory => .error .unusable
    | some .foreign => .error .wrongTables
    | some (.held _) => .error .locked
    | some (.database c) => .ok (d.hold p c)

/-- Gives the contents of a held file back. A file that was replaced meanwhile is gone. -/
def release (d : Disk) (l : Lease) : Disk :=
  { d with nodes := d.nodes.mapValues fun n =>
    if n = .held l.number then .database l.contents else n }

def hasChildren (d : Disk) (p : Path) : Bool := d.nodes.keys.any fun q => p.isPrefixOf q && q != p

/-- The working directory goes with the directory it is in. -/
def move (d : Disk) (source target : Path) : Disk :=
  { d with
    home := d.home.relocate source target
    nodes := .ofList ((d.nodes.erase target).entries.map fun (p, n) =>
      (p.relocate source target, n)) }

/-- A directory may replace an empty directory, and a file may replace a file. -/
def mayReplace (d : Disk) (source : Node) (target : Path) : Bool :=
  match source, d.get? target with
  | _, none => true
  | .directory, some .directory => !d.hasChildren target
  | .directory, some _ => false
  | _, some .directory => false
  | _, some _ => true

def rename? (d : Disk) (source target : Path) : Option Disk :=
  match d.get? source with
  | some n => if d.mayReplace n target then some (d.move source target) else none
  | none => none

end Disk

end PushGateway.Snapshot
