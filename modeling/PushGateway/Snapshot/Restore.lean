import PushGateway.Snapshot.Location

/-!
Opening the snapshot file a store starts from. This never fails: a file that cannot be opened is
put aside and a fresh one takes its place, and contents that cannot be decoded count as no groups.
-/

namespace PushGateway.Snapshot

/-- The disk after opening, the lease of the file if it is held, and the groups found. -/
structure Restored where
  disk : Disk
  file : Option Lease
  groups : List Group

def Restored.nothing (d : Disk) : Restored := ⟨d, none, []⟩

def Restored.ofOpened (d : Disk) (l : Lease) : Restored :=
  ⟨d, some l, match l.contents.load with
    | .ok groups => groups
    | .error _ => []⟩

def openFile (d : Disk) (file : String) : Except SnapshotError (Disk × Lease) :=
  match d.locate? file with
  | some (.entry p) => d.acquire p
  | _ => .error .unusable

/-- A directory that was walked into has no name under which it could be put aside. -/
def putAside? (d : Disk) (file : String) : Option Disk := do
  match ← d.locate? file with
  | .entry p => d.rename? p (← p.aside?)
  | .directory _ => none

/-- A fresh file in place of one that was put aside. Its name is walked again, and may have led
through what is no longer there. -/
def reopen (d : Disk) (file : String) : Restored :=
  match openFile d file with
  | .ok (d, l) => .ofOpened d l
  | .error _ => .nothing d

def restore (d : Disk) (file : String) : Restored :=
  match openFile d file with
  | .ok (d, l) => .ofOpened d l
  | .error .locked => .nothing d
  | .error _ => match putAside? d file with
    | some d => reopen d file
    | none => .nothing d

def edit (d : Disk) (file : String) (f : Contents → Contents) : Except SnapshotError Disk := do
  let (d, l) ← openFile d file
  return d.release { l with contents := f l.contents }

/-- The contents of a file, which is made if it is missing. -/
def read (d : Disk) (file : String) : Except SnapshotError (Disk × Contents) := do
  let (d, l) ← openFile d file
  return (d.release l, l.contents)

/-- Restores from a file and gives it back at once. -/
def inspect (d : Disk) (file : String) : Restored :=
  let r := restore d file
  match r.file with
  | some l => { r with disk := r.disk.release l }
  | none => r

end PushGateway.Snapshot
