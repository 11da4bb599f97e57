import PushGateway.Snapshot.Disk

/-!
What the text of a file name leads to. A name that does not begin at the root goes on from the
working directory. Its components are walked one by one: a dot and an empty component stay where
they are, two dots go up, and a name goes down into a directory that has to be there. Only the last
component may name what is not there, or is no directory.
-/

namespace PushGateway.Snapshot

/-- An entry of a directory, which may be missing, or a directory that was walked into. -/
inductive Location
  | entry (path : Path)
  | directory (path : Path)
  deriving DecidableEq, Repr

def components (file : String) : List String := (file.toList.splitOn '/').map String.ofList

def isStep (component : String) : Bool := component = "" || component = "." || component = ".."

namespace Disk

/-- The directory that a component leads to. Above the root there is nothing but the root. -/
def step? (d : Disk) (here : Path) (component : String) : Option Path :=
  if component = ".." then some here.dropLast
  else if isStep component then some here
  else if d.isDirectory (here ++ [component]) then some (here ++ [component])
  else none

def locateFrom? (d : Disk) (here : Path) : List String → Option Location
  | [] => some (.directory here)
  | [last] =>
    if isStep last then (d.step? here last).map .directory
    else if isName last then some (.entry (here ++ [last]))
    else none
  | component :: rest => do d.locateFrom? (← d.step? here component) rest

/-- The directory in which the walk begins. -/
def origin (d : Disk) (file : String) : Path := if file.toList.head? = some '/' then [] else d.home

def locate? (d : Disk) (file : String) : Option Location :=
  d.locateFrom? (d.origin file) (components file)

def node? (d : Disk) : Location → Option Node
  | .entry p => d.get? p
  | .directory _ => some .directory

def find? (d : Disk) (file : String) : Option Node := do d.node? (← d.locate? file)

def readText? (d : Disk) (file : String) : Option String :=
  match d.find? file with
  | some (.text s) => some s
  | _ => none

/-- Puts a file in the place of another or of none. One that is held is left to its holder. -/
def write? (d : Disk) (file : String) (n : Node) : Option Disk :=
  match d.locate? file with
  | some (.entry p) => match d.get? p with
    | some .directory => none
    | some (.held _) => some d
    | _ => some (d.set p n)
  | _ => none

/-- Walks into a directory, which is made if nothing has its name. -/
def enter? (d : Disk) (here : Path) (component : String) : Option (Disk × Path) :=
  match d.step? here component with
  | some there => some (d, there)
  | none =>
    let there := here ++ [component]
    if !isStep component && isName component && (d.get? there).isNone then
      some (d.set there .directory, there)
    else none

def enterAll? (d : Disk) (here : Path) : List String → Option Disk
  | [] => some d
  | component :: rest => do
    let (d, there) ← d.enter? here component
    d.enterAll? there rest

def makeDirectory? (d : Disk) (file : String) : Option Disk :=
  d.enterAll? (d.origin file) (components file)

end Disk

end PushGateway.Snapshot
