import PushGateway.Toml.Reader

/-!
The configuration file. Every key is optional and unknown keys are passed over. A section may be
written as a table, or as an array of its values in order.
-/

namespace PushGateway

structure Config.Persistence where
  file : Option String
  duration : Option String
  deriving DecidableEq, Repr

structure Config.Store where
  requestTimeout : Option String
  queueDepth : Option Nat
  deriving DecidableEq, Repr

/-- Durations and the address are kept as text, which is judged when settings are made of it. -/
structure Config where
  addr : Option String
  shutdownGrace : Option String
  persistence : Config.Persistence
  store : Config.Store
  deriving DecidableEq, Repr

namespace Config

def empty : Config := ⟨none, none, ⟨none, none⟩, ⟨none, none⟩⟩

def padded : List String → List Toml → List (Option Toml)
  | [], _ => []
  | _ :: names, [] => none :: padded names []
  | _ :: names, v :: vs => some v :: padded names vs

/-- The named values of a section. A time has none of them. -/
def sectionValues? (names : List String) : Toml → Option (List (Option Toml))
  | .table _ ms => some (names.map (Toml.Members.get? ms))
  | .array items => some (padded names items)
  | .time _ => some (names.map fun _ => none)
  | _ => none

def toText? : Option Toml → Option (Option String)
  | none => some none
  | some (.text s) => some (some s)
  | some _ => none

def toNat? : Option Toml → Option (Option Nat)
  | none => some none
  | some (.integer (.ofNat n)) => some (some n)
  | some _ => none

def toPersistence? : Option Toml → Option Persistence
  | none => some ⟨none, none⟩
  | some v => do
    match ← sectionValues? ["file", "duration"] v with
    | [file, duration] => return ⟨← toText? file, ← toText? duration⟩
    | _ => none

def toStore? : Option Toml → Option Store
  | none => some ⟨none, none⟩
  | some v => do
    match ← sectionValues? ["request_timeout", "queue_depth"] v with
    | [timeout, depth] => return ⟨← toText? timeout, ← toNat? depth⟩
    | _ => none

def ofMembers? (ms : Toml.Members) : Option Config := do
  return ⟨← toText? (ms.get? "addr"), ← toText? (ms.get? "shutdown_grace"),
    ← toPersistence? (ms.get? "persistence"), ← toStore? (ms.get? "store")⟩

def read? (s : String) : Option Config := (Toml.read? s).bind ofMembers?

/-- A line that sets a key, unless there is no value. -/
def line (key : String) : Option (List Char) → List Char
  | some value => key.toList ++ " = ".toList ++ value ++ ['\n']
  | none => []

def textLine (key : String) (value : Option String) : List Char := line key (value.map Toml.textOf)

/-- Keys outside the sections come first; both sections are written, with a blank line before each
but one that starts the text. -/
def text (c : Config) : String :=
  let top := textLine "addr" c.addr ++ textLine "shutdown_grace" c.shutdownGrace
  String.ofList (top ++ (if top.isEmpty then [] else ['\n']) ++ "[persistence]\n".toList
    ++ textLine "file" c.persistence.file ++ textLine "duration" c.persistence.duration
    ++ "\n[store]\n".toList ++ textLine "request_timeout" c.store.requestTimeout
    ++ line "queue_depth" (c.store.queueDepth.map Numeral.digits))

end Config

end PushGateway
