import PushGateway.Address.Listen
import PushGateway.Config
import PushGateway.Store.Options

/-!
Effective settings: values given on the command line come before those of the configuration file,
which come before the built-in ones.
-/

namespace PushGateway

/-- Values given on the command line. -/
structure Overrides where
  addr : Option String
  persistenceFile : Option String
  persistenceInterval : Option Duration
  deriving DecidableEq

structure Settings where
  addr : Address.Listen
  persistenceFile : Option String
  persistenceInterval : Duration
  requestTimeout : Duration
  queueDepth : Nat
  shutdownGrace : Duration
  deriving DecidableEq

inductive SettingsError
  | address (error : Address.Listen.Error)
  | duration (key : String) (error : Duration.Invalid)
  | noQueueSlot
  deriving DecidableEq, Repr

def SettingsError.message : SettingsError → String
  | .address error => error.message
  | .duration key _ => key
  | .noQueueSlot => "store.queue_depth must be at least 1"

/-- What is behind the message, outermost first. -/
def SettingsError.causes : SettingsError → List String
  | .address error => [error.cause]
  | .duration _ error => [error.message]
  | .noQueueSlot => []

namespace Settings

def defaultAddr : String := ":8080"

def defaultShutdownGrace : Duration := .ofSeconds 1

def durationOr (key : String) (value : Option String) (default : Duration) :
    Except SettingsError Duration :=
  match value with
  | some s => (Duration.parse s).mapError (.duration key)
  | none => .ok default

def intervalOf (given : Overrides) (file : Config) : Except SettingsError Duration :=
  match given.persistenceInterval with
  | some d => .ok d
  | none => durationOr "persistence.duration" file.persistence.duration
      StoreOptions.default.persistenceInterval

/-- An empty file name turns persistence off, wherever it comes from. -/
def resolve (given : Overrides) (file : Config) : Except SettingsError Settings := do
  let addr ← (Address.Listen.parse ((given.addr.or file.addr).getD defaultAddr)).mapError .address
  let interval ← intervalOf given file
  let timeout ← durationOr "store.request_timeout" file.store.requestTimeout
    StoreOptions.default.requestTimeout
  let grace ← durationOr "shutdown_grace" file.shutdownGrace defaultShutdownGrace
  let depth := file.store.queueDepth.getD StoreOptions.default.queueDepth
  if depth = 0 then throw .noQueueSlot
  return ⟨addr, (given.persistenceFile.or file.persistence.file).filter fun s => s != "",
    interval, timeout, depth, grace⟩

/-- Without a file the interval does not matter and stays as it is by default. -/
def storeOptions (s : Settings) : StoreOptions where
  persistenceFile := s.persistenceFile
  persistenceInterval := match s.persistenceFile with
    | some _ => s.persistenceInterval
    | none => StoreOptions.default.persistenceInterval
  requestTimeout := s.requestTimeout
  queueDepth := s.queueDepth

end Settings

end PushGateway
