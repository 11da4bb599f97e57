import PushGateway.Duration

/-!
How a store is set up.
-/

namespace PushGateway

/-- Without a file everything is kept in memory. -/
structure StoreOptions where
  persistenceFile : Option String
  persistenceInterval : Duration
  requestTimeout : Duration
  queueDepth : Nat
  deriving DecidableEq, Repr

def StoreOptions.default : StoreOptions := ⟨none, .ofSeconds 300, .ofSeconds 5, 1024⟩

/-- No queue has more places. -/
def StoreOptions.depthLimit : Nat := UInt64.size / 8 - 1

end PushGateway
