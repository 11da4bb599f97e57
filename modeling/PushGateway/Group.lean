import PushGateway.GroupingKey
import PushGateway.Validation

/-!
Metric groups: what one grouping key holds, with the time of the push and its place in the order
of all pushes.
-/

namespace PushGateway

structure Group where
  key : GroupingKey
  families : SortedMap String Family
  lastPush : UInt64
  pushSeq : UInt64
  deriving DecidableEq

namespace Group

/-- The first sample with a label of the key decides which collision is reported. -/
def collision? (key : GroupingKey) (f : Family) : Option String :=
  f.samples.findSome? fun s => s.labels.keys.find? key.containsLabel

def checkCollisions (key : GroupingKey) (f : Family) : Except ValidationError Unit :=
  match collision? key f with
  | some label => .error (.labelCollision f.name label)
  | none => .ok ()

def addFamily (key : GroupingKey) (m : SortedMap String Family) (f : Family) :
    Except ValidationError (SortedMap String Family) := do
  f.validate
  checkCollisions key f
  if m.contains f.name then throw (.duplicateFamily f.name)
  return m.insert f.name f

def build (key : GroupingKey) (families : List Family) (lastPush pushSeq : UInt64) :
    Except ValidationError Group := do
  let byName ← families.foldlM (addFamily key) SortedMap.empty
  return ⟨key, byName, lastPush, pushSeq⟩

def sampleCount (g : Group) : Nat :=
  g.families.values.foldr (fun f n => f.samples.length + n) 0

def same (g h : Group) : Bool :=
  g.key == h.key && g.families.keys == h.families.keys
    && (g.families.values.zip h.families.values).all (fun (e, f) => e.same f)
    && g.lastPush == h.lastPush && g.pushSeq == h.pushSeq

end Group

end PushGateway
