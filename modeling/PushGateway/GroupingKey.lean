import PushGateway.Labels
import PushGateway.Name

/-!
Grouping keys: the label set a push is filed under. A key has at least one label, and no label of
it may be reserved or be one that a histogram or a summary line adds.
-/

namespace PushGateway

inductive KeyError
  | empty
  | invalidLabelName (name : String)
  | reservedLabel (name : String)
  | duplicateLabel (name : String)
  deriving DecidableEq, Repr

def KeyError.message : KeyError → String
  | .empty => "grouping key has no labels"
  | .invalidLabelName name => "invalid label name in grouping key: " ++ Text.quoted name
  | .reservedLabel name => "reserved label name in grouping key: " ++ Text.quoted name
  | .duplicateLabel name => "duplicate label name in grouping key: " ++ Text.quoted name

def isReservedInKey (name : String) : Bool :=
  Name.isReserved name || name == Name.bucketLabel || name == Name.quantileLabel

def isKeyLabel (name : String) : Bool := Name.isLabelName name && !isReservedInKey name

structure GroupingKey where
  labels : Labels
  nonempty : labels.entries ≠ []
  keyLabels : ∀ p ∈ labels.entries, isKeyLabel p.1 = true
  deriving DecidableEq

namespace GroupingKey

@[ext] theorem ext {a b : GroupingKey} (h : a.labels = b.labels) : a = b := by
  cases a
  cases b
  cases h
  rfl

instance : Ordered GroupingKey where
  before a b := before a.labels.entries b.labels.entries
  before_irrefl a := before_irrefl a.labels.entries
  before_trans a b c := before_trans a.labels.entries b.labels.entries c.labels.entries
  eq_of_not_before a b h h' :=
    ext (SortedMap.ext (eq_of_not_before a.labels.entries b.labels.entries h h'))

def checkName (name : String) : Option KeyError :=
  if !Name.isLabelName name then some (.invalidLabelName name)
  else if isReservedInKey name then some (.reservedLabel name)
  else none

def repeatedName? (pairs : List (String × String)) : Option String :=
  (SortedMap.ofList pairs).keys.find? fun name => 1 < (pairs.map Prod.fst).count name

theorem isKeyLabel_of_checkName {name : String} (h : checkName name = none) :
    isKeyLabel name = true := by
  unfold checkName at h
  split at h
  · simp at h
  · split at h
    · simp at h
    · simp_all [isKeyLabel]

def checkNames (pairs : List (String × String)) : Option KeyError :=
  pairs.findSome? fun p => checkName p.1

theorem isKeyLabel_of_checkNames {pairs : List (String × String)} (h : checkNames pairs = none)
    {p : String × String} (hp : p ∈ pairs) : isKeyLabel p.1 = true :=
  isKeyLabel_of_checkName (List.findSome?_eq_none_iff.mp h p hp)

/-- Names are checked in the order given; of several repeated names the first in name order is
reported. -/
def ofPairs (pairs : List (String × String)) : Except KeyError GroupingKey :=
  if h : pairs = [] then .error .empty
  else match hc : checkNames pairs with
    | some e => .error e
    | none => match repeatedName? pairs with
      | some name => .error (.duplicateLabel name)
      | none => .ok {
          labels := SortedMap.ofList pairs
          nonempty := SortedMap.ofList_ne_nil h
          keyLabels := fun _ hp => isKeyLabel_of_checkNames hc (SortedMap.mem_ofList hp) }

def ofJob (job : String) : Except KeyError GroupingKey := ofPairs [(Name.jobLabel, job)]

def ofJobInstance (job inst : String) : Except KeyError GroupingKey :=
  ofPairs [(Name.jobLabel, job), (Name.instanceLabel, inst)]

def pairs (key : GroupingKey) : List (String × String) := key.labels.entries

def get? (key : GroupingKey) (name : String) : Option String := key.labels.get? name

def containsLabel (key : GroupingKey) (name : String) : Bool := key.labels.contains name

/-- The pairs in name order with escaped values, which also names the key's row in a snapshot
file. -/
def text (key : GroupingKey) : String := String.ofList (Labels.pairsText key.pairs)

end GroupingKey

end PushGateway
