import PushGateway.Group

/-!
The table of groups: what each grouping key currently holds, and the number the next accepted
push gets. The highest number there is is never given: none follows it.
-/

namespace PushGateway

structure Table where
  groups : SortedMap GroupingKey Group
  nextSeq : UInt64
  deriving DecidableEq

/-- What a push runs into: a fault of what is pushed, or the end of the numbers. -/
inductive PushError
  | invalid (error : ValidationError)
  | overflow
  deriving DecidableEq

namespace Table

def empty : Table := ⟨SortedMap.empty, 0⟩

/-- The number after another one, if there is one. -/
def succ? (n : UInt64) : Option UInt64 := if n.toNat + 1 < UInt64.size then some (n + 1) else none

/-- The higher of a number and the one after that of the group. -/
def raise? (n : UInt64) (g : Group) : Option UInt64 := (succ? g.pushSeq).map (max n)

/-- Numbers go on after the highest one of the given groups. -/
def nextSeqAfter? (groups : List Group) : Option UInt64 := groups.foldlM raise? 0

/-- Of several groups with one key the last stays. -/
def byKey (groups : List Group) : SortedMap GroupingKey Group :=
  SortedMap.ofList (groups.map fun g => (g.key, g))

def ofGroups? (groups : List Group) : Option Table :=
  (nextSeqAfter? groups).map fun n => ⟨byKey groups, n⟩

/-- Makes `families` the whole content of `key`; tells whether a group was replaced. The number is
counted up before the group is put in. -/
def push (t : Table) (key : GroupingKey) (families : List Family) (now : UInt64) :
    Except PushError (Table × Bool) := do
  let g ← (Group.build key families now t.nextSeq).mapError .invalid
  match succ? t.nextSeq with
  | some n => return (⟨t.groups.insert key g, n⟩, t.groups.contains key)
  | none => throw .overflow

/-- Removes the group at exactly `key`; tells whether there was one. -/
def delete (t : Table) (key : GroupingKey) : Table × Bool :=
  ({ t with groups := t.groups.erase key }, t.groups.contains key)

def get? (t : Table) (key : GroupingKey) : Option Group := t.groups.get? key

def snapshot (t : Table) : List Group := t.groups.values

def size (t : Table) : Nat := t.groups.size

end Table

/-- Looks a key up in groups that are in the order of their keys, by halving. -/
def findGroup? (groups : Array Group) (key : GroupingKey) (low high : Nat) : Option Group :=
  if low < high then
    let middle := (low + high) / 2
    match groups[middle]? with
    | none => none
    | some g =>
      if before g.key key then findGroup? groups key (middle + 1) high
      else if before key g.key then findGroup? groups key low middle
      else some g
  else none
termination_by high - low

def snapshotGet? (groups : List Group) (key : GroupingKey) : Option Group :=
  findGroup? groups.toArray key 0 groups.length

end PushGateway
