import PushGateway.Json.Number

/-!
Records in JSON. A record is written as an object of its named fields; it may also be read from
an array of its fields in order. Members of other names are skipped, and no field may come twice.
-/

namespace PushGateway.Json

def membersOf (name : String) (members : List (Option String × Json)) : List Json :=
  members.filterMap fun (k, j) => if k = some name then some j else none

/-- The field of one name: absent, or given once. -/
def fieldOf (members : List (Option String × Json)) (name : String) : Option (Option Json) :=
  match membersOf name members with
  | [] => some none
  | [j] => some (some j)
  | _ => none

def padded : List String → List Json → List (Option Json)
  | [], _ => []
  | _ :: names, [] => none :: padded names []
  | _ :: names, j :: js => some j :: padded names js

/-- The fields of the given names, each of which may be absent. -/
def fields? (names : List String) : Json → Option (List (Option Json))
  | .object members =>
    if members.any (fun m => m.1.isNone) then none else names.mapM (fieldOf members)
  | .array items => if names.length < items.length then none else some (padded names items)
  | _ => none

mutual

def depth : Json → Nat
  | .array items => 1 + itemsDepth items
  | .object members => 1 + membersDepth members
  | _ => 0

def itemsDepth : List Json → Nat
  | [] => 0
  | j :: js => max (depth j) (itemsDepth js)

def membersDepth : List (Option String × Json) → Nat
  | [] => 0
  | (_, j) :: ms => max (depth j) (membersDepth ms)

end

mutual

/-- Whether every text stands for characters and every number is in range. -/
def isSound : Json → Bool
  | .number literal => (finite? literal).isSome
  | .string s => s.isSome
  | .array items => itemsSound items
  | .object members => membersSound members
  | _ => true

def itemsSound : List Json → Bool
  | [] => true
  | j :: js => isSound j && itemsSound js

def membersSound : List (Option String × Json) → Bool
  | [] => true
  | (k, j) :: ms => k.isSome && isSound j && membersSound ms

end

def maxDepth : Nat := 127

end PushGateway.Json
