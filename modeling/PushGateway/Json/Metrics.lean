import PushGateway.Group
import PushGateway.Json.Record

/-!
The JSON form of families and groups, in which snapshots are kept: each type with its writer and
its reader. A missing help text is empty, a missing place in the push order is zero, and a missing
time is none; everything else is required.
-/

namespace PushGateway.Json

def ofLabels (labels : Labels) : Json := record (labels.entries.map fun (k, v) => (k, str v))

def toLabels? : Json → Option Labels
  | .object members => do
    let pairs ← members.mapM fun (k, j) => do return (← k, ← j.toString?)
    return SortedMap.ofList pairs
  | _ => none

def ofMetricType (t : MetricType) : Json := str t.name

/-- The name of the type, or an object with that name for its only member and null in it. -/
def toMetricType? : Json → Option MetricType
  | .string (some s) => MetricType.ofName? s
  | .object [(some s, .null)] => MetricType.ofName? s
  | _ => none

def ofQuantile (q : Quantile) : Json :=
  record [("quantile", ofBinary64 q.quantile), ("value", ofBinary64 q.value)]

def toQuantile? (j : Json) : Option Quantile := do
  match ← j.fields? ["quantile", "value"] with
  | [some q, some v] => return ⟨← q.toBinary64?, ← v.toBinary64?⟩
  | _ => none

def ofBucket (b : Bucket) : Json :=
  record [("upper_bound", ofBinary64 b.upperBound),
    ("cumulative_count", ofBinary64 b.cumulativeCount)]

def toBucket? (j : Json) : Option Bucket := do
  match ← j.fields? ["upper_bound", "cumulative_count"] with
  | [some b, some c] => return ⟨← b.toBinary64?, ← c.toBinary64?⟩
  | _ => none

def typeField (v : SampleValue) : String × Json := ("type", ofMetricType v.metricType)

def ofSampleValue (v : SampleValue) : Json :=
  record <| typeField v :: match v with
    | .counter x | .gauge x | .untyped x => [("value", ofBinary64 x)]
    | .summary quantiles sum count =>
      [("quantiles", .array (quantiles.map ofQuantile)), ("sum", ofBinary64 sum),
        ("count", ofBinary64 count)]
    | .histogram buckets sum count =>
      [("buckets", .array (buckets.map ofBucket)), ("sum", ofBinary64 sum),
        ("count", ofBinary64 count)]

def toScalar? (j : Json) : Option Binary64 := do
  match ← j.fields? ["value"] with
  | [some v] => v.toBinary64?
  | _ => none

/-- The fields of a value whose type is known. -/
def toValueOf? (t : MetricType) (j : Json) : Option SampleValue :=
  match t with
  | .counter => j.toScalar?.map .counter
  | .gauge => j.toScalar?.map .gauge
  | .untyped => j.toScalar?.map .untyped
  | .summary => do
    match ← j.fields? ["quantiles", "sum", "count"] with
    | [some qs, some s, some c] =>
      return .summary (← (← qs.toArray?).mapM toQuantile?) (← s.toBinary64?) (← c.toBinary64?)
    | _ => none
  | .histogram => do
    match ← j.fields? ["buckets", "sum", "count"] with
    | [some bs, some s, some c] =>
      return .histogram (← (← bs.toArray?).mapM toBucket?) (← s.toBinary64?) (← c.toBinary64?)
    | _ => none

/-- The type of a value, which an object names in any place and an array in the first, and the
rest of the value. -/
def splitType? : Json → Option (MetricType × Json)
  | .object members => match membersOf "type" members with
    | [.string (some s)] => (MetricType.ofName? s).map fun t =>
        (t, .object (members.filter fun m => m.1 ≠ some "type"))
    | _ => none
  | .array (.string (some s) :: rest) => (MetricType.ofName? s).map fun t => (t, .array rest)
  | _ => none

/-- A value is read in full before its type is known, so what it skips must be sound as well;
`level` counts the arrays and objects around it. -/
def toSampleValue? (level : Nat) (j : Json) : Option SampleValue :=
  if j.isSound && decide (level + j.depth ≤ maxDepth) then
    j.splitType?.bind fun (t, rest) => toValueOf? t rest
  else none

def ofSample (s : Sample) : Json :=
  record <| [("labels", ofLabels s.labels), ("value", ofSampleValue s.value)]
    ++ match s.timestamp with
      | some t => [("timestamp_ms", ofInt t.toInt)]
      | none => []

def toTimestamp? : Option Json → Option (Option Int64)
  | none => some none
  | some .null => some none
  | some j => j.toInt64?.map some

def toSample? (level : Nat) (j : Json) : Option Sample := do
  match ← j.fields? ["labels", "value", "timestamp_ms"] with
  | [some l, some v, t] =>
    return ⟨← l.toLabels?, ← v.toSampleValue? (level + 1), ← toTimestamp? t⟩
  | _ => none

def ofFamily (f : Family) : Json :=
  record [("name", str f.name), ("help", str f.help), ("metric_type", ofMetricType f.metricType),
    ("samples", .array (f.samples.map ofSample))]

def toHelp? : Option Json → Option String
  | none => some ""
  | some j => j.toString?

def toFamily? (level : Nat) (j : Json) : Option Family := do
  match ← j.fields? ["name", "help", "metric_type", "samples"] with
  | [some n, h, some t, some ss] =>
    return ⟨← n.toString?, ← toHelp? h, ← t.toMetricType?,
      ← (← ss.toArray?).mapM (toSample? (level + 2))⟩
  | _ => none

def ofFamilies (fs : List Family) : Json := .array (fs.map ofFamily)

def toFamilies? (j : Json) : Option (List Family) := do (← j.toArray?).mapM (toFamily? 1)

def ofKey (key : GroupingKey) : Json := .array (key.pairs.map fun (n, v) => .array [str n, str v])

def toPair? : Json → Option (String × String)
  | .array [n, v] => do return (← n.toString?, ← v.toString?)
  | _ => none

def toKey? (j : Json) : Option GroupingKey := do
  let pairs ← (← j.toArray?).mapM toPair?
  (GroupingKey.ofPairs pairs).toOption

def ofUInt64 (n : UInt64) : Json := ofInt n.toNat

def ofGroup (g : Group) : Json :=
  record [("key", ofKey g.key),
    ("families", record (g.families.entries.map fun (n, f) => (n, ofFamily f))),
    ("last_push_ms", ofUInt64 g.lastPush), ("push_seq", ofUInt64 g.pushSeq)]

def toFamilyMap? : Json → Option (SortedMap String Family)
  | .object members => do
    let pairs ← members.mapM fun (k, j) => do return (← k, ← j.toFamily? 2)
    return SortedMap.ofList pairs
  | _ => none

def toSeq? : Option Json → Option UInt64
  | none => some 0
  | some j => j.toUInt64?

/-- A group as it is written, which need not be one that a push could have built. -/
def toGroup? (j : Json) : Option Group := do
  match ← j.fields? ["key", "families", "last_push_ms", "push_seq"] with
  | [some k, some fs, some ms, seq] =>
    return ⟨← k.toKey?, ← fs.toFamilyMap?, ← ms.toUInt64?, ← toSeq? seq⟩
  | _ => none

def readFamily? (s : String) : Option Family := (read? s).bind (toFamily? 0)

def readFamilies? (s : String) : Option (List Family) := (read? s).bind toFamilies?

def readGroup? (s : String) : Option Group := (read? s).bind toGroup?

def readKey? (s : String) : Option GroupingKey := (read? s).bind toKey?

end PushGateway.Json
