import PushGateway.Exposition.Line

/-!
Blocks: the lines of one family while it is being read. The series of a histogram or a summary
with one label set are gathered into one sample, in the order in which the label sets first occur.
-/

namespace PushGateway.Exposition

/-- What a series line is to the family it belongs to. -/
inductive Role
  | plain
  | bucket
  | quantile
  | sum
  | count
  deriving DecidableEq, Repr

structure Composite where
  labels : Labels
  points : Array (Binary64 × Binary64)
  sum : Option Binary64
  count : Option Binary64
  timestamp : Option Int64
  deriving DecidableEq

structure Block where
  name : String
  start : Nat
  help : Option String
  type : Option MetricType
  samples : Array Sample
  composites : List Composite
  deriving DecidableEq

namespace Block

def empty (name : String) (start : Nat) : Block := ⟨name, start, none, none, #[], []⟩

def kind (b : Block) : MetricType := b.type.getD .untyped

def hasSamples (b : Block) : Bool := !b.samples.isEmpty || !b.composites.isEmpty

/-- The part that a series of the given name has in the family, if it belongs to the family. -/
def role? (b : Block) (metric : String) : Option Role :=
  match b.kind with
  | .histogram =>
    if metric = b.name then some .plain
    else if metric = bucketName b.name then some .bucket
    else if metric = sumName b.name then some .sum
    else if metric = countName b.name then some .count
    else none
  | .summary =>
    if metric = b.name then some .quantile
    else if metric = sumName b.name then some .sum
    else if metric = countName b.name then some .count
    else none
  | .counter | .gauge | .untyped => if metric = b.name then some .plain else none

/-- Applies `f` to the composite with the given labels, which is new if there is none. -/
def updateComposite (labels : Labels) (f : Composite → Composite) : List Composite → List Composite
  | [] => [f ⟨labels, #[], none, none, none⟩]
  | c :: cs => if c.labels = labels then f c :: cs else c :: updateComposite labels f cs

def composite? (b : Block) (labels : Labels) : Option Composite :=
  b.composites.find? fun c => c.labels == labels

def update (b : Block) (labels : Labels) (f : Composite → Composite) : Block :=
  { b with composites := updateComposite labels f b.composites }

def addPlain (b : Block) (line : SeriesLine) : Block :=
  let sample : Sample :=
    ⟨SortedMap.ofList line.labels, SampleValue.scalar b.kind line.value, line.timestamp⟩
  { b with samples := b.samples.push sample }

/-- Files a bucket or quantile line under its labels without the one that holds the bound. -/
def addPoint (b : Block) (label : String) (line : SeriesLine) : Except ParseCause Block :=
  let labels : Labels := SortedMap.ofList line.labels
  match labels.get? label with
  | none => .error (.missingBound label)
  | some raw => match readValue? raw.toList with
    | none => .error (.invalidBound label raw)
    | some bound => .ok <| b.update (labels.erase label) fun c =>
        { c with
          points := c.points.push (bound, line.value)
          timestamp := line.timestamp.or c.timestamp }

def addSum (b : Block) (line : SeriesLine) : Except ParseCause Block :=
  let labels : Labels := SortedMap.ofList line.labels
  if ((b.composite? labels).bind Composite.sum).isSome then
    .error (.duplicateTotal (sumName b.name))
  else .ok <| b.update labels fun c =>
    { c with sum := some line.value, timestamp := line.timestamp.or c.timestamp }

def addCount (b : Block) (line : SeriesLine) : Except ParseCause Block :=
  let labels : Labels := SortedMap.ofList line.labels
  if ((b.composite? labels).bind Composite.count).isSome then
    .error (.duplicateTotal (countName b.name))
  else .ok <| b.update labels fun c =>
    { c with count := some line.value, timestamp := line.timestamp.or c.timestamp }

def addSeries (b : Block) (line : SeriesLine) : Except ParseCause Block :=
  match b.role? line.metric, b.kind with
  | some .bucket, _ => b.addPoint Name.bucketLabel line
  | some .quantile, _ => b.addPoint Name.quantileLabel line
  | some .sum, _ => b.addSum line
  | some .count, _ => b.addCount line
  | _, .histogram => .error (.unexpectedSample .histogram b.name)
  | _, .summary => .error (.unexpectedSample .summary b.name)
  | _, _ => .ok (b.addPlain line)

def setHelp (b : Block) (text : String) : Except ParseCause Block :=
  if b.help.isSome then .error (.secondHelp b.name) else .ok { b with help := some text }

def setType (b : Block) (t : MetricType) : Except ParseCause Block :=
  if b.hasSamples then .error (.typeAfterSamples b.name)
  else if b.type.isSome then .error (.secondType b.name)
  else .ok { b with type := some t }

def sortPoints (points : Array (Binary64 × Binary64)) : List (Binary64 × Binary64) :=
  points.toList.mergeSort fun p q => !q.1.before p.1

def hasRepeat : List (Binary64 × Binary64) → Bool
  | p :: q :: rest => p.1.same q.1 || hasRepeat (q :: rest)
  | _ => false

/-- The points in ascending order of their bounds, of which no two may be equal. -/
def orderedPoints (b : Block) (label : String) (c : Composite) :
    Except ParseCause (List (Binary64 × Binary64)) :=
  let points := sortPoints c.points
  if hasRepeat points then .error (.duplicateBound label b.name) else .ok points

/-- A sum or a count that no line gave is zero. -/
def histogramSample (b : Block) (c : Composite) : Except ParseCause Sample := do
  let points ← b.orderedPoints Name.bucketLabel c
  return ⟨c.labels, .histogram (points.map fun p => ⟨p.1, p.2⟩) (c.sum.getD .zero)
    (c.count.getD .zero), c.timestamp⟩

def summarySample (b : Block) (c : Composite) : Except ParseCause Sample := do
  let points ← b.orderedPoints Name.quantileLabel c
  return ⟨c.labels, .summary (points.map fun p => ⟨p.1, p.2⟩) (c.sum.getD .zero)
    (c.count.getD .zero), c.timestamp⟩

def allSamples (b : Block) : Except ParseCause (List Sample) :=
  match b.kind with
  | .histogram => b.composites.mapM b.histogramSample
  | .summary => b.composites.mapM b.summarySample
  | .counter | .gauge | .untyped => .ok b.samples.toList

def build (b : Block) : Except ParseCause Family := do
  let samples ← b.allSamples
  let family : Family := ⟨b.name, b.help.getD "", b.kind, samples⟩
  family.validate.mapError .invalidFamily
  return family

end Block

end PushGateway.Exposition
