import PushGateway.Group

/-!
One list of families out of many groups. The group pushed first decides the type and the help of
a family and keeps a series that several groups produce; each disagreement is a conflict.
-/

namespace PushGateway

inductive ConflictKind
  | type (first found : MetricType)
  | help (first found : String)
  | duplicateSeries (labels : Labels)
  deriving DecidableEq

structure Conflict where
  family : String
  group : GroupingKey
  kind : ConflictKind
  deriving DecidableEq

/-- The merged families in name order, and what later groups lost to earlier ones. -/
structure Exposition.Merged where
  families : List Family
  conflicts : List Conflict
  deriving DecidableEq

namespace Merge

structure Definition where
  type : MetricType
  help : String
  deriving DecidableEq

abbrev Definitions := SortedMap String Definition

def ranksBefore (g h : Group) : Bool :=
  g.pushSeq < h.pushSeq || (g.pushSeq == h.pushSeq && before g.key h.key)

/-- The groups in the order of their pushes; equal places are ordered by key. -/
def ranked (groups : List Group) : List Group :=
  groups.mergeSort fun g h => !ranksBefore h g

def pairs (groups : List Group) : List (Group × Family) :=
  groups.flatMap fun g => g.families.values.map fun f => (g, f)

def define (defs : Definitions) (p : Group × Family) : Definitions :=
  if defs.contains p.2.name then defs else defs.insert p.2.name ⟨p.2.metricType, p.2.help⟩

def definitions (ranked : List Group) : Definitions :=
  (pairs ranked).foldl define SortedMap.empty

/-- How a family that was not the first of its name differs from the first. -/
def disagreements (d : Definition) (g : Group) (f : Family) : List Conflict :=
  (if d.type = f.metricType then [] else [⟨f.name, g.key, .type d.type f.metricType⟩])
    ++ (if d.help = f.help then [] else [⟨f.name, g.key, .help d.help f.help⟩])

/-- A family agrees with its own definition, so the first of a name adds no conflict. -/
def definitionConflicts (defs : Definitions) (ranked : List Group) : List Conflict :=
  (pairs ranked).flatMap fun (g, f) => match defs.get? f.name with
    | some d => disagreements d g f
    | none => []

def withKey (key : GroupingKey) (labels : Labels) : Labels :=
  key.pairs.foldl (fun l p => l.insert p.1 p.2) labels

structure Series where
  family : String
  labels : Labels
  deriving DecidableEq

def seriesOf (g : Group) (f : Family) (s : Sample) : Series := ⟨f.name, withKey g.key s.labels⟩

/-- Every series with the key of the group that produces it, in the order of the pushes. -/
def holdings (ranked : List Group) : List (Series × GroupingKey) :=
  (pairs ranked).flatMap fun (g, f) => f.samples.map fun s => (seriesOf g f s, g.key)

def owner? (holdings : List (Series × GroupingKey)) (s : Series) : Option GroupingKey :=
  (holdings.find? fun c => c.1 == s).map Prod.snd

def lost (holdings : List (Series × GroupingKey)) (g : Group) (s : Series) : Bool :=
  match owner? holdings s with
  | some key => key != g.key
  | none => false

def kept (holdings : List (Series × GroupingKey)) (g : Group) (f : Family) : List Sample :=
  (f.samples.filter fun s => !lost holdings g (seriesOf g f s)).map fun s =>
    { s with labels := withKey g.key s.labels }

def seriesConflicts (holdings : List (Series × GroupingKey)) (groups : List Group) :
    List Conflict :=
  (pairs groups).flatMap fun (g, f) =>
    ((f.samples.map (seriesOf g f)).filter (lost holdings g)).map fun s =>
      ⟨f.name, g.key, .duplicateSeries s.labels⟩

def samplesOf (holdings : List (Series × GroupingKey)) (groups : List Group) (name : String) :
    List Sample :=
  (pairs groups).flatMap fun (g, f) => if f.name = name then kept holdings g f else []

end Merge

/-- Samples come in the order of `groups`, and within a group in the order of its payload. -/
def merge (groups : List Group) : Exposition.Merged :=
  let ranked := Merge.ranked groups
  let defs := Merge.definitions ranked
  let holdings := Merge.holdings ranked
  { families := defs.entries.map fun (name, d) =>
      ⟨name, d.help, d.type, Merge.samplesOf holdings groups name⟩
    conflicts := Merge.definitionConflicts defs ranked ++ Merge.seriesConflicts holdings groups }

end PushGateway
