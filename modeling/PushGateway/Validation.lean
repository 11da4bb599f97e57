import PushGateway.Family
import PushGateway.Name

/-!
What a family must satisfy to be stored: a valid name, samples of its declared type, label names
that are valid and not reserved, and no label set twice.
-/

namespace PushGateway

inductive ValidationError
  | invalidMetricName (name : String)
  | duplicateFamily (name : String)
  | typeMismatch (family : String) (declared found : MetricType)
  | invalidLabelName (family label : String)
  | reservedLabel (family label : String)
  | duplicateLabelSet (family : String) (labels : Labels)
  | labelCollision (family label : String)
  deriving DecidableEq

def ValidationError.message : ValidationError → String
  | .invalidMetricName name => "invalid metric name: " ++ Text.quoted name
  | .duplicateFamily name => "metric family " ++ Text.quoted name ++ " appears more than once"
  | .typeMismatch family declared found =>
    "metric family " ++ Text.quoted family ++ " is declared " ++ declared.name
      ++ " but holds a " ++ found.name ++ " sample"
  | .invalidLabelName family label =>
    "metric family " ++ Text.quoted family ++ " uses invalid label name " ++ Text.quoted label
  | .reservedLabel family label =>
    "metric family " ++ Text.quoted family ++ " uses reserved label name " ++ Text.quoted label
  | .duplicateLabelSet family labels =>
    "metric family " ++ Text.quoted family ++ " has more than one sample with labels \x7b"
      ++ labels.quoted ++ "\x7d"
  | .labelCollision family label =>
    "metric family " ++ Text.quoted family ++ " sets label " ++ Text.quoted label
      ++ ", which is part of the grouping key"

namespace Family

/-- Whether the series lines of a type add the label themselves. -/
def addsLabel (t : MetricType) (label : String) : Bool :=
  match t with
  | .histogram => label == Name.bucketLabel
  | .summary => label == Name.quantileLabel
  | .counter | .gauge | .untyped => false

def checkLabel (f : Family) (label : String) : Except ValidationError Unit :=
  if !Name.isLabelName label then .error (.invalidLabelName f.name label)
  else if Name.isReserved label || addsLabel f.metricType label then
    .error (.reservedLabel f.name label)
  else .ok ()

/-- Checks the samples from the first on; `seen` holds the label sets of those before. -/
def checkSamples (f : Family) (seen : List Labels) : List Sample → Except ValidationError Unit
  | [] => .ok ()
  | s :: rest => do
    if s.value.metricType ≠ f.metricType then
      throw (.typeMismatch f.name f.metricType s.value.metricType)
    s.labels.keys.forM f.checkLabel
    if s.labels ∈ seen then throw (.duplicateLabelSet f.name s.labels)
    checkSamples f (s.labels :: seen) rest

def validate (f : Family) : Except ValidationError Unit :=
  if Name.isMetricName f.name then f.checkSamples [] f.samples
  else .error (.invalidMetricName f.name)

end Family

end PushGateway
