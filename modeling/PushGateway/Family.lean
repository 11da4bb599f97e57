import PushGateway.Binary64.Basic
import PushGateway.Labels

/-!
Metric families: named, typed collections of samples. A sample carries a label set, a value whose
shape depends on the type of metric, and perhaps a time in milliseconds.
-/

namespace PushGateway

inductive MetricType
  | counter
  | gauge
  | histogram
  | summary
  | untyped
  deriving DecidableEq, Repr

namespace MetricType

def name : MetricType → String
  | .counter => "counter"
  | .gauge => "gauge"
  | .histogram => "histogram"
  | .summary => "summary"
  | .untyped => "untyped"

def all : List MetricType := [.counter, .gauge, .histogram, .summary, .untyped]

def ofName? (s : String) : Option MetricType := all.find? fun t => t.name == s

theorem ofName?_name (t : MetricType) : ofName? t.name = some t := by cases t <;> decide

end MetricType

structure Bucket where
  upperBound : Binary64
  cumulativeCount : Binary64
  deriving DecidableEq

structure Quantile where
  quantile : Binary64
  value : Binary64
  deriving DecidableEq

inductive SampleValue
  | counter (value : Binary64)
  | gauge (value : Binary64)
  | untyped (value : Binary64)
  | summary (quantiles : List Quantile) (sum count : Binary64)
  | histogram (buckets : List Bucket) (sum count : Binary64)
  deriving DecidableEq

namespace SampleValue

/-- A single number; a type that needs more than one number has none, so it becomes untyped. -/
def scalar : MetricType → Binary64 → SampleValue
  | .counter, v => .counter v
  | .gauge, v => .gauge v
  | _, v => .untyped v

def metricType : SampleValue → MetricType
  | .counter _ => .counter
  | .gauge _ => .gauge
  | .untyped _ => .untyped
  | .summary .. => .summary
  | .histogram .. => .histogram

/-- Equality of values, in which a NaN differs from itself. -/
def same : SampleValue → SampleValue → Bool
  | .counter v, .counter w => v.same w
  | .gauge v, .gauge w => v.same w
  | .untyped v, .untyped w => v.same w
  | .summary qs s c, .summary qs' s' c' =>
    qs.length == qs'.length
      && (qs.zip qs').all (fun (q, r) => q.quantile.same r.quantile && q.value.same r.value)
      && s.same s' && c.same c'
  | .histogram bs s c, .histogram bs' s' c' =>
    bs.length == bs'.length
      && (bs.zip bs').all (fun (b, d) =>
        b.upperBound.same d.upperBound && b.cumulativeCount.same d.cumulativeCount)
      && s.same s' && c.same c'
  | _, _ => false

end SampleValue

structure Sample where
  labels : Labels
  value : SampleValue
  timestamp : Option Int64
  deriving DecidableEq

def Sample.same (s t : Sample) : Bool :=
  s.labels == t.labels && s.value.same t.value && s.timestamp == t.timestamp

structure Family where
  name : String
  help : String
  metricType : MetricType
  samples : List Sample
  deriving DecidableEq

def Family.same (f g : Family) : Bool :=
  f.name == g.name && f.help == g.help && f.metricType == g.metricType
    && f.samples.length == g.samples.length
    && (f.samples.zip g.samples).all fun (s, t) => s.same t

end PushGateway
