import PushGateway.Exposition.Value
import PushGateway.Family
import PushGateway.Name

/-!
Series lines: one metric name, label pairs, a value and perhaps a time. A scalar sample is one
line; a summary has a line per quantile and a histogram one per bucket, then the sum and the
count. A histogram without an infinite bucket is given one that holds its count.
-/

namespace PushGateway.Exposition

structure SeriesLine where
  metric : String
  labels : List (String × String)
  value : Binary64
  timestamp : Option Int64
  deriving DecidableEq

def SeriesLine.text (l : SeriesLine) : List Char :=
  l.metric.toList ++ '{' :: Labels.pairsText l.labels ++ ['}', ' '] ++ valueText l.value
    ++ (match l.timestamp with
      | some t => ' ' :: Numeral.intText t.toInt
      | none => [])

def bucketName (family : String) : String := family ++ "_bucket"

def sumName (family : String) : String := family ++ "_sum"

def countName (family : String) : String := family ++ "_count"

/-- The pairs of a bucket or quantile line: the bound comes last. -/
def withBound (labels : Labels) (label : String) (bound : Binary64) : List (String × String) :=
  labels.entries ++ [(label, String.ofList (valueText bound))]

def hasInfiniteBucket (buckets : List Bucket) : Bool :=
  buckets.any fun b => b.upperBound == Binary64.infinity

/-- The buckets as written, with the infinite one. -/
def completeBuckets (buckets : List Bucket) (count : Binary64) : List Bucket :=
  if hasInfiniteBucket buckets then buckets else buckets ++ [⟨Binary64.infinity, count⟩]

def seriesLines (family : String) (s : Sample) : List SeriesLine :=
  let line (metric : String) (labels : List (String × String)) (value : Binary64) : SeriesLine :=
    ⟨metric, labels, value, s.timestamp⟩
  let totals (sum count : Binary64) : List SeriesLine :=
    [line (sumName family) s.labels.entries sum, line (countName family) s.labels.entries count]
  match s.value with
  | .counter v | .gauge v | .untyped v => [line family s.labels.entries v]
  | .summary quantiles sum count =>
    quantiles.map (fun q => line family (withBound s.labels Name.quantileLabel q.quantile) q.value)
      ++ totals sum count
  | .histogram buckets sum count =>
    (completeBuckets buckets count).map (fun b =>
      line (bucketName family) (withBound s.labels Name.bucketLabel b.upperBound) b.cumulativeCount)
      ++ totals sum count

end PushGateway.Exposition
