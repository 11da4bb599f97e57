/-!
Which texts are names of metrics and of labels. Names are ASCII; a label name that starts with
two underscores is reserved.
-/

namespace PushGateway.Name

def isLetter (c : Char) : Bool :=
  ('a'.toNat ≤ c.toNat && c.toNat ≤ 'z'.toNat) || ('A'.toNat ≤ c.toNat && c.toNat ≤ 'Z'.toNat)

def isDigit (c : Char) : Bool := '0'.toNat ≤ c.toNat && c.toNat ≤ '9'.toNat

def isLabelChar (c : Char) : Bool := isLetter c || isDigit c || c == '_'

def isMetricChar (c : Char) : Bool := isLabelChar c || c == ':'

/-- A metric name starts with a letter, an underscore or a colon. -/
def isMetricName (name : String) : Bool :=
  match name.toList with
  | [] => false
  | c :: cs => isMetricChar c && !isDigit c && cs.all isMetricChar

def isLabelName (name : String) : Bool :=
  match name.toList with
  | [] => false
  | c :: cs => isLabelChar c && !isDigit c && cs.all isLabelChar

def isReserved (name : String) : Bool :=
  match name.toList with
  | '_' :: '_' :: _ => true
  | _ => false

theorem isReserved_eq_true_iff {name : String} :
    isReserved name = true ↔ "__".toList <+: name.toList := by
  change _ ↔ ['_', '_'] <+: name.toList
  unfold isReserved
  constructor
  · intro h
    split at h
    · next rest hname =>
      rw [hname]
      exact ⟨rest, rfl⟩
    · cases h
  · rintro ⟨rest, hname⟩
    rw [← hname]
    rfl

/-- A label name that is not reserved. -/
structure Unreserved (name : String) : Prop where
  isName : isLabelName name = true
  apart : ¬"__".toList <+: name.toList

theorem unreserved_iff {name : String} :
    Unreserved name ↔ isLabelName name = true ∧ isReserved name = false := by
  rw [← Bool.not_eq_true (isReserved name), isReserved_eq_true_iff]
  exact ⟨fun h => ⟨h.isName, h.apart⟩, fun h => ⟨h.1, h.2⟩⟩

/-- The label that tells the buckets of a histogram apart. -/
def bucketLabel : String := "le"

/-- The label that tells the quantiles of a summary apart. -/
def quantileLabel : String := "quantile"

def jobLabel : String := "job"

def instanceLabel : String := "instance"

end PushGateway.Name
