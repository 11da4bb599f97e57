import PushGateway.Exposition.Error
import PushGateway.Exposition.Series
import PushGateway.Text.Blank

/-!
Reading one line of a payload. A line is blank, a comment without meaning, a HELP or TYPE line, or
a series line: a metric name, an optional label set, a value and an optional time.
-/

namespace PushGateway.Exposition

open Text

inductive Line
  | skip
  | help (family text : String)
  | type (family : String) (type : MetricType)
  | series (line : SeriesLine)
  deriving DecidableEq

def checkMetricName (name : String) : Except ParseCause Unit :=
  if Name.isMetricName name then .ok () else .error (.invalidMetricName name)

def readValueText (cs : List Char) : Except ParseCause (String × List Char) :=
  match unescapeValue [] cs with
  | .ok (value, rest) => .ok (String.ofList value, rest)
  | .error (.unknown c) => .error (.unknownValueEscape c)
  | .error .unfinished => .error .unterminatedValue

/-- A label name, an equals sign and a quoted value, with blanks allowed around the sign. -/
def readPair (cs : List Char) : Except ParseCause ((String × String) × List Char) :=
  let name := String.ofList (cs.takeWhile Name.isLabelChar)
  if !Name.isLabelName name then .error (.invalidLabelName name)
  else if Name.isReserved name then .error (.reservedLabelName name)
  else match trimStart (cs.dropWhile Name.isLabelChar) with
    | '=' :: rest => match trimStart rest with
      | '"' :: rest => match readValueText rest with
        | .ok (value, rest) => .ok ((name, value), rest)
        | .error e => .error e
      | _ => .error (.missingQuote name)
    | _ => .error (.missingEquals name)

theorem length_dropWhile_le {α : Type} (p : α → Bool) (l : List α) :
    (l.dropWhile p).length ≤ l.length :=
  (List.dropWhile_sublist p).length_le

theorem length_unescapeValue {read cs value rest : List Char}
    (h : unescapeValue read cs = .ok (value, rest)) : rest.length < cs.length := by
  fun_induction unescapeValue read cs <;> simp_all <;> omega

theorem length_readPair {cs rest : List Char} {p : String × String}
    (h : readPair cs = .ok (p, rest)) : rest.length < cs.length := by
  unfold readPair at h
  have h₁ := length_dropWhile_le Name.isLabelChar cs
  have h₂ := length_dropWhile_le isBlank (cs.dropWhile Name.isLabelChar)
  dsimp only at h
  split at h
  · simp at h
  · split at h
    · simp at h
    · split at h
      · next r hr =>
        have h₃ := length_dropWhile_le isBlank r
        split at h
        · next r' hr' =>
          unfold readValueText at h
          split at h
          · next hv =>
            split at hv
            · next hu =>
              have := length_unescapeValue hu
              simp only [trimStart] at hr hr'
              simp_all
              omega
            · simp at hv
            · simp at hv
          · simp at h
        · simp at h
      · simp at h

def hasName (pairs : List (String × String)) (name : String) : Bool :=
  pairs.any fun p => p.1 == name

/-- Label pairs up to the closing brace, and what follows it. A comma may come after the last
pair; `read` holds the pairs read so far, last first. -/
def readPairs (read : List (String × String)) (cs : List Char) :
    Except ParseCause (List (String × String) × List Char) :=
  match _hc : trimStart cs with
  | '}' :: rest => .ok (read.reverse, rest)
  | cs' => match _hp : readPair cs' with
    | .error e => .error e
    | .ok (pair, rest) =>
      if hasName read pair.1 then .error (.duplicateLabel pair.1)
      else match _hr : trimStart rest with
        | ',' :: more => readPairs (pair :: read) more
        | '}' :: more => .ok ((pair :: read).reverse, more)
        | _ => .error .missingSeparator
termination_by cs.length
decreasing_by
  have h₁ := length_dropWhile_le isBlank cs
  have h₂ := length_readPair _hp
  have h₃ := length_dropWhile_le isBlank rest
  simp only [trimStart] at _hc _hr
  rw [_hr, List.length_cons] at h₃
  rw [_hc] at h₁
  omega

def readTimestamp? (cs : List Char) : Option Int64 :=
  match Numeral.readInt? cs with
  | some i => if Int64.minValue.toInt ≤ i ∧ i ≤ Int64.maxValue.toInt then some (.ofInt i) else none
  | none => none

/-- The value and the optional time that end a series line. -/
def readNumbers (cs : List Char) : Except ParseCause (Binary64 × Option Int64) :=
  match fields cs with
  | [] => .error .missingValue
  | raw :: more => match readValue? raw with
    | none => .error (.invalidValue (String.ofList raw))
    | some value => match more with
      | [] => .ok (value, none)
      | raw :: more => match readTimestamp? raw with
        | none => .error (.invalidTimestamp (String.ofList raw))
        | some t => if more.isEmpty then .ok (value, some t) else .error .textAfterTimestamp

def readSeries (cs : List Char) : Except ParseCause SeriesLine := do
  let metric := String.ofList (cs.takeWhile Name.isMetricChar)
  checkMetricName metric
  let (labels, rest) ← match trimStart (cs.dropWhile Name.isMetricChar) with
    | '{' :: rest => readPairs [] rest
    | rest => .ok ([], rest)
  let (value, timestamp) ← readNumbers rest
  return ⟨metric, labels, value, timestamp⟩

def readHelp (name tail : List Char) : Except ParseCause Line := do
  checkMetricName (String.ofList name)
  match unescapeHelp [] tail with
  | .ok text => return .help (String.ofList name) (String.ofList text)
  | .error (.unknown c) => throw (.unknownHelpEscape c)
  | .error .unfinished => throw .danglingBackslash

def readType (name tail : List Char) : Except ParseCause Line := do
  checkMetricName (String.ofList name)
  match MetricType.ofName? (String.ofList tail) with
  | some t => return .type (String.ofList name) t
  | none => throw (.unknownType (String.ofList tail))

/-- What stands after the hash sign. A comment has meaning if its first word is HELP or TYPE and
a blank follows it. -/
def readComment (cs : List Char) : Except ParseCause Line :=
  match splitAtBlank? (trimStart cs) with
  | none => .ok .skip
  | some (keyword, rest) =>
    let rest := trimStart rest
    let (name, tail) := match splitAtBlank? rest with
      | some (name, tail) => (name, trimStart tail)
      | none => (rest, [])
    if keyword = "HELP".toList then readHelp name tail
    else if keyword = "TYPE".toList then readType name tail
    else .ok .skip

def readLine (cs : List Char) : Except ParseCause Line :=
  match trim cs with
  | [] => .ok .skip
  | '#' :: rest => readComment rest
  | cs => (readSeries cs).map .series

end PushGateway.Exposition
