import PushGateway.Validation

/-!
Why a payload is refused. The line is the one that was read, or for a fault of a whole family the
line its block starts at.
-/

namespace PushGateway.Exposition

inductive ParseCause
  | invalidMetricName (name : String)
  | unknownType (name : String)
  | unknownHelpEscape (c : Char)
  | danglingBackslash
  | invalidLabelName (label : String)
  | reservedLabelName (label : String)
  | missingEquals (label : String)
  | missingQuote (label : String)
  | unknownValueEscape (c : Char)
  | unterminatedValue
  | duplicateLabel (label : String)
  | missingSeparator
  | missingValue
  | invalidValue (text : String)
  | invalidTimestamp (text : String)
  | textAfterTimestamp
  | repeatedBlock (family : String)
  | secondHelp (family : String)
  | secondType (family : String)
  | typeAfterSamples (family : String)
  | missingBound (label : String)
  | invalidBound (label text : String)
  | duplicateTotal (series : String)
  | unexpectedSample (type : MetricType) (family : String)
  | duplicateBound (label family : String)
  | invalidFamily (e : ValidationError)
  deriving DecidableEq

structure ParseError where
  line : Nat
  cause : ParseCause
  deriving DecidableEq

def ParseCause.message : ParseCause → String
  | .invalidMetricName name => "invalid metric name " ++ Text.quoted name
  | .unknownType name => "unknown metric type " ++ Text.quoted name
  | .unknownHelpEscape c => "invalid escape sequence \\" ++ String.singleton c ++ " in HELP"
  | .danglingBackslash => "dangling backslash in HELP"
  | .invalidLabelName label => "invalid label name " ++ Text.quoted label
  | .reservedLabelName label => "reserved label name " ++ Text.quoted label
  | .missingEquals label => "expected '=' after label " ++ label
  | .missingQuote label => "expected '\"' for label " ++ label
  | .unknownValueEscape c => "invalid escape sequence \\" ++ String.singleton c ++ " in label value"
  | .unterminatedValue => "unterminated label value"
  | .duplicateLabel label => "duplicate label " ++ Text.quoted label
  | .missingSeparator => "expected ',' or '\x7d' in label set"
  | .missingValue => "missing sample value"
  | .invalidValue text => "invalid sample value " ++ Text.quoted text
  | .invalidTimestamp text => "invalid timestamp " ++ Text.quoted text
  | .textAfterTimestamp => "unexpected text after timestamp"
  | .repeatedBlock family => "metric family " ++ family ++ " appears in more than one block"
  | .secondHelp family => "second HELP line for " ++ family
  | .secondType family => "second TYPE line for " ++ family
  | .typeAfterSamples family => "TYPE line for " ++ family ++ " after its samples"
  | .missingBound label => "missing " ++ Text.quoted label ++ " label"
  | .invalidBound label text => "invalid " ++ label ++ " value " ++ Text.quoted text
  | .duplicateTotal series => "duplicate " ++ series ++ " line"
  | .unexpectedSample type family =>
    "unexpected sample for " ++ type.name ++ " family " ++ family
  | .duplicateBound label family => "duplicate " ++ label ++ " value in family " ++ family
  | .invalidFamily e => e.message

def ParseError.message (e : ParseError) : String :=
  "line " ++ toString e.line ++ ": " ++ e.cause.message

end PushGateway.Exposition
