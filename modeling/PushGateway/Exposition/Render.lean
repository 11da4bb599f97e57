import PushGateway.Exposition.Series

/-!
The text of metric families: for each a HELP line, a TYPE line and its series lines, every line
ended by a newline.
-/

namespace PushGateway.Exposition

def helpLine (f : Family) : List Char :=
  "# HELP ".toList ++ f.name.toList
    ++ (if f.help.isEmpty then [] else ' ' :: Text.escapeHelp f.help.toList)

def typeLine (f : Family) : List Char :=
  "# TYPE ".toList ++ f.name.toList ++ ' ' :: f.metricType.name.toList

def familyLines (f : Family) : List (List Char) :=
  helpLine f :: typeLine f :: (f.samples.flatMap (seriesLines f.name)).map SeriesLine.text

def renderLines (families : List Family) : List (List Char) := families.flatMap familyLines

def render (families : List Family) : String :=
  String.ofList ((renderLines families).flatMap (· ++ ['\n']))

end PushGateway.Exposition
