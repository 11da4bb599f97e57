import PushGateway.SortedMap
import PushGateway.Text.Escape
import PushGateway.Text.Quoted

/-!
Label sets, in the order of the label names, and the two ways they are written: with escaped
values, and quoted for messages.
-/

namespace PushGateway

abbrev Labels := SortedMap String String

namespace Labels

def pairText (pair : String × String) : List Char :=
  pair.1.toList ++ '=' :: '"' :: Text.escapeValue pair.2.toList ++ ['"']

/-- The pairs as an exposition line writes them, with commas between. -/
def pairsText (pairs : List (String × String)) : List Char :=
  List.intercalate [','] (pairs.map pairText)

def quoted (labels : Labels) : String :=
  String.intercalate "," (labels.entries.map fun (name, value) => name ++ "=" ++ Text.quoted value)

end Labels

end PushGateway
