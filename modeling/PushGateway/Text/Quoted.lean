import PushGateway.Text.Hexadecimal
import PushGateway.Text.Hidden

/-!
Text shown in double quotes inside a message: quotes, backslashes and what does not show are
escaped, a hidden character by its code point in lowercase hexadecimal.
-/

namespace PushGateway.Text

def quotedChar (c : Char) : List Char :=
  if c = '"' then ['\\', '"']
  else if c = '\\' then ['\\', '\\']
  else if c = '\n' then ['\\', 'n']
  else if c = '\r' then ['\\', 'r']
  else if c = '\t' then ['\\', 't']
  else if c.toNat = 0 then ['\\', '0']
  else if isHidden c then ['\\', 'u', '{'] ++ hexadecimal c.toNat ++ ['}']
  else [c]

def quoted (s : String) : String :=
  String.ofList ('"' :: s.toList.flatMap quotedChar ++ ['"'])

end PushGateway.Text
