import PushGateway.Text.Quoted

/-!
JSON values and their compact text. A number is kept as it is written. A text is `none` if one of
its escapes names half of a surrogate pair, so that it stands for no sequence of characters.
-/

namespace PushGateway

inductive Json
  | null
  | bool (b : Bool)
  | number (literal : String)
  | string (text : Option String)
  | array (items : List Json)
  | object (members : List (Option String × Json))

namespace Json

def str (s : String) : Json := .string (some s)

def record (fields : List (String × Json)) : Json := .object (fields.map fun (k, v) => (some k, v))

def escapeChar (c : Char) : List Char :=
  if c = '"' then ['\\', '"']
  else if c = '\\' then ['\\', '\\']
  else if c = '\n' then ['\\', 'n']
  else if c = '\r' then ['\\', 'r']
  else if c = '\t' then ['\\', 't']
  else if c.toNat = 8 then ['\\', 'b']
  else if c.toNat = 12 then ['\\', 'f']
  else if c.toNat < 16 then ['\\', 'u', '0', '0', '0'] ++ Text.hexadecimal c.toNat
  else if c.toNat < 32 then ['\\', 'u', '0', '0'] ++ Text.hexadecimal c.toNat
  else [c]

def textOf : Option String → List Char
  | some s => '"' :: s.toList.flatMap escapeChar ++ ['"']
  | none => "\"\\ud800\"".toList

mutual

def text : Json → List Char
  | .null => "null".toList
  | .bool true => "true".toList
  | .bool false => "false".toList
  | .number literal => literal.toList
  | .string s => textOf s
  | .array [] => ['[', ']']
  | .array (j :: js) => '[' :: text j ++ itemsText js
  | .object [] => ['{', '}']
  | .object ((k, j) :: ms) => '{' :: textOf k ++ ':' :: text j ++ membersText ms

def itemsText : List Json → List Char
  | [] => [']']
  | j :: js => ',' :: text j ++ itemsText js

def membersText : List (Option String × Json) → List Char
  | [] => ['}']
  | (k, j) :: ms => ',' :: textOf k ++ ':' :: text j ++ membersText ms

end

def render (j : Json) : String := String.ofList (text j)

end Json

end PushGateway
