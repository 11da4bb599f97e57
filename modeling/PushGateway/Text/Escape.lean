/-!
The escapes of the exposition format. A label value escapes backslash, newline and double quote;
a help text, which is not quoted, escapes backslash and newline only. The readers accept exactly
these escapes.
-/

namespace PushGateway.Text

inductive EscapeError
  | unknown (c : Char)
  | unfinished
  deriving DecidableEq, Repr

def escapeValueChar (c : Char) : List Char :=
  if c = '\\' then ['\\', '\\']
  else if c = '\n' then ['\\', 'n']
  else if c = '"' then ['\\', '"']
  else [c]

def escapeHelpChar (c : Char) : List Char :=
  if c = '\\' then ['\\', '\\'] else if c = '\n' then ['\\', 'n'] else [c]

def escapeValue (cs : List Char) : List Char := cs.flatMap escapeValueChar

def escapeHelp (cs : List Char) : List Char := cs.flatMap escapeHelpChar

/-- Reads an escaped value up to its closing quote; `read` holds what was read, last first. -/
def unescapeValue (read : List Char) : List Char → Except EscapeError (List Char × List Char)
  | [] => .error .unfinished
  | '"' :: rest => .ok (read.reverse, rest)
  | '\\' :: '\\' :: rest => unescapeValue ('\\' :: read) rest
  | '\\' :: '"' :: rest => unescapeValue ('"' :: read) rest
  | '\\' :: 'n' :: rest => unescapeValue ('\n' :: read) rest
  | '\\' :: c :: _ => .error (.unknown c)
  | '\\' :: [] => .error .unfinished
  | c :: rest => unescapeValue (c :: read) rest

def unescapeHelp (read : List Char) : List Char → Except EscapeError (List Char)
  | [] => .ok read.reverse
  | '\\' :: '\\' :: rest => unescapeHelp ('\\' :: read) rest
  | '\\' :: 'n' :: rest => unescapeHelp ('\n' :: read) rest
  | '\\' :: c :: _ => .error (.unknown c)
  | '\\' :: [] => .error .unfinished
  | c :: rest => unescapeHelp (c :: read) rest

end PushGateway.Text
