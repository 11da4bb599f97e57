import PushGateway.Http.Target

/-!
Which texts are methods and targets of a request at all. A target is a path with a query, or one
that names a host before them, or a host alone, or a star.
-/

namespace PushGateway.Http

def isTokenChar (c : Char) : Bool := c.isAlphanum || "!#$%&'*+-.^_`|~".toList.contains c

def isMethod (s : String) : Bool := s.toList.all isTokenChar && (!s.isEmpty)

/-- The characters of a path; those outside ASCII are taken as they are. -/
def isPathChar (c : Char) : Bool :=
  c.isAlphanum || "!$%&'()*+,-./:;=@[\\]^_|~\"\x7b\x7d".toList.contains c || 0x7F ≤ c.toNat

def isQueryChar (c : Char) : Bool := (isPathChar c && c != '"') || c == '?' || c == '`'

/-- A path, and a query after a question mark. What follows a number sign does not matter. -/
def isPathAndQuery (cs : List Char) : Bool :=
  let cs := cs.takeWhile fun c => c != '#'
  (cs.takeWhile fun c => c != '?').all isPathChar
    && ((cs.dropWhile fun c => c != '?').drop 1).all isQueryChar

def isHostChar (c : Char) : Bool := c.isAlphanum || "!$&'()*+,-.;=_~".toList.contains c

/-- What was read of a host: how many colons since the last bracket or user, the brackets, and
whether there was a percent sign. -/
structure HostScan where
  colons : Nat
  opened : Bool
  closed : Bool
  percent : Bool
  deriving DecidableEq, Repr

def HostScan.step? (s : HostScan) (c : Char) : Option HostScan :=
  if c = ':' then if s.colons < 8 then some { s with colons := s.colons + 1 } else none
  else if c = '[' then if s.percent || s.opened then none else some { s with opened := true }
  else if c = ']' then
    if s.opened && !s.closed then some { s with colons := 0, closed := true, percent := false }
    else none
  else if c = '@' then some { s with colons := 0, percent := false }
  else if c = '%' then some { s with percent := true }
  else if isHostChar c then some s
  else none

/-- A host, which a user may precede and a port may follow. Only a user, and what is in brackets,
may hold percent signs. -/
def isHost (cs : List Char) : Bool :=
  match cs.foldlM HostScan.step? ⟨0, false, false, false⟩ with
  | some s => s.opened == s.closed && s.colons ≤ 1 && !s.percent && cs.getLast? != some '@'
  | none => false

def isScheme (cs : List Char) : Bool :=
  cs.length ≤ 64 && cs.all fun c => c.isAlphanum || c == '+' || c == '-' || c == '.'

def isTarget (target : String) : Bool :=
  let cs := target.toList
  if 65534 < target.utf8ByteSize then false
  else match cs with
    | [] => false
    | ['*'] => true
    | '/' :: _ => isPathAndQuery cs
    | _ => match afterScheme? cs with
      | none => isHost cs
      | some rest =>
        let host := rest.takeWhile fun c => c != '/' && !isPathEnd c
        isScheme (cs.take (cs.length - rest.length - 3)) && (!host.isEmpty) && isHost host
          && isPathAndQuery (rest.drop host.length)

end PushGateway.Http
