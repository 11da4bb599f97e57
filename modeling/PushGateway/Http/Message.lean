import PushGateway.Json.Basic

/-!
HTTP requests and responses, as far as the gateway looks at the one and fills in the other.
-/

namespace PushGateway.Http

structure Request where
  method : String
  uri : String
  body : List UInt8

structure Response where
  status : Nat
  contentType : Option String
  allow : Option String
  body : String
  deriving DecidableEq, Repr

namespace Response

def notFound : Response := ⟨404, none, none, ""⟩

def methodNotAllowed (allow : String) : Response := ⟨405, none, some allow, ""⟩

def plain (status : Nat) (body : String) : Response :=
  ⟨status, some "text/plain; charset=utf-8", none, body⟩

def json (status : Nat) (j : Json) : Response :=
  ⟨status, some "application/json", none, j.render⟩

def withoutBody (r : Response) : Response := { r with body := "" }

end Response

end PushGateway.Http
