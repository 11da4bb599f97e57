import PushGateway.Text.Hexadecimal
import PushGateway.Text.Utf8

/-!
What a request is aimed at. A path is matched segment by segment as it is written; the segments
that name a job and an instance are decoded after that.
-/

namespace PushGateway.Http

def isPathEnd (c : Char) : Bool := c == '?' || c == '#'

/-- What follows the first `://`, if there is one. -/
def afterScheme? : List Char → Option (List Char)
  | ':' :: '/' :: '/' :: rest => some rest
  | _ :: rest => afterScheme? rest
  | [] => none

/-- The path of a target, without a query. One that names a host has the path after the host. -/
def pathOf (target : List Char) : List Char :=
  match target with
  | '/' :: _ => target.takeWhile fun c => !isPathEnd c
  | _ => match afterScheme? target with
    | none => []
    | some rest => match rest.dropWhile fun c => c != '/' && !isPathEnd c with
      | '/' :: path => '/' :: path.takeWhile fun c => !isPathEnd c
      | _ => ['/']

/-- The job and the instance are as they are written. -/
inductive Route
  | metrics
  | group (job : List Char) (inst : Option (List Char))
  deriving DecidableEq, Repr

/-- The last segment may not be empty. -/
def Route.ofPath? (path : List Char) : Option Route :=
  match (path.splitOn '/').map String.ofList with
  | ["", "metrics"] => some .metrics
  | ["", "metrics", "job", job] => if job.isEmpty then none else some (.group job.toList none)
  | ["", "metrics", "job", job, "instance", inst] =>
    if inst.isEmpty then none else some (.group job.toList (some inst.toList))
  | _ => none

def Route.ofTarget? (target : String) : Option Route := Route.ofPath? (pathOf target.toList)

/-- The bytes that a segment stands for: a percent sign and two hexadecimal digits are one byte,
and anything else is itself. -/
def percentDecode : List Char → List UInt8
  | '%' :: a :: b :: rest => match Text.hexDigit? a, Text.hexDigit? b with
    | some m, some n => UInt8.ofNat (16 * m + n) :: percentDecode rest
    | _, _ => String.utf8EncodeChar '%' ++ percentDecode (a :: b :: rest)
  | c :: rest => String.utf8EncodeChar c ++ percentDecode rest
  | [] => []

/-- The text of a segment; a fault is known by the name of the segment. -/
def segment (name : String) (cs : List Char) : Except String String :=
  (Text.ofUtf8 (percentDecode cs)).mapError fun _ => name

end PushGateway.Http
