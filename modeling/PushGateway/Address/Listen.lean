import PushGateway.Address.Loose
import PushGateway.Text.Quoted

/-!
Listen addresses: a host and a port. A port alone, `:8080`, listens on every interface; an address
of the newer kind stands in brackets and may carry the number of its interface. A text in no such
form is cut at its last colon; what stands before it may then be an address in the loose notation,
or one of the newer kind without brackets.
-/

namespace PushGateway.Address

inductive PortError
  | empty
  | invalidDigit
  | tooLarge
  deriving DecidableEq, Repr

def PortError.message : PortError → String
  | .empty => "cannot parse integer from empty string"
  | .invalidDigit => "invalid digit found in string"
  | .tooLarge => "number too large to fit in target type"

/-- The first digit that is none, or that makes the number too large, decides. -/
def readPortDigits (n : Nat) : List Char → Except PortError UInt16
  | [] => .ok (UInt16.ofNat n)
  | c :: cs =>
    if !Numeral.isDigit c then .error .invalidDigit
    else
      let m := 10 * n + (c.toNat - '0'.toNat)
      if 65535 < m then .error .tooLarge else readPortDigits m cs

/-- A port that fills the text; a plus sign may stand before it. -/
def readPort : List Char → Except PortError UInt16
  | [] => .error .empty
  | ['+'] => .error .invalidDigit
  | '+' :: ds => readPortDigits 0 ds
  | ds => readPortDigits 0 ds

/-- A host of the newer kind has the number of its interface, or zero. -/
inductive Listen
  | v4 (host : Ipv4) (port : UInt16)
  | v6 (host : Ipv6) (scope : UInt32) (port : UInt16)
  deriving DecidableEq

namespace Listen

inductive Error
  | invalidPort (text : String) (cause : PortError)
  | noPort (text : String)
  | badPort (text : String)
  | zeroInHost (text : String)
  | unknownHost (text : String)
  deriving DecidableEq, Repr

def Error.message : Error → String
  | .invalidPort text _ => "invalid port in listen address " ++ Text.quoted text
  | .noPort text | .badPort text | .zeroInHost text | .unknownHost text =>
    "invalid listen address " ++ Text.quoted text

def Error.cause : Error → String
  | .invalidPort _ cause => cause.message
  | .noPort _ => "invalid socket address"
  | .badPort _ => "invalid port value"
  | .zeroInHost _ => "file name contained an unexpected NUL byte"
  | .unknownHost _ => "failed to lookup address information: Name or service not known"

def everyInterface (port : UInt16) : Listen := .v4 ⟨0, 0, 0, 0⟩ port

def readBelow? (bound : Nat) (cs : List Char) : Option (Nat × List Char) := do
  let (ds, rest) ← readNumber? cs
  if Numeral.ofDigits ds < bound then some (Numeral.ofDigits ds, rest) else none

def readLastPort? (cs : List Char) : Option UInt16 := do
  match ← readBelow? 65536 (← skip ':' cs) with
  | (n, []) => some (UInt16.ofNat n)
  | _ => none

def readV4? (cs : List Char) : Option Listen := do
  let (host, cs) ← readIpv4? cs
  return .v4 host (← readLastPort? cs)

/-- The number of the interface after a percent sign; without one it is zero. -/
def readScope (cs : List Char) : Nat × List Char :=
  ((skip '%' cs).bind (readBelow? 4294967296)).getD (0, cs)

def readV6? (cs : List Char) : Option Listen := do
  let (host, cs) ← readIpv6? (← skip '[' cs)
  let (scope, cs) := readScope cs
  return .v6 host (UInt32.ofNat scope) (← readLastPort? (← skip ']' cs))

/-- The texts before and after the last colon. -/
def splitAtLastColon? (cs : List Char) : Option (List Char × List Char) :=
  match cs.reverse.dropWhile fun c => c != ':' with
  | [] => none
  | _ :: before => some (before.reverse, (cs.reverse.takeWhile fun c => c != ':').reverse)

def isLocal (host : Ipv6) : Bool :=
  let g := host.groups[0].toNat
  g / 64 = 0xFE80 / 64 || (g / 256 = 0xFF && (g % 16 = 1 || g % 16 = 2))

/-- The interface that the text after a percent sign tells, by its number. The first interface may
be told by its name, `lo`, where the address is local to one. -/
def interface? (host : Ipv6) (cs : List Char) : Option UInt32 :=
  if isLocal host && cs = ['l', 'o'] then some 1
  else match readBelow? 4294967296 cs with
    | some (n, []) => some (UInt32.ofNat n)
    | _ => none

def bareV6? (cs : List Char) (port : UInt16) : Option Listen := do
  let (host, rest) ← readIpv6? cs
  match rest with
  | [] => return .v6 host 0 port
  | '%' :: scope => return .v6 host (← interface? host scope) port
  | _ => none

/-- A text in no strict form, cut at its last colon. Hosts are not looked up by name. -/
def lookUp (s : String) : Except Error Listen :=
  match splitAtLastColon? s.toList with
  | none => .error (.noPort s)
  | some (host, port) => match readPort port with
    | .error _ => .error (.badPort s)
    | .ok p =>
      if host.any fun c => c.toNat == 0 then .error (.zeroInHost s)
      else match ((looseIpv4? host).map fun h => .v4 h p).or (bareV6? host p) with
        | some address => .ok address
        | none => .error (.unknownHost s)

def parse (s : String) : Except Error Listen :=
  match s.toList with
  | ':' :: port => match readPort port with
    | .ok p => .ok (everyInterface p)
    | .error cause => .error (.invalidPort s cause)
  | cs => match (readV4? cs).or (readV6? cs) with
    | some address => .ok address
    | none => lookUp s

def text : Listen → List Char
  | .v4 host port => host.text ++ ':' :: Numeral.digits port.toNat
  | .v6 host scope port =>
    '[' :: host.text ++ (if scope = 0 then [] else '%' :: Numeral.digits scope.toNat)
      ++ ']' :: ':' :: Numeral.digits port.toNat

end Listen

end PushGateway.Address
