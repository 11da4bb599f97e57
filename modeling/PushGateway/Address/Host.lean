import PushGateway.Decimal.Numeral
import PushGateway.Text.Hexadecimal

/-!
Host addresses of the two internet protocols. The older kind is four decimal numbers without
leading zeros; the newer kind is eight groups of hexadecimal digits, of which `::` leaves out a run
of zeros, and whose last two groups may be written as an address of the older kind.
-/

namespace PushGateway.Address

structure Ipv4 where
  a : UInt8
  b : UInt8
  c : UInt8
  d : UInt8
  deriving DecidableEq, Repr

structure Ipv6 where
  groups : Vector UInt16 8
  deriving DecidableEq

/-- What follows the given character, if the text starts with it. -/
def skip (c : Char) : List Char → Option (List Char)
  | d :: rest => if d = c then some rest else none
  | [] => none

/-- Every entry of a sequence but the first follows a separator. -/
def separated (separator : Char) (first : Bool) (cs : List Char) : Option (List Char) :=
  if first then some cs else skip separator cs

def readNumber? (cs : List Char) : Option (List Char × List Char) :=
  let ds := cs.takeWhile Numeral.isDigit
  if ds.isEmpty then none else some (ds, cs.dropWhile Numeral.isDigit)

/-- A number below 256 of at most three digits, without leading zeros. -/
def readOctet? (cs : List Char) : Option (UInt8 × List Char) := do
  let (ds, rest) ← readNumber? cs
  let n := Numeral.ofDigits ds
  if 3 < ds.length || 255 < n || (ds.head? == some '0' && 1 < ds.length) then none
  else some (UInt8.ofNat n, rest)

def readIpv4? (cs : List Char) : Option (Ipv4 × List Char) := do
  let (a, cs) ← readOctet? cs
  let (b, cs) ← readOctet? (← skip '.' cs)
  let (c, cs) ← readOctet? (← skip '.' cs)
  let (d, cs) ← readOctet? (← skip '.' cs)
  return (⟨a, b, c, d⟩, cs)

def isHexDigit (c : Char) : Bool := (Text.hexDigit? c).isSome

/-- One to four hexadecimal digits. -/
def readGroup? (cs : List Char) : Option (UInt16 × List Char) :=
  let ds := (cs.takeWhile isHexDigit).filterMap Text.hexDigit?
  if ds.isEmpty || 4 < ds.length then none
  else some (UInt16.ofNat (Text.ofHexDigits ds), cs.dropWhile isHexDigit)

def Ipv4.groups (h : Ipv4) : List UInt16 :=
  [UInt16.ofNat (256 * h.a.toNat + h.b.toNat), UInt16.ofNat (256 * h.c.toNat + h.d.toNat)]

/-- Groups up to one that does not follow, whether the last two of them come from an address of
the older kind, and what follows. At most `room` groups are read. -/
def readGroups (first : Bool) : Nat → List Char → List UInt16 × Bool × List Char
  | 0, cs => ([], false, cs)
  | room + 1, cs =>
    match if room = 0 then none else (separated ':' first cs).bind readIpv4? with
    | some (h, rest) => (h.groups, true, rest)
    | none => match (separated ':' first cs).bind readGroup? with
      | some (g, rest) =>
        let (gs, embedded, rest) := readGroups false room rest
        (g :: gs, embedded, rest)
      | none => ([], false, cs)

/-- The groups before and after the zeros that are left out. -/
def Ipv6.ofParts (head tail : List UInt16) : Ipv6 :=
  ⟨Vector.ofFn fun i =>
    (head[i.val]?).getD (if i.val + tail.length < 8 then 0
      else (tail[i.val + tail.length - 8]?).getD 0)⟩

def readIpv6? (cs : List Char) : Option (Ipv6 × List Char) :=
  let (head, embedded, cs) := readGroups true 8 cs
  if head.length = 8 then some (.ofParts head [], cs)
  else if embedded then none
  else do
    let cs ← skip ':' (← skip ':' cs)
    let (tail, _, cs) := readGroups true (7 - head.length) cs
    return (.ofParts head tail, cs)

def Ipv4.text (h : Ipv4) : List Char :=
  Numeral.digits h.a.toNat ++ '.' :: Numeral.digits h.b.toNat ++ '.' :: Numeral.digits h.c.toNat
    ++ '.' :: Numeral.digits h.d.toNat

/-- The address of the older kind that the newer one stands for, if it maps one. -/
def Ipv6.mapped? (h : Ipv6) : Option Ipv4 :=
  match h.groups.toList with
  | [0, 0, 0, 0, 0, 0xFFFF, g, g'] =>
    some ⟨UInt8.ofNat (g.toNat / 256), UInt8.ofNat (g.toNat % 256),
      UInt8.ofNat (g'.toNat / 256), UInt8.ofNat (g'.toNat % 256)⟩
  | _ => none

def zeroRun (gs : List UInt16) : Nat := (gs.takeWhile fun g => g == 0).length

/-- The start and the length of the longest run of zeros, the first of several. -/
def longestZeros (gs : List UInt16) : Nat × Nat :=
  (List.range gs.length).foldl
    (fun best i => if best.2 < zeroRun (gs.drop i) then (i, zeroRun (gs.drop i)) else best) (0, 0)

def groupsText (gs : List UInt16) : List Char :=
  (gs.map fun g => Text.hexadecimal g.toNat).intersperse [':'] |>.flatten

def Ipv6.text (h : Ipv6) : List Char :=
  match h.mapped? with
  | some h => "::ffff:".toList ++ h.text
  | none =>
    let gs := h.groups.toList
    let (start, length) := longestZeros gs
    if 1 < length then
      groupsText (gs.take start) ++ ':' :: ':' :: groupsText (gs.drop (start + length))
    else groupsText gs

end PushGateway.Address
