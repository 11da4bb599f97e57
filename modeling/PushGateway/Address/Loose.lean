import PushGateway.Address.Host

/-!
The loose notation of an address of the older kind: one to four numbers with dots between them, of
which the last fills the bytes that are left. A number is hexadecimal after `0x`, octal after
another leading zero, and else decimal.
-/

namespace PushGateway.Address

def ofBase? (base : Nat) (cs : List Char) : Option Nat := do
  let ds ← cs.mapM Text.hexDigit?
  if ds.isEmpty || ds.any (fun d => base ≤ d) then none
  else some (ds.foldl (fun n d => base * n + d) 0)

def readPart? : List Char → Option Nat
  | '0' :: 'x' :: ds => ofBase? 16 ds
  | '0' :: 'X' :: ds => ofBase? 16 ds
  | '0' :: d :: ds => ofBase? 8 (d :: ds)
  | ds => ofBase? 10 ds

/-- The address whose bytes are the digits of a number to the base 256. -/
def Ipv4.ofNat (n : Nat) : Ipv4 :=
  ⟨UInt8.ofNat (n / 16777216), UInt8.ofNat (n / 65536), UInt8.ofNat (n / 256), UInt8.ofNat n⟩

/-- One byte for each leading number, and the last number in the others. -/
def Ipv4.ofParts? (leading : List Nat) (last : Nat) : Option Ipv4 :=
  let room := Nat.pow 256 (4 - leading.length)
  if 3 < leading.length || leading.any (fun n => 256 ≤ n) || room ≤ last then none
  else some (.ofNat (leading.foldl (fun n part => 256 * n + part) 0 * room + last))

def looseIpv4? (cs : List Char) : Option Ipv4 := do
  let parts ← (cs.splitOn '.').mapM readPart?
  Ipv4.ofParts? parts.dropLast (← parts.getLast?)

end PushGateway.Address
