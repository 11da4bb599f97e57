import PushGateway.Decimal.Numeral

/-!
Reading bytes as UTF-8. The first fault is reported with the index of the byte its sequence
starts at and the number of bytes that could still begin a character, or none if the bytes end
inside a character.
-/

namespace PushGateway.Text

structure Utf8Error where
  index : Nat
  length : Option Nat
  deriving DecidableEq, Repr

def Utf8Error.message (e : Utf8Error) : String :=
  let index := String.ofList (Numeral.digits e.index)
  match e.length with
  | some n => "invalid utf-8 sequence of " ++ String.ofList (Numeral.digits n)
      ++ " bytes from index " ++ index
  | none => "incomplete utf-8 byte sequence from index " ++ index

def isTail (b : UInt8) : Bool := 0x80 ≤ b && b ≤ 0xBF

/-- Whether a byte may follow the first one of a character of three or four bytes. Sequences
longer than needed, surrogates and codes beyond the last one are left out. -/
def mayFollow (lead b : UInt8) : Bool :=
  if lead = 0xE0 then 0xA0 ≤ b && b ≤ 0xBF
  else if lead = 0xED then 0x80 ≤ b && b ≤ 0x9F
  else if lead = 0xF0 then 0x90 ≤ b && b ≤ 0xBF
  else if lead = 0xF4 then 0x80 ≤ b && b ≤ 0x8F
  else isTail b

/-- The character whose code has the given leading bits and six bits from each further byte. -/
def charOf (lead : Nat) (tail : List UInt8) : Char :=
  Char.ofNat (tail.foldl (fun n b => 64 * n + b.toNat % 64) lead)

/-- Reads on from the byte with the given index; `read` holds what was read, last first. -/
def readUtf8 (index : Nat) (read : List Char) : List UInt8 → Except Utf8Error (List Char)
  | [] => .ok read.reverse
  | a :: rest =>
    if a < 0x80 then readUtf8 (index + 1) (charOf a.toNat [] :: read) rest
    else if 0xC2 ≤ a && a ≤ 0xDF then match rest with
      | [] => .error ⟨index, none⟩
      | b :: rest =>
        if isTail b then readUtf8 (index + 2) (charOf (a.toNat % 32) [b] :: read) rest
        else .error ⟨index, some 1⟩
    else if 0xE0 ≤ a && a ≤ 0xEF then match rest with
      | [] => .error ⟨index, none⟩
      | b :: rest =>
        if !mayFollow a b then .error ⟨index, some 1⟩
        else match rest with
          | [] => .error ⟨index, none⟩
          | c :: rest =>
            if isTail c then readUtf8 (index + 3) (charOf (a.toNat % 16) [b, c] :: read) rest
            else .error ⟨index, some 2⟩
    else if 0xF0 ≤ a && a ≤ 0xF4 then match rest with
      | [] => .error ⟨index, none⟩
      | b :: rest =>
        if !mayFollow a b then .error ⟨index, some 1⟩
        else match rest with
          | [] => .error ⟨index, none⟩
          | c :: rest =>
            if !isTail c then .error ⟨index, some 2⟩
            else match rest with
              | [] => .error ⟨index, none⟩
              | d :: rest =>
                if isTail d then readUtf8 (index + 4) (charOf (a.toNat % 8) [b, c, d] :: read) rest
                else .error ⟨index, some 3⟩
    else .error ⟨index, some 1⟩

def ofUtf8 (bytes : List UInt8) : Except Utf8Error String :=
  (readUtf8 0 [] bytes).map String.ofList

def toUtf8 (cs : List Char) : List UInt8 := cs.flatMap String.utf8EncodeChar

end PushGateway.Text
