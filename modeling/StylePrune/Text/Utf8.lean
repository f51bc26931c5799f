import StylePrune.Text.Hex

/-!
# UTF-8

`encode` writes a text as octets and `decode` reads it back.  The reader takes one octet after the
other and knows between two octets of a character how many are still owed and which values the
next one may have.  It stops at the first octets that no text can contain and reports where they
stand and what is wrong with them.
-/

namespace StylePrune.Text.Utf8

/-- What can be wrong with octets. -/
inductive Reason where
  | startByte
  | continuationByte
  | endOfData
  deriving DecidableEq, Repr

/-- The octets from `start` up to `stop`, of which `first` is the first, that are no UTF-8. -/
structure Fault where
  first : UInt8
  start : Nat
  stop : Nat
  reason : Reason
  deriving DecidableEq, Repr

/-- The wording of a reason. -/
def Reason.message : Reason → String
  | startByte => "invalid start byte"
  | continuationByte => "invalid continuation byte"
  | endOfData => "unexpected end of data"

/-- The wording of a fault. -/
def Fault.message (f : Fault) : String :=
  let place :=
    if f.stop = f.start + 1 then
      "byte 0x" ++ String.ofList (hex 2 f.first.toNat) ++ " in position " ++ toString f.start
    else "bytes in position " ++ toString f.start ++ "-" ++ toString (f.stop - 1)
  "'utf-8' codec can't decode " ++ place ++ ": " ++ f.reason.message

/-- A character begun: its first octet and place, the bits read, the number of octets owed, and
the least and the greatest value of the next one. -/
structure Begun where
  first : UInt8
  start : Nat
  bits : Nat
  owed : Nat
  low : UInt8 := 0x80
  high : UInt8 := 0xBF
  deriving DecidableEq, Repr

/-- What the first octet of a character of several octets announces. -/
def Begun.ofFirst? (b : UInt8) (start : Nat) : Option Begun :=
  let begun (mask owed : Nat) (low high : UInt8) : Begun :=
    { first := b, start, bits := b.toNat % mask, owed, low, high }
  if b < 0xC2 then none
  else if b < 0xE0 then some (begun 32 1 0x80 0xBF)
  else if b = 0xE0 then some (begun 16 2 0xA0 0xBF)
  else if b = 0xED then some (begun 16 2 0x80 0x9F)
  else if b < 0xF0 then some (begun 16 2 0x80 0xBF)
  else if b = 0xF0 then some (begun 8 3 0x90 0xBF)
  else if b < 0xF4 then some (begun 8 3 0x80 0xBF)
  else if b = 0xF4 then some (begun 8 3 0x80 0x8F)
  else none

/-- The text of the octets from a place on, within a character or between two. -/
def decodeFrom (place : Nat) : Option Begun → List UInt8 → Except Fault Text
  | none, [] => .ok []
  | some p, [] => .error ⟨p.first, p.start, place, .endOfData⟩
  | none, b :: bytes =>
    if b < 0x80 then (decodeFrom (place + 1) none bytes).map (Char.ofNat b.toNat :: ·)
    else
      match Begun.ofFirst? b place with
      | none => .error ⟨b, place, place + 1, .startByte⟩
      | some p => decodeFrom (place + 1) (some p) bytes
  | some p, b :: bytes =>
    if b < p.low ∨ p.high < b then .error ⟨p.first, p.start, place, .continuationByte⟩
    else
      let bits := p.bits * 64 + b.toNat % 64
      if p.owed = 1 then (decodeFrom (place + 1) none bytes).map (Char.ofNat bits :: ·)
      else
        decodeFrom (place + 1)
          (some { first := p.first, start := p.start, bits, owed := p.owed - 1 }) bytes

/-- The text that octets stand for. -/
def decode (bytes : List UInt8) : Except Fault Text := decodeFrom 0 none bytes

/-- The octets of a text. -/
def encode (t : Text) : List UInt8 := t.flatMap String.utf8EncodeChar

end StylePrune.Text.Utf8
