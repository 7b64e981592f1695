/-!
# Metrology.Text.Octets -- texts of bytes that need not be UTF-8

A program is given bytes, and whatever reads them here reads characters. Bytes that are UTF-8 stand
for the characters they encode. Any other byte is read as a stand-in, the character of its number in
the block from `U+EF00` to `U+EFFF` of the private use area, and a stand-in is written as its byte.
So that nothing is lost on the way, the bytes that encode a stand-in are read as stray ones too.

Stand-ins have a place in the order of characters and a width in UTF-8 of their own; those of the
bytes they stand for are not kept.
-/

namespace Metrology

namespace Octets

/-- The first of the characters that stand for bytes. -/
def base : Nat := 0xEF00

/-- The stand-in for a byte. -/
def standIn (b : UInt8) : Char := Char.ofNat (base + b.toNat)

/-- The byte that a character stands for, if it is a stand-in. -/
def stray? (c : Char) : Option UInt8 :=
  if base ≤ c.toNat ∧ c.toNat < base + 256 then some (.ofNat (c.toNat - base)) else none

/-- The character that the bytes from a place on encode, unless it is a stand-in. -/
def decode? (bytes : ByteArray) (place : Nat) : Option Char :=
  (bytes.utf8DecodeChar? place).filter fun c => (stray? c).isNone

/-- A text, and behind it the one that the bytes from a place on stand for. -/
def readFrom (bytes : ByteArray) (place : Nat) (front : String) : String :=
  if h : place < bytes.size then
    match decode? bytes place with
    | some c => readFrom bytes (place + c.utf8Size) (front.push c)
    | none => readFrom bytes (place + 1) (front.push (standIn bytes[place]))
  else
    front
termination_by bytes.size - place
decreasing_by
  · have := c.utf8Size_pos
    omega
  · omega

/-- The text that bytes stand for. -/
def text (bytes : ByteArray) : String := readFrom bytes 0 ""

/-- The bytes that a character is written in. -/
def octets (c : Char) : List UInt8 :=
  match stray? c with
  | some b => [b]
  | none => String.utf8EncodeChar c

/-- The bytes that a text is written in. -/
def bytes (text : String) : ByteArray := (text.toList.flatMap octets).toByteArray

end Octets

end Metrology
