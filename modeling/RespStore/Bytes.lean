/-!
# Byte strings

Keys, values, arguments and everything on the wire are finite sequences of bytes. This
module fixes their type and the few operations every other module needs: the bytes of a
text, the text that bytes spell when they are well-formed UTF-8, and case folding of ASCII
letters.
-/

namespace RespStore

/-- A finite sequence of bytes. Two byte strings are compared byte by byte, the shorter
one first when it starts the longer one. -/
abbrev Bytes := List UInt8

namespace Bytes

/-- The UTF-8 encoding of a text. -/
def ofString (s : String) : Bytes := s.toUTF8.data.toList

/-- The text that the bytes encode, if they are well-formed UTF-8. -/
def toString? (b : Bytes) : Option String := String.fromUTF8? ⟨b.toArray⟩

/-- The end of every line of the wire format. -/
def crlf : Bytes := [13, 10]

/-- The lower-case form of an ASCII letter; every other byte stays. -/
def lowerByte (b : UInt8) : UInt8 := if 65 ≤ b ∧ b ≤ 90 then b + 32 else b

/-- Folds ASCII letters to lower case, byte by byte. -/
def lower (b : Bytes) : Bytes := b.map lowerByte

end Bytes

end RespStore
