/-!
# Upper-case keywords

Keywords inside arguments are compared with the upper-case form of what was written. A few
characters outside ASCII have an upper-case form within it: the dotless i, the long s, the
sharp s and the ligatures of f and of s with t. Every other character outside ASCII keeps at
least one character outside it, so for a comparison with an ASCII word it may stay as it is.
-/

namespace RespStore.Upper

/-- The upper-case form of a character, as far as it lies within ASCII; other characters
outside ASCII stay. -/
def ofChar (c : Char) : List Char :=
  if c.isLower then [c.toUpper]
  else
    match c.toNat with
    | 0xDF => ['S', 'S']
    | 0x131 => ['I']
    | 0x17F => ['S']
    | 0xFB00 => ['F', 'F']
    | 0xFB01 => ['F', 'I']
    | 0xFB02 => ['F', 'L']
    | 0xFB03 => ['F', 'F', 'I']
    | 0xFB04 => ['F', 'F', 'L']
    | 0xFB05 => ['S', 'T']
    | 0xFB06 => ['S', 'T']
    | _ => [c]

/-- Whether a text is a keyword, given in upper case, once its letters are in upper case. -/
def spells (text keyword : String) : Bool := text.toList.flatMap ofChar == keyword.toList

end RespStore.Upper
