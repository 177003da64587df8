import RespStore.Bytes
import RespStore.Text.Visible

/-!
# Quoted text and quoted bytes

Two forms in which arguments and values appear inside diagnostics. Both stand between double
quotes and escape the quote and the backslash. Quoted text keeps every visible character and
writes the others by their code point; quoted bytes keep printable ASCII and write every
other byte with two hexadecimal digits.
-/

namespace RespStore.Quoted

/-- The lower-case hexadecimal digit of a number below sixteen. -/
def hexDigit (n : Nat) : Char :=
  if n < 10 then Char.ofNat (48 + n) else Char.ofNat (87 + n)

/-- The lower-case hexadecimal digits of a number, most significant first. -/
def hexDigits (n : Nat) : List Char :=
  if n < 16 then [hexDigit n] else hexDigits (n / 16) ++ [hexDigit (n % 16)]

/-- How one character stands in quoted text. -/
def ofChar (c : Char) : List Char :=
  if c = '\x00' then ['\\', '0']
  else if c = '\t' then ['\\', 't']
  else if c = '\r' then ['\\', 'r']
  else if c = '\n' then ['\\', 'n']
  else if c = '"' then ['\\', '"']
  else if c = '\\' then ['\\', '\\']
  else if Visible.isVisible c then [c]
  else ['\\', 'u', '\x7b'] ++ hexDigits c.toNat ++ ['\x7d']

/-- A text between double quotes. -/
def text (s : String) : String :=
  String.ofList ('"' :: s.toList.flatMap ofChar ++ ['"'])

/-- How one byte stands in quoted bytes. -/
def ofByte (b : UInt8) : List Char :=
  if b = 0 then ['\\', '0']
  else if b = 9 then ['\\', 't']
  else if b = 13 then ['\\', 'r']
  else if b = 10 then ['\\', 'n']
  else if b = 34 then ['\\', '"']
  else if b = 92 then ['\\', '\\']
  else if 32 ≤ b ∧ b < 127 then [Char.ofNat b.toNat]
  else ['\\', 'x', hexDigit (b.toNat / 16), hexDigit (b.toNat % 16)]

/-- A byte string between double quotes, behind the letter that marks bytes. -/
def bytes (b : Bytes) : String :=
  String.ofList ('b' :: '"' :: b.flatMap ofByte ++ ['"'])

end RespStore.Quoted
