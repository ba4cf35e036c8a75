/-!
# Dhcp.Json.Writer

Writing JSON strings.  Quotes, backslashes and the control characters below U+0020
are escaped; all other characters stand for themselves.
-/

namespace Dhcp.Json

/-- A control character by its number, in four digits of lower case. -/
def unicodeEscape (c : Char) : List Char :=
  ['\\', 'u', '0', '0', Nat.digitChar (c.toNat / 16), Nat.digitChar (c.toNat % 16)]

/-- A character as it stands in a string. -/
def writeChar (c : Char) : List Char :=
  if c = '"' then ['\\', '"']
  else if c = '\\' then ['\\', '\\']
  else if c = '\x08' then ['\\', 'b']
  else if c = '\x0c' then ['\\', 'f']
  else if c = '\n' then ['\\', 'n']
  else if c = '\r' then ['\\', 'r']
  else if c = '\t' then ['\\', 't']
  else if c < ' ' then unicodeEscape c
  else [c]

/-- A string in its quotes. -/
def writeString (cs : List Char) : List Char := '"' :: cs.flatMap writeChar ++ ['"']

end Dhcp.Json
