import Dhcp.Octets

/-!
# Dhcp.Text.Hex

Hexadecimal spellings: octets in lower case, one pair each, and whole numbers in
upper case without leading zeros.
-/

namespace Dhcp.Text

/-- The two lower-case digits of an octet. -/
def hexPair (b : UInt8) : List Char :=
  [Nat.digitChar (b.toNat / 16), Nat.digitChar (b.toNat % 16)]

/-- Octets as lower-case pairs joined by colons, such as `c8:e2:65`. -/
def colonHexChars : Octets → List Char
  | [] => []
  | [b] => hexPair b
  | b :: bs => hexPair b ++ ':' :: colonHexChars bs

/-- Octets as lower-case pairs joined by colons, such as `c8:e2:65`. -/
def colonHex (bs : Octets) : String := String.ofList (colonHexChars bs)

/-- A number in upper-case hexadecimal without leading zeros; zero is `0`. -/
def upperHex (n : Nat) : String := String.ofList ((Nat.toDigits 16 n).map Char.toUpper)

end Dhcp.Text
