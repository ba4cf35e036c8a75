import Dhcp.Octets

/-!
# Dhcp.Text.Utf8

Text as octets.  `utf8` writes a text in UTF-8.  `decodeLossy` reads any string
of octets as text: what is well-formed UTF-8 is kept, and every longest run of
octets that begins a character but cannot be completed, as well as every octet
that cannot begin one, becomes one replacement character.

The reader is an automaton over octets.  Between characters its state is `none`;
inside a character it is the `Pending` rest of it, which knows the bounds of the
next octet, so that overlong forms, surrogates and code points beyond U+10FFFF
are refused at the first octet that shows them.
-/

namespace Dhcp.Text

/-- The octets of a list of characters in UTF-8. -/
def utf8Chars (cs : List Char) : Octets := cs.flatMap String.utf8EncodeChar

/-- The octets of a text in UTF-8. -/
def utf8 (s : String) : Octets := utf8Chars s.toList

/-- The character that stands for octets that are not text, U+FFFD. -/
def replacement : Char := '\uFFFD'

/-- The rest of a character whose first octets have been read. -/
structure Pending where
  /-- The bits of the code point read so far. -/
  bits : Nat
  /-- How many octets are still to come, at least one. -/
  more : Nat
  /-- The least value of the next octet. -/
  low : UInt8
  /-- The greatest value of the next octet. -/
  high : UInt8
deriving DecidableEq

/-- What follows an octet that begins a character of two to four octets. -/
def Pending.ofLead? (b : UInt8) : Option Pending :=
  if 0xC2 ≤ b ∧ b ≤ 0xDF then some ⟨b.toNat - 0xC0, 1, 0x80, 0xBF⟩
  else if b = 0xE0 then some ⟨0, 2, 0xA0, 0xBF⟩
  else if b = 0xED then some ⟨0xD, 2, 0x80, 0x9F⟩
  else if 0xE1 ≤ b ∧ b ≤ 0xEF then some ⟨b.toNat - 0xE0, 2, 0x80, 0xBF⟩
  else if b = 0xF0 then some ⟨0, 3, 0x90, 0xBF⟩
  else if b = 0xF4 then some ⟨4, 3, 0x80, 0x8F⟩
  else if 0xF1 ≤ b ∧ b ≤ 0xF3 then some ⟨b.toNat - 0xF0, 3, 0x80, 0xBF⟩
  else none

/-- Reads an octet between characters: the text it completes and the state it leads to. -/
def begin? (b : UInt8) : List Char × Option Pending :=
  if b < 0x80 then ([Char.ofNat b.toNat], none)
  else match Pending.ofLead? b with
    | some p => ([], some p)
    | none => ([replacement], none)

/-- Reads an octet in any state.  An octet that does not continue the character
begun ends it as a replacement and is read again as if between characters. -/
def feed : Option Pending → UInt8 → List Char × Option Pending
  | none, b => begin? b
  | some p, b =>
    if p.low ≤ b ∧ b ≤ p.high then
      let bits := p.bits * 64 + (b.toNat - 0x80)
      if p.more = 1 then ([Char.ofNat bits], none)
      else ([], some ⟨bits, p.more - 1, 0x80, 0xBF⟩)
    else (replacement :: (begin? b).1, (begin? b).2)

/-- Reads octets as text from any state on.  A character cut short by the end is a replacement. -/
def decodeFrom : Option Pending → Octets → List Char
  | none, [] => []
  | some _, [] => [replacement]
  | state, b :: bs => (feed state b).1 ++ decodeFrom (feed state b).2 bs

/-- The characters that a string of octets reads as, with replacements for what is not UTF-8. -/
def decodeLossyChars (bs : Octets) : List Char := decodeFrom none bs

/-- The text that a string of octets reads as, with replacements for what is not UTF-8. -/
def decodeLossy (bs : Octets) : String := String.ofList (decodeLossyChars bs)

/-- The characters of a string of octets that is well-formed UTF-8. -/
def decodeChars? (bs : Octets) : Option (List Char) :=
  let cs := decodeLossyChars bs
  if utf8Chars cs = bs then some cs else none

end Dhcp.Text
