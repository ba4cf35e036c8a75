import Dhcp.Json.Number
import Dhcp.Text.Utf8

/-!
# Dhcp.Json.Reader

Reading JSON values of a wanted type off the front of a text.  Each reader yields
the value and the text after it, or the first fault met from left to right.  A value
of another type is a `mismatch` once it has been seen to be well-formed as far as it
is a word, a number or a string.
-/

namespace Dhcp.Json

/-- Why a text could not be read. -/
inductive Fault where
  /-- The text ends within a value. -/
  | unfinished
  /-- The text is not JSON. -/
  | malformed
  /-- A value is not of the type or in the range that is wanted. -/
  | mismatch
deriving DecidableEq

/-- How a fault is worded. -/
def Fault.text : Fault → String
  | unfinished => "the text ends within a value"
  | malformed => "the text is not JSON"
  | mismatch => "a value is not of the type or in the range that is wanted"

/-- Whether a character may stand between the parts of a value. -/
def isBlank (c : Char) : Bool := c = ' ' || c = '\n' || c = '\t' || c = '\r'

/-- The text after the blanks at its front. -/
def skipBlank (cs : List Char) : List Char := cs.dropWhile isBlank

/-- Reads the characters of a word. -/
def readWord : (word cs : List Char) → Except Fault (List Char)
  | [], cs => .ok cs
  | _ :: _, [] => .error .unfinished
  | w :: ws, c :: cs => if c = w then readWord ws cs else .error .malformed

/-! ## Strings -/

/-- The value of a hexadecimal digit. -/
def hexValue? (c : Char) : Option Nat :=
  if '0' ≤ c ∧ c ≤ '9' then some (c.toNat - '0'.toNat)
  else if 'a' ≤ c ∧ c ≤ 'f' then some (c.toNat - 'a'.toNat + 10)
  else if 'A' ≤ c ∧ c ≤ 'F' then some (c.toNat - 'A'.toNat + 10)
  else none

/-- Reads four hexadecimal digits.  A text of fewer than four octets is unfinished, whatever
it holds. -/
def readHex (cs : List Char) : Except Fault (Nat × List Char) :=
  match cs with
  | a :: b :: c :: d :: rest =>
    match hexValue? a, hexValue? b, hexValue? c, hexValue? d with
    | some a, some b, some c, some d => .ok (((a * 16 + b) * 16 + c) * 16 + d, rest)
    | _, _, _, _ => .error .malformed
  | short =>
    if (Text.utf8Chars short).length < 4 then .error .unfinished else .error .malformed

/-- Reads the lower half of a pair of surrogates, whose upper half has been read. -/
def readLowSurrogate (high : Nat) : List Char → Except Fault (Char × List Char)
  | [] => .error .unfinished
  | ['\\'] => .error .unfinished
  | '\\' :: 'u' :: rest =>
    match readHex rest with
    | .error e => .error e
    | .ok (low, rest) =>
      if 0xDC00 ≤ low ∧ low ≤ 0xDFFF then
        .ok (Char.ofNat ((high - 0xD800) * 1024 + (low - 0xDC00) + 0x10000), rest)
      else .error .malformed
  | _ => .error .malformed

/-- Reads a character that is given by its number.  Surrogates must come in pairs. -/
def readUnicode (cs : List Char) : Except Fault (Char × List Char) :=
  match readHex cs with
  | .error e => .error e
  | .ok (n, rest) =>
    if 0xDC00 ≤ n ∧ n ≤ 0xDFFF then .error .malformed
    else if 0xD800 ≤ n ∧ n ≤ 0xDBFF then readLowSurrogate n rest
    else .ok (Char.ofNat n, rest)

/-- The character that a letter after a backslash stands for. -/
def escaped? (c : Char) : Option Char :=
  if c = '"' ∨ c = '\\' ∨ c = '/' then some c
  else if c = 'b' then some '\x08'
  else if c = 'f' then some '\x0c'
  else if c = 'n' then some '\n'
  else if c = 'r' then some '\r'
  else if c = 't' then some '\t'
  else none

/-- Reads what follows a backslash in a string. -/
def readEscape : List Char → Except Fault (Char × List Char)
  | [] => .error .unfinished
  | c :: rest =>
    if c = 'u' then readUnicode rest
    else
      match escaped? c with
      | some c => .ok (c, rest)
      | none => .error .malformed

theorem length_of_readHex {cs rest : List Char} {n : Nat} (h : readHex cs = .ok (n, rest)) :
    rest.length < cs.length := by
  unfold readHex at h
  split at h
  · split at h
    · simp_all
      omega
    · simp_all
  · split at h <;> simp_all

theorem length_of_readLowSurrogate {high : Nat} {cs rest : List Char} {c : Char}
    (h : readLowSurrogate high cs = .ok (c, rest)) : rest.length < cs.length := by
  unfold readLowSurrogate at h
  split at h
  · simp at h
  · simp at h
  · split at h
    · simp at h
    · rename_i hh
      have := length_of_readHex hh
      split at h
      · simp_all
        omega
      · simp_all
  · simp at h

theorem length_of_readUnicode {cs rest : List Char} {c : Char}
    (h : readUnicode cs = .ok (c, rest)) : rest.length < cs.length := by
  unfold readUnicode at h
  split at h
  · simp at h
  · rename_i hh
    have := length_of_readHex hh
    split at h
    · simp at h
    · split at h
      · have := length_of_readLowSurrogate h
        omega
      · simp_all

/-- An escape takes up some of the text. -/
theorem length_of_readEscape {cs rest : List Char} {c : Char}
    (h : readEscape cs = .ok (c, rest)) : rest.length < cs.length := by
  unfold readEscape at h
  split at h
  · simp at h
  · split at h
    · have := length_of_readUnicode h
      simp only [List.length_cons]
      omega
    · split at h <;> simp_all

/-- Reads a string whose quote has been read, and of which the characters in `read`, the last
first, are known. -/
def readStringFrom (read cs : List Char) : Except Fault (List Char × List Char) :=
  match cs with
  | [] => .error .unfinished
  | c :: rest =>
    if c = '"' then .ok (read.reverse, rest)
    else if c = '\\' then
      match _h : readEscape rest with
      | .error e => .error e
      | .ok (c, rest') => readStringFrom (c :: read) rest'
    else if c < ' ' then .error .malformed
    else readStringFrom (c :: read) rest
termination_by cs.length
decreasing_by
  · have := length_of_readEscape _h
    simp only [List.length_cons]
    omega
  · simp

/-- Reads a string whose quote has been read. -/
def readString (cs : List Char) : Except Fault (List Char × List Char) := readStringFrom [] cs

/-! ## Numbers -/

/-- What a numeral is: a natural number that fits 64 bits, or another number. -/
inductive Numeral where
  | natural (n : Nat)
  | other
deriving DecidableEq

/-- A number that is not a natural number, unless it is too large for a double. -/
def otherNumeral (digits : Nat) (exponent : Int) (rest : List Char) :
    Except Fault (Numeral × List Char) :=
  if overflowsDouble digits exponent then .error .malformed else .ok (.other, rest)

/-- Reads the digits of an exponent, whose sign has been read. -/
def readExponentDigits (digits : Nat) (exponent : Int) (negative : Bool) (cs : List Char) :
    Except Fault (Numeral × List Char) :=
  match cs with
  | [] => .error .unfinished
  | c :: _ =>
    if c.isDigit then
      let e : Int := Nat.ofDigitChars 10 (cs.takeWhile Char.isDigit) 0
      otherNumeral digits (if negative then exponent - e else exponent + e)
        (cs.dropWhile Char.isDigit)
    else .error .malformed

/-- Reads an exponent after its letter. -/
def readExponent (digits : Nat) (exponent : Int) (cs : List Char) :
    Except Fault (Numeral × List Char) :=
  match cs with
  | '+' :: cs => readExponentDigits digits exponent false cs
  | '-' :: cs => readExponentDigits digits exponent true cs
  | cs => readExponentDigits digits exponent false cs

/-- Reads a fraction after its point. -/
def readFraction (digits : Nat) (exponent : Int) (cs : List Char) :
    Except Fault (Numeral × List Char) :=
  match cs with
  | [] => .error .unfinished
  | c :: _ =>
    if c.isDigit then
      let (digits, taken) := fractionDigits digits 0 (cs.takeWhile Char.isDigit)
      match cs.dropWhile Char.isDigit with
      | 'e' :: rest | 'E' :: rest => readExponent digits (exponent - taken) rest
      | rest => otherNumeral digits (exponent - taken) rest
    else .error .malformed

/-- Reads a number, whose sign has been read.  Zero is followed by no further digit. -/
def readNumeral (negative : Bool) (cs : List Char) : Except Fault (Numeral × List Char) :=
  match cs with
  | [] => .error .unfinished
  | c :: tail =>
    if ¬ c.isDigit then .error .malformed
    else if c = '0' ∧ (tail.head?.any Char.isDigit) then .error .malformed
    else
      let (digits, dropped) := wholeDigits 0 (cs.takeWhile Char.isDigit)
      match cs.dropWhile Char.isDigit with
      | '.' :: rest => readFraction digits dropped rest
      | 'e' :: rest | 'E' :: rest => readExponent digits dropped rest
      | rest =>
        if dropped ≠ 0 then otherNumeral digits dropped rest
        else if negative then .ok (.other, rest)
        else .ok (.natural digits, rest)

/-! ## Values of a wanted type -/

/-- The fault of a value of another type: one within it, or else that it is of another type. -/
def wrongType : List Char → Fault
  | [] => .unfinished
  | c :: rest =>
    let inside : Except Fault Unit :=
      if c = 'n' then (readWord ['u', 'l', 'l'] rest).map fun _ => ()
      else if c = 't' then (readWord ['r', 'u', 'e'] rest).map fun _ => ()
      else if c = 'f' then (readWord ['a', 'l', 's', 'e'] rest).map fun _ => ()
      else if c = '-' then (readNumeral true rest).map fun _ => ()
      else if c.isDigit then (readNumeral false (c :: rest)).map fun _ => ()
      else if c = '"' then (readString rest).map fun _ => ()
      else if c = '[' ∨ c = '{' then .ok ()
      else .error .malformed
    match inside with
    | .ok () => .mismatch
    | .error e => e

/-- Reads a text. -/
def readText (cs : List Char) : Except Fault (List Char × List Char) :=
  match skipBlank cs with
  | '"' :: rest => readString rest
  | cs => .error (wrongType cs)

/-- Reads a number with its sign, if it has one. -/
def readNumber (cs : List Char) : Except Fault (Numeral × List Char) :=
  match skipBlank cs with
  | '-' :: rest => readNumeral true rest
  | c :: rest => if c.isDigit then readNumeral false (c :: rest) else .error (wrongType (c :: rest))
  | [] => .error .unfinished

/-- Reads a natural number below a bound. -/
def readNatural (bound : Nat) (cs : List Char) : Except Fault (Nat × List Char) := do
  let (numeral, rest) ← readNumber cs
  match numeral with
  | .natural n => if n < bound then .ok (n, rest) else .error .mismatch
  | .other => .error .mismatch

/-- Reads a text, or `null` for none. -/
def readText? (cs : List Char) : Except Fault (Option (List Char) × List Char) :=
  match skipBlank cs with
  | 'n' :: rest => (readWord ['u', 'l', 'l'] rest).map fun rest => (none, rest)
  | cs => (readText cs).map fun (s, rest) => (some s, rest)

end Dhcp.Json
