import Dhcp.Json.Reader

/-!
# Dhcp.Json.Skip

Passing over a value of any type.  Only the form of the value is checked: surrogates
may stand alone, numbers may be of any size, and values may be nested to any depth.

The check is an automaton over characters with a stack of the lists and objects that
are open.  It differs from the readers in one point: a number that the end of the text
cuts short is malformed rather than unfinished.
-/

namespace Dhcp.Json

/-- What encloses a value. -/
inductive Frame where
  | list
  | object
deriving DecidableEq

/-- Where within a value the automaton stands. -/
inductive Spot where
  /-- A value comes. -/
  | value
  /-- The first item of a list comes, or its end. -/
  | firstItem
  /-- The first key of an object comes, or its end. -/
  | firstKey
  /-- A key comes. -/
  | key
  /-- A colon comes. -/
  | colon
  /-- A comma comes, or the end of what encloses the value. -/
  | afterValue
  /-- Within a string, which is a key or a value. -/
  | string (isKey : Bool)
  /-- After a backslash within a string. -/
  | escape (isKey : Bool)
  /-- Within the digits of a character given by its number, of which so many are left. -/
  | digits (isKey : Bool) (left : Nat)
  /-- Within a word, of which these characters are left. -/
  | word (left : List Char)
  /-- After the sign of a number. -/
  | minus
  /-- After a zero that begins a number. -/
  | zero
  /-- Within the whole digits of a number. -/
  | whole
  /-- After the point of a number. -/
  | point
  /-- Within the digits after the point. -/
  | fraction
  /-- After the letter of an exponent. -/
  | exponent
  /-- After the sign of an exponent. -/
  | exponentSign
  /-- Within the digits of an exponent. -/
  | exponentDigits
deriving DecidableEq

/-- Whether a number may end here. -/
def Spot.endsNumber : Spot → Bool
  | zero | whole | fraction | exponentDigits => true
  | _ => false

/-- What a character does to the automaton. -/
inductive Move where
  /-- It goes on elsewhere, with these frames open. -/
  | to (frames : List Frame) (spot : Spot)
  /-- The value ends before the character. -/
  | endBefore
  /-- The value ends with the character. -/
  | endAfter
deriving DecidableEq

/-- The move when a value ends with a character. -/
def Move.closeValue : List Frame → Move
  | [] => .endAfter
  | frames => .to frames .afterValue

/-- Begins a value. -/
def startValue (frames : List Frame) (c : Char) : Except Fault Move :=
  if c = 'n' then .ok (.to frames (.word ['u', 'l', 'l']))
  else if c = 't' then .ok (.to frames (.word ['r', 'u', 'e']))
  else if c = 'f' then .ok (.to frames (.word ['a', 'l', 's', 'e']))
  else if c = '-' then .ok (.to frames .minus)
  else if c = '0' then .ok (.to frames .zero)
  else if c.isDigit then .ok (.to frames .whole)
  else if c = '"' then .ok (.to frames (.string false))
  else if c = '[' then .ok (.to (.list :: frames) .firstItem)
  else if c = '{' then .ok (.to (.object :: frames) .firstKey)
  else .error .malformed

/-- Goes on after a value. -/
def afterValue (frames : List Frame) (c : Char) : Except Fault Move :=
  match frames with
  | [] => .ok .endBefore
  | frame :: outer =>
    if c = ',' then .ok (.to frames (match frame with | .list => .value | .object => .key))
    else if c = (match frame with | .list => ']' | .object => '}') then .ok (.closeValue outer)
    else .error .malformed

/-- Goes on after a number with a character that does not belong to it. -/
def afterNumber (frames : List Frame) (c : Char) : Except Fault Move :=
  if frames ≠ [] ∧ isBlank c then .ok (.to frames .afterValue) else afterValue frames c

/-- What the automaton does at a character, when `rest` follows it. -/
def step (frames : List Frame) (spot : Spot) (c : Char) (rest : List Char) : Except Fault Move :=
  match spot with
  | .value => if isBlank c then .ok (.to frames .value) else startValue frames c
  | .firstItem =>
    if isBlank c then .ok (.to frames .firstItem)
    else if c = ']' then .ok (.closeValue frames.tail)
    else startValue frames c
  | .firstKey =>
    if isBlank c then .ok (.to frames .firstKey)
    else if c = '}' then .ok (.closeValue frames.tail)
    else if c = '"' then .ok (.to frames (.string true))
    else .error .malformed
  | .key =>
    if isBlank c then .ok (.to frames .key)
    else if c = '"' then .ok (.to frames (.string true))
    else .error .malformed
  | .colon =>
    if isBlank c then .ok (.to frames .colon)
    else if c = ':' then .ok (.to frames .value)
    else .error .malformed
  | .afterValue => if isBlank c then .ok (.to frames .afterValue) else afterValue frames c
  | .string isKey =>
    if c = '"' then .ok (if isKey then .to frames .colon else .closeValue frames)
    else if c = '\\' then .ok (.to frames (.escape isKey))
    else if c < ' ' then .error .malformed
    else .ok (.to frames (.string isKey))
  | .escape isKey =>
    if c = 'u' then (readHex rest).map fun _ => .to frames (.digits isKey 4)
    else if (escaped? c).isSome then .ok (.to frames (.string isKey))
    else .error .malformed
  | .digits isKey left =>
    .ok (.to frames (if left ≤ 1 then .string isKey else .digits isKey (left - 1)))
  | .word [] => .error .malformed
  | .word (w :: left) =>
    if c ≠ w then .error .malformed
    else if left = [] then .ok (.closeValue frames)
    else .ok (.to frames (.word left))
  | .minus =>
    if c = '0' then .ok (.to frames .zero)
    else if c.isDigit then .ok (.to frames .whole)
    else .error .malformed
  | .zero =>
    if c.isDigit then .error .malformed
    else if c = '.' then .ok (.to frames .point)
    else if c = 'e' ∨ c = 'E' then .ok (.to frames .exponent)
    else afterNumber frames c
  | .whole =>
    if c.isDigit then .ok (.to frames .whole)
    else if c = '.' then .ok (.to frames .point)
    else if c = 'e' ∨ c = 'E' then .ok (.to frames .exponent)
    else afterNumber frames c
  | .point => if c.isDigit then .ok (.to frames .fraction) else .error .malformed
  | .fraction =>
    if c.isDigit then .ok (.to frames .fraction)
    else if c = 'e' ∨ c = 'E' then .ok (.to frames .exponent)
    else afterNumber frames c
  | .exponent =>
    if c = '+' ∨ c = '-' then .ok (.to frames .exponentSign)
    else if c.isDigit then .ok (.to frames .exponentDigits)
    else .error .malformed
  | .exponentSign => if c.isDigit then .ok (.to frames .exponentDigits) else .error .malformed
  | .exponentDigits =>
    if c.isDigit then .ok (.to frames .exponentDigits) else afterNumber frames c

/-- What the end of the text means to the automaton. -/
def atEnd (frames : List Frame) (spot : Spot) : Except Fault (List Char) :=
  match spot with
  | .minus | .point | .exponent | .exponentSign => .error .malformed
  | spot => if spot.endsNumber ∧ frames = [] then .ok [] else .error .unfinished

/-- Passes over the rest of a value and yields the text after it. -/
def skipFrom (frames : List Frame) (spot : Spot) : List Char → Except Fault (List Char)
  | [] => atEnd frames spot
  | c :: rest =>
    match step frames spot c rest with
    | .error e => .error e
    | .ok (.to frames spot) => skipFrom frames spot rest
    | .ok .endBefore => .ok (c :: rest)
    | .ok .endAfter => .ok rest

/-- Passes over a value and yields the text after it. -/
def skipValue (cs : List Char) : Except Fault (List Char) := skipFrom [] .value cs

end Dhcp.Json
