import Dhcp.Config.Field

/-!
# Dhcp.Config.Text

Configurations as JSON texts.  They are written as an object with one field to a line.
They are read from an object, where fields may be missing or come in any order and
unknown ones are passed over, or from the list of their values, which may be shorter.
What is missing is as in the default configuration.  Every member takes up some of the
text, so that an object is read to its end or to a fault.
-/

namespace Dhcp.Config

open Json (Fault skipBlank)

/-! ## Writing -/

/-- A field on a line of its own, without the comma. -/
def writeMember (c : Config) (f : Field) : List Char :=
  '\n' :: ' ' :: ' ' :: Json.writeString f.name.toList ++ ':' :: ' ' :: f.write c

/-- Fields with commas between them. -/
def writeMembers (c : Config) : List Field → List Char
  | [] => []
  | [f] => c.writeMember f
  | f :: fs => c.writeMember f ++ ',' :: c.writeMembers fs

/-- A configuration as a text, without a final line end. -/
def renderChars (c : Config) : List Char := '{' :: c.writeMembers Field.all ++ ['\n', '}']

/-- A configuration as a text, without a final line end. -/
def render (c : Config) : String := String.ofList c.renderChars

/-! ## Reading an object -/

/-- Reads up to the quote of the next key, or past the end of the object.  Tells whether there
is a key. -/
def nextKey (first : Bool) (cs : List Char) : Except Fault (Bool × List Char) :=
  match skipBlank cs with
  | [] => .error .unfinished
  | '}' :: rest => .ok (false, rest)
  | c :: rest =>
    if first then
      if c = '"' then .ok (true, rest) else .error .malformed
    else if c = ',' then
      match skipBlank rest with
      | [] => .error .unfinished
      | '"' :: rest => .ok (true, rest)
      | _ => .error .malformed
    else .error .malformed

/-- Reads the colon after a key. -/
def readColon (cs : List Char) : Except Fault (List Char) :=
  match skipBlank cs with
  | [] => .error .unfinished
  | ':' :: rest => .ok rest
  | _ => .error .malformed

/-- Reads the value under a key into a configuration, of which the fields `seen` have been
read.  A field that comes twice is a mismatch, and the value of an unknown key is passed over. -/
def readMember (c : Config) (seen : List Field) (key cs : List Char) :
    Except Fault (Config × List Field × List Char) :=
  match Field.ofName? key with
  | none => do
    let rest ← Json.skipValue (← readColon cs)
    return (c, seen, rest)
  | some f =>
    if f ∈ seen then .error .mismatch
    else do
      let (c, rest) ← f.read c (← readColon cs)
      return (c, f :: seen, rest)

theorem length_of_nextKey {first more : Bool} {cs rest : List Char}
    (h : nextKey first cs = .ok (more, rest)) : rest.length < cs.length := by
  unfold nextKey at h
  split at h
  · contradiction
  · next heq =>
      cases h
      exact Json.length_of_skipBlank heq
  · next c tail _ heq =>
      have htail := Json.length_of_skipBlank heq
      split at h
      · split at h
        · cases h
          exact htail
        · contradiction
      · split at h
        · split at h
          · contradiction
          · next hquote =>
              cases h
              exact Nat.lt_trans (Json.length_of_skipBlank hquote) htail
          · contradiction
        · contradiction

theorem length_of_readColon {cs rest : List Char} (h : readColon cs = .ok rest) :
    rest.length ≤ cs.length := by
  unfold readColon at h
  split at h
  · contradiction
  · next heq =>
      cases h
      exact Nat.le_of_lt (Json.length_of_skipBlank heq)
  · contradiction

/-- A value and its colon leave no more of a text than they were given. -/
theorem length_of_readMember {c c' : Config} {seen seen' : List Field} {key cs rest : List Char}
    (h : readMember c seen key cs = .ok (c', seen', rest)) : rest.length ≤ cs.length := by
  unfold readMember at h
  split at h
  · obtain ⟨value, hcolon, h⟩ := Json.exists_of_bind_eq_ok h
    obtain ⟨tail, hskip, h⟩ := Json.exists_of_bind_eq_ok h
    cases h
    exact Nat.le_trans (Json.length_of_skipValue hskip) (length_of_readColon hcolon)
  · split at h
    · contradiction
    · obtain ⟨value, hcolon, h⟩ := Json.exists_of_bind_eq_ok h
      obtain ⟨⟨c, tail⟩, hread, h⟩ := Json.exists_of_bind_eq_ok h
      cases h
      exact Nat.le_trans (Field.length_of_read hread) (length_of_readColon hcolon)

/-- Reads the members of an object into a configuration, of which the fields `seen` have been
read. -/
def readMembers (first : Bool) (c : Config) (seen : List Field) (cs : List Char) :
    Except Fault (Config × List Char) :=
  match _hkey : nextKey first cs with
  | .error e => .error e
  | .ok (false, rest) => .ok (c, rest)
  | .ok (true, rest) =>
    match _hname : Json.readString rest with
    | .error e => .error e
    | .ok (key, tail) =>
      match _hvalue : readMember c seen key tail with
      | .error e => .error e
      | .ok (c, seen, tail) => readMembers false c seen tail
termination_by cs.length
decreasing_by
  have hkey := length_of_nextKey _hkey
  have hname := Json.length_of_readString _hname
  have hvalue := length_of_readMember _hvalue
  omega

/-! ## Reading a list -/

/-- Reads the end of a list of which all values that are wanted have been read.  Further values
are malformed. -/
def closeList (cs : List Char) : Except Fault (List Char) :=
  match skipBlank cs with
  | [] => .error .unfinished
  | ']' :: rest => .ok rest
  | _ => .error .malformed

/-- Reads the values of a list into the given fields of a configuration, up to the end of the
list. -/
def readItems (first : Bool) (c : Config) : List Field → List Char →
    Except Fault (Config × List Char)
  | [], cs => do return (c, ← closeList cs)
  | f :: fs, cs =>
    match skipBlank cs with
    | [] => .error .unfinished
    | ']' :: rest => .ok (c, rest)
    | d :: rest =>
      if first then do
        let (c, rest) ← f.read c (d :: rest)
        readItems false c fs rest
      else if d = ',' then
        match skipBlank rest with
        | [] => .error .unfinished
        | ']' :: _ => .error .malformed
        | rest => do
          let (c, rest) ← f.read c rest
          readItems false c fs rest
      else .error .malformed

/-! ## Reading a text -/

/-- Reads a configuration off the front of a text. -/
def readPrefix (cs : List Char) : Except Fault (Config × List Char) :=
  match skipBlank cs with
  | '{' :: rest => readMembers true {} [] rest
  | '[' :: rest => readItems true {} Field.all rest
  | cs => .error (Json.wrongType cs)

/-- Reads a configuration from the characters of a text, which hold nothing else. -/
def parseChars (cs : List Char) : Except Fault Config := do
  let (c, rest) ← readPrefix cs
  if skipBlank rest = [] then return c else throw .malformed

/-- Reads a configuration from a text, which holds nothing else. -/
def parse (s : String) : Except Fault Config := parseChars s.toList

end Dhcp.Config
