import Dhcp.Config.Text
import Dhcp.Proofs.Json.RoundTrip

/-!
# Dhcp.Proofs.Config.RoundTrip

Configurations that were written are read again.  A field is read from what was written of it, into
any configuration (`Field.read_write`), and so is the member of an object that it makes
(`readMembers_writeMember`).  Reading all members takes over one field after the other, so that
nothing is left of the configuration that reading began with (`parse_render`).
-/

namespace Dhcp.Config

open Json (EndsNumber)

/-! ## A single field -/

namespace Field

/-- A configuration with a field taken over from another one. -/
def copy (c into : Config) : Field → Config
  | server => { into with server := c.server }
  | mask => { into with mask := c.mask }
  | leaseSeconds => { into with leaseSeconds := c.leaseSeconds }
  | maxLeaseSeconds => { into with maxLeaseSeconds := c.maxLeaseSeconds }
  | portalUrl => { into with portalUrl := c.portalUrl }
  | sweepSeconds => { into with sweepSeconds := c.sweepSeconds }
  | listen => { into with listen := c.listen }
  | serverPort => { into with serverPort := c.serverPort }
  | clientPort => { into with clientPort := c.clientPort }
  | broadcast => { into with broadcast := c.broadcast }

/-- All fields taken over leave nothing of what was there. -/
theorem foldl_copy_all (c into : Config) : all.foldl (copy c) into = c := by
  simp only [all, List.foldl_cons, List.foldl_nil, copy]

theorem ofName?_name (f : Field) : ofName? f.name.toList = some f := by
  cases f <;> decide

theorem readAddress_write (a : Address) (rest : List Char) :
    readAddress (' ' :: (writeAddress a ++ rest)) = .ok (a, rest) := by
  simp only [readAddress, writeAddress, Json.readText_writeString, bind, Except.bind,
    Address.ofChars?_chars]

theorem readPortal_write (c : Config) (rest : List Char) :
    Json.readText? (' ' :: (portalUrl.write c ++ rest)) =
      .ok (c.portalUrl.map String.toList, rest) := by
  rw [write]
  cases c.portalUrl with
  | none => exact Json.readText?_null rest
  | some url => exact Json.readText?_writeString url.toList rest

/-- **A field is read as it was written**, whatever it is read into, if a number cannot go on in
what follows. -/
theorem read_write (c into : Config) (f : Field) {rest : List Char} (hrest : EndsNumber rest) :
    f.read into (' ' :: (f.write c ++ rest)) = .ok (f.copy c into, rest) := by
  have hword (w : UInt32) : Json.readNatural UInt32.size (' ' :: (writeNatural w.toNat ++ rest)) =
      .ok (w.toNat, rest) := Json.readNatural_toDigits w.toNat_lt (by decide) hrest
  have hlong (w : UInt64) : Json.readNatural UInt64.size (' ' :: (writeNatural w.toNat ++ rest)) =
      .ok (w.toNat, rest) := Json.readNatural_toDigits w.toNat_lt (by decide) hrest
  have hport (w : UInt16) : Json.readNatural UInt16.size (' ' :: (writeNatural w.toNat ++ rest)) =
      .ok (w.toNat, rest) := Json.readNatural_toDigits w.toNat_lt (by decide) hrest
  cases f with
  | server | mask | listen | broadcast =>
      simp only [read, write, readAddress_write, Except.map, copy]
  | leaseSeconds | maxLeaseSeconds =>
      simp only [read, write, hword, Except.map, copy, UInt32.ofNat_toNat]
  | sweepSeconds => simp only [read, write, hlong, Except.map, copy, UInt64.ofNat_toNat]
  | serverPort | clientPort =>
      simp only [read, write, hport, Except.map, copy, UInt16.ofNat_toNat]
  | portalUrl =>
      have hurl : (c.portalUrl.map String.toList).map String.ofList = c.portalUrl := by
        cases c.portalUrl <;> simp
      simp only [read, readPortal_write, Except.map, copy, hurl]

/-- Quotes, backslashes and control characters of a page are written as escapes. -/
example : portalUrl.write { portalUrl := some "\"\\\n\x1f/é" } =
    "\"\\\"\\\\\\n\\u001f/é\"".toList := by decide

end Field

/-! ## Members of an object -/

/-- What stands between a member of an object and the one before it: nothing in front of the
first. -/
def separator (first : Bool) : List Char := if first then [] else [',']

/-- The end of an object behind its last member. -/
theorem endsNumber_close (rest : List Char) : EndsNumber ('\n' :: '}' :: rest) := by
  intro c hc
  cases hc
  decide

theorem endsNumber_comma (rest : List Char) : EndsNumber (',' :: rest) := by
  intro c hc
  cases hc
  decide

theorem nextKey_member (first : Bool) (rest : List Char) :
    nextKey first (separator first ++ '\n' :: ' ' :: ' ' :: '"' :: rest) = .ok (true, rest) := by
  cases first <;> rfl

theorem nextKey_close (first : Bool) (rest : List Char) :
    nextKey first ('\n' :: '}' :: rest) = .ok (false, rest) := rfl

/-- A member is its separator, its key in quotes, and its value behind a colon and a space. -/
theorem writeMember_append (c : Config) (f : Field) (rest : List Char) :
    c.writeMember f ++ rest =
      '\n' :: ' ' :: ' ' :: '"' :: (f.name.toList.flatMap Json.writeChar ++
        '"' :: ':' :: ' ' :: (f.write c ++ rest)) := by
  simp only [writeMember, Json.writeString, List.append_assoc, List.cons_append,
    List.nil_append]

theorem readMember_write (c into : Config) {f : Field} {seen : List Field} (hf : f ∉ seen)
    {rest : List Char} (hrest : EndsNumber rest) :
    readMember into seen f.name.toList (':' :: ' ' :: (f.write c ++ rest)) =
      .ok (f.copy c into, f :: seen, rest) := by
  rw [readMember, Field.ofName?_name]
  dsimp only
  rw [if_neg hf]
  change (f.read into (' ' :: (f.write c ++ rest))).bind _ = _
  rw [Field.read_write c into f hrest]
  rfl

/-- **A member is read as it was written**, and the members behind it are read with its field taken
over. -/
theorem readMembers_writeMember (c into : Config) {f : Field} {seen : List Field} (hf : f ∉ seen)
    (first : Bool) {rest : List Char} (hrest : EndsNumber rest) :
    readMembers first into seen (separator first ++ (c.writeMember f ++ rest)) =
      readMembers false (f.copy c into) (f :: seen) rest := by
  rw [writeMember_append, readMembers, nextKey_member]
  dsimp only
  rw [Json.readString_write]
  dsimp only
  rw [readMember_write c into hf hrest]

theorem readMembers_close (c : Config) (seen : List Field) (first : Bool) (rest : List Char) :
    readMembers first c seen ('\n' :: '}' :: rest) = .ok (c, rest) := by
  rw [readMembers, nextKey_close]

/-- **Members are read as they were written**: field after field is taken over, up to the end of
the object. -/
theorem readMembers_writeMembers (c into : Config) {f : Field} {fs seen : List Field}
    (hfs : (f :: fs).Nodup) (hseen : ∀ g ∈ f :: fs, g ∉ seen) (first : Bool) (rest : List Char) :
    readMembers first into seen
        (separator first ++ (c.writeMembers (f :: fs) ++ '\n' :: '}' :: rest)) =
      .ok ((f :: fs).foldl (Field.copy c) into, rest) := by
  rw [List.nodup_cons] at hfs
  rw [List.forall_mem_cons] at hseen
  induction fs generalizing f into seen first with
  | nil =>
      rw [writeMembers, readMembers_writeMember c into hseen.1 first (endsNumber_close rest),
        readMembers_close]
      rfl
  | cons g gs ih =>
      -- the next field is neither the one that was just read nor one of those before it
      have hnew : ∀ h ∈ g :: gs, h ∉ f :: seen := by
        intro h hh hmem
        obtain rfl | hmem := List.mem_cons.1 hmem
        · exact hfs.1 hh
        · exact hseen.2 h hh hmem
      have hsplit : c.writeMembers (f :: g :: gs) ++ '\n' :: '}' :: rest =
          c.writeMember f ++ ',' :: (c.writeMembers (g :: gs) ++ '\n' :: '}' :: rest) := by
        rw [writeMembers, List.append_assoc, List.cons_append]
        exact nofun
      rw [hsplit, readMembers_writeMember c into hseen.1 first (endsNumber_comma _)]
      exact ih (f.copy c into) (List.nodup_cons.1 hfs.2) (List.forall_mem_cons.1 hnew) false

/-! ## The whole text -/

/-- **Configurations round trip** through their texts. -/
theorem parse_render (c : Config) : parse c.render = .ok c := by
  let text := c.writeMembers Field.all ++ ['\n', '}']
  have hmembers : readMembers true {} [] text = .ok (Field.all.foldl (Field.copy c) {}, []) :=
    @readMembers_writeMembers c {} .server Field.all.tail [] (by decide)
      (fun _ _ => List.not_mem_nil) true []
  rw [Field.foldl_copy_all] at hmembers
  have hprefix : readPrefix c.renderChars = .ok (c, []) := hmembers
  rw [parse, render, String.toList_ofList, parseChars, hprefix]
  rfl

end Dhcp.Config
