import Dhcp.Octets

/-!
# Dhcp.Address

IPv4 addresses, their four octets on the wire, their dotted spelling, and the
subnet of 256 addresses (`/24`) that an address belongs to.
-/

namespace Dhcp

/-- An IPv4 address: the three octets of its `/24` and the host octet within it. -/
structure Address where
  a : UInt8
  b : UInt8
  c : UInt8
  host : UInt8
deriving DecidableEq, Inhabited

namespace Address

/-- The address `0.0.0.0`, which stands for no address. -/
def unspecified : Address := ⟨0, 0, 0, 0⟩

/-- The address `255.255.255.255`, which reaches every host of the local network. -/
def limitedBroadcast : Address := ⟨255, 255, 255, 255⟩

/-! ## Octets -/

/-- The four octets of an address in the order they are written and sent. -/
def octets (a : Address) : Octets := [a.a, a.b, a.c, a.host]

/-- The address that exactly four octets make. -/
def ofOctets? : Octets → Option Address
  | [a, b, c, host] => some ⟨a, b, c, host⟩
  | _ => none

@[simp] theorem length_octets (a : Address) : a.octets.length = 4 := rfl

@[simp] theorem ofOctets?_octets (a : Address) : ofOctets? a.octets = some a := rfl

/-- Exactly the strings of four octets are addresses. -/
theorem ofOctets?_eq_some {bs : Octets} {a : Address} :
    ofOctets? bs = some a ↔ bs = a.octets := by
  constructor
  · intro h
    match bs, h with
    | [_, _, _, _], rfl => rfl
  · rintro rfl; rfl

/-! ## Dotted spelling -/

/-- An octet in decimal. -/
def octetChars (o : UInt8) : List Char := Nat.toDigits 10 o.toNat

/-- An address in its dotted spelling, such as `192.168.4.1`. -/
def chars (a : Address) : List Char :=
  octetChars a.a ++ '.' :: octetChars a.b ++ '.' :: octetChars a.c ++ '.' :: octetChars a.host

/-- An address in its dotted spelling, such as `192.168.4.1`. -/
def text (a : Address) : String := String.ofList a.chars

/-- The octet that one to three decimal digits spell, without a leading zero. -/
def octetOfChars? (cs : List Char) : Option UInt8 :=
  if cs ≠ [] ∧ cs.length ≤ 3 ∧ cs.all Char.isDigit ∧ (cs.head? = some '0' → cs.length = 1) then
    let n := Nat.ofDigitChars 10 cs 0
    if n < 256 then some (UInt8.ofNat n) else none
  else none

/-- Splits off what stands before the first dot; `none` if there is no dot. -/
def beforeDot? : List Char → Option (List Char × List Char)
  | [] => none
  | c :: cs => if c = '.' then some ([], cs) else (beforeDot? cs).map fun (p, r) => (c :: p, r)

/-- The address that a dotted spelling of exactly four octets names. -/
def ofChars? (cs : List Char) : Option Address := do
  let (a, cs) ← beforeDot? cs
  let (b, cs) ← beforeDot? cs
  let (c, host) ← beforeDot? cs
  return ⟨← octetOfChars? a, ← octetOfChars? b, ← octetOfChars? c, ← octetOfChars? host⟩

/-! ## The subnet of an address -/

/-- Whether two addresses lie in one `/24`. -/
def SameNet (x y : Address) : Prop := x.a = y.a ∧ x.b = y.b ∧ x.c = y.c

instance (x y : Address) : Decidable (SameNet x y) := inferInstanceAs (Decidable (_ ∧ _ ∧ _))

/-- Whether the host octet may name a host: 0 names the subnet itself and 255 all of its hosts. -/
def IsHost (a : Address) : Prop := a.host ≠ 0 ∧ a.host ≠ 255

instance (a : Address) : Decidable a.IsHost := inferInstanceAs (Decidable (_ ∧ _))

/-- The address with the given host octet in the `/24` of an address. -/
def withHost (a : Address) (host : UInt8) : Address := { a with host }

end Address

end Dhcp
