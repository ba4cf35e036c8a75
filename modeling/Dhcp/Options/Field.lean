import Dhcp.Address
import Dhcp.DecodeError
import Dhcp.Message.Kind
import Dhcp.Options.Code
import Dhcp.Text.Hex
import Dhcp.Text.Utf8
import Dhcp.Time

/-!
# Dhcp.Options.Field

A single option: a code and a value.  The value's shape usually is the one that
its code asks for, but an option may be made with any shape under any code, and is
then sent as it is.

On the wire an option is its code, the length of its payload and the payload,
which is cut at 255 octets.  `decode` reads a payload in the shape of its code.
-/

namespace Dhcp

/-- An option: a code and a value of some shape. -/
inductive OptionField where
  | address (code : UInt8) (value : Address)
  | kind (value : Kind)
  | text (code : UInt8) (value : String)
  | span (code : UInt8) (value : Span)
  | requestList (codes : Octets)
  | raw (code : UInt8) (data : Octets)
deriving DecidableEq

namespace OptionField

/-! ## The options that have a use here -/

/-- The mask of the subnet. -/
def subnetMask (mask : Address) : OptionField := .address OptionCode.subnetMask.octet mask

/-- The address that a client asks for. -/
def requestedAddress (a : Address) : OptionField := .address OptionCode.requestedAddress.octet a

/-- The server that a message is from or for. -/
def serverIdentifier (a : Address) : OptionField := .address OptionCode.serverIdentifier.octet a

/-- The name of a client. -/
def hostName (name : String) : OptionField := .text OptionCode.hostName.octet name

/-- The page that a new client is shown. -/
def captivePortal (url : String) : OptionField := .text OptionCode.captivePortal.octet url

/-- How long an address is granted for. -/
def leaseTime (d : Span) : OptionField := .span OptionCode.leaseTime.octet d

/-- When a client first asks its server to extend its lease. -/
def renewalTime (d : Span) : OptionField := .span OptionCode.renewalTime.octet d

/-- When a client asks any server to extend its lease. -/
def rebindingTime (d : Span) : OptionField := .span OptionCode.rebindingTime.octet d

/-! ## Values of a shape

Each of these answers only for an option of the shape asked for. -/

/-- The address that an option holds. -/
def address? : OptionField → Option Address
  | address _ a => some a
  | _ => none

/-- The message type that an option holds. -/
def kind? : OptionField → Option Kind
  | kind k => some k
  | _ => none

/-- The text that an option holds. -/
def text? : OptionField → Option String
  | text _ s => some s
  | _ => none

/-- The span that an option holds. -/
def span? : OptionField → Option Span
  | span _ d => some d
  | _ => none

/-- The codes that an option asks for. -/
def requestList? : OptionField → Option Octets
  | requestList codes => some codes
  | _ => none

/-- The raw octets that an option holds. -/
def raw? : OptionField → Option Octets
  | raw _ data => some data
  | _ => none

/-! ## Code, payload and text -/

/-- The code of an option. -/
def code : OptionField → UInt8
  | address code _ | text code _ | span code _ | raw code _ => code
  | kind _ => OptionCode.messageType.octet
  | requestList _ => OptionCode.requestList.octet

/-- The greatest length of a payload, which is told in one octet. -/
abbrev maxPayload : Nat := 255

/-- The octets of the value of an option, however many. -/
def valueOctets : OptionField → Octets
  | address _ a => a.octets
  | kind k => [k.octet]
  | text _ s => Text.utf8 s
  | span _ d => d.octets
  | requestList codes => codes
  | raw _ data => data

/-- The payload of an option: the octets of its value, cut at the greatest length. -/
def payload (f : OptionField) : Octets := f.valueOctets.take maxPayload

/-- The length of an option as it is sent, told from its shape. -/
def encodedLength : OptionField → Nat
  | address .. | span .. => 4 + 2
  | kind _ => 1 + 2
  | text _ s => min s.utf8ByteSize maxPayload + 2
  | requestList data | raw _ data => min data.length maxPayload + 2

/-- An option as it is sent: its code, the length of its payload and the payload. -/
def encode (f : OptionField) : Octets :=
  f.code :: UInt8.ofNat f.payload.length :: f.payload

/-- What follows the code when an option is written for a reader. -/
def valueText : OptionField → String
  | address _ a => a.text
  | kind k => k.text
  | text _ s => s
  | span _ d => s!"{d.seconds}s"
  | requestList codes => "\x7b" ++ ",".intercalate (codes.map fun c => s!"{c}") ++ "\x7d"
  | raw _ data => Text.colonHex data

/-- An option as it is written for a reader: its code and its value. -/
def display (f : OptionField) : String := s!"{f.code}: {f.valueText}"

/-! ## Reading -/

/-- Reads the payload of an option in the shape that its code asks for. -/
def decode (code : UInt8) (data : Octets) : Except DecodeError OptionField :=
  if code = OptionCode.pad.octet ∨ code = OptionCode.endMark.octet then
    .error (.malformedOption code .noPayload)
  else
    match Shape.ofCode code with
    | .address =>
      match Address.ofOctets? data with
      | some a => .ok (.address code a)
      | none => .error (.malformedOption code (.notFour data.length))
    | .span =>
      match Span.ofOctets? data with
      | some d => .ok (.span code d)
      | none => .error (.malformedOption code (.notFour data.length))
    | .kind =>
      match data with
      | [b] =>
        match Kind.ofOctet? b with
        | some k => .ok (.kind k)
        | none => .error (.malformedOption code (.unknownKind b))
      | _ => .error (.malformedOption code (.notOne data.length))
    | .text => .ok (.text code (Text.decodeLossy data))
    | .requestList => .ok (.requestList data)
    | .raw => .ok (.raw code data)

end OptionField

end Dhcp
