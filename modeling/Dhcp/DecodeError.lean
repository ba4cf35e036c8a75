import Dhcp.Octets

/-!
# Dhcp.DecodeError

Why a datagram is not a DHCP message, and how each reason is worded.
-/

namespace Dhcp

/-- Why the payload of an option is not of the shape that its code asks for. -/
inductive PayloadFlaw where
  /-- Pad and End stand alone: they have no payload. -/
  | noPayload
  /-- An address or a span has four octets. -/
  | notFour (length : Nat)
  /-- A message type has one octet. -/
  | notOne (length : Nat)
  /-- The octet stands for no message type. -/
  | unknownKind (octet : UInt8)
deriving DecidableEq

/-- How a flaw of a payload is worded. -/
def PayloadFlaw.text : PayloadFlaw → String
  | noPayload => "Pad/End carry no payload"
  | notFour length => s!"expected 4 bytes, got {length}"
  | notOne length => s!"expected 1 byte, got {length}"
  | unknownKind octet => s!"unknown message type {octet}"

/-- Why octets could not be decoded. -/
inductive DecodeError where
  /-- Fewer octets are there than a field needs. -/
  | truncated (needed actual : Nat)
  /-- The four octets before the options are not the magic cookie. -/
  | badCookie
  /-- The operation code is neither a request nor a reply. -/
  | unknownOperation (octet : UInt8)
  /-- The hardware address is said to be longer than its field. -/
  | hardwareTooLong (length : UInt8)
  /-- The options begin with padding. -/
  | leadingPad
  /-- The octets end before an option does. -/
  | optionOverrun (code : UInt8)
  /-- The octets end before the options do. -/
  | missingEnd
  /-- The payload of an option does not have the shape of its code. -/
  | malformedOption (code : UInt8) (flaw : PayloadFlaw)
deriving DecidableEq

/-- How a decoding error is worded. -/
def DecodeError.text : DecodeError → String
  | truncated needed actual => s!"Packet truncated: {actual} bytes (need at least {needed})"
  | badCookie => "Invalid magic cookie"
  | unknownOperation octet => s!"Invalid DHCP packet: Unknown op code {octet}"
  | hardwareTooLong length =>
    s!"Invalid DHCP packet: Hardware address length {length} exceeds 16"
  | leadingPad => "Option stream starts with Pad"
  | optionOverrun code => s!"Option {code} length overruns the buffer"
  | missingEnd => "Option stream has no End marker"
  | malformedOption code flaw => s!"Malformed option {code}: {flaw.text}"

end Dhcp
