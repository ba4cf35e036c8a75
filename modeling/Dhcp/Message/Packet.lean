import Dhcp.Message.Basic
import Dhcp.Options.Stream
import Dhcp.Wire

/-!
# Dhcp.Message.Packet

Messages as packets.  The header takes 240 octets, of which the last four are the
magic cookie; the names of the server and of its boot file, 192 octets before the
cookie, are not read and are sent as zeros.  The options follow.
-/

namespace Dhcp.Message

/-- The four octets between the header's fields and the options. -/
def magicCookie : Octets := [99, 130, 83, 99]

/-- The length of the header with the magic cookie. -/
abbrev headerLength : Nat := 240

/-- The fields of the header as they are sent, and the magic cookie. -/
def encodeHeader (m : Message) : Octets :=
  [m.op.octet, m.htype, UInt8.ofNat m.hw.length, m.hops]
    ++ littleEndian 4 m.xid.toNat
    ++ bigEndian 2 m.secs.toNat
    ++ bigEndian 2 m.flags.toNat
    ++ m.ciaddr.octets ++ m.yiaddr.octets ++ m.siaddr.octets ++ m.giaddr.octets
    ++ m.hw.field
    ++ List.replicate 192 0
    ++ magicCookie

/-- A message as it is sent. -/
def encode (m : Message) : Octets := m.encodeHeader ++ m.options.encode

/-- The length of a message as it is sent, told from its options. -/
def encodedLength (m : Message) : Nat := headerLength + m.options.encodedLength

/-- Reads a message from a packet.  Of several reasons to refuse it the first counts:
its length, the cookie, the operation, the hardware address, the options. -/
def decode (data : Octets) : Except DecodeError Message := do
  if data.length < headerLength then
    throw (.truncated headerLength data.length)
  if (← Wire.slice data 236 4) ≠ magicCookie then
    throw .badCookie
  let opOctet ← Wire.octet data 0
  let some op := Operation.ofOctet? opOctet
    | throw (.unknownOperation opOctet)
  let hlen ← Wire.octet data 2
  if 16 < hlen then
    throw (.hardwareTooLong hlen)
  let options ← Options.decode (data.drop headerLength)
  return {
    op
    htype := ← Wire.octet data 1
    hops := ← Wire.octet data 3
    xid := ← Wire.word32 data 4
    secs := ← Wire.word16 data 8
    flags := ← Wire.word16 data 10
    ciaddr := ← Wire.address data 12
    yiaddr := ← Wire.address data 16
    siaddr := ← Wire.address data 20
    giaddr := ← Wire.address data 24
    hw := .ofOctets (← Wire.slice data 28 hlen.toNat)
    options
  }

end Dhcp.Message
