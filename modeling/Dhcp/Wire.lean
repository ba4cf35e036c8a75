import Dhcp.Address
import Dhcp.DecodeError

/-!
# Dhcp.Wire

Reading fixed fields at an offset of a packet.  Offsets are words of 64 bits, and
the end of a field is computed without wrapping: a field that would end beyond the
range of offsets is reported as needing the whole range.
-/

namespace Dhcp.Wire

/-- The offset after a field of `count` octets, if there is such an offset. -/
def fieldEnd? (offset : UInt64) (count : Nat) : Option Nat :=
  if offset.toNat + count < UInt64.size then some (offset.toNat + count) else none

/-- The `count` octets from an offset on. -/
def slice (data : Octets) (offset : UInt64) (count : Nat) : Except DecodeError Octets :=
  match fieldEnd? offset count with
  | none => .error (.truncated (UInt64.size - 1) data.length)
  | some stop =>
    if stop ≤ data.length then .ok ((data.drop offset.toNat).take count)
    else .error (.truncated stop data.length)

/-- The octet at an offset. -/
def octet (data : Octets) (offset : UInt64) : Except DecodeError UInt8 :=
  (slice data offset 1).map fun bs => UInt8.ofNat (ofBigEndian bs)

/-- The word of 16 bits at an offset, in network order. -/
def word16 (data : Octets) (offset : UInt64) : Except DecodeError UInt16 :=
  (slice data offset 2).map fun bs => UInt16.ofNat (ofBigEndian bs)

/-- The word of 32 bits at an offset, the least significant octet first. -/
def word32 (data : Octets) (offset : UInt64) : Except DecodeError UInt32 :=
  (slice data offset 4).map fun bs => UInt32.ofNat (ofLittleEndian bs)

/-- The address at an offset. -/
def address (data : Octets) (offset : UInt64) : Except DecodeError Address :=
  (slice data offset 4).map fun bs => (Address.ofOctets? bs).getD .unspecified

end Dhcp.Wire
