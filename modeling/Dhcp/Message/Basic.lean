import Dhcp.Message.Hardware
import Dhcp.Options.Basic

/-!
# Dhcp.Message.Basic

A DHCP message: the fields of its header, named as in the packet, and its options.
-/

namespace Dhcp

/-- Which way a message goes. -/
inductive Operation where
  /-- From a client to a server. -/
  | request
  /-- From a server to a client. -/
  | reply
deriving DecidableEq

namespace Operation

/-- Both operations. -/
def all : List Operation := [request, reply]

/-- The octet that stands for an operation. -/
def octet : Operation → UInt8
  | request => 1
  | reply => 2

/-- The operation that an octet stands for. -/
def ofOctet? (b : UInt8) : Option Operation := all.find? (·.octet = b)

@[simp] theorem ofOctet?_octet (op : Operation) : ofOctet? op.octet = some op := by
  cases op <;> rfl

theorem ofOctet?_eq_some {b : UInt8} {op : Operation} : ofOctet? b = some op ↔ b = op.octet := by
  constructor
  · intro h
    have := List.find?_some h
    simp_all
  · rintro rfl; simp

end Operation

/-- A DHCP message. -/
structure Message where
  op : Operation
  /-- The type of the hardware address. -/
  htype : UInt8
  /-- How many relays have passed the message on. -/
  hops : UInt8
  /-- The number by which a client knows the answers to its message. -/
  xid : UInt32
  /-- The seconds since the client began. -/
  secs : UInt16
  flags : UInt16
  /-- The address that the client has. -/
  ciaddr : Address
  /-- The address that the client is given. -/
  yiaddr : Address
  /-- The address of the next server. -/
  siaddr : Address
  /-- The address of the relay. -/
  giaddr : Address
  /-- The hardware address of the client. -/
  hw : HardwareAddress
  options : Options
deriving DecidableEq

namespace Message

/-- The message type. -/
def kind? (m : Message) : Option Kind := m.options.kind?

/-- The address that the client asks for. -/
def requestedAddress? (m : Message) : Option Address :=
  m.options.address? OptionCode.requestedAddress.octet

/-- The server that the message is from or for. -/
def serverIdentifier? (m : Message) : Option Address :=
  m.options.address? OptionCode.serverIdentifier.octet

/-- The mask of the subnet. -/
def subnetMask? (m : Message) : Option Address := m.options.address? OptionCode.subnetMask.octet

/-- The name of the client. -/
def hostName? (m : Message) : Option String := m.options.text? OptionCode.hostName.octet

/-- The lease time that is granted or asked for. -/
def leaseTime? (m : Message) : Option Span := m.options.span? OptionCode.leaseTime.octet

/-- When to ask the server for an extension. -/
def renewalTime? (m : Message) : Option Span := m.options.span? OptionCode.renewalTime.octet

/-- When to ask any server for an extension. -/
def rebindingTime? (m : Message) : Option Span := m.options.span? OptionCode.rebindingTime.octet

/-- The codes that the client asks for. -/
def requestList? (m : Message) : Option Octets := m.options.requestList?

/-- What the client calls itself beside its hardware address. -/
def clientIdentifier? (m : Message) : Option Octets := m.options.raw? OptionCode.clientId.octet

/-- Whether the client asks for an answer to all hosts: the highest bit of the flags. -/
def isBroadcast (m : Message) : Bool := 0x8000 ≤ m.flags.toNat

end Message

end Dhcp
