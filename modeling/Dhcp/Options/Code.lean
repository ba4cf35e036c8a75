/-!
# Dhcp.Options.Code

The option codes that have a name here, and the shape that the payload of each
code takes.  Every other code is carried as raw octets.
-/

namespace Dhcp

/-- The named option codes. -/
inductive OptionCode where
  /-- A single octet without meaning, between options. -/
  | pad
  | subnetMask
  | timeOffset
  | router
  | timeServer
  | nameServer
  | domainNameServer
  | hostName
  | domainName
  | interfaceMtu
  | broadcastAddress
  | ntpServers
  | vendorSpecific
  | requestedAddress
  | leaseTime
  | overload
  | messageType
  | serverIdentifier
  | requestList
  | message
  | maxMessageSize
  | renewalTime
  | rebindingTime
  | classId
  | clientId
  | clientFqdn
  | relayAgentInfo
  | captivePortal
  /-- A single octet that ends the options. -/
  | endMark
deriving DecidableEq

namespace OptionCode

/-- All named codes, in the order of their octets. -/
def all : List OptionCode :=
  [pad, subnetMask, timeOffset, router, timeServer, nameServer, domainNameServer, hostName,
    domainName, interfaceMtu, broadcastAddress, ntpServers, vendorSpecific, requestedAddress,
    leaseTime, overload, messageType, serverIdentifier, requestList, message, maxMessageSize,
    renewalTime, rebindingTime, classId, clientId, clientFqdn, relayAgentInfo, captivePortal,
    endMark]

/-- The octet that stands for a code. -/
def octet : OptionCode → UInt8
  | pad => 0
  | subnetMask => 1
  | timeOffset => 2
  | router => 3
  | timeServer => 4
  | nameServer => 5
  | domainNameServer => 6
  | hostName => 12
  | domainName => 15
  | interfaceMtu => 26
  | broadcastAddress => 28
  | ntpServers => 42
  | vendorSpecific => 43
  | requestedAddress => 50
  | leaseTime => 51
  | overload => 52
  | messageType => 53
  | serverIdentifier => 54
  | requestList => 55
  | message => 56
  | maxMessageSize => 57
  | renewalTime => 58
  | rebindingTime => 59
  | classId => 60
  | clientId => 61
  | clientFqdn => 81
  | relayAgentInfo => 82
  | captivePortal => 114
  | endMark => 255

/-- The named code that an octet stands for. -/
def ofOctet? (b : UInt8) : Option OptionCode := all.find? (·.octet = b)

@[simp] theorem ofOctet?_octet (c : OptionCode) : ofOctet? c.octet = some c := by
  cases c <;> rfl

theorem ofOctet?_eq_some {b : UInt8} {c : OptionCode} : ofOctet? b = some c ↔ b = c.octet := by
  constructor
  · intro h
    have := List.find?_some h
    simp_all
  · rintro rfl; simp

end OptionCode

/-- What the payload of an option is read as. -/
inductive Shape where
  /-- Four octets of an address. -/
  | address
  /-- One octet of a message type. -/
  | kind
  /-- Text in UTF-8. -/
  | text
  /-- Seconds in four octets. -/
  | span
  /-- The codes that a client asks for. -/
  | requestList
  /-- Octets that are kept as they are. -/
  | raw
deriving DecidableEq

/-- The shape that the payload of a code is read as. -/
def Shape.ofCode (code : UInt8) : Shape :=
  match OptionCode.ofOctet? code with
  | some .subnetMask | some .requestedAddress | some .serverIdentifier => .address
  | some .hostName => .text
  | some .leaseTime | some .renewalTime | some .rebindingTime => .span
  | some .messageType => .kind
  | some .requestList => .requestList
  | _ => .raw

end Dhcp
