/-!
# Dhcp.Message.Kind

What a DHCP message says: the thirteen message types, the octet that stands for
each in option 53, and the name each is written with.
-/

namespace Dhcp

/-- The type of a DHCP message. -/
inductive Kind where
  /-- A client looks for servers. -/
  | discover
  /-- A server offers an address. -/
  | offer
  /-- A client asks for an address it was offered or holds. -/
  | request
  /-- A client finds that its address is in use elsewhere. -/
  | decline
  /-- A server grants an address. -/
  | ack
  /-- A server refuses an address. -/
  | nak
  /-- A client gives its address back. -/
  | release
  /-- A client with an address asks for the other parameters. -/
  | inform
  /-- A server asks a client to renew. -/
  | forceRenew
  /-- A relay asks about a lease. -/
  | leaseQuery
  /-- The address asked about is not assigned. -/
  | leaseUnassigned
  /-- The address asked about is not known. -/
  | leaseUnknown
  /-- The lease asked about is active. -/
  | leaseActive
deriving DecidableEq

namespace Kind

/-- All message types, in the order of their octets. -/
def all : List Kind :=
  [discover, offer, request, decline, ack, nak, release, inform, forceRenew, leaseQuery,
    leaseUnassigned, leaseUnknown, leaseActive]

/-- The octet that stands for a message type. -/
def octet : Kind → UInt8
  | discover => 1
  | offer => 2
  | request => 3
  | decline => 4
  | ack => 5
  | nak => 6
  | release => 7
  | inform => 8
  | forceRenew => 9
  | leaseQuery => 10
  | leaseUnassigned => 11
  | leaseUnknown => 12
  | leaseActive => 13

/-- The message type that an octet stands for. -/
def ofOctet? (b : UInt8) : Option Kind := all.find? (·.octet = b)

/-- The name a message type is written with. -/
def text : Kind → String
  | discover => "DISCOVER"
  | offer => "OFFER"
  | request => "REQUEST"
  | decline => "DECLINE"
  | ack => "ACK"
  | nak => "NAK"
  | release => "RELEASE"
  | inform => "INFORM"
  | forceRenew => "FORCE RENEW"
  | leaseQuery => "LEASE QUERY"
  | leaseUnassigned => "LEASE UNASSIGNED"
  | leaseUnknown => "LEASE UNKNOWN"
  | leaseActive => "LEASE ACTIVE"

@[simp] theorem ofOctet?_octet (k : Kind) : ofOctet? k.octet = some k := by
  cases k <;> rfl

/-- Octets that stand for a message type stand for only one. -/
theorem ofOctet?_eq_some {b : UInt8} {k : Kind} : ofOctet? b = some k ↔ b = k.octet := by
  constructor
  · intro h
    have := List.find?_some h
    simp_all
  · rintro rfl; simp

end Kind

end Dhcp
