import Dhcp.Message.Basic

/-!
# Dhcp.Journal

What a server writes into its log while it answers messages: each entry with its
level and its wording.
-/

namespace Dhcp

/-- How much an entry of the log matters. -/
inductive Level where
  | trace
  | debug
  | info
  | warn
  | error
deriving DecidableEq

/-- The name of a level. -/
def Level.text : Level → String
  | trace => "TRACE"
  | debug => "DEBUG"
  | info => "INFO"
  | warn => "WARN"
  | error => "ERROR"

/-- How much a level matters, as a number. -/
def Level.rank : Level → Nat
  | trace => 0
  | debug => 1
  | info => 2
  | warn => 3
  | error => 4

/-- What is told of a message before it is answered. -/
inductive Detail where
  | hostName (name : String)
  | hardware (hw : HardwareAddress)
  | leaseTime (d : Span)
  | requested (a : Address)
  | server (a : Address)
deriving DecidableEq

/-- How a detail of a message is worded. -/
def Detail.text : Detail → String
  | hostName name => s!"Host name: {name}"
  | hardware hw => s!"Hardware address: {hw.text}"
  | leaseTime d => s!"Lease time: {d.seconds}s"
  | requested a => s!"Requested address: {a.text}"
  | server a => s!"Server identifier: {a.text}"

/-- What is told of a message, in order: the host name if there is one, the hardware
address, and the lease time unless it is zero, the address and the server asked for. -/
def Message.details (m : Message) : List Detail :=
  (m.hostName?.map .hostName).toList
    ++ [.hardware m.hw]
    ++ ((m.leaseTime?.filter (· ≠ .zero)).map .leaseTime).toList
    ++ (m.requestedAddress?.map .requested).toList
    ++ (m.serverIdentifier?.map .server).toList

/-- An entry of the log. -/
inductive Entry where
  /-- A message that is itself a reply is not answered. -/
  | replyIgnored (hw : HardwareAddress)
  /-- Something about a message. -/
  | detail (kind : Option Kind) (xid : UInt32) (detail : Detail)
  /-- Messages of this type are not answered. -/
  | unhandled (kind : Kind) (hw : HardwareAddress) (hostName : Option String)
  /-- A message without a type is not answered. -/
  | untyped (hw : HardwareAddress)
  /-- A DISCOVER that a relay passed on is not answered. -/
  | relayIgnored (hw : HardwareAddress) (relay : Address)
  /-- There is no address left to offer. -/
  | exhausted (hw : HardwareAddress)
  | offered (a : Address) (hw : HardwareAddress) (term : Span)
  /-- A REQUEST for another server is not answered. -/
  | otherServer (hw : HardwareAddress) (server : Address)
  | refused (hw : HardwareAddress) (a : Address)
  | granted (a : Address) (hw : HardwareAddress) (term : Span)
  | released (hw : HardwareAddress) (a : Address)
  /-- A RELEASE of an address that the client does not hold. -/
  | releaseUnmatched (hw : HardwareAddress) (a : Address)
deriving DecidableEq

namespace Entry

/-- How much an entry matters. -/
def level : Entry → Level
  | replyIgnored .. | detail .. => .trace
  | unhandled .. | untyped .. | relayIgnored .. | exhausted .. | otherServer ..
  | releaseUnmatched .. => .debug
  | offered .. | granted .. | released .. => .info
  | refused .. => .warn

/-- How an entry is worded. -/
def text : Entry → String
  | replyIgnored hw => s!"Ignoring BOOTREPLY from {hw.text}"
  | detail kind xid d =>
    let name := (kind.map Kind.text).getD "BOOTP"
    s!"[{name}] ({Text.upperHex xid.toNat}) {d.text}"
  | unhandled kind hw hostName =>
    let name := hostName.getD "-"
    s!"Unhandled {kind.text} from {hw.text} (host name: {name})"
  | untyped hw => s!"Message without a DHCP message type from {hw.text}"
  | relayIgnored hw relay => s!"Ignoring relayed DISCOVER from {hw.text} via {relay.text}"
  | exhausted hw => s!"Pool exhausted, no OFFER for {hw.text}"
  | offered a hw term => s!"OFFER {a.text} to {hw.text} ({term.seconds} seconds)"
  | otherServer hw server => s!"REQUEST from {hw.text} is for different server {server.text}"
  | refused hw a => s!"NAK to {hw.text} for {a.text}"
  | granted a hw term => s!"ACK {a.text} to {hw.text} ({term.seconds} seconds)"
  | released hw a => s!"RELEASE from {hw.text} for {a.text}"
  | releaseUnmatched hw a => s!"RELEASE from {hw.text} for {a.text} did not match a lease"

end Entry

/-- The details of a message as entries of the log. -/
def Message.detailEntries (m : Message) : List Entry :=
  m.details.map (.detail m.kind? m.xid)

end Dhcp
