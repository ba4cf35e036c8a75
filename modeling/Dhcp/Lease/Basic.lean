import Dhcp.Address
import Dhcp.Message.Hardware
import Dhcp.Time

/-!
# Dhcp.Lease.Basic

A lease binds an address to the hardware address of a client until it expires.  It
keeps the time it was made for, and a renewal extends it by that time from now.
-/

namespace Dhcp

/-- An address bound to a client. -/
structure Lease where
  address : Address
  hw : HardwareAddress
  /-- The last instant at which the lease holds. -/
  expiry : Instant
  /-- The time that the lease was made for. -/
  term : Span
deriving DecidableEq

namespace Lease

/-- A lease for a time from now. -/
def new (now : Instant) (address : Address) (hw : HardwareAddress) (term : Span) : Lease :=
  { address, hw, expiry := now.after term, term }

/-- The lease by which a server keeps its own address: it belongs to no client and lasts. -/
def reservation (server : Address) : Lease :=
  { address := server, hw := .empty, expiry := .last, term := .longest }

/-- Whether the lease has expired. -/
def expired (l : Lease) (now : Instant) : Bool := l.expiry < now

/-- The time until the lease expires, none if it has expired. -/
def remaining (l : Lease) (now : Instant) : Span := now.leftUntil l.expiry

/-- The lease extended by its term from now. -/
def renew (l : Lease) (now : Instant) : Lease := { l with expiry := now.after l.term }

end Lease

end Dhcp
