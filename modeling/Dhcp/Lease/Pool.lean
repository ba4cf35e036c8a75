import Dhcp.Lease.Basic

/-!
# Dhcp.Lease.Pool

The leases of a server for the 254 hosts of its `/24`: one slot for each host octet.
The server's own address has a slot too, taken by a reservation, so that it is never
given to a client.

What a client asks for may be impossible (an address elsewhere, another client's, the
server's).  That is an answer of `none` or `false` and no error.
-/

namespace Dhcp

/-- The leases of a server, by host octet. -/
structure Pool where
  /-- The address of the server, which names the subnet. -/
  server : Address
  slots : Vector (Option Lease) 256
deriving DecidableEq

namespace Pool

/-! ## Slots -/

/-- The lease in the slot of a host. -/
def get? (p : Pool) (host : UInt8) : Option Lease := getElem p.slots host.toNat host.toNat_lt

/-- Sets or clears the slot of a host. -/
def set (p : Pool) (host : UInt8) (l : Option Lease) : Pool :=
  { p with slots := p.slots.set host.toNat l host.toNat_lt }

theorem get?_set (p : Pool) (host other : UInt8) (l : Option Lease) :
    (p.set host l).get? other = if host = other then l else p.get? other := by
  simp only [get?, set, Vector.getElem_set, UInt8.toNat_inj]

/-- A pool is known by its server and by what its slots hold. -/
@[ext] theorem ext {p q : Pool} (hs : p.server = q.server)
    (h : ∀ host, p.get? host = q.get? host) : p = q := by
  obtain ⟨sp, vp⟩ := p
  obtain ⟨sq, vq⟩ := q
  obtain rfl : sp = sq := hs
  congr 1
  ext1 i hi
  have := h (UInt8.ofNat i)
  simpa [get?, Nat.mod_eq_of_lt hi] using this

/-- A pool without leases but for the reservation of the server's own address.  The server
must be a host of its subnet. -/
def new? (server : Address) : Option Pool :=
  if server.IsHost then
    some (Pool.set ⟨server, .replicate 256 none⟩ server.host (some (.reservation server)))
  else none

/-! ## Hosts -/

/-- The octets of the hosts of a subnet in ascending order. -/
def hosts : List UInt8 := (List.range' 1 254).map UInt8.ofNat

/-- The host octet of an address, if it is a host of the server's subnet. -/
def hostOf? (p : Pool) (a : Address) : Option UInt8 :=
  if a.SameNet p.server ∧ a.IsHost then some a.host else none

/-- The host octet of an address that a client may have: the server's own is none of them. -/
def clientHost? (p : Pool) (a : Address) : Option UInt8 :=
  (p.hostOf? a).filter (· ≠ p.server.host)

/-- The lowest address whose slot is free. -/
def lowestFree? (p : Pool) : Option Address :=
  (hosts.find? fun host => (p.get? host).isNone).map p.server.withHost

/-! ## Leases of clients -/

/-- Makes a lease on an address for a time, or renews the one that the client already has.
There is none if the address is not one that a client may have, or is another client's. -/
def request (p : Pool) (now : Instant) (a : Address) (hw : HardwareAddress) (term : Span) :
    Option Lease × Pool :=
  match p.clientHost? a with
  | none => (none, p)
  | some host =>
    match p.get? host with
    | none =>
      let l := Lease.new now a hw term
      (some l, p.set host (some l))
    | some l =>
      if l.hw = hw then (some (l.renew now), p.set host (some (l.renew now))) else (none, p)

/-- Renews the lease that a client has on an address, expired or not. -/
def renew (p : Pool) (now : Instant) (a : Address) (hw : HardwareAddress) :
    Option Lease × Pool :=
  match p.clientHost? a with
  | none => (none, p)
  | some host =>
    match p.get? host with
    | none => (none, p)
    | some l =>
      if l.hw = hw then (some (l.renew now), p.set host (some (l.renew now))) else (none, p)

/-- Ends the lease that a client has on an address, and tells whether there was one. -/
def release (p : Pool) (a : Address) (hw : HardwareAddress) : Bool × Pool :=
  match p.clientHost? a with
  | none => (false, p)
  | some host =>
    match p.get? host with
    | none => (false, p)
    | some l => if l.hw = hw then (true, p.set host none) else (false, p)

/-- The lease that a client has on an address, unless it has expired. -/
def leaseOf? (p : Pool) (now : Instant) (a : Address) (hw : HardwareAddress) : Option Lease :=
  match p.clientHost? a with
  | none => none
  | some host => (p.get? host).filter fun l => l.hw = hw ∧ ¬ l.expired now

/-- Whether a client has a lease on an address that has not expired. -/
def isLeasedTo (p : Pool) (now : Instant) (a : Address) (hw : HardwareAddress) : Bool :=
  (p.leaseOf? now a hw).isSome

/-! ## The pool as a whole -/

/-- The number of slots taken, the server's among them. -/
def size (p : Pool) : Nat := p.slots.toList.countP Option.isSome

/-- The number of addresses without a lease. -/
def available (p : Pool) : Nat := 254 - p.size

/-- Clears the slots of the clients whose leases have expired. -/
def sweep (p : Pool) (now : Instant) : Pool :=
  { p with slots := p.slots.mapIdx fun host l =>
      if host = p.server.host.toNat then l else l.filter fun l => ¬ l.expired now }

/-- The number of leases that a sweep ends. -/
def expiredCount (p : Pool) (now : Instant) : Nat := p.size - (p.sweep now).size

/-- The leases of clients, by ascending address, which is the order of their slots. -/
def leases (p : Pool) : List Lease :=
  (hosts.filter (· ≠ p.server.host)).filterMap p.get?

end Pool

end Dhcp
