import Dhcp.Config.Basic
import Dhcp.DecodeError
import Dhcp.Disk
import Dhcp.Json.Reader
import Dhcp.Reply

/-!
# Dhcp.Error

All that can go wrong, and how it is worded.
-/

namespace Dhcp

/-- What went wrong. -/
inductive Error where
  /-- A datagram is not a DHCP message. -/
  | decode (e : DecodeError)
  /-- A reply cannot be made. -/
  | reply (e : ReplyError)
  /-- The server's address is no host of its subnet. -/
  | unusableServer (server : Address)
  /-- The configuration cannot be served. -/
  | config (flaw : Config.Flaw)
  /-- The text of the configuration cannot be read. -/
  | json (fault : Json.Fault)
  /-- The file of the configuration cannot be read or written. -/
  | disk (fault : Disk.Fault)
deriving DecidableEq

namespace Error

/-- How an error is worded. -/
def text : Error → String
  | decode e => e.text
  | reply .zeroLease => "Lease time must be greater than zero"
  | unusableServer server => s!"Server address {server.text} is not a usable host address"
  | config flaw => s!"Invalid configuration: {flaw.text}"
  | json fault => s!"JSON error: {fault.text}"
  | disk fault => s!"IO error: {fault.text}"

/-- Whether the error is that a datagram is not a DHCP message. -/
def isDecode : Error → Bool
  | decode _ => true
  | _ => false

end Error

/-- What goes well stays as it is, whatever kind of error a failure counts as. -/
theorem mapError_eq_ok {ε ε' α : Type} {x : Except ε α} {f : ε → ε'} {a : α} :
    x.mapError f = .ok a ↔ x = .ok a := by
  cases x with
  | error e =>
      constructor <;> intro h <;> cases h
  | ok b =>
      change Except.ok b = Except.ok a ↔ _
      rw [Except.ok.injEq, Except.ok.injEq]

end Dhcp
