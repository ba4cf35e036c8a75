import Dhcp.Options.Field

/-!
# Dhcp.Config.Basic

The configuration of a server: its address, the times of its leases, and where it
listens and sends.  `check` tells what keeps a configuration from being served.
-/

namespace Dhcp

/-- The configuration of a server. -/
structure Config where
  /-- The address of the server, whose `/24` it gives addresses of. -/
  server : Address := ⟨192, 168, 4, 1⟩
  /-- The subnet mask that clients are told. -/
  mask : Address := ⟨255, 255, 255, 0⟩
  /-- How long a lease lasts for a client that asks for no time of its own. -/
  leaseSeconds : UInt32 := 14400
  /-- The longest lease that a client may ask for. -/
  maxLeaseSeconds : UInt32 := 86400
  /-- The page that new clients are shown. -/
  portalUrl : Option String := none
  /-- How long it takes from one sweep of expired leases to the next. -/
  sweepSeconds : UInt64 := 60
  /-- The address that requests are received on. -/
  listen : Address := .unspecified
  /-- The port that requests are received on. -/
  serverPort : UInt16 := 67
  /-- The port that replies are sent to. -/
  clientPort : UInt16 := 68
  /-- The address that replies are sent to. -/
  broadcast : Address := .limitedBroadcast
deriving DecidableEq, Inhabited

namespace Config

/-- The mask of a `/24`, the only one that is served. -/
def poolMask : Address := ⟨255, 255, 255, 0⟩

/-- How long a lease lasts for a client that asks for no time of its own. -/
def term (c : Config) : Span := .ofWord c.leaseSeconds

/-- The longest lease that a client may ask for. -/
def maxTerm (c : Config) : Span := .ofWord c.maxLeaseSeconds

/-- The time from one sweep of expired leases to the next. -/
def sweepPeriod (c : Config) : Span := .ofSeconds c.sweepSeconds

/-- The options that replies carry beside their own: the page for new clients, if there is one. -/
def extras (c : Config) : List OptionField :=
  match c.portalUrl with
  | some url => if url = "" then [] else [.captivePortal url]
  | none => []

/-- An address with a port, such as `192.168.4.1:67`. -/
def socketText (a : Address) (port : UInt16) : String := s!"{a.text}:{port}"

/-- Where requests are received. -/
def listenSocket (c : Config) : String := socketText c.listen c.serverPort

/-- Where replies are sent. -/
def replySocket (c : Config) : String := socketText c.broadcast c.clientPort

/-! ## Which configurations can be served -/

/-- What keeps a configuration from being served. -/
inductive Flaw where
  /-- The server's address names the subnet or all of its hosts. -/
  | serverNoHost (server : Address)
  /-- The mask is not the one of a `/24`. -/
  | mask (mask : Address)
  | zeroLease
  | maxBelowLease
  | zeroSweep
  /-- The page's address is longer than an option can carry. -/
  | portalTooLong (length : Nat)
deriving DecidableEq

/-- How a flaw of a configuration is worded. -/
def Flaw.text : Flaw → String
  | serverNoHost server => s!"server_ip {server.text} must have a host octet between 1 and 254"
  | mask m => s!"subnet_mask {m.text} must be {poolMask.text}; the pool is the server's /24"
  | zeroLease => "lease_duration_seconds must be greater than 0"
  | maxBelowLease => "max_lease_duration_seconds must be at least lease_duration_seconds"
  | zeroSweep => "eviction_interval_seconds must be greater than 0"
  | portalTooLong length => s!"captive_portal_url is {length} bytes (maximum 255)"

/-- The first thing that keeps a configuration from being served. -/
def flaw? (c : Config) : Option Flaw :=
  if ¬ c.server.IsHost then some (.serverNoHost c.server)
  else if c.mask ≠ poolMask then some (.mask c.mask)
  else if c.leaseSeconds = 0 then some .zeroLease
  else if c.maxLeaseSeconds < c.leaseSeconds then some .maxBelowLease
  else if c.sweepSeconds = 0 then some .zeroSweep
  else
    match c.portalUrl with
    | some url =>
      if OptionField.maxPayload < url.utf8ByteSize then some (.portalTooLong url.utf8ByteSize)
      else none
    | none => none

/-- A configuration that can be served. -/
def Valid (c : Config) : Prop := c.flaw? = none

instance (c : Config) : Decidable c.Valid := inferInstanceAs (Decidable (_ = none))

/-- What can be served: a host of its subnet, with the mask of a `/24`, whose leases last and are
no longer than the greatest, which sweeps, and whose page fits an option. -/
theorem valid_iff {c : Config} :
    c.Valid ↔
      c.server.IsHost ∧ c.mask = poolMask ∧ c.leaseSeconds ≠ 0 ∧
        c.leaseSeconds ≤ c.maxLeaseSeconds ∧ c.sweepSeconds ≠ 0 ∧
          ∀ url, c.portalUrl = some url → url.utf8ByteSize ≤ OptionField.maxPayload := by
  unfold Valid flaw?
  by_cases hhost : c.server.IsHost
  case neg => simp [hhost]
  rw [if_neg (not_not_intro hhost)]
  by_cases hmask : c.mask = poolMask
  case neg => simp [hmask]
  rw [if_neg (not_not_intro hmask)]
  by_cases hlease : c.leaseSeconds = 0
  case pos => simp [hlease]
  rw [if_neg hlease]
  by_cases hmax : c.maxLeaseSeconds < c.leaseSeconds
  case pos => simp [hmax, UInt32.not_le.2 hmax]
  rw [if_neg hmax]
  by_cases hsweep : c.sweepSeconds = 0
  case pos => simp [hsweep]
  rw [if_neg hsweep]
  have hle : c.leaseSeconds ≤ c.maxLeaseSeconds := UInt32.not_lt.1 hmax
  cases hurl : c.portalUrl with
  | none => simp [hhost, hmask, hlease, hle, hsweep]
  | some url => simp [hhost, hmask, hlease, hle, hsweep]

end Config

end Dhcp
