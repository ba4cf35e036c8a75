import Dhcp.Config.Basic
import Dhcp.Json.Length
import Dhcp.Json.Writer

/-!
# Dhcp.Config.Field

The fields of a configuration as they stand in a file: the name of each, how its value
is written, and how it is read.
-/

namespace Dhcp.Config

/-- A field of the configuration. -/
inductive Field where
  | server
  | mask
  | leaseSeconds
  | maxLeaseSeconds
  | portalUrl
  | sweepSeconds
  | listen
  | serverPort
  | clientPort
  | broadcast
deriving DecidableEq

namespace Field

/-- All fields, in the order in which they are written. -/
def all : List Field :=
  [server, mask, leaseSeconds, maxLeaseSeconds, portalUrl, sweepSeconds, listen, serverPort,
    clientPort, broadcast]

/-- The name of a field in a file. -/
def name : Field → String
  | server => "server_ip"
  | mask => "subnet_mask"
  | leaseSeconds => "lease_duration_seconds"
  | maxLeaseSeconds => "max_lease_duration_seconds"
  | portalUrl => "captive_portal_url"
  | sweepSeconds => "eviction_interval_seconds"
  | listen => "listen_address"
  | serverPort => "server_port"
  | clientPort => "client_port"
  | broadcast => "broadcast_address"

/-- The field of a name. -/
def ofName? (cs : List Char) : Option Field := all.find? fun f => f.name.toList = cs

/-! ## Writing -/

/-- An address as it is written. -/
def writeAddress (a : Address) : List Char := Json.writeString a.chars

/-- A number as it is written. -/
def writeNatural (n : Nat) : List Char := Nat.toDigits 10 n

/-- The value of a field as it is written. -/
def write (c : Config) : Field → List Char
  | server => writeAddress c.server
  | mask => writeAddress c.mask
  | leaseSeconds => writeNatural c.leaseSeconds.toNat
  | maxLeaseSeconds => writeNatural c.maxLeaseSeconds.toNat
  | portalUrl =>
    match c.portalUrl with
    | some url => Json.writeString url.toList
    | none => ['n', 'u', 'l', 'l']
  | sweepSeconds => writeNatural c.sweepSeconds.toNat
  | listen => writeAddress c.listen
  | serverPort => writeNatural c.serverPort.toNat
  | clientPort => writeNatural c.clientPort.toNat
  | broadcast => writeAddress c.broadcast

/-! ## Reading -/

/-- Reads an address. -/
def readAddress (cs : List Char) : Except Json.Fault (Address × List Char) := do
  let (s, rest) ← Json.readText cs
  match Address.ofChars? s with
  | some a => .ok (a, rest)
  | none => .error .mismatch

/-- Reads the value of a field into a configuration. -/
def read (c : Config) (cs : List Char) : Field → Except Json.Fault (Config × List Char)
  | server => (readAddress cs).map fun (a, rest) => ({ c with server := a }, rest)
  | mask => (readAddress cs).map fun (a, rest) => ({ c with mask := a }, rest)
  | leaseSeconds => (Json.readNatural UInt32.size cs).map fun (n, rest) =>
      ({ c with leaseSeconds := UInt32.ofNat n }, rest)
  | maxLeaseSeconds => (Json.readNatural UInt32.size cs).map fun (n, rest) =>
      ({ c with maxLeaseSeconds := UInt32.ofNat n }, rest)
  | portalUrl => (Json.readText? cs).map fun (s, rest) =>
      ({ c with portalUrl := s.map String.ofList }, rest)
  | sweepSeconds => (Json.readNatural UInt64.size cs).map fun (n, rest) =>
      ({ c with sweepSeconds := UInt64.ofNat n }, rest)
  | listen => (readAddress cs).map fun (a, rest) => ({ c with listen := a }, rest)
  | serverPort => (Json.readNatural UInt16.size cs).map fun (n, rest) =>
      ({ c with serverPort := UInt16.ofNat n }, rest)
  | clientPort => (Json.readNatural UInt16.size cs).map fun (n, rest) =>
      ({ c with clientPort := UInt16.ofNat n }, rest)
  | broadcast => (readAddress cs).map fun (a, rest) => ({ c with broadcast := a }, rest)

theorem length_of_readAddress {cs rest : List Char} {a : Address}
    (h : readAddress cs = .ok (a, rest)) : rest.length ≤ cs.length := by
  obtain ⟨⟨s, tail⟩, htext, h⟩ := Json.exists_of_bind_eq_ok h
  dsimp only at h
  split at h
  · cases h
    exact Json.length_of_readText htext
  · contradiction

/-- A field leaves no more of a text than it was given. -/
theorem length_of_read {c c' : Config} {f : Field} {cs rest : List Char}
    (h : f.read c cs = .ok (c', rest)) : rest.length ≤ cs.length := by
  cases f with
  | server | mask | listen | broadcast =>
      rw [read] at h
      obtain ⟨a, ha⟩ := Json.exists_of_map_eq_ok h fun _ => rfl
      exact length_of_readAddress ha
  | leaseSeconds | maxLeaseSeconds | sweepSeconds | serverPort | clientPort =>
      rw [read] at h
      obtain ⟨n, hn⟩ := Json.exists_of_map_eq_ok h fun _ => rfl
      exact Json.length_of_readNatural hn
  | portalUrl =>
      rw [read] at h
      obtain ⟨s, hs⟩ := Json.exists_of_map_eq_ok h fun _ => rfl
      exact Json.length_of_readText? hs

end Field

end Dhcp.Config
