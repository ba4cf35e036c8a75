import Dhcp.Config.File
import Dhcp.Exchange
import Dhcp.Message.Packet

/-!
# Dhcp.Server.Basic

A server that receives datagrams and sweeps its pool from time to time.  It is a value
that each event takes to the next: a datagram, a sweep, the passing of time, the end.
Each tells what is logged; a datagram may also be answered by one datagram.

Peers are written as the caller names them, since their sockets belong to the network.
-/

namespace Dhcp

/-- A pool for the `/24` of a server, in which only the server's own address is taken. -/
def Pool.create (server : Address) : Except Error Pool :=
  match Pool.new? server with
  | some p => .ok p
  | none => .error (.unusableServer server)

/-- A line of the log. -/
structure LogLine where
  level : Level
  text : String
deriving DecidableEq

/-- An entry as a line of the log. -/
def Entry.line (e : Entry) : LogLine := ⟨e.level, e.text⟩

/-- A server with its pool. -/
structure Server where
  config : Config
  pool : Pool
deriving DecidableEq

namespace Server

/-- The length of the buffer that datagrams are received into.  What is beyond it is lost. -/
abbrev bufferLength : Nat := 1500

/-- A server for a configuration, if that can be served. -/
def create (c : Config) : Except Error Server := do
  c.check
  return ⟨c, ← Pool.create c.server⟩

/-- What is logged when a server is made that listens on `socket`, and starts. -/
def startLog (s : Server) (socket client : String) : List LogLine :=
  [ ⟨.info, s!"DHCP server {s.config.server.text} listening on {socket}"⟩
  , ⟨.info, s!"Lease duration {s.config.leaseSeconds}s (max {s.config.maxLeaseSeconds}s), replies to {client}"⟩
  , ⟨.info, "DHCP server ready and listening"⟩ ]

/-- What is logged when a server has stopped. -/
def stopLog : List LogLine := [⟨.info, "DHCP server stopped"⟩]

/-- What comes of an event: the answer to it, the server afterwards and what is logged. -/
structure Outcome (α : Type) where
  answer : α
  server : Server
  log : List LogLine

/-- Handles the octets of a datagram: the message that answers it, or why it is not answered. -/
def handle (s : Server) (now : Instant) (data : Octets) :
    Outcome (Except Error (Option Message)) :=
  match Message.decode data with
  | .error e => ⟨.error (.decode e), s, []⟩
  | .ok m =>
    let x := s.config.answer now s.pool m
    ⟨x.reply.mapError .reply, { s with pool := x.pool }, x.log.map (·.line)⟩

/-- Receives a datagram from a client, and answers it to a destination.  What is not a DHCP
message is dropped, and what goes wrong otherwise is logged as an error. -/
def receive (s : Server) (now : Instant) (data : Octets) (client destination : String) :
    Outcome (Option Octets) :=
  let ⟨reply, s, log⟩ := s.handle now (data.take bufferLength)
  match reply with
  | .ok none => ⟨none, s, log⟩
  | .ok (some r) =>
    ⟨some r.encode, s, log ++
      [⟨.trace, s!"Sent {r.encodedLength} bytes to {destination} in reply to {client}"⟩]⟩
  | .error e =>
    ⟨none, s, log ++
      [ if e.isDecode then ⟨.debug, s!"Dropping packet from {client}: {e.text}"⟩
        else ⟨.error, s!"Error handling packet from {client}: {e.text}"⟩ ]⟩

/-- Ends the leases that have expired. -/
def sweep (s : Server) (now : Instant) : Outcome Unit :=
  let pool := s.pool.sweep now
  let ended := s.pool.expiredCount now
  ⟨(), { s with pool },
    [ if 0 < ended then
        ⟨.info, s!"Evicted {ended} expired lease(s), {pool.available} address(es) available"⟩
      else ⟨.trace, "Eviction sweep found no expired leases"⟩ ]⟩

/-- The number of sweeps that fall due when the time since the start of a server goes from
`old` to `new`: one for each multiple of the period after `old` up to `new`. -/
def sweepsDue (s : Server) (old new : Nat) : Nat :=
  new / s.config.sweepPeriod.nanos - old / s.config.sweepPeriod.nanos

/-- Sweeps a number of times at one instant. -/
def sweepTimes (s : Server) (now : Instant) : Nat → Outcome Unit
  | 0 => ⟨(), s, []⟩
  | n + 1 =>
    let first := s.sweep now
    let others := first.server.sweepTimes now n
    ⟨(), others.server, first.log ++ others.log⟩

end Server

end Dhcp
