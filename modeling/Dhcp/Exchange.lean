import Dhcp.Config.Basic
import Dhcp.Journal
import Dhcp.Lease.Pool
import Dhcp.Reply

/-!
# Dhcp.Exchange

How a server answers a message of a client: a DISCOVER with an OFFER, a REQUEST with
an ACK or a NAK, a RELEASE by ending the lease, all else not at all.

An exchange depends on the configuration, the clock, the pool and the message, and
tells the reply, the pool afterwards and what is logged.  A lease is made or extended
before the reply that grants it; where that reply cannot be made, the lease stays.
-/

namespace Dhcp

/-- What comes of a message. -/
structure Exchange where
  /-- The reply, if there is one. -/
  reply : Except ReplyError (Option Message)
  /-- The pool afterwards. -/
  pool : Pool
  /-- What is logged. -/
  log : List Entry

/-! ## Leases that a REQUEST leads to -/

/-- Extends the lease that a client has on its address.  A lease without time left after
that is none. -/
def Pool.extendHeld (p : Pool) (now : Instant) (m : Message) : Option Lease × Pool :=
  let (l, p) := p.renew now (m.requestedAddress?.getD m.ciaddr) m.hw
  (l.filter fun l => l.remaining now ≠ .zero, p)

namespace Config

/-- The time that a client is given: what it asks for if that is not zero and not above the
greatest, the usual time otherwise. -/
def negotiate (c : Config) (m : Message) : Span :=
  match m.leaseTime? with
  | some d => if d ≠ .zero ∧ d ≤ c.maxTerm then d else c.term
  | none => c.term

/-- Makes or renews the lease on the address that a client asks for. -/
def bindRequested (c : Config) (now : Instant) (p : Pool) (m : Message) : Option Lease × Pool :=
  match m.requestedAddress? with
  | none => (none, p)
  | some a => p.request now a m.hw (c.negotiate m)

/-- The lease that a REQUEST for this server leads to, and the pool with it.  A client that
names the server, or has no address yet, binds one; a client with an address extends it. -/
def leaseFor (c : Config) (now : Instant) (p : Pool) (m : Message) : Option Lease × Pool :=
  if m.serverIdentifier?.isSome ∨ m.ciaddr = .unspecified then c.bindRequested now p m
  else p.extendHeld now m

/-! ## Answers by message type -/

/-- Who replies. -/
def responder (c : Config) : Responder := ⟨c.server, c.mask⟩

/-- The address and time to offer a client: the unexpired lease that it has on the address
it asks for, for what remains of it, or else the lowest free address. -/
def offerFor? (c : Config) (now : Instant) (p : Pool) (m : Message) : Option (Address × Span) :=
  match m.requestedAddress?.bind fun a => p.leaseOf? now a m.hw with
  | some l => some (l.address, (l.remaining now).roundUp)
  | none => p.lowestFree?.map fun a => (a, c.negotiate m)

/-- Answers a DISCOVER.  The pool is not changed. -/
def answerDiscover (c : Config) (now : Instant) (p : Pool) (m : Message) : Exchange :=
  if m.giaddr ≠ .unspecified then ⟨.ok none, p, [.relayIgnored m.hw m.giaddr]⟩
  else
    match c.offerFor? now p m with
    | none => ⟨.ok none, p, [.exhausted m.hw]⟩
    | some (a, term) =>
      match c.responder.offer m a term c.extras with
      | .error e => ⟨.error e, p, []⟩
      | .ok r => ⟨.ok (some r), p, [.offered a m.hw term]⟩

/-- Answers a REQUEST for this server with the lease that it leads to, or refuses it. -/
def confirm (c : Config) (m : Message) (lease : Option Lease) (p : Pool) : Exchange :=
  match lease with
  | none =>
    ⟨(c.responder.nak m c.extras).map some, p,
      [.refused m.hw (m.requestedAddress?.getD m.ciaddr)]⟩
  | some l =>
    match c.responder.ack m l.address l.term c.extras with
    | .error e => ⟨.error e, p, []⟩
    | .ok r => ⟨.ok (some r), p, [.granted l.address m.hw l.term]⟩

/-- Answers a REQUEST.  One for another server is not answered. -/
def answerRequest (c : Config) (now : Instant) (p : Pool) (m : Message) : Exchange :=
  match m.serverIdentifier?.filter (· ≠ c.server) with
  | some other => ⟨.ok none, p, [.otherServer m.hw other]⟩
  | none =>
    let (lease, p) := c.leaseFor now p m
    c.confirm m lease p

/-- Answers a RELEASE: the lease on the client's address ends, if it has one. -/
def answerRelease (p : Pool) (m : Message) : Exchange :=
  match p.release m.ciaddr m.hw with
  | (true, p) => ⟨.ok none, p, [.released m.hw m.ciaddr]⟩
  | (false, p) => ⟨.ok none, p, [.releaseUnmatched m.hw m.ciaddr]⟩

/-- Answers a message of a client by its type. -/
def answerKind (c : Config) (now : Instant) (p : Pool) (m : Message) : Exchange :=
  match m.kind? with
  | some .discover => c.answerDiscover now p m
  | some .request => c.answerRequest now p m
  | some .release => answerRelease p m
  | some k => ⟨.ok none, p, [.unhandled k m.hw m.hostName?]⟩
  | none => ⟨.ok none, p, [.untyped m.hw]⟩

/-- Answers a message.  One that is itself a reply is not answered. -/
def answer (c : Config) (now : Instant) (p : Pool) (m : Message) : Exchange :=
  match m.op with
  | .reply => ⟨.ok none, p, [.replyIgnored m.hw]⟩
  | .request =>
    let x := c.answerKind now p m
    { x with log := m.detailEntries ++ x.log }

end Config

end Dhcp
