import Dhcp.Exchange

/-!
# Dhcp.Proofs.Reply.Agreement

What of a message an answer depends on: its operation, the hardware type, the transaction, the
flags, the addresses of the client and of the relay, the hardware address, and four of its options,
as far as they have the shape of their codes.  Messages that agree in these are answered alike and
do the same to a pool (`Config.answer_of_agrees`).  Only the log can tell them apart, since the name
of a client is written there.
-/

namespace Dhcp

/-- Whether two messages agree in all that an answer depends on. -/
structure Message.Agrees (m n : Message) : Prop where
  op : m.op = n.op
  htype : m.htype = n.htype
  xid : m.xid = n.xid
  flags : m.flags = n.flags
  ciaddr : m.ciaddr = n.ciaddr
  giaddr : m.giaddr = n.giaddr
  hw : m.hw = n.hw
  requestedAddress? : m.requestedAddress? = n.requestedAddress?
  leaseTime? : m.leaseTime? = n.leaseTime?
  kind? : m.kind? = n.kind?
  serverIdentifier? : m.serverIdentifier? = n.serverIdentifier?

section
variable {m n : Message} (h : m.Agrees n)
include h

/-- Messages that agree are replied to in the same words. -/
theorem Responder.reply_of_agrees (self : Responder) (kind : Kind) (a : Address) (term : Span)
    (extras : List OptionField) :
    self.reply m kind a term extras = self.reply n kind a term extras := by
  simp only [reply, h.kind?, h.htype, h.xid, h.flags, h.giaddr, h.hw]

namespace Config

theorem negotiate_of_agrees (c : Config) : c.negotiate m = c.negotiate n := by
  simp only [negotiate, h.leaseTime?]

theorem leaseFor_of_agrees (c : Config) (now : Instant) (p : Pool) :
    c.leaseFor now p m = c.leaseFor now p n := by
  simp only [leaseFor, bindRequested, Pool.extendHeld, negotiate_of_agrees h c,
    h.serverIdentifier?, h.requestedAddress?, h.ciaddr, h.hw]

theorem answerDiscover_of_agrees (c : Config) (now : Instant) (p : Pool) :
    c.answerDiscover now p m = c.answerDiscover now p n := by
  simp only [answerDiscover, offerFor?, Responder.offer, Responder.reply_of_agrees h,
    negotiate_of_agrees h c, h.requestedAddress?, h.giaddr, h.hw]

theorem answerRequest_of_agrees (c : Config) (now : Instant) (p : Pool) :
    c.answerRequest now p m = c.answerRequest now p n := by
  simp only [answerRequest, confirm, Responder.ack, Responder.nak, Responder.reply_of_agrees h,
    leaseFor_of_agrees h c, h.serverIdentifier?, h.requestedAddress?, h.ciaddr, h.hw]

theorem answerRelease_of_agrees (p : Pool) : answerRelease p m = answerRelease p n := by
  simp only [answerRelease, h.ciaddr, h.hw]

/-- **Messages that agree are answered alike** and do the same to a pool. -/
theorem answer_of_agrees (c : Config) (now : Instant) (p : Pool) :
    (c.answer now p m).reply = (c.answer now p n).reply ∧
      (c.answer now p m).pool = (c.answer now p n).pool := by
  unfold answer
  rw [h.op]
  cases n.op with
  | reply => exact ⟨rfl, rfl⟩
  | request =>
      dsimp only
      unfold answerKind
      rw [h.kind?]
      cases n.kind? with
      | none => exact ⟨rfl, rfl⟩
      | some k =>
          cases k
          case discover => simp only [answerDiscover_of_agrees h, and_self]
          case request => simp only [answerRequest_of_agrees h, and_self]
          case release => simp only [answerRelease_of_agrees h, and_self]
          -- of the other types nothing but the log tells a message
          all_goals exact ⟨rfl, rfl⟩

end Config

end

end Dhcp
