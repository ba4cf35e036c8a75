import Dhcp.Proofs.Lease.Granted
import Dhcp.Proofs.Lease.Unchanged

/-!
# Dhcp.Proofs.Lease.Open

Addresses that a client can still get.  An address is *open* to a client if clients can have it and
no other client holds it.  What is offered to a client is open to it
(`Config.client_of_offer_or_ack`), and a REQUEST that takes an offer is granted if the address is
open to its client and refused if it is not (`Config.ack_of_openTo`, `Config.nak_of_held`).

An open address stays open until it is leased to another client, and every lease that a message
makes is told by an ACK (`Config.ack_of_new_lease`).
-/

namespace Dhcp

/-- Whether a message is the REQUEST by which a client takes what a server offered it: it names the
server and the address. -/
structure Message.Takes (m : Message) (server a : Address) : Prop where
  op : m.op = .request
  kind : m.kind? = some .request
  server : m.serverIdentifier? = some server
  address : m.requestedAddress? = some a

/-- Whether clients can have an address and no client holds it but the one. -/
def Pool.OpenTo (p : Pool) (a : Address) (hw : HardwareAddress) : Prop :=
  ∃ k, p.clientHost? a = some k ∧ ∀ l, p.get? k = some l → l.hw = hw

namespace Pool

variable {p : Pool} {now : Instant} {a : Address} {hw : HardwareAddress} {term : Span}

/-- An address that is open to a client is leased to it when it asks. -/
theorem OpenTo.exists_grant (h : p.OpenTo a hw) (now : Instant) (term : Span) :
    ∃ l, (Demand.request a hw term).grant now p = some l := by
  obtain ⟨k, hk, hown⟩ := h
  rw [← host_of_clientHost? hk] at hown
  exact Demand.exists_grant_request.2 ⟨isClientOf_of_clientHost? hk, hown⟩

/-- An address that another client holds is not. -/
theorem grant_of_held {k : UInt8} {l : Lease} (hk : p.clientHost? a = some k)
    (hl : p.get? k = some l) (hne : l.hw ≠ hw) :
    (Demand.request a hw term).grant now p = none := by
  rw [Option.eq_none_iff_forall_ne_some]
  intro l' hl'
  obtain ⟨-, hown⟩ := Demand.exists_grant_request.1 ⟨l', hl'⟩
  exact hne (hown l (host_of_clientHost? hk ▸ hl))

theorem OpenTo.sweep (h : p.OpenTo a hw) (now : Instant) : (p.sweep now).OpenTo a hw := by
  obtain ⟨k, hk, hown⟩ := h
  exact ⟨k, hk, fun l hl => hown l (get?_of_get?_sweep hl)⟩

end Pool

namespace Config

variable {c : Config} {now : Instant} {p : Pool} {m : Message} {a : Address}
  {hw : HardwareAddress} {term : Span}

/-- What takes an offer asks for its address. -/
theorem demand?_of_takes (h : m.Takes c.server a) :
    c.demand? m = some (.request a m.hw (c.negotiate m)) := by
  have hthis : (some c.server).filter (· ≠ c.server) = none := Option.filter_some_neg (by simp)
  simp only [demand?, h.op, h.kind, requestDemand?, h.server, h.address, hthis]
  rfl

/-- A message that fills a free slot is a REQUEST that is granted. -/
theorem request_of_new_lease {k : UInt8} {l : Lease} (hnone : p.get? k = none)
    (hl : (c.answer now p m).pool.get? k = some l) :
    ∃ a hw term, c.demand? m = some (.request a hw term) ∧
      (Demand.request a hw term).grant now p = some l := by
  rw [answer_pool] at hl
  cases hd : c.demand? m with
  | none =>
      rw [hd, Option.elim_none, hnone] at hl
      contradiction
  | some d =>
      rw [hd, Option.elim_some, Demand.get?_meet, hnone] at hl
      split at hl
      · next hk =>
          cases d with
          | request a hw term =>
              refine ⟨a, hw, term, rfl, ?_⟩
              rw [Demand.grant_eq, hk, Option.bind_some, hnone]
              exact Option.filter_eq_some_iff.2 ⟨hl, by cases hl; exact decide_eq_true rfl⟩
          | renew | release => contradiction
      · contradiction

variable (hc : c.leaseSeconds ≠ 0) (hp : p.Lasting) (hm : m.AsksWholeSeconds)
include hc hp hm

/-- **A REQUEST that asks for a lease is answered**, with the ACK of the lease that comes of it or
with a NAK if there is none. -/
theorem answered_request (hd : c.demand? m = some (.request a hw term)) (now : Instant) :
    ∃ r, (c.answer now p m).reply = .ok (some r) ∧
      (((Demand.request a hw term).grant now p = none ∧ c.responder.nak m c.extras = .ok r) ∨
        ∃ l, (Demand.request a hw term).grant now p = some l ∧
          c.responder.ack m l.address l.term c.extras = .ok r) := by
  obtain ⟨-, ⟨hk, hrequest⟩ | ⟨-, hrelease⟩⟩ := demand?_cases hd
  · obtain ⟨reply, hreply⟩ := exists_reply_of_answer hc now hp hm
    have hconfirm := reply_of_isRequestTo (isRequestTo_of_demand? hd hk) now p
    rw [hreply] at hconfirm
    cases reply with
    | none => exact absurd hconfirm.symm (reply_confirm_ne_silence _)
    | some r =>
        have hcases := answered_of_confirm hconfirm.symm
        rw [leaseFor_of_request hrequest] at hcases
        exact ⟨r, hreply, hcases⟩
  · contradiction

/-- A client that takes an address that is open to it is granted it. -/
theorem ack_of_openTo (hsound : p.Sound) (h : m.Takes c.server a) (hopen : p.OpenTo a m.hw)
    (now : Instant) :
    ∃ r, (c.answer now p m).reply = .ok (some r) ∧ r.kind? = some .ack ∧ r.yiaddr = a := by
  obtain ⟨r, hreply, ⟨hnone, -⟩ | ⟨l, hl, hr⟩⟩ :=
    answered_request hc hp hm (demand?_of_takes h) now
  · obtain ⟨l, hl⟩ := hopen.exists_grant now (c.negotiate m)
    rw [hnone] at hl
    contradiction
  · refine ⟨r, hreply, Responder.kind?_of_reply hr, ?_⟩
    rw [Responder.yiaddr_of_reply hr, hsound.address_of_grant hl]
    rfl

/-- A client that takes an address that another one holds is refused. -/
theorem nak_of_held {k : UInt8} {l : Lease} (h : m.Takes c.server a)
    (hk : p.clientHost? a = some k) (hl : p.get? k = some l) (hne : l.hw ≠ m.hw)
    (now : Instant) : ∃ r, (c.answer now p m).reply = .ok (some r) ∧ r.kind? = some .nak := by
  obtain ⟨r, hreply, ⟨-, hr⟩ | ⟨l', hl', -⟩⟩ :=
    answered_request hc hp hm (demand?_of_takes h) now
  · exact ⟨r, hreply, Responder.kind?_of_reply hr⟩
  · rw [Pool.grant_of_held hk hl hne] at hl'
    contradiction

/-- A lease that a message makes is told by an ACK to its client. -/
theorem ack_of_new_lease {k : UInt8} {l : Lease} (hnone : p.get? k = none)
    (hl : (c.answer now p m).pool.get? k = some l) :
    ∃ r, (c.answer now p m).reply = .ok (some r) ∧ r.kind? = some .ack ∧
      r.yiaddr = l.address ∧ r.hw = l.hw := by
  obtain ⟨a, hw, term, hd, hgrant⟩ := request_of_new_lease hnone hl
  obtain ⟨r, hreply, ⟨hdenied, -⟩ | ⟨l', hl', hr⟩⟩ := answered_request hc hp hm hd now
  · rw [hgrant] at hdenied
    contradiction
  · cases hgrant.symm.trans hl'
    obtain ⟨-, -, -, hclient, -⟩ := Demand.grant_eq_some hgrant
    have hto : r.hw = m.hw := Responder.hw_of_reply hr
    exact ⟨r, hreply, Responder.kind?_of_reply hr, Responder.yiaddr_of_reply hr,
      hto.trans ((hw_of_demand? hd).symm.trans hclient.symm)⟩

/-- **An address stays open to a client** when a message is answered, unless it is granted to
another one. -/
theorem openTo_answer (hsound : p.Sound) (hopen : p.OpenTo a hw)
    (hother : ∀ r, (c.answer now p m).reply = .ok (some r) → r.kind? = some .ack →
      r.yiaddr = a → r.hw = hw) : (c.answer now p m).pool.OpenTo a hw := by
  obtain ⟨k, hk, hown⟩ := hopen
  have hafter := hsound.apply c ⟨now, .message m⟩
  have hserver := Pool.server_apply c p ⟨now, .message m⟩
  refine ⟨k, (Pool.clientHost?_of_server_eq hserver a).trans hk, ?_⟩
  intro l hl
  cases hold : p.get? k with
  | none =>
      have haddress : l.address = a := by
        rw [(hafter.placed hl).2, hserver, Pool.withHost_of_clientHost? hk]
      obtain ⟨r, hreply, hack, hyiaddr, hclient⟩ := ack_of_new_lease hc hp hm hold hl
      rw [← hclient]
      exact hother r hreply hack (hyiaddr.trans haddress)
  | some old =>
      -- a lease that was there is the same client's, extended or not
      cases Pool.change_of_get? (o := ⟨now, .message m⟩) hold hl with
      | kept => exact hown l hold
      | extended => exact hown old hold

end Config

end Dhcp
