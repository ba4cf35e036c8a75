import Dhcp.Proofs.Lease.Granted
import Dhcp.Proofs.Lease.Unchanged

/-!
# Dhcp.Proofs.Reply.Decided

How a REQUEST is decided.  It is granted an address (`Config.Grants`), or it is refused and nothing
changes (`Config.Refuses`); and before the last instant it is granted just the address that its
demand is granted (`Config.decides_of_grant`).  A client that names the server, or has no address
yet, is due the address that it asks for if no other client holds it
(`Config.decides_binding`); a client that has an address is due that, or the one that it
asks for, if it holds that one already (`Config.decides_extending`).
-/

namespace Dhcp.Config

/-! ## What can come of a REQUEST -/

/-- Whether a REQUEST is granted an address: an ACK tells it, and the lease of its client on it is
all that changes.  A lease that the client has is extended by the time that it was made for, and a
new one is made for the time that the client is given. -/
structure Grants (c : Config) (now : Instant) (p : Pool) (m : Message) (a : Address) : Prop where
  acked : ∃ r, (c.answer now p m).reply = .ok (some r) ∧ r.kind? = some .ack ∧ r.yiaddr = a
  leased : ∃ l, (c.answer now p m).pool = p.set a.host (some l) ∧ l.address = a ∧ l.hw = m.hw ∧
    (∀ old, p.get? a.host = some old → l.term = old.term) ∧
    (p.get? a.host = none → ∃ seconds, c.Gives m seconds ∧ l.term = .ofWord seconds) ∧
    l.expiry.nanos = min (now.nanos + l.term.nanos) Instant.last.nanos

/-- Whether a REQUEST is refused: a NAK tells no address, and nothing changes. -/
structure Refuses (c : Config) (now : Instant) (p : Pool) (m : Message) : Prop where
  nak : ∃ r, (c.answer now p m).reply = .ok (some r) ∧ r.kind? = some .nak ∧
    r.yiaddr = .unspecified
  kept : (c.answer now p m).pool = p

/-- Whether a REQUEST is decided by what is due to its client: it is answered with an ACK just if
an address is, with the grant of that address then, and it is refused otherwise. -/
structure Decides (c : Config) (now : Instant) (p : Pool) (m : Message) (due : Address → Prop) :
    Prop where
  acked_iff : (∃ r, (c.answer now p m).reply = .ok (some r) ∧ r.kind? = some .ack) ↔ ∃ a, due a
  grants : ∀ a, due a → c.Grants now p m a
  refuses : (¬ ∃ a, due a) → c.Refuses now p m

section
variable {c : Config} {now : Instant} {p : Pool} {m : Message} {due : Address → Prop}

/-- Grants and refusals decide a REQUEST, as no message is answered with two replies. -/
theorem Decides.of_cases (hgrants : ∀ a, due a → c.Grants now p m a)
    (hrefuses : (¬ ∃ a, due a) → c.Refuses now p m) : c.Decides now p m due := by
  refine ⟨⟨?_, ?_⟩, hgrants, hrefuses⟩
  · rintro ⟨r, hreply, hack⟩
    refine Classical.byContradiction fun hnone => ?_
    obtain ⟨r', hreply', hnak, -⟩ := (hrefuses hnone).nak
    cases hreply.symm.trans hreply'
    rw [hack] at hnak
    contradiction
  · rintro ⟨a, ha⟩
    obtain ⟨r, hreply, hack, -⟩ := (hgrants a ha).acked
    exact ⟨r, hreply, hack⟩

/-! ## A REQUEST is decided by its demand -/

/-- The lease that a REQUEST is granted has the time of the lease that is extended by it, or the
time that its client is given. -/
theorem term_of_requestDemand? (hm : m.AsksWholeSeconds) {d : Demand} {l : Lease}
    (hd : c.requestDemand? m = some d) (hl : d.grant now p = some l) :
    (∀ old, p.get? d.address.host = some old → l.term = old.term) ∧
      (p.get? d.address.host = none →
        ∃ seconds, c.Gives m seconds ∧ l.term = .ofWord seconds) := by
  have hnew : (p.get? d.address.host = none ∧ l.term = c.negotiate m) ∨
      ∃ old, p.get? d.address.host = some old ∧ l.term = old.term := by
    obtain ⟨a, -, rfl⟩ | rfl := requestDemand?_cases hd
    · obtain ⟨-, ⟨hfree, rfl⟩ | ⟨old, hold, -, rfl⟩⟩ := Demand.grant_request_eq_some.1 hl
      · exact Or.inl ⟨hfree, rfl⟩
      · exact Or.inr ⟨old, hold, rfl⟩
    · obtain ⟨-, old, hold, -, rfl⟩ := Demand.grant_renew_eq_some.1 hl
      exact Or.inr ⟨old, hold, rfl⟩
  obtain ⟨hfree, hterm⟩ | ⟨old, hold, hterm⟩ := hnew
  · obtain ⟨seconds, hseconds, hgives⟩ := c.exists_negotiate hm
    refine ⟨fun old hold => ?_, fun _ => ⟨seconds, hgives, hterm.trans hseconds⟩⟩
    rw [hfree] at hold
    contradiction
  · refine ⟨fun old' hold' => ?_, fun hfree => ?_⟩
    · cases hold.symm.trans hold'
      exact hterm
    · rw [hold] at hfree
      contradiction

variable (hthis : m.IsRequestTo c.server) (hp : p.Lasting) (hnow : now < .last)
include hthis hp hnow

/-- **What its demand is granted, a REQUEST is granted.** -/
theorem grants_of_granted (hc : c.leaseSeconds ≠ 0) (hm : m.AsksWholeSeconds) (hsound : p.Sound)
    {d : Demand} {l : Lease} (hd : c.requestDemand? m = some d) (hl : d.grant now p = some l) :
    c.Grants now p m d.address := by
  have hlease : (c.leaseFor now p m).1 = some l := by
    rw [leaseFor_eq_grant hp hnow, hd, Option.bind_some, hl]
  have haddress : l.address = d.address := hsound.address_of_grant hl
  obtain ⟨k, -, hget, hown, hexpiry⟩ := Demand.grant_eq_some hl
  constructor
  · -- the lease lasts, and so the ACK of it can be made
    have hterm : l.term.word ≠ 0 := hp.meet now (lasting_of_requestDemand? hc hm hd) k l hget
    obtain ⟨r, hr⟩ : ∃ r, c.responder.ack m l.address l.term c.extras = .ok r :=
      Responder.exists_reply (Or.inr (Or.inr hterm))
    have hreply : (c.answer now p m).reply = .ok (some r) := by
      simp only [reply_of_isRequestTo hthis, hlease, confirm, hr]
    exact ⟨r, hreply, Responder.kind?_of_reply hr, (Responder.yiaddr_of_reply hr).trans haddress⟩
  · obtain ⟨hold, hnew⟩ := term_of_requestDemand? hm hd hl
    have hpool : (c.answer now p m).pool = p.set d.address.host (some l) := by
      rw [answer_pool, demand?_of_isRequestTo hthis, hd, Option.elim_some,
        Demand.meet_of_granted hl]
    refine ⟨l, hpool, haddress, hown.trans (hw_of_requestDemand? hd), hold, hnew, ?_⟩
    rw [hexpiry, Instant.nanos_after]

/-- **A REQUEST whose demand is denied is refused**, and so is one that carries none. -/
theorem refuses_of_denied (h : (c.requestDemand? m).bind (·.grant now p) = none) :
    c.Refuses now p m := by
  have hlease : (c.leaseFor now p m).1 = none := by rw [leaseFor_eq_grant hp hnow, h]
  constructor
  · obtain ⟨r, hr⟩ : ∃ r, c.responder.nak m c.extras = .ok r :=
      Responder.exists_reply (Or.inl rfl)
    have hreply : (c.answer now p m).reply = .ok (some r) := by
      simp only [reply_of_isRequestTo hthis, hlease, confirm, hr, Except.map]
    exact ⟨r, hreply, Responder.kind?_of_reply hr, Responder.yiaddr_of_reply hr⟩
  · have hpool : (c.answer now p m).pool = (c.leaseFor now p m).2 := by
      rw [answer_pool, demand?_of_isRequestTo hthis, leaseFor_pool]
    rw [hpool, leaseFor_of_none hp hnow hlease]

/-- **A REQUEST is decided by what its demand is granted.** -/
theorem decides_of_grant (hc : c.leaseSeconds ≠ 0) (hm : m.AsksWholeSeconds) (hsound : p.Sound)
    (hdue : ∀ a, due a ↔
      ∃ d, c.requestDemand? m = some d ∧ d.address = a ∧ ∃ l, d.grant now p = some l) :
    c.Decides now p m due := by
  apply Decides.of_cases
  · intro a ha
    obtain ⟨d, hd, rfl, l, hl⟩ := (hdue a).1 ha
    exact grants_of_granted hthis hp hnow hc hm hsound hd hl
  · intro hnone
    apply refuses_of_denied hthis hp hnow
    rw [Option.bind_eq_none_iff]
    intro d hd
    rw [Option.eq_none_iff_forall_ne_some]
    intro l hl
    exact hnone ⟨d.address, (hdue _).2 ⟨d, hd, rfl, l, hl⟩⟩

end

/-! ## What is due to a client -/

section
variable {c : Config} {now : Instant} {p : Pool} {m : Message} (hop : m.op = .request)
  (hk : m.kind? = some .request)
include hop hk

/-- A REQUEST for another server is not answered and changes nothing. -/
theorem silent_of_otherServer {other : Address} (hother : m.serverIdentifier? = some other)
    (hne : other ≠ c.server) :
    (c.answer now p m).reply = .ok none ∧ (c.answer now p m).pool = p := by
  have hfilter : m.serverIdentifier?.filter (· ≠ c.server) = some other := by
    rw [hother]
    exact Option.filter_some_pos (decide_eq_true hne)
  simp only [answer, hop, answerKind, hk, answerRequest, hfilter, and_self]

variable (hserver : p.server = c.server) (hp : p.Lasting)
  (hnow : now < .last) (hc : c.leaseSeconds ≠ 0) (hm : m.AsksWholeSeconds) (hsound : p.Sound)
include hserver hp hnow hc hm hsound

/-- A client that names the server, or has no address yet, is due the address that it asks for,
unless another client holds it. -/
theorem decides_binding (hbind : m.serverIdentifier? = some c.server ∨
      m.serverIdentifier? = none ∧ m.ciaddr = .unspecified) :
    c.Decides now p m fun a => m.requestedAddress? = some a ∧ c.server.IsClientOf a ∧
      ∀ l, p.get? a.host = some l → l.hw = m.hw := by
  have hthis : m.IsRequestTo c.server := by
    refine ⟨hop, hk, fun other hother => ?_⟩
    obtain hs | ⟨hs, -⟩ := hbind <;> rw [hs] at hother <;> cases hother
    rfl
  have hdemand : c.requestDemand? m =
      m.requestedAddress?.map fun a => .request a m.hw (c.negotiate m) := by
    refine if_pos ?_
    obtain hs | ⟨-, hfree⟩ := hbind
    · exact Or.inl (by rw [hs]; rfl)
    · exact Or.inr hfree
  refine decides_of_grant hthis hp hnow hc hm hsound fun a => ?_
  rw [hdemand]
  constructor
  · rintro ⟨hasked, hclient, hown⟩
    refine ⟨_, Option.map_eq_some_iff.2 ⟨a, hasked, rfl⟩, rfl, ?_⟩
    exact Demand.exists_grant_request.2 ⟨hserver ▸ hclient, hown⟩
  · rintro ⟨d, hd, rfl, hgrant⟩
    obtain ⟨a, hasked, rfl⟩ := Option.map_eq_some_iff.1 hd
    obtain ⟨hclient, hown⟩ := Demand.exists_grant_request.1 hgrant
    exact ⟨hasked, hserver ▸ hclient, hown⟩

/-- A client that has an address is due the one that it asks for, or else the one that it has, if
it holds that already. -/
theorem decides_extending (hnone : m.serverIdentifier? = none) (hheld : m.ciaddr ≠ .unspecified) :
    c.Decides now p m fun a => m.requestedAddress?.getD m.ciaddr = a ∧ c.server.IsClientOf a ∧
      ∃ l, p.get? a.host = some l ∧ l.hw = m.hw := by
  have hthis : m.IsRequestTo c.server := ⟨hop, hk, fun other hother => by simp [hnone] at hother⟩
  have hdemand : c.requestDemand? m =
      some (.renew (m.requestedAddress?.getD m.ciaddr) m.hw) :=
    if_neg (by simp [hnone, hheld])
  refine decides_of_grant hthis hp hnow hc hm hsound fun a => ?_
  rw [hdemand]
  constructor
  · rintro ⟨rfl, hclient, hown⟩
    exact ⟨_, rfl, rfl, Demand.exists_grant_renew.2 ⟨hserver ▸ hclient, hown⟩⟩
  · rintro ⟨d, hd, rfl, hgrant⟩
    cases hd
    obtain ⟨hclient, hown⟩ := Demand.exists_grant_renew.1 hgrant
    exact ⟨rfl, hserver ▸ hclient, hown⟩

end

end Dhcp.Config
