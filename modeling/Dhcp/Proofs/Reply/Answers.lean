import Dhcp.Proofs.Lease.Found
import Dhcp.Proofs.Reply.Contents

/-!
# Dhcp.Proofs.Reply.Answers

Which reply a message is answered with, and for which address.  `Config.Answered` lists the
three replies and what each presupposes (`Config.answered_of_reply`).  An address that is offered
or granted is one that clients can have, and no other client holds it
(`Config.client_of_offer_or_ack`); and an ACK tells of the lease that it grants
(`Config.lease_of_ack`).
-/

namespace Dhcp

/-! ## Replies -/

namespace Config

/-- What a message is answered with, and what that presupposes. -/
inductive Answered (c : Config) (now : Instant) (p : Pool) (m r : Message) : Prop where
  | offered (a : Address) (term : Span) :
    m.op = .request → m.kind? = some .discover → m.giaddr = .unspecified →
      c.offerFor? now p m = some (a, term) → c.responder.offer m a term c.extras = .ok r →
      Answered c now p m r
  | granted (d : Demand) (l : Lease) :
    m.op = .request → m.kind? = some .request → c.demand? m = some d → d.hw = m.hw →
      d.grant now p = some l → c.responder.ack m l.address l.term c.extras = .ok r →
      Answered c now p m r
  | refused :
    m.op = .request → m.kind? = some .request → (c.leaseFor now p m).1 = none →
      c.responder.nak m c.extras = .ok r → Answered c now p m r

/-- A message that is replied to is a DISCOVER or a REQUEST. -/
theorem reply_answer_cases (c : Config) (now : Instant) (p : Pool) (m : Message) :
    (m.op = .request ∧ m.kind? = some .discover ∧
      (c.answer now p m).reply = (c.answerDiscover now p m).reply) ∨
    (m.op = .request ∧ m.kind? = some .request ∧
      (c.answer now p m).reply = (c.answerRequest now p m).reply) ∨
    (c.answer now p m).reply = .ok none := by
  unfold answer
  cases hop : m.op with
  | reply => exact Or.inr (Or.inr rfl)
  | request =>
      dsimp only
      unfold answerKind
      cases hk : m.kind? with
      | none => exact Or.inr (Or.inr rfl)
      | some k =>
          cases k
          case discover => exact Or.inl ⟨rfl, rfl, rfl⟩
          case request => exact Or.inr (Or.inl ⟨rfl, rfl, rfl⟩)
          case release =>
            refine Or.inr (Or.inr ?_)
            dsimp only
            unfold answerRelease
            split <;> rfl
          all_goals exact Or.inr (Or.inr rfl)

theorem offered_of_answerDiscover {c : Config} {now : Instant} {p : Pool} {m r : Message}
    (h : (c.answerDiscover now p m).reply = .ok (some r)) :
    m.giaddr = .unspecified ∧ ∃ a term,
      c.offerFor? now p m = some (a, term) ∧ c.responder.offer m a term c.extras = .ok r := by
  unfold answerDiscover at h
  by_cases hrelay : m.giaddr = .unspecified
  · rw [if_neg (not_not_intro hrelay)] at h
    refine ⟨hrelay, ?_⟩
    cases ho : c.offerFor? now p m with
    | none => simp [ho] at h
    | some offer =>
        obtain ⟨a, term⟩ := offer
        refine ⟨a, term, rfl, ?_⟩
        cases hr : c.responder.offer m a term c.extras with
        | error e => simp [ho, hr] at h
        | ok r' => simpa [ho, hr] using h
  · rw [if_pos hrelay] at h
    simp at h

theorem answered_of_confirm {c : Config} {m r : Message} {lease : Option Lease} {p : Pool}
    (h : (c.confirm m lease p).reply = .ok (some r)) :
    (lease = none ∧ c.responder.nak m c.extras = .ok r) ∨
      ∃ l, lease = some l ∧ c.responder.ack m l.address l.term c.extras = .ok r := by
  unfold confirm at h
  cases lease with
  | none =>
      left
      cases hr : c.responder.nak m c.extras with
      | error e => simp [hr, Except.map] at h
      | ok r' => simpa [hr, Except.map] using h
  | some l =>
      right
      refine ⟨l, rfl, ?_⟩
      cases hr : c.responder.ack m l.address l.term c.extras with
      | error e => simp [hr] at h
      | ok r' => simpa [hr] using h

theorem answered_of_answerRequest {c : Config} {now : Instant} {p : Pool} {m r : Message}
    (hop : m.op = .request) (hk : m.kind? = some .request)
    (h : (c.answerRequest now p m).reply = .ok (some r)) : c.Answered now p m r := by
  unfold answerRequest at h
  cases hother : m.serverIdentifier?.filter (· ≠ c.server) with
  | some other =>
      rw [hother] at h
      cases h
  | none =>
      rw [hother] at h
      obtain ⟨hnone, hr⟩ | ⟨l, hl, hr⟩ := answered_of_confirm h
      · exact .refused hop hk hnone hr
      · obtain ⟨d, hd, hgrant⟩ := grant_of_leaseFor hl
        have hdemand : c.demand? m = some d := by
          unfold demand?
          rw [hop, hk, hother, Option.isSome_none]
          exact hd
        exact .granted d l hop hk hdemand (hw_of_requestDemand? hd) hgrant hr

/-- **Every reply is an OFFER, an ACK or a NAK** that its message and the pool call for. -/
theorem answered_of_reply {c : Config} {now : Instant} {p : Pool} {m r : Message}
    (h : (c.answer now p m).reply = .ok (some r)) : c.Answered now p m r := by
  obtain ⟨hop, hk, hdiscover⟩ | ⟨hop, hk, hrequest⟩ | hsilent := c.reply_answer_cases now p m
  · rw [hdiscover] at h
    obtain ⟨hrelay, a, term, ho, hr⟩ := offered_of_answerDiscover h
    exact .offered a term hop hk hrelay ho hr
  · rw [hrequest] at h
    exact answered_of_answerRequest hop hk h
  · rw [hsilent] at h
    cases h

theorem offerFor?_cases {c : Config} {now : Instant} {p : Pool} {m : Message} {a : Address}
    {term : Span} (h : c.offerFor? now p m = some (a, term)) :
    (∃ q l, m.requestedAddress? = some q ∧ p.leaseOf? now q m.hw = some l ∧
      a = l.address ∧ term = (l.remaining now).roundUp) ∨
    (p.lowestFree? = some a ∧ term = c.negotiate m) := by
  unfold offerFor? at h
  split at h
  · next l hl =>
      obtain ⟨q, hq, hl⟩ := Option.bind_eq_some_iff.1 hl
      cases h
      exact Or.inl ⟨q, l, hq, hl, rfl, rfl⟩
  · obtain ⟨a', ha, heq⟩ := Option.map_eq_some_iff.1 h
    cases heq
    exact Or.inr ⟨ha, rfl⟩

/-- An address that is offered is the client's own already, or free. -/
theorem client_of_offerFor? {c : Config} {now : Instant} {p : Pool} {m : Message} {a : Address}
    {term : Span} (hp : p.Sound) (h : c.offerFor? now p m = some (a, term)) :
    ∃ k, p.clientHost? a = some k ∧ ∀ l, p.get? k = some l → l.hw = m.hw := by
  obtain ⟨q, l, -, hl, rfl, -⟩ | ⟨hfree, -⟩ := offerFor?_cases h
  · obtain ⟨k, hk, hget, hw, -⟩ := Pool.leaseOf?_eq_some.1 hl
    refine ⟨k, hp.clientHost?_address hget (Pool.ne_server_of_clientHost? hk), ?_⟩
    intro l' hl'
    rw [hget] at hl'
    cases hl'
    exact hw
  · obtain ⟨k, hk, hnone⟩ := hp.client_of_lowestFree? hfree
    refine ⟨k, hk, ?_⟩
    intro l hl
    rw [hnone] at hl
    contradiction

/-- The client of a lease that comes of a demand held its slot before, if anyone did. -/
theorem hw_of_grant {now : Instant} {p : Pool} {d : Demand} {l l' : Lease} {k : UInt8}
    (hgrant : d.grant now p = some l) (hk : p.clientHost? d.address = some k)
    (hl : p.get? k = some l') : l'.hw = d.hw := by
  rw [Demand.grant_eq, hk, Option.bind_some, hl] at hgrant
  obtain ⟨hslot, hw⟩ := Option.filter_eq_some_iff.1 hgrant
  have hw : l.hw = d.hw := of_decide_eq_true hw
  rw [← hw, Demand.hw_of_slot hslot]

/-- **No address of another client is offered or granted**, nor one that no client can have. -/
theorem client_of_offer_or_ack {c : Config} {now : Instant} {p : Pool} {m r : Message}
    (hp : p.Sound) (h : (c.answer now p m).reply = .ok (some r))
    (hkind : r.kind? = some .offer ∨ r.kind? = some .ack) :
    ∃ k, p.clientHost? r.yiaddr = some k ∧ ∀ l, p.get? k = some l → l.hw = m.hw := by
  cases answered_of_reply h with
  | offered a term _ _ _ ho hr =>
      rw [Responder.yiaddr_of_reply hr]
      exact client_of_offerFor? hp ho
  | granted d l _ _ _ hw hgrant hr =>
      rw [Responder.yiaddr_of_reply hr]
      obtain ⟨k, hk, -⟩ := Demand.grant_eq_some hgrant
      refine ⟨k, hp.address_of_grant hgrant ▸ hk, ?_⟩
      intro l' hl'
      rw [hw_of_grant hgrant hk hl', hw]
  | refused _ _ _ hr =>
      rw [Responder.kind?_of_reply hr] at hkind
      simp at hkind

/-- **An ACK tells of a lease that stands in the pool**: that of its client on its address, made or
extended at that time, whose seconds it tells. -/
theorem lease_of_ack {c : Config} {now : Instant} {p : Pool} {m r : Message} (hp : p.Sound)
    (h : (c.answer now p m).reply = .ok (some r)) (hack : r.kind? = some .ack) :
    ∃ k l, (c.answer now p m).pool.clientHost? r.yiaddr = some k ∧
      (c.answer now p m).pool.get? k = some l ∧ l.address = r.yiaddr ∧ l.hw = m.hw ∧
      l.expiry = now.after l.term ∧ r.leaseTime? = some (.ofWord l.term.word) := by
  cases answered_of_reply h with
  | offered _ _ _ _ _ _ hr =>
      rw [Responder.kind?_of_reply hr] at hack
      contradiction
  | refused _ _ _ hr =>
      rw [Responder.kind?_of_reply hr] at hack
      contradiction
  | granted d l _ hkind hd hw hgrant hr =>
      obtain ⟨k, hk, hget, hown, hexpiry⟩ := Demand.grant_eq_some hgrant
      have hpool : (c.answer now p m).pool = d.meet now p := by
        rw [answer_pool, hd]
        rfl
      have haddress : r.yiaddr = l.address := Responder.yiaddr_of_reply hr
      have htime := Responder.leaseTime?_of_reply hr nofun (hkind ▸ nofun)
      rw [hpool]
      refine ⟨k, l, ?_, hget, haddress.symm, hown.trans hw, hexpiry, htime⟩
      rw [Pool.clientHost?_of_server_eq (Demand.server_meet now p d), haddress,
        hp.address_of_grant hgrant, hk]

end Config

end Dhcp
