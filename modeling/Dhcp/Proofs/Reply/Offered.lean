import Dhcp.Proofs.Lease.Found
import Dhcp.Proofs.Lease.Lasting

/-!
# Dhcp.Proofs.Reply.Offered

What a DISCOVER is answered with.  A client whose lease on the address that it asks for has not
expired is offered that address for what remains of the lease, and any other client the lowest free
address for the time that it is given (`Config.Offers`).  There is something to offer just if there
is such an address (`Config.offerFor?_eq_some`, `Config.offerFor?_eq_none`), and then the client
hears of it unless a relay has passed its message on (`Config.answerDiscover_eq_silence`,
`Config.offer_of_discover`).
-/

namespace Dhcp

/-! ## The lease that a client asks for -/

/-- Whether a lease is the one that the client of a message has on the address that it asks for,
and has not expired. -/
structure Pool.IsAskedLease (p : Pool) (now : Instant) (m : Message) (l : Lease) : Prop where
  asked : m.requestedAddress? = some l.address
  client : p.server.IsClientOf l.address
  held : p.get? l.address.host = some l
  own : l.hw = m.hw
  unexpired : now ≤ l.expiry

namespace Pool

variable {p : Pool} {now : Instant} {m : Message}

/-- That lease is found. -/
theorem Sound.bind_leaseOf?_eq_some (hp : p.Sound) {l : Lease} :
    (m.requestedAddress?.bind fun a => p.leaseOf? now a m.hw) = some l ↔
      p.IsAskedLease now m l := by
  simp only [Option.bind_eq_some_iff, leaseOf?_eq_some]
  constructor
  · rintro ⟨a, hasked, k, hclient, hget, hown, hexpiry⟩
    have haddress : l.address = a := by
      rw [(hp.placed hget).2, withHost_of_clientHost? hclient]
    have hhost := host_of_clientHost? hclient
    subst haddress
    exact ⟨hasked, isClientOf_of_clientHost? hclient, hhost ▸ hget, hown, hexpiry⟩
  · rintro ⟨hasked, hclient, hheld, hown, hexpiry⟩
    exact ⟨_, hasked, _, clientHost?_of_isClientOf hclient, hheld, hown, hexpiry⟩

theorem Sound.bind_leaseOf?_eq_none (hp : p.Sound) :
    (m.requestedAddress?.bind fun a => p.leaseOf? now a m.hw) = none ↔
      ∀ l, ¬ p.IsAskedLease now m l := by
  rw [Option.eq_none_iff_forall_ne_some]
  exact forall_congr' fun l => not_congr hp.bind_leaseOf?_eq_some

/-- No two leases are the one that a client asks for. -/
theorem IsAskedLease.unique {l l' : Lease} (h : p.IsAskedLease now m l)
    (h' : p.IsAskedLease now m l') : l = l' := by
  have haddress : l.address = l'.address := Option.some.inj (h.asked.symm.trans h'.asked)
  have hheld := h.held
  rw [haddress, h'.held] at hheld
  exact (Option.some.inj hheld).symm

end Pool

namespace Config

variable {c : Config} {now : Instant} {p : Pool} {m : Message} {a : Address} {term : Span}

/-! ## What is offered -/

/-- What a client is offered: its own lease for the seconds that remain of it, rounded up and one
at least, as far as a message can tell them; or the lowest free address for the seconds that it is
given. -/
inductive Offers (c : Config) (now : Instant) (p : Pool) (m : Message) (a : Address)
    (seconds : UInt32) : Prop where
  | held (l : Lease) : p.IsAskedLease now m l → a = l.address →
      seconds.toNat =
        min (max 1 (((l.remaining now).nanos + 999999999) / 1000000000)) 0xffffffff →
      Offers c now p m a seconds
  | lowest (k : UInt8) : (∀ l, ¬ p.IsAskedLease now m l) → p.IsLowestFree k →
      a = p.server.withHost k → c.Gives m seconds → Offers c now p m a seconds

/-- A client is offered its own lease, and the lowest free address if it asks for none. -/
theorem offerFor?_eq_some (hp : p.Sound) :
    c.offerFor? now p m = some (a, term) ↔
      (∃ l, p.IsAskedLease now m l ∧ a = l.address ∧ term = (l.remaining now).roundUp) ∨
      ((∀ l, ¬ p.IsAskedLease now m l) ∧
        (∃ k, p.IsLowestFree k ∧ a = p.server.withHost k) ∧ term = c.negotiate m) := by
  unfold offerFor?
  cases hfound : m.requestedAddress?.bind fun a => p.leaseOf? now a m.hw with
  | some l =>
      have hl := hp.bind_leaseOf?_eq_some.1 hfound
      dsimp only
      rw [Option.some.injEq, Prod.mk.injEq]
      constructor
      · rintro ⟨rfl, rfl⟩
        exact Or.inl ⟨l, hl, rfl, rfl⟩
      · rintro (⟨l', hl', rfl, rfl⟩ | ⟨hnone, -⟩)
        · rw [hl.unique hl']
          exact ⟨rfl, rfl⟩
        · exact absurd hl (hnone l)
  | none =>
      have hnone := hp.bind_leaseOf?_eq_none.1 hfound
      dsimp only
      rw [Option.map_eq_some_iff]
      constructor
      · rintro ⟨a', ha, heq⟩
        cases heq
        exact Or.inr ⟨hnone, Pool.lowestFree?_eq_some.1 ha, rfl⟩
      · rintro (⟨l, hl, -⟩ | ⟨-, hlowest, rfl⟩)
        · exact absurd hl (hnone l)
        · exact ⟨a, Pool.lowestFree?_eq_some.2 hlowest, rfl⟩

/-- Nothing is offered just if all hosts are taken and the client asks for no lease of its own. -/
theorem offerFor?_eq_none (hp : p.Sound) :
    c.offerFor? now p m = none ↔
      (∀ k, k ≠ 0 → k ≠ 255 → (p.get? k).isSome) ∧ ∀ l, ¬ p.IsAskedLease now m l := by
  rw [← Pool.lowestFree?_eq_none, ← hp.bind_leaseOf?_eq_none]
  unfold offerFor?
  cases m.requestedAddress?.bind fun a => p.leaseOf? now a m.hw with
  | some l => simp
  | none => simp

/-- What is offered is told as whole seconds. -/
theorem offers_of_offerFor? (hp : p.Sound) (hm : m.AsksWholeSeconds)
    (h : c.offerFor? now p m = some (a, term)) : c.Offers now p m a term.word := by
  obtain ⟨l, hl, ha, rfl⟩ | ⟨hnone, ⟨k, hk, ha⟩, rfl⟩ := (offerFor?_eq_some hp).1 h
  · exact .held l hl ha (l.toNat_word_roundUp_remaining now)
  · obtain ⟨seconds, hseconds, hgives⟩ := c.exists_negotiate hm
    rw [hseconds, Span.word_ofWord]
    exact .lowest k hnone hk ha hgives

/-! ## The answer -/

/-- A DISCOVER is not answered just if a relay has passed it on or there is nothing to offer. -/
theorem answerDiscover_eq_silence :
    (c.answerDiscover now p m).reply = .ok none ↔
      m.giaddr ≠ .unspecified ∨ c.offerFor? now p m = none := by
  unfold answerDiscover
  by_cases hrelay : m.giaddr = .unspecified
  · rw [if_neg (not_not_intro hrelay)]
    cases ho : c.offerFor? now p m with
    | none => simp
    | some offer =>
        obtain ⟨a, term⟩ := offer
        dsimp only
        cases c.responder.offer m a term c.extras <;> simp [hrelay]
  · rw [if_pos hrelay]
    simp [hrelay]

variable (hop : m.op = .request) (hk : m.kind? = some .discover)
include hop hk

theorem answer_of_discover :
    (c.answer now p m).reply = (c.answerDiscover now p m).reply ∧ (c.answer now p m).pool = p := by
  simp only [answer, hop, answerKind, hk, answerDiscover_pool, and_self]

variable (hp : p.Sound) (hc : c.leaseSeconds ≠ 0) (hm : m.AsksWholeSeconds)
include hp hc hm

/-- **A DISCOVER that is answered is answered with an OFFER** of what its client is offered.  No
other client holds that address, nor is it the server's or outside of the subnet. -/
theorem offer_of_discover (h : (c.answer now p m).reply ≠ .ok none) :
    ∃ r seconds, (c.answer now p m).reply = .ok (some r) ∧ r.kind? = some .offer ∧
      r.leaseTime? = some (.ofWord seconds) ∧ c.Offers now p m r.yiaddr seconds ∧
      p.server.IsClientOf r.yiaddr ∧
      ∀ l, p.get? r.yiaddr.host = some l → l.hw = m.hw := by
  rw [(answer_of_discover hop hk).1] at h ⊢
  obtain ⟨reply, hreply⟩ := exists_reply_of_answerDiscover hc now p hm
  cases reply with
  | none => exact absurd hreply h
  | some r =>
      obtain ⟨-, a, term, ho, hr⟩ := offered_of_answerDiscover hreply
      have hyiaddr : r.yiaddr = a := Responder.yiaddr_of_reply hr
      have htime := Responder.leaseTime?_of_reply hr nofun (hk ▸ nofun)
      obtain ⟨k, hclient, hown⟩ := client_of_offerFor? hp ho
      have hhost := Pool.host_of_clientHost? hclient
      refine ⟨r, term.word, hreply, Responder.kind?_of_reply hr, htime, ?_⟩
      rw [hyiaddr, hhost]
      exact ⟨offers_of_offerFor? hp hm ho, Pool.isClientOf_of_clientHost? hclient, hown⟩

end Config

end Dhcp
