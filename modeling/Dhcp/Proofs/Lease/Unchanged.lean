import Dhcp.Proofs.Lease.Lasting

/-!
# Dhcp.Proofs.Lease.Unchanged

Which messages leave a pool as it is.  What is denied changes nothing, and neither does what is
offered, so that only an ACK and the end of a lease can be seen in a pool
(`Config.pool_of_offer_or_nak`, `Config.pool_of_silence`).

A client that asks for an extension has its lease extended before the server looks whether time is
left of it.  It is refused all the same if none is, and then the lease has changed; but before the
last instant there is time left of every lease that was made for some.
-/

namespace Dhcp

/-! ## Pools -/

/-- A request or a renewal that is denied changes nothing. -/
theorem Demand.meet_of_denied {now : Instant} {p : Pool} {d : Demand} (h : d.grant now p = none)
    (hd : ∀ a hw, d ≠ .release a hw) : d.meet now p = p := by
  cases hclient : p.clientHost? d.address with
  | none => exact meet_of_not_client hclient
  | some k =>
      rw [grant_eq, hclient, Option.bind_some] at h
      -- the slot is another client's, or it is free and a renewal leaves it so
      have hslot : d.slot now (p.get? k) = p.get? k := by
        generalize p.get? k = s at h ⊢
        cases d with
        | request a hw term => cases s <;> grind [slot, Demand.hw, Lease.new, Lease.renew]
        | renew a hw => cases s <;> grind [slot, Demand.hw, Lease.renew]
        | release a hw => exact absurd rfl (hd a hw)
      rw [meet_of_client hclient, hslot, Pool.set_get?]

namespace Pool

variable {p : Pool} {now : Instant} {a : Address} {hw : HardwareAddress}

/-- A release that clears no slot changes nothing. -/
theorem release_of_kept (h : ∀ k, (p.get? k).isSome → ((p.release a hw).2.get? k).isSome) :
    (p.release a hw).2 = p := by
  unfold release at h ⊢
  cases hclient : p.clientHost? a with
  | none => rfl
  | some k =>
      simp only [hclient] at h ⊢
      cases hget : p.get? k with
      | none => rfl
      | some l =>
          simp only [hget] at h ⊢
          split
          · next hown =>
              have hkept := h k (by rw [hget]; rfl)
              rw [if_pos hown, get?_set, if_pos rfl] at hkept
              contradiction
          · rfl

/-- Before the last instant, time is left of every lease that was just made or extended. -/
theorem Lasting.remaining_of_granted (hp : p.Lasting) (hnow : now < .last) {d : Demand}
    (hd : d.Lasting) {l : Lease} (h : d.grant now p = some l) : l.remaining now ≠ .zero := by
  obtain ⟨k, -, hget, -, hexpiry⟩ := Demand.grant_eq_some h
  have hterm : l.term.word ≠ 0 := hp.meet now hd k l hget
  rw [Lease.remaining_ne_zero, hexpiry]
  refine Instant.lt_after hnow fun hzero => hterm ?_
  rw [hzero]
  rfl

end Pool

/-! ## Messages -/

namespace Config

variable {c : Config} {now : Instant} {p : Pool} {m r : Message}

/-- **Before the last instant, a REQUEST leads to what its demand is granted.** -/
theorem leaseFor_eq_grant (hp : p.Lasting) (hnow : now < .last) :
    (c.leaseFor now p m).1 = (c.requestDemand? m).bind (·.grant now p) := by
  unfold leaseFor requestDemand?
  split
  · unfold bindRequested
    cases m.requestedAddress? <;> rfl
  · let d : Demand := .renew (m.requestedAddress?.getD m.ciaddr) m.hw
    change (d.grant now p).filter _ = d.grant now p
    cases hl : d.grant now p with
    | none => rfl
    | some l =>
        have hleft := hp.remaining_of_granted hnow (d := d) trivial hl
        exact Option.filter_some_pos (decide_eq_true hleft)

theorem leaseFor_of_none (hp : p.Lasting) (hnow : now < .last)
    (h : (c.leaseFor now p m).1 = none) : (c.leaseFor now p m).2 = p := by
  rw [leaseFor_eq_grant hp hnow] at h
  rw [leaseFor_pool]
  cases hd : c.requestDemand? m with
  | none => rfl
  | some d =>
      rw [hd, Option.bind_some] at h
      refine d.meet_of_denied h ?_
      obtain ⟨a, -, rfl⟩ | rfl := requestDemand?_cases hd <;> exact nofun

/-- **An OFFER and a NAK leave the pool as it is.** -/
theorem pool_of_offer_or_nak (hp : p.Lasting) (hnow : now < .last)
    (h : (c.answer now p m).reply = .ok (some r))
    (hkind : r.kind? = some .offer ∨ r.kind? = some .nak) : (c.answer now p m).pool = p := by
  cases answered_of_reply h with
  | offered a term hop hk => simp only [answer_pool, demand?, hop, hk, Option.elim_none]
  | granted d l _ _ _ _ _ hr =>
      rw [Responder.kind?_of_reply hr] at hkind
      simp at hkind
  | refused hop hk hnone =>
      simp only [answer_pool, demand?, hop, hk]
      split
      · rfl
      · rw [← leaseFor_pool]
        exact leaseFor_of_none hp hnow hnone

/-- A REQUEST for this server is answered. -/
theorem reply_confirm_ne_silence (lease : Option Lease) :
    (c.confirm m lease p).reply ≠ .ok none := by
  unfold confirm
  cases lease with
  | none => cases c.responder.nak m c.extras <;> simp [Except.map]
  | some l =>
      dsimp only
      split <;> simp

/-- **A message that is not answered leaves the pool as it is**, unless it is a RELEASE. -/
theorem pool_of_silence (h : (c.answer now p m).reply = .ok none) :
    (c.answer now p m).pool = p ∨
      m.kind? = some .release ∧ (c.answer now p m).pool = (p.release m.ciaddr m.hw).2 := by
  rw [answer_pool]
  cases hd : c.demand? m with
  | none => exact Or.inl rfl
  | some d =>
      obtain ⟨-, ⟨hk, -⟩ | ⟨hk, rfl⟩⟩ := demand?_cases hd
      · rw [reply_of_isRequestTo (isRequestTo_of_demand? hd hk)] at h
        exact absurd h (reply_confirm_ne_silence _)
      · exact Or.inr ⟨hk, rfl⟩

end Config

end Dhcp
