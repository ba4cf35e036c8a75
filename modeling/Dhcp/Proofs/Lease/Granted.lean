import Dhcp.Proofs.Lease.Demand

/-!
# Dhcp.Proofs.Lease.Granted

What comes of a demand, told by what stands under its address.  A request is granted just if nobody
holds the address or the client itself does (`Demand.grant_request_eq_some`), and a renewal just if
the client does (`Demand.grant_renew_eq_some`), be its lease expired or not.  What is granted
stands in the slot afterwards, and all else is as it was (`Demand.meet_of_granted`).
-/

namespace Dhcp.Demand

variable {now : Instant} {p : Pool} {d : Demand} {a : Address} {hw : HardwareAddress} {term : Span}
  {l : Lease}

theorem grant_eq_some_iff :
    d.grant now p = some l ↔
      p.server.IsClientOf d.address ∧ d.slot now (p.get? d.address.host) = some l ∧
        l.hw = d.hw := by
  rw [grant_eq]
  by_cases hclient : p.server.IsClientOf d.address
  · rw [Pool.clientHost?_of_isClientOf hclient, Option.bind_some, Option.filter_eq_some_iff,
      decide_eq_true_eq]
    exact ⟨fun h => ⟨hclient, h⟩, fun h => h.2⟩
  · rw [Pool.clientHost?_eq_none hclient, Option.bind_none]
    exact ⟨nofun, fun h => absurd h.1 hclient⟩

/-- **A request makes a lease where there is none**, and extends the client's own. -/
theorem grant_request_eq_some :
    (request a hw term).grant now p = some l ↔
      p.server.IsClientOf a ∧
        ((p.get? a.host = none ∧ l = .new now a hw term) ∨
          ∃ old, p.get? a.host = some old ∧ old.hw = hw ∧ l = old.renew now) := by
  rw [grant_eq_some_iff]
  refine and_congr_right fun _ => ?_
  change slot now _ (p.get? a.host) = some l ∧ l.hw = hw ↔ _
  cases p.get? a.host with
  | none => grind [slot, Lease.new]
  | some old => grind [slot, Lease.renew]

/-- **A renewal extends the client's own lease** and makes none. -/
theorem grant_renew_eq_some :
    (renew a hw).grant now p = some l ↔
      p.server.IsClientOf a ∧
        ∃ old, p.get? a.host = some old ∧ old.hw = hw ∧ l = old.renew now := by
  rw [grant_eq_some_iff]
  refine and_congr_right fun _ => ?_
  change slot now _ (p.get? a.host) = some l ∧ l.hw = hw ↔ _
  cases p.get? a.host with
  | none => grind [slot]
  | some old => grind [slot, Lease.renew]

/-- Something comes of a request just if no other client holds the address. -/
theorem exists_grant_request :
    (∃ l, (request a hw term).grant now p = some l) ↔
      p.server.IsClientOf a ∧ ∀ l, p.get? a.host = some l → l.hw = hw := by
  simp only [grant_request_eq_some]
  constructor
  · rintro ⟨l, hclient, ⟨hfree, -⟩ | ⟨old, hold, hown, -⟩⟩
    · refine ⟨hclient, fun l hl => ?_⟩
      rw [hfree] at hl
      contradiction
    · refine ⟨hclient, fun l hl => ?_⟩
      cases hold.symm.trans hl
      exact hown
  · rintro ⟨hclient, hown⟩
    cases hold : p.get? a.host with
    | none => exact ⟨_, hclient, Or.inl ⟨rfl, rfl⟩⟩
    | some old => exact ⟨_, hclient, Or.inr ⟨old, rfl, hown old hold, rfl⟩⟩

/-- Something comes of a renewal just if the client holds the address. -/
theorem exists_grant_renew :
    (∃ l, (renew a hw).grant now p = some l) ↔
      p.server.IsClientOf a ∧ ∃ l, p.get? a.host = some l ∧ l.hw = hw := by
  simp only [grant_renew_eq_some]
  constructor
  · rintro ⟨l, hclient, old, hold, hown, -⟩
    exact ⟨hclient, old, hold, hown⟩
  · rintro ⟨hclient, old, hold, hown⟩
    exact ⟨_, hclient, old, hold, hown, rfl⟩

/-- **What is granted stands under its address**, and all else is as it was. -/
theorem meet_of_granted (h : d.grant now p = some l) :
    d.meet now p = p.set d.address.host (some l) := by
  obtain ⟨hclient, hslot, -⟩ := grant_eq_some_iff.1 h
  rw [meet_of_client (Pool.clientHost?_of_isClientOf hclient), hslot]

end Dhcp.Demand
