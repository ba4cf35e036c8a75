import Dhcp.Proofs.Lease.Invariant

/-!
# Dhcp.Proofs.Lease.Ownership

Who may change which lease.  `Pool.ownership` goes through what one event can do to a pool that
any history leads to: a lease is extended or ended only for its own client or, once it has
expired, by a sweep; the client, the address and the term of a lease never change; and what
comes from one client touches no lease of another.
-/

namespace Dhcp

namespace Event

theorem client?_of_extends {hw : HardwareAddress} {e : Event} (h : e.Extends hw) :
    e.client? = some hw := by
  cases e with
  | renew | request => exact congrArg some h
  | message m => exact congrArg some h.2.2
  | release | sweep => exact h.elim

theorem client?_of_releases {a : Address} {hw : HardwareAddress} {e : Event}
    (h : e.Releases a hw) : e.client? = some hw := by
  cases e with
  | release => exact congrArg some h.2
  | message m => exact congrArg some h.2.2.2
  | renew | request | sweep => exact h.elim

end Event

namespace Pool

variable {c : Config} {p : Pool} {o : Occurrence} {k : UInt8} {l : Lease}

/-- A lease that an event leaves in its slot differs in its expiry at most. -/
theorem get?_apply_of_isSome (hl : p.get? k = some l) (h : ((p.apply c o).get? k).isSome) :
    ∃ e, (p.apply c o).get? k = some { l with expiry := e } := by
  generalize hs : (p.apply c o).get? k = s at h
  cases change_of_get? hl hs with
  | kept => exact ⟨l.expiry, rfl⟩
  | extended => exact ⟨o.now.after l.term, rfl⟩
  | released | ended => contradiction

/-- While a lease exists, only its expiry changes. -/
theorem get?_run_of_isSome {h : History} (hl : p.get? k = some l)
    (htaken : ∀ g, g <+: h → ((p.run c g).get? k).isSome) :
    ∃ e, (p.run c h).get? k = some { l with expiry := e } := by
  induction h generalizing p l with
  | nil => exact ⟨l.expiry, hl⟩
  | cons o h ih =>
      have hfirst : ((p.apply c o).get? k).isSome :=
        htaken [o] (List.prefix_append [o] h)
      obtain ⟨e, he⟩ := get?_apply_of_isSome hl hfirst
      have hrest : ∀ g, g <+: h → (((p.apply c o).run c g).get? k).isSome := by
        intro g hg
        exact htaken (o :: g) ((List.prefix_cons_inj o).2 hg)
      rw [run_cons]
      -- the expiry that the first event leaves is changed once more by the others
      obtain ⟨e', he'⟩ := ih he hrest
      exact ⟨e', he'⟩

/-- The four fates of a client's lease. -/
theorem get?_apply_cases (hp : p.Sound) (hl : p.get? k = some l) :
    (p.apply c o).get? k = some l ∨
    (o.event.Extends l.hw ∧ ∃ e, (p.apply c o).get? k = some { l with expiry := e }) ∨
    (o.event.Releases l.address l.hw ∧ (p.apply c o).get? k = none) ∨
    (o.event = .sweep ∧ l.expiry < o.now ∧ (p.apply c o).get? k = none) := by
  generalize hs : (p.apply c o).get? k = s
  cases change_of_get? hl hs with
  | kept => exact Or.inl rfl
  | extended _ hevent => exact Or.inr (Or.inl ⟨hevent, o.now.after l.term, rfl⟩)
  | released hclient hevent =>
      have haddress : l.address = _ :=
        (hp.placed hl).2.trans (withHost_of_clientHost? hclient)
      exact Or.inr (Or.inr (Or.inl ⟨haddress ▸ hevent, rfl⟩))
  | ended _ hsweep hexpired => exact Or.inr (Or.inr (Or.inr ⟨hsweep, hexpired, rfl⟩))

/-- A new lease is made for the client that asks for it. -/
theorem requests_of_get?_apply (hnone : p.get? k = none) (hl : (p.apply c o).get? k = some l) :
    o.event.Requests l.hw := by
  cases change_of_get? hnone hl with
  | granted _ _ hevent => exact hevent

/-- What comes from a client changes one slot at most. -/
theorem eq_of_get?_apply_ne {hw : HardwareAddress} {j : UInt8}
    (hclient : o.event.client? = some hw)
    (hj : (p.apply c o).get? j ≠ p.get? j) (hk : (p.apply c o).get? k ≠ p.get? k) : j = k := by
  rw [apply_eq] at hj hk
  cases hd : o.event.demand? c with
  | none =>
      have hsweep : o.event ≠ .sweep := by
        intro h
        rw [h] at hclient
        contradiction
      simp only [hd, if_neg hsweep] at hj
      contradiction
  | some d =>
      -- a slot that is not that of the demand's address is as before
      simp only [hd, Demand.get?_meet] at hj hk
      have hjd : p.clientHost? d.address = some j :=
        Decidable.byContradiction fun h => hj (if_neg h)
      have hkd : p.clientHost? d.address = some k :=
        Decidable.byContradiction fun h => hk (if_neg h)
      exact Option.some.inj (hjd.symm.trans hkd)

/-- What comes from a client leaves the leases of others as they are. -/
theorem get?_apply_of_other {hw : HardwareAddress} (hclient : o.event.client? = some hw)
    (hl : p.get? k = some l) (hne : l.hw ≠ hw) : (p.apply c o).get? k = some l := by
  generalize hs : (p.apply c o).get? k = s
  cases change_of_get? hl hs with
  | kept => rfl
  | extended _ hevent =>
      have hown := (Event.client?_of_extends hevent).symm.trans hclient
      exact absurd (Option.some.inj hown) hne
  | released _ hevent =>
      have hown := (Event.client?_of_releases hevent).symm.trans hclient
      exact absurd (Option.some.inj hown) hne
  | ended _ hsweep =>
      rw [hsweep] at hclient
      contradiction

/-- **Ownership of leases**, for one event after any history. -/
theorem ownership {c : Config} {p : Pool} (hp : p.Reachable c) (o : Occurrence) :
    (∀ k l, p.get? k = some l →
      (p.apply c o).get? k = some l ∨
      (o.event.Extends l.hw ∧ ∃ e, (p.apply c o).get? k = some { l with expiry := e }) ∨
      (o.event.Releases l.address l.hw ∧ (p.apply c o).get? k = none) ∨
      (o.event = .sweep ∧ l.expiry < o.now ∧ (p.apply c o).get? k = none)) ∧
    (∀ k l (h : History), p.get? k = some l →
      (∀ g, g <+: h → ((p.run c g).get? k).isSome) →
      ∃ e, (p.run c h).get? k = some { l with expiry := e }) ∧
    (∀ k l, p.get? k = none → (p.apply c o).get? k = some l → o.event.Requests l.hw) ∧
    (∀ hw, o.event.client? = some hw →
      (∀ j k, (p.apply c o).get? j ≠ p.get? j → (p.apply c o).get? k ≠ p.get? k → j = k) ∧
      (∀ k l, p.get? k = some l → l.hw ≠ hw → (p.apply c o).get? k = some l)) := by
  have hsound := Sound.of_reachable hp
  refine ⟨?_, ?_, ?_, ?_⟩
  · intro k l hl
    exact get?_apply_cases hsound hl
  · intro k l h hl htaken
    exact get?_run_of_isSome hl htaken
  · intro k l hnone hl
    exact requests_of_get?_apply hnone hl
  · intro hw hclient
    exact ⟨fun j k => eq_of_get?_apply_ne hclient, fun k l => get?_apply_of_other hclient⟩

/-- A lease stays as it is when another client asks for its address. -/
theorem ownership_of_asked_for :
    ∃ (p : Pool) (l : Lease), p.Reachable {} ∧ p.get? 7 = some l ∧ l.hw = .ofOctets [1] ∧
      (p.apply {} ⟨.last, .request ⟨192, 168, 4, 7⟩ (.ofOctets [2]) .longest⟩).get? 7 =
        some l := by
  have hnew : new? ⟨192, 168, 4, 1⟩ = some _ := rfl
  have hp := (Reachable.new (c := {}) hnew).run
    [⟨.clamp 0, .request ⟨192, 168, 4, 7⟩ (.ofOctets [1]) .zero⟩]
  obtain ⟨-, -, -, hclient⟩ :=
    ownership hp ⟨.last, .request ⟨192, 168, 4, 7⟩ (.ofOctets [2]) .longest⟩
  exact ⟨_, _, hp, rfl, rfl, (hclient (.ofOctets [2]) rfl).2 7 _ rfl (by decide)⟩

end Pool

end Dhcp
