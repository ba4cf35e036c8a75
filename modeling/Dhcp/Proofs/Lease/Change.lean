import Dhcp.History
import Dhcp.Proofs.Lease.Demand

/-!
# Dhcp.Proofs.Lease.Change

What events can do to the slots of a pool, said once.  An event meets the demand that it makes,
or sweeps, or changes nothing (`Pool.apply_eq`).  `Pool.Change` lists the five ways in which a
slot comes through it, and what is proved of histories is proved by cases on them
(`Pool.change_apply`), without a look at the operations.
-/

namespace Dhcp

/-! ## Events

Who may do what to a lease.  A reply is never answered, so that only a message with the
operation of a request counts. -/

namespace Event

/-- Whether a lease may be made for a client: by a request or a REQUEST message. -/
def Requests (hw : HardwareAddress) : Event → Prop
  | request _ hw' _ => hw' = hw
  | message m => m.op = .request ∧ m.kind? = some .request ∧ m.hw = hw
  | renew .. | release .. | sweep => False

/-- Whether a lease of a client may be extended: by a renewal, or as one is made. -/
def Extends (hw : HardwareAddress) : Event → Prop
  | renew _ hw' => hw' = hw
  | e => e.Requests hw

/-- Whether a client gives an address back: by a release or a RELEASE message. -/
def Releases (a : Address) (hw : HardwareAddress) : Event → Prop
  | release a' hw' => a' = a ∧ hw' = hw
  | message m => m.op = .request ∧ m.kind? = some .release ∧ m.ciaddr = a ∧ m.hw = hw
  | request .. | renew .. | sweep => False

instance (hw : HardwareAddress) (e : Event) : Decidable (e.Requests hw) := by
  cases e <;> unfold Requests <;> infer_instance

instance (hw : HardwareAddress) (e : Event) : Decidable (e.Extends hw) := by
  cases e <;> unfold Extends <;> infer_instance

instance (a : Address) (hw : HardwareAddress) (e : Event) : Decidable (e.Releases a hw) := by
  cases e <;> unfold Releases <;> infer_instance

theorem Requests.extends {hw : HardwareAddress} {e : Event} (h : e.Requests hw) :
    e.Extends hw := by
  cases e with
  | request | message => exact h
  | renew | release | sweep => exact h.elim

/-- The client that an event comes from. -/
def client? : Event → Option HardwareAddress
  | message m => some m.hw
  | request _ hw _ | renew _ hw | release _ hw => some hw
  | sweep => none

/-- The demand that an event makes. -/
def demand? (c : Config) : Event → Option Demand
  | message m => c.demand? m
  | request a hw term => some (.request a hw term)
  | renew a hw => some (.renew a hw)
  | release a hw => some (.release a hw)
  | sweep => none

/-- A demand is made by an event of its kind, for the client that the event comes from. -/
theorem demand?_cases {c : Config} {e : Event} {d : Demand} (h : e.demand? c = some d) :
    e.client? = some d.hw ∧
      match d with
      | .request _ hw _ => e.Requests hw
      | .renew _ hw => e.Extends hw
      | .release a hw => e.Releases a hw := by
  cases e with
  | request a hw term | renew a hw | release a hw =>
      cases h
      simp [client?, Demand.hw, Requests, Extends, Releases]
  | sweep => contradiction
  | message m =>
      obtain ⟨hop, ⟨hk, hd⟩ | ⟨hk, rfl⟩⟩ := Config.demand?_cases h
      · obtain ⟨a, -, rfl⟩ | rfl := Config.requestDemand?_cases hd
        · exact ⟨rfl, hop, hk, rfl⟩
        · exact ⟨rfl, hop, hk, rfl⟩
      · exact ⟨rfl, hop, hk, rfl, rfl⟩

end Event

/-! ## What becomes of a slot -/

namespace Pool

theorem get?_sweep (p : Pool) (now : Instant) (k : UInt8) :
    (p.sweep now).get? k =
      if k = p.server.host then p.get? k else (p.get? k).filter fun l => ¬ l.expired now := by
  simp only [get?, sweep, Vector.getElem_mapIdx, UInt8.toNat_inj]

/-- A sweep makes no lease. -/
theorem get?_of_get?_sweep {p : Pool} {now : Instant} {k : UInt8} {l : Lease}
    (h : (p.sweep now).get? k = some l) : p.get? k = some l := by
  rw [get?_sweep] at h
  split at h
  · exact h
  · exact (Option.filter_eq_some_iff.1 h).1

/-- An event meets its demand, sweeps, or leaves the pool as it is. -/
theorem apply_eq (c : Config) (p : Pool) (o : Occurrence) :
    p.apply c o =
      match o.event.demand? c with
      | some d => d.meet o.now p
      | none => if o.event = .sweep then p.sweep o.now else p := by
  obtain ⟨now, e⟩ := o
  cases e with
  | request | renew | release | sweep => rfl
  | message m =>
      simp only [apply, Config.answer_pool, Event.demand?]
      cases c.demand? m <;> rfl

@[simp] theorem server_apply (c : Config) (p : Pool) (o : Occurrence) :
    (p.apply c o).server = p.server := by
  rw [apply_eq]
  split
  · exact Demand.server_meet ..
  · split <;> rfl

@[simp] theorem server_run (c : Config) (p : Pool) (h : History) :
    (p.run c h).server = p.server := by
  induction h generalizing p with
  | nil => rfl
  | cons o h ih => rw [run_cons, ih, server_apply]

/-- What an event can do to a slot: from what it holds before to what it holds afterwards. -/
inductive Change (p : Pool) (o : Occurrence) (k : UInt8) : Option Lease → Option Lease → Prop where
  | kept (s : Option Lease) : Change p o k s s
  | granted {a : Address} {hw : HardwareAddress} (term : Span) :
    p.clientHost? a = some k → o.event.Requests hw →
      Change p o k none (some (.new o.now a hw term))
  | extended {l : Lease} : k ≠ p.server.host → o.event.Extends l.hw →
      Change p o k (some l) (some (l.renew o.now))
  | released {a : Address} {l : Lease} : p.clientHost? a = some k → o.event.Releases a l.hw →
      Change p o k (some l) none
  | ended {l : Lease} : k ≠ p.server.host → o.event = .sweep → l.expiry < o.now →
      Change p o k (some l) none

/-- A demand changes the slot of its address in a way that its event allows. -/
theorem change_slot {p : Pool} {o : Occurrence} {k : UInt8} {c : Config} {d : Demand}
    (hd : o.event.demand? c = some d) (hk : p.clientHost? d.address = some k)
    (s : Option Lease) : Change p o k s (d.slot o.now s) := by
  obtain ⟨-, hevent⟩ := Event.demand?_cases hd
  have hne := ne_server_of_clientHost? hk
  cases d with
  | request a hw term =>
      cases s with
      | none => exact .granted term hk hevent
      | some l =>
          by_cases hl : l.hw = hw
          · rw [Demand.slot, if_pos hl]
            exact .extended hne (hl ▸ hevent.extends)
          · rw [Demand.slot, if_neg hl]
            exact .kept _
  | renew a hw =>
      cases s with
      | none => exact .kept _
      | some l =>
          by_cases hl : l.hw = hw
          · rw [Demand.slot, if_pos hl]
            exact .extended hne (hl ▸ hevent)
          · rw [Demand.slot, if_neg hl]
            exact .kept _
  | release a hw =>
      cases s with
      | none => exact .kept _
      | some l =>
          by_cases hl : l.hw = hw
          · rw [Demand.slot, if_pos hl]
            exact .released hk (hl ▸ hevent)
          · rw [Demand.slot, if_neg hl]
            exact .kept _

/-- **Every event changes every slot in one of five ways.** -/
theorem change_apply (c : Config) (p : Pool) (o : Occurrence) (k : UInt8) :
    Change p o k (p.get? k) ((p.apply c o).get? k) := by
  rw [apply_eq]
  cases hd : o.event.demand? c with
  | none =>
      by_cases hs : o.event = .sweep
      · simp only [if_pos hs, get?_sweep]
        by_cases hk : k = p.server.host
        · rw [if_pos hk]
          exact .kept _
        · rw [if_neg hk]
          cases hl : p.get? k with
          | none => exact .kept _
          | some l =>
              by_cases he : l.expired o.now
              · rw [Option.filter_some_neg (by simp [he])]
                exact .ended hk hs (of_decide_eq_true he)
              · rw [Option.filter_some_pos (by simp [he])]
                exact .kept _
      · simp only [if_neg hs]
        exact .kept _
  | some d =>
      simp only [Demand.get?_meet]
      by_cases hk : p.clientHost? d.address = some k
      · rw [if_pos hk]
        exact change_slot hd hk _
      · rw [if_neg hk]
        exact .kept _

/-- What a slot holds before and after an event is one of the five changes. -/
theorem change_of_get? {c : Config} {p : Pool} {o : Occurrence} {k : UInt8} {s s' : Option Lease}
    (hs : p.get? k = s) (hs' : (p.apply c o).get? k = s') : Change p o k s s' := by
  rw [← hs, ← hs']
  exact change_apply c p o k

end Pool

end Dhcp
