import Dhcp.Proofs.Lease.Demand

/-!
# Dhcp.Proofs.Lease.Target

What a demand reads and writes.  Of a pool it reads what stands under its address
(`Demand.grant_eq_bind`), and it writes nothing else (`Demand.slotOf?_meet`).  So a demand that was
met is met again without a change (`Demand.meet_meet`), and demands on different addresses can be
met in any order (`Demand.meet_comm`).

A REQUEST or a RELEASE carries its demand to its target (`Config.target?`).  It changes nothing
elsewhere (`Config.slotOf?_answer`), and what comes of it is known from what stands there
(`Config.answer_congr`).
-/

namespace Dhcp

/-! ## Under an address -/

namespace Pool

/-- What stands under an address, if clients can have it. -/
def slotOf? (p : Pool) (a : Address) : Option (Option Lease) := (p.clientHost? a).map p.get?

/-- Every host is that of one address. -/
theorem clientHost?_inj {p : Pool} {a b : Address} {k : UInt8} (ha : p.clientHost? a = some k)
    (hb : p.clientHost? b = some k) : a = b :=
  (withHost_of_clientHost? ha).symm.trans (withHost_of_clientHost? hb)

/-- Whether a release ends a lease is known from what stands under its address. -/
theorem fst_release (p : Pool) (a : Address) (hw : HardwareAddress) :
    (p.release a hw).1 = (p.slotOf? a).any fun s => s.any (·.hw = hw) := by
  unfold release slotOf?
  cases p.clientHost? a with
  | none => rfl
  | some k =>
      simp only [Option.map_some, Option.any_some]
      cases p.get? k with
      | none => rfl
      | some l => by_cases hown : l.hw = hw <;> simp [hown]

end Pool

namespace Demand

variable {now : Instant} {p q : Pool} {d e : Demand}

theorem clientHost?_meet (now : Instant) (p : Pool) (d : Demand) (a : Address) :
    (d.meet now p).clientHost? a = p.clientHost? a :=
  Pool.clientHost?_of_server_eq (server_meet now p d) a

/-- **A demand writes under its address** and nowhere else. -/
theorem slotOf?_meet (now : Instant) (p : Pool) (d : Demand) (a : Address) :
    (d.meet now p).slotOf? a =
      if a = d.address then (p.slotOf? a).map (d.slot now) else p.slotOf? a := by
  unfold Pool.slotOf?
  rw [clientHost?_meet]
  cases ha : p.clientHost? a with
  | none => simp
  | some k =>
      simp only [Option.map_some, get?_meet]
      by_cases haddress : a = d.address
      · rw [if_pos haddress, if_pos (haddress ▸ ha)]
      · have hne : p.clientHost? d.address ≠ some k :=
          fun hd => haddress (Pool.clientHost?_inj ha hd)
        rw [if_neg haddress, if_neg hne]

/-- **A demand reads under its address** and nowhere else. -/
theorem grant_eq_bind (now : Instant) (p : Pool) (d : Demand) :
    d.grant now p =
      (p.slotOf? d.address).bind fun s => (d.slot now s).filter (·.hw = d.hw) := by
  rw [grant_eq, Pool.slotOf?, Option.bind_map]
  rfl

theorem grant_congr (h : p.slotOf? d.address = q.slotOf? d.address) :
    d.grant now p = d.grant now q := by
  rw [grant_eq_bind, grant_eq_bind, h]

/-! ## The same demand again -/

/-- At one time, a slot is not changed a second time: a lease that was just made or extended
expires when it would after one more renewal, and a lease that was ended is gone. -/
theorem slot_slot (now : Instant) (d : Demand) (s : Option Lease) :
    d.slot now (d.slot now s) = d.slot now s := by
  cases d with
  | request a hw term =>
      cases s with
      | none => exact if_pos rfl
      | some l => by_cases hown : l.hw = hw <;> simp [slot, hown, Lease.renew]
  | renew a hw =>
      cases s with
      | none => rfl
      | some l => by_cases hown : l.hw = hw <;> simp [slot, hown, Lease.renew]
  | release a hw =>
      cases s with
      | none => rfl
      | some l => by_cases hown : l.hw = hw <;> simp [slot, hown]

/-- **A demand that was met is met again without a change.** -/
theorem meet_meet (now : Instant) (p : Pool) (d : Demand) :
    d.meet now (d.meet now p) = d.meet now p := by
  refine Pool.ext (server_meet ..) ?_
  intro k
  rw [get?_meet now (d.meet now p), clientHost?_meet, get?_meet]
  by_cases hk : p.clientHost? d.address = some k
  · rw [if_pos hk, if_pos hk, slot_slot]
  · rw [if_neg hk, if_neg hk]

/-- What came of a demand comes of it again. -/
theorem grant_meet (now : Instant) (p : Pool) (d : Demand) :
    d.grant now (d.meet now p) = d.grant now p := by
  rw [grant_eq_bind, grant_eq_bind, slotOf?_meet, if_pos rfl, Option.bind_map]
  simp only [Function.comp_def, slot_slot]

/-! ## Demands on different addresses -/

/-- **Demands on different addresses can be met in any order.** -/
theorem meet_comm (now : Instant) (p : Pool) (h : d.address ≠ e.address) :
    e.meet now (d.meet now p) = d.meet now (e.meet now p) := by
  refine Pool.ext (by simp only [server_meet]) ?_
  intro k
  simp only [get?_meet, clientHost?_meet]
  by_cases hd : p.clientHost? d.address = some k
  · have he : p.clientHost? e.address ≠ some k := fun he => h (Pool.clientHost?_inj hd he)
    rw [if_neg he, if_neg he]
  · rw [if_neg hd, if_neg hd]

end Demand

/-! ## Messages -/

namespace Config

variable {c : Config} {now : Instant} {p q : Pool} {m : Message}

/-- The address that a REQUEST or a RELEASE is about, if it is about one of this server: a client
that names the server, or has no address yet, is about the address that it asks for; one that has
an address is about that, unless it asks for another; and one that gives its address back is about
that. -/
def target? (c : Config) (m : Message) : Option Address :=
  match m.op, m.kind? with
  | .request, some .request =>
    match m.serverIdentifier? with
    | some server => if server = c.server then m.requestedAddress? else none
    | none =>
      if m.ciaddr = .unspecified then m.requestedAddress?
      else some (m.requestedAddress?.getD m.ciaddr)
  | .request, some .release => some m.ciaddr
  | _, _ => none

/-- A message carries its demand to its target. -/
theorem target?_of_demand? {d : Demand} (h : c.demand? m = some d) :
    c.target? m = some d.address := by
  obtain ⟨hop, ⟨hk, hd⟩ | ⟨hk, rfl⟩⟩ := demand?_cases h
  · simp only [demand?, target?, hop, hk] at h ⊢
    unfold requestDemand? at hd
    cases hs : m.serverIdentifier? with
    | none =>
        simp only [hs, Option.isSome_none, Bool.false_eq_true, false_or] at hd ⊢
        split at hd
        · next hfree =>
            obtain ⟨a, ha, rfl⟩ := Option.map_eq_some_iff.1 hd
            rw [if_pos hfree, ha]
            rfl
        · next hheld =>
            cases hd
            rw [if_neg hheld]
            rfl
    | some server =>
        rw [hs, Option.isSome_some, if_pos (Or.inl rfl)] at hd
        obtain ⟨a, ha, rfl⟩ := Option.map_eq_some_iff.1 hd
        by_cases hthis : server = c.server
        · simp only [if_pos hthis, ha]
          rfl
        · simp [hs, hthis] at h
  · simp only [target?, hop, hk]
    rfl

/-- **A message changes nothing but what stands under its target.** -/
theorem slotOf?_answer {a : Address} (h : c.target? m ≠ some a) :
    (c.answer now p m).pool.slotOf? a = p.slotOf? a := by
  rw [answer_pool]
  cases hd : c.demand? m with
  | none => rfl
  | some d =>
      have hne : a ≠ d.address := fun ha => h (ha ▸ target?_of_demand? hd)
      rw [Option.elim_some, Demand.slotOf?_meet, if_neg hne]

/-- What is replied and logged does not depend on the pool, once the lease is known. -/
theorem confirm_congr (c : Config) (m : Message) (lease : Option Lease) (p q : Pool) :
    (c.confirm m lease p).reply = (c.confirm m lease q).reply ∧
      (c.confirm m lease p).log = (c.confirm m lease q).log := by
  unfold confirm
  cases lease with
  | none => exact ⟨rfl, rfl⟩
  | some l =>
      dsimp only
      cases c.responder.ack m l.address l.term c.extras <;> exact ⟨rfl, rfl⟩

theorem leaseFor_congr (h : ∀ d, c.requestDemand? m = some d → d.grant now p = d.grant now q) :
    (c.leaseFor now p m).1 = (c.leaseFor now q m).1 := by
  unfold leaseFor
  unfold requestDemand? at h
  by_cases hbind : m.serverIdentifier?.isSome ∨ m.ciaddr = .unspecified
  · rw [if_pos hbind] at h ⊢
    rw [if_pos hbind]
    unfold bindRequested
    cases ha : m.requestedAddress? with
    | none => rfl
    | some a => exact h _ (by rw [ha]; rfl)
  · rw [if_neg hbind] at h ⊢
    rw [if_neg hbind]
    -- of the same lease the same time is left
    exact congrArg (Option.filter _) (h _ rfl)

/-- What comes of a REQUEST is known from the lease that its demand leads to. -/
theorem answerRequest_congr (hop : m.op = .request) (hk : m.kind? = some .request)
    (h : ∀ d, c.demand? m = some d → d.grant now p = d.grant now q) :
    (c.answerRequest now p m).reply = (c.answerRequest now q m).reply ∧
      (c.answerRequest now p m).log = (c.answerRequest now q m).log := by
  unfold answerRequest
  cases hother : m.serverIdentifier?.filter (· ≠ c.server) with
  | some other => exact ⟨rfl, rfl⟩
  | none =>
      have hlease : (c.leaseFor now p m).1 = (c.leaseFor now q m).1 := by
        refine leaseFor_congr fun d hd => h d ?_
        simp only [demand?, hop, hk, hother]
        exact hd
      change (c.confirm m (c.leaseFor now p m).1 (c.leaseFor now p m).2).reply =
          (c.confirm m (c.leaseFor now q m).1 (c.leaseFor now q m).2).reply ∧
        (c.confirm m (c.leaseFor now p m).1 (c.leaseFor now p m).2).log =
          (c.confirm m (c.leaseFor now q m).1 (c.leaseFor now q m).2).log
      rw [hlease]
      exact confirm_congr ..

theorem answerRelease_congr (h : (p.release m.ciaddr m.hw).1 = (q.release m.ciaddr m.hw).1) :
    (answerRelease p m).reply = (answerRelease q m).reply ∧
      (answerRelease p m).log = (answerRelease q m).log := by
  unfold answerRelease
  cases hp : p.release m.ciaddr m.hw with
  | mk ended p' =>
      cases hq : q.release m.ciaddr m.hw with
      | mk ended' q' =>
          rw [hp, hq] at h
          obtain rfl : ended = ended' := h
          cases ended <;> exact ⟨rfl, rfl⟩

/-- **What comes of a message is known from what stands under its target**, unless it is a
DISCOVER, which is answered with whatever address is free. -/
theorem answer_congr (hk : m.kind? ≠ some .discover)
    (h : ∀ a, c.target? m = some a → p.slotOf? a = q.slotOf? a) :
    (c.answer now p m).reply = (c.answer now q m).reply ∧
      (c.answer now p m).log = (c.answer now q m).log := by
  unfold answer
  cases hop : m.op with
  | reply => exact ⟨rfl, rfl⟩
  | request =>
      dsimp only
      unfold answerKind
      cases hkind : m.kind? with
      | none => exact ⟨rfl, rfl⟩
      | some k =>
          cases k
          case discover => exact absurd hkind hk
          case request =>
            obtain ⟨hreply, hlog⟩ := @answerRequest_congr c now p q m hop hkind
              fun d hd => Demand.grant_congr (h _ (target?_of_demand? hd))
            exact ⟨hreply, congrArg (m.detailEntries ++ ·) hlog⟩
          case release =>
            have hended : (p.release m.ciaddr m.hw).1 = (q.release m.ciaddr m.hw).1 := by
              rw [Pool.fst_release, Pool.fst_release, h m.ciaddr]
              simp only [target?, hop, hkind]
            obtain ⟨hreply, hlog⟩ := answerRelease_congr hended
            exact ⟨hreply, congrArg (m.detailEntries ++ ·) hlog⟩
          all_goals exact ⟨rfl, rfl⟩

end Config

end Dhcp
