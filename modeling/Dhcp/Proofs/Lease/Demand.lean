import Dhcp.Exchange

/-!
# Dhcp.Proofs.Lease.Demand

What clients ask of a pool.  A demand is the request, the renewal or the release of one address
for one client.  It is met in the slot of that address alone, and `Demand.slot` is what it does
there:

* `Demand.get?_meet` — every slot after a demand is met;
* `Demand.grant_eq` — the lease that comes of a demand;
* `Config.answer_pool` — a message changes a pool as the demand does that it carries.
-/

namespace Dhcp

theorem Pool.set_get? (p : Pool) (host : UInt8) : p.set host (p.get? host) = p := by
  refine ext rfl ?_
  intro other
  rw [get?_set]
  by_cases h : host = other
  · rw [if_pos h, h]
  · rw [if_neg h]

/-! ## Hosts of clients -/

/-- Whether an address is one that a server can lease to clients: another host of its subnet. -/
def Address.IsClientOf (server a : Address) : Prop := a.SameNet server ∧ a.IsHost ∧ a ≠ server

instance (server a : Address) : Decidable (server.IsClientOf a) :=
  inferInstanceAs (Decidable (_ ∧ _ ∧ _))

namespace Pool

/-- The addresses that a pool can lease to clients are the hosts of its subnet, the server's
address excepted. -/
theorem clientHost?_eq_some {p : Pool} {a : Address} {k : UInt8} :
    p.clientHost? a = some k ↔
      a.SameNet p.server ∧ a.IsHost ∧ a.host = k ∧ k ≠ p.server.host := by
  unfold clientHost? hostOf?
  by_cases h : a.SameNet p.server ∧ a.IsHost
  · rw [if_pos h, Option.filter_eq_some_iff, Option.some.injEq, decide_eq_true_eq]
    exact ⟨fun ⟨hk, hne⟩ => ⟨h.1, h.2, hk, hne⟩, fun ⟨_, _, hk, hne⟩ => ⟨hk, hne⟩⟩
  · rw [if_neg h, Option.filter_none]
    exact ⟨fun hk => absurd hk (by simp), fun ⟨hnet, hhost, _⟩ => absurd ⟨hnet, hhost⟩ h⟩

theorem clientHost?_of_server_eq {p q : Pool} (h : q.server = p.server) (a : Address) :
    q.clientHost? a = p.clientHost? a := by
  unfold clientHost? hostOf?
  rw [h]

theorem clientHost?_eq_none {p : Pool} {a : Address} (h : ¬ p.server.IsClientOf a) :
    p.clientHost? a = none := by
  rw [Option.eq_none_iff_forall_ne_some]
  intro k hk
  obtain ⟨hnet, hhost, rfl, hne⟩ := clientHost?_eq_some.1 hk
  exact h ⟨hnet, hhost, fun heq => hne (by rw [heq])⟩

theorem isClientOf_of_clientHost? {p : Pool} {a : Address} {k : UInt8}
    (h : p.clientHost? a = some k) : p.server.IsClientOf a := by
  obtain ⟨hnet, hhost, rfl, hne⟩ := clientHost?_eq_some.1 h
  exact ⟨hnet, hhost, fun heq => hne (by rw [heq])⟩

theorem clientHost?_of_isClientOf {p : Pool} {a : Address} (h : p.server.IsClientOf a) :
    p.clientHost? a = some a.host := by
  obtain ⟨hnet, hhost, hne⟩ := h
  refine clientHost?_eq_some.2 ⟨hnet, hhost, rfl, fun hsame => hne ?_⟩
  obtain ⟨ha, hb, hc⟩ := hnet
  cases a
  simp_all

theorem host_of_clientHost? {p : Pool} {a : Address} {k : UInt8} (h : p.clientHost? a = some k) :
    a.host = k := (clientHost?_eq_some.1 h).2.2.1

/-- The server's own host is no client's. -/
theorem ne_server_of_clientHost? {p : Pool} {a : Address} {k : UInt8}
    (h : p.clientHost? a = some k) : k ≠ p.server.host := (clientHost?_eq_some.1 h).2.2.2

/-- The pool's address with the octet of a client's host is that client's address. -/
theorem withHost_of_clientHost? {p : Pool} {a : Address} {k : UInt8}
    (h : p.clientHost? a = some k) : p.server.withHost k = a := by
  obtain ⟨⟨ha, hb, hc⟩, -, hk, -⟩ := clientHost?_eq_some.1 h
  rw [Address.withHost, ← hk, ← ha, ← hb, ← hc]

end Pool

/-! ## Demands -/

/-- What is asked of a pool for a client. -/
inductive Demand where
  | request (a : Address) (hw : HardwareAddress) (term : Span)
  | renew (a : Address) (hw : HardwareAddress)
  | release (a : Address) (hw : HardwareAddress)
deriving DecidableEq

namespace Demand

/-- The address that a demand is made for. -/
def address : Demand → Address
  | request a _ _ | renew a _ | release a _ => a

/-- The client that a demand is made for. -/
def hw : Demand → HardwareAddress
  | request _ hw _ | renew _ hw | release _ hw => hw

/-- The pool after a demand. -/
def meet (now : Instant) (p : Pool) : Demand → Pool
  | request a hw term => (p.request now a hw term).2
  | renew a hw => (p.renew now a hw).2
  | release a hw => (p.release a hw).2

/-- The lease that comes of a demand. -/
def grant (now : Instant) (p : Pool) : Demand → Option Lease
  | request a hw term => (p.request now a hw term).1
  | renew a hw => (p.renew now a hw).1
  | release .. => none

/-- What a demand makes of the slot of its address. -/
def slot (now : Instant) : Demand → Option Lease → Option Lease
  | request a hw term, none => some (.new now a hw term)
  | renew .., none | release .., none => none
  | request _ hw _, some l | renew _ hw, some l =>
    if l.hw = hw then some (l.renew now) else some l
  | release _ hw, some l => if l.hw = hw then none else some l

@[simp] theorem server_meet (now : Instant) (p : Pool) (d : Demand) :
    (d.meet now p).server = p.server := by
  cases d <;> simp only [meet, Pool.request, Pool.renew, Pool.release] <;>
    repeat' first | rfl | split

/-- A demand on no client's address changes nothing. -/
theorem meet_of_not_client {now : Instant} {p : Pool} {d : Demand}
    (h : p.clientHost? d.address = none) : d.meet now p = p := by
  cases d <;> simp only [address] at h <;>
    simp only [meet, Pool.request, Pool.renew, Pool.release, h]

/-- A demand on a client's address sets the slot of that address. -/
theorem meet_of_client {now : Instant} {p : Pool} {d : Demand} {k : UInt8}
    (h : p.clientHost? d.address = some k) :
    d.meet now p = p.set k (d.slot now (p.get? k)) := by
  -- a demand that is denied leaves the slot as it is, which is to set it to what it holds
  have hsame := p.set_get? k
  cases d with
  | request a hw term =>
      simp only [address] at h
      simp only [meet, Pool.request, h]
      cases hl : p.get? k with
      | none => rfl
      | some l =>
          rw [hl] at hsame
          by_cases hown : l.hw = hw
          · simp only [slot, if_pos hown]
          · simp only [slot, if_neg hown, hsame]
  | renew a hw =>
      simp only [address] at h
      simp only [meet, Pool.renew, h]
      cases hl : p.get? k with
      | none =>
          rw [hl] at hsame
          simp only [slot, hsame]
      | some l =>
          rw [hl] at hsame
          by_cases hown : l.hw = hw
          · simp only [slot, if_pos hown]
          · simp only [slot, if_neg hown, hsame]
  | release a hw =>
      simp only [address] at h
      simp only [meet, Pool.release, h]
      cases hl : p.get? k with
      | none =>
          rw [hl] at hsame
          simp only [slot, hsame]
      | some l =>
          rw [hl] at hsame
          by_cases hown : l.hw = hw
          · simp only [slot, if_pos hown]
          · simp only [slot, if_neg hown, hsame]

/-- **A demand is met in one slot**: that of its address, if a client can have it. -/
theorem get?_meet (now : Instant) (p : Pool) (d : Demand) (k : UInt8) :
    (d.meet now p).get? k =
      if p.clientHost? d.address = some k then d.slot now (p.get? k) else p.get? k := by
  cases hclient : p.clientHost? d.address with
  | none => rw [meet_of_not_client hclient, if_neg (Option.some_ne_none k).symm]
  | some host =>
      rw [meet_of_client hclient, Pool.get?_set]
      by_cases hk : host = k
      · rw [if_pos hk, if_pos (congrArg some hk), hk]
      · rw [if_neg hk, if_neg (fun h => hk (Option.some.inj h))]

/-- What comes of a demand is what its slot holds afterwards, unless that is another client's. -/
theorem grant_eq (now : Instant) (p : Pool) (d : Demand) :
    d.grant now p =
      (p.clientHost? d.address).bind fun k => (d.slot now (p.get? k)).filter (·.hw = d.hw) := by
  cases hclient : p.clientHost? d.address with
  | none =>
      cases d <;> simp only [address] at hclient <;>
        simp only [grant, Pool.request, Pool.renew, hclient, Option.bind_none]
  | some host =>
      rw [Option.bind_some]
      cases d with
      | request a hw term =>
          simp only [address] at hclient
          simp only [grant, Pool.request, hclient]
          cases p.get? host with
          | none => grind [slot, Demand.hw, Lease.new]
          | some l => grind [slot, Demand.hw, Lease.renew]
      | renew a hw =>
          simp only [address] at hclient
          simp only [grant, Pool.renew, hclient]
          cases p.get? host with
          | none => grind [slot]
          | some l => grind [slot, Demand.hw, Lease.renew]
      | release a hw =>
          cases p.get? host with
          | none => grind [grant, slot]
          | some l => grind [grant, slot, Demand.hw]

/-- A lease that comes of a demand is new or renewed at that time. -/
theorem expiry_of_slot {now : Instant} {d : Demand} {s : Option Lease} {l : Lease}
    (h : d.slot now s = some l) (hw : l.hw = d.hw) : l.expiry = now.after l.term := by
  cases d <;> cases s <;> simp only [slot, Demand.hw, reduceCtorEq] at h hw
  case request.none => cases h; rfl
  all_goals
    split at h
    · cases h <;> rfl
    · cases h; contradiction

/-- A slot that is taken stays its client's. -/
theorem hw_of_slot {now : Instant} {d : Demand} {l l' : Lease}
    (h : d.slot now (some l) = some l') : l'.hw = l.hw := by
  cases d <;> simp only [slot] at h <;> split at h <;> cases h <;> rfl

theorem grant_eq_some {now : Instant} {p : Pool} {d : Demand} {l : Lease}
    (h : d.grant now p = some l) :
    ∃ k, p.clientHost? d.address = some k ∧ (d.meet now p).get? k = some l ∧ l.hw = d.hw ∧
      l.expiry = now.after l.term := by
  rw [grant_eq] at h
  obtain ⟨k, hk, h⟩ := Option.bind_eq_some_iff.1 h
  obtain ⟨hslot, hw⟩ := Option.filter_eq_some_iff.1 h
  have hw : l.hw = d.hw := of_decide_eq_true hw
  exact ⟨k, hk, by rw [get?_meet, if_pos hk, hslot], hw, expiry_of_slot hslot hw⟩

end Demand

/-! ## Demands of messages and events -/

/-- Whether a message is a REQUEST that a server decides: one that names no other server. -/
structure Message.IsRequestTo (m : Message) (server : Address) : Prop where
  op : m.op = .request
  kind : m.kind? = some .request
  server : ∀ other, m.serverIdentifier? = some other → other = server

namespace Config

/-- The demand that a REQUEST for this server carries. -/
def requestDemand? (c : Config) (m : Message) : Option Demand :=
  if m.serverIdentifier?.isSome ∨ m.ciaddr = .unspecified then
    m.requestedAddress?.map fun a => .request a m.hw (c.negotiate m)
  else some (.renew (m.requestedAddress?.getD m.ciaddr) m.hw)

/-- The demand that a message carries. -/
def demand? (c : Config) (m : Message) : Option Demand :=
  match m.op, m.kind? with
  | .request, some .request =>
    if (m.serverIdentifier?.filter (· ≠ c.server)).isSome then none else c.requestDemand? m
  | .request, some .release => some (.release m.ciaddr m.hw)
  | _, _ => none

theorem requestDemand?_cases {c : Config} {m : Message} {d : Demand}
    (h : c.requestDemand? m = some d) :
    (∃ a, m.requestedAddress? = some a ∧ d = .request a m.hw (c.negotiate m)) ∨
      d = .renew (m.requestedAddress?.getD m.ciaddr) m.hw := by
  unfold requestDemand? at h
  split at h
  · obtain ⟨a, ha, rfl⟩ := Option.map_eq_some_iff.1 h
    exact Or.inl ⟨a, ha, rfl⟩
  · exact Or.inr (Option.some.inj h).symm

theorem hw_of_requestDemand? {c : Config} {m : Message} {d : Demand}
    (h : c.requestDemand? m = some d) : d.hw = m.hw := by
  obtain ⟨a, -, rfl⟩ | rfl := requestDemand?_cases h <;> rfl

/-- Only a REQUEST and a RELEASE carry demands. -/
theorem demand?_cases {c : Config} {m : Message} {d : Demand} (h : c.demand? m = some d) :
    m.op = .request ∧
      ((m.kind? = some .request ∧ c.requestDemand? m = some d) ∨
        (m.kind? = some .release ∧ d = .release m.ciaddr m.hw)) := by
  unfold demand? at h
  split at h
  · next hop hk =>
      split at h
      · contradiction
      · exact ⟨hop, Or.inl ⟨hk, h⟩⟩
  · next hop hk => exact ⟨hop, Or.inr ⟨hk, (Option.some.inj h).symm⟩⟩
  · contradiction

theorem hw_of_demand? {c : Config} {m : Message} {d : Demand} (h : c.demand? m = some d) :
    d.hw = m.hw := by
  obtain ⟨-, ⟨-, hd⟩ | ⟨-, rfl⟩⟩ := demand?_cases h
  · exact hw_of_requestDemand? hd
  · rfl

/-- A REQUEST is for this server just if it is not sorted out as one for another. -/
theorem filter_serverIdentifier?_eq_none {c : Config} {m : Message} :
    m.serverIdentifier?.filter (· ≠ c.server) = none ↔
      ∀ other, m.serverIdentifier? = some other → other = c.server := by
  simp [Option.filter_eq_none_iff]

section
variable {c : Config} {m : Message} (h : m.IsRequestTo c.server)
include h

theorem demand?_of_isRequestTo : c.demand? m = c.requestDemand? m := by
  simp only [demand?, h.op, h.kind, filter_serverIdentifier?_eq_none.2 h.server]
  rfl

/-- A REQUEST for this server is answered with the lease that it leads to. -/
theorem reply_of_isRequestTo (now : Instant) (p : Pool) :
    (c.answer now p m).reply =
      (c.confirm m (c.leaseFor now p m).1 (c.leaseFor now p m).2).reply := by
  simp only [answer, h.op, answerKind, h.kind, answerRequest,
    filter_serverIdentifier?_eq_none.2 h.server]

end

/-- A REQUEST that carries a demand is for this server. -/
theorem isRequestTo_of_demand? {c : Config} {m : Message} {d : Demand}
    (h : c.demand? m = some d) (hk : m.kind? = some .request) : m.IsRequestTo c.server := by
  obtain ⟨hop, -⟩ := demand?_cases h
  refine ⟨hop, hk, fun other hother => ?_⟩
  refine Decidable.byContradiction fun hne => ?_
  simp [demand?, hop, hk, hother, hne] at h

/-- A lease is asked for as long as the server and the client agree on. -/
theorem negotiate_of_demand? {c : Config} {m : Message} {a : Address} {hw : HardwareAddress}
    {term : Span} (h : c.demand? m = some (.request a hw term)) : term = c.negotiate m := by
  obtain ⟨-, ⟨-, hd⟩ | ⟨-, hd⟩⟩ := demand?_cases h
  · obtain ⟨a', -, hd⟩ | hd := requestDemand?_cases hd
    · cases hd
      rfl
    · contradiction
  · contradiction

theorem leaseFor_pool (c : Config) (now : Instant) (p : Pool) (m : Message) :
    (c.leaseFor now p m).2 = (c.requestDemand? m).elim p (·.meet now p) := by
  unfold leaseFor requestDemand?
  split
  · cases h : m.requestedAddress? <;> simp [bindRequested, h, Demand.meet]
  · rfl

theorem leaseFor_of_request {c : Config} {m : Message} {a : Address} {hw : HardwareAddress}
    {term : Span} (h : c.requestDemand? m = some (.request a hw term)) (now : Instant) (p : Pool) :
    c.leaseFor now p m = p.request now a hw term := by
  unfold requestDemand? at h
  split at h
  · next hbind =>
      obtain ⟨a', ha, hd⟩ := Option.map_eq_some_iff.1 h
      cases hd
      rw [leaseFor, if_pos hbind, bindRequested, ha]
  · cases h

/-- The lease that a REQUEST leads to comes of its demand. -/
theorem grant_of_leaseFor {c : Config} {now : Instant} {p : Pool} {m : Message} {l : Lease}
    (h : (c.leaseFor now p m).1 = some l) :
    ∃ d, c.requestDemand? m = some d ∧ d.grant now p = some l := by
  unfold leaseFor at h
  unfold requestDemand?
  by_cases hbind : m.serverIdentifier?.isSome ∨ m.ciaddr = .unspecified
  · rw [if_pos hbind] at h ⊢
    cases ha : m.requestedAddress? with
    | none => simp [bindRequested, ha] at h
    | some a =>
        rw [bindRequested, ha] at h
        exact ⟨_, rfl, h⟩
  · rw [if_neg hbind] at h ⊢
    -- the extended lease is passed on only if time is left of it
    exact ⟨_, rfl, (Option.filter_eq_some_iff.1 h).1⟩

@[simp] theorem confirm_pool (c : Config) (m : Message) (lease : Option Lease) (p : Pool) :
    (c.confirm m lease p).pool = p := by
  unfold confirm
  repeat' first | rfl | split

@[simp] theorem answerDiscover_pool (c : Config) (now : Instant) (p : Pool) (m : Message) :
    (c.answerDiscover now p m).pool = p := by
  unfold answerDiscover
  repeat' first | rfl | split

theorem answerRequest_pool (c : Config) (now : Instant) (p : Pool) (m : Message) :
    (c.answerRequest now p m).pool =
      if (m.serverIdentifier?.filter (· ≠ c.server)).isSome then p
      else (c.requestDemand? m).elim p (·.meet now p) := by
  unfold answerRequest
  cases h : m.serverIdentifier?.filter (· ≠ c.server) with
  | some other => rfl
  | none => simp only [confirm_pool, leaseFor_pool]; rfl

/-- **A message changes a pool as its demand does**, and not at all if it carries none.  Replies
that cannot be made and leases without time left are no exception. -/
theorem answer_pool (c : Config) (now : Instant) (p : Pool) (m : Message) :
    (c.answer now p m).pool = (c.demand? m).elim p (·.meet now p) := by
  unfold answer demand?
  cases m.op with
  | reply => rfl
  | request =>
      simp only [answerKind]
      cases hk : m.kind? with
      | none => rfl
      | some k =>
          cases k
          case discover => exact answerDiscover_pool ..
          case request => rw [answerRequest_pool]; split <;> rfl
          case release =>
            simp only [answerRelease, Option.elim_some, Demand.meet]
            split <;> simp_all
          all_goals rfl

end Config

end Dhcp
