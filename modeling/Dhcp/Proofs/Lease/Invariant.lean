import Dhcp.Proofs.Lease.Change

/-!
# Dhcp.Proofs.Lease.Invariant

What is true of a pool after every history.  A pool is *sound* if its server is a host, the
server's slot holds exactly the reservation, and every other lease stands in the slot of its
address.  A new pool is sound (`Sound.new`), and every event keeps a pool so (`Sound.apply`):
each of the five changes of a slot leaves the server's slot alone and keeps addresses in their
places.
-/

namespace Dhcp.Pool

/-- What the events of a history keep, the history keeps. -/
theorem run_induction {c : Config} {I : Pool → Prop} {h : History} {p : Pool} (hp : I p)
    (hstep : ∀ q, ∀ o ∈ h, I q → I (q.apply c o)) : I (p.run c h) := by
  induction h generalizing p with
  | nil => exact hp
  | cons o h ih =>
      rw [run_cons]
      apply ih
      · exact hstep p o List.mem_cons_self hp
      · intro q o' ho'
        exact hstep q o' (List.mem_cons_of_mem o ho')

/-- The server's slot holds its reservation, and every slot a lease on its own address. -/
structure Sound (p : Pool) : Prop where
  isHost : p.server.IsHost
  reserved : p.get? p.server.host = some (.reservation p.server)
  placed : ∀ {k l}, p.get? k = some l →
    (p.server.withHost k).IsHost ∧ l.address = p.server.withHost k

theorem server_of_new? {server : Address} {p : Pool} (h : new? server = some p) :
    p.server = server := by
  unfold new? at h
  split at h
  · cases h; rfl
  · contradiction

theorem get?_of_new? {server : Address} {p : Pool} (h : new? server = some p) (k : UInt8) :
    p.get? k = if server.host = k then some (.reservation server) else none := by
  unfold new? at h
  split at h
  · cases h
    rw [get?_set]
    congr 1
    exact Vector.getElem_replicate ..
  · contradiction

namespace Sound

theorem new {server : Address} {p : Pool} (h : new? server = some p) : p.Sound := by
  have hserver := server_of_new? h
  have hget := get?_of_new? h
  have hhost : server.IsHost := by
    unfold new? at h
    split at h
    · assumption
    · contradiction
  refine ⟨hserver ▸ hhost, ?_, ?_⟩
  · rw [hserver, hget, if_pos rfl]
  · intro k l hl
    rw [hget] at hl
    split at hl
    · next hk =>
        cases hl
        subst hk
        rw [hserver]
        exact ⟨hhost, rfl⟩
    · contradiction

/-- **Every event keeps a pool sound.** -/
theorem apply {p : Pool} (hp : p.Sound) (c : Config) (o : Occurrence) : (p.apply c o).Sound := by
  refine ⟨?_, ?_, ?_⟩
  · rw [server_apply]
    exact hp.isHost
  · rw [server_apply]
    generalize hs : (p.apply c o).get? p.server.host = s
    cases change_of_get? hp.reserved hs with
    | kept => rfl
    | extended hne => exact absurd rfl hne
    | released hclient => exact absurd rfl (ne_server_of_clientHost? hclient)
    | ended hne => exact absurd rfl hne
  · intro k l hl
    rw [server_apply]
    generalize hs : p.get? k = s
    cases change_of_get? hs hl with
    | kept => exact hp.placed hs
    | granted term hclient =>
        rw [withHost_of_clientHost? hclient]
        exact ⟨(clientHost?_eq_some.1 hclient).2.1, rfl⟩
    | extended => exact ⟨(hp.placed hs).1, (hp.placed hs).2⟩

theorem run {p : Pool} (hp : p.Sound) (c : Config) (h : History) : (p.run c h).Sound :=
  run_induction hp fun _ o _ hq => hq.apply c o

/-- A demand keeps a pool sound, as the call does that makes it directly. -/
theorem meet {p : Pool} (hp : p.Sound) (now : Instant) (d : Demand) : (d.meet now p).Sound := by
  cases d with
  | request a hw term => exact hp.apply default ⟨now, .request a hw term⟩
  | renew a hw => exact hp.apply default ⟨now, .renew a hw⟩
  | release a hw => exact hp.apply default ⟨now, .release a hw⟩

theorem sweep {p : Pool} (hp : p.Sound) (now : Instant) : (p.sweep now).Sound :=
  hp.apply default ⟨now, .sweep⟩

/-- A lease that comes of a demand is one on the address that was asked for. -/
theorem address_of_grant {p : Pool} (hp : p.Sound) {now : Instant} {d : Demand} {l : Lease}
    (h : d.grant now p = some l) : l.address = d.address := by
  obtain ⟨k, hk, hget, -⟩ := Demand.grant_eq_some h
  rw [((hp.meet now d).placed hget).2, Demand.server_meet, withHost_of_clientHost? hk]

theorem of_reachable {c : Config} {p : Pool} (hp : p.Reachable c) : p.Sound := by
  obtain ⟨server, fresh, h, hnew, rfl⟩ := hp
  exact (new hnew).run c h

/-- The address of a client's lease is in the slot that the client asks for by it. -/
theorem clientHost?_address {p : Pool} (hp : p.Sound) {k : UInt8} {l : Lease}
    (hl : p.get? k = some l) (hk : k ≠ p.server.host) : p.clientHost? l.address = some k := by
  obtain ⟨hhost, haddress⟩ := hp.placed hl
  rw [clientHost?_eq_some, haddress]
  exact ⟨⟨rfl, rfl, rfl⟩, hhost, rfl, hk⟩

/-- A lease on an address that clients can have stands in the slot of that address. -/
theorem clientHost?_of_address {p : Pool} (hp : p.Sound) {a : Address} {j k : UInt8} {l : Lease}
    (hj : p.clientHost? a = some j) (hl : p.get? k = some l) (ha : l.address = a) :
    p.clientHost? a = some k := by
  have hhost := host_of_clientHost? hj
  rw [← ha, (hp.placed hl).2] at hhost
  cases hhost
  exact hj

end Sound

end Dhcp.Pool
