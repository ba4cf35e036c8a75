import Dhcp.Proofs.Lease.Listing
import Dhcp.Proofs.Reply.Answers

/-!
# Dhcp.Proofs.Lease.Reservation

The server's own address is never a client's.  `Pool.reservation_kept` says what a pool holds
after every history: the server's reservation as it was made, and leases of clients each in the
slot of its address, listed in ascending order.  Whatever is asked of such a pool for the
server's address, or for one that is no host of its subnet, is denied.
-/

namespace Dhcp.Pool

theorem isHost_iff {a : Address} : a.IsHost ↔ 1 ≤ a.host ∧ a.host ≤ 254 := by
  unfold Address.IsHost
  rw [Ne, Ne, ← UInt8.toNat_inj, ← UInt8.toNat_inj, UInt8.le_iff_toNat_le, UInt8.le_iff_toNat_le]
  have hlt := a.host.toNat_lt
  change ¬ a.host.toNat = 0 ∧ ¬ a.host.toNat = 255 ↔ 1 ≤ a.host.toNat ∧ a.host.toNat ≤ 254
  omega

/-! ## What is denied -/

section
variable {p : Pool} {now : Instant} {a : Address} {hw : HardwareAddress} {l : Lease}

/-- Nothing is done for an address that clients cannot have. -/
theorem denied (h : ¬ p.server.IsClientOf a) (now : Instant) (hw : HardwareAddress) :
    (∀ term, p.request now a hw term = (none, p)) ∧ p.renew now a hw = (none, p) ∧
      p.release a hw = (false, p) ∧ p.leaseOf? now a hw = none ∧
      p.isLeasedTo now a hw = false := by
  have hnone := clientHost?_eq_none h
  have hlease : p.leaseOf? now a hw = none := by rw [leaseOf?, hnone]
  refine ⟨?_, ?_, ?_, hlease, ?_⟩
  · intro term
    rw [request, hnone]
  · rw [renew, hnone]
  · rw [release, hnone]
  · rw [isLeasedTo, hlease, Option.isSome_none]

/-- A lease that is given out is one on the address that was asked for. -/
theorem address_of_answer (hp : p.Sound)
    (h : (∃ term, (p.request now a hw term).1 = some l) ∨ (p.renew now a hw).1 = some l ∨
      p.leaseOf? now a hw = some l) : l.address = a := by
  obtain ⟨term, h⟩ | h | h := h
  · exact hp.address_of_grant (d := .request a hw term) h
  · exact hp.address_of_grant (d := .renew a hw) h
  · obtain ⟨k, hk, hget, -⟩ := leaseOf?_eq_some.1 h
    rw [(hp.placed hget).2, withHost_of_clientHost? hk]

end

/-- **The reservation is kept**: after every history the server's slot holds what it was made
with, the other slots hold leases on their own addresses, and neither a call nor a reply gives
the server's address, or one that is no host of its subnet, to a client. -/
theorem reservation_kept (c : Config) {server : Address} {fresh : Pool}
    (hnew : new? server = some fresh) (h : History) :
    let p := fresh.run c h
    p.get? server.host = some ⟨server, .empty, .last, .longest⟩ ∧
    (∀ k l, p.get? k = some l → 1 ≤ k ∧ k ≤ 254 ∧ l.address = server.withHost k) ∧
    (∀ l, l ∈ p.leases ↔ ∃ k, k ≠ server.host ∧ p.get? k = some l) ∧
    p.leases.Pairwise
      (fun x y => ofBigEndian x.address.octets < ofBigEndian y.address.octets) ∧
    (∀ a now hw, ¬ server.IsClientOf a →
      (∀ term, p.request now a hw term = (none, p)) ∧ p.renew now a hw = (none, p) ∧
        p.release a hw = (false, p) ∧ p.leaseOf? now a hw = none ∧
        p.isLeasedTo now a hw = false) ∧
    (∀ a now hw l,
      (∃ term, (p.request now a hw term).1 = some l) ∨ (p.renew now a hw).1 = some l ∨
        p.leaseOf? now a hw = some l → l.address = a) ∧
    (∀ a, p.lowestFree? = some a → server.IsClientOf a) ∧
    (∀ now m r, (c.answer now p m).reply = .ok (some r) →
      r.kind? = some .offer ∨ r.kind? = some .ack → server.IsClientOf r.yiaddr) := by
  intro p
  have hp : p.Sound := (Sound.new hnew).run c h
  have hserver : p.server = server := by rw [server_run, server_of_new? hnew]
  subst hserver
  refine ⟨hp.reserved, ?_, fun l => mem_leases hp, pairwise_leases hp,
    fun a now hw ha => denied ha now hw, fun a now hw l => address_of_answer hp, ?_, ?_⟩
  · intro k l hl
    obtain ⟨hhost, haddress⟩ := hp.placed hl
    obtain ⟨hlow, hhigh⟩ := isHost_iff.1 hhost
    exact ⟨hlow, hhigh, haddress⟩
  · intro a ha
    obtain ⟨k, hk, -⟩ := hp.client_of_lowestFree? ha
    exact isClientOf_of_clientHost? hk
  · intro now m r hr hkind
    obtain ⟨k, hk, -⟩ := Config.client_of_offer_or_ack hp hr hkind
    exact isClientOf_of_clientHost? hk

/-- A client without a hardware address, as the reservation has none either, cannot extend or
end the reservation. -/
theorem reservation_kept_nameless :
    ∃ fresh, new? ⟨192, 168, 4, 1⟩ = some fresh ∧
      let p := fresh.run {} [⟨.clamp 0, .request ⟨192, 168, 4, 1⟩ .empty .zero⟩,
        ⟨.clamp 0, .request ⟨192, 168, 4, 9⟩ .empty .zero⟩, ⟨.last, .sweep⟩,
        ⟨.clamp 0, .release ⟨192, 168, 4, 1⟩ .empty⟩]
      p.get? 1 = some ⟨⟨192, 168, 4, 1⟩, .empty, .last, .longest⟩ ∧
        p.isLeasedTo (.clamp 0) ⟨192, 168, 4, 1⟩ .empty = false := by
  have hnew : new? ⟨192, 168, 4, 1⟩ = some _ := rfl
  refine ⟨_, hnew, ?_⟩
  obtain ⟨hreserved, -, -, -, hdenied, -⟩ := reservation_kept {} hnew
    [⟨.clamp 0, .request ⟨192, 168, 4, 1⟩ .empty .zero⟩,
      ⟨.clamp 0, .request ⟨192, 168, 4, 9⟩ .empty .zero⟩, ⟨.last, .sweep⟩,
      ⟨.clamp 0, .release ⟨192, 168, 4, 1⟩ .empty⟩]
  obtain ⟨-, -, -, -, hnot⟩ := hdenied ⟨192, 168, 4, 1⟩ (.clamp 0) .empty (by decide)
  exact ⟨hreserved, hnot⟩

end Dhcp.Pool
