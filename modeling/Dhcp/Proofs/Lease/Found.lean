import Dhcp.Proofs.Expiry
import Dhcp.Proofs.Lease.Invariant

/-!
# Dhcp.Proofs.Lease.Found

What a pool finds: the lease of a client on an address (`Pool.leaseOf?_eq_some`), and the lowest
address that is free.  The hosts of a subnet are looked through in ascending order, so that the
slots of all hosts below the one that is found are taken (`Pool.lowestFree?_eq_some`); and if
nothing is found, those of all hosts are (`Pool.lowestFree?_eq_none`).
-/

namespace Dhcp.Pool

/-! ## Hosts in order -/

theorem mem_hosts {k : UInt8} : k ∈ hosts ↔ k ≠ 0 ∧ k ≠ 255 := by
  unfold hosts
  rw [List.mem_map]
  constructor
  · rintro ⟨n, hn, rfl⟩
    rw [List.mem_range'_1] at hn
    rw [Ne, Ne, ← UInt8.toNat_inj, ← UInt8.toNat_inj, UInt8.toNat_ofNat']
    change ¬ n % 256 = 0 ∧ ¬ n % 256 = 255
    omega
  · rintro ⟨h0, h255⟩
    refine ⟨k.toNat, ?_, UInt8.ofNat_toNat⟩
    rw [Ne, ← UInt8.toNat_inj] at h0 h255
    change ¬ k.toNat = 0 at h0
    change ¬ k.toNat = 255 at h255
    have hk := k.toNat_lt
    rw [List.mem_range'_1]
    omega

theorem pairwise_hosts : hosts.Pairwise fun j k => j.toNat < k.toNat := by
  unfold hosts
  rw [List.pairwise_map]
  refine List.Pairwise.imp_of_mem ?_ (List.pairwise_lt_range' 1)
  intro m n hm hn hlt
  rw [List.mem_range'_1] at hm hn
  rw [UInt8.toNat_ofNat', UInt8.toNat_ofNat']
  omega

/-- A host of a subnet that is below another one stands before it. -/
theorem mem_of_lt_of_hosts {before after : List UInt8} {j k : UInt8}
    (h : hosts = before ++ k :: after) (h0 : j ≠ 0) (hlt : j < k) : j ∈ before := by
  rw [UInt8.lt_iff_toNat_lt] at hlt
  have hk := k.toNat_lt
  have h255 : j ≠ 255 := by
    rintro rfl
    change 255 < k.toNat at hlt
    omega
  have hmem : j ∈ before ++ k :: after := h ▸ mem_hosts.2 ⟨h0, h255⟩
  have hsorted := h ▸ pairwise_hosts
  obtain hbefore | hafter := List.mem_append.1 hmem
  · exact hbefore
  · obtain rfl | hafter := List.mem_cons.1 hafter
    · omega
    · have hgt := (List.pairwise_cons.1 (List.pairwise_append.1 hsorted).2.1).1 j hafter
      omega

/-! ## Leases and addresses that are found -/

theorem leaseOf?_eq_some {p : Pool} {now : Instant} {a : Address} {hw : HardwareAddress}
    {l : Lease} :
    p.leaseOf? now a hw = some l ↔
      ∃ k, p.clientHost? a = some k ∧ p.get? k = some l ∧ l.hw = hw ∧ now ≤ l.expiry := by
  unfold leaseOf?
  cases p.clientHost? a with
  | none => simp
  | some k => simp [Option.filter_eq_some_iff, Lease.expired_eq_false]

/-- Whether a host is the lowest one of a subnet whose slot is free. -/
structure IsLowestFree (p : Pool) (k : UInt8) : Prop where
  ne_zero : k ≠ 0
  ne_last : k ≠ 255
  free : p.get? k = none
  below : ∀ j, j ≠ 0 → j < k → (p.get? j).isSome

/-- No two hosts are the lowest free one. -/
theorem IsLowestFree.unique {p : Pool} {j k : UInt8} (hj : p.IsLowestFree j)
    (hk : p.IsLowestFree k) : j = k := by
  have hnotBelow : ∀ {j k : UInt8}, p.IsLowestFree j → p.IsLowestFree k → ¬ j < k := by
    intro j k hj hk hlt
    have htaken := hk.below j hj.ne_zero hlt
    rw [hj.free] at htaken
    contradiction
  exact UInt8.le_antisymm (UInt8.not_lt.1 (hnotBelow hk hj)) (UInt8.not_lt.1 (hnotBelow hj hk))

/-- There is no free address just if the slots of all hosts are taken. -/
theorem lowestFree?_eq_none {p : Pool} :
    p.lowestFree? = none ↔ ∀ k, k ≠ 0 → k ≠ 255 → (p.get? k).isSome := by
  unfold lowestFree?
  rw [Option.map_eq_none_iff, List.find?_eq_none]
  simp only [mem_hosts, Option.isNone_iff_eq_none, and_imp, ← Option.ne_none_iff_isSome, ne_eq]

/-- **The address that is found is the lowest free one.** -/
theorem lowestFree?_eq_some {p : Pool} {a : Address} :
    p.lowestFree? = some a ↔ ∃ k, p.IsLowestFree k ∧ a = p.server.withHost k := by
  have hfound : ∀ a, p.lowestFree? = some a →
      ∃ k, p.IsLowestFree k ∧ a = p.server.withHost k := by
    intro a h
    unfold lowestFree? at h
    obtain ⟨k, hk, rfl⟩ := Option.map_eq_some_iff.1 h
    obtain ⟨hfree, before, after, hhosts, hbefore⟩ := List.find?_eq_some_iff_append.1 hk
    obtain ⟨h0, h255⟩ := mem_hosts.1 (List.mem_of_find?_eq_some hk)
    refine ⟨k, ⟨h0, h255, Option.isNone_iff_eq_none.1 hfree, ?_⟩, rfl⟩
    intro j hj hlt
    have htaken := hbefore j (mem_of_lt_of_hosts hhosts hj hlt)
    simpa using htaken
  refine ⟨hfound a, ?_⟩
  rintro ⟨k, hk, rfl⟩
  cases h : p.lowestFree? with
  | none =>
      have htaken := lowestFree?_eq_none.1 h k hk.ne_zero hk.ne_last
      rw [hk.free] at htaken
      contradiction
  | some a' =>
      obtain ⟨j, hj, rfl⟩ := hfound a' h
      rw [hj.unique hk]

/-- The lowest free address is a client's to have: the server's own is never free. -/
theorem Sound.client_of_lowestFree? {p : Pool} (hp : p.Sound) {a : Address}
    (h : p.lowestFree? = some a) : ∃ k, p.clientHost? a = some k ∧ p.get? k = none := by
  obtain ⟨k, hk, rfl⟩ := lowestFree?_eq_some.1 h
  have hne : k ≠ p.server.host := by
    rintro rfl
    have hfree := hk.free
    rw [hp.reserved] at hfree
    contradiction
  exact ⟨k, clientHost?_eq_some.2 ⟨⟨rfl, rfl, rfl⟩, ⟨hk.ne_zero, hk.ne_last⟩, rfl, hne⟩, hk.free⟩

end Dhcp.Pool
