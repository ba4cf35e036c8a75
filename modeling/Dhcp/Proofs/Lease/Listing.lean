import Mathlib.Data.List.Nodup
import Dhcp.Proofs.Lease.Found
import Dhcp.Proofs.Lease.Invariant

/-!
# Dhcp.Proofs.Lease.Listing

How leases are listed.  A pool lists the leases of clients host by host.  If it is sound, these are
the leases in the slots other than the server's (`Pool.mem_leases`), by ascending address
(`Pool.pairwise_leases`); and so they are what comes of the slots that are taken, in whatever order
these are gone through, once the server's is left out and the leases are sorted by their addresses
(`Pool.mergeSort_eq_leases`).
-/

namespace Dhcp

/-- Addresses with one number are one address. -/
theorem Address.eq_of_ofBigEndian_eq {a b : Address}
    (h : ofBigEndian a.octets = ofBigEndian b.octets) : a = b := by
  have hoctets : a.octets = b.octets := by
    rw [← bigEndian_ofBigEndian a.octets, h, a.length_octets, ← b.length_octets,
      bigEndian_ofBigEndian]
  have hsame : some a = some b := by rw [← ofOctets?_octets a, hoctets, ofOctets?_octets]
  exact Option.some.inj hsame

/-- Within a subnet, addresses are in the order of their hosts. -/
theorem Address.ofBigEndian_withHost_lt {a : Address} {j k : UInt8} (h : j.toNat < k.toNat) :
    ofBigEndian (a.withHost j).octets < ofBigEndian (a.withHost k).octets := by
  simp only [ofBigEndian, octets, withHost, List.reverse_cons, List.reverse_nil,
    List.nil_append, List.cons_append, ofLittleEndian]
  omega

namespace Pool

/-! ## Host by host -/

section
variable {p : Pool} (hp : p.Sound)
include hp

/-- The listed leases are those in the slots of clients. -/
theorem mem_leases {l : Lease} :
    l ∈ p.leases ↔ ∃ k, k ≠ p.server.host ∧ p.get? k = some l := by
  unfold leases
  rw [List.mem_filterMap]
  constructor
  · rintro ⟨k, hk, hl⟩
    rw [List.mem_filter] at hk
    exact ⟨k, of_decide_eq_true hk.2, hl⟩
  · rintro ⟨k, hk, hl⟩
    have hhost : (p.server.withHost k).IsHost := (hp.placed hl).1
    exact ⟨k, List.mem_filter.2 ⟨mem_hosts.2 hhost, decide_eq_true hk⟩, hl⟩

theorem pairwise_leases :
    p.leases.Pairwise fun x y => ofBigEndian x.address.octets < ofBigEndian y.address.octets := by
  unfold leases
  rw [List.pairwise_filterMap]
  refine (pairwise_hosts.filter _).imp ?_
  intro j k hjk x hx y hy
  rw [(hp.placed hx).2, (hp.placed hy).2]
  exact Address.ofBigEndian_withHost_lt hjk

/-- The address of a lease tells the slot that it stands in. -/
theorem Sound.eq_of_address_eq {j k : UInt8} {x y : Lease} (hx : p.get? j = some x)
    (hy : p.get? k = some y) (h : x.address = y.address) : j = k := by
  rw [(hp.placed hx).2, (hp.placed hy).2] at h
  exact congrArg Address.host h

end

/-! ## Collected and sorted -/

/-- The slots that are taken, each with its host. -/
def entries (p : Pool) : List (UInt8 × Lease) :=
  ((List.range 256).map UInt8.ofNat).filterMap fun k => (p.get? k).map fun l => (k, l)

/-- The leases of entries, but for those of one host. -/
def leasesBut (host : UInt8) (es : List (UInt8 × Lease)) : List Lease :=
  (es.filter (·.1 ≠ host)).map (·.2)

theorem mem_entries {p : Pool} {k : UInt8} {l : Lease} :
    (k, l) ∈ p.entries ↔ p.get? k = some l := by
  have hoctet : k ∈ (List.range 256).map UInt8.ofNat :=
    List.mem_map.2 ⟨k.toNat, List.mem_range.2 k.toNat_lt, UInt8.ofNat_toNat⟩
  simp only [entries, List.mem_filterMap, Option.map_eq_some_iff, Prod.mk.injEq]
  constructor
  · rintro ⟨_, -, _, hl, rfl, rfl⟩
    exact hl
  · intro hl
    exact ⟨k, hoctet, l, hl, rfl, rfl⟩

theorem nodup_entries (p : Pool) : p.entries.Nodup := by
  refine List.Nodup.filterMap ?_ (List.Nodup.map_on ?_ List.nodup_range)
  · intro j k e hj hk
    simp only [Option.mem_def, Option.map_eq_some_iff] at hj hk
    obtain ⟨_, -, rfl⟩ := hj
    obtain ⟨_, -, h⟩ := hk
    exact (congrArg Prod.fst h).symm
  · intro m hm n hn h
    rw [← UInt8.toNat_inj, UInt8.toNat_ofNat_of_lt' (List.mem_range.1 hm),
      UInt8.toNat_ofNat_of_lt' (List.mem_range.1 hn)] at h
    exact h

section
variable {p : Pool} (hp : p.Sound)
include hp

theorem mem_leasesBut_entries {l : Lease} :
    l ∈ leasesBut p.server.host p.entries ↔ l ∈ p.leases := by
  rw [mem_leases hp, leasesBut, List.mem_map]
  constructor
  · rintro ⟨⟨k, l⟩, hk, rfl⟩
    obtain ⟨hentry, hne⟩ := List.mem_filter.1 hk
    exact ⟨k, of_decide_eq_true hne, mem_entries.1 hentry⟩
  · rintro ⟨k, hne, hl⟩
    exact ⟨(k, l), List.mem_filter.2 ⟨mem_entries.2 hl, decide_eq_true hne⟩, rfl⟩

/-- No lease comes twice, since it is in one slot only. -/
theorem nodup_leasesBut_entries : (leasesBut p.server.host p.entries).Nodup := by
  refine List.Nodup.map_on ?_ (p.nodup_entries.filter _)
  rintro ⟨j, x⟩ hj ⟨k, y⟩ hk (rfl : x = y)
  have hx := mem_entries.1 (List.mem_filter.1 hj).1
  have hy := mem_entries.1 (List.mem_filter.1 hk).1
  rw [hp.eq_of_address_eq hx hy rfl]

/-- Leases are collected from the slots, in any order, as they are listed, in another one. -/
theorem leasesBut_perm_leases {es : List (UInt8 × Lease)} (h : es.Perm p.entries) :
    (leasesBut p.server.host es).Perm p.leases := by
  have hnodup : p.leases.Nodup := (pairwise_leases hp).imp fun hlt heq => by
    rw [heq] at hlt
    exact Nat.lt_irrefl _ hlt
  have hsame : (leasesBut p.server.host p.entries).Perm p.leases :=
    (List.perm_ext_iff_of_nodup (nodup_leasesBut_entries hp) hnodup).2 fun _ =>
      mem_leasesBut_entries hp
  exact ((h.filter _).map _).trans hsame

/-- **Leases are listed as those of the slots in any order, sorted by address**, but for the
server's. -/
theorem mergeSort_eq_leases {es : List (UInt8 × Lease)} (h : es.Perm p.entries) :
    (leasesBut p.server.host es).mergeSort
        (fun x y => ofBigEndian x.address.octets ≤ ofBigEndian y.address.octets) = p.leases := by
  have hperm := (List.mergeSort_perm _ fun x y : Lease =>
    ofBigEndian x.address.octets ≤ ofBigEndian y.address.octets).trans (leasesBut_perm_leases hp h)
  -- both lists are sorted, and leases with the same address are one lease
  refine List.Perm.eq_of_pairwise ?_ (List.pairwise_mergeSort ?_ ?_ _)
    ((pairwise_leases hp).imp fun hlt => decide_eq_true (Nat.le_of_lt hlt)) hperm
  · intro x y hx hy hle hge
    obtain ⟨j, -, hj⟩ := (mem_leases hp).1 (hperm.mem_iff.1 hx)
    obtain ⟨k, -, hk⟩ := (mem_leases hp).1 hy
    have heq : x.address = y.address := Address.eq_of_ofBigEndian_eq
      (Nat.le_antisymm (of_decide_eq_true hle) (of_decide_eq_true hge))
    rw [hp.eq_of_address_eq hj hk heq, hk] at hj
    exact (Option.some.inj hj).symm
  · intro x y z hxy hyz
    exact decide_eq_true (Nat.le_trans (of_decide_eq_true hxy) (of_decide_eq_true hyz))
  · intro x y
    rw [Bool.or_eq_true, decide_eq_true_iff, decide_eq_true_iff]
    exact Nat.le_total _ _

end

end Pool

end Dhcp
