import Mathlib.Data.List.Nodup
import Dhcp.Proofs.Lease.Granted
import Dhcp.Proofs.Lease.Reservation
import Dhcp.Proofs.Lease.Target
import Dhcp.Proofs.Lease.Unchanged

/-!
# Dhcp.Proofs.Lease.Count

How many addresses are left.  A pool counts the slots that are taken, and looks through the hosts
of its subnet for one that is free.  The two agree in a sound pool: only hosts have leases, so that
the addresses left are the hosts whose slots are free (`Sound.available_eq`), and the slots taken
are the leases of clients and the reservation (`Sound.size_eq_leases`).

A demand is met in one slot, and the number moves with that slot (`Sound.available_meet`).
-/

namespace Dhcp.Pool

/-! ## Slots of hosts -/

/-- Setting one slot moves the number of those taken by that slot alone. -/
theorem size_set (p : Pool) (k : UInt8) (s : Option Lease) :
    (p.set k s).size + (p.get? k).isSome.toNat = p.size + s.isSome.toNat := by
  have hk : k.toNat < p.slots.toList.length := by
    rw [Vector.length_toList]
    exact k.toNat_lt
  have hslot : p.slots.toList[k.toNat] = p.get? k := Vector.getElem_toList hk
  have htaken : (p.get? k).isSome → 0 < p.size := fun h =>
    List.countP_pos_iff.2 ⟨_, List.getElem_mem hk, by rw [hslot, h]⟩
  have hcount : (p.set k s).size =
      p.size - (if (p.get? k).isSome then 1 else 0) + if s.isSome then 1 else 0 := by
    rw [size, set, Vector.toList_set, List.countP_set hk, hslot]
    rfl
  rw [hcount]
  cases hs : (p.get? k).isSome with
  | false => cases s.isSome <;> simp
  | true =>
      have hpos := htaken hs
      cases s.isSome <;> simp <;> omega

/-- The slots are those of the hosts, and one on either side of them. -/
theorem toList_slots (p : Pool) :
    p.slots.toList = p.get? 0 :: (hosts.map p.get? ++ [p.get? 255]) := by
  refine List.ext_getElem (by simp [hosts]) ?_
  intro n hn hn'
  rw [Vector.length_toList] at hn
  have hslot : p.slots.toList[n] = p.get? (UInt8.ofNat n) := by
    simp [get?, Nat.mod_eq_of_lt hn]
  rw [hslot]
  cases n with
  | zero => rfl
  | succ n =>
      rw [List.getElem_cons_succ]
      by_cases hlast : n < 254
      · rw [List.getElem_append_left (by simpa [hosts] using hlast)]
        simp [hosts, Nat.add_comm]
      · obtain rfl : n = 254 := by omega
        rw [List.getElem_append_right (by simp [hosts])]
        simp [hosts]

theorem length_hosts : hosts.length = 254 := by
  rw [hosts, List.length_map, List.length_range']

theorem nodup_hosts : hosts.Nodup :=
  pairwise_hosts.imp fun hlt => UInt8.ne_of_lt (UInt8.lt_iff_toNat_lt.2 hlt)

namespace Sound

variable {p : Pool} (hp : p.Sound)
include hp

/-- The network and the broadcast address have no leases. -/
theorem get?_of_not_mem_hosts {k : UInt8} (hk : k ∉ hosts) : p.get? k = none := by
  rw [Option.eq_none_iff_forall_ne_some]
  intro l hl
  exact hk (mem_hosts.2 (hp.placed hl).1)

theorem size_eq : p.size = hosts.countP fun k => (p.get? k).isSome := by
  have hfirst : p.get? 0 = none := hp.get?_of_not_mem_hosts fun h => (mem_hosts.1 h).1 rfl
  have hlast : p.get? 255 = none := hp.get?_of_not_mem_hosts fun h => (mem_hosts.1 h).2 rfl
  rw [size, toList_slots, hfirst, hlast]
  simp [List.countP_append, List.countP_map, Function.comp_def]

theorem size_le : p.size ≤ 254 := by
  rw [hp.size_eq, ← length_hosts]
  exact List.countP_le_length

/-- **The addresses left are the hosts whose slots are free.** -/
theorem available_eq : p.available = hosts.countP fun k => (p.get? k).isNone := by
  have hparts := List.length_eq_countP_add_countP (fun k => (p.get? k).isSome) (l := hosts)
  have hfree : (hosts.countP fun k => (p.get? k).isNone) =
      hosts.countP fun k => decide ¬ (p.get? k).isSome = true :=
    List.countP_congr fun k _ => by simp
  rw [length_hosts, ← hfree, ← hp.size_eq] at hparts
  rw [available]
  omega

theorem server_mem_hosts : p.server.host ∈ hosts := mem_hosts.2 hp.isHost

/-- **The slots taken are those of the clients' leases and that of the reservation.** -/
theorem size_eq_leases : p.size = p.leases.length + 1 := by
  have hserver : ((hosts.filter fun k => !decide (k ≠ p.server.host)).countP
      fun k => (p.get? k).isSome) = 1 := by
    rw [List.countP_filter, ← List.count_eq_one_of_mem nodup_hosts hp.server_mem_hosts,
      List.count]
    refine List.countP_congr fun k _ => ?_
    by_cases hk : k = p.server.host
    · simp [hk, hp.reserved]
    · simp [hk]
  rw [hp.size_eq, List.countP_eq_countP_filter_add hosts _ fun k => decide (k ≠ p.server.host),
    hserver, leases, List.length_filterMap_eq_countP]

/-- There is no free address just if no address is left. -/
theorem lowestFree?_eq_none_iff : p.lowestFree? = none ↔ p.available = 0 := by
  rw [hp.available_eq, List.countP_eq_zero, lowestFree?_eq_none]
  simp only [mem_hosts, Option.isNone_iff_eq_none, and_imp, ← Option.ne_none_iff_isSome, ne_eq]

/-! ## What moves the number -/

/-- **A demand moves the number of addresses left with the slot that it is met in.** -/
theorem available_meet (now : Instant) {d : Demand} {k : UInt8}
    (hk : p.clientHost? d.address = some k) :
    (d.meet now p).available + (d.slot now (p.get? k)).isSome.toNat =
      p.available + (p.get? k).isSome.toNat := by
  have hsize := p.size_set k (d.slot now (p.get? k))
  rw [← Demand.meet_of_client hk] at hsize
  have hbefore := hp.size_le
  have hafter := (hp.meet now d).size_le
  rw [available, available]
  omega

section
variable {now : Instant} {a : Address} {hw : HardwareAddress}

/-- A request makes a lease where there is none, and takes one address more only then. -/
theorem available_request {term : Span} {l : Lease}
    (h : (p.request now a hw term).1 = some l) :
    (p.request now a hw term).2.available + (p.get? a.host).isNone.toNat = p.available := by
  have hgrant : (Demand.request a hw term).grant now p = some l := h
  obtain ⟨hclient, hslot, -⟩ := Demand.grant_eq_some_iff.1 hgrant
  have hmoved := hp.available_meet now (clientHost?_of_isClientOf hclient)
  rw [hslot] at hmoved
  change (p.request now a hw term).2.available + 1 = p.available + (p.get? a.host).isSome.toNat
    at hmoved
  cases hs : p.get? a.host with
  | none => simpa [hs] using hmoved
  | some old => simpa [hs] using hmoved

/-- A renewal keeps a slot taken or free. -/
theorem available_renew : (p.renew now a hw).2.available = p.available := by
  have hkept : ∀ s, ((Demand.renew a hw).slot now s).isSome = s.isSome := by
    intro s
    cases s with
    | none => rfl
    | some l => by_cases hown : l.hw = hw <;> simp [Demand.slot, hown]
  cases hclient : p.clientHost? a with
  | none => exact congrArg available (Demand.meet_of_not_client (d := .renew a hw) hclient)
  | some k =>
      have hmoved := hp.available_meet now (d := .renew a hw) hclient
      rw [hkept] at hmoved
      exact Nat.add_right_cancel hmoved

/-- A release frees one address if it ends a lease. -/
theorem available_release :
    (p.release a hw).2.available = p.available + (p.release a hw).1.toNat := by
  rw [fst_release, slotOf?]
  cases hclient : p.clientHost? a with
  | none =>
      have hsame : (Demand.release a hw).meet .last p = p := Demand.meet_of_not_client hclient
      exact congrArg available hsame
  | some k =>
      have hmoved := hp.available_meet .last (d := .release a hw) hclient
      change (p.release a hw).2.available + _ = _ at hmoved
      cases hs : p.get? k with
      | none => simpa [hs, Demand.slot] using hmoved
      | some l => by_cases hown : l.hw = hw <;> simpa [hs, Demand.slot, hown] using hmoved

/-- A sweep frees as many addresses as it ends leases. -/
theorem available_sweep : (p.sweep now).available = p.available + p.expiredCount now := by
  have hbefore := hp.size_le
  have hswept := hp.sweep now
  have hfewer : (p.sweep now).size ≤ p.size := by
    rw [hp.size_eq, hswept.size_eq]
    refine List.countP_mono_left fun k _ hk => ?_
    obtain ⟨l, hl⟩ := Option.isSome_iff_exists.1 hk
    rw [get?_of_get?_sweep hl]
    rfl
  rw [available, available, expiredCount]
  omega

/-- Whatever client asks for the lowest free address is given it. -/
theorem request_of_lowestFree? (h : p.lowestFree? = some a) (now : Instant) (hw : HardwareAddress)
    (term : Span) : (p.request now a hw term).1 = some (.new now a hw term) := by
  obtain ⟨k, hk, hfree⟩ := hp.client_of_lowestFree? h
  rw [← host_of_clientHost? hk] at hfree
  exact Demand.grant_request_eq_some.2 ⟨isClientOf_of_clientHost? hk, Or.inl ⟨hfree, rfl⟩⟩

end

end Sound

/-- **A pool knows how many addresses are left and which one is next.**  The addresses that have
no lease are counted as those that are not listed, the one that is found is the lowest of them
and is there to be had, and every operation moves their number by what it answers. -/
theorem available_exact {c : Config} {p : Pool} (hp : p.Reachable c) :
    p.available + p.leases.length = 253 ∧
    (∀ a, p.lowestFree? = some a ↔ ∃ k, p.IsLowestFree k ∧ a = p.server.withHost k) ∧
    (p.lowestFree? = none ↔ p.available = 0) ∧
    (∀ a, p.lowestFree? = some a → ∀ now hw term,
      ∃ l, (p.request now a hw term).1 = some l ∧ l.address = a ∧ l.hw = hw) ∧
    (∀ now a hw term, match (p.request now a hw term).1, p.get? a.host with
      | none, _ | some _, some _ => (p.request now a hw term).2.available = p.available
      | some _, none => (p.request now a hw term).2.available + 1 = p.available) ∧
    (∀ now a hw, (p.renew now a hw).2.available = p.available) ∧
    (∀ a hw, (p.release a hw).2.available =
      if (p.release a hw).1 then p.available + 1 else p.available) ∧
    (∀ now, (p.sweep now).available = p.available + p.expiredCount now) := by
  have hp := Sound.of_reachable hp
  refine ⟨?_, fun a => lowestFree?_eq_some, hp.lowestFree?_eq_none_iff, ?_, ?_,
    fun now a hw => hp.available_renew, ?_, fun now => hp.available_sweep⟩
  · have hsize := hp.size_eq_leases
    have hle := hp.size_le
    rw [available]
    omega
  · intro a ha now hw term
    exact ⟨_, hp.request_of_lowestFree? ha now hw term, rfl, rfl⟩
  · intro now a hw term
    cases hl : (p.request now a hw term).1 with
    | none => exact congrArg available (Demand.meet_of_denied (d := .request a hw term) hl nofun)
    | some l =>
        have hmoved := hp.available_request hl
        cases hs : p.get? a.host with
        | none => simpa [hs] using hmoved
        | some old => simpa [hs] using hmoved
  · intro a hw
    rw [hp.available_release]
    cases (p.release a hw).1 <;> rfl

/-- The address that a client gave back is the next one again, and is there for every client.  If
the other one is given back too, there is one address more. -/
theorem available_exact_givenBack :
    ∃ fresh, new? ⟨192, 168, 4, 1⟩ = some fresh ∧
      let p := fresh.run {} [⟨.clamp 0, .request ⟨192, 168, 4, 2⟩ .empty .zero⟩,
        ⟨.clamp 0, .request ⟨192, 168, 4, 3⟩ .empty .zero⟩,
        ⟨.clamp 0, .release ⟨192, 168, 4, 2⟩ .empty⟩]
      p.available + p.leases.length = 253 ∧ p.lowestFree? = some ⟨192, 168, 4, 2⟩ ∧
        (∃ l, (p.request .last ⟨192, 168, 4, 2⟩ .empty .longest).1 = some l ∧
          l.address = ⟨192, 168, 4, 2⟩ ∧ l.hw = .empty) ∧
        (p.release ⟨192, 168, 4, 3⟩ .empty).2.available = p.available + 1 := by
  have hnew : new? ⟨192, 168, 4, 1⟩ = some _ := rfl
  refine ⟨_, hnew, ?_⟩
  intro p
  have hnext : p.lowestFree? = some ⟨192, 168, 4, 2⟩ := by decide
  obtain ⟨hcount, -, -, hgiven, -, -, hreleased, -⟩ :=
    available_exact ((Reachable.new (c := {}) hnew).run _ : p.Reachable {})
  exact ⟨hcount, hnext, hgiven _ hnext .last .empty .longest, hreleased ⟨192, 168, 4, 3⟩ .empty⟩

end Dhcp.Pool
