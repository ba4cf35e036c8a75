import Dhcp.Proofs.Lease.Count

/-!
# Dhcp.Proofs.Lease.Sweep

What a sweep ends and what it leaves.  It ends the clients' leases that have expired, no others
(`get?_sweep_eq_some`), so that a second sweep finds nothing to end (`sweep_sweep`) and nobody sees
a difference: a lease that was ended would not have been found either (`leaseOf?_sweep`).

As long as the clock is not put back behind a sweep, every lease found later holds at the time of
that sweep, for those that are made and extended afterwards last from then on (`AllHold.run`).
-/

namespace Dhcp.Pool

variable {p : Pool} {t now : Instant} {k : UInt8} {l : Lease}

/-! ## One sweep -/

/-- **A sweep leaves the reservation and the leases that have not expired.** -/
theorem get?_sweep_eq_some :
    (p.sweep t).get? k = some l ↔ p.get? k = some l ∧ (k = p.server.host ∨ t ≤ l.expiry) := by
  rw [get?_sweep]
  by_cases hk : k = p.server.host
  · simp [hk]
  · simp [hk, Option.filter_eq_some_iff, Lease.expired_eq_false]

/-- What two sweeps leave is what the later one leaves. -/
theorem sweep_sweep (h : t ≤ now) : (p.sweep t).sweep now = p.sweep now := by
  refine ext rfl fun k => Option.ext fun l => ?_
  simp only [get?_sweep_eq_some]
  change (_ ∧ (k = p.server.host ∨ _)) ∧ (k = p.server.host ∨ _) ↔ _
  constructor
  · rintro ⟨⟨hl, -⟩, hnow⟩
    exact ⟨hl, hnow⟩
  · rintro ⟨hl, hk | hnow⟩
    · exact ⟨⟨hl, Or.inl hk⟩, Or.inl hk⟩
    · exact ⟨⟨hl, Or.inr (Int.le_trans h hnow)⟩, Or.inr hnow⟩

theorem leases_sweep (p : Pool) (t : Instant) :
    (p.sweep t).leases = p.leases.filter fun l => t ≤ l.expiry := by
  rw [leases, leases, List.filter_filterMap]
  refine List.filterMap_congr fun k hk => Option.ext fun l => ?_
  have hne : k ≠ p.server.host := of_decide_eq_true (List.mem_filter.1 hk).2
  rw [get?_sweep_eq_some, or_iff_right hne, Option.filter_eq_some_iff, decide_eq_true_eq]

/-- A sweep counts the leases that it ends. -/
theorem Sound.expiredCount_eq (hp : p.Sound) (t : Instant) :
    p.expiredCount t = p.leases.countP fun l => l.expiry < t := by
  have hswept := hp.sweep t
  have hparts := List.length_eq_countP_add_countP (fun l => decide (t ≤ l.expiry)) (l := p.leases)
  have hended : (p.leases.countP fun l => decide (l.expiry < t)) =
      p.leases.countP fun l => decide ¬ decide (t ≤ l.expiry) = true :=
    List.countP_congr fun l _ => by simp [Instant.le_def, Instant.lt_def]
  rw [expiredCount, hp.size_eq_leases, hswept.size_eq_leases, leases_sweep,
    ← List.countP_eq_length_filter, hended]
  omega

/-- **Nobody sees a sweep**: what it ends has expired for whoever looks afterwards. -/
theorem leaseOf?_sweep (h : t ≤ now) (a : Address) (hw : HardwareAddress) :
    (p.sweep t).leaseOf? now a hw = p.leaseOf? now a hw := by
  refine Option.ext fun l => ?_
  rw [leaseOf?_eq_some, leaseOf?_eq_some]
  refine exists_congr fun k => and_congr_right fun hk => ?_
  rw [get?_sweep_eq_some]
  constructor
  · rintro ⟨⟨hl, -⟩, hown, hnow⟩
    exact ⟨hl, hown, hnow⟩
  · rintro ⟨hl, hown, hnow⟩
    exact ⟨⟨hl, Or.inr (Int.le_trans h hnow)⟩, hown, hnow⟩

/-! ## After a sweep -/

/-- Whether all leases of clients hold at an instant. -/
def AllHold (p : Pool) (t : Instant) : Prop :=
  ∀ k l, k ≠ p.server.host → p.get? k = some l → t ≤ l.expiry

theorem allHold_sweep (p : Pool) (t : Instant) : (p.sweep t).AllHold t := by
  intro k l hk hl
  obtain ⟨-, hserver | hholds⟩ := get?_sweep_eq_some.1 hl
  · exact absurd hserver hk
  · exact hholds

/-- An event that is no earlier leaves no lease that ends before the instant: what it makes or
extends lasts from then on. -/
theorem AllHold.apply (hp : p.AllHold t) (c : Config) {o : Occurrence} (h : t ≤ o.now) :
    (p.apply c o).AllHold t := by
  intro k l hk hl
  rw [server_apply] at hk
  generalize hs : p.get? k = s
  cases change_of_get? hs hl with
  | kept => exact hp k l hk hs
  | granted term => exact Int.le_trans h (o.now.le_after term)
  | extended => exact Int.le_trans h (o.now.le_after _)

theorem AllHold.run (hp : p.AllHold t) (c : Config) {h : History} (hh : ∀ o ∈ h, t ≤ o.now) :
    (p.run c h).AllHold t := by
  refine run_induction (I := fun q => q.AllHold t) hp ?_
  intro q o ho hq
  exact hq.apply c (hh o ho)

/-- **A sweep ends what has expired and nothing else**, a second one has nothing to end, and nobody
who looks for a lease from then on sees a difference.  While the clock is not put back, no lease
that is found after a sweep has expired before it. -/
theorem sweep_exact {c : Config} {p : Pool} (hp : p.Reachable c) (t : Instant) :
    ((p.sweep t).server = p.server ∧
      ∀ k l, (p.sweep t).get? k = some l ↔
        p.get? k = some l ∧ (k = p.server.host ∨ t ≤ l.expiry)) ∧
    (p.sweep t).leases = p.leases.filter (fun l => t ≤ l.expiry) ∧
    p.expiredCount t = p.leases.countP (fun l => l.expiry < t) ∧
    ((p.sweep t).sweep t = p.sweep t ∧ (p.sweep t).expiredCount t = 0) ∧
    (∀ now, t ≤ now → ∀ a hw, (p.sweep t).leaseOf? now a hw = p.leaseOf? now a hw ∧
      (p.sweep t).isLeasedTo now a hw = p.isLeasedTo now a hw) ∧
    (∀ h, History.Chronological (⟨t, .sweep⟩ :: h) →
      ∀ k l, k ≠ p.server.host → (p.run c (⟨t, .sweep⟩ :: h)).get? k = some l → t ≤ l.expiry) := by
  have hp := Sound.of_reachable hp
  have htwice : (p.sweep t).sweep t = p.sweep t := sweep_sweep (Int.le_refl _)
  refine ⟨⟨rfl, fun k l => get?_sweep_eq_some⟩, p.leases_sweep t, hp.expiredCount_eq t,
    ⟨htwice, ?_⟩, ?_, ?_⟩
  · rw [expiredCount, htwice, Nat.sub_self]
  · intro now hnow a hw
    have hsame := leaseOf?_sweep (p := p) hnow a hw
    exact ⟨hsame, congrArg Option.isSome hsame⟩
  · intro h hh k l hk hl
    obtain ⟨hlater, -⟩ := List.pairwise_cons.1 hh
    have hhold : (p.run c (⟨t, .sweep⟩ :: h)).AllHold t := (p.allHold_sweep t).run c hlater
    exact hhold k l (by rwa [server_run]) hl

/-- A lease that ends at the instant of a sweep is not ended by it, one that ends before is, and a
renewal that follows leads beyond that instant. -/
theorem sweep_exact_atExpiry :
    ∃ fresh, new? ⟨192, 168, 4, 1⟩ = some fresh ∧
      let p := fresh.run {} [⟨.clamp 0, .request ⟨192, 168, 4, 2⟩ .empty .zero⟩,
        ⟨.clamp 0, .request ⟨192, 168, 4, 3⟩ .empty (.ofSeconds 1)⟩]
      let t : Instant := .clamp 1000000000
      (∃ l, (p.sweep t).get? 3 = some l ∧ l.expiry = t) ∧ (p.sweep t).get? 2 = none ∧
        (p.sweep t).sweep t = p.sweep t ∧
        ∀ k l, k ≠ 1 →
          (p.run {} [⟨t, .sweep⟩, ⟨.last, .renew ⟨192, 168, 4, 3⟩ .empty⟩]).get? k = some l →
            t ≤ l.expiry := by
  have hnew : new? ⟨192, 168, 4, 1⟩ = some _ := rfl
  refine ⟨_, hnew, ?_⟩
  intro p t
  obtain ⟨⟨-, hget⟩, -, -, ⟨htwice, -⟩, -, hhold⟩ :=
    sweep_exact ((Reachable.new (c := {}) hnew).run _ : p.Reachable {}) t
  refine ⟨⟨_, (hget 3 _).2 ⟨rfl, Or.inr (by decide)⟩, by decide⟩, ?_, htwice, ?_⟩
  · have hbefore : p.get? 2 = some (.new (.clamp 0) ⟨192, 168, 4, 2⟩ .empty .zero) := rfl
    rw [Option.eq_none_iff_forall_ne_some]
    intro l hl
    obtain ⟨hl, hkept⟩ := (hget 2 l).1 hl
    cases hbefore.symm.trans hl
    exact absurd hkept (by decide)
  · exact hhold [⟨.last, .renew ⟨192, 168, 4, 3⟩ .empty⟩] (by unfold History.Chronological; decide)

end Dhcp.Pool
