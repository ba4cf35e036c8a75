import Dhcp.Proofs.Lease.Lasting

/-!
# Dhcp.Proofs.Lease.Maximum

The greatest time that a lease can be made for.  A lease is *within* a number of seconds if it was
made for whole seconds, one at least and that many at most, and if no more time is left of it than
it was made for.  The first never changes; the second holds as long as the clock is not put back,
which is why it is told for a reading of the clock (`Lease.Within.mono`).

Messages that ask for whole seconds keep the leases of clients within the greatest time of their
server (`Config.within_answer`), and what is left of one, rounded up, is within it, too
(`Config.within_of_offerFor?`).
-/

namespace Dhcp

namespace Span

/-- Whether a span is a whole number of seconds, one at least and `most` at most. -/
def Within (d : Span) (most : UInt32) : Prop :=
  ∃ seconds : UInt32, d = .ofWord seconds ∧ 1 ≤ seconds ∧ seconds ≤ most

theorem within_ofWord {seconds most : UInt32} (hne : seconds ≠ 0) (hmost : seconds ≤ most) :
    (ofWord seconds).Within most := by
  refine ⟨seconds, rfl, ?_, hmost⟩
  rw [UInt32.le_iff_toNat_le]
  exact Nat.pos_of_ne_zero fun hzero => hne (UInt32.toNat_inj.1 hzero)

/-- Such a span is told as it is. -/
theorem Within.ofWord_word {d : Span} {most : UInt32} (h : d.Within most) : ofWord d.word = d := by
  obtain ⟨seconds, rfl, -⟩ := h
  rw [word_ofWord]

/-- Rounded up, what is left of whole seconds is no longer than they are. -/
theorem Within.roundUp {d e : Span} {most : UInt32} (he : e.Within most) (hd : d ≤ e) :
    d.roundUp.Within most := by
  obtain ⟨seconds, rfl, hone, hmost⟩ := he
  rw [le_def, nanos_ofWord] at hd
  rw [UInt32.le_iff_toNat_le] at hone hmost
  change 1 ≤ seconds.toNat at hone
  have hlt : seconds.toNat < 4294967296 := seconds.toNat_lt
  have hshort : d.seconds < 0xffffffffffffffff := by
    rw [Span.seconds]
    omega
  have hup := nanos_roundUp hshort
  generalize hn : max 1 ((d.nanos + 999999999) / 1000000000) = n at hup
  -- no more seconds than were given, so that they fit a word
  have hle : n ≤ seconds.toNat := by omega
  have hword : n < UInt32.size := Nat.lt_of_le_of_lt hle seconds.toNat_lt
  have hsame : d.roundUp = ofWord (UInt32.ofNat n) := by
    ext1
    rw [hup, nanos_ofWord, UInt32.toNat_ofNat_of_lt' hword]
  refine ⟨UInt32.ofNat n, hsame, ?_, ?_⟩
  · rw [UInt32.le_iff_toNat_le, UInt32.toNat_ofNat_of_lt' hword, ← hn]
    exact Nat.le_max_left ..
  · rw [UInt32.le_iff_toNat_le, UInt32.toNat_ofNat_of_lt' hword]
    exact Nat.le_trans hle hmost

end Span

/-! ## Leases -/

/-- Whether a lease was made for whole seconds, one at least and `most` at most, and no more than
these are left of it. -/
structure Lease.Within (l : Lease) (most : UInt32) (now : Instant) : Prop where
  term : l.term.Within most
  remaining : l.remaining now ≤ l.term

namespace Lease

variable {l : Lease} {most : UInt32} {t now : Instant}

/-- Less is left of a lease as time passes. -/
theorem Within.mono (h : l.Within most t) (hnow : t ≤ now) : l.Within most now := by
  refine ⟨h.term, ?_⟩
  have hleft := h.remaining
  rw [Span.le_def, Lease.remaining, Instant.leftUntil] at hleft ⊢
  rw [Instant.le_def] at hnow
  dsimp only at hleft ⊢
  omega

/-- A lease that was just made or extended has its time left. -/
theorem within_of_expiry (hterm : l.term.Within most) (hexpiry : l.expiry = now.after l.term) :
    l.Within most now := by
  refine ⟨hterm, ?_⟩
  rw [Lease.remaining, hexpiry]
  exact Instant.leftUntil_after_le (Int.le_refl now.nanos) l.term

end Lease

/-! ## Pools -/

/-- Whether all leases of clients are within a time.  The reservation of the server's own address
is none of them. -/
def Pool.Within (p : Pool) (most : UInt32) (now : Instant) : Prop :=
  ∀ k l, k ≠ p.server.host → p.get? k = some l → l.Within most now

namespace Demand

/-- Whether the lease that a demand asks for is made for whole seconds within a time. -/
def Within (most : UInt32) : Demand → Prop
  | request _ _ term => term.Within most
  | renew .. | release .. => True

/-- A lease that a demand makes or extends has its time left, and any other is as it was. -/
theorem within_of_slot {most : UInt32} {now : Instant} {d : Demand} {s : Option Lease} {l : Lease}
    (hd : d.Within most) (hs : ∀ l, s = some l → l.Within most now) (h : d.slot now s = some l) :
    l.Within most now := by
  cases s with
  | none =>
      cases d with
      | request a hw term =>
          cases h
          exact Lease.within_of_expiry hd rfl
      | renew | release => contradiction
  | some old =>
      have hold := hs old rfl
      have hrenew : (old.renew now).Within most now := Lease.within_of_expiry hold.term rfl
      cases d <;> simp only [slot] at h <;> split at h <;> cases h <;> assumption

end Demand

namespace Pool.Within

variable {p : Pool} {most : UInt32} {t now : Instant}

theorem mono (hp : p.Within most t) (hnow : t ≤ now) : p.Within most now :=
  fun k l hk hl => (hp k l hk hl).mono hnow

/-- A new pool has no leases of clients. -/
theorem of_new? {server : Address} (h : new? server = some p) : p.Within most now := by
  intro k l hk hl
  rw [get?_of_new? h, if_neg (server_of_new? h ▸ hk.symm)] at hl
  contradiction

theorem meet (hp : p.Within most now) {d : Demand} (hd : d.Within most) :
    (d.meet now p).Within most now := by
  intro k l hk hl
  rw [Demand.server_meet] at hk
  rw [Demand.get?_meet] at hl
  split at hl
  · exact Demand.within_of_slot hd (fun old => hp k old hk) hl
  · exact hp k l hk hl

theorem sweep (hp : p.Within most now) : (p.sweep now).Within most now :=
  fun k l hk hl => hp k l hk (get?_of_get?_sweep hl)

end Pool.Within

/-! ## Messages -/

namespace Config

variable {c : Config} (hc : c.Valid)
include hc

/-- The time that a client is given is within the greatest, whether it asks for it or not. -/
theorem within_negotiate {m : Message} (hm : m.AsksWholeSeconds) :
    (c.negotiate m).Within c.maxLeaseSeconds := by
  obtain ⟨-, -, hlease, hmost, -⟩ := valid_iff.1 hc
  obtain ⟨seconds, hseconds, ⟨-, hgiven⟩ | ⟨rfl, -⟩⟩ := c.exists_negotiate hm
  · exact ⟨seconds, hseconds, hgiven⟩
  · rw [hseconds]
    exact Span.within_ofWord hlease hmost

theorem within_of_demand? {m : Message} (hm : m.AsksWholeSeconds) {d : Demand}
    (h : c.demand? m = some d) : d.Within c.maxLeaseSeconds := by
  cases d with
  | request a hw term =>
      rw [negotiate_of_demand? h]
      exact within_negotiate hc hm
  | renew | release => trivial

/-- **A message keeps the leases of clients within the greatest time.** -/
theorem within_answer {p : Pool} {now : Instant} (hp : p.Within c.maxLeaseSeconds now)
    {m : Message} (hm : m.AsksWholeSeconds) :
    (c.answer now p m).pool.Within c.maxLeaseSeconds now := by
  rw [answer_pool]
  cases hd : c.demand? m with
  | none => exact hp
  | some d => exact hp.meet (within_of_demand? hc hm hd)

/-- The time that is offered is within the greatest, too, since no more is left of a lease that the
client has than it was made for. -/
theorem within_of_offerFor? {p : Pool} {now : Instant} (hp : p.Within c.maxLeaseSeconds now)
    {m : Message} (hm : m.AsksWholeSeconds) {a : Address} {term : Span}
    (h : c.offerFor? now p m = some (a, term)) : term.Within c.maxLeaseSeconds := by
  obtain ⟨q, l, -, hl, -, rfl⟩ | ⟨-, rfl⟩ := offerFor?_cases h
  · obtain ⟨k, hk, hget, -⟩ := Pool.leaseOf?_eq_some.1 hl
    have hwithin := hp k l (Pool.ne_server_of_clientHost? hk) hget
    exact hwithin.term.roundUp hwithin.remaining
  · exact within_negotiate hc hm

/-- An OFFER tells a time within the greatest. -/
theorem leaseTime?_of_offer {p : Pool} {now : Instant} (hp : p.Within c.maxLeaseSeconds now)
    {m r : Message} (hm : m.AsksWholeSeconds) (h : (c.answer now p m).reply = .ok (some r))
    (hoffer : r.kind? = some .offer) :
    ∃ term, r.leaseTime? = some term ∧ term.Within c.maxLeaseSeconds := by
  cases answered_of_reply h with
  | offered a term _ hkind _ ho hr =>
      have hterm := within_of_offerFor? hc hp hm ho
      have htime := Responder.leaseTime?_of_reply hr nofun (hkind ▸ nofun)
      rw [hterm.ofWord_word] at htime
      exact ⟨term, htime, hterm⟩
  | granted _ _ _ _ _ _ _ hr =>
      rw [Responder.kind?_of_reply hr] at hoffer
      contradiction
  | refused _ _ _ hr =>
      rw [Responder.kind?_of_reply hr] at hoffer
      contradiction

/-- An ACK tells the time of the lease of its address, which is within the greatest. -/
theorem leaseTime?_of_ack {p : Pool} {now : Instant} (hsound : p.Sound)
    (hp : p.Within c.maxLeaseSeconds now) {m r : Message} (hm : m.AsksWholeSeconds)
    (h : (c.answer now p m).reply = .ok (some r)) (hack : r.kind? = some .ack) :
    ∃ k l, (c.answer now p m).pool.clientHost? r.yiaddr = some k ∧
      (c.answer now p m).pool.get? k = some l ∧ l.address = r.yiaddr ∧ l.hw = m.hw ∧
      l.expiry = now.after l.term ∧ r.leaseTime? = some l.term ∧
      l.term.Within c.maxLeaseSeconds := by
  obtain ⟨k, l, hk, hget, haddress, hw, hexpiry, htime⟩ := lease_of_ack hsound h hack
  have hne := (Pool.ne_server_of_clientHost? hk)
  have hterm := (within_answer hc hp hm k l hne hget).term
  rw [hterm.ofWord_word] at htime
  exact ⟨k, l, hk, hget, haddress, hw, hexpiry, htime, hterm⟩

end Config

end Dhcp
