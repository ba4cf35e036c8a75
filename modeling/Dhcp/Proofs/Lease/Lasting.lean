import Dhcp.Proofs.Lease.Change
import Dhcp.Proofs.Reply.Answers

/-!
# Dhcp.Proofs.Lease.Lasting

Leases that last a second at least.  The seconds that a client is told must not be zero, or else
no reply is made; they come of what the client asks for, of the configuration, of a lease that was
made before, or of what is left of one, rounded up.  As long as messages ask for whole seconds,
every lease of a pool is made for a second at least (`Config.lasting_answer`), and every message
can be answered (`Config.exists_reply_of_answer`).
-/

namespace Dhcp

namespace Span

theorem ofWord_ne_zero {w : UInt32} : ofWord w ≠ .zero ↔ 1 ≤ w := by
  rw [Ne, Span.ext_iff, nanos_ofWord, UInt32.le_iff_toNat_le]
  change ¬ w.toNat * 1000000000 = 0 ↔ 1 ≤ w.toNat
  omega

theorem ofWord_le_ofWord {v w : UInt32} : ofWord v ≤ ofWord w ↔ v ≤ w := by
  rw [le_def, nanos_ofWord, nanos_ofWord, UInt32.le_iff_toNat_le]
  omega

end Span

namespace Lease

/-- What is left of a lease is told as its seconds, rounded up and one at least. -/
theorem toNat_word_roundUp_remaining (l : Lease) (now : Instant) :
    (l.remaining now).roundUp.word.toNat =
      min (max 1 (((l.remaining now).nanos + 999999999) / 1000000000)) 0xffffffff := by
  have hshort : (l.remaining now).seconds < 0xffffffffffffffff :=
    now.seconds_leftUntil_lt l.expiry
  rw [Span.toNat_word, Span.seconds, Span.nanos_roundUp hshort, Nat.mul_div_cancel _ (by decide)]

/-- However little is left of a lease, a second at least is told. -/
theorem word_roundUp_remaining_ne_zero (l : Lease) (now : Instant) :
    (l.remaining now).roundUp.word ≠ 0 := by
  rw [Ne, ← UInt32.toNat_inj, toNat_word_roundUp_remaining]
  change ¬ min _ _ = 0
  omega

end Lease

/-- Whether a message asks for no part of a second. -/
def Message.AsksWholeSeconds (m : Message) : Prop :=
  ∀ d, m.leaseTime? = some d → ∃ seconds, d = .ofWord seconds

/-! ## Pools -/

/-- Whether every lease of a pool was made for a second at least. -/
def Pool.Lasting (p : Pool) : Prop := ∀ k l, p.get? k = some l → l.term.word ≠ 0

namespace Demand

/-- Whether the lease that a demand asks for lasts a second at least. -/
def Lasting : Demand → Prop
  | request _ _ term => term.word ≠ 0
  | renew .. | release .. => True

/-- A lease keeps the time that it was made for. -/
theorem word_of_slot {now : Instant} {d : Demand} {s : Option Lease} {l : Lease}
    (hd : d.Lasting) (hs : ∀ l, s = some l → l.term.word ≠ 0) (h : d.slot now s = some l) :
    l.term.word ≠ 0 := by
  cases s with
  | none =>
      cases d with
      | request a hw term =>
          cases h
          exact hd
      | renew | release => contradiction
  | some old =>
      have hold := hs old rfl
      cases d <;> simp only [slot] at h <;> split at h <;> cases h <;> exact hold

end Demand

namespace Pool.Lasting

variable {p : Pool} (hp : p.Lasting)
include hp

theorem meet (now : Instant) {d : Demand} (hd : d.Lasting) : (d.meet now p).Lasting := by
  intro k l hl
  rw [Demand.get?_meet] at hl
  split at hl
  · exact Demand.word_of_slot hd (hp k) hl
  · exact hp k l hl

theorem sweep (now : Instant) : (p.sweep now).Lasting :=
  fun k l hl => hp k l (get?_of_get?_sweep hl)

end Pool.Lasting

/-- A new pool holds the reservation only, which lasts longest. -/
theorem Pool.lasting_of_new? {server : Address} {p : Pool} (h : new? server = some p) :
    p.Lasting := by
  intro k l hl
  rw [get?_of_new? h] at hl
  split at hl
  · cases hl
    change Span.longest.word ≠ 0
    decide
  · contradiction

/-! ## Messages -/

namespace Config

/-- Whether a client is given so many seconds: those that it asks for, if they are one at least and
the greatest at most, and the usual ones otherwise. -/
def Gives (c : Config) (m : Message) (seconds : UInt32) : Prop :=
  (m.leaseTime? = some (.ofWord seconds) ∧ 1 ≤ seconds ∧ seconds ≤ c.maxLeaseSeconds) ∨
    (seconds = c.leaseSeconds ∧
      ∀ asked, m.leaseTime? = some (.ofWord asked) → ¬ (1 ≤ asked ∧ asked ≤ c.maxLeaseSeconds))

variable {c : Config}

/-- The time that a client is given is one of whole seconds. -/
theorem exists_negotiate {m : Message} (hm : m.AsksWholeSeconds) :
    ∃ seconds, c.negotiate m = .ofWord seconds ∧ c.Gives m seconds := by
  unfold negotiate Gives
  cases hd : m.leaseTime? with
  | none => exact ⟨c.leaseSeconds, rfl, Or.inr ⟨rfl, nofun⟩⟩
  | some d =>
      obtain ⟨asked, rfl⟩ := hm d hd
      simp only [maxTerm, Span.ofWord_ne_zero, Span.ofWord_le_ofWord]
      by_cases hgiven : 1 ≤ asked ∧ asked ≤ c.maxLeaseSeconds
      · rw [if_pos hgiven]
        exact ⟨asked, rfl, Or.inl ⟨rfl, hgiven⟩⟩
      · rw [if_neg hgiven]
        refine ⟨c.leaseSeconds, rfl, Or.inr ⟨rfl, ?_⟩⟩
        intro other hother
        have hsame := congrArg Span.word (Option.some.inj hother)
        rw [Span.word_ofWord, Span.word_ofWord] at hsame
        rwa [← hsame]

variable (hc : c.leaseSeconds ≠ 0)
include hc

/-- The time that a client is given lasts a second at least. -/
theorem word_negotiate_ne_zero {m : Message} (hm : m.AsksWholeSeconds) :
    (c.negotiate m).word ≠ 0 := by
  obtain ⟨seconds, hseconds, ⟨-, hone, -⟩ | ⟨rfl, -⟩⟩ := c.exists_negotiate hm
  · rw [hseconds, Span.word_ofWord]
    rintro rfl
    contradiction
  · rwa [hseconds, Span.word_ofWord]

theorem lasting_of_requestDemand? {m : Message} (hm : m.AsksWholeSeconds) {d : Demand}
    (h : c.requestDemand? m = some d) : d.Lasting := by
  obtain ⟨a, -, rfl⟩ | rfl := requestDemand?_cases h
  · exact word_negotiate_ne_zero hc hm
  · trivial

theorem lasting_of_demand? {m : Message} (hm : m.AsksWholeSeconds) {d : Demand}
    (h : c.demand? m = some d) : d.Lasting := by
  obtain ⟨-, ⟨-, hd⟩ | ⟨-, rfl⟩⟩ := demand?_cases h
  · exact lasting_of_requestDemand? hc hm hd
  · trivial

/-- A message leaves no lease in a pool that lasts less than a second. -/
theorem lasting_answer {p : Pool} (hp : p.Lasting) (now : Instant) {m : Message}
    (hm : m.AsksWholeSeconds) : (c.answer now p m).pool.Lasting := by
  rw [answer_pool]
  cases hd : c.demand? m with
  | none => exact hp
  | some d => exact hp.meet now (lasting_of_demand? hc hm hd)

/-- The time that is offered lasts a second at least, too, however little is left of the lease
that the client has. -/
theorem word_offerFor?_ne_zero {now : Instant} {p : Pool} {m : Message} (hm : m.AsksWholeSeconds)
    {a : Address} {term : Span} (h : c.offerFor? now p m = some (a, term)) : term.word ≠ 0 := by
  obtain ⟨q, l, -, -, -, rfl⟩ | ⟨-, rfl⟩ := offerFor?_cases h
  · exact l.word_roundUp_remaining_ne_zero now
  · exact word_negotiate_ne_zero hc hm

theorem exists_reply_of_answerDiscover (now : Instant) (p : Pool) {m : Message}
    (hm : m.AsksWholeSeconds) : ∃ r, (c.answerDiscover now p m).reply = .ok r := by
  unfold answerDiscover
  split
  · exact ⟨_, rfl⟩
  · cases ho : c.offerFor? now p m with
    | none => exact ⟨_, rfl⟩
    | some offer =>
        obtain ⟨a, term⟩ := offer
        obtain ⟨r, hr⟩ : ∃ r, c.responder.offer m a term c.extras = .ok r :=
          Responder.exists_reply (Or.inr (Or.inr (word_offerFor?_ne_zero hc hm ho)))
        simp only [hr]
        exact ⟨_, rfl⟩

theorem exists_reply_of_answerRequest (now : Instant) {p : Pool} (hp : p.Lasting) {m : Message}
    (hm : m.AsksWholeSeconds) : ∃ r, (c.answerRequest now p m).reply = .ok r := by
  unfold answerRequest
  cases hother : m.serverIdentifier?.filter (· ≠ c.server) with
  | some other => exact ⟨_, rfl⟩
  | none =>
      simp only [confirm]
      cases hl : (c.leaseFor now p m).1 with
      | none =>
          obtain ⟨r, hr⟩ : ∃ r, c.responder.nak m c.extras = .ok r :=
            Responder.exists_reply (Or.inl rfl)
          simp only [hr]
          exact ⟨_, rfl⟩
      | some l =>
          have hterm : l.term.word ≠ 0 := by
            obtain ⟨d, hd, hgrant⟩ := grant_of_leaseFor hl
            -- the lease stands in the pool once the demand is met
            obtain ⟨k, -, hget, -⟩ := Demand.grant_eq_some hgrant
            exact hp.meet now (lasting_of_requestDemand? hc hm hd) k l hget
          obtain ⟨r, hr⟩ : ∃ r, c.responder.ack m l.address l.term c.extras = .ok r :=
            Responder.exists_reply (Or.inr (Or.inr hterm))
          simp only [hr]
          exact ⟨_, rfl⟩

/-- **Every message is answered**, if only by silence. -/
theorem exists_reply_of_answer (now : Instant) {p : Pool} (hp : p.Lasting) {m : Message}
    (hm : m.AsksWholeSeconds) : ∃ r, (c.answer now p m).reply = .ok r := by
  obtain ⟨-, -, hdiscover⟩ | ⟨-, -, hrequest⟩ | hsilent := c.reply_answer_cases now p m
  · rw [hdiscover]
    exact exists_reply_of_answerDiscover hc now p hm
  · rw [hrequest]
    exact exists_reply_of_answerRequest hc now hp hm
  · exact ⟨none, hsilent⟩

end Config

end Dhcp
