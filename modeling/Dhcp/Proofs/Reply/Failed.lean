import Dhcp.Proofs.Lease.Granted
import Dhcp.Proofs.Lease.Promise
import Dhcp.Proofs.Lease.Target

/-!
# Dhcp.Proofs.Reply.Failed

What a message leaves behind that cannot be answered.  A reply fails only for a lease of less than
a second (`Responder.reply_eq_error`).  An OFFER of one changes nothing.  But a REQUEST has made or
extended the lease before the ACK of it is made, and the lease stays although its client is not
told of it (`Config.failed_changes_pool`).  It is all that such a message changes
(`Config.pool_of_failure`).
-/

namespace Dhcp.Config

variable {c : Config} {now : Instant} {p : Pool} {m : Message} {e : ReplyError}

theorem not_confirm_eq_error_none : (c.confirm m none p).reply ≠ .error e := by
  obtain ⟨r, hr⟩ : ∃ r, c.responder.nak m c.extras = .ok r := Responder.exists_reply (Or.inl rfl)
  simp [confirm, hr, Except.map]

/-- Only the ACK of a lease of less than a second cannot be made. -/
theorem failed_of_confirm {lease : Option Lease} (h : (c.confirm m lease p).reply = .error e) :
    ∃ l, lease = some l ∧ l.term.seconds = 0 := by
  cases lease with
  | none => exact absurd h not_confirm_eq_error_none
  | some l =>
      refine ⟨l, rfl, ?_⟩
      unfold confirm at h
      cases hr : c.responder.ack m l.address l.term c.extras with
      | ok r => simp [hr] at h
      | error e' => exact (Responder.reply_eq_error.1 hr).2.2

/-- What fails is a DISCOVER, or a REQUEST for this server that leads to a lease of less than a
second. -/
theorem failed_cases (h : (c.answer now p m).reply = .error e) :
    (m.op = .request ∧ m.kind? = some .discover) ∨
      m.IsRequestTo c.server ∧ ∃ l, (c.leaseFor now p m).1 = some l ∧ l.term.seconds = 0 := by
  obtain ⟨hop, hk, -⟩ | ⟨hop, hk, hrequest⟩ | hsilent := c.reply_answer_cases now p m
  · exact Or.inl ⟨hop, hk⟩
  · rw [hrequest, answerRequest] at h
    cases hother : m.serverIdentifier?.filter (· ≠ c.server) with
    | some other =>
        rw [hother] at h
        contradiction
    | none =>
        rw [hother] at h
        exact Or.inr ⟨⟨hop, hk, filter_serverIdentifier?_eq_none.1 hother⟩, failed_of_confirm h⟩
  · rw [hsilent] at h
    contradiction

/-- **What a message leaves behind that cannot be answered.**  A DISCOVER leaves the pool as it was.
A REQUEST leaves one lease behind, which is its client's and lasts less than a second: it was made
for the client, or it is the one that the client had and was extended. -/
theorem pool_of_failure (h : (c.answer now p m).reply = .error e) :
    (m.kind? = some .discover ∧ (c.answer now p m).pool = p) ∨
    (m.kind? = some .request ∧ ∃ a l, c.target? m = some a ∧ p.server.IsClientOf a ∧
      (c.answer now p m).pool = p.set a.host (some l) ∧ l.hw = m.hw ∧ l.term.seconds = 0 ∧
      ((p.get? a.host = none ∧ l = .new now a m.hw (c.negotiate m)) ∨
        ∃ old, p.get? a.host = some old ∧ old.hw = m.hw ∧ l = old.renew now)) := by
  obtain ⟨hop, hk⟩ | ⟨hthis, l, hl, hseconds⟩ := failed_cases h
  · refine Or.inl ⟨hk, ?_⟩
    simp only [answer, hop, answerKind, hk, answerDiscover_pool]
  · obtain ⟨d, hd, hgrant⟩ := grant_of_leaseFor hl
    have hdemand : c.demand? m = some d := (demand?_of_isRequestTo hthis).trans hd
    have hpool : (c.answer now p m).pool = p.set d.address.host (some l) := by
      rw [answer_pool, hdemand, Option.elim_some, Demand.meet_of_granted hgrant]
    obtain ⟨-, -, -, hown, -⟩ := Demand.grant_eq_some hgrant
    refine Or.inr ⟨hthis.kind, d.address, l, target?_of_demand? hdemand,
      (Demand.grant_eq_some_iff.1 hgrant).1, hpool, hown.trans (hw_of_demand? hdemand), hseconds,
      ?_⟩
    obtain ⟨a, -, rfl⟩ | rfl := requestDemand?_cases hd
    · exact (Demand.grant_request_eq_some.1 hgrant).2
    · exact Or.inr (Demand.grant_renew_eq_some.1 hgrant).2

/-- A client was leased an address for half a second, which no message asks for.  A tenth of a
second later its REQUEST for the address fails, and half a second from then is left of the lease. -/
theorem pool_of_failure_halfSecond :
    ∃ p, p.Reachable {} ∧
      (answer {} (.clamp 100000000) p (.asking ⟨192, 168, 4, 2⟩ (.ofOctets [1]))).reply =
        .error .zeroLease ∧
      ∃ old l, p.get? 2 = some old ∧ old.expiry = .clamp 500000000 ∧
        (answer {} (.clamp 100000000) p (.asking ⟨192, 168, 4, 2⟩ (.ofOctets [1]))).pool =
          p.set 2 (some l) ∧
        l.hw = .ofOctets [1] ∧ l.term.seconds = 0 ∧ l.expiry = .clamp 600000000 := by
  obtain ⟨fresh, hnew, hfailed, hold⟩ : ∃ fresh, Pool.new? ⟨192, 168, 4, 1⟩ = some fresh ∧
      (answer {} (.clamp 100000000) (fresh.run {} [⟨.clamp 0,
        .request ⟨192, 168, 4, 2⟩ (.ofOctets [1]) ⟨500000000, by decide⟩⟩])
          (.asking ⟨192, 168, 4, 2⟩ (.ofOctets [1]))).reply = .error .zeroLease ∧
      (fresh.run {} [⟨.clamp 0,
        .request ⟨192, 168, 4, 2⟩ (.ofOctets [1]) ⟨500000000, by decide⟩⟩]).get? 2 =
          some (.new (.clamp 0) ⟨192, 168, 4, 2⟩ (.ofOctets [1]) ⟨500000000, by decide⟩) :=
    ⟨_, rfl, rfl, rfl⟩
  refine ⟨_, (Pool.Reachable.new hnew).run _, hfailed, ?_⟩
  obtain ⟨hdiscover, -⟩ | ⟨-, a, l, htarget, -, hpool, hown, hseconds, hlease⟩ :=
    pool_of_failure hfailed
  · contradiction
  · cases htarget
    obtain ⟨hfree, -⟩ | ⟨old, hold', -, rfl⟩ := hlease
    · rw [hfree] at hold
      contradiction
    · cases hold.symm.trans hold'
      exact ⟨_, _, hold, by decide, hpool, hown, hseconds, by decide⟩

/-- **A message that cannot be answered may change a pool all the same.** -/
theorem failed_changes_pool :
    ¬ ∀ (c : Config) (p : Pool), p.Reachable c → ∀ (now : Instant) (m : Message) (e : ReplyError),
      (c.answer now p m).reply = .error e → (c.answer now p m).pool = p := by
  intro hkept
  have hnew : Pool.new? ⟨192, 168, 4, 1⟩ = some _ := rfl
  have hp := (Pool.Reachable.new (c := {}) hnew).run
    [⟨.clamp 0, .request ⟨192, 168, 4, 2⟩ (.ofOctets [1]) ⟨500000000, by decide⟩⟩]
  have hsame := hkept {} _ hp (.clamp 100000000) (.asking ⟨192, 168, 4, 2⟩ (.ofOctets [1]))
    .zeroLease rfl
  have hslot := congrArg (fun q : Pool => (q.get? 2).map (·.expiry.nanos)) hsame
  exact absurd hslot (by decide +kernel)

end Dhcp.Config
