import Dhcp.Proofs.Expiry

/-!
# Dhcp.Proofs.Saturation

Expiries by arithmetic that can fail.  A clock is moved by a `Step`, which has a direction and is
not as long as the longest span, and not every step leads to an instant.  The expiry of a lease is
reached by the step that its span is, or by the longest one, and is the last instant where that
leads nowhere (`Instant.after_eq_getD`).  What is left of a lease is the step to its expiry, or
nothing where that goes backwards (`Instant.leftUntil_eq_getD`).

* `Instant.after_mono` — a later start and a longer span give no earlier expiry;
* `Lease.nanos_remaining_of_justGranted` — what is left of a lease as soon as it is granted;
* `Lease.remaining_le_remaining` — what is left of it never grows.
-/

namespace Dhcp

/-! ## Steps of the clock -/

/-- A length of time with a direction: at most 2^63 - 1 milliseconds forwards or backwards. -/
structure Step where
  nanos : Int
  le_nanos : -(0x7fffffffffffffff * 1000000) ≤ nanos
  nanos_le : nanos ≤ 0x7fffffffffffffff * 1000000
deriving DecidableEq

namespace Step

/-- The longest step forwards. -/
def longest : Step := ⟨0x7fffffffffffffff * 1000000, by decide, by decide⟩

/-- The step forwards that a span is, if it is not longer than the longest one. -/
def ofSpan? (d : Span) : Option Step :=
  if h : (d.nanos : Int) ≤ longest.nanos then
    some ⟨d.nanos, by omega, h⟩
  else none

/-- The span that a step forwards is. -/
def toSpan? (s : Step) : Option Span :=
  if 0 ≤ s.nanos then
    some ⟨s.nanos.toNat, by
      have := s.nanos_le
      omega⟩
  else none

/-- Spans beyond the longest step count as that. -/
theorem nanos_ofSpan?_getD (d : Span) :
    ((ofSpan? d).getD longest).nanos = min (d.nanos : Int) longest.nanos := by
  unfold ofSpan?
  split
  · next h => exact (Int.min_eq_left h).symm
  · next h => exact (Int.min_eq_right (Int.le_of_lt (Int.not_le.1 h))).symm

end Step

namespace Instant

/-- The instant that a step leads to, if there is one. -/
def add? (t : Instant) (s : Step) : Option Instant :=
  if h : -8334601228800 * 1000000000 ≤ t.nanos + s.nanos ∧
      t.nanos + s.nanos ≤ 8210266876799 * 1000000000 + 999999999 then
    some ⟨t.nanos + s.nanos, h.1, h.2⟩
  else none

/-- The step from one instant to another.  There always is one, as the time from the first instant
to the last is shorter than the longest step. -/
def stepTo (t u : Instant) : Step :=
  ⟨u.nanos - t.nanos, by
    have := t.le_last
    have := u.first_le
    omega, by
    have := t.first_le
    have := u.le_last
    omega⟩

/-- A step forwards leads to an instant, or beyond the last one. -/
theorem nanos_add?_getD (t : Instant) {s : Step} (hs : 0 ≤ s.nanos) :
    ((t.add? s).getD last).nanos = min (t.nanos + s.nanos) last.nanos := by
  have hfirst := t.first_le
  have hlast : last.nanos = 8210266876799 * 1000000000 + 999999999 := rfl
  unfold add?
  split
  · next h => exact (Int.min_eq_left h.2).symm
  · next h =>
      rw [Option.getD_none]
      omega

/-! ## Expiries -/

/-- An expiry in numbers: it stops at the longest step and at the last instant. -/
theorem nanos_after_eq_min (t : Instant) (d : Span) :
    (t.after d).nanos = min (t.nanos + min (d.nanos : Int) Step.longest.nanos) last.nanos := by
  have hstep : longestStep.nanos = 0x7fffffffffffffff * 1000000 := rfl
  have hlongest : Step.longest.nanos = 0x7fffffffffffffff * 1000000 := rfl
  rw [after]
  dsimp only
  omega

/-- **An expiry never overflows**: it is where the step that its span is leads to, or the longest
step; and the last instant if that leads to none. -/
theorem after_eq_getD (t : Instant) (d : Span) :
    t.after d = (t.add? ((Step.ofSpan? d).getD .longest)).getD .last := by
  have hforwards : 0 ≤ ((Step.ofSpan? d).getD .longest).nanos := by
    have hlongest : 0 ≤ Step.longest.nanos := by decide
    rw [Step.nanos_ofSpan?_getD]
    omega
  ext
  rw [nanos_after_eq_min, nanos_add?_getD t hforwards, Step.nanos_ofSpan?_getD]

/-- **Expiries are monotone** in the instant that they are counted from and in the span. -/
theorem after_mono {t u : Instant} {d e : Span} (ht : t ≤ u) (hd : d ≤ e) :
    t.after d ≤ u.after e := by
  rw [le_def] at ht ⊢
  rw [Span.le_def] at hd
  rw [nanos_after_eq_min, nanos_after_eq_min]
  omega

/-- What is left until an instant is the step to it, and nothing if that goes backwards. -/
theorem leftUntil_eq_getD (t later : Instant) :
    t.leftUntil later = ((t.stepTo later).toSpan?).getD .zero := by
  ext
  unfold Step.toSpan?
  split
  · rfl
  · next h =>
      change (later.nanos - t.nanos).toNat = 0
      exact Int.toNat_of_nonpos (Int.le_of_lt (Int.not_le.1 h))

end Instant

/-! ## Leases -/

namespace Lease

variable {l : Lease} {now later : Instant} {d : Span}

/-- Whether a lease was made for a span, or extended by it, at an instant. -/
def JustGranted (l : Lease) (now : Instant) (d : Span) : Prop :=
  (∃ a hw, l = .new now a hw d) ∨ ∃ old : Lease, old.term = d ∧ l = old.renew now

theorem JustGranted.expiry_eq (h : l.JustGranted now d) : l.expiry = now.after d := by
  obtain ⟨a, hw, rfl⟩ | ⟨old, rfl, rfl⟩ := h <;> rfl

/-- A lease that was just granted holds. -/
theorem JustGranted.not_expired (h : l.JustGranted now d) : l.expired now = false := by
  rw [expired_eq_false, h.expiry_eq]
  exact now.le_after d

/-- As soon as a lease is granted its span is left of it, but no more than the longest step, and
no more than there is until the last instant. -/
theorem nanos_remaining_of_justGranted (h : l.JustGranted now d) :
    ((l.remaining now).nanos : Int) =
      min (d.nanos : Int) (min Step.longest.nanos (Instant.last.nanos - now.nanos)) := by
  have hlast := now.le_last_nanos
  have hlongest : Step.longest.nanos = 0x7fffffffffffffff * 1000000 := rfl
  have hexpiry := Instant.nanos_after_eq_min now d
  rw [remaining, h.expiry_eq, Instant.leftUntil]
  dsimp only
  omega

/-- What is left of a lease never grows. -/
theorem remaining_le_remaining (h : now ≤ later) : l.remaining later ≤ l.remaining now := by
  rw [Instant.le_def] at h
  rw [Span.le_def]
  dsimp only [remaining, Instant.leftUntil]
  omega

theorem remaining_eq_zero : l.remaining now = .zero ↔ l.expiry ≤ now := by
  rw [← Decidable.not_iff_not, ← Ne, remaining_ne_zero, Instant.lt_def, Instant.le_def, Int.not_le]

theorem remaining_of_expired (h : l.expired now) : l.remaining now = .zero := by
  rw [expired, decide_eq_true_iff, Instant.lt_def] at h
  rw [remaining_eq_zero, Instant.le_def]
  exact Int.le_of_lt h

/-- Nothing is left of a lease that has not expired at its last instant only. -/
theorem remaining_eq_zero_of_not_expired (h : l.expired now = false) :
    l.remaining now = .zero ↔ now = l.expiry := by
  rw [expired_eq_false, Instant.le_def] at h
  rw [remaining_eq_zero, Instant.le_def, Instant.ext_iff]
  omega

/-- **Expiries saturate and are monotone.**  They are found by arithmetic whose failures are
caught: a span that is no step counts as the longest, and a step that leads to no instant leads to
the last.  A lease that was just granted holds, and what is left of it is its span, cut at both
bounds.  What is left of any lease never grows; it is nothing once the lease has expired, and
before that only at the very instant of its expiry. -/
theorem expiry_saturates (now : Instant) (d : Span) :
    now.after d = (now.add? ((Step.ofSpan? d).getD .longest)).getD .last ∧
    (now.after d).nanos =
      min (now.nanos + min (d.nanos : Int) (0x7fffffffffffffff * 1000000))
        (8210266876799 * 1000000000 + 999999999) ∧
    now ≤ now.after d ∧
    (∀ later longer, now ≤ later → d ≤ longer → now.after d ≤ later.after longer) ∧
    (∀ l : Lease, l.JustGranted now d →
      l.expired now = false ∧
      ((l.remaining now).nanos : Int) =
        min (d.nanos : Int) (min (0x7fffffffffffffff * 1000000) (Instant.last.nanos - now.nanos))) ∧
    ∀ l : Lease,
      l.remaining now = ((now.stepTo l.expiry).toSpan?).getD .zero ∧
      (∀ later, now ≤ later → l.remaining later ≤ l.remaining now) ∧
      (l.expired now → l.remaining now = .zero) ∧
      (l.expired now = false → (l.remaining now = .zero ↔ now = l.expiry)) := by
  refine ⟨now.after_eq_getD d, now.nanos_after_eq_min d, now.le_after d,
    fun _ _ => Instant.after_mono, ?_, ?_⟩
  · intro l hl
    exact ⟨hl.not_expired, nanos_remaining_of_justGranted hl⟩
  · intro l
    exact ⟨now.leftUntil_eq_getD l.expiry, fun _ => remaining_le_remaining, remaining_of_expired,
      remaining_eq_zero_of_not_expired⟩

/-- The longest span is cut at the last instant, and the time until that is left. -/
example : (Lease.new ⟨0, by decide, by decide⟩ ⟨192, 168, 4, 2⟩ .empty .longest).remaining
    ⟨0, by decide, by decide⟩ = ⟨8210266876799999999999, by decide⟩ := by decide

end Lease

end Dhcp
