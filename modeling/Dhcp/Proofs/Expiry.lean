import Dhcp.Lease.Basic

/-!
# Dhcp.Proofs.Expiry

When leases expire.  An expiry saturates twice, at the longest step and at the last
instant, and the seconds told to a client saturate once more, at the greatest word.  All of
these are bounds from above, so that an expiry never comes before the time it is taken from
(`Instant.le_after`), never before an earlier one for the same span (`Instant.after_le_after`),
and never before the seconds that were told have passed (`Instant.le_after_of_le_word`).
-/

namespace Dhcp

namespace Instant

/-- Every reading of the clock is at most the last instant. -/
theorem le_last_nanos (t : Instant) : t.nanos ≤ last.nanos := t.le_last

theorem le_after (t : Instant) (d : Span) : t ≤ t.after d := by
  have hlast := t.le_last_nanos
  rw [le_def, after]
  dsimp only
  omega

/-- A later start gives an expiry that is no earlier. -/
theorem after_le_after {t u : Instant} (h : t ≤ u) (d : Span) : t.after d ≤ u.after d := by
  rw [le_def] at h ⊢
  simp only [after]
  omega

/-- The seconds of a span that a word can tell do not reach beyond the expiry that the span
itself leads to: words end far below the longest step. -/
theorem le_after_of_le_word {t now : Instant} {d : Span}
    (h : now.nanos ≤ t.nanos + d.word.toNat * 1000000000) : now ≤ t.after d := by
  have hlast := now.le_last_nanos
  have hstep : longestStep.nanos = 0x7fffffffffffffff * 1000000 := rfl
  have hword : d.word.toNat * 1000000000 ≤ d.nanos := by
    rw [Span.toNat_word, Span.seconds]
    omega
  have hsmall : d.word.toNat < 4294967296 := d.word.toNat_lt
  rw [le_def, after]
  dsimp only
  omega

/-- Before the last instant, time that is not none leads to a later expiry. -/
theorem lt_after {t : Instant} {d : Span} (ht : t < last) (hd : d ≠ .zero) : t < t.after d := by
  have hpos : 0 < d.nanos := Nat.pos_of_ne_zero fun h => hd (Span.ext h)
  have hstep : longestStep.nanos = 0x7fffffffffffffff * 1000000 := rfl
  rw [lt_def] at ht ⊢
  simp only [after]
  omega

/-- As long as the clock is not put back, no more is left than was given. -/
theorem leftUntil_after_le {t now : Instant} (h : t ≤ now) (d : Span) :
    now.leftUntil (t.after d) ≤ d := by
  rw [le_def] at h
  rw [Span.le_def, leftUntil, after]
  dsimp only
  omega

/-- Only the last instant cuts an expiry: the longest step leads beyond it from every instant. -/
theorem nanos_after (t : Instant) (d : Span) :
    (t.after d).nanos = min (t.nanos + d.nanos) last.nanos := by
  have hfirst := t.first_le
  have hstep : longestStep.nanos = 0x7fffffffffffffff * 1000000 := rfl
  have hlast : last.nanos = 8210266876799 * 1000000000 + 999999999 := rfl
  rw [after]
  dsimp only
  omega

theorem nanos_after_ofWord (t : Instant) (seconds : UInt32) :
    (t.after (.ofWord seconds)).nanos =
      min (t.nanos + seconds.toNat * 1000000000) last.nanos := by
  rw [nanos_after, Span.nanos_ofWord, Int.natCast_mul]
  rfl

end Instant

namespace Lease

/-- A lease holds up to its expiry, that instant included. -/
theorem expired_eq_false {l : Lease} {now : Instant} : l.expired now = false ↔ now ≤ l.expiry := by
  rw [expired, decide_eq_false_iff_not, Instant.lt_def, Instant.le_def, Int.not_lt]

/-- Time is left of a lease just until its expiry. -/
theorem remaining_ne_zero {l : Lease} {now : Instant} :
    l.remaining now ≠ .zero ↔ now < l.expiry := by
  rw [Ne, Span.ext_iff, Instant.lt_def, remaining, Instant.leftUntil, Span.zero]
  dsimp only
  omega

end Lease

end Dhcp
