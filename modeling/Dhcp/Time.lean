import Dhcp.Octets

/-!
# Dhcp.Time

Spans of time and instants, both counted in nanoseconds.

A `Span` is a length of time of less than 2^64 seconds; on the wire it is a whole
number of seconds in 32 bits, where longer spans are written as the greatest
such number.  An `Instant` is a reading of the clock, in the years from -262143
to 262142.  Adding a span to an instant stops at the last of them.
-/

namespace Dhcp

/-! ## Spans -/

/-- A length of time in nanoseconds, whose whole seconds fit 64 bits. -/
structure Span where
  nanos : Nat
  nanos_lt : nanos < 0x10000000000000000 * 1000000000
deriving DecidableEq

namespace Span

@[ext] theorem ext {x y : Span} (h : x.nanos = y.nanos) : x = y := by
  cases x; cases y; simp_all

instance : LE Span := ⟨fun x y => x.nanos ≤ y.nanos⟩

instance (x y : Span) : Decidable (x ≤ y) := inferInstanceAs (Decidable (x.nanos ≤ y.nanos))

theorem le_def {x y : Span} : x ≤ y ↔ x.nanos ≤ y.nanos := Iff.rfl

/-- A whole number of seconds and a part of a second in nanoseconds. -/
def ofParts (seconds : UInt64) (subsec : Fin 1000000000) : Span :=
  ⟨seconds.toNat * 1000000000 + subsec, by
    have := seconds.toNat_lt
    have := subsec.isLt
    omega⟩

/-- A whole number of seconds. -/
def ofSeconds (seconds : UInt64) : Span := ofParts seconds 0

/-- A whole number of seconds that fits 32 bits. -/
def ofWord (seconds : UInt32) : Span := ofSeconds seconds.toUInt64

/-- No time at all. -/
def zero : Span := ⟨0, by decide⟩

/-- The longest span. -/
def longest : Span := ⟨0x10000000000000000 * 1000000000 - 1, by decide⟩

/-- The whole seconds of a span. -/
def seconds (d : Span) : Nat := d.nanos / 1000000000

/-- What a span has beyond its whole seconds, in nanoseconds. -/
def subsec (d : Span) : Nat := d.nanos % 1000000000

/-- The whole seconds of a span as a word of 32 bits, the greatest word for longer spans. -/
def word (d : Span) : UInt32 := UInt32.ofNat (min d.seconds 0xffffffff)

/-- A span rounded up to whole seconds, at least one.  In the last second of the longest spans
these would not fit 64 bits; what is left until an instant is far shorter
(`Instant.seconds_leftUntil_lt`). -/
def roundUp (d : Span) : Span :=
  ofSeconds (UInt64.ofNat (max 1 ((d.nanos + 999999999) / 1000000000)))

/-- A span as it is sent: its whole seconds in 32 bits. -/
def octets (d : Span) : Octets := bigEndian 4 d.word.toNat

/-- The span that exactly four octets carry. -/
def ofOctets? (bs : Octets) : Option Span :=
  if bs.length = 4 then some (ofWord (UInt32.ofNat (ofBigEndian bs))) else none

@[simp] theorem length_octets (d : Span) : d.octets.length = 4 := length_bigEndian ..

@[simp] theorem nanos_ofSeconds (s : UInt64) : (ofSeconds s).nanos = s.toNat * 1000000000 := by
  simp [ofSeconds, ofParts]

@[simp] theorem nanos_ofWord (s : UInt32) : (ofWord s).nanos = s.toNat * 1000000000 := by
  simp [ofWord]

theorem nanos_roundUp {d : Span} (h : d.seconds < 0xffffffffffffffff) :
    d.roundUp.nanos = max 1 ((d.nanos + 999999999) / 1000000000) * 1000000000 := by
  rw [seconds] at h
  have hle : max 1 ((d.nanos + 999999999) / 1000000000) ≤ 0xffffffffffffffff := by omega
  have hfits : max 1 ((d.nanos + 999999999) / 1000000000) < UInt64.size :=
    Nat.lt_of_le_of_lt hle (by decide)
  rw [roundUp, nanos_ofSeconds, UInt64.toNat_ofNat_of_lt' hfits]

@[simp] theorem toNat_word (d : Span) : d.word.toNat = min d.seconds 0xffffffff := by
  rw [word, UInt32.toNat_ofNat']
  omega

@[simp] theorem word_ofWord (w : UInt32) : (ofWord w).word = w := by
  have hlt := w.toNat_lt
  rw [← UInt32.toNat_inj, toNat_word, seconds, nanos_ofWord]
  omega

/-- Four octets carry whole seconds only. -/
theorem exists_ofWord_of_ofOctets? {bs : Octets} {d : Span} (h : ofOctets? bs = some d) :
    ∃ seconds, d = ofWord seconds := by
  unfold ofOctets? at h
  split at h
  · exact ⟨_, (Option.some.inj h).symm⟩
  · contradiction

/-- A span that was read is sent as it was read. -/
theorem octets_of_ofOctets? {bs : Octets} {d : Span} (h : ofOctets? bs = some d) :
    d.octets = bs := by
  unfold ofOctets? at h
  split at h
  · next hlength =>
      have hlt := ofBigEndian_lt bs
      rw [hlength] at hlt
      cases h
      rw [octets, word_ofWord, UInt32.toNat_ofNat_of_lt' hlt, ← hlength, bigEndian_ofBigEndian]
  · contradiction

end Span

/-! ## Instants -/

/-- A reading of the clock: nanoseconds since the start of 1970, from the first of year
-262143 to the end of year 262142. -/
structure Instant where
  nanos : Int
  first_le : -8334601228800 * 1000000000 ≤ nanos
  le_last : nanos ≤ 8210266876799 * 1000000000 + 999999999
deriving DecidableEq

namespace Instant

@[ext] theorem ext {x y : Instant} (h : x.nanos = y.nanos) : x = y := by
  cases x; cases y; simp_all

instance : LE Instant := ⟨fun x y => x.nanos ≤ y.nanos⟩

instance : LT Instant := ⟨fun x y => x.nanos < y.nanos⟩

instance (x y : Instant) : Decidable (x ≤ y) := inferInstanceAs (Decidable (x.nanos ≤ y.nanos))

instance (x y : Instant) : Decidable (x < y) := inferInstanceAs (Decidable (x.nanos < y.nanos))

theorem le_def {x y : Instant} : x ≤ y ↔ x.nanos ≤ y.nanos := Iff.rfl

theorem lt_def {x y : Instant} : x < y ↔ x.nanos < y.nanos := Iff.rfl

/-- The last instant. -/
def last : Instant := ⟨8210266876799 * 1000000000 + 999999999, by decide, by decide⟩

/-- The instant nearest to a count of nanoseconds since the start of 1970. -/
def clamp (nanos : Int) : Instant :=
  ⟨max (-8334601228800 * 1000000000) (min nanos last.nanos), by omega, by
    have := last.le_last
    omega⟩

/-- The longest step that is taken from an instant, 2^63 - 1 milliseconds. -/
def longestStep : Span := ⟨0x7fffffffffffffff * 1000000, by decide⟩

/-- The instant a span after another: a longer span counts as the longest step, and the
last instant is not passed. -/
def after (t : Instant) (d : Span) : Instant :=
  ⟨min (t.nanos + (min d.nanos longestStep.nanos : Nat)) last.nanos,
    by
      have := t.first_le
      have : last.nanos = 8210266876799 * 1000000000 + 999999999 := rfl
      omega,
    by
      have : last.nanos = 8210266876799 * 1000000000 + 999999999 := rfl
      omega⟩

/-- The time from one instant until another, none if that is not later. -/
def leftUntil (t later : Instant) : Span :=
  ⟨(later.nanos - t.nanos).toNat, by
    have := t.first_le
    have := later.le_last
    omega⟩

/-- All instants lie within far fewer seconds than 64 bits can count. -/
theorem seconds_leftUntil_lt (t later : Instant) :
    (t.leftUntil later).seconds < 0xffffffffffffffff := by
  have hfirst := t.first_le
  have hlast := later.le_last
  rw [Span.seconds, leftUntil]
  dsimp only
  omega

end Instant

end Dhcp
