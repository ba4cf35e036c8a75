/-!
# Dhcp.Octets

Strings of octets, and the fixed-width words that packets are made of.  A word
of `width` octets is written by `bigEndian` (network order) or `littleEndian`,
and read back by `ofBigEndian` and `ofLittleEndian`.

* `ofBigEndian_bigEndian` — a word that fits its width reads back as itself;
* `bigEndian_ofBigEndian` — every string of octets is the word it reads as.
-/

namespace Dhcp

/-- A string of octets, as it travels in a datagram. -/
abbrev Octets := List UInt8

/-- The least number that is too large for a word of `width` octets. -/
def wordBound : (width : Nat) → Nat
  | 0 => 1
  | width + 1 => 256 * wordBound width

/-! ## Least significant octet first -/

/-- The `width` low octets of a number, the least significant first. -/
def littleEndian : (width n : Nat) → Octets
  | 0, _ => []
  | width + 1, n => UInt8.ofNat n :: littleEndian width (n / 256)

/-- The number whose octets are given, the least significant first. -/
def ofLittleEndian : Octets → Nat
  | [] => 0
  | b :: bs => b.toNat + 256 * ofLittleEndian bs

@[simp] theorem length_littleEndian (width n : Nat) : (littleEndian width n).length = width := by
  induction width generalizing n with
  | zero => rfl
  | succ width ih => simp [littleEndian, ih]

theorem ofLittleEndian_lt (bs : Octets) : ofLittleEndian bs < wordBound bs.length := by
  induction bs with
  | nil => decide
  | cons b bs ih =>
    have hb := b.toNat_lt
    simp only [ofLittleEndian, List.length_cons, wordBound]
    omega

/-- Writing keeps the low octets of a number, so reading back gives it modulo the bound. -/
theorem ofLittleEndian_littleEndian_mod (width n : Nat) :
    ofLittleEndian (littleEndian width n) = n % wordBound width := by
  induction width generalizing n with
  | zero => exact (Nat.mod_one n).symm
  | succ width ih =>
    rw [littleEndian, ofLittleEndian, ih, UInt8.toNat_ofNat', wordBound, Nat.mod_mul]

theorem ofLittleEndian_littleEndian {width n : Nat} (h : n < wordBound width) :
    ofLittleEndian (littleEndian width n) = n := by
  rw [ofLittleEndian_littleEndian_mod, Nat.mod_eq_of_lt h]

theorem littleEndian_ofLittleEndian (bs : Octets) :
    littleEndian bs.length (ofLittleEndian bs) = bs := by
  induction bs with
  | nil => rfl
  | cons b bs ih =>
    have hb := b.toNat_lt
    rw [List.length_cons, ofLittleEndian, littleEndian,
      show (b.toNat + 256 * ofLittleEndian bs) / 256 = ofLittleEndian bs by omega, ih]
    congr 1
    apply UInt8.toNat_inj.1
    rw [UInt8.toNat_ofNat']
    omega

/-! ## Network order -/

/-- The `width` low octets of a number, the most significant first. -/
def bigEndian (width n : Nat) : Octets := (littleEndian width n).reverse

/-- The number whose octets are given, the most significant first. -/
def ofBigEndian (bs : Octets) : Nat := ofLittleEndian bs.reverse

@[simp] theorem length_bigEndian (width n : Nat) : (bigEndian width n).length = width := by
  rw [bigEndian, List.length_reverse, length_littleEndian]

theorem ofBigEndian_lt (bs : Octets) : ofBigEndian bs < wordBound bs.length := by
  have h := ofLittleEndian_lt bs.reverse
  rwa [List.length_reverse] at h

/-- **Words round trip**: a number that fits its width is read back as written. -/
theorem ofBigEndian_bigEndian {width n : Nat} (h : n < wordBound width) :
    ofBigEndian (bigEndian width n) = n := by
  rw [ofBigEndian, bigEndian, List.reverse_reverse, ofLittleEndian_littleEndian h]

/-- **Octets round trip**: every string of octets is how its number is written. -/
theorem bigEndian_ofBigEndian (bs : Octets) : bigEndian bs.length (ofBigEndian bs) = bs := by
  have h := littleEndian_ofLittleEndian bs.reverse
  rw [List.length_reverse] at h
  rw [bigEndian, ofBigEndian, h, List.reverse_reverse]

end Dhcp
