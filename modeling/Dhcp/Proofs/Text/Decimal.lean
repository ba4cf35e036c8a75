import Dhcp.Address

/-!
# Dhcp.Proofs.Text.Decimal

Numbers and addresses in decimal, as they are written and read.  A numeral is made of digits and
has no leading zero (`head?_toDigits`), so that the octets of an address are read from their
numerals, and an address from its dotted spelling (`Address.ofChars?_chars`).
-/

namespace Dhcp

namespace Text

theorem isDigit_of_mem_toDigits {n : Nat} {c : Char} (h : c ∈ Nat.toDigits 10 n) : c.isDigit :=
  Nat.isDigit_of_mem_toDigits (by decide) (Nat.le_refl 10) h

/-- Zero is the only number whose numeral begins with a zero. -/
theorem head?_toDigits {n : Nat} (h : 0 < n) : (Nat.toDigits 10 n).head? ≠ some '0' := by
  induction n using Nat.strongRecOn with
  | ind n ih =>
      rw [Nat.toDigits_eq_if (by decide)]
      by_cases hone : n < 10
      · rw [if_pos hone, List.head?_cons, Ne, Option.some.injEq, Nat.digitChar_eq_zero]
        exact Nat.ne_of_gt h
      · -- the numeral goes on behind that of the tenth part
        have hpos : 0 < n / 10 := Nat.div_pos (Nat.not_lt.1 hone) (by decide)
        have hlt : n / 10 < n := Nat.div_lt_self h (by decide)
        rw [if_neg hone, List.head?_append,
          Option.or_of_isSome (List.isSome_head?.2 Nat.toDigits_ne_nil)]
        exact ih (n / 10) hlt hpos

theorem toDigits_of_head? {n : Nat} (h : (Nat.toDigits 10 n).head? = some '0') :
    Nat.toDigits 10 n = ['0'] := by
  obtain rfl : n = 0 := Nat.eq_zero_of_not_pos fun hpos => head?_toDigits hpos h
  rfl

end Text

namespace Address

/-- An octet is read from its numeral. -/
theorem octetOfChars?_octetChars (o : UInt8) : octetOfChars? (octetChars o) = some o := by
  have hlt := o.toNat_lt
  have hlength : (octetChars o).length ≤ 3 :=
    (Nat.length_toDigits_le_iff (by decide) (by decide)).2 (Nat.lt_trans hlt (by decide))
  have hdigits : (octetChars o).all Char.isDigit :=
    List.all_eq_true.2 fun _ => Text.isDigit_of_mem_toDigits
  have hzero : (octetChars o).head? = some '0' → (octetChars o).length = 1 := by
    intro h
    rw [octetChars, Text.toDigits_of_head? h]
    rfl
  have hvalue : Nat.ofDigitChars 10 (octetChars o) 0 = o.toNat := Nat.ofDigitChars_ten_toDigits
  rw [octetOfChars?, if_pos ⟨Nat.toDigits_ne_nil, hlength, hdigits, hzero⟩]
  dsimp only
  rw [hvalue, if_pos hlt, UInt8.ofNat_toNat]

/-- A text without a dot is split off at the dot behind it. -/
theorem beforeDot?_append {p : List Char} (hp : '.' ∉ p) (rest : List Char) :
    beforeDot? (p ++ '.' :: rest) = some (p, rest) := by
  induction p with
  | nil => rfl
  | cons c p ih =>
      rw [List.mem_cons, not_or] at hp
      rw [List.cons_append, beforeDot?, if_neg (Ne.symm hp.1), ih hp.2]
      rfl

theorem dot_not_mem_octetChars (o : UInt8) : '.' ∉ octetChars o := by
  intro h
  exact absurd (Text.isDigit_of_mem_toDigits h) (by decide)

/-- **Addresses round trip** through their dotted spelling. -/
theorem ofChars?_chars (a : Address) : ofChars? a.chars = some a := by
  have hsplit (o : UInt8) (rest : List Char) :
      beforeDot? (octetChars o ++ '.' :: rest) = some (octetChars o, rest) :=
    beforeDot?_append (dot_not_mem_octetChars o) rest
  simp only [ofChars?, chars, List.append_assoc, List.cons_append, hsplit,
    octetOfChars?_octetChars, Option.bind_eq_bind, Option.bind_some]
  rfl

end Address

end Dhcp
