import Dhcp.Json.Reader
import Dhcp.Json.Writer
import Dhcp.Proofs.Text.Decimal

/-!
# Dhcp.Proofs.Json.RoundTrip

JSON values that were written are read off the front of a text.  Each character of a string is
written in one of three ways (`writeChar_cases`), and is read from it whatever follows
(`readStringFrom_writeChar`), so that strings round trip before any rest (`readText_writeString`).
Numbers that fit 64 bits are read exactly, as long as what follows does not go on with the number
(`readNatural_toDigits`).
-/

namespace Dhcp.Json

/-! ## Strings -/

theorem hexValue?_digitChar {n : Nat} (h : n < 16) : hexValue? (Nat.digitChar n) = some n := by
  revert n
  decide

/-- A control character is read from its number. -/
theorem readEscape_unicodeEscape {c : Char} (hc : c < ' ') (rest : List Char) :
    readEscape ((unicodeEscape c).tail ++ rest) = .ok (c, rest) := by
  have hlt : c.toNat < 32 := hc
  have hhex : readHex ('0' :: '0' :: Nat.digitChar (c.toNat / 16) ::
      Nat.digitChar (c.toNat % 16) :: rest) = .ok (c.toNat, rest) := by
    have hzero : hexValue? '0' = some 0 := rfl
    have hhigh : hexValue? (Nat.digitChar (c.toNat / 16)) = some (c.toNat / 16) :=
      hexValue?_digitChar (by omega)
    have hlow : hexValue? (Nat.digitChar (c.toNat % 16)) = some (c.toNat % 16) :=
      hexValue?_digitChar (by omega)
    have hvalue : ((0 * 16 + 0) * 16 + c.toNat / 16) * 16 + c.toNat % 16 = c.toNat := by omega
    simp only [readHex, hzero, hhigh, hlow, hvalue]
  have hlowHalf : ¬ (0xDC00 ≤ c.toNat ∧ c.toNat ≤ 0xDFFF) := by omega
  have hhighHalf : ¬ (0xD800 ≤ c.toNat ∧ c.toNat ≤ 0xDBFF) := by omega
  change readUnicode ('0' :: '0' :: Nat.digitChar (c.toNat / 16) ::
    Nat.digitChar (c.toNat % 16) :: rest) = _
  rw [readUnicode, hhex]
  dsimp only
  rw [if_neg hlowHalf, if_neg hhighHalf, Char.ofNat_toNat]

/-- A character is written by a letter that stands for it, by its number, or as it is. -/
theorem writeChar_cases (c : Char) :
    (∃ letter, writeChar c = ['\\', letter] ∧ letter ≠ 'u' ∧ escaped? letter = some c) ∨
    (c < ' ' ∧ writeChar c = unicodeEscape c) ∨
    (c ≠ '"' ∧ c ≠ '\\' ∧ ¬ c < ' ' ∧ writeChar c = [c]) := by
  unfold writeChar
  split
  · next h => exact Or.inl ⟨'"', rfl, by decide, by rw [h]; rfl⟩
  split
  · next h => exact Or.inl ⟨'\\', rfl, by decide, by rw [h]; rfl⟩
  split
  · next h => exact Or.inl ⟨'b', rfl, by decide, h ▸ rfl⟩
  split
  · next h => exact Or.inl ⟨'f', rfl, by decide, h ▸ rfl⟩
  split
  · next h => exact Or.inl ⟨'n', rfl, by decide, h ▸ rfl⟩
  split
  · next h => exact Or.inl ⟨'r', rfl, by decide, h ▸ rfl⟩
  split
  · next h => exact Or.inl ⟨'t', rfl, by decide, h ▸ rfl⟩
  split
  · next h => exact Or.inr (Or.inl ⟨h, rfl⟩)
  · next hquote hslash _ _ _ _ _ hlow => exact Or.inr (Or.inr ⟨hquote, hslash, hlow, rfl⟩)

/-- What follows a backslash is read as the character that it stands for. -/
theorem readStringFrom_escape {read cs rest : List Char} {c : Char}
    (h : readEscape cs = .ok (c, rest)) :
    readStringFrom read ('\\' :: cs) = readStringFrom (c :: read) rest := by
  rw [readStringFrom, if_neg (by decide), if_pos rfl]
  split
  · next herror =>
      rw [h] at herror
      contradiction
  · next hok =>
      rw [h] at hok
      cases hok
      rfl

/-- **A character of a string is read as it was written**, whatever follows. -/
theorem readStringFrom_writeChar (read : List Char) (c : Char) (rest : List Char) :
    readStringFrom read (writeChar c ++ rest) = readStringFrom (c :: read) rest := by
  obtain ⟨letter, hwrite, hletter, hescaped⟩ | ⟨hlow, hwrite⟩ | ⟨hquote, hslash, hlow, hwrite⟩ :=
    writeChar_cases c
  · have hread : readEscape (letter :: rest) = .ok (c, rest) := by
      rw [readEscape, if_neg hletter, hescaped]
    rw [hwrite]
    exact readStringFrom_escape hread
  · rw [hwrite]
    exact readStringFrom_escape (readEscape_unicodeEscape hlow rest)
  · rw [hwrite, List.singleton_append, readStringFrom, if_neg hquote, if_neg hslash, if_neg hlow]

theorem readStringFrom_write (read cs rest : List Char) :
    readStringFrom read (cs.flatMap writeChar ++ '"' :: rest) =
      .ok (read.reverse ++ cs, rest) := by
  induction cs generalizing read with
  | nil =>
      rw [List.flatMap_nil, List.nil_append, readStringFrom, if_pos rfl, List.append_nil]
  | cons c cs ih =>
      rw [List.flatMap_cons, List.append_assoc, readStringFrom_writeChar, ih, List.reverse_cons,
        List.append_assoc, List.singleton_append]

/-- **Strings round trip** behind their first quote. -/
theorem readString_write (cs rest : List Char) :
    readString (cs.flatMap writeChar ++ '"' :: rest) = .ok (cs, rest) :=
  readStringFrom_write [] cs rest

theorem writeString_append (cs rest : List Char) :
    writeString cs ++ rest = '"' :: (cs.flatMap writeChar ++ '"' :: rest) := by
  rw [writeString, List.append_assoc, List.cons_append, List.singleton_append]

/-- **Texts round trip** behind a space. -/
theorem readText_writeString (cs rest : List Char) :
    readText (' ' :: (writeString cs ++ rest)) = .ok (cs, rest) := by
  rw [writeString_append]
  exact readString_write cs rest

/-- A text is read where there may be none. -/
theorem readText?_writeString (cs rest : List Char) :
    readText? (' ' :: (writeString cs ++ rest)) = .ok (some cs, rest) := by
  have htext := readText_writeString cs rest
  rw [writeString_append] at htext ⊢
  change (readText ('"' :: _)).map _ = _
  change readText ('"' :: _) = _ at htext
  rw [htext]
  rfl

theorem readText?_null (rest : List Char) :
    readText? (' ' :: 'n' :: 'u' :: 'l' :: 'l' :: rest) = .ok (none, rest) := rfl

/-! ## Numbers -/

/-- Whether a text cannot go on a whole number: it does not begin with a digit, a point or the
letter of an exponent. -/
def EndsNumber (cs : List Char) : Prop :=
  ∀ c, cs.head? = some c → c.isDigit = false ∧ c ≠ '.' ∧ c ≠ 'e' ∧ c ≠ 'E'

/-- Further digits make a number no smaller. -/
theorem le_ofDigitChars (n : Nat) (ds : List Char) : n ≤ Nat.ofDigitChars 10 ds n := by
  induction ds generalizing n with
  | nil => exact Nat.le_refl n
  | cons d ds ih =>
      rw [Nat.ofDigitChars_cons]
      exact Nat.le_trans (by omega) (ih _)

/-- No digit is dropped of a number that fits 64 bits. -/
theorem wholeDigits_eq {ds : List Char} {n : Nat}
    (h : Nat.ofDigitChars 10 ds n < UInt64.size) :
    wholeDigits n ds = (Nat.ofDigitChars 10 ds n, 0) := by
  induction ds generalizing n with
  | nil => rfl
  | cons d ds ih =>
      rw [Nat.ofDigitChars_cons] at h ⊢
      have hfits : 10 * n + digitValue d < UInt64.size :=
        Nat.lt_of_le_of_lt (le_ofDigitChars _ ds) h
      rw [wholeDigits, pushDigit?_of_lt hfits]
      exact ih h

/-- The digits of a numeral end where the text does not go on with it. -/
theorem takeWhile_toDigits_append (n : Nat) {rest : List Char} (hrest : EndsNumber rest) :
    (Nat.toDigits 10 n ++ rest).takeWhile Char.isDigit = Nat.toDigits 10 n ∧
      (Nat.toDigits 10 n ++ rest).dropWhile Char.isDigit = rest := by
  have hdigits : ∀ c ∈ Nat.toDigits 10 n, c.isDigit := fun _ => Text.isDigit_of_mem_toDigits
  rw [List.takeWhile_append_of_pos hdigits, List.dropWhile_append_of_pos hdigits]
  cases rest with
  | nil => simp
  | cons c cs =>
      have hc := (hrest c rfl).1
      simp [hc]

/-- A numeral is read up to where the text does not go on with it. -/
theorem readNumeral_toDigits {n : Nat} (hn : n < UInt64.size) {rest : List Char}
    (hrest : EndsNumber rest) :
    readNumeral false (Nat.toDigits 10 n ++ rest) = .ok (.natural n, rest) := by
  obtain ⟨htake, hdrop⟩ := takeWhile_toDigits_append n hrest
  have hvalue : Nat.ofDigitChars 10 (Nat.toDigits 10 n) 0 = n := Nat.ofDigitChars_ten_toDigits
  have hwhole : wholeDigits 0 (Nat.toDigits 10 n) = (n, 0) := by
    rw [wholeDigits_eq (by rwa [hvalue]), hvalue]
  cases hdigits : Nat.toDigits 10 n with
  | nil => exact absurd hdigits Nat.toDigits_ne_nil
  | cons d ds =>
      have hd : d.isDigit := Text.isDigit_of_mem_toDigits (hdigits ▸ List.mem_cons_self)
      have hzero : ¬ (d = '0' ∧ (ds ++ rest).head?.any Char.isDigit) := by
        rintro ⟨rfl, hnext⟩
        -- nothing but the rest follows a zero
        have hone := Text.toDigits_of_head? (congrArg List.head? hdigits)
        rw [hdigits, List.cons.injEq] at hone
        rw [hone.2, List.nil_append, Option.any_eq_true] at hnext
        obtain ⟨c, hc, hdigit⟩ := hnext
        rw [(hrest c hc).1] at hdigit
        contradiction
      rw [hdigits] at htake hdrop hwhole
      rw [List.cons_append] at htake hdrop ⊢
      simp only [readNumeral, hd, not_true_eq_false, if_false, if_neg hzero, htake, hdrop, hwhole]
      split
      · exact absurd rfl (hrest _ rfl).2.1
      · exact absurd rfl (hrest _ rfl).2.2.1
      · exact absurd rfl (hrest _ rfl).2.2.2
      · simp

/-- **Numbers round trip** behind a space, if they are below the bound and fit 64 bits. -/
theorem readNatural_toDigits {bound n : Nat} (hn : n < bound) (hbound : bound ≤ UInt64.size)
    {rest : List Char} (hrest : EndsNumber rest) :
    readNatural bound (' ' :: (Nat.toDigits 10 n ++ rest)) = .ok (n, rest) := by
  have hnumeral := readNumeral_toDigits (Nat.lt_of_lt_of_le hn hbound) hrest
  cases hdigits : Nat.toDigits 10 n with
  | nil => exact absurd hdigits Nat.toDigits_ne_nil
  | cons d ds =>
      have hd : d.isDigit := Text.isDigit_of_mem_toDigits (hdigits ▸ List.mem_cons_self)
      have hblank : isBlank d = false := by
        simp only [isBlank, Bool.or_eq_false_iff, decide_eq_false_iff_not]
        refine ⟨⟨⟨?_, ?_⟩, ?_⟩, ?_⟩ <;> (rintro rfl; contradiction)
      -- a digit is no sign, so that the branch of negative numbers is not taken
      have hminus : d ≠ '-' := by
        rintro rfl
        contradiction
      have hskip : skipBlank (' ' :: (d :: ds ++ rest)) = d :: (ds ++ rest) := by
        change ((d :: (ds ++ rest)).dropWhile isBlank) = _
        rw [List.dropWhile_cons, hblank]
        rfl
      rw [hdigits, List.cons_append] at hnumeral
      have hnumber : readNumber (' ' :: (d :: ds ++ rest)) = .ok (.natural n, rest) := by
        rw [readNumber, hskip]
        simp only [hd, if_true, hnumeral]
      rw [readNatural, hnumber]
      exact if_pos hn

end Dhcp.Json
