import Dhcp.Text.Utf8
import Mathlib.Algebra.Group.Nat.Defs

/-!
# Dhcp.Proofs.Text.Utf8

Text that is written, cut and read again.  `Continues` says which octets complete a character that
was begun; the octets of every character are of that form (`utf8EncodeChar_cases`), so that

* `decodeLossyChars_utf8Chars_append` — characters in UTF-8 are read as they are, before any rest;
* `decodeFrom_take_utf8EncodeChar` — a character that is cut short is one replacement;
* `decodeLossy_utf8` — text round trips;
* `shorten_shorten` — what is left of a text that is cut and read stays the same when it is cut
  again at the same length.
-/

namespace Dhcp.Text

/-! ## The octets of a character -/

/-- Whether octets complete a character of which others have been read. -/
inductive Continues (c : Char) : Pending → Octets → Prop where
  | last {p : Pending} {b : UInt8} :
    p.low ≤ b ∧ b ≤ p.high → p.more = 1 → Char.ofNat (p.bits * 64 + (b.toNat - 0x80)) = c →
      Continues c p [b]
  | more {p : Pending} {b : UInt8} {bs : Octets} :
    p.low ≤ b ∧ b ≤ p.high → p.more ≠ 1 →
      Continues c ⟨p.bits * 64 + (b.toNat - 0x80), p.more - 1, 0x80, 0xBF⟩ bs →
      Continues c p (b :: bs)

/-- The last octets of a character, each with six bits of its code point. -/
def tailOctets (v : Nat) : (count : Nat) → Octets
  | 0 => []
  | count + 1 => UInt8.ofNat (v / 64 ^ count % 64 + 0x80) :: tailOctets v count

theorem toNat_tailOctet (v : Nat) : (UInt8.ofNat (v % 64 + 0x80)).toNat = v % 64 + 0x80 := by
  rw [UInt8.toNat_ofNat']
  omega

/-- A tail octet adds the next six bits to those that have been read. -/
theorem bits_tailOctet (v count : Nat) :
    v / 64 ^ (count + 1) * 64 + ((UInt8.ofNat (v / 64 ^ count % 64 + 0x80)).toNat - 0x80) =
      v / 64 ^ count := by
  rw [toNat_tailOctet, Nat.pow_succ, ← Nat.div_div_eq_div_mul, Nat.add_sub_cancel]
  exact Nat.div_add_mod' ..

/-- Tail octets complete a character whose other bits have been read, if the first of them is
within bounds. -/
theorem continues_tailOctets {c : Char} {p : Pending} {count : Nat}
    (hbits : p.bits = c.toNat / 64 ^ (count + 1)) (hmore : p.more = count + 1)
    (hlow : p.low.toNat ≤ c.toNat / 64 ^ count % 64 + 0x80)
    (hhigh : c.toNat / 64 ^ count % 64 + 0x80 ≤ p.high.toNat) :
    Continues c p (tailOctets c.toNat (count + 1)) := by
  have hbounds : p.low ≤ UInt8.ofNat (c.toNat / 64 ^ count % 64 + 0x80) ∧
      UInt8.ofNat (c.toNat / 64 ^ count % 64 + 0x80) ≤ p.high := by
    rw [UInt8.le_iff_toNat_le, UInt8.le_iff_toNat_le, toNat_tailOctet]
    exact ⟨hlow, hhigh⟩
  induction count generalizing p with
  | zero =>
      refine .last hbounds hmore ?_
      rw [hbits, bits_tailOctet, Nat.pow_zero, Nat.div_one]
      exact Char.ofNat_toNat c
  | succ count ih =>
      refine .more hbounds (by omega) ?_
      rw [hbits, bits_tailOctet, hmore]
      have hnext : (0x80 : UInt8).toNat ≤ c.toNat / 64 ^ count % 64 + 0x80 ∧
          c.toNat / 64 ^ count % 64 + 0x80 ≤ (0xBF : UInt8).toNat := by
        change 0x80 ≤ _ ∧ _ ≤ 0xBF
        omega
      refine ih rfl rfl hnext.1 hnext.2 ?_
      rw [UInt8.le_iff_toNat_le, UInt8.le_iff_toNat_le, toNat_tailOctet]
      exact hnext

/-! ## The first octet -/

/-- The octet after the first of three: overlong forms and surrogates are out of its bounds. -/
theorem ofLead?_three {b : UInt8} (hlow : 0xE0 ≤ b) (hhigh : b ≤ 0xEF) :
    Pending.ofLead? b =
      some ⟨b.toNat - 0xE0, 2, if b = 0xE0 then 0xA0 else 0x80,
        if b = 0xED then 0x9F else 0xBF⟩ := by
  by_cases h0 : b = 0xE0
  · subst h0
    rfl
  by_cases hD : b = 0xED
  · subst hD
    rfl
  have htwo : ¬ (0xC2 ≤ b ∧ b ≤ 0xDF) := by
    grind
  have hthree : 0xE1 ≤ b ∧ b ≤ 0xEF := by
    grind
  rw [Pending.ofLead?, if_neg htwo, if_neg h0, if_neg hD, if_pos hthree, if_neg h0, if_neg hD]

/-- The octet after the first of four: overlong forms and what is beyond the last code point are
out of its bounds. -/
theorem ofLead?_four {b : UInt8} (hlow : 0xF0 ≤ b) (hhigh : b ≤ 0xF4) :
    Pending.ofLead? b =
      some ⟨b.toNat - 0xF0, 3, if b = 0xF0 then 0x90 else 0x80,
        if b = 0xF4 then 0x8F else 0xBF⟩ := by
  by_cases h0 : b = 0xF0
  · subst h0
    rfl
  by_cases h4 : b = 0xF4
  · subst h4
    rfl
  unfold Pending.ofLead?
  grind

/-! ## Characters -/

/-- Whether octets are those of a character of more than one. -/
def Spelled (c : Char) (bs : Octets) : Prop :=
  ∃ b p rest, bs = b :: rest ∧ 0x80 ≤ b ∧ Pending.ofLead? b = some p ∧ Continues c p rest

/-- A first octet that holds the first bits above its base, and tail octets that hold the others,
spell a character if the first of these is within the bounds that the first octet sets. -/
theorem spelled_of_lead {c : Char} {count base : Nat} {b low high : UInt8}
    (hoctets : String.utf8EncodeChar c = b :: tailOctets c.toNat (count + 1))
    (hvalue : b.toNat = c.toNat / 64 ^ (count + 1) + base) (hbase : 0x80 ≤ base)
    (hlead : Pending.ofLead? b = some ⟨b.toNat - base, count + 1, low, high⟩)
    (hlow : low.toNat ≤ c.toNat / 64 ^ count % 64 + 0x80)
    (hhigh : c.toNat / 64 ^ count % 64 + 0x80 ≤ high.toNat) :
    Spelled c (String.utf8EncodeChar c) := by
  refine ⟨b, _, _, hoctets, ?_, hlead, continues_tailOctets ?_ rfl hlow hhigh⟩
  · rw [UInt8.le_iff_toNat_le, hvalue]
    exact Nat.le_trans hbase (Nat.le_add_left ..)
  · rw [hvalue, Nat.add_sub_cancel]

theorem spelled_two {c : Char} (hlow : 0x80 ≤ c.toNat) (hhigh : c.toNat < 0x800) :
    Spelled c (String.utf8EncodeChar c) := by
  have hone : ¬ c.val.toNat ≤ 0x7f := Nat.not_le.2 hlow
  have htwo : c.val.toNat ≤ 0x7ff := Nat.le_of_lt_succ hhigh
  have hoctets : String.utf8EncodeChar c =
      UInt8.ofNat (c.toNat / 64 % 0x20 + 0xc0) :: tailOctets c.toNat 1 := by
    simp only [String.utf8EncodeChar, if_neg hone, if_pos htwo, tailOctets, Nat.pow_zero,
      Nat.div_one]
    rfl
  generalize hb : UInt8.ofNat (c.toNat / 64 % 0x20 + 0xc0) = b at hoctets
  have hvalue : b.toNat = c.toNat / 64 + 0xC0 := by
    rw [← hb, UInt8.toNat_ofNat']
    omega
  have hlead : 0xC2 ≤ b ∧ b ≤ 0xDF := by
    rw [UInt8.le_iff_toNat_le, UInt8.le_iff_toNat_le, hvalue]
    change 0xC2 ≤ _ ∧ _ ≤ 0xDF
    omega
  refine spelled_of_lead hoctets hvalue (by decide) (if_pos hlead) ?_ ?_
  · change 0x80 ≤ c.toNat / 1 % 64 + 0x80
    omega
  · change c.toNat / 1 % 64 + 0x80 ≤ 0xBF
    omega

theorem spelled_three {c : Char} (hlow : 0x800 ≤ c.toNat) (hhigh : c.toNat < 0x10000) :
    Spelled c (String.utf8EncodeChar c) := by
  have hone : ¬ c.val.toNat ≤ 0x7f := by
    change ¬ c.toNat ≤ 0x7f
    omega
  have htwo : ¬ c.val.toNat ≤ 0x7ff := Nat.not_le.2 hlow
  have hthree : c.val.toNat ≤ 0xffff := Nat.le_of_lt_succ hhigh
  have hoctets : String.utf8EncodeChar c =
      UInt8.ofNat (c.toNat / 4096 % 0x10 + 0xe0) :: tailOctets c.toNat 2 := by
    simp only [String.utf8EncodeChar, if_neg hone, if_neg htwo, if_pos hthree, tailOctets,
      Nat.pow_zero, Nat.div_one, Nat.pow_one]
    rfl
  generalize hb : UInt8.ofNat (c.toNat / 4096 % 0x10 + 0xe0) = b at hoctets
  have hvalue : b.toNat = c.toNat / 4096 + 0xE0 := by
    rw [← hb, UInt8.toNat_ofNat']
    omega
  have hlead : 0xE0 ≤ b ∧ b ≤ 0xEF := by
    rw [UInt8.le_iff_toNat_le, UInt8.le_iff_toNat_le, hvalue]
    change 0xE0 ≤ _ ∧ _ ≤ 0xEF
    omega
  have hsurrogate : c.toNat < 0xD800 ∨ 0xDFFF < c.toNat ∧ c.toNat < 0x110000 := c.valid
  refine spelled_of_lead hoctets hvalue (by decide) (ofLead?_three hlead.1 hlead.2) ?_ ?_
  · split
    · next h =>
        have h0 : b.toNat = 0xE0 := congrArg UInt8.toNat h
        change 0xA0 ≤ c.toNat / 64 % 64 + 0x80
        omega
    · exact Nat.le_add_left ..
  · split
    · next h =>
        have hD : b.toNat = 0xED := congrArg UInt8.toNat h
        change c.toNat / 64 % 64 + 0x80 ≤ 0x9F
        omega
    · change c.toNat / 64 % 64 + 0x80 ≤ 0xBF
      omega

theorem spelled_four {c : Char} (hlow : 0x10000 ≤ c.toNat) :
    Spelled c (String.utf8EncodeChar c) := by
  have hone : ¬ c.val.toNat ≤ 0x7f := by
    change ¬ c.toNat ≤ 0x7f
    omega
  have htwo : ¬ c.val.toNat ≤ 0x7ff := by
    change ¬ c.toNat ≤ 0x7ff
    omega
  have hthree : ¬ c.val.toNat ≤ 0xffff := Nat.not_le.2 hlow
  have hlast : c.toNat < 0xD800 ∨ 0xDFFF < c.toNat ∧ c.toNat < 0x110000 := c.valid
  have hoctets : String.utf8EncodeChar c =
      UInt8.ofNat (c.toNat / 262144 % 0x08 + 0xf0) :: tailOctets c.toNat 3 := by
    simp only [String.utf8EncodeChar, if_neg hone, if_neg htwo, if_neg hthree, tailOctets,
      Nat.pow_zero, Nat.div_one, Nat.pow_one]
    rfl
  generalize hb : UInt8.ofNat (c.toNat / 262144 % 0x08 + 0xf0) = b at hoctets
  have hvalue : b.toNat = c.toNat / 262144 + 0xF0 := by
    rw [← hb, UInt8.toNat_ofNat']
    omega
  have hlead : 0xF0 ≤ b ∧ b ≤ 0xF4 := by
    rw [UInt8.le_iff_toNat_le, UInt8.le_iff_toNat_le, hvalue]
    change 0xF0 ≤ _ ∧ _ ≤ 0xF4
    omega
  refine spelled_of_lead hoctets hvalue (by decide) (ofLead?_four hlead.1 hlead.2) ?_ ?_
  · split
    · next h =>
        have h0 : b.toNat = 0xF0 := congrArg UInt8.toNat h
        change 0x90 ≤ c.toNat / 4096 % 64 + 0x80
        omega
    · exact Nat.le_add_left ..
  · split
    · next h =>
        have h4 : b.toNat = 0xF4 := congrArg UInt8.toNat h
        change c.toNat / 4096 % 64 + 0x80 ≤ 0x8F
        omega
    · change c.toNat / 4096 % 64 + 0x80 ≤ 0xBF
      omega

/-- The octets of a character are a single one, or those that its first octet asks for. -/
theorem utf8EncodeChar_cases (c : Char) :
    (∃ b, String.utf8EncodeChar c = [b] ∧ b < 0x80 ∧ Char.ofNat b.toNat = c) ∨
      Spelled c (String.utf8EncodeChar c) := by
  by_cases hone : c.toNat < 0x80
  · have hvalue : (UInt8.ofNat c.toNat).toNat = c.toNat := by
      rw [UInt8.toNat_ofNat']
      omega
    have hval : c.val.toNat ≤ 0x7f := Nat.le_of_lt_succ hone
    refine Or.inl ⟨UInt8.ofNat c.toNat, ?_, ?_, ?_⟩
    · simp only [String.utf8EncodeChar, if_pos hval]
      rfl
    · rw [UInt8.lt_iff_toNat_lt, hvalue]
      exact hone
    · rw [hvalue, Char.ofNat_toNat]
  · right
    by_cases htwo : c.toNat < 0x800
    · exact spelled_two (Nat.not_lt.1 hone) htwo
    by_cases hthree : c.toNat < 0x10000
    · exact spelled_three (Nat.not_lt.1 htwo) hthree
    · exact spelled_four (Nat.not_lt.1 hthree)

/-! ## Reading what was written -/

theorem decodeFrom_ascii {b : UInt8} (hb : b < 0x80) (bs : Octets) :
    decodeFrom none (b :: bs) = Char.ofNat b.toNat :: decodeFrom none bs := by
  rw [decodeFrom, feed, begin?, if_pos hb]
  rfl

theorem decodeFrom_lead {b : UInt8} {p : Pending} (hb : 0x80 ≤ b)
    (hp : Pending.ofLead? b = some p) (bs : Octets) :
    decodeFrom none (b :: bs) = decodeFrom (some p) bs := by
  rw [decodeFrom, feed, begin?, if_neg (UInt8.not_lt.2 hb), hp]
  rfl

theorem decodeFrom_within {p : Pending} {b : UInt8} (hb : p.low ≤ b ∧ b ≤ p.high) (bs : Octets) :
    decodeFrom (some p) (b :: bs) =
      if p.more = 1 then Char.ofNat (p.bits * 64 + (b.toNat - 0x80)) :: decodeFrom none bs
      else decodeFrom (some ⟨p.bits * 64 + (b.toNat - 0x80), p.more - 1, 0x80, 0xBF⟩) bs := by
  rw [decodeFrom, feed, if_pos hb]
  by_cases hmore : p.more = 1
  · simp only [if_pos hmore, List.singleton_append]
  · simp only [if_neg hmore, List.nil_append]

namespace Continues

variable {c : Char} {p : Pending} {bs : Octets}

/-- Octets that complete a character are read as that. -/
theorem decodeFrom_append (h : Continues c p bs) (rest : Octets) :
    decodeFrom (some p) (bs ++ rest) = c :: decodeFrom none rest := by
  induction h with
  | last hb hmore hc => rw [List.singleton_append, decodeFrom_within hb, if_pos hmore, hc]
  | more hb hmore _ ih => rw [List.cons_append, decodeFrom_within hb, if_neg hmore, ih]

/-- If not all of them are there, they are read as one replacement. -/
theorem decodeFrom_take (h : Continues c p bs) {n : Nat} (hn : n < bs.length) :
    decodeFrom (some p) (bs.take n) = [replacement] := by
  induction h generalizing n with
  | last =>
      obtain rfl : n = 0 := Nat.lt_one_iff.1 hn
      rfl
  | more hb hmore _ ih =>
      cases n with
      | zero => rfl
      | succ n =>
          rw [List.take_succ_cons, decodeFrom_within hb, if_neg hmore]
          exact ih (Nat.lt_of_succ_lt_succ hn)

end Continues

/-- **A character in UTF-8 is read as it is**, before any rest. -/
theorem decodeFrom_utf8EncodeChar_append (c : Char) (rest : Octets) :
    decodeFrom none (String.utf8EncodeChar c ++ rest) = c :: decodeFrom none rest := by
  obtain ⟨b, hoctets, hb, hc⟩ | ⟨b, p, bs, hoctets, hb, hp, hbs⟩ := utf8EncodeChar_cases c
  · rw [hoctets, List.singleton_append, decodeFrom_ascii hb, hc]
  · rw [hoctets, List.cons_append, decodeFrom_lead hb hp, hbs.decodeFrom_append]

/-- **A character that is cut short is one replacement.** -/
theorem decodeFrom_take_utf8EncodeChar {c : Char} {n : Nat} (hpos : 0 < n)
    (hn : n < (String.utf8EncodeChar c).length) :
    decodeFrom none ((String.utf8EncodeChar c).take n) = [replacement] := by
  obtain ⟨m, rfl⟩ := Nat.exists_eq_add_one.2 hpos
  obtain ⟨b, hoctets, -, -⟩ | ⟨b, p, bs, hoctets, hb, hp, hbs⟩ := utf8EncodeChar_cases c
  · rw [hoctets, List.length_singleton] at hn
    omega
  · rw [hoctets, List.length_cons] at hn
    rw [hoctets, List.take_succ_cons, decodeFrom_lead hb hp]
    exact hbs.decodeFrom_take (Nat.lt_of_succ_lt_succ hn)

/-! ## Texts -/

@[simp] theorem utf8Chars_cons (c : Char) (cs : List Char) :
    utf8Chars (c :: cs) = String.utf8EncodeChar c ++ utf8Chars cs := rfl

theorem utf8Chars_append (cs ds : List Char) :
    utf8Chars (cs ++ ds) = utf8Chars cs ++ utf8Chars ds := List.flatMap_append

/-- Characters in UTF-8 are read as they are, before any rest. -/
theorem decodeLossyChars_utf8Chars_append (cs : List Char) (rest : Octets) :
    decodeLossyChars (utf8Chars cs ++ rest) = cs ++ decodeLossyChars rest := by
  induction cs with
  | nil => rfl
  | cons c cs ih =>
      rw [utf8Chars_cons, List.append_assoc, decodeLossyChars, decodeFrom_utf8EncodeChar_append,
        ← decodeLossyChars, ih, List.cons_append]

theorem decodeLossyChars_utf8Chars (cs : List Char) : decodeLossyChars (utf8Chars cs) = cs := by
  have h := decodeLossyChars_utf8Chars_append cs []
  rwa [List.append_nil, show decodeLossyChars [] = [] from rfl, List.append_nil] at h

/-- **Text round trips.** -/
theorem decodeLossy_utf8 (s : String) : decodeLossy (utf8 s) = s := by
  rw [decodeLossy, utf8, decodeLossyChars_utf8Chars, String.ofList_toList]

/-! ## Texts that are cut -/

/-- Where a text is cut in UTF-8: behind some of its characters, or within one, as far as the cut
goes. -/
theorem take_utf8Chars (cs : List Char) (n : Nat) :
    ∃ (ds : List Char) (c : Char) (k : Nat),
      (utf8Chars cs).take n = utf8Chars ds ++ (String.utf8EncodeChar c).take k ∧
      k < (String.utf8EncodeChar c).length ∧ (utf8Chars ds).length ≤ n ∧
      (0 < k → (utf8Chars ds).length + k = n) := by
  induction cs generalizing n with
  | nil => exact ⟨[], 'a', 0, by simp [utf8Chars], by decide, Nat.zero_le n, by simp⟩
  | cons c cs ih =>
      rw [utf8Chars_cons]
      by_cases hn : n < (String.utf8EncodeChar c).length
      · refine ⟨[], c, n, ?_, hn, Nat.zero_le n, fun _ => Nat.zero_add n⟩
        rw [List.take_append_of_le_length (Nat.le_of_lt hn)]
        rfl
      · obtain ⟨m, rfl⟩ := Nat.exists_eq_add_of_le (Nat.not_lt.1 hn)
        obtain ⟨ds, d, k, htake, hk, hle, hend⟩ := ih m
        refine ⟨c :: ds, d, k, ?_, hk, ?_, ?_⟩
        · rw [List.take_length_add_append, htake, utf8Chars_cons, List.append_assoc]
        · rw [utf8Chars_cons, List.length_append]
          omega
        · intro hpos
          rw [utf8Chars_cons, List.length_append, Nat.add_assoc, hend hpos]

theorem decodeLossyChars_append_take (ds : List Char) {c : Char} {k : Nat} (hpos : 0 < k)
    (hk : k < (String.utf8EncodeChar c).length) :
    decodeLossyChars (utf8Chars ds ++ (String.utf8EncodeChar c).take k) = ds ++ [replacement] := by
  rw [decodeLossyChars_utf8Chars_append, decodeLossyChars, decodeFrom_take_utf8EncodeChar hpos hk]

/-- What is read of characters that were cut is the same when it is cut again.  Where the first
cut falls within a character, a replacement of three octets is read in its place, which may reach
beyond the cut once more; but what is left of it then is a replacement again. -/
theorem decodeLossyChars_take_take (cs : List Char) (n : Nat) :
    decodeLossyChars ((utf8Chars (decodeLossyChars ((utf8Chars cs).take n))).take n) =
      decodeLossyChars ((utf8Chars cs).take n) := by
  obtain ⟨ds, c, k, htake, hk, hle, hend⟩ := take_utf8Chars cs n
  rw [htake]
  by_cases hpos : 0 < k
  · have hthree : (String.utf8EncodeChar replacement).length = 3 := rfl
    have hk3 : k ≤ 3 := by
      have hmax := c.utf8Size_le_four
      rw [String.length_utf8EncodeChar] at hk
      omega
    rw [decodeLossyChars_append_take ds hpos hk, utf8Chars_append, ← hend hpos,
      List.take_length_add_append]
    change decodeLossyChars (utf8Chars ds ++ (String.utf8EncodeChar replacement).take k) = _
    by_cases hwhole : k = 3
    · have hfits : (String.utf8EncodeChar replacement).take k = utf8Chars [replacement] := by
        rw [hwhole]
        rfl
      rw [hfits, ← utf8Chars_append, decodeLossyChars_utf8Chars]
    · exact decodeLossyChars_append_take ds hpos (by omega)
  · obtain rfl : k = 0 := Nat.eq_zero_of_not_pos hpos
    rw [List.take_zero, List.append_nil, decodeLossyChars_utf8Chars, List.take_of_length_le hle,
      decodeLossyChars_utf8Chars]

/-- What is left of a text that is cut at a number of octets and read again. -/
def shorten (n : Nat) (s : String) : String := decodeLossy ((utf8 s).take n)

/-- A text that is no longer than the cut stays as it is. -/
theorem shorten_of_length_le {n : Nat} {s : String} (h : (utf8 s).length ≤ n) :
    shorten n s = s := by
  rw [shorten, List.take_of_length_le h, decodeLossy_utf8]

/-- **A second cut changes nothing.** -/
theorem shorten_shorten (n : Nat) (s : String) : shorten n (shorten n s) = shorten n s := by
  simp only [shorten, decodeLossy, utf8, String.toList_ofList]
  rw [decodeLossyChars_take_take]

end Dhcp.Text
