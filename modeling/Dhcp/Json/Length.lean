import Dhcp.Json.Skip

/-!
# Dhcp.Json.Length

What readers leave of a text.  No reader of a value leaves more than it was given, and one that
reads a string leaves less; so that reading value after value comes to an end.
-/

namespace Dhcp.Json

/-- What two steps of reading yield comes of what the first one yields. -/
theorem exists_of_bind_eq_ok {α β : Type} {x : Except Fault α} {f : α → Except Fault β} {b : β}
    (h : x >>= f = .ok b) : ∃ a, x = .ok a ∧ f a = .ok b := by
  cases x with
  | error e => contradiction
  | ok a => exact ⟨a, rfl, h⟩

/-- Where only the value that was read is changed, the text after it is as it was left. -/
theorem exists_of_map_eq_ok {α β : Type} {x : Except Fault (α × List Char)}
    {f : α × List Char → β × List Char} {b : β} {rest : List Char} (h : x.map f = .ok (b, rest))
    (hf : ∀ read, (f read).2 = read.2) : ∃ a, x = .ok (a, rest) := by
  cases x with
  | error e => contradiction
  | ok read =>
      have hread : f read = (b, rest) := Except.ok.inj h
      have hrest : read.2 = rest := by rw [← hf, hread]
      exact ⟨read.1, hrest ▸ rfl⟩

section
variable {cs rest : List Char}

/-! ## Blanks, words and strings -/

theorem length_dropWhile_le (p : Char → Bool) (cs : List Char) :
    (cs.dropWhile p).length ≤ cs.length :=
  (List.dropWhile_suffix p).length_le

/-- What stands behind the first character that is not dropped is shorter than the text. -/
theorem length_of_dropWhile {p : Char → Bool} {c : Char} (h : cs.dropWhile p = c :: rest) :
    rest.length < cs.length := by
  have hle := length_dropWhile_le p cs
  rw [h] at hle
  exact hle

theorem length_of_skipBlank {c : Char} (h : skipBlank cs = c :: rest) :
    rest.length < cs.length :=
  length_of_dropWhile h

theorem length_of_readWord {word : List Char} (h : readWord word cs = .ok rest) :
    rest.length ≤ cs.length := by
  fun_induction readWord word cs with
  | case1 cs =>
      cases h
      exact Nat.le_refl _
  | case2 => contradiction
  | case3 ws c cs ih => exact Nat.le_succ_of_le (ih h)
  | case4 => contradiction

/-- A string takes up some of the text: its closing quote at least. -/
theorem length_of_readString {text : List Char} (h : readString cs = .ok (text, rest)) :
    rest.length < cs.length := by
  unfold readString at h
  generalize [] = read at h
  fun_induction readStringFrom read cs with
  | case1 => contradiction
  | case2 read tail =>
      cases h
      exact Nat.lt_succ_self _
  | case3 => contradiction
  | case4 read tail c tail' hescape _ ih =>
      have hletter := length_of_readEscape hescape
      exact Nat.lt_trans (ih h) (Nat.lt_succ_of_lt hletter)
  | case5 => contradiction
  | case6 read c tail _ _ _ ih => exact Nat.lt_succ_of_lt (ih h)

/-! ## Numbers -/

section
variable {digits : Nat} {exponent : Int} {n : Numeral}

theorem length_of_otherNumeral (h : otherNumeral digits exponent cs = .ok (n, rest)) :
    rest.length ≤ cs.length := by
  unfold otherNumeral at h
  split at h
  · contradiction
  · cases h
    exact Nat.le_refl _

theorem length_of_readExponentDigits {negative : Bool}
    (h : readExponentDigits digits exponent negative cs = .ok (n, rest)) :
    rest.length ≤ cs.length := by
  unfold readExponentDigits at h
  split at h
  · contradiction
  · split at h
    · exact Nat.le_trans (length_of_otherNumeral h) (length_dropWhile_le _ _)
    · contradiction

theorem length_of_readExponent (h : readExponent digits exponent cs = .ok (n, rest)) :
    rest.length ≤ cs.length := by
  unfold readExponent at h
  split at h
  · exact Nat.le_succ_of_le (length_of_readExponentDigits h)
  · exact Nat.le_succ_of_le (length_of_readExponentDigits h)
  · exact length_of_readExponentDigits h

theorem length_of_readFraction (h : readFraction digits exponent cs = .ok (n, rest)) :
    rest.length ≤ cs.length := by
  unfold readFraction at h
  split at h
  · contradiction
  · split at h
    · dsimp only at h
      split at h
      · next heq =>
          exact Nat.le_trans (length_of_readExponent h) (Nat.le_of_lt (length_of_dropWhile heq))
      · next heq =>
          exact Nat.le_trans (length_of_readExponent h) (Nat.le_of_lt (length_of_dropWhile heq))
      · exact Nat.le_trans (length_of_otherNumeral h) (length_dropWhile_le _ _)
    · contradiction

theorem length_of_readNumeral {negative : Bool} (h : readNumeral negative cs = .ok (n, rest)) :
    rest.length ≤ cs.length := by
  unfold readNumeral at h
  split at h
  · contradiction
  split at h
  · contradiction
  split at h
  · contradiction
  dsimp only at h
  split at h
  · next heq =>
      exact Nat.le_trans (length_of_readFraction h) (Nat.le_of_lt (length_of_dropWhile heq))
  · next heq =>
      exact Nat.le_trans (length_of_readExponent h) (Nat.le_of_lt (length_of_dropWhile heq))
  · next heq =>
      exact Nat.le_trans (length_of_readExponent h) (Nat.le_of_lt (length_of_dropWhile heq))
  · split at h
    · exact Nat.le_trans (length_of_otherNumeral h) (length_dropWhile_le _ _)
    · split at h <;> cases h <;> exact length_dropWhile_le _ _

theorem length_of_readNumber (h : readNumber cs = .ok (n, rest)) : rest.length ≤ cs.length := by
  unfold readNumber at h
  split at h
  · next heq =>
      exact Nat.le_trans (length_of_readNumeral h) (Nat.le_of_lt (length_of_skipBlank heq))
  · next heq =>
      split at h
      · exact Nat.le_trans (length_of_readNumeral h) (heq ▸ length_dropWhile_le isBlank cs)
      · contradiction
  · contradiction

end

/-! ## Values of a wanted type -/

theorem length_of_readText {text : List Char} (h : readText cs = .ok (text, rest)) :
    rest.length ≤ cs.length := by
  unfold readText at h
  split at h
  · next heq =>
      exact Nat.le_of_lt (Nat.lt_trans (length_of_readString h) (length_of_skipBlank heq))
  · contradiction

theorem length_of_readText? {text : Option (List Char)} (h : readText? cs = .ok (text, rest)) :
    rest.length ≤ cs.length := by
  unfold readText? at h
  split at h
  · next tail heq =>
      cases hword : readWord ['u', 'l', 'l'] tail with
      | error e =>
          rw [hword] at h
          contradiction
      | ok tail' =>
          rw [hword] at h
          cases h
          exact Nat.le_trans (length_of_readWord hword) (Nat.le_of_lt (length_of_skipBlank heq))
  · obtain ⟨text, htext⟩ := exists_of_map_eq_ok h fun _ => rfl
    exact Nat.le_trans (length_of_readText htext) (length_dropWhile_le isBlank cs)

theorem length_of_readNatural {bound n : Nat} (h : readNatural bound cs = .ok (n, rest)) :
    rest.length ≤ cs.length := by
  obtain ⟨⟨numeral, tail⟩, hnumber, h⟩ := exists_of_bind_eq_ok h
  cases numeral with
  | natural n =>
      dsimp only at h
      split at h
      · cases h
        exact length_of_readNumber hnumber
      · contradiction
  | other => contradiction

/-! ## Values of any type -/

/-- A value that the end of the text may end leaves nothing. -/
theorem eq_nil_of_atEnd {frames : List Frame} {spot : Spot} (h : atEnd frames spot = .ok rest) :
    rest = [] := by
  unfold atEnd at h
  split at h
  · contradiction
  · contradiction
  · contradiction
  · contradiction
  · split at h
    · cases h
      rfl
    · contradiction

theorem length_of_skipValue (h : skipValue cs = .ok rest) : rest.length ≤ cs.length := by
  unfold skipValue at h
  generalize [] = frames at h
  generalize Spot.value = spot at h
  fun_induction skipFrom frames spot cs with
  | case1 => exact Nat.le_of_eq (congrArg List.length (eq_nil_of_atEnd h))
  | case2 => contradiction
  | case3 frames spot c tail frames' spot' _ ih => exact Nat.le_succ_of_le (ih h)
  | case4 =>
      cases h
      exact Nat.le_refl _
  | case5 =>
      cases h
      exact Nat.le_succ _

end

end Dhcp.Json
