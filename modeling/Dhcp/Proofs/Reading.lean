import Dhcp.Proofs.Message.RoundTrip

/-!
# Dhcp.Proofs.Reading

Reading at any offset.  Octets stand at an offset of others if there are that many in front of
them (`Wire.StandsAt`).  A read gives what stands at its offset, if all of it is there, and
otherwise tells how many octets would have to be there:

* `slice_eq_ok`, `slice_eq_error` — what comes of reading octets;
* `slice_of_wraps` — no sum that wraps around the range of offsets is taken for the end of a field;
* `Form.exact_read` — what comes of reading a value, which is the one that the octets are sent for.

That the end of a field is computed in words makes no difference to octets that are fewer than there
are offsets, and no memory holds more.
-/

namespace Dhcp.Wire

variable {data bs : Octets} {offset : UInt64} {count start : Nat}

/-! ## What stands at an offset -/

/-- Whether octets stand at an offset of others. -/
def StandsAt (data : Octets) (start : Nat) (bs : Octets) : Prop :=
  ∃ pre post, data = pre ++ (bs ++ post) ∧ pre.length = start

theorem StandsAt.stop_le (h : StandsAt data start bs) : start + bs.length ≤ data.length := by
  obtain ⟨pre, post, rfl, rfl⟩ := h
  rw [List.length_append, List.length_append]
  omega

/-- No two strings of one length stand at an offset. -/
theorem StandsAt.fieldAt_eq (h : StandsAt data start bs) : fieldAt data start bs.length = bs := by
  obtain ⟨pre, post, rfl, hstart⟩ := h
  exact fieldAt_of_append hstart rfl

theorem standsAt_fieldAt (h : start + count ≤ data.length) :
    StandsAt data start (fieldAt data start count) := by
  refine ⟨data.take start, data.drop (start + count), ?_, ?_⟩
  · rw [fieldAt_append_drop, List.take_append_drop]
  · exact List.length_take_of_le (Nat.le_of_add_right_le h)

/-! ## Reading octets -/

/-- The end of a field is the sum of its offset and its length where a word holds that sum. -/
theorem fieldEnd?_eq_some {stop : Nat} :
    fieldEnd? offset count = some stop ↔ offset.toNat + count = stop ∧ stop < UInt64.size := by
  rw [fieldEnd?, Option.ite_none_right_eq_some, Option.some.injEq]
  constructor
  · rintro ⟨hlt, rfl⟩
    exact ⟨rfl, hlt⟩
  · rintro ⟨rfl, hlt⟩
    exact ⟨hlt, rfl⟩

theorem fieldEnd?_eq_none : fieldEnd? offset count = none ↔ UInt64.size ≤ offset.toNat + count := by
  simp [fieldEnd?]

/-- A field that does not end within the octets cannot be read, wherever it begins.  As many octets
as it would need are told, but no more than the last offset. -/
theorem slice_of_lt (h : data.length < offset.toNat + count) :
    slice data offset count =
      .error (.truncated (min (offset.toNat + count) (UInt64.size - 1)) data.length) := by
  rw [slice]
  cases hend : fieldEnd? offset count with
  | some stop =>
      -- a word holds the end, which is beyond the octets
      obtain ⟨rfl, hlt⟩ := fieldEnd?_eq_some.1 hend
      dsimp only
      rw [if_neg (Nat.not_le.2 h), Nat.min_eq_left (Nat.le_sub_one_of_lt hlt)]
  | none =>
      have hwide : UInt64.size ≤ offset.toNat + count := fieldEnd?_eq_none.1 hend
      dsimp only
      rw [Nat.min_eq_right (Nat.le_trans (Nat.sub_le _ _) hwide)]

/-- The sum of words is the end of a field unless it wraps. -/
theorem toNat_add_ofNat (h : offset.toNat + count < UInt64.size) :
    (offset + .ofNat count).toNat = offset.toNat + count := by
  have hcount : count < UInt64.size := Nat.lt_of_le_of_lt (Nat.le_add_left _ _) h
  rw [UInt64.toNat_add, UInt64.toNat_ofNat_of_lt' hcount, Nat.mod_eq_of_lt h]

/-- **No sum wraps into range**: where the sum of words is not the end of a field, the field cannot
be read, though that sum may be an offset within the octets. -/
theorem slice_of_wraps (h : (offset + .ofNat count).toNat ≠ offset.toNat + count) :
    slice data offset count = .error (.truncated (UInt64.size - 1) data.length) := by
  have hend : UInt64.size ≤ offset.toNat + count :=
    Nat.not_lt.1 fun hlt => h (toNat_add_ofNat hlt)
  rw [slice, fieldEnd?_eq_none.2 hend]

section
variable (hsize : data.length < UInt64.size)
include hsize

/-- **Octets are read just where they stand.** -/
theorem slice_eq_ok :
    slice data offset count = .ok bs ↔ bs.length = count ∧ StandsAt data offset.toNat bs := by
  by_cases hstop : offset.toNat + count ≤ data.length
  · rw [slice_of_le (Nat.lt_of_le_of_lt hstop hsize) hstop, Except.ok.injEq]
    constructor
    · rintro rfl
      exact ⟨length_fieldAt hstop, standsAt_fieldAt hstop⟩
    · rintro ⟨rfl, hstands⟩
      exact hstands.fieldAt_eq
  · rw [slice_of_lt (Nat.not_le.1 hstop)]
    constructor
    · intro h
      contradiction
    · rintro ⟨rfl, hstands⟩
      exact absurd hstands.stop_le hstop

/-- **Reading fails just where octets are missing**, and tells how many there would have to be. -/
theorem slice_eq_error {e : DecodeError} :
    slice data offset count = .error e ↔
      data.length < offset.toNat + count ∧
        e = .truncated (min (offset.toNat + count) (UInt64.size - 1)) data.length := by
  by_cases hstop : offset.toNat + count ≤ data.length
  · rw [slice_of_le (Nat.lt_of_le_of_lt hstop hsize) hstop]
    constructor
    · intro h
      contradiction
    · rintro ⟨hlt, -⟩
      exact absurd hstop (Nat.not_le.2 hlt)
  · have hlt := Nat.not_le.1 hstop
    rw [slice_of_lt hlt, Except.error.injEq]
    exact ⟨fun h => ⟨hlt, h.symm⟩, fun h => h.2.symm⟩

theorem exists_slice_iff :
    (∃ bs, slice data offset count = .ok bs) ↔ offset.toNat + count ≤ data.length := by
  constructor
  · rintro ⟨bs, h⟩
    obtain ⟨rfl, hstands⟩ := (slice_eq_ok hsize).1 h
    exact hstands.stop_le
  · intro hstop
    exact ⟨_, slice_of_le (Nat.lt_of_le_of_lt hstop hsize) hstop⟩

end

/-! ## Reading values -/

/-- What comes of reading a value at an offset if it is read exactly.  It is the value that would be
sent as the octets that stand there; there is one just where as many octets are there as it takes;
and anywhere else they are too few. -/
structure Exact {α : Type} (width : Nat) (octets : α → Octets) (data : Octets) (offset : UInt64)
    (result : Except DecodeError α) : Prop where
  ok : ∀ a, result = .ok a ↔ StandsAt data offset.toNat (octets a)
  succeeds : (∃ a, result = .ok a) ↔ offset.toNat + width ≤ data.length
  error : ∀ e, result = .error e ↔
    data.length < offset.toNat + width ∧
      e = .truncated (min (offset.toNat + width) (UInt64.size - 1)) data.length

namespace Form

variable {α : Type} {F : Form α} {a : α}

/-- What a value is sent as, told from what is read. -/
theorem octets_eq_iff : F.octets a = bs ↔ bs.length = F.width ∧ F.value bs = a := by
  constructor
  · rintro rfl
    exact ⟨F.length_octets a, F.value_octets a⟩
  · rintro ⟨hlength, rfl⟩
    exact F.octets_value hlength

/-- The two octets of a word of 16 bits are its digits to the base 256. -/
theorem octets_word16_eq_iff {w : UInt16} {x y : UInt8} :
    word16.octets w = [x, y] ↔ w.toNat = 256 * x.toNat + y.toNat := by
  have hnumber : (word16.value [x, y]).toNat = 256 * x.toNat + y.toNat := by
    refine (toNat_ofNat_ofBigEndian rfl).trans ?_
    change y.toNat + 256 * (x.toNat + 256 * 0) = _
    omega
  rw [octets_eq_iff, ← UInt16.toNat_inj, hnumber, eq_comm (a := w.toNat)]
  exact and_iff_right rfl

/-- The four octets of a word of 32 bits are its digits to the base 256, the last one first. -/
theorem octets_word32_eq_iff {w : UInt32} {x y z t : UInt8} :
    word32.octets w = [x, y, z, t] ↔
      w.toNat = x.toNat + 256 * y.toNat + 65536 * z.toNat + 16777216 * t.toNat := by
  have hnumber : (word32.value [x, y, z, t]).toNat =
      x.toNat + 256 * y.toNat + 65536 * z.toNat + 16777216 * t.toNat := by
    refine (toNat_ofNat_ofLittleEndian rfl).trans ?_
    simp only [ofLittleEndian]
    omega
  rw [octets_eq_iff, ← UInt32.toNat_inj, hnumber, eq_comm (a := w.toNat)]
  exact and_iff_right rfl

theorem read_eq_error {e : DecodeError} :
    F.read data offset = .error e ↔ slice data offset F.width = .error e := by
  rw [read]
  cases slice data offset F.width <;> simp [Except.map]

section
variable (hsize : data.length < UInt64.size)
include hsize

theorem read_eq_ok :
    F.read data offset = .ok a ↔ slice data offset F.width = .ok (F.octets a) := by
  constructor
  · intro h
    cases hslice : slice data offset F.width with
    | error e =>
        rw [read, hslice] at h
        contradiction
    | ok bs =>
        -- just as many octets were read as the value would be sent as
        obtain ⟨hlength, -⟩ := (slice_eq_ok hsize).1 hslice
        rw [read, hslice] at h
        cases h
        rw [F.octets_value hlength]
  · exact F.read_of_slice

/-- **Values are read exactly**, since their octets are. -/
theorem exact_read : Exact F.width F.octets data offset (F.read data offset) where
  ok a := by
    rw [read_eq_ok hsize, slice_eq_ok hsize]
    exact and_iff_right (F.length_octets a)
  succeeds := by
    rw [← exists_slice_iff hsize]
    constructor
    · rintro ⟨a, h⟩
      exact ⟨F.octets a, (read_eq_ok hsize).1 h⟩
    · rintro ⟨bs, h⟩
      refine ⟨F.value bs, ?_⟩
      rw [read, h]
      rfl
  error e := by rw [read_eq_error, slice_eq_error hsize]

end

end Form

section
variable (hsize : data.length < UInt64.size)
include hsize

/-- A word of 16 bits is read as the number with the digits that stand there. -/
theorem word16_eq_ok {w : UInt16} :
    word16 data offset = .ok w ↔ ∃ x y, StandsAt data offset.toNat [x, y] ∧
      w.toNat = 256 * x.toNat + y.toNat := by
  refine ((Form.word16.exact_read hsize).ok w).trans ?_
  constructor
  · intro h
    obtain ⟨x, y, hw⟩ : ∃ x y, Form.word16.octets w = [x, y] := ⟨_, _, rfl⟩
    exact ⟨x, y, hw ▸ h, Form.octets_word16_eq_iff.1 hw⟩
  · rintro ⟨x, y, h, hw⟩
    rwa [Form.octets_word16_eq_iff.2 hw]

/-- A word of 32 bits is read as the number with the digits that stand there, the last one first. -/
theorem word32_eq_ok {w : UInt32} :
    word32 data offset = .ok w ↔ ∃ x y z t, StandsAt data offset.toNat [x, y, z, t] ∧
      w.toNat = x.toNat + 256 * y.toNat + 65536 * z.toNat + 16777216 * t.toNat := by
  refine ((Form.word32.exact_read hsize).ok w).trans ?_
  constructor
  · intro h
    obtain ⟨x, y, z, t, hw⟩ : ∃ x y z t, Form.word32.octets w = [x, y, z, t] := ⟨_, _, _, _, rfl⟩
    exact ⟨x, y, z, t, hw ▸ h, Form.octets_word32_eq_iff.1 hw⟩
  · rintro ⟨x, y, z, t, h, hw⟩
    rwa [Form.octets_word32_eq_iff.2 hw]

end

/-- **Reads are exact up to the end of the range of offsets.**  Octets are read just where they
stand, the empty field up to the end of the others.  Where some are missing, a read tells how many
there would have to be, but no more than the last offset; and no sum that wraps is taken for the
end of a field.  In the same way octets, words and addresses are read just where all their octets
are, as the values that are sent as these: words as the numbers with these digits to the base 256.
So all fields of a message are read as they were written. -/
theorem reads_exact (hsize : data.length < UInt64.size) (offset : UInt64) :
    (∀ count,
      (∀ bs, slice data offset count = .ok bs ↔
        bs.length = count ∧ StandsAt data offset.toNat bs) ∧
      ((∃ bs, slice data offset count = .ok bs) ↔ offset.toNat + count ≤ data.length) ∧
      (∀ e, slice data offset count = .error e ↔
        data.length < offset.toNat + count ∧
          e = .truncated (min (offset.toNat + count) (UInt64.size - 1)) data.length) ∧
      ((offset + .ofNat count).toNat ≠ offset.toNat + count →
        slice data offset count = .error (.truncated (UInt64.size - 1) data.length))) ∧
    Exact 1 (fun b => [b]) data offset (octet data offset) ∧
    Exact 2 (fun w => bigEndian 2 w.toNat) data offset (word16 data offset) ∧
    Exact 4 (fun w => littleEndian 4 w.toNat) data offset (word32 data offset) ∧
    Exact 4 Address.octets data offset (address data offset) ∧
    (∀ w, word16 data offset = .ok w ↔ ∃ x y, StandsAt data offset.toNat [x, y] ∧
      w.toNat = 256 * x.toNat + y.toNat) ∧
    (∀ w, word32 data offset = .ok w ↔ ∃ x y z t, StandsAt data offset.toNat [x, y, z, t] ∧
      w.toNat = x.toNat + 256 * y.toNat + 65536 * z.toNat + 16777216 * t.toNat) ∧
    ∀ (m : Message) tail, m.HeaderReads (m.encode ++ tail) := by
  refine ⟨fun count => ?_, Form.octet.exact_read hsize, Form.word16.exact_read hsize,
    Form.word32.exact_read hsize, Form.address.exact_read hsize, fun _ => word16_eq_ok hsize,
    fun _ => word32_eq_ok hsize, Message.headerReads_encode⟩
  exact ⟨fun _ => slice_eq_ok hsize, exists_slice_iff hsize, fun _ => slice_eq_error hsize,
    slice_of_wraps⟩

/-- The end of four octets and the end of the range of offsets: the empty field is read behind the
octets, but not behind that, and a word at the last offset of all is not read, though its end would
be 1 if the sum wrapped. -/
theorem reads_exact_at_ends :
    ([192, 168, 4, 1] : Octets).length < UInt64.size ∧
    address [192, 168, 4, 1] 0 = .ok ⟨192, 168, 4, 1⟩ ∧
    word16 [192, 168, 4, 1] 2 = .ok 0x0401 ∧
    slice [192, 168, 4, 1] 4 0 = .ok [] ∧
    slice [192, 168, 4, 1] 5 0 = .error (.truncated 5 4) ∧
    word16 [192, 168, 4, 1] 0xffffffffffffffff = .error (.truncated 0xffffffffffffffff 4) := by
  have hsize : ([192, 168, 4, 1] : Octets).length < UInt64.size := by decide
  obtain ⟨-, -, -, -, haddress, -⟩ := reads_exact hsize 0
  obtain ⟨-, -, -, -, -, hword, -⟩ := reads_exact hsize 2
  obtain ⟨hbehind, -⟩ := reads_exact hsize 4
  obtain ⟨hbeyond, -⟩ := reads_exact hsize 5
  obtain ⟨-, -, hlast, -⟩ := reads_exact hsize 0xffffffffffffffff
  refine ⟨hsize, ?_, ?_, ?_, ?_, ?_⟩
  · exact (haddress.ok _).2 ⟨[], [], rfl, rfl⟩
  · exact (hword _).2 ⟨4, 1, ⟨[192, 168], [], rfl, rfl⟩, rfl⟩
  · exact ((hbehind 0).1 []).2 ⟨rfl, [192, 168, 4, 1], [], rfl, rfl⟩
  · exact ((hbeyond 0).2.2.1 _).2 ⟨by decide, rfl⟩
  · exact (hlast.error _).2 ⟨by decide, rfl⟩

end Dhcp.Wire
