import Dhcp.Wire

/-!
# Dhcp.Proofs.Wire

Reading the fields that a packet was put together from.  A field stands where the fields before
it end, and is read there whatever follows it:

* `slice_append` — a field behind a known prefix;
* `slice_flatten` — a field of a list of them;
* `Form.read_of_slice` — the value of a field that was written in the same form.

And, the other way round, what is read of octets that were not written here.  As long as they
last, every field can be read (`slice_of_le`); its value is written as the octets that stand there
(`Form.octets_valueAt`), and these and the rest are all there is (`fieldAt_append_drop`).  Two
packets have the same field where they have the same octets (`fieldAt_eq_fieldAt`).
-/

namespace Dhcp.Wire

variable {data pre field post : Octets} {offset : UInt64}

theorem slice_append (hoffset : pre.length = offset.toNat)
    (hend : offset.toNat + field.length < UInt64.size) :
    slice (pre ++ (field ++ post)) offset field.length = .ok field := by
  have hlength : offset.toNat + field.length ≤ (pre ++ (field ++ post)).length := by
    rw [List.length_append, List.length_append]
    omega
  have hdrop : (pre ++ (field ++ post)).drop offset.toNat = field ++ post := by
    rw [← hoffset, List.drop_left]
  rw [slice, fieldEnd?, if_pos hend]
  dsimp only
  rw [if_pos hlength, hdrop, List.take_left]

/-- A field of a list of them has those before it in front and those after it behind. -/
theorem flatten_eq_append {fields : List Octets} {i : Nat} (hfield : fields[i]? = some field) :
    fields.flatten = (fields.take i).flatten ++ (field ++ (fields.drop (i + 1)).flatten) := by
  obtain ⟨hi, hget⟩ := List.getElem?_eq_some_iff.1 hfield
  rw [← List.flatten_cons, ← hget, ← List.drop_eq_getElem_cons hi, ← List.flatten_append,
    List.take_append_drop]

/-- Where a field begins among fields of known widths. -/
def fieldStart : (widths : List Nat) → (index : Nat) → Nat
  | width :: widths, index + 1 => width + fieldStart widths index
  | _, _ => 0

theorem length_flatten_take (fields : List Octets) (i : Nat) :
    (fields.take i).flatten.length = fieldStart (fields.map List.length) i := by
  induction fields generalizing i with
  | nil => rw [List.take_nil]; rfl
  | cons field fields ih =>
      cases i with
      | zero => rfl
      | succ i => rw [List.take_succ_cons, List.flatten_cons, List.length_append, ih]; rfl

/-- Of fields that are sent one after the other, each is read where it begins. -/
theorem slice_flatten {fields : List Octets} {widths : List Nat} {i count : Nat}
    (hwidths : fields.map List.length = widths) (hend : fields.flatten.length < UInt64.size)
    (hfield : fields[i]? = some field) (hcount : widths[i]? = some count)
    (hoffset : fieldStart widths i = offset.toNat) :
    slice (fields.flatten ++ post) offset count = .ok field := by
  subst hwidths
  rw [List.getElem?_map, hfield, Option.map_some, Option.some.injEq] at hcount
  rw [← length_flatten_take] at hoffset
  have hsplit := flatten_eq_append hfield
  have hfit : offset.toNat + field.length < UInt64.size := by
    rw [hsplit, List.length_append, List.length_append, hoffset] at hend
    omega
  rw [hsplit, List.append_assoc, List.append_assoc, ← hcount]
  exact slice_append hoffset hfit

/-! ## Values of fields -/

theorem toNat_ofNat_ofBigEndian {bs : Octets} (h : bs.length = 2) :
    (UInt16.ofNat (ofBigEndian bs)).toNat = ofBigEndian bs := by
  have hlt := ofBigEndian_lt bs
  rw [h] at hlt
  exact UInt16.toNat_ofNat_of_lt' hlt

theorem toNat_ofNat_ofLittleEndian {bs : Octets} (h : bs.length = 4) :
    (UInt32.ofNat (ofLittleEndian bs)).toNat = ofLittleEndian bs := by
  have hlt := ofLittleEndian_lt bs
  rw [h] at hlt
  exact UInt32.toNat_ofNat_of_lt' hlt

/-- How the values of a type are sent: each as the same number of octets, and every string of that
many octets as one of them. -/
structure Form (α : Type) where
  /-- How many octets a value is sent as. -/
  width : Nat
  /-- The octets that a value is sent as. -/
  octets : α → Octets
  /-- The value that octets are read as. -/
  value : Octets → α
  length_octets : ∀ a, (octets a).length = width
  value_octets : ∀ a, value (octets a) = a
  octets_value : ∀ {bs}, bs.length = width → octets (value bs) = bs

namespace Form

/-- An octet is sent as it is. -/
def octet : Form UInt8 where
  width := 1
  octets b := [b]
  value bs := UInt8.ofNat (ofBigEndian bs)
  length_octets _ := rfl
  value_octets b := by simp [ofBigEndian, ofLittleEndian]
  octets_value {bs} h := by
    match bs, h with
    | [b], _ => simp [ofBigEndian, ofLittleEndian]

/-- Words of 16 bits are sent in network order. -/
def word16 : Form UInt16 where
  width := 2
  octets w := bigEndian 2 w.toNat
  value bs := UInt16.ofNat (ofBigEndian bs)
  length_octets w := length_bigEndian 2 w.toNat
  value_octets w := by rw [ofBigEndian_bigEndian w.toNat_lt, UInt16.ofNat_toNat]
  octets_value {bs} h := by rw [toNat_ofNat_ofBigEndian h, ← h, bigEndian_ofBigEndian]

/-- Words of 32 bits are sent with the least significant octet first. -/
def word32 : Form UInt32 where
  width := 4
  octets w := littleEndian 4 w.toNat
  value bs := UInt32.ofNat (ofLittleEndian bs)
  length_octets w := length_littleEndian 4 w.toNat
  value_octets w := by rw [ofLittleEndian_littleEndian w.toNat_lt, UInt32.ofNat_toNat]
  octets_value {bs} h := by rw [toNat_ofNat_ofLittleEndian h, ← h, littleEndian_ofLittleEndian]

/-- Addresses are sent octet by octet. -/
def address : Form Address where
  width := 4
  octets a := a.octets
  value bs := (Address.ofOctets? bs).getD .unspecified
  length_octets a := a.length_octets
  value_octets a := by rw [Address.ofOctets?_octets, Option.getD_some]
  octets_value {bs} h := by
    match bs, h with
    | [_, _, _, _], _ => rfl

variable {α : Type} (F : Form α)

/-- Reads the value at an offset.  The readers of packets, such as `Wire.octet`, are this for the
four forms. -/
def read (data : Octets) (offset : UInt64) : Except DecodeError α :=
  (slice data offset F.width).map F.value

/-- A field that was written in a form is read as the value that it was written for. -/
theorem read_of_slice {a : α} (h : slice data offset F.width = .ok (F.octets a)) :
    F.read data offset = .ok a := by
  rw [read, h, Except.map, F.value_octets]

end Form

/-! ## Fields of any octets -/

/-- The octets of the field at an offset. -/
def fieldAt (data : Octets) (offset count : Nat) : Octets := (data.drop offset).take count

/-- From an offset on there are the octets of a field, and then those from its end on. -/
theorem fieldAt_append_drop (data : Octets) (offset count : Nat) :
    fieldAt data offset count ++ data.drop (offset + count) = data.drop offset := by
  rw [fieldAt, ← List.drop_drop, List.take_append_drop]

theorem length_fieldAt {data : Octets} {offset count : Nat} (h : offset + count ≤ data.length) :
    (fieldAt data offset count).length = count := by
  rw [fieldAt, List.length_take_of_le]
  rw [List.length_drop]
  omega

/-- A field that the octets reach to the end of is not changed by what follows them. -/
theorem fieldAt_append {data : Octets} {offset count : Nat} (h : offset + count ≤ data.length)
    (more : Octets) : fieldAt (data ++ more) offset count = fieldAt data offset count := by
  have hoffset : offset ≤ data.length := Nat.le_of_add_right_le h
  have hcount : count ≤ (data.drop offset).length := by
    rw [List.length_drop]
    omega
  rw [fieldAt, List.drop_append_of_le_length hoffset, List.take_append_of_le_length hcount,
    fieldAt]

/-- The field behind a known prefix. -/
theorem fieldAt_of_append {start count : Nat} (hstart : pre.length = start)
    (hcount : field.length = count) : fieldAt (pre ++ (field ++ post)) start count = field := by
  rw [fieldAt, ← hstart, List.drop_left, ← hcount, List.take_left]

/-- Whether the same octets stand from an offset up to another. -/
def SameFrom (data data' : Octets) (start stop : Nat) : Prop :=
  ∀ i, start ≤ i → i < stop → data[i]? = data'[i]?

theorem fieldAt_eq_fieldAt {data data' : Octets} {start count : Nat} :
    fieldAt data start count = fieldAt data' start count ↔
      SameFrom data data' start (start + count) := by
  rw [fieldAt, fieldAt, List.ext_getElem?_iff]
  simp only [List.getElem?_take, List.getElem?_drop]
  constructor
  · intro h i hstart hstop
    have hi := h (i - start)
    have hlt : i - start < count := by omega
    rwa [if_pos hlt, if_pos hlt, Nat.add_sub_cancel' hstart] at hi
  · intro h i
    split
    · exact h (start + i) (Nat.le_add_right _ _) (by omega)
    · rfl

/-- Where the same octets stand, the same fields do. -/
theorem SameFrom.fieldAt_eq {data data' : Octets} {start stop offset count : Nat}
    (h : SameFrom data data' start stop) (hstart : start ≤ offset)
    (hstop : offset + count ≤ stop) : fieldAt data offset count = fieldAt data' offset count :=
  fieldAt_eq_fieldAt.2 fun i hi hlt =>
    h i (Nat.le_trans hstart hi) (Nat.lt_of_lt_of_le hlt hstop)

/-- Whether the octets from an offset up to another are zeros. -/
def ZeroFrom (data : Octets) (start stop : Nat) : Prop :=
  ∀ i, start ≤ i → i < stop → data[i]? = some 0

theorem fieldAt_eq_replicate {data : Octets} {start count : Nat} :
    fieldAt data start count = List.replicate count 0 ↔ ZeroFrom data start (start + count) := by
  have hzeros : List.replicate count 0 =
      fieldAt (List.replicate (start + count) 0) start count := by simp [fieldAt]
  rw [hzeros, fieldAt_eq_fieldAt]
  refine forall_congr' fun i => imp_congr_right fun _ => imp_congr_right fun hstop => ?_
  rw [List.getElem?_replicate_of_lt hstop]

/-- A field that the octets reach to the end of can be read. -/
theorem slice_of_le {count : Nat} (hend : offset.toNat + count < UInt64.size)
    (h : offset.toNat + count ≤ data.length) :
    slice data offset count = .ok (fieldAt data offset.toNat count) := by
  rw [slice, fieldEnd?, if_pos hend]
  exact if_pos h

/-- The octets from an offset up to another, where all of them are there. -/
def range? (data : Octets) (start stop : Nat) : Option Octets :=
  if start ≤ stop ∧ stop ≤ data.length then some (fieldAt data start (stop - start)) else none

theorem range?_of_le {start count : Nat} (h : start + count ≤ data.length) :
    range? data start (start + count) = some (fieldAt data start count) := by
  rw [range?, if_pos ⟨Nat.le_add_right .., h⟩, Nat.add_sub_cancel_left]

theorem range?_length {start : Nat} (h : start ≤ data.length) :
    range? data start data.length = some (data.drop start) := by
  have hall : (data.drop start).length = data.length - start := List.length_drop
  rw [range?, if_pos ⟨h, Nat.le_refl _⟩, fieldAt, ← hall, List.take_length]

theorem range?_of_lt {start stop : Nat} (h : data.length < stop) : range? data start stop = none :=
  if_neg fun hinside => Nat.not_lt.2 hinside.2 h

/-- Octets written over the front of others, if those are not fewer. -/
def overwrite? (field bs : Octets) : Option Octets :=
  if bs.length ≤ field.length then some (bs ++ field.drop bs.length) else none

/-- The octet that stands at an offset. -/
def octetAt (data : Octets) (offset : Nat) : UInt8 :=
  UInt8.ofNat (ofBigEndian (fieldAt data offset 1))

theorem octetAt_eq_getD (data : Octets) (start : Nat) : octetAt data start = data.getD start 0 := by
  rw [octetAt, fieldAt, List.getD_eq_getElem?_getD, ← List.head?_drop]
  cases data.drop start <;> simp [ofBigEndian, ofLittleEndian]

theorem SameFrom.octetAt_eq {data data' : Octets} {start stop offset : Nat}
    (h : SameFrom data data' start stop) (hstart : start ≤ offset) (hstop : offset + 1 ≤ stop) :
    octetAt data offset = octetAt data' offset := by
  rw [octetAt, h.fieldAt_eq hstart hstop, octetAt]

/-- The word of 16 bits that stands at an offset. -/
def word16At (data : Octets) (offset : Nat) : UInt16 :=
  UInt16.ofNat (ofBigEndian (fieldAt data offset 2))

/-- The word of 32 bits that stands at an offset, the least significant octet first. -/
def word32At (data : Octets) (offset : Nat) : UInt32 :=
  UInt32.ofNat (ofLittleEndian (fieldAt data offset 4))

/-- The address that stands at an offset. -/
def addressAt (data : Octets) (offset : Nat) : Address :=
  (Address.ofOctets? (fieldAt data offset 4)).getD .unspecified

namespace Form

variable {α : Type} (F : Form α)

/-- The value that stands at an offset.  `octetAt` and its companions are this for the four
forms. -/
def valueAt (data : Octets) (offset : Nat) : α := F.value (fieldAt data offset F.width)

/-- A value whose octets are all there can be read. -/
theorem read_of_le (hend : offset.toNat + F.width < UInt64.size)
    (h : offset.toNat + F.width ≤ data.length) :
    F.read data offset = .ok (F.valueAt data offset.toNat) := by
  rw [read, slice_of_le hend h]
  rfl

/-- A value that stands at an offset would be sent as the octets that are there. -/
theorem octets_valueAt {start : Nat} (h : start + F.width ≤ data.length) :
    F.octets (F.valueAt data start) = fieldAt data start F.width :=
  F.octets_value (length_fieldAt h)

end Form

end Dhcp.Wire
