import Dhcp.Error
import Dhcp.Proofs.Message.Header
import Dhcp.Proofs.Message.RoundTrip
import Dhcp.Proofs.Options.Cursor

/-!
# Dhcp.Proofs.Message.Bounds

Packets are read and written within their bounds.  `Message.inspect` reads a packet by index, and
does not look whether the options and the hardware address are there before it takes them.  It
never takes what is not there, and reads what is read otherwise (`inspect_eq`).  A packet that is
shorter than a header is refused for that (`decode_eq_truncated`), and of any other the first of
the `objections` to it counts (`objection?_eq`).

A hardware address is never longer than its field, however it was made, so that `Message.assemble`
writes every message without a look at its length (`assemble_eq`).
-/

namespace Dhcp

/-- Octets other than 1 and 2 stand for no operation. -/
theorem Operation.ofOctet?_eq_none {b : UInt8} : ofOctet? b = none ↔ ¬ (b = 1 ∨ b = 2) := by
  rw [Option.eq_none_iff_forall_ne_some]
  constructor
  · rintro h (rfl | rfl)
    · exact h .request (ofOctet?_octet .request)
    · exact h .reply (ofOctet?_octet .reply)
  · intro h op hop
    rw [ofOctet?_eq_some.1 hop] at h
    cases op <;> exact h (by decide)

/-- Options are not refused for the length of their packet. -/
theorem Options.decode_ne_truncated (data : Octets) (needed actual : Nat) :
    decode data ≠ .error (.truncated needed actual) := by
  rw [Ne, decode_eq_error (by simp)]
  rintro ⟨-, es, rest, -, hstop⟩
  cases hstop with
  | malformed tail hform hdecode =>
      obtain ⟨flaw, he⟩ := OptionField.malformed_of_decode hdecode
      contradiction

namespace Message

/-! ## Reading by index -/

/-- Reads a message as `decode` does, but the options by index, and takes their octets and those of
the hardware address without a look whether they are there. -/
def inspect (data : Octets) : ExceptT DecodeError Option Message := do
  if data.length < headerLength then
    throw (.truncated headerLength data.length)
  if (← Wire.slice data 236 4) ≠ magicCookie then
    throw .badCookie
  let opOctet ← Wire.octet data 0
  let some op := Operation.ofOctet? opOctet
    | throw (.unknownOperation opOctet)
  let hlen ← Wire.octet data 2
  if 16 < hlen then
    throw (.hardwareTooLong hlen)
  let options ← Options.scan (← Wire.range? data headerLength data.length)
  return {
    op
    htype := ← Wire.octet data 1
    hops := ← Wire.octet data 3
    xid := ← Wire.word32 data 4
    secs := ← Wire.word16 data 8
    flags := ← Wire.word16 data 10
    ciaddr := ← Wire.address data 12
    yiaddr := ← Wire.address data 16
    siaddr := ← Wire.address data 20
    giaddr := ← Wire.address data 24
    hw := .ofOctets (← Wire.range? data 28 (28 + hlen.toNat))
    options
  }

section
variable {α β : Type} (f : α → ExceptT DecodeError Option β) (a : α)

theorem ok_bind : (liftM (Except.ok a : Except DecodeError α) >>= f) = f a := rfl

theorem some_bind : (liftM (some a) >>= f) = f a := rfl

end

/-- **Nothing is taken that is not there**, and what is read by index is what is read. -/
theorem inspect_eq (data : Octets) : (inspect data).run = some (decode data) := by
  by_cases hshort : data.length < headerLength
  · rw [decode_of_lt hshort]
    simp only [inspect, if_pos hshort]
    rfl
  have h := Nat.not_lt.1 hshort
  have hcookie : Wire.slice data 236 4 = .ok (Wire.fieldAt data 236 4) :=
    slice_of_header h (by decide)
  have hop : Wire.octet data 0 = .ok (Wire.octetAt data 0) := octet_of_header h (by decide)
  have hhlen : Wire.octet data 2 = .ok (Wire.octetAt data 2) := octet_of_header h (by decide)
  rw [decode_of_length h]
  simp only [inspect, if_neg hshort, hcookie, hop, hhlen, ok_bind]
  by_cases hmagic : Wire.fieldAt data 236 4 ≠ magicCookie
  · rw [if_pos hmagic, if_pos hmagic]
    rfl
  rw [if_neg hmagic, if_neg hmagic]
  cases Operation.ofOctet? (Wire.octetAt data 0) with
  | none => rfl
  | some op =>
      by_cases hlong : 16 < Wire.octetAt data 2
      · simp only [if_pos hlong]
        rfl
      have hhw : Wire.range? data 28 (28 + (Wire.octetAt data 2).toNat) =
          some (Wire.fieldAt data 28 (Wire.octetAt data 2).toNat) :=
        Wire.range?_of_le (Nat.le_trans (hw_stop_le (UInt8.not_lt.1 hlong)) h)
      simp (disch := decide) only [if_neg hlong, octet_of_header h, word16_of_header h,
        word32_of_header h, address_of_header h, hhw, Wire.range?_length h, Options.scan_eq,
        ok_bind, some_bind]
      cases Options.decode (data.drop headerLength) <;> rfl

/-! ## Why a packet is refused -/

/-- What can be said against a packet that is as long as a header, in the order in which it
counts. -/
def objections (data : Octets) : List (Option DecodeError) :=
  [ if Wire.fieldAt data 236 4 = magicCookie then none else some .badCookie
  , if Wire.octetAt data 0 = 1 ∨ Wire.octetAt data 0 = 2 then none
    else some (.unknownOperation (Wire.octetAt data 0))
  , if Wire.octetAt data 2 ≤ 16 then none else some (.hardwareTooLong (Wire.octetAt data 2))
  , match Options.decode (data.drop headerLength) with
    | .error e => some e
    | .ok _ => none ]

/-- The objection that counts. -/
def objection? (data : Octets) : Option DecodeError := (objections data).findSome? id

/-- **The first objection counts.** -/
theorem objection?_eq {data : Octets} (h : headerLength ≤ data.length) :
    objection? data = match decode data with
      | .error e => some e
      | .ok _ => none := by
  rw [decode_of_length h, objection?, objections, List.findSome?_cons]
  by_cases hmagic : Wire.fieldAt data 236 4 = magicCookie
  · rw [if_neg (not_not_intro hmagic), if_pos hmagic]
    dsimp only [id]
    rw [List.findSome?_cons]
    cases hop : Operation.ofOctet? (Wire.octetAt data 0) with
    | none =>
        rw [if_neg (Operation.ofOctet?_eq_none.1 hop)]
        rfl
    | some op =>
        have hknown : Wire.octetAt data 0 = 1 ∨ Wire.octetAt data 0 = 2 := by
          rw [← Decidable.not_not (p := _ ∨ _), ← Operation.ofOctet?_eq_none, hop]
          exact nofun
        rw [if_pos hknown]
        dsimp only [id]
        by_cases hlong : 16 < Wire.octetAt data 2
        · rw [List.findSome?_cons, if_neg (UInt8.not_le.2 hlong), if_pos hlong]
          rfl
        · rw [List.findSome?_cons, if_pos (UInt8.not_lt.1 hlong), if_neg hlong]
          cases Options.decode (data.drop headerLength) <;> rfl
  · rw [if_pos hmagic, if_neg hmagic]
    rfl

theorem decode_eq_error_iff {data : Octets} {e : DecodeError} (h : headerLength ≤ data.length) :
    decode data = .error e ↔ objection? data = some e := by
  rw [objection?_eq h]
  cases decode data <;> simp

theorem exists_decode_iff {data : Octets} (h : headerLength ≤ data.length) :
    (∃ m, decode data = .ok m) ↔ objection? data = none := by
  rw [objection?_eq h]
  cases decode data <;> simp

theorem objection?_ne_truncated (data : Octets) (needed actual : Nat) :
    objection? data ≠ some (.truncated needed actual) := by
  intro h
  obtain ⟨o, ho, rfl⟩ := List.exists_of_findSome?_eq_some h
  simp only [objections, List.mem_cons, List.not_mem_nil, or_false] at ho
  obtain ho | ho | ho | ho := ho
  · split at ho <;> cases ho
  · split at ho <;> cases ho
  · split at ho <;> cases ho
  · split at ho
    · next hdecode =>
        cases ho
        exact Options.decode_ne_truncated _ _ _ hdecode
    · cases ho

/-- **Only a packet that is shorter than a header is refused for its length.** -/
theorem decode_eq_truncated {data : Octets} {needed actual : Nat} :
    decode data = .error (.truncated needed actual) ↔
      data.length < headerLength ∧ needed = headerLength ∧ actual = data.length := by
  constructor
  · intro h
    by_cases hshort : data.length < headerLength
    · rw [decode_of_lt hshort] at h
      cases h
      exact ⟨hshort, rfl, rfl⟩
    · have hobjection := (decode_eq_error_iff (Nat.not_lt.1 hshort)).1 h
      exact absurd hobjection (objection?_ne_truncated data needed actual)
  · rintro ⟨hshort, rfl, rfl⟩
    exact decode_of_lt hshort

/-! ## Writing -/

/-- The front of a header: what is sent before the hardware address. -/
def encodeFront (m : Message) : Octets :=
  [m.op.octet, m.htype, UInt8.ofNat m.hw.length, m.hops]
    ++ littleEndian 4 m.xid.toNat
    ++ bigEndian 2 m.secs.toNat
    ++ bigEndian 2 m.flags.toNat
    ++ m.ciaddr.octets ++ m.yiaddr.octets ++ m.siaddr.octets ++ m.giaddr.octets

theorem length_encodeFront (m : Message) : m.encodeFront.length = 28 := by
  simp only [encodeFront, List.length_append, List.length_cons, List.length_nil,
    length_littleEndian, length_bigEndian, Address.length_octets]

theorem encode_eq (m : Message) :
    m.encode = m.encodeFront ++ (m.hw.field ++ (List.replicate 192 0 ++
      (magicCookie ++ m.options.encode))) := by
  simp only [encode, encodeHeader, encodeFront, List.append_assoc]

/-- Writes a message as `encode` does, but lays the hardware address over a field of zeros, without
a look whether it fits. -/
def assemble (m : Message) : Option Octets := do
  let field ← Wire.overwrite? (List.replicate 16 0) m.hw.octets
  return m.encodeFront ++ field ++ List.replicate 192 0 ++ magicCookie ++ m.options.encode

/-- **Nothing is written beyond its field**, and what is laid over zeros is what is sent. -/
theorem assemble_eq (m : Message) : m.assemble = some m.encode := by
  have hfits : m.hw.octets.length ≤ (List.replicate 16 (0 : UInt8)).length := by
    rw [List.length_replicate]
    exact m.hw.length_le
  have hfield : Wire.overwrite? (List.replicate 16 0) m.hw.octets = some m.hw.field := by
    rw [Wire.overwrite?, if_pos hfits, List.drop_replicate, HardwareAddress.field]
  rw [assemble, hfield]
  rfl

/-- The hardware address stands in its field. -/
theorem fieldAt_encode_hw (m : Message) : Wire.fieldAt m.encode 28 16 = m.hw.field := by
  rw [encode_eq]
  exact Wire.fieldAt_of_append m.length_encodeFront m.hw.length_field

/-- The cookie stands at the end of the header. -/
theorem fieldAt_encode_cookie (m : Message) : Wire.fieldAt m.encode 236 4 = magicCookie := by
  have hlength : (m.encodeFront ++ m.hw.field ++ List.replicate 192 0).length = 236 := by
    rw [List.length_append, List.length_append, length_encodeFront, HardwareAddress.length_field,
      List.length_replicate]
  rw [encode_eq, ← List.append_assoc, ← List.append_assoc]
  exact Wire.fieldAt_of_append hlength rfl

/-- **Packets are read and written within their bounds.**  Nothing is taken of octets that is not
there, and reading them ends, with a message or with a reason to refuse them.  They are refused for
their length just if they are fewer than a header's, and every field of a header can be read if
they are not; the first objection to them counts then.  However a hardware address is made, it fits
its field, so that every message is written, with its cookie at the end of its header. -/
theorem within_bounds (data : Octets) :
    (inspect data).run = some (decode data) ∧ (∀ stream, Options.ScansWithin stream) ∧
    (∀ e, decode data = .error e → (Error.decode e).isDecode) ∧
    (∀ needed actual, decode data = .error (.truncated needed actual) ↔
      data.length < 240 ∧ needed = 240 ∧ actual = data.length) ∧
    (240 ≤ data.length →
      (∀ (offset : UInt64) count, offset.toNat + count ≤ 240 →
        Wire.slice data offset count = .ok (Wire.fieldAt data offset.toNat count)) ∧
      (∀ e, decode data = .error e ↔ objection? data = some e) ∧
      ((∃ m, decode data = .ok m) ↔ objection? data = none)) ∧
    ((∀ hw : HardwareAddress, hw.octets.length ≤ 16) ∧
      (∀ bs, (HardwareAddress.ofOctets bs).octets = bs.take 16) ∧
      (∀ mac, (HardwareAddress.ofEthernet mac).octets = mac.toList) ∧
      HardwareAddress.empty.octets = [] ∧
      ∀ m, decode data = .ok m →
        m.hw.octets = Wire.fieldAt data 28 (Wire.octetAt data 2).toNat ∧
          (Wire.octetAt data 2).toNat ≤ 16) ∧
    (∀ m : Message, m.assemble = some m.encode ∧
      m.encode = m.encodeHeader ++ m.options.encode ∧ m.encodeHeader.length = 240 ∧
      Wire.fieldAt m.encode 28 16 = m.hw.octets ++ List.replicate (16 - m.hw.octets.length) 0 ∧
      Wire.fieldAt m.encode 236 4 = [99, 130, 83, 99]) := by
  refine ⟨inspect_eq data, Options.scansWithin, fun _ _ => rfl,
    fun _ _ => decode_eq_truncated, ?_, ⟨?_, ?_, ?_, rfl, ?_⟩, ?_⟩
  · intro h
    exact ⟨fun _ _ => slice_of_header h, fun _ => decode_eq_error_iff h, exists_decode_iff h⟩
  · exact fun hw => hw.length_le
  · exact fun _ => rfl
  · exact fun _ => rfl
  · intro m hm
    obtain ⟨hcount, hoctets⟩ := length_hw_of_decode hm
    exact ⟨hoctets, hcount ▸ m.hw.length_le⟩
  · intro m
    exact ⟨m.assemble_eq, rfl, m.length_encodeHeader, m.fieldAt_encode_hw,
      m.fieldAt_encode_cookie⟩

end Message

end Dhcp
