import Dhcp.Message.Packet
import Dhcp.Proofs.Wire

/-!
# Dhcp.Proofs.Message.Header

What is read of a packet's header.  As soon as all of it is there, nothing but the cookie, the
operation and the length of the hardware address is checked before the options
(`decode_of_length`), and the other fields only tell what they hold, whatever follows them
(`ofHeader_append`).  So a packet that is read is the header of its message, but for the octets
that are not read, and then its options (`eq_append_of_decode`).
-/

namespace Dhcp.Message

/-- The message whose header stands at the front of a packet, with some options. -/
def ofHeader (data : Octets) (op : Operation) (options : Options) : Message where
  op
  htype := Wire.octetAt data 1
  hops := Wire.octetAt data 3
  xid := Wire.word32At data 4
  secs := Wire.word16At data 8
  flags := Wire.word16At data 10
  ciaddr := Wire.addressAt data 12
  yiaddr := Wire.addressAt data 16
  siaddr := Wire.addressAt data 20
  giaddr := Wire.addressAt data 24
  hw := .ofOctets (Wire.fieldAt data 28 (Wire.octetAt data 2).toNat)
  options

/-- A hardware address that is not too long ends within the header. -/
theorem hw_stop_le {data : Octets} (hshort : Wire.octetAt data 2 ≤ 16) :
    28 + (Wire.octetAt data 2).toNat ≤ headerLength := by
  have hmax := UInt8.le_iff_toNat_le.1 hshort
  exact Nat.le_trans (Nat.add_le_add_left hmax 28) (by decide)

section
variable {data : Octets} (h : headerLength ≤ data.length) {offset : UInt64}
include h

/-- Every field of a header that is there in full can be read. -/
theorem slice_of_header {count : Nat} (hstop : offset.toNat + count ≤ headerLength) :
    Wire.slice data offset count = .ok (Wire.fieldAt data offset.toNat count) :=
  Wire.slice_of_le (Nat.lt_of_le_of_lt hstop (by decide)) (Nat.le_trans hstop h)

theorem octet_of_header (hstop : offset.toNat + 1 ≤ headerLength) :
    Wire.octet data offset = .ok (Wire.octetAt data offset.toNat) :=
  Wire.Form.octet.read_of_le (Nat.lt_of_le_of_lt hstop (by decide)) (Nat.le_trans hstop h)

theorem word16_of_header (hstop : offset.toNat + 2 ≤ headerLength) :
    Wire.word16 data offset = .ok (Wire.word16At data offset.toNat) :=
  Wire.Form.word16.read_of_le (Nat.lt_of_le_of_lt hstop (by decide)) (Nat.le_trans hstop h)

theorem word32_of_header (hstop : offset.toNat + 4 ≤ headerLength) :
    Wire.word32 data offset = .ok (Wire.word32At data offset.toNat) :=
  Wire.Form.word32.read_of_le (Nat.lt_of_le_of_lt hstop (by decide)) (Nat.le_trans hstop h)

theorem address_of_header (hstop : offset.toNat + 4 ≤ headerLength) :
    Wire.address data offset = .ok (Wire.addressAt data offset.toNat) :=
  Wire.Form.address.read_of_le (Nat.lt_of_le_of_lt hstop (by decide)) (Nat.le_trans hstop h)

end

/-- **What is checked of a packet** that is as long as a header: the cookie, the operation, the
length of the hardware address and then the options, in this order. -/
theorem decode_of_length {data : Octets} (h : headerLength ≤ data.length) :
    decode data =
      if Wire.fieldAt data 236 4 ≠ magicCookie then .error .badCookie
      else
        match Operation.ofOctet? (Wire.octetAt data 0) with
        | none => .error (.unknownOperation (Wire.octetAt data 0))
        | some op =>
          if 16 < Wire.octetAt data 2 then .error (.hardwareTooLong (Wire.octetAt data 2))
          else (Options.decode (data.drop headerLength)).map (ofHeader data op) := by
  have hlength : ¬ data.length < headerLength := Nat.not_lt.2 h
  have hcookie : Wire.slice data 236 4 = .ok (Wire.fieldAt data 236 4) :=
    slice_of_header h (by decide)
  have hop : Wire.octet data 0 = .ok (Wire.octetAt data 0) := octet_of_header h (by decide)
  have hhlen : Wire.octet data 2 = .ok (Wire.octetAt data 2) := octet_of_header h (by decide)
  simp only [decode, if_neg hlength, bind, Except.bind, pure, Except.pure, hcookie, hop, hhlen]
  by_cases hmagic : Wire.fieldAt data 236 4 ≠ magicCookie
  · rw [if_pos hmagic, if_pos hmagic]
    rfl
  rw [if_neg hmagic, if_neg hmagic]
  cases Operation.ofOctet? (Wire.octetAt data 0) with
  | none => rfl
  | some op =>
      by_cases hlong : 16 < Wire.octetAt data 2
      · simp only [if_pos hlong]
        rfl
      have hhw : Wire.slice data 28 (Wire.octetAt data 2).toNat =
          .ok (Wire.fieldAt data 28 (Wire.octetAt data 2).toNat) :=
        slice_of_header h (hw_stop_le (UInt8.not_lt.1 hlong))
      simp (disch := decide) only [if_neg hlong, octet_of_header h, word16_of_header h,
        word32_of_header h, address_of_header h, hhw]
      cases Options.decode (data.drop headerLength) <;> rfl

theorem decode_of_lt {data : Octets} (h : data.length < headerLength) :
    decode data = .error (.truncated headerLength data.length) := by
  simp only [decode, if_pos h]
  rfl

/-- A packet is read if it is as long as a header, passes the checks, and its options are read;
and it is read as its header says. -/
theorem decode_eq_ok {data : Octets} {m : Message} :
    decode data = .ok m ↔
      headerLength ≤ data.length ∧ Wire.fieldAt data 236 4 = magicCookie ∧
        Operation.ofOctet? (Wire.octetAt data 0) = some m.op ∧ Wire.octetAt data 2 ≤ 16 ∧
          Options.decode (data.drop headerLength) = .ok m.options ∧
            m = ofHeader data m.op m.options := by
  by_cases h : headerLength ≤ data.length
  · rw [decode_of_length h]
    constructor
    · intro hread
      split at hread
      · contradiction
      next hmagic =>
        split at hread
        · contradiction
        next op hop =>
          split at hread
          · contradiction
          next hlong =>
            cases hoptions : Options.decode (data.drop headerLength) with
            | error e =>
                rw [hoptions] at hread
                contradiction
            | ok os =>
                rw [hoptions] at hread
                cases hread
                exact ⟨h, Decidable.not_not.1 hmagic, hop, UInt8.not_lt.1 hlong, rfl, rfl⟩
    · rintro ⟨-, hmagic, hop, hshort, hoptions, hm⟩
      rw [if_neg (not_not_intro hmagic), hop]
      simp only [if_neg (UInt8.not_lt.2 hshort), hoptions, Except.map]
      rw [← hm]
  · rw [decode_of_lt (Nat.not_le.1 h)]
    constructor
    · intro hread
      contradiction
    · rintro ⟨hlength, -⟩
      exact absurd hlength h

/-! ## Headers and what follows them -/

section
variable {data : Octets} (h : headerLength ≤ data.length) (more : Octets)
include h

theorem fieldAt_append_of_header {offset count : Nat} (hstop : offset + count ≤ headerLength) :
    Wire.fieldAt (data ++ more) offset count = Wire.fieldAt data offset count :=
  Wire.fieldAt_append (Nat.le_trans hstop h) more

theorem octetAt_append {offset : Nat} (hstop : offset + 1 ≤ headerLength) :
    Wire.octetAt (data ++ more) offset = Wire.octetAt data offset := by
  rw [Wire.octetAt, fieldAt_append_of_header h more hstop, Wire.octetAt]

/-- A header tells the same whatever follows it. -/
theorem ofHeader_append (hshort : Wire.octetAt data 2 ≤ 16) (op : Operation) (os : Options) :
    ofHeader (data ++ more) op os = ofHeader data op os := by
  simp (disch := decide) only [ofHeader, Wire.word32At, Wire.word16At, Wire.addressAt,
    octetAt_append h, fieldAt_append_of_header h,
    fieldAt_append_of_header h more (hw_stop_le hshort)]

end

/-- The options behind a header that passes its checks decide whether the packet is read. -/
theorem decode_header_append {header : Octets} {op : Operation} (h : header.length = headerLength)
    (hcookie : Wire.fieldAt header 236 4 = magicCookie)
    (hop : Operation.ofOctet? (Wire.octetAt header 0) = some op)
    (hshort : Wire.octetAt header 2 ≤ 16) (stream : Octets) :
    decode (header ++ stream) = (Options.decode stream).map (ofHeader header op) := by
  have hle := Nat.le_of_eq h.symm
  have hlength : headerLength ≤ (header ++ stream).length := by
    rw [List.length_append]
    exact Nat.le_add_right_of_le hle
  rw [decode_of_length hlength, fieldAt_append_of_header hle stream (by decide),
    octetAt_append hle stream (by decide), octetAt_append hle stream (by decide),
    if_neg (not_not_intro hcookie), hop, ← h, List.drop_left]
  dsimp only
  rw [if_neg (UInt8.not_lt.2 hshort)]
  exact congrArg (Except.map · _) (funext fun os => ofHeader_append hle stream hshort op os)

/-! ## Headers that were not written here -/

/-- The octets of a header in which `fill` stands behind the hardware address, and `names` for the
names of the server and its boot file. -/
def headerWith (m : Message) (fill names : Octets) : Octets :=
  [m.op.octet, m.htype, UInt8.ofNat m.hw.length, m.hops]
    ++ (littleEndian 4 m.xid.toNat ++ (bigEndian 2 m.secs.toNat ++ (bigEndian 2 m.flags.toNat
    ++ (m.ciaddr.octets ++ (m.yiaddr.octets ++ (m.siaddr.octets ++ (m.giaddr.octets
    ++ (m.hw.octets ++ (fill ++ (names ++ magicCookie))))))))))

/-- A message is sent with zeros where nothing is read. -/
theorem encodeHeader_eq_headerWith (m : Message) :
    m.encodeHeader =
      m.headerWith (List.replicate (16 - m.hw.length) 0) (List.replicate 192 0) := by
  simp only [encodeHeader, headerWith, HardwareAddress.field, HardwareAddress.length,
    List.append_assoc]

theorem headerWith_append_inj (m : Message) {fill fill' names names' rest rest' : Octets}
    (hfill : fill.length = fill'.length) (hnames : names.length = names'.length) :
    m.headerWith fill names ++ rest = m.headerWith fill' names' ++ rest' ↔
      fill = fill' ∧ names = names' ∧ rest = rest' := by
  constructor
  · intro h
    simp only [headerWith, List.append_assoc, List.append_cancel_left_eq] at h
    obtain ⟨rfl, hnext⟩ := List.append_inj h hfill
    obtain ⟨rfl, hlast⟩ := List.append_inj hnext hnames
    exact ⟨rfl, rfl, List.append_cancel_left hlast⟩
  · rintro ⟨rfl, rfl, rfl⟩
    rfl

section
variable {data : Octets} {m : Message} (h : decode data = .ok m)
include h

theorem length_of_decode : headerLength ≤ data.length := (decode_eq_ok.1 h).1

theorem options_of_decode : Options.decode (data.drop headerLength) = .ok m.options :=
  (decode_eq_ok.1 h).2.2.2.2.1

/-- The octets of the hardware address are as many as the header tells. -/
theorem length_hw_of_decode :
    m.hw.length = (Wire.octetAt data 2).toNat ∧
      m.hw.octets = Wire.fieldAt data 28 (Wire.octetAt data 2).toNat := by
  obtain ⟨hlength, -, -, hshort, -, hm⟩ := decode_eq_ok.1 h
  have hmax : (Wire.octetAt data 2).toNat ≤ 16 := UInt8.le_iff_toNat_le.1 hshort
  have hfield : (Wire.fieldAt data 28 (Wire.octetAt data 2).toNat).length =
      (Wire.octetAt data 2).toNat :=
    Wire.length_fieldAt (Nat.le_trans (hw_stop_le hshort) hlength)
  have hhw : m.hw.octets = Wire.fieldAt data 28 (Wire.octetAt data 2).toNat := by
    rw [hm]
    exact List.take_of_length_le (hfield.symm ▸ hmax)
  exact ⟨by rw [HardwareAddress.length, hhw, hfield], hhw⟩

/-- The first four octets of a packet are those that its message is sent with. -/
theorem first_of_decode :
    [m.op.octet, m.htype, UInt8.ofNat m.hw.length, m.hops] = Wire.fieldAt data 0 4 := by
  obtain ⟨hlength, -, hop, -, -, hm⟩ := decode_eq_ok.1 h
  have hle : ∀ {stop : Nat}, stop ≤ 240 → stop ≤ data.length :=
    fun hstop => Nat.le_trans hstop hlength
  have hsplit : Wire.fieldAt data 0 4 = Wire.fieldAt data 0 1 ++ (Wire.fieldAt data 1 1 ++
      (Wire.fieldAt data 2 1 ++ Wire.fieldAt data 3 1)) := by
    match data, hle (show 4 ≤ 240 by decide) with
    | _ :: _ :: _ :: _ :: _, _ => rfl
  have hoctet {start : Nat} (hstop : start + 1 ≤ 240) :
      Wire.fieldAt data start 1 = [Wire.octetAt data start] :=
    (Wire.Form.octet.octets_valueAt (hle hstop)).symm
  rw [hsplit, ← Operation.ofOctet?_eq_some.1 hop, (length_hw_of_decode h).1, UInt8.ofNat_toNat,
    hoctet (by decide), hoctet (by decide), hoctet (by decide), hoctet (by decide), hm]
  rfl

/-- **A packet that is read is its message's header**, but for what is not read of it, and then
the options. -/
theorem eq_append_of_decode :
    data = m.headerWith (Wire.fieldAt data (28 + m.hw.length) (16 - m.hw.length))
      (Wire.fieldAt data 44 192) ++ data.drop headerLength := by
  have hfirst := first_of_decode h
  obtain ⟨hcount, hhw⟩ := length_hw_of_decode h
  obtain ⟨hlength, hmagic, -, -, -, hm⟩ := decode_eq_ok.1 h
  have hle : ∀ {stop : Nat}, stop ≤ 240 → stop ≤ data.length :=
    fun hstop => Nat.le_trans hstop hlength
  have hxid : littleEndian 4 m.xid.toNat = Wire.fieldAt data 4 4 := by
    rw [hm]
    exact Wire.Form.word32.octets_valueAt (hle (by decide))
  have hsecs : bigEndian 2 m.secs.toNat = Wire.fieldAt data 8 2 := by
    rw [hm]
    exact Wire.Form.word16.octets_valueAt (hle (by decide))
  have hflags : bigEndian 2 m.flags.toNat = Wire.fieldAt data 10 2 := by
    rw [hm]
    exact Wire.Form.word16.octets_valueAt (hle (by decide))
  have haddress : m.ciaddr.octets = Wire.fieldAt data 12 4 ∧
      m.yiaddr.octets = Wire.fieldAt data 16 4 ∧ m.siaddr.octets = Wire.fieldAt data 20 4 ∧
        m.giaddr.octets = Wire.fieldAt data 24 4 := by
    rw [hm]
    have hoctets {start : Nat} (hstop : start + 4 ≤ 240) :
        (Wire.addressAt data start).octets = Wire.fieldAt data start 4 :=
      Wire.Form.address.octets_valueAt (hle hstop)
    exact ⟨hoctets (by decide), hoctets (by decide), hoctets (by decide), hoctets (by decide)⟩
  obtain ⟨hciaddr, hyiaddr, hsiaddr, hgiaddr⟩ := haddress
  have hfill : Wire.fieldAt data (28 + m.hw.length) (16 - m.hw.length) ++ data.drop 44 =
      data.drop (28 + m.hw.length) := by
    have hmax := m.hw.length_le
    rw [← HardwareAddress.length] at hmax
    have hsplit := Wire.fieldAt_append_drop data (28 + m.hw.length) (16 - m.hw.length)
    rwa [show 28 + m.hw.length + (16 - m.hw.length) = 44 by omega] at hsplit
  -- from the end of the header on, each field is put in front of those behind it
  rw [headerWith, hfirst, hxid, hsecs, hflags, hciaddr, hyiaddr, hsiaddr, hgiaddr, hhw, ← hcount,
    ← hmagic]
  simp only [List.append_assoc]
  rw [Wire.fieldAt_append_drop data 236 4, Wire.fieldAt_append_drop data 44 192, hfill,
    Wire.fieldAt_append_drop data 28, Wire.fieldAt_append_drop data 24 4,
    Wire.fieldAt_append_drop data 20 4, Wire.fieldAt_append_drop data 16 4,
    Wire.fieldAt_append_drop data 12 4, Wire.fieldAt_append_drop data 10 2,
    Wire.fieldAt_append_drop data 8 2, Wire.fieldAt_append_drop data 4 4,
    Wire.fieldAt_append_drop data 0 4, List.drop_zero]

end

end Dhcp.Message
