import Dhcp.Message.Packet
import Dhcp.Proofs.Options.Stream
import Dhcp.Proofs.Wire

/-!
# Dhcp.Proofs.Message.RoundTrip

Messages that are sent and read again.  Every field of the header is read at the offset at which
it was written (`headerReads_encode`), so that a message comes back as it was, but for its options
(`decode_encode_append`); and these come back in their order, each as the payload reads that was
sent for it (`decode_encode`).
-/

namespace Dhcp

theorem HardwareAddress.ofOctets_octets (hw : HardwareAddress) : ofOctets hw.octets = hw := by
  ext1
  exact List.take_of_length_le hw.length_le

namespace Message

/-! ## The header -/

/-- The fields of the header one by one.  The hardware address and what fills up its field are
apart, since only the former is read. -/
def headerFields (m : Message) : List Octets :=
  [ [m.op.octet], [m.htype], [UInt8.ofNat m.hw.length], [m.hops]
  , littleEndian 4 m.xid.toNat, bigEndian 2 m.secs.toNat, bigEndian 2 m.flags.toNat
  , m.ciaddr.octets, m.yiaddr.octets, m.siaddr.octets, m.giaddr.octets
  , m.hw.octets, List.replicate (16 - m.hw.octets.length) 0
  , List.replicate 192 0, magicCookie ]

theorem flatten_headerFields (m : Message) : m.headerFields.flatten = m.encodeHeader := by
  simp only [headerFields, encodeHeader, HardwareAddress.field, List.flatten_cons,
    List.flatten_nil, List.append_nil, List.append_assoc, List.cons_append, List.nil_append]

theorem length_encodeHeader (m : Message) : m.encodeHeader.length = headerLength := by
  simp only [encodeHeader, List.length_append, List.length_cons, List.length_nil,
    List.length_replicate, length_littleEndian, length_bigEndian, Address.length_octets,
    HardwareAddress.length_field, magicCookie]

/-- The widths of the fields of the header. -/
def headerWidths (m : Message) : List Nat :=
  [ 1, 1, 1, 1, 4, 2, 2, 4, 4, 4, 4
  , m.hw.octets.length, 16 - m.hw.octets.length, 192, 4 ]

theorem map_length_headerFields (m : Message) :
    m.headerFields.map List.length = m.headerWidths := by
  simp only [headerFields, headerWidths, List.map_cons, List.map_nil, List.length_cons,
    List.length_nil, List.length_replicate, length_littleEndian, length_bigEndian,
    Address.length_octets, magicCookie]

/-- A field of the header is read from a packet where it begins. -/
theorem slice_encode (m : Message) (tail : Octets) {i count : Nat} {field : Octets}
    {offset : UInt64} (hfield : m.headerFields[i]? = some field)
    (hcount : m.headerWidths[i]? = some count)
    (hoffset : Wire.fieldStart m.headerWidths i = offset.toNat) :
    Wire.slice (m.encode ++ tail) offset count = .ok field := by
  have hend : m.headerFields.flatten.length < UInt64.size := by
    rw [flatten_headerFields, length_encodeHeader]
    decide
  rw [encode, ← flatten_headerFields, List.append_assoc]
  exact Wire.slice_flatten m.map_length_headerFields hend hfield hcount hoffset

theorem toNat_length_hw (m : Message) : (UInt8.ofNat m.hw.length).toNat = m.hw.octets.length := by
  have hmax := m.hw.length_le
  rw [UInt8.toNat_ofNat', HardwareAddress.length]
  omega

/-- Whether the fields of a message, the hardware address and the cookie among them, are read where
the header of a packet has them. -/
structure HeaderReads (m : Message) (data : Octets) : Prop where
  op : Wire.octet data 0 = .ok m.op.octet
  htype : Wire.octet data 1 = .ok m.htype
  hlen : Wire.octet data 2 = .ok (UInt8.ofNat m.hw.length)
  hops : Wire.octet data 3 = .ok m.hops
  xid : Wire.word32 data 4 = .ok m.xid
  secs : Wire.word16 data 8 = .ok m.secs
  flags : Wire.word16 data 10 = .ok m.flags
  ciaddr : Wire.address data 12 = .ok m.ciaddr
  yiaddr : Wire.address data 16 = .ok m.yiaddr
  siaddr : Wire.address data 20 = .ok m.siaddr
  giaddr : Wire.address data 24 = .ok m.giaddr
  hw : Wire.slice data 28 m.hw.octets.length = .ok m.hw.octets
  cookie : Wire.slice data 236 4 = .ok magicCookie

/-- **Fields are read as they were written**, whatever follows a message. -/
theorem headerReads_encode (m : Message) (tail : Octets) : m.HeaderReads (m.encode ++ tail) where
  op := Wire.Form.octet.read_of_slice (slice_encode m tail (i := 0) rfl rfl rfl)
  htype := Wire.Form.octet.read_of_slice (slice_encode m tail (i := 1) rfl rfl rfl)
  hlen := Wire.Form.octet.read_of_slice (slice_encode m tail (i := 2) rfl rfl rfl)
  hops := Wire.Form.octet.read_of_slice (slice_encode m tail (i := 3) rfl rfl rfl)
  xid := Wire.Form.word32.read_of_slice (slice_encode m tail (i := 4) rfl rfl rfl)
  secs := Wire.Form.word16.read_of_slice (slice_encode m tail (i := 5) rfl rfl rfl)
  flags := Wire.Form.word16.read_of_slice (slice_encode m tail (i := 6) rfl rfl rfl)
  ciaddr := Wire.Form.address.read_of_slice (slice_encode m tail (i := 7) rfl rfl rfl)
  yiaddr := Wire.Form.address.read_of_slice (slice_encode m tail (i := 8) rfl rfl rfl)
  siaddr := Wire.Form.address.read_of_slice (slice_encode m tail (i := 9) rfl rfl rfl)
  giaddr := Wire.Form.address.read_of_slice (slice_encode m tail (i := 10) rfl rfl rfl)
  hw := slice_encode m tail (i := 11) rfl rfl rfl
  cookie := by
    apply slice_encode m tail (i := 14) rfl rfl
    have hmax := m.hw.length_le
    simp only [headerWidths, Wire.fieldStart]
    change _ = 236
    omega

/-- **The header round trips**: of a packet that a message was sent as, only the options can
be read as others, and only they can be refused. -/
theorem decode_encode_append (m : Message) (tail : Octets) :
    decode (m.encode ++ tail) =
      (Options.decode (m.options.encode ++ tail)).map fun os => { m with options := os } := by
  have hlength : ¬ (m.encode ++ tail).length < headerLength := by
    rw [encode, List.length_append, List.length_append, length_encodeHeader]
    omega
  have hreads := m.headerReads_encode tail
  have hshort : ¬ 16 < UInt8.ofNat m.hw.length := by
    rw [UInt8.lt_iff_toNat_lt, toNat_length_hw]
    exact Nat.not_lt.2 m.hw.length_le
  have hdrop : (m.encode ++ tail).drop headerLength = m.options.encode ++ tail := by
    rw [encode, List.append_assoc, ← m.length_encodeHeader, List.drop_left]
  simp only [decode, if_neg hlength, hreads.cookie, hreads.op, hreads.hlen, hdrop, bind,
    Except.bind, pure, Except.pure, ne_eq, not_true_eq_false, if_false, Operation.ofOctet?_octet,
    if_neg hshort]
  cases Options.decode (m.options.encode ++ tail) with
  | error e => rfl
  | ok os =>
      simp only [hreads.htype, hreads.hops, hreads.xid, hreads.secs, hreads.flags, hreads.ciaddr,
        hreads.yiaddr, hreads.siaddr, hreads.giaddr, toNat_length_hw, hreads.hw,
        HardwareAddress.ofOctets_octets]
      rfl

/-! ## The options -/

/-- **Messages round trip** up to the shapes of their options.  Whatever follows a message, it
is read with the header that it was sent with and with its options in their order, each of them
as its payload reads under its code, or else refused for the first option that cannot be read.
So it comes back the same just if every option does. -/
theorem decode_encode {m : Message} (hm : ∀ f ∈ m.options.fields, f.Sendable) (tail : Octets) :
    (match m.options.fields.mapM OptionField.reread with
      | .ok fs =>
        ∃ os : Options, os.fields = fs ∧
          decode (m.encode ++ tail) = .ok { m with options := os }
      | .error e => decode (m.encode ++ tail) = .error e) ∧
    (decode (m.encode ++ tail) = .ok m ↔ ∀ f ∈ m.options.fields, f.reread = .ok f) := by
  have hdecode := decode_encode_append m tail
  rw [Options.decode_encode_append hm tail] at hdecode
  rw [← OptionField.mapM_reread_eq_self]
  cases hread : m.options.fields.mapM OptionField.reread with
  | error e =>
      rw [hread] at hdecode
      refine ⟨hdecode, ?_⟩
      rw [hdecode]
      simp only [Except.map, reduceCtorEq]
  | ok fs =>
      have hcodes : (fs.map OptionField.code).Nodup := by
        rw [OptionField.map_code_of_mapM_reread hread]
        exact m.options.nodup
      have hfields := Options.fields_ofList hcodes
      rw [hread] at hdecode
      refine ⟨⟨Options.ofList fs, hfields, hdecode⟩, ?_⟩
      rw [hdecode]
      constructor
      · intro h
        have hsame : Options.ofList fs = m.options := congrArg options (Except.ok.inj h)
        rw [← hfields, hsame]
      · intro h
        have hsame : Options.ofList fs = m.options := by
          ext1
          rw [hfields, Except.ok.inj h]
        simp only [Except.map, hsame]

/-- An address under a code without a shape comes back raw, and raw octets under the code of the
message type as a message type. -/
theorem decode_encode_mistyped :
    ∃ m : Message, m.options.fields = [.address 3 ⟨192, 168, 4, 1⟩, .raw 53 [1]] ∧
      ∃ os : Options, os.fields = [.raw 3 [192, 168, 4, 1], .kind .discover] ∧
        decode (m.encode ++ [7]) = .ok { m with options := os } := by
  let m : Message :=
    { op := .request, htype := 1, hops := 0, xid := 0x3903f326, secs := 0, flags := 0
      ciaddr := .unspecified, yiaddr := .unspecified, siaddr := .unspecified
      giaddr := .unspecified, hw := .ofOctets [1, 2, 3, 4, 5, 6]
      options := .ofList [.address 3 ⟨192, 168, 4, 1⟩, .raw 53 [1]] }
  have hm : ∀ f ∈ m.options.fields, f.Sendable := by decide
  have hread : m.options.fields.mapM OptionField.reread =
      .ok [.raw 3 [192, 168, 4, 1], .kind .discover] := rfl
  have hdecode := (decode_encode hm [7]).1
  rw [hread] at hdecode
  exact ⟨m, rfl, hdecode⟩

end Message

end Dhcp
