import Dhcp.Proofs.Message.Header
import Dhcp.Proofs.Options.Canonical
import Dhcp.Proofs.Text.Utf8

/-!
# Dhcp.Proofs.Message.Canonical

Which packets are sent again as they were read (`encode_eq_iff`).  A message is sent with zeros
where nothing is read of a packet (`encodeHeader_eq_headerWith`), and apart from that with the
header that it was read with; so what is left to ask of a packet is that these octets are zeros,
and that its options are sent again as they stand.
-/

namespace Dhcp.Message

/-- A packet is sent again as it was read just if what is not read of its header is zeros and its
options are sent again as they were read. -/
theorem encode_eq_iff_options {data : Octets} {m : Message} (h : decode data = .ok m) :
    m.encode = data ↔
      Wire.ZeroFrom data (28 + (data.getD 2 0).toNat) 44 ∧ Wire.ZeroFrom data 44 236 ∧
        m.options.encode = data.drop headerLength := by
  have hlength := length_of_decode h
  have hcount : (data.getD 2 0).toNat = m.hw.length := by
    rw [(length_hw_of_decode h).1, Wire.octetAt_eq_getD]
  have hmax : m.hw.length ≤ 16 := m.hw.length_le
  have hstop : 28 + m.hw.length + (16 - m.hw.length) = 44 := by omega
  have hfill : (Wire.fieldAt data (28 + m.hw.length) (16 - m.hw.length)).length =
      16 - m.hw.length :=
    Wire.length_fieldAt (Nat.le_trans (Nat.le_of_eq hstop) (Nat.le_trans (by decide) hlength))
  have hnames : (Wire.fieldAt data 44 192).length = 192 :=
    Wire.length_fieldAt (Nat.le_trans (by decide) hlength)
  have hpacket := eq_append_of_decode h
  have hzero : Wire.fieldAt data (28 + m.hw.length) (16 - m.hw.length) =
      List.replicate (16 - m.hw.length) 0 ↔ Wire.ZeroFrom data (28 + m.hw.length) 44 := by
    rw [Wire.fieldAt_eq_replicate, hstop]
  have hzero' : Wire.fieldAt data 44 192 = List.replicate 192 0 ↔ Wire.ZeroFrom data 44 236 :=
    Wire.fieldAt_eq_replicate
  calc m.encode = data
    _ ↔ m.encode = m.headerWith (Wire.fieldAt data (28 + m.hw.length) (16 - m.hw.length))
          (Wire.fieldAt data 44 192) ++ data.drop headerLength := by rw [← hpacket]
    _ ↔ List.replicate (16 - m.hw.length) 0 =
            Wire.fieldAt data (28 + m.hw.length) (16 - m.hw.length) ∧
          List.replicate 192 0 = Wire.fieldAt data 44 192 ∧
            m.options.encode = data.drop headerLength := by
      rw [encode, encodeHeader_eq_headerWith]
      exact m.headerWith_append_inj (by rw [List.length_replicate, hfill])
        (by rw [List.length_replicate, hnames])
    _ ↔ _ := by rw [hcount, ← hzero, ← hzero', eq_comm, @eq_comm _ (List.replicate 192 0)]

/-- **Packets that are sent again as they were read.**  A packet that is read holds a run of well
typed elements between its header and the End mark, in one way only.  The message is sent as just
this packet if zeros fill up the field of the hardware address and stand for the names of the
server and its boot file, there is no padding between the options, no two of them have one code,
nothing follows the End mark, and the host name, if there is one, stands as its text is written in
UTF-8, as far as that fits.  Text in UTF-8 that fits always does. -/
theorem encode_eq_iff {data : Octets} {m : Message} (h : decode data = .ok m) :
    (∃ es tail, Options.Split (data.drop headerLength) es (OptionCode.endMark.octet :: tail) ∧
      (∀ es' tail',
        Options.Split (data.drop headerLength) es' (OptionCode.endMark.octet :: tail') →
          es' = es ∧ tail' = tail) ∧
      (m.encode = data ↔
        Wire.ZeroFrom data (28 + (data.getD 2 0).toNat) 44 ∧ Wire.ZeroFrom data 44 236 ∧
        Options.Element.pad ∉ es ∧ (es.filterMap (·.code?)).Nodup ∧ tail = [] ∧
        ∀ payload, Options.Element.option OptionCode.hostName.octet payload ∈ es →
          payload = (Text.utf8 (Text.decodeLossy payload)).take OptionField.maxPayload)) ∧
    ∀ text, (Text.utf8 text).length ≤ OptionField.maxPayload →
      Text.utf8 text =
        (Text.utf8 (Text.decodeLossy (Text.utf8 text))).take OptionField.maxPayload := by
  obtain ⟨-, es, tail, hes, hoptions⟩ := Options.decode_eq_ok.1 (options_of_decode h)
  refine ⟨⟨es, tail, hes, fun es' tail' hes' => hes'.unique hes, ?_⟩, ?_⟩
  · rw [encode_eq_iff_options h, hoptions, hes.octets_eq, Options.encode_ofElements hes.wellTyped,
      Options.forall_kept_iff hes.wellTyped]
    constructor
    · rintro ⟨hfill, hnames, hcodes, ⟨hpad, hname⟩, htail⟩
      exact ⟨hfill, hnames, hpad, hcodes, htail, hname⟩
    · rintro ⟨hfill, hnames, hpad, hcodes, htail, hname⟩
      exact ⟨hfill, hnames, hcodes, ⟨hpad, hname⟩, htail⟩
  · intro text hfits
    rw [Text.decodeLossy_utf8, List.take_of_length_le hfits]

/-- A host name of one character in two octets is sent again as it stands, but one that is no
text is sent as the replacement that was read for it. -/
theorem encode_eq_iff_hostName :
    ∃ (sound flawed : Octets) (m n : Message),
      decode sound = .ok m ∧ m.encode = sound ∧ decode flawed = .ok n ∧ n.encode ≠ flawed := by
  let header : Octets := [1, 1, 6, 0] ++ List.replicate 24 0 ++ [1, 2, 3, 4, 5, 6] ++
    List.replicate 202 0 ++ magicCookie
  let sound := header ++ [53, 1, 1, 12, 2, 0xC3, 0xA9, 255]
  let flawed := header ++ [53, 1, 1, 12, 1, 0xFF, 255]
  have hsound : Options.Split (sound.drop headerLength)
      [.option 53 [1], .option 12 [0xC3, 0xA9]] [255] := ⟨by decide, rfl⟩
  have hflawed : Options.Split (flawed.drop headerLength)
      [.option 53 [1], .option 12 [0xFF]] [255] := ⟨by decide, rfl⟩
  have hm : decode sound = .ok (ofHeader sound .request
      (.ofElements [.option 53 [1], .option 12 [0xC3, 0xA9]])) :=
    decode_eq_ok.2 ⟨by decide +kernel, rfl, rfl, by decide,
      Options.decode_eq_ok.2 ⟨by decide, _, _, hsound, rfl⟩, rfl⟩
  have hn : decode flawed = .ok (ofHeader flawed .request
      (.ofElements [.option 53 [1], .option 12 [0xFF]])) :=
    decode_eq_ok.2 ⟨by decide +kernel, rfl, rfl, by decide,
      Options.decode_eq_ok.2 ⟨by decide, _, _, hflawed, rfl⟩, rfl⟩
  refine ⟨sound, flawed, _, _, hm, ?_, hn, ?_⟩
  · obtain ⟨⟨es, tail, -, hunique, hiff⟩, -⟩ := encode_eq_iff hm
    obtain ⟨rfl, rfl⟩ := hunique _ _ hsound
    have hfill : Wire.ZeroFrom sound 34 44 := (@Wire.fieldAt_eq_replicate sound 34 10).1 rfl
    have hnames : Wire.ZeroFrom sound 44 236 := (@Wire.fieldAt_eq_replicate sound 44 192).1 rfl
    refine hiff.2 ⟨hfill, hnames, by decide, by decide, rfl, ?_⟩
    intro payload hmem
    obtain rfl : payload = [0xC3, 0xA9] := by simpa [OptionCode.octet] using hmem
    decide
  · intro hsame
    obtain ⟨⟨es, tail, -, hunique, hiff⟩, -⟩ := encode_eq_iff hn
    obtain ⟨rfl, rfl⟩ := hunique _ _ hflawed
    obtain ⟨-, -, -, -, -, hname⟩ := hiff.1 hsame
    exact absurd (hname [0xFF] (by decide)) (by decide)

end Dhcp.Message
