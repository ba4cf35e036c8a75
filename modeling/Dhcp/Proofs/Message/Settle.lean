import Dhcp.Proofs.Message.Header
import Dhcp.Proofs.Message.RoundTrip
import Dhcp.Proofs.Options.Canonical
import Dhcp.Proofs.Text.Utf8

/-!
# Dhcp.Proofs.Message.Settle

Messages that were read, are sent and read again.  An option that was read comes back as it is,
but for the text of a host name, which is cut where its octets no longer fit
(`OptionField.reread_of_readable`).  What comes back is an option that was read, too, and a second
cut changes nothing; so from then on nothing changes any more (`Message.decode_encode_settles`).
-/

namespace Dhcp

namespace OptionField

/-- An option as it is after it has been sent and read: its text is cut where its octets no longer
fit a payload. -/
def settled : OptionField → OptionField
  | .text code s => .text code (Text.shorten maxPayload s)
  | f => f

@[simp] theorem code_settled (f : OptionField) : f.settled.code = f.code := by
  cases f <;> rfl

@[simp] theorem settled_settled (f : OptionField) : f.settled.settled = f.settled := by
  cases f with
  | text code s => rw [settled, settled, Text.shorten_shorten]
  | address | kind | span | requestList | raw => rfl

/-- Only the host name is read as text. -/
theorem settled_of_code_ne {f : OptionField} (h : f.Readable)
    (hcode : f.code ≠ OptionCode.hostName.octet) : f.settled = f := by
  obtain ⟨payload, -, hdecode⟩ := h
  generalize hc : f.code = c at hcode hdecode
  cases decoded_of_decode hdecode with
  | text hshape => exact absurd (Shape.eq_of_code? (congrArg Shape.code? hshape)) hcode
  | address | span | kind | requestList | raw => rfl

/-- The host name is read as text. -/
theorem eq_hostName_of_code {f : OptionField} (h : f.Readable)
    (hcode : f.code = OptionCode.hostName.octet) : ∃ s, f = hostName s := by
  obtain ⟨payload, -, hdecode⟩ := h
  rw [hcode] at hdecode
  exact ⟨Text.decodeLossy payload, (Except.ok.inj hdecode).symm⟩

/-- **An option that was read settles** as soon as it is read again. -/
theorem reread_of_readable {f : OptionField} (h : f.Readable) : f.reread = .ok f.settled := by
  by_cases hcode : f.code = OptionCode.hostName.octet
  · obtain ⟨s, rfl⟩ := eq_hostName_of_code h hcode
    rfl
  · rw [settled_of_code_ne h hcode]
    obtain ⟨payload, hmax, hdecode⟩ := h
    rw [reread, payload_of_decode hdecode hmax, if_neg hcode, hdecode]

theorem Readable.settled {f : OptionField} (h : f.Readable) : f.settled.Readable := by
  refine ⟨f.payload, f.length_payload_le, ?_⟩
  rw [code_settled]
  exact reread_of_readable h

theorem mapM_reread_of_readable {fs : List OptionField} (h : ∀ f ∈ fs, f.Readable) :
    fs.mapM reread = .ok (fs.map OptionField.settled) := by
  induction fs with
  | nil => rfl
  | cons f fs ih =>
      rw [List.forall_mem_cons] at h
      rw [mapM_reread_cons, reread_of_readable h.1, ih h.2]
      rfl

end OptionField

namespace Options

/-- Options as they are after they have been sent and read. -/
def settled (os : Options) : Options := os.mapFields (·.settled) OptionField.code_settled

theorem codes_settled (os : Options) : os.settled.codes = os.codes :=
  os.codes_mapFields OptionField.code_settled

theorem settled_settled (os : Options) : os.settled.settled = os.settled := by
  ext1
  simp [settled, mapFields, Function.comp_def]

theorem get?_settled (os : Options) (c : UInt8) :
    os.settled.get? c = (os.get? c).map (·.settled) :=
  os.get?_mapFields OptionField.code_settled c

section
variable {os : Options} (h : ∀ f ∈ os.fields, f.Readable)
include h

/-- Only the host name changes. -/
theorem get?_settled_of_ne {c : UInt8} (hc : c ≠ OptionCode.hostName.octet) :
    os.settled.get? c = os.get? c := by
  rw [get?_settled]
  cases hget : os.get? c with
  | none => rfl
  | some f =>
      obtain ⟨hmem, rfl⟩ := get?_eq_some.1 hget
      rw [Option.map_some, OptionField.settled_of_code_ne (h f hmem) hc]

/-- The host name is a text. -/
theorem get?_hostName_of_readable :
    os.get? OptionCode.hostName.octet =
      (os.text? OptionCode.hostName.octet).map OptionField.hostName := by
  rw [text?]
  cases hget : os.get? OptionCode.hostName.octet with
  | none => rfl
  | some f =>
      obtain ⟨hmem, hcode⟩ := get?_eq_some.1 hget
      obtain ⟨s, rfl⟩ := OptionField.eq_hostName_of_code (h f hmem) hcode
      rfl

/-- Options stay as they are if the host name fits. -/
theorem settled_of_hostName_fits
    (hfits : ∀ s, os.text? OptionCode.hostName.octet = some s →
      (Text.utf8 s).length ≤ OptionField.maxPayload) : os.settled = os := by
  have hall : ∀ f ∈ os.fields, f.settled = f := by
    intro f hf
    by_cases hcode : f.code = OptionCode.hostName.octet
    · obtain ⟨s, rfl⟩ := OptionField.eq_hostName_of_code (h f hf) hcode
      have hname : os.text? OptionCode.hostName.octet = some s :=
        text?_eq_some.2 (get?_eq_some.2 ⟨hf, hcode⟩)
      have hsame := Text.shorten_of_length_le (hfits s hname)
      rw [OptionField.hostName, OptionField.settled, hsame]
    · exact OptionField.settled_of_code_ne (h f hf) hcode
  ext1
  calc os.fields.map (·.settled) = os.fields.map id := List.map_congr_left hall
    _ = os.fields := List.map_id _

end

theorem readable_settled {os : Options} (h : ∀ f ∈ os.fields, f.Readable) :
    ∀ f ∈ os.settled.fields, f.Readable := by
  intro f hf
  obtain ⟨g, hg, rfl⟩ := List.mem_map.1 hf
  exact (h g hg).settled

theorem decode_encode_of_readable {os : Options} (h : ∀ f ∈ os.fields, f.Readable) :
    decode os.encode = .ok os.settled := by
  have hread := decode_encode_append (fun f hf => (h f hf).sendable) []
  rw [List.append_nil, OptionField.mapM_reread_of_readable h] at hread
  have hfields : ofList (os.fields.map (·.settled)) = os.settled := by
    ext1
    exact fields_ofList os.settled.nodup
  rw [hread]
  exact congrArg Except.ok hfields

end Options

namespace Message

theorem decode_encode_of_readable {m : Message} (h : ∀ f ∈ m.options.fields, f.Readable) :
    decode m.encode = .ok { m with options := m.options.settled } := by
  have hread := decode_encode_append m []
  rwa [List.append_nil, List.append_nil, Options.decode_encode_of_readable h] at hread

/-- A message without a host name is read as it was sent. -/
theorem decode_encode_of_nameless {m : Message} (h : ∀ f ∈ m.options.fields, f.Readable)
    (hname : m.hostName? = none) : decode m.encode = .ok m := by
  have hsame : m.options.settled = m.options := by
    apply Options.settled_of_hostName_fits h
    intro s hs
    rw [hostName?, hs] at hname
    contradiction
  rw [decode_encode_of_readable h, hsame]

/-- **Messages settle.**  A message that was read, is sent and read again has the header and the
codes that it had, and every option that it had, but that the text of the host name is what is
read of its first 255 octets, and so unchanged if it has no more.  From then on it is read as it
was sent. -/
theorem decode_encode_settles {data : Octets} {m : Message} (h : decode data = .ok m) :
    ∃ n, decode m.encode = .ok n ∧ n = { m with options := n.options } ∧
      n.options.codes = m.options.codes ∧
      (∀ c, c ≠ OptionCode.hostName.octet → n.options.get? c = m.options.get? c) ∧
      n.options.get? OptionCode.hostName.octet = m.hostName?.map (fun s =>
        .hostName (Text.decodeLossy ((Text.utf8 s).take 255))) ∧
      (∀ s, m.hostName? = some s → (Text.utf8 s).length ≤ 255 → n = m) ∧
      decode n.encode = .ok n := by
  have hread := Options.readable_of_decode (options_of_decode h)
  refine ⟨_, decode_encode_of_readable hread, rfl, m.options.codes_settled,
    fun c hc => Options.get?_settled_of_ne hread hc, ?_, ?_, ?_⟩
  · change m.options.settled.get? _ = _
    rw [Options.get?_settled, Options.get?_hostName_of_readable hread, Option.map_map]
    rfl
  · intro s hs hfits
    have hsame := Options.settled_of_hostName_fits hread fun t ht => by
      rw [hostName?] at hs
      rw [hs] at ht
      exact Option.some.inj ht ▸ hfits
    rw [hsame]
  · have hagain := @decode_encode_of_readable { m with options := m.options.settled }
      (Options.readable_settled hread)
    rwa [Options.settled_settled] at hagain

/-- A host name of 88 octets that are no text but for the last four is read as a text of 256
octets, whose last character is cut in two and so is another one when it is read again. -/
theorem decode_encode_settles_cut :
    ∃ (data : Octets) (m n : Message),
      decode data = .ok m ∧ decode m.encode = .ok n ∧ n ≠ m ∧ decode n.encode = .ok n := by
  let name : Octets := List.replicate 84 0xFF ++ [0x61, 0x62, 0xC3, 0xA9]
  let data : Octets := [1, 1, 6, 0] ++ List.replicate 24 0 ++ [1, 2, 3, 4, 5, 6] ++
    List.replicate 202 0 ++ magicCookie ++ 12 :: 88 :: name ++ [255]
  have hsplit : Options.Split (data.drop headerLength) [.option 12 name] [255] :=
    ⟨by decide +kernel, by decide +kernel⟩
  let m : Message := ofHeader data .request (.ofElements [.option 12 name])
  have hm : decode data = .ok m :=
    decode_eq_ok.2 ⟨by decide +kernel, rfl, rfl, by decide,
      Options.decode_eq_ok.2 ⟨by decide, _, _, hsplit, rfl⟩, rfl⟩
  have hfield : m.options.get? OptionCode.hostName.octet =
      some (.hostName (Text.decodeLossy name)) := rfl
  have hhost : m.hostName? = some (Text.decodeLossy name) := rfl
  obtain ⟨n, hn, -, -, -, hname, -, hagain⟩ := decode_encode_settles hm
  refine ⟨data, m, n, hm, hn, ?_, hagain⟩
  intro hsame
  rw [hsame, hfield, hhost, Option.map_some, Option.some.injEq] at hname
  obtain ⟨-, htext⟩ := OptionField.text.inj hname
  -- the last character that was read is no replacement, but that of its first octet is
  have hlast := congrArg (fun s : String => s.toList.getLast?) htext
  simp only [Text.decodeLossy, Text.utf8, String.toList_ofList] at hlast
  exact absurd hlast (by decide +kernel)

end Message

end Dhcp
