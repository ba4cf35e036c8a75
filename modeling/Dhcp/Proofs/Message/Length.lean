import Dhcp.Proofs.Message.RoundTrip

/-!
# Dhcp.Proofs.Message.Length

How long a message is when it is sent.  The length that is told beforehand, from the shapes of
the options, is that of the octets that are written (`Message.length_encode`), and the lengths of
the options tell where each of them stands (`Message.fieldAt_encode_option`).  The octet in front
of a payload tells its length without wrapping, as the payload is cut first
(`OptionField.toNat_length_payload`).  An option that is added to others makes them longer by its
own length at most (`Options.encodedLength_insert_le`), since it may take the place of another one.
-/

namespace Dhcp

/-- A text has as many octets as its size in UTF-8 says. -/
theorem Text.length_utf8 (s : String) : (utf8 s).length = s.utf8ByteSize := by
  have hbytes : s.toByteArray = (utf8 s).toByteArray := by
    rw [utf8, utf8Chars, ← List.utf8Encode, ← String.toByteArray_ofList, String.ofList_toList]
  rw [← String.size_toByteArray, hbytes, List.size_toByteArray]

/-! ## A single option -/

namespace OptionField

theorem length_payload (f : OptionField) :
    f.payload.length = min f.valueOctets.length maxPayload := by
  rw [payload, List.length_take, Nat.min_comm]

/-- The octet in front of a payload tells its length, which never is too large for it. -/
theorem toNat_length_payload (f : OptionField) :
    (UInt8.ofNat f.payload.length).toNat = f.payload.length := by
  have hmax : f.payload.length ≤ 255 := f.length_payload_le
  rw [UInt8.toNat_ofNat', Nat.mod_eq_of_lt (Nat.lt_succ_of_le hmax)]

/-- An option is written in as many octets as are told from its shape. -/
theorem length_encode (f : OptionField) : f.encode.length = f.encodedLength := by
  rw [encode, List.length_cons, List.length_cons, length_payload]
  cases f with
  | address code a => rfl
  | kind k => rfl
  | text code s => rw [valueOctets, Text.length_utf8, encodedLength]
  | span code d => rw [valueOctets, Span.length_octets, encodedLength]; rfl
  | requestList codes => rfl
  | raw code data => rfl

/-- No option takes more than its code, its length and the longest payload. -/
theorem encodedLength_le (f : OptionField) : f.encodedLength ≤ 257 := by
  rw [← length_encode, encode, List.length_cons, List.length_cons]
  have hmax : f.payload.length ≤ 255 := f.length_payload_le
  omega

end OptionField

/-! ## Options -/

namespace Options

/-- Options are written in as many octets as are told from their shapes. -/
theorem length_encode (os : Options) : os.encode.length = os.encodedLength := by
  unfold encode encodedLength
  induction os.fields with
  | nil => rfl
  | cons f fs ih =>
      rw [List.flatMap_cons, List.append_assoc, List.length_append, ih, List.foldr_cons,
        f.length_encode]

/-- An option adds its own length at most. -/
theorem encodedLength_insert_le (os : Options) (f : OptionField) :
    (os.insert f).encodedLength ≤ os.encodedLength + f.encodedLength := by
  dsimp only [encodedLength, insert]
  induction os.fields with
  | nil => simp only [OptionField.insertInto, List.foldr_cons, List.foldr_nil]; omega
  | cons g gs ih =>
      simp only [OptionField.insertInto]
      split
      · -- the option stands in the place of another one
        simp only [List.foldr_cons]
        omega
      · simp only [List.foldr_cons]
        omega

end Options

/-! ## Messages -/

namespace Message

/-- **The length of a message is that of what is written**: its header, its options in order and
the End mark. -/
theorem length_encode (m : Message) : m.encode.length = m.encodedLength := by
  rw [encode, List.length_append, length_encodeHeader, Options.length_encode, encodedLength]

/-- **Each option stands where the lengths of those before it tell**, behind the header. -/
theorem fieldAt_encode_option {m : Message} {i : Nat} {f : OptionField}
    (h : m.options.fields[i]? = some f) :
    Wire.fieldAt m.encode
        (headerLength + Wire.fieldStart (m.options.fields.map (·.encodedLength)) i)
        f.encodedLength = f.encode := by
  let written := m.options.fields.map (·.encode)
  have hfield : written[i]? = some f.encode := by
    rw [List.getElem?_map, h, Option.map_some]
  have hlengths : written.map List.length = m.options.fields.map (·.encodedLength) := by
    rw [List.map_map]
    exact List.map_congr_left fun g _ => g.length_encode
  have hstart : (m.encodeHeader ++ (written.take i).flatten).length =
      headerLength + Wire.fieldStart (m.options.fields.map (·.encodedLength)) i := by
    rw [List.length_append, length_encodeHeader, Wire.length_flatten_take, hlengths]
  have hsplit : m.encode = (m.encodeHeader ++ (written.take i).flatten) ++
      (f.encode ++ ((written.drop (i + 1)).flatten ++ [OptionCode.endMark.octet])) := by
    rw [encode, Options.encode, List.flatMap_def, Wire.flatten_eq_append hfield]
    simp only [List.append_assoc]
  rw [hsplit]
  exact Wire.fieldAt_of_append hstart f.length_encode

/-- **Lengths are as they are told.**  The octet in front of the payload of an option tells how long
the payload is, which is the beginning of the octets of its value, up to 255 of them; a text counts
by its octets.  Options, runs of them and messages are written in as many octets as are told
beforehand.  In a message a header of 240 octets is followed by the options, each where the lengths
of those before it tell, and by the End mark. -/
theorem lengths_as_told (m : Message) :
    (∀ f : OptionField, f.encode.length = f.encodedLength ∧
      ∃ (length : UInt8) (payload : Octets), f.encode = f.code :: length :: payload ∧
        length.toNat = payload.length ∧ payload.length = min f.valueOctets.length 255 ∧
        payload <+: f.valueOctets) ∧
    (∀ code s, (OptionField.text code s).valueOctets.length = s.utf8ByteSize) ∧
    (∀ os : Options, os.encode.length = os.encodedLength) ∧
    m.encode.length = m.encodedLength ∧
    (∃ header : Octets, header.length = 240 ∧
      m.encode = header ++ m.options.fields.flatMap (·.encode) ++ [255]) ∧
    ∀ i f, m.options.fields[i]? = some f →
      Wire.fieldAt m.encode (240 + Wire.fieldStart (m.options.fields.map (·.encodedLength)) i)
        f.encodedLength = f.encode := by
  refine ⟨?_, fun _ => Text.length_utf8, Options.length_encode, m.length_encode, ?_,
    fun _ _ => fieldAt_encode_option⟩
  · intro f
    exact ⟨f.length_encode, _, _, rfl, f.toNat_length_payload, f.length_payload,
      List.take_prefix _ _⟩
  · refine ⟨m.encodeHeader, m.length_encodeHeader, ?_⟩
    rw [encode, Options.encode, List.append_assoc]
    rfl

end Message

end Dhcp
