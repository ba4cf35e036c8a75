import Dhcp.Options.Stream
import Dhcp.Proofs.Options.Lookup

/-!
# Dhcp.Proofs.Options.Stream

Options that are sent and read again.  An option is read in the shape that its code asks for
(`OptionField.Decoded`), whatever shape it had when it was sent (`OptionField.reread`), but always
under its code (`OptionField.code_of_decode`).  So a stream of options with different codes gives
as many options back, in their order (`Options.decode_encode_append`).
-/

namespace Dhcp

/-! ## A single option -/

/-- The code of a shape that only one code asks for. -/
def Shape.code? : Shape → Option OptionCode
  | .kind => some .messageType
  | .text => some .hostName
  | .requestList => some .requestList
  | .address | .span | .raw => none

theorem Shape.eq_of_code? {code : UInt8} {c : OptionCode} (h : (ofCode code).code? = some c) :
    code = c.octet := by
  unfold ofCode at h
  split at h <;> try contradiction
  all_goals
    next hcode =>
      cases h
      exact OptionCode.ofOctet?_eq_some.1 hcode

namespace OptionField

/-- Whether an option can be told from padding and from the End mark. -/
def Sendable (f : OptionField) : Prop :=
  f.code ≠ OptionCode.pad.octet ∧ f.code ≠ OptionCode.endMark.octet

instance (f : OptionField) : Decidable f.Sendable := inferInstanceAs (Decidable (_ ∧ _))

/-- What is read where an option was sent. -/
def reread (f : OptionField) : Except DecodeError OptionField := decode f.code f.payload

theorem length_payload_le (f : OptionField) : f.payload.length ≤ maxPayload := by
  rw [payload, List.length_take]
  omega

/-- What a payload can be read as: one case for each shape. -/
inductive Decoded (code : UInt8) (data : Octets) : OptionField → Prop where
  | address (a : Address) :
    Shape.ofCode code = .address → Address.ofOctets? data = some a →
      Decoded code data (.address code a)
  | span (d : Span) :
    Shape.ofCode code = .span → Span.ofOctets? data = some d → Decoded code data (.span code d)
  | kind (k : Kind) :
    Shape.ofCode code = .kind → data = [k.octet] → Decoded code data (.kind k)
  | text : Shape.ofCode code = .text → Decoded code data (.text code (Text.decodeLossy data))
  | requestList :
    Shape.ofCode code = .requestList → Decoded code data (.requestList data)
  | raw : Shape.ofCode code = .raw → Decoded code data (.raw code data)

theorem decoded_of_decode {code : UInt8} {data : Octets} {f : OptionField}
    (h : decode code data = .ok f) : Decoded code data f := by
  unfold decode at h
  split at h
  · contradiction
  · cases hshape : Shape.ofCode code with
    | address =>
        simp only [hshape] at h
        split at h
        · next a ha => exact Except.ok.inj h ▸ .address a hshape ha
        · contradiction
    | span =>
        simp only [hshape] at h
        split at h
        · next d hd => exact Except.ok.inj h ▸ .span d hshape hd
        · contradiction
    | kind =>
        simp only [hshape] at h
        split at h
        · split at h
          · next k hk =>
              rw [Kind.ofOctet?_eq_some] at hk
              exact Except.ok.inj h ▸ .kind k hshape (by rw [hk])
          · contradiction
        · contradiction
    | text =>
        simp only [hshape] at h
        exact Except.ok.inj h ▸ .text hshape
    | requestList =>
        simp only [hshape] at h
        exact Except.ok.inj h ▸ .requestList hshape
    | raw =>
        simp only [hshape] at h
        exact Except.ok.inj h ▸ .raw hshape

/-- An option has the code that it was read under. -/
theorem code_of_decode {code : UInt8} {data : Octets} {f : OptionField}
    (h : decode code data = .ok f) : f.code = code := by
  cases decoded_of_decode h with
  | address | span | text | raw => rfl
  | kind _ hshape => exact (Shape.eq_of_code? (congrArg Shape.code? hshape)).symm
  | requestList hshape => exact (Shape.eq_of_code? (congrArg Shape.code? hshape)).symm

theorem sendable_of_decode {code : UInt8} {data : Octets} {f : OptionField}
    (h : decode code data = .ok f) : f.Sendable := by
  refine not_or.1 fun hcode => ?_
  rw [code_of_decode h] at hcode
  unfold decode at h
  rw [if_pos hcode] at h
  contradiction

/-- Whether there is a payload that an option is read from. -/
def Readable (f : OptionField) : Prop :=
  ∃ payload : Octets, payload.length ≤ maxPayload ∧ decode f.code payload = .ok f

theorem Readable.sendable {f : OptionField} (h : f.Readable) : f.Sendable := by
  obtain ⟨payload, -, hdecode⟩ := h
  exact sendable_of_decode hdecode

theorem code_of_reread {f g : OptionField} (h : f.reread = .ok g) : g.code = f.code :=
  code_of_decode h

/-! ## Lists of options -/

theorem mapM_reread_cons (f : OptionField) (fs : List OptionField) :
    (f :: fs).mapM reread = f.reread.bind fun g => (fs.mapM reread).map (g :: ·) := by
  rw [List.mapM_cons]
  cases f.reread with
  | error e => rfl
  | ok g => cases fs.mapM reread <;> rfl

/-- Options keep their codes when they are read again. -/
theorem map_code_of_mapM_reread {fs gs : List OptionField} (h : fs.mapM reread = .ok gs) :
    gs.map code = fs.map code := by
  induction fs generalizing gs with
  | nil =>
      cases h
      rfl
  | cons f fs ih =>
      rw [mapM_reread_cons] at h
      cases hf : f.reread with
      | error e =>
          rw [hf] at h
          contradiction
      | ok g =>
          cases hfs : fs.mapM reread with
          | error e =>
              rw [hf, hfs] at h
              contradiction
          | ok gs' =>
              rw [hf, hfs] at h
              cases h
              rw [List.map_cons, List.map_cons, code_of_reread hf, ih hfs]

theorem mapM_reread_eq_self {fs : List OptionField} :
    fs.mapM reread = .ok fs ↔ ∀ f ∈ fs, f.reread = .ok f := by
  induction fs with
  | nil => simp [pure, Except.pure]
  | cons f fs ih =>
      rw [mapM_reread_cons, List.forall_mem_cons, ← ih]
      cases f.reread <;> cases fs.mapM reread <;> simp [Except.bind, Except.map]

end OptionField

/-! ## A stream of options -/

namespace Options

/-- A code with a payload is read off the front of a stream, and the rest is read with the option
added that they make. -/
theorem decodeFrom_option_append (os : Options) {code : UInt8} {payload : Octets}
    (hpad : code ≠ OptionCode.pad.octet) (hend : code ≠ OptionCode.endMark.octet)
    (hmax : payload.length ≤ OptionField.maxPayload) (rest : Octets) :
    decodeFrom os (code :: UInt8.ofNat payload.length :: (payload ++ rest)) =
      (OptionField.decode code payload).bind fun f => decodeFrom (os.insert f) rest := by
  have hlength : (UInt8.ofNat payload.length).toNat = payload.length := by
    have hlt : payload.length < 256 := Nat.lt_succ_of_le hmax
    rw [UInt8.toNat_ofNat', Nat.mod_eq_of_lt hlt]
  have hfits : ¬ (payload ++ rest).length < payload.length := by
    rw [List.length_append]
    omega
  rw [decodeFrom, if_neg hend, if_neg hpad]
  simp only [hlength, if_neg hfits, List.take_left, List.drop_left]
  cases OptionField.decode code payload <;> rfl

/-- An option is read off the front of a stream, and the rest is read with it added. -/
theorem decodeFrom_encode_append (os : Options) {f : OptionField} (hf : f.Sendable)
    (rest : Octets) :
    decodeFrom os (f.encode ++ rest) = f.reread.bind fun g => decodeFrom (os.insert g) rest :=
  decodeFrom_option_append os hf.1 hf.2 f.length_payload_le rest

/-- Reading stops at the End mark, whatever follows it. -/
theorem decodeFrom_endMark (os : Options) (tail : Octets) :
    decodeFrom os (OptionCode.endMark.octet :: tail) = .ok os := by
  rw [decodeFrom.eq_def]
  exact if_pos rfl

theorem decodeFrom_flatMap_encode (os : Options) {fs : List OptionField}
    (hfs : ∀ f ∈ fs, f.Sendable) (tail : Octets) :
    decodeFrom os (fs.flatMap (·.encode) ++ OptionCode.endMark.octet :: tail) =
      (fs.mapM OptionField.reread).map os.insertAll := by
  induction fs generalizing os with
  | nil => exact decodeFrom_endMark os tail
  | cons f fs ih =>
      rw [List.forall_mem_cons] at hfs
      rw [List.flatMap_cons, List.append_assoc, decodeFrom_encode_append os hfs.1,
        OptionField.mapM_reread_cons]
      cases f.reread with
      | error e => rfl
      | ok g =>
          simp only [Except.bind]
          rw [ih (os.insert g) hfs.2]
          cases fs.mapM OptionField.reread <;> rfl

/-- **Options round trip** up to the shapes of their payloads: the options that are read are
those that were sent, each in the shape of its code, or the first that cannot be read is
reported. -/
theorem decode_encode_append {os : Options} (hos : ∀ f ∈ os.fields, f.Sendable) (tail : Octets) :
    decode (os.encode ++ tail) = (os.fields.mapM OptionField.reread).map ofList := by
  have hstart : (os.encode ++ tail).head? ≠ some OptionCode.pad.octet := by
    unfold encode
    cases hfields : os.fields with
    | nil => simp [OptionCode.octet]
    | cons f fs =>
        rw [hfields] at hos
        have hpad := (List.forall_mem_cons.1 hos).1.1
        simpa [OptionField.encode] using hpad
  rw [decode, if_neg hstart, encode, List.append_assoc, List.singleton_append]
  exact decodeFrom_flatMap_encode empty hos tail

end Options

end Dhcp
