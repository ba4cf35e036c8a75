import Dhcp.Proofs.Options.Grammar

/-!
# Dhcp.Proofs.Options.Canonical

Which streams of options are sent again as they were read.  What is sent is one element for each
option, with what its value is written as (`OptionField.payload_of_decode`).  Elements can be told
apart in a stream (`octetsOf_append_inj`), so it is the same stream just if its elements are
those: each of them is sent again as it stands (`Element.Kept`), none of them has given way to a
later one of its code, and nothing follows the End mark (`encode_ofElements`).
-/

namespace Dhcp

/-! ## A single option -/

/-- The value of an option that was read is written as the octets that it was read from, but that
octets which were read as text are written in UTF-8. -/
theorem OptionField.valueOctets_of_decode {code : UInt8} {data : Octets} {f : OptionField}
    (h : decode code data = .ok f) :
    f.valueOctets =
      if code = OptionCode.hostName.octet then Text.utf8 (Text.decodeLossy data) else data := by
  by_cases hname : code = OptionCode.hostName.octet
  · subst hname
    cases h
    rfl
  · rw [if_neg hname]
    cases decoded_of_decode h with
    | text hshape => exact absurd (Shape.eq_of_code? (congrArg Shape.code? hshape)) hname
    | address a _ ha => exact (Address.ofOctets?_eq_some.1 ha).symm
    | span d _ hd => exact Span.octets_of_ofOctets? hd
    | kind k _ hdata => exact hdata.symm
    | requestList | raw => rfl

theorem OptionField.payload_of_decode {code : UInt8} {data : Octets} {f : OptionField}
    (h : decode code data = .ok f) (hmax : data.length ≤ maxPayload) :
    f.payload =
      if code = OptionCode.hostName.octet then (Text.utf8 (Text.decodeLossy data)).take maxPayload
      else data := by
  rw [payload, valueOctets_of_decode h]
  split
  · rfl
  · exact List.take_of_length_le hmax

namespace Options

namespace Element

/-- The code of an element that is not padding. -/
def code? : Element → Option UInt8
  | pad => none
  | option code _ => some code

/-- Whether an element is sent again as it was read. -/
def Kept (e : Element) : Prop := ∃ f, e.field? = some f ∧ ofField f = e

/-- Padding is not sent again; an option is, but that a host name must stand as its text is
written, as far as that fits. -/
theorem kept_iff {e : Element} (he : e.WellTyped) :
    e.Kept ↔ e ≠ pad ∧ ∀ payload, e = option OptionCode.hostName.octet payload →
      payload = (Text.utf8 (Text.decodeLossy payload)).take OptionField.maxPayload := by
  cases e with
  | pad => simp [Kept, field?]
  | option code payload =>
      obtain ⟨f, hdecode⟩ := exists_decode_of_wellTyped he
      have hpayload := OptionField.payload_of_decode hdecode he.1.2.2
      have hcode := OptionField.code_of_decode hdecode
      have hkept : (option code payload).Kept ↔ f.payload = payload := by
        simp [Kept, field?_option hdecode, ofField, hcode]
      rw [hkept, hpayload]
      by_cases hname : code = OptionCode.hostName.octet
      · rw [if_pos hname]
        simp [hname, eq_comm]
      · rw [if_neg hname]
        simp [hname]

/-- An element that stands in front of a stream can be told from what follows it. -/
theorem octets_append_inj {e e' : Element} (he : e.WellFormed) (he' : e'.WellFormed)
    {rest rest' : Octets} (h : e.octets ++ rest = e'.octets ++ rest') : e = e' ∧ rest = rest' := by
  cases e with
  | pad =>
      cases e' with
      | pad => exact ⟨rfl, (List.cons.inj h).2⟩
      | option code payload => exact absurd (List.cons.inj h).1.symm he'.1
  | option code payload =>
      cases e' with
      | pad => exact absurd (List.cons.inj h).1 he.1
      | option code' payload' =>
          simp only [octets, List.cons_append, List.cons.injEq] at h
          obtain ⟨rfl, hcount, hoctets⟩ := h
          have hlength : payload.length = payload'.length := by
            have hmax : payload.length ≤ 255 := he.2.2
            have hmax' : payload'.length ≤ 255 := he'.2.2
            have hmod := congrArg UInt8.toNat hcount
            rw [UInt8.toNat_ofNat', UInt8.toNat_ofNat'] at hmod
            omega
          obtain ⟨rfl, rfl⟩ := List.append_inj hoctets hlength
          exact ⟨rfl, rfl⟩

/-- No element begins with the End mark. -/
theorem octets_append_ne_endMark {e : Element} (he : e.WellFormed) (rest tail : Octets) :
    e.octets ++ rest ≠ OptionCode.endMark.octet :: tail := by
  intro h
  cases e with
  | pad => exact absurd (List.cons.inj h).1 (by decide)
  | option code payload => exact absurd (List.cons.inj h).1 he.2.1

end Element

/-- **A stream has one reading**: the elements before the End mark and what follows it can be told
from the octets. -/
theorem octetsOf_append_inj {es es' : List Element} (hes : ∀ e ∈ es, e.WellFormed)
    (hes' : ∀ e ∈ es', e.WellFormed) {tail tail' : Octets}
    (h : octetsOf es ++ OptionCode.endMark.octet :: tail =
      octetsOf es' ++ OptionCode.endMark.octet :: tail') : es = es' ∧ tail = tail' := by
  induction es generalizing es' with
  | nil =>
      cases es' with
      | nil => exact ⟨rfl, (List.cons.inj h).2⟩
      | cons e' es' =>
          rw [octetsOf_cons, List.append_assoc] at h
          exact absurd h.symm (Element.octets_append_ne_endMark (hes' e' List.mem_cons_self) _ _)
  | cons e es ih =>
      rw [List.forall_mem_cons] at hes
      rw [octetsOf_cons, List.append_assoc] at h
      cases es' with
      | nil => exact absurd h (Element.octets_append_ne_endMark hes.1 _ _)
      | cons e' es' =>
          rw [List.forall_mem_cons] at hes'
          rw [octetsOf_cons, List.append_assoc] at h
          obtain ⟨rfl, hrest⟩ := Element.octets_append_inj hes.1 hes'.1 h
          obtain ⟨rfl, htail⟩ := ih hes.2 hes'.2 hrest
          exact ⟨rfl, htail⟩

theorem Split.unique {data tail tail' : Octets} {es es' : List Element}
    (h : Split data es (OptionCode.endMark.octet :: tail))
    (h' : Split data es' (OptionCode.endMark.octet :: tail')) : es = es' ∧ tail = tail' :=
  octetsOf_append_inj (fun e he => (h.wellTyped e he).1) (fun e he => (h'.wellTyped e he).1)
    (h.octets_eq.symm.trans h'.octets_eq)

/-! ## The elements that are sent -/

theorem flatMap_encode (fs : List OptionField) :
    fs.flatMap (·.encode) = octetsOf (fs.map Element.ofField) := by
  simp only [octetsOf, List.flatMap_map, Element.octets_ofField]

theorem filterMap_code?_map_ofField (fs : List OptionField) :
    (fs.map Element.ofField).filterMap (·.code?) = fs.map (·.code) := by
  rw [List.filterMap_map, ← List.filterMap_eq_map]
  rfl

theorem wellFormed_ofField {es : List Element} (hes : ∀ e ∈ es, e.WellTyped) :
    ∀ e ∈ (ofElements es).fields.map Element.ofField, e.WellFormed := by
  intro e he
  obtain ⟨f, hf, rfl⟩ := List.mem_map.1 he
  have hsendable := (readable_of_mem_ofElements hes hf).sendable
  exact ⟨hsendable.1, hsendable.2, f.length_payload_le⟩

/-- The codes of the options of a run of elements. -/
theorem map_code_filterMap_field? {es : List Element} (hes : ∀ e ∈ es, e.WellTyped) :
    (es.filterMap (·.field?)).map (·.code) = es.filterMap (·.code?) := by
  induction es with
  | nil => rfl
  | cons e es ih =>
      rw [List.forall_mem_cons] at hes
      cases e with
      | pad => exact ih hes.2
      | option code payload =>
          obtain ⟨f, hdecode⟩ := Element.exists_decode_of_wellTyped hes.1
          have hfield : (Element.option code payload).field? = some f :=
            Element.field?_option hdecode
          rw [List.filterMap_cons_some hfield, List.map_cons, ih hes.2,
            OptionField.code_of_decode hdecode]
          rfl

/-- Elements are those of their options just if each is kept. -/
theorem map_ofField_filterMap_field? {es : List Element} :
    (es.filterMap (·.field?)).map Element.ofField = es ↔ ∀ e ∈ es, e.Kept := by
  induction es with
  | nil => simp
  | cons e es ih =>
      rw [List.forall_mem_cons, ← ih]
      cases hfield : e.field? with
      | none =>
          -- there are fewer options than elements
          rw [List.filterMap_cons_none hfield]
          constructor
          · intro h
            have hlength := congrArg List.length h
            have hle := List.length_filterMap_le Element.field? es
            rw [List.length_map, List.length_cons] at hlength
            omega
          · rintro ⟨⟨f, hf, -⟩, -⟩
            rw [hfield] at hf
            contradiction
      | some f =>
          rw [List.filterMap_cons_some hfield, List.map_cons, List.cons.injEq, Element.Kept, hfield]
          simp

/-- A run of elements is kept just if there is no padding in it and each host name stands as its
text is written, as far as that fits. -/
theorem forall_kept_iff {es : List Element} (hes : ∀ e ∈ es, e.WellTyped) :
    (∀ e ∈ es, e.Kept) ↔
      Element.pad ∉ es ∧ ∀ payload, Element.option OptionCode.hostName.octet payload ∈ es →
        payload = (Text.utf8 (Text.decodeLossy payload)).take OptionField.maxPayload := by
  constructor
  · intro hall
    refine ⟨fun hpad => ?_, fun payload he => ?_⟩
    · exact ((Element.kept_iff (hes _ hpad)).1 (hall _ hpad)).1 rfl
    · exact ((Element.kept_iff (hes _ he)).1 (hall _ he)).2 payload rfl
  · rintro ⟨hpad, hname⟩ e he
    refine (Element.kept_iff (hes e he)).2 ⟨?_, ?_⟩
    · rintro rfl
      exact hpad he
    · rintro payload rfl
      exact hname payload he

/-- **What is sent again**: a stream that was read is sent as it was just if no two of its options
have one code, each of its elements is kept, and nothing follows the End mark. -/
theorem encode_ofElements {es : List Element} (hes : ∀ e ∈ es, e.WellTyped) {tail : Octets} :
    (ofElements es).encode = octetsOf es ++ OptionCode.endMark.octet :: tail ↔
      (es.filterMap (·.code?)).Nodup ∧ (∀ e ∈ es, e.Kept) ∧ tail = [] := by
  have hcodes := map_code_filterMap_field? hes
  rw [encode, flatMap_encode, ← hcodes, ← map_ofField_filterMap_field?]
  constructor
  · intro h
    have hform : ∀ e ∈ es, e.WellFormed := fun e he => (hes e he).1
    obtain ⟨hsent, htail⟩ := octetsOf_append_inj (wellFormed_ofField hes) hform h
    -- the codes of what is sent are all different, and so are those of the elements
    have hnodup : ((es.filterMap (·.field?)).map (·.code)).Nodup := by
      have hsame : es.filterMap (·.code?) = (ofElements es).codes := by
        rw [codes, ← filterMap_code?_map_ofField, hsent]
      rw [hcodes, hsame]
      exact (ofElements es).nodup
    refine ⟨hnodup, ?_, htail.symm⟩
    rwa [ofElements, fields_ofList hnodup] at hsent
  · rintro ⟨hnodup, hkept, rfl⟩
    rw [ofElements, fields_ofList hnodup, hkept]

end Options

end Dhcp
