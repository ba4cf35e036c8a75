import Dhcp.Options.Element
import Dhcp.Proofs.Options.Stream

/-!
# Dhcp.Proofs.Options.Grammar

Which streams of options are read, and why the others are refused.  A stream begins with a run of
well typed elements, and what follows the longest such run decides: the End mark, the end of the
octets, an option that is cut short, or one whose payload does not suit its code.  These are the
constructors of `Stop`.

* `exists_stop` — every stream comes to a stop;
* `decode_of_stop` — where it stops decides what is read, whatever follows the End mark;
* `get?_ofElements` — of several options of one code the last counts;
* `decode_grammar` — the outcomes of the reader, each by the form of the stream.
-/

namespace Dhcp

/-- A payload is only ever refused for its own option. -/
theorem OptionField.malformed_of_decode {code : UInt8} {data : Octets} {e : DecodeError}
    (h : decode code data = .error e) : ∃ flaw, e = .malformedOption code flaw := by
  unfold decode at h
  repeat' split at h
  all_goals first
    | contradiction
    | exact ⟨_, (Except.error.inj h).symm⟩

namespace Options

/-! ## Where a run of elements stops -/

/-- Whether octets begin with a run of well typed elements, and go on with `rest`. -/
structure Split (data : Octets) (es : List Element) (rest : Octets) : Prop where
  wellTyped : ∀ e ∈ es, e.WellTyped
  octets_eq : data = octetsOf es ++ rest

/-- Whether the octets after the code of an option are too few: there is no length, or it tells
of more octets than follow. -/
def CutShort : Octets → Prop
  | [] => True
  | length :: payload => payload.length < length.toNat

/-- What octets that do not go on with a well typed element begin with, and what is wrong with
that: nothing if it is the End mark. -/
inductive Stop : Octets → Option DecodeError → Prop where
  | endMark (tail : Octets) : Stop (OptionCode.endMark.octet :: tail) none
  | missingEnd : Stop [] (some .missingEnd)
  | overrun {code : UInt8} {rest : Octets} :
    code ≠ OptionCode.pad.octet → code ≠ OptionCode.endMark.octet → CutShort rest →
      Stop (code :: rest) (some (.optionOverrun code))
  | malformed {code : UInt8} {payload : Octets} {e : DecodeError} (tail : Octets) :
    (Element.option code payload).WellFormed → OptionField.decode code payload = .error e →
      Stop ((Element.option code payload).octets ++ tail) (some e)

theorem octetsOf_cons (e : Element) (es : List Element) :
    octetsOf (e :: es) = e.octets ++ octetsOf es := rfl

namespace Element

theorem field?_option {code : UInt8} {payload : Octets} {f : OptionField}
    (h : OptionField.decode code payload = .ok f) : (option code payload).field? = some f := by
  rw [field?, h]
  rfl

/-- An option is read from an element with its code. -/
theorem field?_eq_some {e : Element} {f : OptionField} :
    e.field? = some f ↔
      ∃ payload, e = option f.code payload ∧ OptionField.decode f.code payload = .ok f := by
  constructor
  · intro h
    cases e with
    | pad => contradiction
    | option code payload =>
        rw [field?] at h
        cases hdecode : OptionField.decode code payload <;> rw [hdecode] at h <;> cases h
        obtain rfl := OptionField.code_of_decode hdecode
        exact ⟨payload, rfl, hdecode⟩
  · rintro ⟨payload, rfl, hdecode⟩
    exact field?_option hdecode

theorem exists_decode_of_wellTyped {code : UInt8} {payload : Octets}
    (h : (option code payload).WellTyped) : ∃ f, OptionField.decode code payload = .ok f := by
  obtain ⟨-, hpad | hsome⟩ := h
  · contradiction
  · obtain ⟨f, hfield⟩ := Option.isSome_iff_exists.1 hsome
    obtain ⟨payload', heq, hdecode⟩ := field?_eq_some.1 hfield
    cases heq
    exact ⟨f, hdecode⟩

theorem wellTyped_option {code : UInt8} {payload : Octets} {f : OptionField}
    (hform : (option code payload).WellFormed) (h : OptionField.decode code payload = .ok f) :
    (option code payload).WellTyped := by
  refine ⟨hform, Or.inr ?_⟩
  rw [field?_option h]
  rfl

end Element

/-- Octets begin with a well typed element, or stop. -/
theorem stop_or_element (data : Octets) :
    (∃ e?, Stop data e?) ∨
      ∃ (e : Element) (rest : Octets), e.WellTyped ∧ data = e.octets ++ rest := by
  cases data with
  | nil => exact Or.inl ⟨_, .missingEnd⟩
  | cons code rest =>
      by_cases hend : code = OptionCode.endMark.octet
      · subst hend
        exact Or.inl ⟨_, .endMark rest⟩
      by_cases hpad : code = OptionCode.pad.octet
      · subst hpad
        exact Or.inr ⟨.pad, rest, ⟨trivial, Or.inl rfl⟩, rfl⟩
      cases rest with
      | nil => exact Or.inl ⟨_, .overrun hpad hend trivial⟩
      | cons length rest =>
          by_cases hshort : rest.length < length.toNat
          · exact Or.inl ⟨_, .overrun hpad hend hshort⟩
          -- the option is there in full: its payload decides
          let payload := rest.take length.toNat
          have hlength : payload.length = length.toNat :=
            List.length_take_of_le (Nat.not_lt.1 hshort)
          have hform : (Element.option code payload).WellFormed := by
            have hmax : payload.length < 256 := hlength ▸ length.toNat_lt
            exact ⟨hpad, hend, Nat.le_of_lt_succ hmax⟩
          have hoctets : code :: length :: rest =
              (Element.option code payload).octets ++ rest.drop length.toNat := by
            rw [Element.octets, hlength, UInt8.ofNat_toNat, List.cons_append, List.cons_append,
              List.take_append_drop]
          cases hdecode : OptionField.decode code payload with
          | error e =>
              rw [hoctets]
              exact Or.inl ⟨_, .malformed _ hform hdecode⟩
          | ok f => exact Or.inr ⟨_, _, Element.wellTyped_option hform hdecode, hoctets⟩

/-- **Every stream stops** behind a run of well typed elements. -/
theorem exists_stop (data : Octets) : ∃ es rest e?, Split data es rest ∧ Stop rest e? := by
  induction hn : data.length using Nat.strongRecOn generalizing data with
  | ind n ih =>
      obtain ⟨e?, hstop⟩ | ⟨e, rest, he, rfl⟩ := stop_or_element data
      · exact ⟨[], data, e?, ⟨by simp, rfl⟩, hstop⟩
      · have hshorter : rest.length < n := by
          have hpos := List.length_pos_iff.2 e.octets_ne_nil
          rw [List.length_append] at hn
          omega
        obtain ⟨es, rest', e?, hsplit, hstop⟩ := ih rest.length hshorter rest rfl
        refine ⟨e :: es, rest', e?, ⟨List.forall_mem_cons.2 ⟨he, hsplit.wellTyped⟩, ?_⟩, hstop⟩
        rw [octetsOf_cons, List.append_assoc, ← hsplit.octets_eq]

/-! ## What is read -/

theorem insertAll_append (os : Options) (fs gs : List OptionField) :
    os.insertAll (fs ++ gs) = (os.insertAll fs).insertAll gs := List.foldl_append

/-- Padding is skipped. -/
theorem decodeFrom_pad (os : Options) (rest : Octets) :
    decodeFrom os (OptionCode.pad.octet :: rest) = decodeFrom os rest := by
  have hne : OptionCode.pad.octet ≠ OptionCode.endMark.octet := by decide
  rw [decodeFrom.eq_def]
  simp only [if_neg hne, if_true]

/-- A well typed element is read off the front of a stream. -/
theorem decodeFrom_element_append (os : Options) {e : Element} (he : e.WellTyped)
    (rest : Octets) :
    decodeFrom os (e.octets ++ rest) = decodeFrom (os.insertAll e.field?.toList) rest := by
  cases e with
  | pad => exact decodeFrom_pad os rest
  | option code payload =>
      obtain ⟨f, hdecode⟩ := Element.exists_decode_of_wellTyped he
      rw [Element.octets, List.cons_append, List.cons_append,
        decodeFrom_option_append os he.1.1 he.1.2.1 he.1.2.2, Element.field?_option hdecode,
        hdecode]
      rfl

/-- A run of well typed elements is read off the front of a stream. -/
theorem decodeFrom_octetsOf_append (os : Options) {es : List Element}
    (hes : ∀ e ∈ es, e.WellTyped) (rest : Octets) :
    decodeFrom os (octetsOf es ++ rest) =
      decodeFrom (os.insertAll (es.filterMap (·.field?))) rest := by
  induction es generalizing os with
  | nil => rfl
  | cons e es ih =>
      rw [List.forall_mem_cons] at hes
      rw [octetsOf_cons, List.append_assoc, decodeFrom_element_append os hes.1, ih _ hes.2,
        ← insertAll_append]
      cases h : e.field? <;> simp [h]

/-- Where a stream stops, reading ends: well if nothing is wrong there. -/
theorem decodeFrom_of_stop (os : Options) {rest : Octets} {e? : Option DecodeError}
    (h : Stop rest e?) : decodeFrom os rest = e?.elim (.ok os) .error := by
  cases h with
  | endMark tail => exact decodeFrom_endMark os tail
  | missingEnd =>
      rw [decodeFrom]
      rfl
  | @overrun code rest hpad hend hshort =>
      cases rest with
      | nil =>
          rw [decodeFrom, if_neg hend, if_neg hpad]
          rfl
      | cons length payload =>
          change payload.length < length.toNat at hshort
          rw [decodeFrom, if_neg hend, if_neg hpad, if_pos hshort]
          rfl
  | malformed tail hform hdecode =>
      rw [Element.octets, List.cons_append, List.cons_append,
        decodeFrom_option_append os hform.1 hform.2.1 hform.2.2, hdecode]
      rfl

theorem decode_of_leadingPad {data : Octets} (h : data.head? = some OptionCode.pad.octet) :
    decode data = .error .leadingPad := if_pos h

/-- **A stream is read up to its stop**: if that is the End mark, the options of the elements
before it are read, and else the stream is refused for what is wrong there. -/
theorem decode_of_stop {data rest : Octets} {es : List Element} {e? : Option DecodeError}
    (hstart : data.head? ≠ some OptionCode.pad.octet) (hsplit : Split data es rest)
    (hstop : Stop rest e?) : decode data = e?.elim (.ok (ofElements es)) .error := by
  rw [decode, if_neg hstart, hsplit.octets_eq,
    decodeFrom_octetsOf_append empty hsplit.wellTyped, decodeFrom_of_stop _ hstop]
  rfl

/-! ## What is read under a code -/

/-- The payload of an element, if it is an option of a code. -/
def Element.payload? (code : UInt8) : Element → Option Octets
  | pad => none
  | option c payload => if c = code then some payload else none

/-- The payload of the last option of a code in a run of elements. -/
def lastPayload? (es : List Element) (code : UInt8) : Option Octets :=
  es.reverse.findSome? (·.payload? code)

/-- The first option of a code that is read from elements is read from the first payload of that
code. -/
theorem find?_filterMap_field? {es : List Element} (hes : ∀ e ∈ es, e.WellTyped) (code : UInt8) :
    (es.filterMap (·.field?)).find? (·.code = code) =
      (es.findSome? (·.payload? code)).bind fun p => (OptionField.decode code p).toOption := by
  induction es with
  | nil => rfl
  | cons e es ih =>
      rw [List.forall_mem_cons] at hes
      cases e with
      | pad => exact ih hes.2
      | option c payload =>
          obtain ⟨f, hdecode⟩ := Element.exists_decode_of_wellTyped hes.1
          have hcode := OptionField.code_of_decode hdecode
          rw [List.filterMap_cons, Element.field?_option hdecode, List.findSome?_cons,
            Element.payload?]
          by_cases hc : c = code
          · subst hc
            simp [hcode, hdecode, Except.toOption]
          · simp [hcode, hc, ih hes.2]

/-- **The last option of a code counts**: what is found under a code is read from its payload. -/
theorem get?_ofElements {es : List Element} (hes : ∀ e ∈ es, e.WellTyped) (code : UInt8) :
    (ofElements es).get? code =
      (lastPayload? es code).bind fun p => (OptionField.decode code p).toOption := by
  have hreverse : ∀ e ∈ es.reverse, e.WellTyped := fun e he => hes e (List.mem_reverse.1 he)
  rw [ofElements, ofList, get?_insertAll, get?_empty, Option.or_none, ← List.filterMap_reverse,
    find?_filterMap_field? hreverse, lastPayload?]

/-! ## Outcomes by the form of the stream -/

theorem stop_none {rest : Octets} :
    Stop rest none ↔ ∃ tail, rest = OptionCode.endMark.octet :: tail := by
  constructor
  · rintro ⟨tail⟩
    exact ⟨tail, rfl⟩
  · rintro ⟨tail, rfl⟩
    exact .endMark tail

theorem stop_missingEnd {rest : Octets} : Stop rest (some .missingEnd) ↔ rest = [] := by
  constructor
  · intro h
    cases h with
    | missingEnd => rfl
    | malformed tail hform hdecode =>
        obtain ⟨flaw, he⟩ := OptionField.malformed_of_decode hdecode
        contradiction
  · rintro rfl
    exact .missingEnd

theorem stop_optionOverrun {rest : Octets} {code : UInt8} :
    Stop rest (some (.optionOverrun code)) ↔
      code ≠ OptionCode.pad.octet ∧ code ≠ OptionCode.endMark.octet ∧
        ∃ rest', rest = code :: rest' ∧ CutShort rest' := by
  constructor
  · intro h
    cases h with
    | overrun hpad hend hshort => exact ⟨hpad, hend, _, rfl, hshort⟩
    | malformed tail hform hdecode =>
        obtain ⟨flaw, he⟩ := OptionField.malformed_of_decode hdecode
        contradiction
  · rintro ⟨hpad, hend, rest', rfl, hshort⟩
    exact .overrun hpad hend hshort

theorem stop_malformedOption {rest : Octets} {code : UInt8} {flaw : PayloadFlaw} :
    Stop rest (some (.malformedOption code flaw)) ↔
      ∃ payload tail, rest = (Element.option code payload).octets ++ tail ∧
        (Element.option code payload).WellFormed ∧
          OptionField.decode code payload = .error (.malformedOption code flaw) := by
  constructor
  · intro h
    cases h with
    | malformed tail hform hdecode =>
        obtain ⟨flaw', he⟩ := OptionField.malformed_of_decode hdecode
        cases he
        exact ⟨_, tail, rfl, hform, hdecode⟩
  · rintro ⟨payload, tail, rfl, hform, hdecode⟩
    exact .malformed tail hform hdecode

/-- What is read are the options of a run of well typed elements before the End mark. -/
theorem decode_eq_ok {data : Octets} {os : Options} :
    decode data = .ok os ↔
      data.head? ≠ some OptionCode.pad.octet ∧
        ∃ es tail, Split data es (OptionCode.endMark.octet :: tail) ∧ os = ofElements es := by
  by_cases hstart : data.head? = some OptionCode.pad.octet
  · simp [decode_of_leadingPad hstart, hstart]
  constructor
  · intro h
    obtain ⟨es, rest, e?, hsplit, hstop⟩ := exists_stop data
    rw [decode_of_stop hstart hsplit hstop] at h
    cases e? with
    | some e => contradiction
    | none =>
        obtain ⟨tail, rfl⟩ := stop_none.1 hstop
        exact ⟨hstart, es, tail, hsplit, (Except.ok.inj h).symm⟩
  · rintro ⟨-, es, tail, hsplit, rfl⟩
    exact decode_of_stop hstart hsplit (.endMark tail)

/-- Each option of well typed elements is read from a payload. -/
theorem readable_of_mem_ofElements {es : List Element} (hes : ∀ e ∈ es, e.WellTyped)
    {f : OptionField} (hf : f ∈ (ofElements es).fields) : f.Readable := by
  obtain ⟨e, he, hfield⟩ := List.mem_filterMap.1 (mem_fields_ofList hf)
  obtain ⟨payload, rfl, hdecode⟩ := Element.field?_eq_some.1 hfield
  exact ⟨payload, (hes _ he).1.2.2, hdecode⟩

theorem readable_of_decode {data : Octets} {os : Options} (h : decode data = .ok os) :
    ∀ f ∈ os.fields, f.Readable := by
  obtain ⟨-, es, tail, hsplit, rfl⟩ := decode_eq_ok.1 h
  exact fun f hf => readable_of_mem_ofElements hsplit.wellTyped hf

/-- A stream that does not begin with padding is refused for what is wrong where it stops. -/
theorem decode_eq_error {data : Octets} {e : DecodeError} (he : e ≠ .leadingPad) :
    decode data = .error e ↔
      data.head? ≠ some OptionCode.pad.octet ∧
        ∃ es rest, Split data es rest ∧ Stop rest (some e) := by
  by_cases hstart : data.head? = some OptionCode.pad.octet
  · simp [decode_of_leadingPad hstart, hstart, he.symm]
  constructor
  · intro h
    obtain ⟨es, rest, e?, hsplit, hstop⟩ := exists_stop data
    rw [decode_of_stop hstart hsplit hstop] at h
    cases e? with
    | none => contradiction
    | some e' =>
        cases h
        exact ⟨hstart, es, rest, hsplit, hstop⟩
  · rintro ⟨-, es, rest, hsplit, hstop⟩
    exact decode_of_stop hstart hsplit hstop

theorem decode_eq_leadingPad {data : Octets} :
    decode data = .error .leadingPad ↔ data.head? = some OptionCode.pad.octet := by
  refine ⟨?_, decode_of_leadingPad⟩
  intro h
  refine Decidable.byContradiction fun hstart => ?_
  -- behind its start a stream is never refused for padding
  obtain ⟨es, rest, e?, hsplit, hstop⟩ := exists_stop data
  rw [decode_of_stop hstart hsplit hstop] at h
  cases hstop with
  | malformed tail hform hdecode =>
      cases h
      obtain ⟨flaw, he⟩ := OptionField.malformed_of_decode hdecode
      contradiction
  | endMark | missingEnd | overrun => cases h

/-- **The grammar of options.**  Every stream is read or refused, and each outcome is that of the
streams of one form.  A stream that begins with padding is refused for that.  Of the others, one
is read if it is a run of well typed elements and the End mark, whatever follows; the options that
are read are those of the elements, one inserted after the other.  It misses its end if it is
nothing but such a run.  Otherwise it goes on behind such a run with an option that is cut short,
or that does not suit its code, and is refused for that. -/
theorem decode_grammar (data : Octets) :
    (decode data = .error .leadingPad ↔ data.head? = some OptionCode.pad.octet) ∧
    (∀ os, decode data = .ok os ↔
      data.head? ≠ some OptionCode.pad.octet ∧
        ∃ es tail, Split data es (OptionCode.endMark.octet :: tail) ∧ os = ofElements es) ∧
    (decode data = .error .missingEnd ↔
      data.head? ≠ some OptionCode.pad.octet ∧ ∃ es, Split data es []) ∧
    (∀ code, decode data = .error (.optionOverrun code) ↔
      data.head? ≠ some OptionCode.pad.octet ∧
        code ≠ OptionCode.pad.octet ∧ code ≠ OptionCode.endMark.octet ∧
          ∃ es rest, Split data es (code :: rest) ∧ CutShort rest) ∧
    (∀ code flaw, decode data = .error (.malformedOption code flaw) ↔
      data.head? ≠ some OptionCode.pad.octet ∧
        ∃ es payload tail, Split data es ((Element.option code payload).octets ++ tail) ∧
          (Element.option code payload).WellFormed ∧
            OptionField.decode code payload = .error (.malformedOption code flaw)) ∧
    ((∃ os, decode data = .ok os) ∨ decode data = .error .leadingPad ∨
      decode data = .error .missingEnd ∨ (∃ code, decode data = .error (.optionOverrun code)) ∨
        ∃ code flaw, decode data = .error (.malformedOption code flaw)) := by
  refine ⟨decode_eq_leadingPad, fun os => decode_eq_ok, ?_, ?_, ?_, ?_⟩
  · rw [decode_eq_error (by decide)]
    simp only [stop_missingEnd, exists_eq_right]
  · intro code
    rw [decode_eq_error (by simp)]
    constructor
    · rintro ⟨hstart, es, rest, hsplit, hstop⟩
      obtain ⟨hpad, hend, rest', rfl, hshort⟩ := stop_optionOverrun.1 hstop
      exact ⟨hstart, hpad, hend, es, rest', hsplit, hshort⟩
    · rintro ⟨hstart, hpad, hend, es, rest, hsplit, hshort⟩
      exact ⟨hstart, es, _, hsplit, .overrun hpad hend hshort⟩
  · intro code flaw
    rw [decode_eq_error (by simp)]
    constructor
    · rintro ⟨hstart, es, rest, hsplit, hstop⟩
      obtain ⟨payload, tail, rfl, hform, hdecode⟩ := stop_malformedOption.1 hstop
      exact ⟨hstart, es, payload, tail, hsplit, hform, hdecode⟩
    · rintro ⟨hstart, es, payload, tail, hsplit, hform, hdecode⟩
      exact ⟨hstart, es, _, hsplit, .malformed tail hform hdecode⟩
  · by_cases hstart : data.head? = some OptionCode.pad.octet
    · exact Or.inr (Or.inl (decode_of_leadingPad hstart))
    obtain ⟨es, rest, e?, hsplit, hstop⟩ := exists_stop data
    have hdecode := decode_of_stop hstart hsplit hstop
    cases hstop with
    | endMark => exact Or.inl ⟨_, hdecode⟩
    | missingEnd => exact Or.inr (Or.inr (Or.inl hdecode))
    | overrun => exact Or.inr (Or.inr (Or.inr (Or.inl ⟨_, hdecode⟩)))
    | malformed tail hform herror =>
        obtain ⟨flaw, rfl⟩ := OptionField.malformed_of_decode herror
        exact Or.inr (Or.inr (Or.inr (Or.inr ⟨_, flaw, hdecode⟩)))

end Options

end Dhcp
