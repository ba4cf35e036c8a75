import Dhcp.Proofs.Reply.Layout
import Dhcp.Proofs.Reply.Received

/-!
# Dhcp.Proofs.Reply.Carried

Whether a client finds in a reply the options that it was asked to carry.  A further option is
carried if its code is allowed, whatever else there is of that code
(`Responder.mem_codes_addExtras`).  The codes of padding and of the End mark are allowed like any
code without a rule of its own, except in a NAK, but no option is ever read under them.  So a reply
that carries neither is read with all of its codes, and one that carries either is not
(`Responder.codes_read_iff`): an End mark ends the options where it stands, and what stands behind
it is lost (`Responder.page_behind_endMark`).
-/

namespace Dhcp

/-! ## Options that can be read -/

namespace OptionField

/-- Whether the payload of an option is one that its code is read with.  A code without a shape is
read with every payload. -/
def Fits (f : OptionField) : Prop := Shape.ofCode f.code = .raw ∨ ∃ g, f.reread = .ok g

/-- An option whose payload fits is read, if it is not taken for padding or for the End mark. -/
theorem Fits.exists_reread {f : OptionField} (h : f.Fits) (hf : f.Sendable) :
    ∃ g, f.reread = .ok g := by
  obtain hraw | hread := h
  · have hcode : ¬ (f.code = OptionCode.pad.octet ∨ f.code = OptionCode.endMark.octet) :=
      not_or.2 hf
    refine ⟨.raw f.code f.payload, ?_⟩
    simp only [reread, decode, if_neg hcode, hraw]
  · exact hread

theorem exists_mapM_reread {fs : List OptionField} (h : ∀ f ∈ fs, ∃ g, f.reread = .ok g) :
    ∃ gs, fs.mapM reread = .ok gs := by
  induction fs with
  | nil => exact ⟨[], rfl⟩
  | cons f fs ih =>
      rw [List.forall_mem_cons] at h
      obtain ⟨g, hg⟩ := h.1
      obtain ⟨gs, hgs⟩ := ih h.2
      exact ⟨g :: gs, by rw [mapM_reread_cons, hg, hgs]; rfl⟩

end OptionField

namespace Message

/-- A message is read with all of its codes, whatever follows it, if each of its options can be
read. -/
theorem exists_decode_encode {m : Message}
    (h : ∀ f ∈ m.options.fields, f.Sendable ∧ ∃ g, f.reread = .ok g) (tail : Octets) :
    ∃ os : Options, decode (m.encode ++ tail) = .ok { m with options := os } ∧
      os.codes = m.options.codes := by
  obtain ⟨fs, hread⟩ := OptionField.exists_mapM_reread fun f hf => (h f hf).2
  have hcodes := OptionField.map_code_of_mapM_reread hread
  have hfields : (Options.ofList fs).fields = fs :=
    Options.fields_ofList (by rw [hcodes]; exact m.options.nodup)
  refine ⟨Options.ofList fs, ?_, by rw [Options.codes, hfields, hcodes, Options.codes]⟩
  have hdecode := decode_encode_append m tail
  rw [Options.decode_encode_append (fun f hf => (h f hf).1) tail, hread] at hdecode
  exact hdecode

/-- **What stands behind an End mark is lost**: only the options before it are read. -/
theorem exists_decode_encode_endMark {m : Message} {before after : List OptionField}
    {mark : OptionField} (hfields : m.options.fields = before ++ mark :: after)
    (hmark : mark.code = OptionCode.endMark.octet)
    (h : ∀ f ∈ before, f.Sendable ∧ ∃ g, f.reread = .ok g) :
    ∃ os : Options, decode m.encode = .ok { m with options := os } ∧
      os.codes = before.map (·.code) := by
  have hnodup : (before.map (·.code)).Nodup := by
    have hall := m.options.nodup
    rw [hfields, List.map_append] at hall
    exact (List.nodup_append.1 hall).1
  -- a message with the options before the mark, and octets behind it, is sent as the same octets
  let front : Message := { m with options := ⟨before, hnodup⟩ }
  let tail : Octets := UInt8.ofNat mark.payload.length :: (mark.payload ++
    (after.flatMap (·.encode) ++ [OptionCode.endMark.octet]))
  have hsent : m.encode = front.encode ++ tail := by
    have hmarked : mark.encode =
        OptionCode.endMark.octet :: UInt8.ofNat mark.payload.length :: mark.payload := by
      rw [← hmark]
      rfl
    change m.encodeHeader ++ m.options.encode = m.encodeHeader ++ front.options.encode ++ tail
    simp only [Options.encode, hfields, List.flatMap_append, List.flatMap_cons, hmarked, front,
      tail, List.append_assoc, List.cons_append, List.nil_append]
  rw [hsent]
  exact exists_decode_encode (m := front) h tail

/-- Nothing is read under the code of padding or of the End mark. -/
theorem sendable_of_mem_decode {data : Octets} {m : Message} (h : decode data = .ok m)
    {f : OptionField} (hf : f ∈ m.options.fields) : f.Sendable :=
  (Options.readable_of_decode (options_of_decode h) f hf).sendable

end Message

/-! ## Options that are carried -/

/-- A NAK carries neither padding nor an End mark. -/
theorem OptionField.sendable_of_allows_nak {request : Option Kind} {f : OptionField}
    (h : Reply.allows request .nak f.code) : f.Sendable := by
  have hcode := Reply.code_of_allows_nak h
  constructor <;> intro heq <;> rw [heq] at hcode <;> revert hcode <;> decide

namespace Responder

/-- **A further option is carried just if its code is allowed**, or another option of its code
was there before it. -/
theorem mem_codes_addExtras {request : Option Kind} {kind : Kind} {own : Options}
    {extras : List OptionField} {code : UInt8} :
    code ∈ (addExtras request kind own extras).codes ↔
      code ∈ own.codes ∨
        Reply.allows request kind code ∧ code ∈ extras.map (·.code) := by
  induction extras generalizing own with
  | nil => simp [addExtras]
  | cons f fs ih =>
      rw [addExtras_cons, ih]
      by_cases hskip : own.contains f.code ∨ ¬ Reply.allows request kind f.code
      · rw [if_pos hskip]
        rw [Options.contains_iff] at hskip
        grind
      · rw [if_neg hskip]
        rw [Options.contains_iff, not_or, Classical.not_not] at hskip
        rw [Options.codes_insert hskip.1]
        grind

section
variable {self : Responder} {request : Message} {kind : Kind} {a : Address} {term : Span}
  {extras : List OptionField} {r : Message}

/-- The options of a reply's own are read as they were sent: they are all that a reply has which
is asked to carry nothing. -/
theorem readable_of_mem_own {own : List OptionField}
    (hown : self.ownOptions request.kind? kind term = .ok own) {f : OptionField}
    (hf : f ∈ (Options.ofList own).fields) : f.Readable := by
  obtain ⟨r, hr⟩ : ∃ r, self.reply request kind .unspecified term [] = .ok r := by
    rw [reply, hown]
    exact ⟨_, rfl⟩
  obtain ⟨own', hown', rfl⟩ := reply_cases hr
  cases hown.symm.trans hown'
  obtain ⟨hreadable, -⟩ | hmem := readable_or_mem_extras hr hf
  · exact hreadable
  · contradiction

/-- The options of a reply are its own, which are read as they were sent, and further ones that are
allowed. -/
theorem readable_or_allowed (h : self.reply request kind a term extras = .ok r)
    {f : OptionField} (hf : f ∈ r.options.fields) :
    f.Readable ∨ f ∈ extras ∧ Reply.allows request.kind? kind f.code := by
  obtain ⟨own, hown, rfl⟩ := reply_cases h
  obtain hf | hextra := mem_fields_addExtras hf
  · exact Or.inl (readable_of_mem_own hown hf)
  · exact Or.inr hextra

/-- A code without a rule of its own is carried in every reply but a NAK. -/
theorem mem_codes_of_not_sendable (h : self.reply request kind a term extras = .ok r)
    (hnak : kind ≠ .nak) {f : OptionField} (hf : f ∈ extras) (hcode : ¬ f.Sendable) :
    f.code ∈ r.options.codes := by
  obtain ⟨own, -, rfl⟩ := reply_cases h
  refine mem_codes_addExtras.2 (Or.inr ⟨?_, List.mem_map_of_mem hf⟩)
  obtain hpad | hend : f.code = OptionCode.pad.octet ∨ f.code = OptionCode.endMark.octet :=
    Decidable.or_iff_not_not_and_not.2 hcode
  · rw [hpad, Reply.allows, OptionCode.ofOctet?_octet]
    exact decide_eq_true hnak
  · rw [hend, Reply.allows, OptionCode.ofOctet?_octet]
    exact decide_eq_true hnak

end

/-- **A reply is read with all of its codes just if no further option is padding or an End mark**,
or if it is a NAK, which carries none of them.  The further options may be any others whose payloads
fit. -/
theorem codes_read_iff (self : Responder) (request : Message) (kind : Kind) (a : Address)
    (term : Span) (extras : List OptionField) {r : Message} (hfits : ∀ f ∈ extras, f.Fits)
    (h : self.reply request kind a term extras = .ok r) :
    (∃ os : Options, Message.decode r.encode = .ok { r with options := os } ∧
        os.codes = r.options.codes) ↔
      kind = .nak ∨ ∀ f ∈ extras, f.Sendable := by
  constructor
  · rintro ⟨os, hread, hcodes⟩
    refine Decidable.or_iff_not_imp_left.2 fun hnak f hf => ?_
    refine Decidable.byContradiction fun hcode => ?_
    have hmem : f.code ∈ os.codes := hcodes ▸ mem_codes_of_not_sendable h hnak hf hcode
    obtain ⟨g, hg, hsame⟩ := List.mem_map.1 hmem
    have hsendable := Message.sendable_of_mem_decode hread hg
    rw [OptionField.Sendable, hsame] at hsendable
    exact hcode hsendable
  · intro hcase
    rw [← List.append_nil r.encode]
    refine Message.exists_decode_encode (fun f hf => ?_) []
    obtain hreadable | ⟨hextra, hallowed⟩ := readable_or_allowed h hf
    · exact ⟨hreadable.sendable, _, OptionField.reread_of_readable hreadable⟩
    · have hsendable : f.Sendable := by
        obtain rfl | hall := hcase
        · exact OptionField.sendable_of_allows_nak hallowed
        · exact hall f hextra
      exact ⟨hsendable, (hfits f hextra).exists_reread hsendable⟩

/-- A NAK is asked to carry an End mark, and an offer a name of the client that is no valid UTF-8
and a page as raw octets.  Both are read with all of their codes. -/
theorem codes_read_iff_offer_and_nak :
    ∃ (m r r' : Message) (os os' : Options),
      (Responder.mk ⟨192, 168, 4, 1⟩ ⟨255, 255, 255, 0⟩).offer m ⟨192, 168, 4, 2⟩ (.ofParts 60 5)
        [.raw 12 [0xFF], .raw 114 [0x2F]] = .ok r ∧
      Message.decode r.encode = .ok { r with options := os } ∧
      os.codes = [53, 54, 1, 51, 58, 59, 12, 114] ∧
      (Responder.mk ⟨192, 168, 4, 1⟩ ⟨255, 255, 255, 0⟩).nak m [.raw 255 []] = .ok r' ∧
      Message.decode r'.encode = .ok { r' with options := os' } ∧ os'.codes = [53, 54] := by
  let self : Responder := ⟨⟨192, 168, 4, 1⟩, ⟨255, 255, 255, 0⟩⟩
  let m := Message.ofClient .empty [.kind .discover]
  have hfits : ∀ f ∈ [OptionField.raw 12 [0xFF], .raw 114 [0x2F]], f.Fits := by
    simp only [List.forall_mem_cons]
    exact ⟨Or.inr ⟨_, rfl⟩, Or.inl rfl, nofun⟩
  have hmark : ∀ f ∈ [OptionField.raw 255 []], f.Fits := by
    simp only [List.forall_mem_cons]
    exact ⟨Or.inl rfl, nofun⟩
  obtain ⟨os, hread, hcodes⟩ := (codes_read_iff self m .offer ⟨192, 168, 4, 2⟩ (.ofParts 60 5)
    [.raw 12 [0xFF], .raw 114 [0x2F]] hfits rfl).2 (Or.inr (by decide))
  obtain ⟨os', hread', hcodes'⟩ :=
    (codes_read_iff self m .nak .unspecified .zero [.raw 255 []] hmark rfl).2 (Or.inl rfl)
  exact ⟨m, _, _, os, os', rfl, hread, hcodes, rfl, hread', hcodes'⟩

/-- **An End mark among the further options ends the options of a reply.**  The page for new clients
stands behind it, and is lost. -/
theorem page_behind_endMark :
    ¬ ∀ (self : Responder) (request : Message) (kind : Kind) (a : Address) (term : Span)
      (extras : List OptionField) (r : Message), (∀ f ∈ extras, f.Fits) →
      self.reply request kind a term extras = .ok r →
      ∃ os : Options, Message.decode r.encode = .ok { r with options := os } ∧
        os.codes = r.options.codes := by
  intro hread
  let self : Responder := ⟨⟨192, 168, 4, 1⟩, ⟨255, 255, 255, 0⟩⟩
  let m := Message.ofClient .empty [.kind .discover]
  let extras : List OptionField :=
    [.raw OptionCode.endMark.octet [], .captivePortal "http://192.168.4.1/"]
  have hfits : ∀ f ∈ extras, f.Fits := by
    simp only [extras, List.forall_mem_cons]
    exact ⟨Or.inl rfl, Or.inl rfl, nofun⟩
  obtain ⟨own, r, hown, hr, hfields⟩ : ∃ own r, self.ownOptions m.kind? .offer (.ofSeconds 60) =
      .ok own ∧ self.reply m .offer ⟨192, 168, 4, 2⟩ (.ofSeconds 60) extras = .ok r ∧
      r.options.fields = own ++ extras := ⟨_, _, rfl, rfl, rfl⟩
  obtain ⟨os, hall, hcodes⟩ :=
    hread self m .offer ⟨192, 168, 4, 2⟩ (.ofSeconds 60) extras r hfits hr
  obtain ⟨os', hfront, hcodes'⟩ := Message.exists_decode_encode_endMark hfields rfl fun f hf => by
    have hreadable := readable_of_mem_own hown (f := f) (by
      rw [Options.fields_ofList (nodup_own hown)]
      exact hf)
    exact ⟨hreadable.sendable, _, OptionField.reread_of_readable hreadable⟩
  have hsame : os = os' := congrArg Message.options (Except.ok.inj (hall.symm.trans hfront))
  rw [← hsame, hcodes, Options.codes, hfields, List.map_append] at hcodes'
  exact absurd (List.append_right_eq_self.1 hcodes') (by decide)

end Responder

end Dhcp
