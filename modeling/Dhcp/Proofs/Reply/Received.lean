import Dhcp.Config.File
import Dhcp.Proofs.Message.Length
import Dhcp.Proofs.Message.Settle
import Dhcp.Proofs.Reply.Answers

/-!
# Dhcp.Proofs.Reply.Received

What a client reads of a reply.  A reply has few options: its type, its server, the mask and the
times of the lease, each in the shape of its code, and the page for new clients, whose code has no
shape (`Responder.mem_options_of_reply`).  So a client reads the reply as it was made, but for the
octets of the page (`Config.decode_encode_of_reply`), and no reply is longer than 531 octets.
-/

namespace Dhcp

namespace Span

/-- Whole seconds that fit a word are read as they are sent. -/
theorem ofOctets?_octets_ofWord (w : UInt32) : ofOctets? (ofWord w).octets = some (ofWord w) := by
  have hword : ofBigEndian (ofWord w).octets = w.toNat := by
    rw [octets, word_ofWord, ofBigEndian_bigEndian w.toNat_lt]
  rw [ofOctets?, if_pos (length_octets _), hword, UInt32.ofNat_toNat]

end Span

/-! ## Options that are read as they were sent, and raw ones -/

namespace OptionField

theorem readable_kind (k : Kind) : (kind k).Readable := by
  refine ⟨[k.octet], ?_, ?_⟩
  · rw [List.length_singleton]
    decide
  · cases k <;> rfl

theorem readable_address {code : UInt8} (hshape : Shape.ofCode code = .address) (a : Address) :
    (address code a).Readable := by
  have hcode : ¬ (code = OptionCode.pad.octet ∨ code = OptionCode.endMark.octet) := by
    rintro (rfl | rfl) <;> contradiction
  refine ⟨a.octets, ?_, ?_⟩
  · rw [Address.length_octets]
    decide
  · change decode code a.octets = _
    simp only [decode, if_neg hcode, hshape, Address.ofOctets?_octets]

theorem readable_span {code : UInt8} (hshape : Shape.ofCode code = .span) (w : UInt32) :
    (span code (.ofWord w)).Readable := by
  have hcode : ¬ (code = OptionCode.pad.octet ∨ code = OptionCode.endMark.octet) := by
    rintro (rfl | rfl) <;> contradiction
  refine ⟨(Span.ofWord w).octets, ?_, ?_⟩
  · rw [Span.length_octets]
    decide
  · change decode code (Span.ofWord w).octets = _
    simp only [decode, if_neg hcode, hshape, Span.ofOctets?_octets_ofWord]

/-- An option as it is read under a code without a shape, whatever it was sent as. -/
def received (f : OptionField) : OptionField :=
  if Shape.ofCode f.code = .raw then .raw f.code f.valueOctets else f

@[simp] theorem code_received (f : OptionField) : f.received.code = f.code := by
  unfold received
  split <;> rfl

theorem received_of_shape {f : OptionField} (h : Shape.ofCode f.code ≠ .raw) : f.received = f :=
  if_neg h

/-- An option is sent as the raw one is that it is read as. -/
theorem encode_received (f : OptionField) : f.received.encode = f.encode := by
  unfold received
  split <;> rfl

end OptionField

namespace Options

/-- Options as they are read, those raw whose codes have no shape. -/
def received (os : Options) : Options := os.mapFields (·.received) OptionField.code_received

theorem codes_received (os : Options) : os.received.codes = os.codes :=
  os.codes_mapFields OptionField.code_received

theorem get?_received (os : Options) (c : UInt8) :
    os.received.get? c = (os.get? c).map (·.received) :=
  os.get?_mapFields OptionField.code_received c

theorem encode_received (os : Options) : os.received.encode = os.encode := by
  simp only [encode, received, mapFields, List.flatMap_map, OptionField.encode_received]

end Options

/-- A message whose options are read under their codes comes back with them as they are read. -/
theorem Message.decode_encode_of_received {m : Message}
    (h : ∀ f ∈ m.options.fields,
      f.received.Readable ∧ Shape.ofCode f.code ≠ .text) :
    decode m.encode = .ok { m with options := m.options.received } := by
  have hsent : m.encode = { m with options := m.options.received }.encode :=
    congrArg (m.encodeHeader ++ ·) m.options.encode_received.symm
  rw [hsent]
  apply decode_encode_of_nameless
  · intro f hf
    obtain ⟨g, hg, rfl⟩ := List.mem_map.1 hf
    exact (h g hg).1
  · have hnone : m.options.get? OptionCode.hostName.octet = none := by
      rw [Option.eq_none_iff_forall_ne_some]
      intro f hf
      obtain ⟨hmem, hcode⟩ := Options.get?_eq_some.1 hf
      exact (h f hmem).2 (by rw [hcode]; rfl)
    rw [hostName?, Options.text?, Options.get?_received, hnone, Option.map_none, Option.bind_none]

/-! ## The options of a reply -/

namespace Responder

/-- Every further option makes a reply longer by the longest option at most. -/
theorem encodedLength_addExtras_le (request : Option Kind) (kind : Kind) (own : Options)
    (extras : List OptionField) :
    (addExtras request kind own extras).encodedLength ≤
      own.encodedLength + extras.length * 257 := by
  induction extras generalizing own with
  | nil => exact Nat.le_add_right _ _
  | cons f fs ih =>
      rw [addExtras_cons, List.length_cons, Nat.succ_mul]
      split
      · exact Nat.le_trans (ih own) (Nat.add_le_add_left (Nat.le_add_right _ _) _)
      · have hinsert := own.encodedLength_insert_le f
        have hmax := f.encodedLength_le
        have hrest := ih (own.insert f)
        omega

/-- The times of a lease are read as they were sent. -/
theorem readable_of_mem_leaseTimes {seconds : UInt32} {f : OptionField}
    (h : f ∈ leaseTimes seconds) : f.Readable ∧ Shape.ofCode f.code = .span := by
  obtain ⟨rebinding, -, htimes⟩ := exists_leaseTimes seconds
  rw [htimes] at h
  simp only [List.mem_cons, List.not_mem_nil, or_false] at h
  obtain rfl | rfl | rfl := h
  · exact ⟨OptionField.readable_span rfl _, rfl⟩
  · exact ⟨OptionField.readable_span rfl _, rfl⟩
  · exact ⟨OptionField.readable_span rfl _, rfl⟩

section
variable {self : Responder} {request : Message} {kind : Kind} {a : Address} {term : Span}
  {extras : List OptionField} {r : Message}

/-- The options that a reply can have. -/
theorem mem_options_of_reply (h : self.reply request kind a term extras = .ok r) {f : OptionField}
    (hf : f ∈ r.options.fields) :
    f = .kind kind ∨ f = .serverIdentifier self.address ∨ f = .subnetMask self.mask ∨
      f ∈ leaseTimes term.word ∨ f ∈ extras := by
  obtain ⟨own, hown, rfl⟩ := reply_cases h
  obtain hf | hf := mem_fields_addExtras hf
  · have hf := Options.mem_fields_ofList hf
    rcases ownOptions_cases hown with ⟨-, rfl⟩ | ⟨-, -, rfl⟩ | ⟨-, -, -, rfl⟩ <;> grind
  · exact Or.inr (Or.inr (Or.inr (Or.inr hf.1)))

/-- The options of a reply's own are read as they were sent. -/
theorem readable_or_mem_extras (h : self.reply request kind a term extras = .ok r)
    {f : OptionField} (hf : f ∈ r.options.fields) :
    (f.Readable ∧ Shape.ofCode f.code ≠ .raw ∧ Shape.ofCode f.code ≠ .text) ∨ f ∈ extras := by
  obtain rfl | rfl | rfl | hf | hf := mem_options_of_reply h hf
  · exact Or.inl ⟨OptionField.readable_kind kind, nofun, nofun⟩
  · exact Or.inl ⟨OptionField.readable_address rfl _, nofun, nofun⟩
  · exact Or.inl ⟨OptionField.readable_address rfl _, nofun, nofun⟩
  · obtain ⟨hreadable, hshape⟩ := readable_of_mem_leaseTimes hf
    exact Or.inl ⟨hreadable, by rw [hshape]; nofun, by rw [hshape]; nofun⟩
  · exact Or.inr hf

/-- A reply with all options of its own takes 274 octets, and the longest option more for every
further one. -/
theorem length_encode_of_reply (h : self.reply request kind a term extras = .ok r) :
    r.encode.length ≤ 274 + extras.length * 257 := by
  obtain ⟨own, hown, rfl⟩ := reply_cases h
  have hextras := encodedLength_addExtras_le request.kind? kind (.ofList own) extras
  have hlength : (Options.ofList own).encodedLength ≤ 34 := by
    rcases ownOptions_cases hown with ⟨-, rfl⟩ | ⟨-, -, rfl⟩ | ⟨-, -, -, rfl⟩
    · exact Nat.le_of_ble_eq_true rfl
    · exact Nat.le_of_ble_eq_true rfl
    · exact Nat.le_of_ble_eq_true rfl
  rw [Message.length_encode, Message.encodedLength, Message.headerLength]
  dsimp only
  omega

end

end Responder

/-! ## The reply that a client reads -/

/-- A message of a client that has no address yet, which tells no more than some options. -/
def Message.ofClient (hw : HardwareAddress) (fields : List OptionField) : Message :=
  { op := .request, htype := 1, hops := 0, xid := 0, secs := 0, flags := 0
    ciaddr := .unspecified, yiaddr := .unspecified, siaddr := .unspecified
    giaddr := .unspecified, hw, options := .ofList fields }

namespace Config

/-- The only further option of a server's replies is the page for new clients. -/
theorem eq_captivePortal_of_mem_extras {c : Config} {f : OptionField} (h : f ∈ c.extras) :
    ∃ url, c.portalUrl = some url ∧ f = .captivePortal url := by
  unfold extras at h
  split at h
  · next url hurl =>
      split at h
      · contradiction
      · exact ⟨url, hurl, List.mem_singleton.1 h⟩
  · contradiction

theorem length_extras_le (c : Config) : c.extras.length ≤ 1 := by
  unfold extras
  split
  · split <;> exact Nat.le_of_ble_eq_true rfl
  · exact Nat.zero_le 1

/-- A page whose text fits an option is read as its octets. -/
theorem received_captivePortal {url : String} (h : url.utf8ByteSize ≤ OptionField.maxPayload) :
    (OptionField.captivePortal url).received =
        .raw OptionCode.captivePortal.octet (Text.utf8 url) ∧
      (OptionField.captivePortal url).received.Readable := by
  have hraw : (OptionField.captivePortal url).received =
      .raw OptionCode.captivePortal.octet (Text.utf8 url) := rfl
  refine ⟨hraw, ?_⟩
  rw [hraw]
  exact ⟨Text.utf8 url, (Text.length_utf8 url).symm ▸ h, rfl⟩

/-- A reply is made with the options of its own and those of the configuration. -/
theorem Answered.exists_reply {c : Config} {now : Instant} {p : Pool} {m r : Message}
    (h : c.Answered now p m r) :
    ∃ kind a term, c.responder.reply m kind a term c.extras = .ok r := by
  cases h with
  | offered a term _ _ _ _ hr => exact ⟨_, _, _, hr⟩
  | granted d l _ _ _ _ _ hr => exact ⟨_, _, _, hr⟩
  | refused _ _ _ hr => exact ⟨_, _, _, hr⟩

/-- **Every reply is read as it was made.**  What a server for an accepted configuration answers is
read with the header that it has and with its options in their order and unchanged, but that the
page for new clients comes back raw, as the octets of its text.  It is as long as was told
beforehand, and never longer than 531 octets. -/
theorem decode_encode_of_reply {c : Config} (hc : c.check = .ok ()) {now : Instant} {p : Pool}
    {m r : Message} (h : (c.answer now p m).reply = .ok (some r)) :
    ∃ os : Options, Message.decode r.encode = .ok { r with options := os } ∧
      os.codes = r.options.codes ∧
      (∀ code, code ≠ OptionCode.captivePortal.octet → os.get? code = r.options.get? code) ∧
      (∀ f, r.options.get? OptionCode.captivePortal.octet = some f →
        ∃ url, c.portalUrl = some url ∧ f = .captivePortal url ∧
          os.get? OptionCode.captivePortal.octet =
            some (.raw OptionCode.captivePortal.octet (Text.utf8 url))) ∧
      r.encode.length = r.encodedLength ∧ r.encode.length ≤ 531 := by
  obtain ⟨kind, a, term, hr⟩ := (answered_of_reply h).exists_reply
  obtain ⟨-, -, -, -, -, hfits⟩ := Config.valid_iff.1 (check_eq_ok.1 hc)
  have hread := Message.decode_encode_of_received (m := r) fun f hf => by
    obtain ⟨hreadable, hshape, hname⟩ | hf := Responder.readable_or_mem_extras hr hf
    · rw [OptionField.received_of_shape hshape]
      exact ⟨hreadable, hname⟩
    · obtain ⟨url, hurl, rfl⟩ := eq_captivePortal_of_mem_extras hf
      exact ⟨(received_captivePortal (hfits url hurl)).2, nofun⟩
  refine ⟨r.options.received, hread, r.options.codes_received, ?_, ?_, r.length_encode, ?_⟩
  · intro code hcode
    rw [Options.get?_received]
    cases hget : r.options.get? code with
    | none => rfl
    | some f =>
        obtain ⟨hmem, hf⟩ := Options.get?_eq_some.1 hget
        obtain ⟨-, hshape, -⟩ | hextra := Responder.readable_or_mem_extras hr hmem
        · rw [Option.map_some, OptionField.received_of_shape hshape]
        · obtain ⟨url, -, rfl⟩ := eq_captivePortal_of_mem_extras hextra
          exact absurd hf.symm hcode
  · intro f hget
    obtain ⟨hmem, hf⟩ := Options.get?_eq_some.1 hget
    obtain ⟨-, hshape, -⟩ | hextra := Responder.readable_or_mem_extras hr hmem
    · rw [hf] at hshape
      exact absurd rfl hshape
    · obtain ⟨url, hurl, rfl⟩ := eq_captivePortal_of_mem_extras hextra
      refine ⟨url, hurl, rfl, ?_⟩
      rw [Options.get?_received, hget, Option.map_some, (received_captivePortal (hfits url hurl)).1]
  · have hlength := Responder.length_encode_of_reply hr
    have hextras := c.length_extras_le
    omega

/-- A client that asks for a little more than a second is offered a second, and is told the octets
of a page whose address has a character of two octets. -/
theorem decode_encode_of_reply_portal :
    ∃ (c : Config) (m r : Message) (os : Options), c.check = .ok () ∧
      c.portalUrl = some "http://é/" ∧ m.leaseTime? = some (.ofParts 1 5) ∧
      (c.answer (.clamp 0) ⟨c.server, .replicate 256 none⟩ m).reply = .ok (some r) ∧
      Message.decode r.encode = .ok { r with options := os } ∧
      os.get? OptionCode.leaseTime.octet = some (.leaseTime (.ofWord 1)) ∧
      os.get? OptionCode.captivePortal.octet =
        some (.raw OptionCode.captivePortal.octet
          [0x68, 0x74, 0x74, 0x70, 0x3A, 0x2F, 0x2F, 0xC3, 0xA9, 0x2F]) ∧
      r.encode.length ≤ 531 := by
  have hc : Config.check { portalUrl := some "http://é/" } = .ok () := check_eq_ok.2 (by decide)
  obtain ⟨r, hr, htime, hportal⟩ : ∃ r,
      (Config.answer { portalUrl := some "http://é/" } (.clamp 0)
        ⟨⟨192, 168, 4, 1⟩, .replicate 256 none⟩
        (.ofClient .empty [.kind .discover, .leaseTime (.ofParts 1 5)])).reply = .ok (some r) ∧
      r.options.get? OptionCode.leaseTime.octet = some (.leaseTime (.ofWord 1)) ∧
      r.options.get? OptionCode.captivePortal.octet = some (.captivePortal "http://é/") :=
    ⟨_, rfl, rfl, rfl⟩
  obtain ⟨os, hread, -, hother, hpage, -, hmax⟩ := decode_encode_of_reply hc hr
  obtain ⟨url, hurl, -, hpage⟩ := hpage _ hportal
  cases hurl
  exact ⟨_, _, r, os, hc, rfl, rfl, hr, hread, (hother _ (by decide)).trans htime, hpage, hmax⟩

end Config

end Dhcp
