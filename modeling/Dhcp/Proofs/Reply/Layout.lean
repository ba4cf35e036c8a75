import Dhcp.Proofs.Reply.Contents

/-!
# Dhcp.Proofs.Reply.Layout

How a reply is made, whatever it is asked to carry.  Its header takes over what identifies the
request.  Its own options come first, and behind them stand the further ones whose codes are new
and allowed, the first of each code and in their order (`Reply.further`,
`Responder.fields_addExtras`).  So every reply is determined, and only an offer or a grant for less
than a second cannot be made (`Responder.replies_determined`).
-/

namespace Dhcp

/-! ## Further options -/

namespace Reply

/-- The further options that a reply carries beside those of known codes: the first of each code
that is new and allowed, in their order. -/
def further (request : Option Kind) (kind : Kind) (known : List UInt8)
    (extras : List OptionField) : List OptionField :=
  (extras.filter fun f => f.code ∉ known ∧ allows request kind f.code).eraseDupsBy
    fun f g => f.code = g.code

section
variable {request : Option Kind} {kind : Kind} {known : List UInt8} {f : OptionField}
  (fs : List OptionField)

theorem further_cons_of_skipped (h : f.code ∈ known ∨ ¬ allows request kind f.code) :
    further request kind known (f :: fs) = further request kind known fs := by
  have hskip : ¬ (f.code ∉ known ∧ allows request kind f.code) := by
    rintro ⟨hnew, hallowed⟩
    exact h.elim hnew (absurd hallowed)
  rw [further, List.filter_cons_of_neg (by simpa using hskip), further]

/-- What has the code of an option that is carried is left out behind it: to know a code is to leave
out its repetitions. -/
theorem further_cons_of_carried (hnew : f.code ∉ known) (hallowed : allows request kind f.code) :
    further request kind known (f :: fs) =
      f :: further request kind (known ++ [f.code]) fs := by
  have hrest : (fs.filter fun g => g.code ∉ known ∧ allows request kind g.code).filter
        (fun g => decide (g.code = f.code) = false) =
      fs.filter fun g => g.code ∉ known ++ [f.code] ∧ allows request kind g.code := by
    rw [List.filter_filter]
    exact List.filter_congr fun g _ => by grind
  rw [further, List.filter_cons_of_pos (by simp [hnew, hallowed]), List.eraseDupsBy_cons, hrest,
    further]

end

/-- A NAK may carry its type, its server, the class and the name of the client, and nothing else. -/
theorem code_of_allows_nak {request : Option Kind} {code : UInt8}
    (h : allows request .nak code) : code ∈ [53, 54, 60, 61] := by
  unfold allows at h
  cases hcode : OptionCode.ofOctet? code with
  | none => simp [hcode] at h
  | some c =>
      rw [hcode] at h
      rw [OptionCode.ofOctet?_eq_some.1 hcode]
      cases c <;> simp [OptionCode.octet] at h ⊢

end Reply

/-- **Further options come last**, the first of each code that is new and allowed. -/
theorem Responder.fields_addExtras (request : Option Kind) (kind : Kind) (own : Options)
    (extras : List OptionField) :
    (addExtras request kind own extras).fields =
      own.fields ++ Reply.further request kind own.codes extras := by
  induction extras generalizing own with
  | nil => exact (List.append_nil _).symm
  | cons f fs ih =>
      rw [addExtras_cons, ih]
      by_cases hskip : own.contains f.code ∨ ¬ Reply.allows request kind f.code
      · rw [if_pos hskip]
        rw [Options.contains_iff] at hskip
        rw [Reply.further_cons_of_skipped fs hskip]
      · rw [if_neg hskip]
        rw [Options.contains_iff, not_or, Classical.not_not] at hskip
        obtain ⟨hnew, hallowed⟩ := hskip
        rw [Reply.further_cons_of_carried fs hnew hallowed, Options.codes_insert hnew,
          Options.fields_insert hnew, List.append_assoc, List.singleton_append]

/-! ## Replies -/

/-- Whether a message is the reply of some type to a request that gives an address: it has some
options of its own, and the further ones behind them. -/
structure Message.IsReply (r request : Message) (kind : Kind) (a : Address)
    (own extras : List OptionField) : Prop where
  op : r.op = .reply
  htype : r.htype = request.htype
  hops : r.hops = 0
  xid : r.xid = request.xid
  secs : r.secs = 0
  flags : r.flags = request.flags
  ciaddr : r.ciaddr = .unspecified
  yiaddr : r.yiaddr = a
  siaddr : r.siaddr = .unspecified
  giaddr : r.giaddr = request.giaddr
  hw : r.hw = request.hw
  nodup : r.options.codes.Nodup
  fields : r.options.fields = own ++ Reply.further request.kind? kind (own.map (·.code)) extras

namespace Responder

section
variable {self : Responder} {request : Message} {kind : Kind} {a : Address} {term : Span}
  {extras : List OptionField} {r : Message}

/-- The options of a reply's own have different codes. -/
theorem nodup_own {request : Option Kind} {own : List OptionField}
    (h : self.ownOptions request kind term = .ok own) : (own.map (·.code)).Nodup := by
  rcases ownOptions_cases h with ⟨-, rfl⟩ | ⟨-, -, rfl⟩ | ⟨-, -, -, rfl⟩
  · change [53, 54].Nodup
    decide
  · change [53, 54, 1].Nodup
    decide
  · change [53, 54, 1, 51, 58, 59].Nodup
    decide

/-- What is made as a reply is one, with the options of its own in front. -/
theorem isReply_of_reply {own : List OptionField}
    (hown : self.ownOptions request.kind? kind term = .ok own)
    (h : self.reply request kind a term extras = .ok r) :
    r.IsReply request kind a own extras := by
  obtain ⟨own', hown', rfl⟩ := reply_cases h
  cases hown.symm.trans hown'
  have hfields : (Options.ofList own).fields = own := Options.fields_ofList (nodup_own hown)
  refine ⟨rfl, rfl, rfl, rfl, rfl, rfl, rfl, rfl, rfl, rfl, rfl, Options.nodup _, ?_⟩
  dsimp only
  rw [fields_addExtras, Options.codes, hfields]

/-- A reply's own options come first. -/
theorem own_prefix_codes {own : List OptionField} (h : r.IsReply request kind a own extras) :
    own.map (·.code) <+: r.options.codes := by
  rw [Options.codes, h.fields, List.map_append]
  exact List.prefix_append ..

/-- A NAK carries few codes, whatever it is asked to carry. -/
theorem mem_codes_of_nak (h : self.nak request extras = .ok r) {code : UInt8}
    (hcode : code ∈ r.options.codes) : code ∈ [53, 54, 60, 61] := by
  obtain ⟨own, hown, rfl⟩ := reply_cases h
  obtain ⟨f, hf, rfl⟩ := List.mem_map.1 hcode
  obtain hf | ⟨-, hallowed⟩ := mem_fields_addExtras hf
  · cases hown
    have hf := Options.mem_fields_ofList hf
    simp only [List.mem_cons, List.not_mem_nil, or_false] at hf
    obtain rfl | rfl := hf
    · change 53 ∈ [53, 54, 60, 61]
      decide
    · change 54 ∈ [53, 54, 60, 61]
      decide
  · exact Reply.code_of_allows_nak hallowed

end

/-- Whether what is made of a request is determined as an offer or a grant of an address for some
time: it cannot be made for less than a second, unless an INFORM is answered, which is not told
the times of a lease; and it is told them otherwise, as far as words can tell them. -/
structure Determines (self : Responder) (request : Message) (kind : Kind) (a : Address)
    (term : Span) (extras : List OptionField) (result : Except ReplyError Message) : Prop where
  error_iff : result = .error .zeroLease ↔ request.kind? ≠ some .inform ∧ term.seconds = 0
  inform : request.kind? = some .inform → ∃ r, result = .ok r ∧ [53, 54, 1] <+: r.options.codes ∧
    r.IsReply request kind a
      [.kind kind, .serverIdentifier self.address, .subnetMask self.mask] extras
  lease : request.kind? ≠ some .inform → term.seconds ≠ 0 →
    ∃ (r : Message) (length renewal rebinding : UInt32), result = .ok r ∧
      length.toNat = min term.seconds 4294967295 ∧ renewal.toNat = length.toNat / 2 ∧
      rebinding.toNat = 7 * length.toNat / 8 ∧ renewal ≤ rebinding ∧ rebinding < length ∧
      [53, 54, 1, 51, 58, 59] <+: r.options.codes ∧
      r.IsReply request kind a
        [.kind kind, .serverIdentifier self.address, .subnetMask self.mask,
          .leaseTime (.ofWord length), .renewalTime (.ofWord renewal),
          .rebindingTime (.ofWord rebinding)] extras

variable (self : Responder) (request : Message) (a : Address) (term : Span)
  (extras : List OptionField)

theorem determines_reply {kind : Kind} (hnak : kind ≠ .nak) :
    self.Determines request kind a term extras (self.reply request kind a term extras) := by
  constructor
  · rw [reply_eq_error]
    exact ⟨fun h => h.2, fun h => ⟨hnak, h⟩⟩
  · intro hinform
    obtain ⟨r, hr⟩ : ∃ r, self.reply request kind a term extras = .ok r :=
      exists_reply (Or.inr (Or.inl hinform))
    obtain ⟨own, hown, -⟩ := reply_cases hr
    rcases ownOptions_cases hown with ⟨hk, -⟩ | ⟨-, -, rfl⟩ | ⟨-, hi, -⟩
    · exact absurd hk hnak
    · have hreply := isReply_of_reply hown hr
      exact ⟨r, hr, own_prefix_codes hreply, hreply⟩
    · exact absurd hinform hi
  · intro hinform hseconds
    obtain ⟨r, hr⟩ : ∃ r, self.reply request kind a term extras = .ok r :=
      exists_reply (Or.inr (Or.inr (mt Span.word_eq_zero.1 hseconds)))
    obtain ⟨own, hown, -⟩ := reply_cases hr
    rcases ownOptions_cases hown with ⟨hk, -⟩ | ⟨-, hi, -⟩ | ⟨-, -, hword, rfl⟩
    · exact absurd hk hnak
    · exact absurd hi hinform
    · obtain ⟨rebinding, hrebinding, htimes⟩ := exists_leaseTimes term.word
      have hreply := isReply_of_reply hown hr
      rw [htimes] at hreply
      have hlength : term.word.toNat = min term.seconds 4294967295 := term.toNat_word
      have hrenewal : (term.word / 2).toNat = term.word.toNat / 2 := UInt32.toNat_div ..
      refine ⟨r, term.word, term.word / 2, rebinding, hr, hlength, hrenewal, hrebinding, ?_, ?_,
        own_prefix_codes hreply, hreply⟩
      · rw [UInt32.le_iff_toNat_le, hrenewal, hrebinding]
        omega
      · rw [UInt32.lt_iff_toNat_lt, hrebinding]
        omega

/-- **Every reply is determined**, whatever it is asked to carry. -/
theorem replies_determined :
    self.Determines request .offer a term extras (self.offer request a term extras) ∧
    self.Determines request .ack a term extras (self.ack request a term extras) ∧
    ∃ r, self.nak request extras = .ok r ∧ [53, 54] <+: r.options.codes ∧
      r.IsReply request .nak .unspecified [.kind .nak, .serverIdentifier self.address] extras ∧
      ∀ code ∈ r.options.codes, code ∈ [53, 54, 60, 61] := by
  refine ⟨determines_reply _ _ _ _ _ nofun, determines_reply _ _ _ _ _ nofun, ?_⟩
  obtain ⟨r, hr⟩ : ∃ r, self.nak request extras = .ok r := exists_reply (Or.inl rfl)
  have hown : self.ownOptions request.kind? .nak .zero =
      .ok [.kind .nak, .serverIdentifier self.address] := rfl
  have hreply := isReply_of_reply hown hr
  exact ⟨r, hr, own_prefix_codes hreply, hreply, fun code => mem_codes_of_nak hr⟩

end Responder

end Dhcp
