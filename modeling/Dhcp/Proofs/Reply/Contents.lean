import Dhcp.Proofs.Options.Lookup
import Dhcp.Reply

/-!
# Dhcp.Proofs.Reply.Contents

What stands in a reply.  `Responder.ownOptions_cases` lists the three sets of options that a
reply can have of its own, and `Responder.reply_cases` the reply that is made of one.  Further
options never hide one of the reply's own (`Responder.get?_addExtras`), so that its message
type and the seconds of its lease can be read off these lists.
-/

namespace Dhcp

/-! ## The seconds of a lease -/

namespace Span

/-- Seconds that fit a word, as a span of that word. -/
theorem ofSeconds_eq_ofWord {s : UInt64} (h : s.toNat < UInt32.size) :
    ofSeconds s = ofWord s.toUInt32 := by
  ext1
  rw [nanos_ofSeconds, nanos_ofWord, UInt64.toNat_toUInt32, Nat.mod_eq_of_lt h]

/-- Only a span without a whole second is told as none. -/
theorem word_eq_zero {d : Span} : d.word = 0 ↔ d.seconds = 0 := by
  rw [← UInt32.toNat_inj, toNat_word]
  change min _ _ = 0 ↔ _
  omega

end Span

theorem OptionField.ofBigEndian_payload_leaseTime (d : Span) :
    ofBigEndian (leaseTime d).payload = d.word.toNat := by
  have hpayload : (leaseTime d).payload = bigEndian 4 d.word.toNat := by
    apply List.take_of_length_le
    rw [leaseTime, valueOctets, Span.length_octets]
    decide
  rw [hpayload, ofBigEndian_bigEndian d.word.toNat_lt]

/-- The seconds of a lease that a message tells when it is sent. -/
def Message.leaseSeconds? (m : Message) : Option Nat :=
  (m.options.get? OptionCode.leaseTime.octet).map fun f => ofBigEndian f.payload

theorem Message.leaseSeconds?_of_leaseTime? {m : Message} {d : Span} (h : m.leaseTime? = some d) :
    m.leaseSeconds? = some d.word.toNat := by
  have hget : m.options.get? OptionCode.leaseTime.octet = some (.leaseTime d) :=
    Options.span?_eq_some.1 h
  rw [leaseSeconds?, hget]
  exact congrArg some (OptionField.ofBigEndian_payload_leaseTime d)

namespace Responder

/-! ## Further options -/

theorem addExtras_cons (request : Option Kind) (kind : Kind) (own : Options) (f : OptionField)
    (fs : List OptionField) :
    addExtras request kind own (f :: fs) =
      addExtras request kind
        (if own.contains f.code ∨ ¬ Reply.allows request kind f.code then own
          else own.insert f) fs := rfl

/-- An option that a reply has is not replaced by further ones. -/
theorem get?_addExtras {request : Option Kind} {kind : Kind} {own : Options}
    {extras : List OptionField} {c : UInt8} {f : OptionField} (h : own.get? c = some f) :
    (addExtras request kind own extras).get? c = some f := by
  induction extras generalizing own with
  | nil => exact h
  | cons g gs ih =>
      rw [addExtras_cons]
      apply ih
      by_cases hskip : own.contains g.code ∨ ¬ Reply.allows request kind g.code
      · rwa [if_pos hskip]
      · -- an option that is added has a code of its own
        have hne : g.code ≠ c := by
          rintro rfl
          exact hskip (Or.inl (by rw [Options.contains, h]; rfl))
        rw [if_neg hskip, Options.get?_insert, if_neg hne, h]

/-- Further options are added only if their codes are allowed. -/
theorem mem_fields_addExtras {request : Option Kind} {kind : Kind} {own : Options}
    {extras : List OptionField} {f : OptionField}
    (h : f ∈ (addExtras request kind own extras).fields) :
    f ∈ own.fields ∨ f ∈ extras ∧ Reply.allows request kind f.code := by
  induction extras generalizing own with
  | nil => exact Or.inl h
  | cons g gs ih =>
      rw [addExtras_cons] at h
      obtain h | ⟨hmem, hallowed⟩ := ih h
      · by_cases hskip : own.contains g.code ∨ ¬ Reply.allows request kind g.code
        · rw [if_pos hskip] at h
          exact Or.inl h
        · rw [if_neg hskip] at h
          obtain rfl | h := OptionField.mem_insertInto h
          · have hallowed : Reply.allows request kind f.code :=
              Classical.not_not.1 (not_or.1 hskip).2
            exact Or.inr ⟨List.mem_cons_self, hallowed⟩
          · exact Or.inl h
      · exact Or.inr ⟨List.mem_cons_of_mem g hmem, hallowed⟩

/-! ## Options of the reply's own -/

/-- The times of a lease are told as words: its seconds, half of them, and seven eighths of them. -/
theorem exists_leaseTimes (seconds : UInt32) :
    ∃ rebinding : UInt32, rebinding.toNat = 7 * seconds.toNat / 8 ∧
      leaseTimes seconds = [.leaseTime (.ofWord seconds), .renewalTime (.ofWord (seconds / 2)),
        .rebindingTime (.ofWord rebinding)] := by
  have hseconds := seconds.toNat_lt
  have hseven : (seconds.toUInt64 * 7 / 8).toNat = 7 * seconds.toNat / 8 := by
    rw [UInt64.toNat_div, UInt64.toNat_mul, UInt32.toNat_toUInt64]
    change seconds.toNat * 7 % 18446744073709551616 / 8 = _
    omega
  have hfits : (seconds.toUInt64 * 7 / 8).toNat < UInt32.size := by
    change _ < 4294967296
    omega
  refine ⟨(seconds.toUInt64 * 7 / 8).toUInt32, ?_, ?_⟩
  · rw [UInt64.toNat_toUInt32, Nat.mod_eq_of_lt hfits, hseven]
  · rw [leaseTimes, Span.ofSeconds_eq_ofWord hfits]

/-- The options of a reply's own are missing just if they are to tell of a lease without a
second. -/
theorem ownOptions_eq_error {self : Responder} {request : Option Kind} {kind : Kind} {term : Span}
    {e : ReplyError} :
    self.ownOptions request kind term = .error e ↔
      kind ≠ .nak ∧ request ≠ some .inform ∧ term.seconds = 0 := by
  rw [← Span.word_eq_zero]
  unfold ownOptions
  by_cases hnak : kind = .nak
  · rw [if_pos hnak]
    simp [hnak]
  · rw [if_neg hnak]
    by_cases hinform : request = some .inform
    · rw [if_pos hinform]
      simp [hinform]
    · rw [if_neg hinform]
      by_cases hword : term.word = 0
      · rw [if_pos hword]
        simp [hnak, hinform, hword]
      · rw [if_neg hword]
        simp [hword]

/-- The options that a reply has of its own: those of a NAK, of an answer to an INFORM, and of
an offer or grant of an address for some seconds. -/
theorem ownOptions_cases {self : Responder} {request : Option Kind} {kind : Kind} {term : Span}
    {own : List OptionField} (h : self.ownOptions request kind term = .ok own) :
    (kind = .nak ∧ own = [.kind kind, .serverIdentifier self.address]) ∨
    (kind ≠ .nak ∧ request = some .inform ∧
      own = [.kind kind, .serverIdentifier self.address, .subnetMask self.mask]) ∨
    (kind ≠ .nak ∧ request ≠ some .inform ∧ term.word ≠ 0 ∧
      own = .kind kind :: .serverIdentifier self.address :: .subnetMask self.mask ::
        leaseTimes term.word) := by
  unfold ownOptions at h
  by_cases hnak : kind = .nak
  · rw [if_pos hnak] at h
    exact Or.inl ⟨hnak, (Except.ok.inj h).symm⟩
  · rw [if_neg hnak] at h
    by_cases hinform : request = some .inform
    · rw [if_pos hinform] at h
      exact Or.inr (Or.inl ⟨hnak, hinform, (Except.ok.inj h).symm⟩)
    · rw [if_neg hinform] at h
      by_cases hword : term.word = 0
      · rw [if_pos hword] at h
        contradiction
      · rw [if_neg hword] at h
        exact Or.inr (Or.inr ⟨hnak, hinform, hword, (Except.ok.inj h).symm⟩)

/-- The message type is the first of a reply's own options. -/
theorem get?_messageType_own {self : Responder} {request : Option Kind} {kind : Kind}
    {term : Span} {own : List OptionField} (h : self.ownOptions request kind term = .ok own) :
    (Options.ofList own).get? OptionCode.messageType.octet = some (.kind kind) := by
  rcases ownOptions_cases h with ⟨-, rfl⟩ | ⟨-, -, rfl⟩ | ⟨-, -, -, rfl⟩ <;>
    simp [Options.ofList, Options.insertAll, leaseTimes, OptionField.code, OptionCode.octet,
      OptionField.serverIdentifier, OptionField.subnetMask, OptionField.leaseTime,
      OptionField.renewalTime, OptionField.rebindingTime]

/-- An offer or grant tells the seconds of the lease. -/
theorem get?_leaseTime_own {self : Responder} {request : Option Kind} {kind : Kind}
    {term : Span} {own : List OptionField} (h : self.ownOptions request kind term = .ok own)
    (hnak : kind ≠ .nak) (hinform : request ≠ some .inform) :
    (Options.ofList own).get? OptionCode.leaseTime.octet =
      some (.leaseTime (.ofWord term.word)) := by
  rcases ownOptions_cases h with ⟨hk, -⟩ | ⟨-, hi, -⟩ | ⟨-, -, -, rfl⟩
  · exact absurd hk hnak
  · exact absurd hi hinform
  · simp [Options.ofList, Options.insertAll, leaseTimes, OptionField.code, OptionCode.octet,
      OptionField.serverIdentifier, OptionField.subnetMask, OptionField.leaseTime,
      OptionField.renewalTime, OptionField.rebindingTime]

/-! ## The reply -/

section
variable {self : Responder} {request : Message} {kind : Kind} {a : Address} {term : Span}
  {extras : List OptionField} {r : Message}

/-- The reply that is made of the options of its own. -/
theorem reply_cases (h : self.reply request kind a term extras = .ok r) :
    ∃ own, self.ownOptions request.kind? kind term = .ok own ∧
      r = { op := .reply, htype := request.htype, hops := 0, xid := request.xid, secs := 0
            flags := request.flags, ciaddr := .unspecified, yiaddr := a, siaddr := .unspecified
            giaddr := request.giaddr, hw := request.hw
            options := addExtras request.kind? kind (.ofList own) extras } := by
  unfold reply at h
  cases hown : self.ownOptions request.kind? kind term with
  | error e => rw [hown] at h; contradiction
  | ok own => rw [hown] at h; exact ⟨own, rfl, (Except.ok.inj h).symm⟩

/-- **Only a lease without a whole second keeps a reply from being made.** -/
theorem reply_eq_error {e : ReplyError} :
    self.reply request kind a term extras = .error e ↔
      kind ≠ .nak ∧ request.kind? ≠ some .inform ∧ term.seconds = 0 := by
  rw [← @ownOptions_eq_error self _ _ _ e, reply]
  cases self.ownOptions request.kind? kind term with
  | error e' => rw [Except.map, Except.error.injEq, Except.error.injEq]
  | ok own => simp [Except.map]

theorem exists_reply (h : kind = .nak ∨ request.kind? = some .inform ∨ term.word ≠ 0) :
    ∃ r, self.reply request kind a term extras = .ok r := by
  cases hr : self.reply request kind a term extras with
  | ok r => exact ⟨r, rfl⟩
  | error e =>
      obtain ⟨hnak, hinform, hseconds⟩ := reply_eq_error.1 hr
      have hword := (h.resolve_left hnak).resolve_left hinform
      exact absurd (Span.word_eq_zero.2 hseconds) hword

theorem yiaddr_of_reply (h : self.reply request kind a term extras = .ok r) : r.yiaddr = a := by
  obtain ⟨own, -, rfl⟩ := reply_cases h
  rfl

/-- A reply goes to the client that it answers. -/
theorem hw_of_reply (h : self.reply request kind a term extras = .ok r) : r.hw = request.hw := by
  obtain ⟨own, -, rfl⟩ := reply_cases h
  rfl

/-- A reply has the type that it was made with. -/
theorem kind?_of_reply (h : self.reply request kind a term extras = .ok r) :
    r.kind? = some kind := by
  obtain ⟨own, hown, rfl⟩ := reply_cases h
  exact Options.kind?_eq_some.2 (get?_addExtras (get?_messageType_own hown))

/-- A reply to other than an INFORM tells the seconds of the lease, unless it is a NAK. -/
theorem get?_leaseTime_of_reply (h : self.reply request kind a term extras = .ok r)
    (hnak : kind ≠ .nak) (hinform : request.kind? ≠ some .inform) :
    r.options.get? OptionCode.leaseTime.octet = some (.leaseTime (.ofWord term.word)) := by
  obtain ⟨own, hown, rfl⟩ := reply_cases h
  exact get?_addExtras (get?_leaseTime_own hown hnak hinform)

theorem leaseTime?_of_reply (h : self.reply request kind a term extras = .ok r)
    (hnak : kind ≠ .nak) (hinform : request.kind? ≠ some .inform) :
    r.leaseTime? = some (.ofWord term.word) :=
  Options.span?_eq_some.2 (get?_leaseTime_of_reply h hnak hinform)

end

end Responder

end Dhcp
