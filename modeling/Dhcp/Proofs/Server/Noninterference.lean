import Mathlib.Data.List.Forall2
import Dhcp.Proofs.Lease.Promise
import Dhcp.Proofs.Message.Header
import Dhcp.Proofs.Options.Grammar
import Dhcp.Proofs.Reply.Agreement
import Dhcp.Proofs.Server.Running

/-!
# Dhcp.Proofs.Server.Noninterference

What of a packet can have an influence.  A server that is given packets whose messages agree replies
alike and keeps the same leases (`Server.noninterference`).  Of a packet this leaves some fields of
the header, the octets of the hardware address, and the last copy of four options before the End
mark; all else that a packet holds is not read, or has no influence (`Message.SameWhereRead`).
-/

namespace Dhcp

/-! ## Packets -/

namespace Message

/-- The options that an answer depends on. -/
def readCodes : List OptionCode := [.requestedAddress, .leaseTime, .messageType, .serverIdentifier]

/-- Whether two packets are the same where they are read for an answer: in the operation, the
type and the length of the hardware address, the transaction, the flags and the client's address,
the relay's address and the hardware address, and in the last of each of the options that are
read. -/
structure SameWhereRead (data data' : Octets) : Prop where
  first : Wire.SameFrom data data' 0 3
  transaction : Wire.SameFrom data data' 4 8
  flags : Wire.SameFrom data data' 10 16
  relay : Wire.SameFrom data data' 24 (28 + (Wire.octetAt data 2).toNat)
  options : ∃ es tail es' tail',
    Options.Split (data.drop headerLength) es (OptionCode.endMark.octet :: tail) ∧
    Options.Split (data'.drop headerLength) es' (OptionCode.endMark.octet :: tail') ∧
    ∀ c ∈ readCodes, Options.lastPayload? es c.octet = Options.lastPayload? es' c.octet

variable {data data' : Octets} {m n : Message}

/-- The options that are read are those of the elements before the End mark. -/
theorem options_of_split {es : List Options.Element} {tail : Octets} (h : decode data = .ok m)
    (hsplit : Options.Split (data.drop headerLength) es (OptionCode.endMark.octet :: tail)) :
    m.options = .ofElements es := by
  have hread := options_of_decode h
  have hstart := (Options.decode_eq_ok.1 hread).1
  rw [Options.decode_of_stop hstart hsplit (.endMark tail)] at hread
  exact (Except.ok.inj hread).symm

/-- Headers that are the same where they are read, with options that are, are of messages that
agree. -/
theorem SameWhereRead.ofHeader_agrees (h : SameWhereRead data data') (op : Operation)
    {os os' : Options} (hos : ∀ c ∈ readCodes, os.get? c.octet = os'.get? c.octet) :
    (ofHeader data op os).Agrees (ofHeader data' op os') where
  op := rfl
  htype := h.first.octetAt_eq (by decide) (by decide)
  xid := by
    change Wire.word32At data 4 = Wire.word32At data' 4
    rw [Wire.word32At, h.transaction.fieldAt_eq (by decide) (by decide), Wire.word32At]
  flags := by
    change Wire.word16At data 10 = Wire.word16At data' 10
    rw [Wire.word16At, h.flags.fieldAt_eq (by decide) (by decide), Wire.word16At]
  ciaddr := by
    change Wire.addressAt data 12 = Wire.addressAt data' 12
    rw [Wire.addressAt, h.flags.fieldAt_eq (by decide) (by decide), Wire.addressAt]
  giaddr := by
    change Wire.addressAt data 24 = Wire.addressAt data' 24
    rw [Wire.addressAt, h.relay.fieldAt_eq (by decide) (Nat.le_add_right 28 _), Wire.addressAt]
  hw := by
    have hlength : Wire.octetAt data 2 = Wire.octetAt data' 2 :=
      h.first.octetAt_eq (by decide) (by decide)
    have hfield := h.relay.fieldAt_eq (by decide) (Nat.le_refl (28 + _))
    rw [ofHeader, ofHeader, hfield, hlength]
  requestedAddress? := by
    simp only [requestedAddress?, Options.address?, ofHeader, hos .requestedAddress (by decide)]
  leaseTime? := by
    simp only [leaseTime?, Options.span?, ofHeader, hos .leaseTime (by decide)]
  kind? := by
    simp only [kind?, Options.kind?, ofHeader, hos .messageType (by decide)]
  serverIdentifier? := by
    simp only [serverIdentifier?, Options.address?, ofHeader, hos .serverIdentifier (by decide)]

/-- **Packets that are the same where they are read** are messages that agree. -/
theorem agrees_of_decode (hm : decode data = .ok m) (hn : decode data' = .ok n)
    (h : SameWhereRead data data') : m.Agrees n := by
  obtain ⟨es, tail, es', tail', hsplit, hsplit', hpayload⟩ := h.options
  have hoptions : ∀ c ∈ readCodes, m.options.get? c.octet = n.options.get? c.octet := by
    intro c hc
    rw [options_of_split hm hsplit, options_of_split hn hsplit',
      Options.get?_ofElements hsplit.wellTyped, Options.get?_ofElements hsplit'.wellTyped,
      hpayload c hc]
  obtain ⟨-, -, hop, -, -, hheader⟩ := decode_eq_ok.1 hm
  obtain ⟨-, -, hop', -, -, hheader'⟩ := decode_eq_ok.1 hn
  have hsame : m.op = n.op := by
    rw [h.first.octetAt_eq (by decide) (by decide), hop'] at hop
    exact (Option.some.inj hop).symm
  rw [hheader, hheader', hsame]
  exact h.ofHeader_agrees n.op hoptions

end Message

/-! ## Runs -/

namespace Server

/-- Whether two inputs are the same as far as they have an influence: one and the same, or
datagrams that are messages which agree. -/
inductive Input.Agrees : Input → Input → Prop where
  | same (i : Input) : Agrees i i
  | messages {data data' : Octets} {m n : Message} :
    Message.decode (data.take bufferLength) = .ok m →
      Message.decode (data'.take bufferLength) = .ok n → m.Agrees n →
        Agrees (.datagram data) (.datagram data')

/-- Whether two inputs that come at the same time agree. -/
structure Timed.Agrees (i j : Timed) : Prop where
  now : i.now = j.now
  input : i.input.Agrees j.input

variable {s : Server} {now : Instant}

/-- Datagrams whose messages agree are handled alike. -/
theorem handle_of_agrees {data data' : Octets} {m n : Message}
    (hm : Message.decode data = .ok m) (hn : Message.decode data' = .ok n) (h : m.Agrees n) :
    (s.handle now data).answer = (s.handle now data').answer ∧
      (s.handle now data).server = (s.handle now data').server := by
  obtain ⟨hreply, hpool⟩ := Config.answer_of_agrees h s.config now s.pool
  rw [server_handle_of_ok hm, server_handle_of_ok hn, hpool]
  refine ⟨?_, rfl⟩
  simp only [handle, hm, hn, hreply]

/-- What comes of inputs that agree is the same, and the server afterwards. -/
theorem step_of_agrees {i j : Timed} (h : i.Agrees j) : s.step i = s.step j := by
  obtain ⟨now, input⟩ := i
  obtain ⟨now', input'⟩ := j
  obtain ⟨rfl, hinput⟩ := h
  cases hinput with
  | same => rfl
  | messages hm hn hagrees =>
      obtain ⟨hanswer, hserver⟩ := @handle_of_agrees s now _ _ _ _ hm hn hagrees
      simp only [step, hanswer, hserver]

/-- **Nothing else of a packet has an influence.**  Let a server be given one run of inputs or
another, in which sweeps come at the same times and datagrams are messages that agree pairwise.
Then what comes of each input is the same, be it a reply, its absence or an error, and so is the
server afterwards with all its leases.  And messages agree if their packets are the same where they
are read. -/
theorem noninterference (s : Server) :
    (∀ is js, List.Forall₂ Timed.Agrees is js →
      s.effects is = s.effects js ∧ s.run is = s.run js) ∧
    ∀ data data' m n, Message.decode data = .ok m → Message.decode data' = .ok n →
      Message.SameWhereRead data data' → m.Agrees n := by
  refine ⟨?_, fun data data' m n => Message.agrees_of_decode⟩
  intro is js h
  induction h generalizing s with
  | nil => exact ⟨rfl, rfl⟩
  | cons hfirst _ ih =>
      obtain ⟨heffects, hrun⟩ := ih (s.step _).2
      rw [effects, effects, run_cons, run_cons, ← step_of_agrees hfirst]
      exact ⟨congrArg _ heffects, hrun⟩

/-- A REQUEST that has come over nine hops, with a name, padding, and options that later ones
replace, is granted the same lease as a bare one. -/
theorem noninterference_request :
    let bare : Octets := [1, 1, 6, 0, 1, 2, 3, 4] ++ List.replicate 20 0 ++ [1, 2, 3, 4, 5, 6] ++
      List.replicate 202 0 ++ Message.magicCookie ++ [53, 1, 3, 50, 4, 192, 168, 4, 2, 255]
    let laden : Octets := [1, 1, 6, 9, 1, 2, 3, 4, 0, 7] ++ List.replicate 6 0 ++
      List.replicate 8 5 ++ List.replicate 4 0 ++ [1, 2, 3, 4, 5, 6] ++ List.replicate 202 65 ++
      Message.magicCookie ++ [53, 1, 1, 50, 4, 192, 168, 4, 9, 0, 12, 1, 65,
        50, 4, 192, 168, 4, 2, 53, 1, 3, 255, 53, 1, 7]
    ∃ s, create {} = .ok s ∧ (∃ m n, Message.decode bare = .ok m ∧ Message.decode laden = .ok n ∧
        m ≠ n ∧ m.Agrees n) ∧
      (∃ r, s.effects [⟨.clamp 0, .datagram bare⟩] = [.handled (.ok (some r))] ∧
        r.kind? = some .ack) ∧
      s.effects [⟨.clamp 0, .datagram bare⟩, ⟨.clamp 1, .sweep⟩] =
        s.effects [⟨.clamp 0, .datagram laden⟩, ⟨.clamp 1, .sweep⟩] ∧
      s.run [⟨.clamp 0, .datagram bare⟩, ⟨.clamp 1, .sweep⟩] =
        s.run [⟨.clamp 0, .datagram laden⟩, ⟨.clamp 1, .sweep⟩] := by
  intro bare laden
  obtain ⟨request, s, hrequest, hs, ack, hack, hgranted⟩ : ∃ (request : Message) (s : Server),
      request = { Message.asking ⟨192, 168, 4, 2⟩ (.ofOctets [1, 2, 3, 4, 5, 6]) with
        xid := 0x04030201 } ∧
      create {} = .ok s ∧
      ∃ r, (s.config.answer (.clamp 0) s.pool request).reply = .ok (some r) ∧
        r.kind? = some .ack := ⟨_, _, rfl, rfl, _, rfl, rfl⟩
  let es : List Options.Element := [.option 53 [3], .option 50 [192, 168, 4, 2]]
  let es' : List Options.Element := [.option 53 [1], .option 50 [192, 168, 4, 9], .pad,
    .option 12 [65], .option 50 [192, 168, 4, 2], .option 53 [3]]
  have hsplit : Options.Split (bare.drop Message.headerLength) es [255] := ⟨by decide, rfl⟩
  have hsplit' : Options.Split (laden.drop Message.headerLength) es' [255, 53, 1, 7] :=
    ⟨by decide, rfl⟩
  have hm : Message.decode bare = .ok request := by
    rw [hrequest]
    exact Message.decode_eq_ok.2 ⟨by decide +kernel, rfl, rfl, by decide,
      Options.decode_eq_ok.2 ⟨by decide, _, _, hsplit, rfl⟩, by decide +kernel⟩
  have hn : Message.decode laden = .ok (.ofHeader laden .request (.ofElements es')) :=
    Message.decode_eq_ok.2 ⟨by decide +kernel, rfl, rfl, by decide,
      Options.decode_eq_ok.2 ⟨by decide, _, _, hsplit', rfl⟩, rfl⟩
  have hsame : Message.SameWhereRead bare laden :=
    { first := (@Wire.fieldAt_eq_fieldAt bare laden 0 3).1 rfl
      transaction := (@Wire.fieldAt_eq_fieldAt bare laden 4 4).1 rfl
      flags := (@Wire.fieldAt_eq_fieldAt bare laden 10 6).1 rfl
      relay := (@Wire.fieldAt_eq_fieldAt bare laden 24 10).1 rfl
      options := ⟨es, _, es', _, hsplit, hsplit', by decide⟩ }
  have hagrees := (noninterference s).2 _ _ _ _ hm hn hsame
  have hbare : Message.decode (bare.take bufferLength) = .ok request := by
    rw [List.take_of_length_le (by decide +kernel), hm]
  have hladen : Message.decode (laden.take bufferLength) =
      .ok (.ofHeader laden .request (.ofElements es')) := by
    rw [List.take_of_length_le (by decide +kernel), hn]
  obtain ⟨heffects, hrun⟩ := (noninterference s).1
    [⟨.clamp 0, .datagram bare⟩, ⟨.clamp 1, .sweep⟩]
    [⟨.clamp 0, .datagram laden⟩, ⟨.clamp 1, .sweep⟩]
    (.cons ⟨rfl, .messages hbare hladen hagrees⟩ (.cons ⟨rfl, .same _⟩ .nil))
  have hne : request ≠ .ofHeader laden .request (.ofElements es') := by
    rw [hrequest]
    exact fun h => absurd (congrArg Message.hops h) (by decide)
  refine ⟨s, hs, ⟨_, _, hm, hn, hne, hagrees⟩, ⟨ack, ?_, hgranted⟩, heffects, hrun⟩
  exact congrArg (fun result => [Effect.handled result]) (handle_eq_ok.2 ⟨_, hbare, hack⟩)

end Server

end Dhcp
