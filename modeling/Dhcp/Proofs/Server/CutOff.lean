import Dhcp.Proofs.Message.Header
import Dhcp.Proofs.Options.Grammar
import Dhcp.Proofs.Server.Running

/-!
# Dhcp.Proofs.Server.CutOff

Packets that are cut off.  What follows a packet can only matter if the packet ended early: in its
header, in an option, or before the End mark (`DecodeError.EndsEarly`).  In all other cases what
was read, or why it was refused, stays the same whatever follows (`Message.decode_append`).

So a server that loses the end of a datagram does with the rest what it would have done with all
of it, or drops it (`Server.handle_or_drop`).
-/

namespace Dhcp

/-- Whether octets were refused only because they ended. -/
def DecodeError.EndsEarly : DecodeError → Prop
  | truncated .. | optionOverrun _ | missingEnd => True
  | badCookie | unknownOperation _ | hardwareTooLong _ | leadingPad | malformedOption .. => False

instance (e : DecodeError) : Decidable e.EndsEarly := by
  cases e <;> unfold DecodeError.EndsEarly <;> infer_instance

/-! ## Options -/

namespace Options

theorem Split.append {data rest : Octets} {es : List Element} (h : Split data es rest)
    (more : Octets) : Split (data ++ more) es (rest ++ more) :=
  ⟨h.wellTyped, by rw [h.octets_eq, List.append_assoc]⟩

/-- Where a stream stops, it still stops if more follows, unless it ended there. -/
theorem Stop.append {rest : Octets} {e? : Option DecodeError} (h : Stop rest e?)
    (hlate : ∀ e ∈ e?, ¬ e.EndsEarly) (more : Octets) : Stop (rest ++ more) e? := by
  cases h with
  | endMark tail => exact .endMark (tail ++ more)
  | missingEnd => exact absurd trivial (hlate _ rfl)
  | overrun => exact absurd trivial (hlate _ rfl)
  | malformed tail hform hdecode =>
      rw [List.append_assoc]
      exact .malformed (tail ++ more) hform hdecode

/-- What is read of options, or why they are refused, stays the same if more follows, unless they
ended early. -/
theorem decode_append {data : Octets} (h : ∀ e, decode data = .error e → ¬ e.EndsEarly)
    (more : Octets) : decode (data ++ more) = decode data := by
  cases data with
  | nil =>
      have hempty : decode [] = .error .missingEnd :=
        (decode_eq_error (by decide)).2 ⟨by decide, [], [], ⟨by simp, rfl⟩, .missingEnd⟩
      exact absurd trivial (h _ hempty)
  | cons code rest =>
      by_cases hstart : code = OptionCode.pad.octet
      · subst hstart
        exact (decode_of_leadingPad rfl).trans (decode_of_leadingPad rfl).symm
      have hfirst : ∀ rest' : Octets, (code :: rest').head? ≠ some OptionCode.pad.octet :=
        fun _ hhead => hstart (Option.some.inj hhead)
      obtain ⟨es, left, e?, hsplit, hstop⟩ := exists_stop (code :: rest)
      have hread := decode_of_stop (hfirst rest) hsplit hstop
      have hlate : ∀ e ∈ e?, ¬ e.EndsEarly := by
        rintro e rfl
        exact h e hread
      rw [hread]
      exact decode_of_stop (hfirst _) (hsplit.append more) (hstop.append hlate more)

end Options

/-! ## Packets -/

namespace Message

/-- **A packet is read as it would be if more followed**, or refused for the same reason, unless
it ended early. -/
theorem decode_append {data : Octets} (h : ∀ e, decode data = .error e → ¬ e.EndsEarly)
    (more : Octets) : decode (data ++ more) = decode data := by
  by_cases hlength : headerLength ≤ data.length
  case neg => exact absurd trivial (h _ (decode_of_lt (Nat.not_le.1 hlength)))
  have hmore : headerLength ≤ (data ++ more).length := by
    rw [List.length_append]
    exact Nat.le_add_right_of_le hlength
  rw [decode_of_length hlength] at h
  rw [decode_of_length hlength, decode_of_length hmore,
    fieldAt_append_of_header hlength more (by decide), octetAt_append hlength more (by decide),
    octetAt_append hlength more (by decide)]
  -- the checks of the header come before the options, and pass or fail alike
  split
  · rfl
  next hmagic =>
    rw [if_neg hmagic] at h
    split
    · rfl
    next op hop =>
      simp only [hop] at h
      split
      · rfl
      next hlong =>
        rw [if_neg hlong] at h
        have hoptions : ∀ e, Options.decode (data.drop headerLength) = .error e →
            ¬ e.EndsEarly := by
          intro e he
          exact h e (by rw [he]; rfl)
        rw [List.drop_append_of_le_length hlength, Options.decode_append hoptions more]
        cases Options.decode (data.drop headerLength) with
        | error e => rfl
        | ok os =>
            exact congrArg Except.ok (ofHeader_append hlength more (UInt8.not_lt.1 hlong) op os)

end Message

/-! ## Datagrams -/

namespace Server

/-- **A packet that is cut off is not mistaken for another one.**  What is read of a packet is also
read if more follows; and if a packet is refused, but not because it ended early, it is refused for
the same reason if more follows.  Hence of a datagram of any length a server that keeps no more than
the first octets either reads, and does, what it would if it kept all of them, or it finds that they
end early, drops them and does nothing. -/
theorem handle_or_drop (data : Octets) :
    (∀ m more, Message.decode data = .ok m → Message.decode (data ++ more) = .ok m) ∧
    (∀ e more, Message.decode data = .error e → ¬ e.EndsEarly →
      Message.decode (data ++ more) = .error e) ∧
    ((Message.decode (data.take bufferLength) = Message.decode data ∧
        ∀ (s : Server) (now : Instant),
          s.handle now (data.take bufferLength) = s.handle now data) ∨
      ∃ e, Message.decode (data.take bufferLength) = .error e ∧ e.EndsEarly ∧
        ∀ (s : Server) (now : Instant) (client destination : String),
          s.receive now data client destination =
            ⟨none, s, [⟨.debug, s!"Dropping packet from {client}: {e.text}"⟩]⟩) := by
  refine ⟨?_, ?_, ?_⟩
  · intro m more hm
    rw [Message.decode_append (by simp [hm]) more, hm]
  · intro e more he hlate
    rw [Message.decode_append (by simpa [he] using hlate) more, he]
  · by_cases hlate : ∃ e, Message.decode (data.take bufferLength) = .error e ∧ e.EndsEarly
    · obtain ⟨e, he, hearly⟩ := hlate
      refine Or.inr ⟨e, he, hearly, ?_⟩
      intro s now client destination
      simp only [receive, handle, he]
      rfl
    · have hread := Message.decode_append (fun e he hearly => hlate ⟨e, he, hearly⟩)
        (data.drop bufferLength)
      rw [List.take_append_drop] at hread
      refine Or.inl ⟨hread.symm, ?_⟩
      intro s now
      simp only [handle, hread]

/-- A DISCOVER is read whatever follows its End mark, and an option that is too short is refused
whatever follows it.  A DISCOVER with too much padding would be read, but is dropped. -/
theorem handle_or_drop_padded :
    let header : Octets := [1, 1, 6, 0] ++ List.replicate 24 0 ++ [1, 2, 3, 4, 5, 6] ++
      List.replicate 202 0 ++ Message.magicCookie
    let padded : Octets := header ++ ([53, 1, 1] ++ List.replicate 1300 0 ++ [255])
    (∃ m, Message.decode (header ++ [53, 1, 1, 255]) = .ok m ∧
      Message.decode (header ++ [53, 1, 1, 255] ++ [53, 1, 3]) = .ok m) ∧
    Message.decode (header ++ [53, 0] ++ [1, 255]) = .error (.malformedOption 53 (.notOne 0)) ∧
    (∃ m, Message.decode padded = .ok m) ∧
    ∀ (s : Server) (now : Instant), s.receive now padded "client" "all" =
      ⟨none, s, [⟨.debug, "Dropping packet from client: Option stream has no End marker"⟩]⟩ := by
  intro header padded
  have hread {stream rest : Octets} {es : List Options.Element} {e? : Option DecodeError}
      (hstart : stream.head? ≠ some OptionCode.pad.octet) (hsplit : Options.Split stream es rest)
      (hstop : Options.Stop rest e?) : Message.decode (header ++ stream) =
        e?.elim (.ok (.ofHeader header .request (.ofElements es))) .error := by
    rw [Message.decode_header_append rfl rfl rfl (by decide),
      Options.decode_of_stop hstart hsplit hstop]
    cases e? <;> rfl
  have hsplit (n : Nat) (rest : Octets) :
      Options.Split ([53, 1, 1] ++ List.replicate n 0 ++ rest)
        (.option 53 [1] :: List.replicate n .pad) rest := by
    refine ⟨List.forall_mem_cons.2 ⟨by decide, ?_⟩, ?_⟩
    · intro e he
      rw [List.eq_of_mem_replicate he]
      exact ⟨trivial, Or.inl rfl⟩
    · rw [Options.octetsOf_cons, Options.octetsOf, List.flatMap_replicate]
      simp [Options.Element.octets, OptionCode.octet]
  have hdiscover : Message.decode (header ++ [53, 1, 1, 255]) = .ok _ :=
    hread (by decide) (hsplit 0 [255]) (.endMark [])
  have huntyped : Message.decode (header ++ [53, 0]) = .error (.malformedOption 53 (.notOne 0)) :=
    hread (by decide) ⟨List.forall_mem_nil _, rfl⟩
      (Options.stop_malformedOption.2 ⟨[], [], rfl, by decide, rfl⟩)
  obtain ⟨m, hpadded⟩ : ∃ m, Message.decode padded = .ok m :=
    ⟨_, hread (by decide) (hsplit 1300 [255]) (.endMark [])⟩
  have hcut : Message.decode (padded.take bufferLength) = .error .missingEnd := by
    have htake : padded.take bufferLength =
        header ++ ([53, 1, 1] ++ List.replicate 1257 0 ++ []) := by decide +kernel
    rw [htake]
    exact hread (by decide) (hsplit 1257 []) .missingEnd
  refine ⟨⟨_, hdiscover, (handle_or_drop _).1 _ _ hdiscover⟩,
    (handle_or_drop _).2.1 _ _ huntyped (by decide), ⟨m, hpadded⟩, ?_⟩
  obtain ⟨hsame, -⟩ | ⟨e, he, -, hdrop⟩ := (handle_or_drop padded).2.2
  · cases hcut.symm.trans (hsame.trans hpadded)
  · cases hcut.symm.trans he
    exact fun s now => hdrop s now "client" "all"

end Server

end Dhcp
