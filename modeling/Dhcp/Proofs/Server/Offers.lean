import Dhcp.Proofs.Lease.Open
import Dhcp.Proofs.Reply.Received
import Dhcp.Proofs.Server.Running

/-!
# Dhcp.Proofs.Server.Offers

Offers are honoured.  An offer reserves nothing: it leaves the pool as it is, and the same address
may be offered to others.  But an address that was offered is open to its client, and it stays so in
every run in which it is granted to no other (`Server.Running.openTo_run`), through leases that end,
sweeps and whatever the clock does.  So the client that takes the offer gets the address, and it is
refused just when another client was quicker (`Server.offer_honoured`).
-/

namespace Dhcp.Server

/-- Whether what comes of an input is an ACK that grants an address to another client. -/
def GrantsOther (a : Address) (hw : HardwareAddress) (effect : Effect) : Prop :=
  ∃ r, effect = .handled (.ok (some r)) ∧ r.kind? = some .ack ∧ r.yiaddr = a ∧ r.hw ≠ hw

theorem not_grantsOther_of_offer {a : Address} {hw : HardwareAddress} {r : Message}
    (h : r.kind? = some .offer) : ¬ GrantsOther a hw (.handled (.ok (some r))) := by
  rintro ⟨r', hr, hack, -⟩
  cases hr
  rw [h] at hack
  contradiction

namespace Running

variable {c : Config} {s : Server} {now : Instant} {a : Address} {hw : HardwareAddress}

/-- **An address stays open to a client** as long as it is granted to no other. -/
theorem openTo_step (hs : Running c s) (hopen : s.pool.OpenTo a hw) {i : Timed}
    (hi : ¬ GrantsOther a hw (s.step i).1) : (s.step i).2.pool.OpenTo a hw := by
  obtain h | h | ⟨data, m, hinput, hread, h⟩ := step_cases s i
  · rwa [h]
  · rw [h]
    exact hopen.sweep i.now
  · rw [h]
    apply Config.openTo_answer hs.ready.leaseSeconds hs.ready.lasting
      (Message.asksWholeSeconds_of_decode hread) hs.sound hopen
    intro r hreply hack ha
    refine Decidable.byContradiction fun hne => hi ⟨r, ?_, hack, ha, hne⟩
    simp only [Server.step, hinput]
    exact congrArg Effect.handled (handle_eq_ok.2 ⟨m, hread, hreply⟩)

/-- What is open to a client stays so in a run. -/
theorem openTo_run (hs : Running c s) (hopen : s.pool.OpenTo a hw) {is : List Timed}
    (his : ∀ effect ∈ s.effects is, ¬ GrantsOther a hw effect) : (s.run is).pool.OpenTo a hw := by
  induction is generalizing s with
  | nil => exact hopen
  | cons i is ih =>
      rw [effects, List.forall_mem_cons] at his
      rw [run_cons]
      exact ih (hs.step i) (hs.openTo_step hopen his.1) his.2

/-- A client that takes an address which is open to it is granted it. -/
theorem ack_of_openTo (hs : Running c s) {data : Octets} {m : Message}
    (hread : Message.decode (data.take bufferLength) = .ok m) (htakes : m.Takes c.server a)
    (hopen : s.pool.OpenTo a m.hw) :
    ∃ r, (s.step ⟨now, .datagram data⟩).1 = .handled (.ok (some r)) ∧
      r.kind? = some .ack ∧ r.yiaddr = a := by
  obtain ⟨r, hreply, hack, ha⟩ := Config.ack_of_openTo hs.leaseSeconds_ne_zero hs.ready.lasting
    (Message.asksWholeSeconds_of_decode hread) hs.sound htakes hopen now
  rw [← hs.config] at hreply
  exact ⟨r, congrArg Effect.handled (handle_eq_ok.2 ⟨m, hread, hreply⟩), hack, ha⟩

/-- A client that takes an address which another one holds is refused. -/
theorem nak_of_held (hs : Running c s) {data : Octets} {m : Message}
    (hread : Message.decode (data.take bufferLength) = .ok m) (htakes : m.Takes c.server a)
    {k : UInt8} {l : Lease} (hclient : s.pool.clientHost? a = some k)
    (hl : s.pool.get? k = some l) (hne : l.hw ≠ m.hw) :
    ∃ r, (s.step ⟨now, .datagram data⟩).1 = .handled (.ok (some r)) ∧ r.kind? = some .nak := by
  obtain ⟨r, hreply, hnak⟩ := Config.nak_of_held hs.leaseSeconds_ne_zero hs.ready.lasting
    (Message.asksWholeSeconds_of_decode hread) htakes hclient hl hne now
  rw [← hs.config] at hreply
  exact ⟨r, congrArg Effect.handled (handle_eq_ok.2 ⟨m, hread, hreply⟩), hnak⟩

end Running

/-- **Offers are honoured.**  Let a DISCOVER be answered with an OFFER, and let any inputs follow.
A REQUEST by which the client takes the offer is answered with an ACK of the address that was
offered, if that was granted to nobody else since; and it is answered with a NAK as long as another
client holds that address. -/
theorem offer_honoured {c : Config} {s after : Server} (hs : s.Reachable c) {t : Instant}
    {discover : Octets} {m offer : Message}
    (hread : Message.decode (discover.take bufferLength) = .ok m)
    (hanswer : s.step ⟨t, .datagram discover⟩ = (.handled (.ok (some offer)), after))
    (hoffer : offer.kind? = some .offer) (is : List Timed) (now : Instant) {request : Octets}
    {q : Message} (hrequest : Message.decode (request.take bufferLength) = .ok q)
    (htakes : q.Takes c.server offer.yiaddr) (hw : q.hw = m.hw) :
    ((∀ effect ∈ after.effects is, ¬ GrantsOther offer.yiaddr m.hw effect) →
      ∃ r, ((after.run is).step ⟨now, .datagram request⟩).1 = .handled (.ok (some r)) ∧
        r.kind? = some .ack ∧ r.yiaddr = offer.yiaddr) ∧
    ∀ k l, (after.run is).pool.get? k = some l → l.address = offer.yiaddr → l.hw ≠ m.hw →
      ∃ r, ((after.run is).step ⟨now, .datagram request⟩).1 = .handled (.ok (some r)) ∧
        r.kind? = some .nak := by
  have hrunning := Running.of_reachable hs
  have heffect : (s.step ⟨t, .datagram discover⟩).1 = .handled (.ok (some offer)) := by
    rw [hanswer]
  obtain rfl : (s.step ⟨t, .datagram discover⟩).2 = after := by rw [hanswer]
  have hafter := hrunning.step ⟨t, .datagram discover⟩
  have hlater := hafter.run is
  -- what is offered is open to the client, and an OFFER grants it to nobody
  have hopen : (s.step ⟨t, .datagram discover⟩).2.pool.OpenTo offer.yiaddr m.hw := by
    obtain ⟨m', hread', hreply⟩ := handle_eq_ok.1 (Effect.handled.inj heffect)
    cases hread.symm.trans hread'
    apply hrunning.openTo_step
    · exact Config.client_of_offer_or_ack hrunning.sound hreply (Or.inl hoffer)
    · rw [heffect]
      exact not_grantsOther_of_offer hoffer
  refine ⟨?_, ?_⟩
  · intro hother
    exact hlater.ack_of_openTo hrequest htakes (hw ▸ hafter.openTo_run hopen hother)
  · -- the address is still one that clients can have, whoever holds it
    intro k l hl haddress hne
    obtain ⟨j, hj, -⟩ := hopen
    have hserver := hlater.server.trans hafter.server.symm
    rw [← Pool.clientHost?_of_server_eq hserver] at hj
    exact hlater.nak_of_held hrequest htakes (hlater.sound.clientHost?_of_address hj hl haddress)
      hl (hw ▸ hne)

/-- A client takes what it was offered.  It gets the address although that was offered to another
client, too, but not if the other one took it first. -/
theorem offer_honoured_to_first :
    ∃ (s after : Server) (discover otherDiscover request otherRequest : Octets) (offer : Message),
      create {} = .ok s ∧
      s.step ⟨.clamp 0, .datagram discover⟩ = (.handled (.ok (some offer)), after) ∧
      offer.yiaddr = ⟨192, 168, 4, 2⟩ ∧
      (∃ r, ((after.run [⟨.clamp 1, .datagram otherDiscover⟩]).step
          ⟨.clamp 2, .datagram request⟩).1 = .handled (.ok (some r)) ∧
        r.kind? = some .ack ∧ r.yiaddr = offer.yiaddr) ∧
      ∃ r, ((after.run [⟨.clamp 1, .datagram otherRequest⟩]).step
          ⟨.clamp 2, .datagram request⟩).1 = .handled (.ok (some r)) ∧ r.kind? = some .nak := by
  obtain ⟨s, hs, ⟨offer, hoffer, hkind, ha⟩, ⟨other, hother, hotherKind⟩, l, hl, haddress, hhw⟩ :
      ∃ s, create {} = .ok s ∧
        (∃ r, (s.config.answer (.clamp 0) s.pool
            (.ofClient (.ofOctets [1]) [.kind .discover])).reply = .ok (some r) ∧
          r.kind? = some .offer ∧ r.yiaddr = ⟨192, 168, 4, 2⟩) ∧
        (∃ r, (s.config.answer (.clamp 1) s.pool
            (.ofClient (.ofOctets [2]) [.kind .discover])).reply = .ok (some r) ∧
          r.kind? = some .offer) ∧
        ∃ l, (s.config.answer (.clamp 1) s.pool
            (.ofClient (.ofOctets [2]) [.kind .request, .serverIdentifier ⟨192, 168, 4, 1⟩,
              .requestedAddress ⟨192, 168, 4, 2⟩])).pool.get? 2 = some l ∧
          l.address = ⟨192, 168, 4, 2⟩ ∧ l.hw = .ofOctets [2] :=
    ⟨_, rfl, ⟨_, rfl, rfl, rfl⟩, ⟨_, rfl, rfl⟩, _, rfl, rfl, rfl⟩
  have hdiscover (hw : HardwareAddress) : ∃ data : Octets,
      Message.decode (data.take bufferLength) = .ok (.ofClient hw [.kind .discover]) :=
    ⟨_, decode_take_encode (List.forall_mem_singleton.2 (OptionField.readable_kind _)) rfl
      (Nat.le_of_ble_eq_true rfl)⟩
  have hrequest (hw : HardwareAddress) : ∃ data : Octets, Message.decode (data.take bufferLength) =
      .ok (.ofClient hw [.kind .request, .serverIdentifier ⟨192, 168, 4, 1⟩,
        .requestedAddress ⟨192, 168, 4, 2⟩]) := by
    refine ⟨_, decode_take_encode ?_ rfl (Nat.le_of_ble_eq_true rfl)⟩
    refine List.forall_mem_cons.2 ⟨OptionField.readable_kind _, ?_⟩
    refine List.forall_mem_cons.2 ⟨OptionField.readable_address rfl _, ?_⟩
    exact List.forall_mem_singleton.2 (OptionField.readable_address rfl _)
  obtain ⟨discover, hd⟩ := hdiscover (.ofOctets [1])
  obtain ⟨otherDiscover, hd'⟩ := hdiscover (.ofOctets [2])
  obtain ⟨request, hq⟩ := hrequest (.ofOctets [1])
  obtain ⟨otherRequest, hq'⟩ := hrequest (.ofOctets [2])
  have hstep : s.step ⟨.clamp 0, .datagram discover⟩ = (.handled (.ok (some offer)), s) := by
    refine Prod.ext (congrArg Effect.handled (handle_eq_ok.2 ⟨_, hd, hoffer⟩)) ?_
    exact (server_handle_of_ok hd).trans (by rw [Config.answer_pool]; rfl)
  have htakes : (Message.ofClient (.ofOctets [1]) [.kind .request,
      .serverIdentifier ⟨192, 168, 4, 1⟩, .requestedAddress ⟨192, 168, 4, 2⟩]).Takes
        ⟨192, 168, 4, 1⟩ offer.yiaddr := ⟨rfl, rfl, rfl, ha ▸ rfl⟩
  obtain ⟨hgranted, -⟩ := offer_honoured ⟨s, [], hs, rfl⟩ hd hstep hkind
    [⟨.clamp 1, .datagram otherDiscover⟩] (.clamp 2) hq htakes rfl
  obtain ⟨-, hrefused⟩ := offer_honoured ⟨s, [], hs, rfl⟩ hd hstep hkind
    [⟨.clamp 1, .datagram otherRequest⟩] (.clamp 2) hq htakes rfl
  refine ⟨s, s, discover, otherDiscover, request, otherRequest, offer, hs, hstep, ha,
    hgranted ?_, hrefused 2 l ?_ (haddress.trans ha.symm) ?_⟩
  · have hanswer := handle_eq_ok.2 ⟨_, hd', hother⟩
    simp only [effects, step, hanswer, List.mem_singleton, forall_eq]
    exact not_grantsOther_of_offer hotherKind
  · simp only [run_cons, run_nil, step, server_handle_of_ok hq']
    exact hl
  · rw [hhw]
    decide

end Dhcp.Server
