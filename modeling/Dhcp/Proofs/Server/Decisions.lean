import Dhcp.Proofs.Reply.Decided
import Dhcp.Proofs.Reply.Offered
import Dhcp.Proofs.Reply.Received
import Dhcp.Proofs.Server.Running

/-!
# Dhcp.Proofs.Server.Decisions

What a server decides, whatever it was given before.

* `Server.request_decided` — a REQUEST is granted or refused by whom it names, by the address that
  its client has or asks for, and by who holds that address.
* `Server.discover_decided` — a DISCOVER changes nothing, and is answered with an OFFER of the
  client's own lease or of the lowest free address, or not at all.

Who holds an address is told by the pool alone.  A lease that has expired holds it as well, until it
is swept.
-/

namespace Dhcp.Server

variable {c : Config} {s : Server} {data : Octets} {m : Message}

/-- **How a REQUEST is decided.**  A REQUEST for another server is not answered and changes nothing.
A client that names this server, or names none and has no address, is due the address that it asks
for, if clients can have it and nobody else holds it.  A client that names none and has an address
is due the one that it asks for, or else the one that it has, if it holds that already.  It is
granted the address that is due to it, and is refused if none is. -/
theorem request_decided (hs : s.Reachable c) {now : Instant} (hnow : now < .last)
    (hread : Message.decode data = .ok m) (hop : m.op = .request)
    (hkind : m.kind? = some .request) :
    (∀ other, m.serverIdentifier? = some other → other ≠ c.server →
      (c.answer now s.pool m).reply = .ok none ∧ (c.answer now s.pool m).pool = s.pool) ∧
    (m.serverIdentifier? = some c.server ∨
        m.serverIdentifier? = none ∧ m.ciaddr = .unspecified →
      c.Decides now s.pool m fun a => m.requestedAddress? = some a ∧ c.server.IsClientOf a ∧
        ∀ l, s.pool.get? a.host = some l → l.hw = m.hw) ∧
    (m.serverIdentifier? = none → m.ciaddr ≠ .unspecified →
      c.Decides now s.pool m fun a =>
        m.requestedAddress?.getD m.ciaddr = a ∧ c.server.IsClientOf a ∧
          ∃ l, s.pool.get? a.host = some l ∧ l.hw = m.hw) := by
  have hrunning := Running.of_reachable hs
  have hm := Message.asksWholeSeconds_of_decode hread
  refine ⟨?_, ?_, ?_⟩
  · exact fun other hother hne => Config.silent_of_otherServer hop hkind hother hne
  · exact Config.decides_binding hop hkind hrunning.server hrunning.ready.lasting hnow
      hrunning.leaseSeconds_ne_zero hm hrunning.sound
  · exact Config.decides_extending hop hkind hrunning.server hrunning.ready.lasting hnow
      hrunning.leaseSeconds_ne_zero hm hrunning.sound

/-- A lease of four hours has expired an hour ago and was not swept yet.  Its address is refused to
another client, and granted once more to its own. -/
theorem request_decided_expired :
    ∃ (s : Server) (other own : Message) (l : Lease), s.Reachable {} ∧
      (∃ data, Message.decode data = .ok other) ∧ (∃ data, Message.decode data = .ok own) ∧
      other.requestedAddress? = some l.address ∧ own.ciaddr = l.address ∧
      s.pool.get? l.address.host = some l ∧ l.hw ≠ other.hw ∧ l.hw = own.hw ∧
      l.expired (.clamp 18000000000000) ∧
      Config.Refuses {} (.clamp 18000000000000) s.pool other ∧
      Config.Grants {} (.clamp 18000000000000) s.pool own l.address := by
  have hasks (hw : HardwareAddress) : ∃ data : Octets, Message.decode (data.take bufferLength) =
      .ok (.ofClient hw [.kind .request, .requestedAddress ⟨192, 168, 4, 7⟩]) := by
    refine ⟨_, decode_take_encode ?_ rfl (Nat.le_of_ble_eq_true rfl)⟩
    refine List.forall_mem_cons.2 ⟨OptionField.readable_kind _, ?_⟩
    exact List.forall_mem_singleton.2 (OptionField.readable_address rfl _)
  obtain ⟨first, hfirst⟩ := hasks (.ofOctets [1])
  obtain ⟨second, hsecond⟩ := hasks (.ofOctets [2])
  obtain ⟨fresh, hfresh, hl⟩ : ∃ fresh, create {} = .ok fresh ∧
      (fresh.config.answer (.clamp 0) fresh.pool (.ofClient (.ofOctets [1])
        [.kind .request, .requestedAddress ⟨192, 168, 4, 7⟩])).pool.get? 7 =
          some (.new (.clamp 0) ⟨192, 168, 4, 7⟩ (.ofOctets [1]) (.ofWord 14400)) :=
    ⟨_, rfl, rfl⟩
  let l : Lease := .new (.clamp 0) ⟨192, 168, 4, 7⟩ (.ofOctets [1]) (.ofWord 14400)
  let own : Message := { Message.ofClient l.hw [.kind .request] with ciaddr := l.address }
  have hown : Message.decode own.encode = .ok own :=
    Message.decode_encode_of_nameless
      (List.forall_mem_singleton.2 (OptionField.readable_kind _)) rfl
  let s := fresh.run [⟨.clamp 0, .datagram first⟩]
  have hs : s.Reachable {} := ⟨fresh, _, hfresh, rfl⟩
  have hget : s.pool.get? 7 = some l := by
    simp only [s, run_cons, run_nil, step, server_handle_of_ok hfirst]
    exact hl
  have hnow : Instant.clamp 18000000000000 < .last := by decide
  have hother : l.hw ≠ .ofOctets [2] := by decide
  refine ⟨s, _, own, l, hs, ⟨_, hsecond⟩, ⟨_, hown⟩, rfl, rfl, hget, hother,
    rfl, by decide, ?_, ?_⟩
  · obtain ⟨-, hbinding, -⟩ := request_decided hs hnow hsecond rfl rfl
    refine (hbinding (Or.inr ⟨rfl, rfl⟩)).refuses ?_
    rintro ⟨a, ha, -, hholds⟩
    cases ha
    exact hother (hholds l hget)
  · obtain ⟨-, -, hextending⟩ := request_decided hs hnow hown rfl rfl
    exact (hextending rfl (by decide)).grants _ ⟨rfl, by decide, l, hget, rfl⟩

/-- **How a DISCOVER is decided.**  It changes nothing.  It is not answered just if a relay has
passed it on, or if all hosts are taken and the client does not ask for an unexpired lease of its
own.  Otherwise it is answered with an OFFER of that lease for what remains of it, or of the lowest
free address for the seconds that the client is given; this is an address that clients can have,
and nobody else holds it. -/
theorem discover_decided (hs : s.Reachable c) (now : Instant)
    (hread : Message.decode data = .ok m) (hop : m.op = .request)
    (hkind : m.kind? = some .discover) :
    (c.answer now s.pool m).pool = s.pool ∧
    ((c.answer now s.pool m).reply = .ok none ↔ m.giaddr ≠ .unspecified ∨
      (∀ k, k ≠ 0 → k ≠ 255 → (s.pool.get? k).isSome) ∧ ∀ l, ¬ s.pool.IsAskedLease now m l) ∧
    ((c.answer now s.pool m).reply ≠ .ok none →
      ∃ r seconds, (c.answer now s.pool m).reply = .ok (some r) ∧ r.kind? = some .offer ∧
        r.leaseTime? = some (.ofWord seconds) ∧ c.Offers now s.pool m r.yiaddr seconds ∧
        c.server.IsClientOf r.yiaddr ∧
        ∀ l, s.pool.get? r.yiaddr.host = some l → l.hw = m.hw) := by
  have hrunning := Running.of_reachable hs
  obtain ⟨hreply, hpool⟩ := @Config.answer_of_discover c now s.pool m hop hkind
  refine ⟨hpool, ?_, ?_⟩
  · rw [hreply, Config.answerDiscover_eq_silence, Config.offerFor?_eq_none hrunning.sound]
  · rw [← hrunning.server]
    exact Config.offer_of_discover hop hkind hrunning.sound hrunning.leaseSeconds_ne_zero
      (Message.asksWholeSeconds_of_decode hread)

/-- A client asks for its own lease of a minute at the last instant of it.  No time is left, and yet
it is this lease that is offered, for a second. -/
theorem discover_decided_lastInstant :
    ∃ (s : Server) (m : Message) (l : Lease), s.Reachable {} ∧
      (∃ data, Message.decode data = .ok m) ∧ m.op = .request ∧ m.kind? = some .discover ∧
      s.pool.IsAskedLease l.expiry m l ∧ l.term = .ofWord 60 ∧
      ∃ r, (Config.answer {} l.expiry s.pool m).reply = .ok (some r) ∧ r.kind? = some .offer ∧
        r.yiaddr = l.address ∧ r.leaseTime? = some (.ofWord 1) := by
  obtain ⟨first, hfirst⟩ : ∃ data : Octets, Message.decode (data.take bufferLength) =
      .ok (.ofClient (.ofOctets [1]) [.kind .request, .requestedAddress ⟨192, 168, 4, 7⟩,
        .leaseTime (.ofWord 60)]) := by
    refine ⟨_, decode_take_encode ?_ rfl (Nat.le_of_ble_eq_true rfl)⟩
    refine List.forall_mem_cons.2 ⟨OptionField.readable_kind _, ?_⟩
    refine List.forall_mem_cons.2 ⟨OptionField.readable_address rfl _, ?_⟩
    exact List.forall_mem_singleton.2 (OptionField.readable_span rfl _)
  obtain ⟨discover, hread⟩ : ∃ data : Octets, Message.decode data =
      .ok (.ofClient (.ofOctets [1]) [.kind .discover, .requestedAddress ⟨192, 168, 4, 7⟩]) := by
    refine ⟨_, Message.decode_encode_of_nameless ?_ rfl⟩
    refine List.forall_mem_cons.2 ⟨OptionField.readable_kind _, ?_⟩
    exact List.forall_mem_singleton.2 (OptionField.readable_address rfl _)
  obtain ⟨fresh, hfresh, hl⟩ : ∃ fresh, create {} = .ok fresh ∧
      (fresh.config.answer (.clamp 0) fresh.pool (.ofClient (.ofOctets [1])
        [.kind .request, .requestedAddress ⟨192, 168, 4, 7⟩,
          .leaseTime (.ofWord 60)])).pool.get? 7 =
        some (.new (.clamp 0) ⟨192, 168, 4, 7⟩ (.ofOctets [1]) (.ofWord 60)) := by
    refine ⟨_, rfl, ?_⟩
    decide +kernel
  let l : Lease := .new (.clamp 0) ⟨192, 168, 4, 7⟩ (.ofOctets [1]) (.ofWord 60)
  let s := fresh.run [⟨.clamp 0, .datagram first⟩]
  have hs : s.Reachable {} := ⟨fresh, _, hfresh, rfl⟩
  have hget : s.pool.get? 7 = some l := by
    simp only [s, run_cons, run_nil, step, server_handle_of_ok hfirst]
    exact hl
  have hasked : s.pool.IsAskedLease l.expiry
      (.ofClient (.ofOctets [1]) [.kind .discover, .requestedAddress ⟨192, 168, 4, 7⟩]) l :=
    ⟨rfl, (Running.of_reachable hs).server ▸ by decide, hget, rfl, by decide⟩
  obtain ⟨-, hsilence, hoffer⟩ := discover_decided hs l.expiry hread rfl rfl
  obtain ⟨r, seconds, hreply, hkind, htime, hoffers, -⟩ := hoffer fun hsilent => by
    obtain hrelay | ⟨-, hnone⟩ := hsilence.1 hsilent
    · exact hrelay rfl
    · exact hnone l hasked
  refine ⟨s, _, l, hs, ⟨_, hread⟩, rfl, rfl, hasked, rfl, r, hreply, hkind, ?_⟩
  cases hoffers with
  | held l' hl' haddress hseconds =>
      obtain rfl := hl'.unique hasked
      obtain rfl : seconds = 1 := UInt32.toNat_inj.1 (hseconds.trans (by decide))
      exact ⟨haddress, htime⟩
  | lowest k hnone => exact absurd hasked (hnone l)

end Dhcp.Server
