import Dhcp.Proofs.Lease.Maximum
import Dhcp.Proofs.Reply.Received
import Dhcp.Proofs.Server.Running

/-!
# Dhcp.Proofs.Server.Maximum

The greatest time of a server is never exceeded.  As long as the clock is not put back, whatever a
server is given keeps the leases of its clients within the greatest time that it is configured
with (`Server.Running.within_run`).  So what it offers and grants is within that time, and what an
ACK tells is the time of the lease that it grants (`Server.leases_and_replies_within`).
-/

namespace Dhcp.Server

namespace Running

variable {c : Config} {s : Server} {now : Instant}

/-- **An input keeps the leases of clients within the greatest time.** -/
theorem within_step (hs : Running c s) {i : Timed} (hp : s.pool.Within c.maxLeaseSeconds i.now) :
    (s.step i).2.pool.Within c.maxLeaseSeconds i.now := by
  obtain h | h | ⟨data, m, -, hread, h⟩ := step_cases s i
  · rwa [h]
  · rw [h]
    exact hp.sweep
  · rw [h, hs.config]
    exact Config.within_answer hs.valid hp (Message.asksWholeSeconds_of_decode hread)

/-- What is so at every reading of the clock to come stays so in a run, if each reading is at most
the next. -/
theorem within_run {is : List Timed} (hs : Running c s)
    (hchron : is.Pairwise fun i j => i.now ≤ j.now) (hnow : ∀ i ∈ is, i.now ≤ now)
    (hp : ∀ i ∈ is, s.pool.Within c.maxLeaseSeconds i.now)
    (hend : s.pool.Within c.maxLeaseSeconds now) :
    (s.run is).pool.Within c.maxLeaseSeconds now := by
  induction is generalizing s with
  | nil => exact hend
  | cons i is ih =>
      obtain ⟨hlater, hchron⟩ := List.pairwise_cons.1 hchron
      have hstep := hs.within_step (hp i List.mem_cons_self)
      rw [run_cons]
      apply ih (hs.step i) hchron
      · exact fun j hj => hnow j (List.mem_cons_of_mem i hj)
      · exact fun j hj => hstep.mono (hlater j hj)
      · exact hstep.mono (hnow i List.mem_cons_self)

end Running

/-- **The greatest time is never exceeded.**  Let a server for an accepted configuration be given
datagrams and sweeps, while the clock is not put back.  Then every lease of a client was made for
whole seconds, one at least and no more than the greatest, and no more time is left of it.  Every
OFFER and every ACK that comes next tells such a time; and an ACK tells that of the lease which
stands in the pool for its address, and which expires so many seconds from now, or at the last
instant. -/
theorem leases_and_replies_within {c : Config} {s : Server} (hs : create c = .ok s)
    (is : List Timed) (hchron : is.Pairwise fun i j => i.now ≤ j.now) {now : Instant}
    (hnow : ∀ i ∈ is, i.now ≤ now) :
    (∀ k l, k ≠ c.server.host → (s.run is).pool.get? k = some l →
      (∃ seconds : UInt32, l.term = .ofWord seconds ∧ 1 ≤ seconds ∧
        seconds ≤ c.maxLeaseSeconds) ∧ l.remaining now ≤ l.term) ∧
    ∀ data r, ((s.run is).step ⟨now, .datagram data⟩).1 = .handled (.ok (some r)) →
      r.kind? = some .offer ∨ r.kind? = some .ack →
      ∃ L : UInt32, r.leaseTime? = some (.ofWord L) ∧ 1 ≤ L ∧ L ≤ c.maxLeaseSeconds ∧
        (r.kind? = some .ack → ∃ k l,
          ((s.run is).step ⟨now, .datagram data⟩).2.pool.clientHost? r.yiaddr = some k ∧
          ((s.run is).step ⟨now, .datagram data⟩).2.pool.get? k = some l ∧
          l.address = r.yiaddr ∧ l.term = .ofWord L ∧
          l.expiry.nanos = min (now.nanos + L.toNat * 1000000000) Instant.last.nanos) := by
  have hrunning := (Running.of_create hs).run is
  obtain ⟨-, pool, hnew, rfl, -⟩ := create_cases hs
  have hwithin := (Running.of_create hs).within_run hchron hnow
    (fun _ _ => Pool.Within.of_new? hnew) (Pool.Within.of_new? hnew)
  refine ⟨?_, ?_⟩
  · intro k l hk hl
    have hlease := hwithin k l (hrunning.server ▸ hk) hl
    exact ⟨hlease.term, hlease.remaining⟩
  · intro data r hanswer hkind
    obtain ⟨m, hread, hreply⟩ := handle_eq_ok.1 (Effect.handled.inj hanswer)
    simp only [step, server_handle_of_ok hread]
    rw [hrunning.config] at hreply ⊢
    have hm := Message.asksWholeSeconds_of_decode hread
    obtain hoffer | hack := hkind
    · obtain ⟨term, htime, L, rfl, hone, hmost⟩ :=
        Config.leaseTime?_of_offer hrunning.valid hwithin hm hreply hoffer
      refine ⟨L, htime, hone, hmost, fun hack => ?_⟩
      rw [hoffer] at hack
      contradiction
    · obtain ⟨k, l, hk, hget, haddress, -, hexpiry, htime, L, hterm, hone, hmost⟩ :=
        Config.leaseTime?_of_ack hrunning.valid hrunning.sound hwithin hm hreply hack
      rw [hterm] at htime hexpiry
      refine ⟨L, htime, hone, hmost, fun _ => ⟨k, l, hk, hget, haddress, hterm, ?_⟩⟩
      rw [hexpiry, Instant.nanos_after_ofWord]

/-- A client that was granted a minute asks for ten minutes after ten seconds.  It is granted the
minute once more, and its lease expires a minute from then. -/
theorem leases_and_replies_within_minute :
    ∃ (s : Server) (first second : Octets) (r : Message) (k : UInt8) (l : Lease),
      create {} = .ok s ∧
      ((s.run [⟨.clamp 0, .datagram first⟩]).step ⟨.clamp 10000000000, .datagram second⟩).1 =
        .handled (.ok (some r)) ∧
      r.kind? = some .ack ∧ r.leaseTime? = some (.ofWord 60) ∧
      ((s.run [⟨.clamp 0, .datagram first⟩]).step
        ⟨.clamp 10000000000, .datagram second⟩).2.pool.get? k = some l ∧
      l.address = r.yiaddr ∧ l.term = .ofWord 60 ∧ l.expiry.nanos = 70000000000 := by
  obtain ⟨s, hs, r, hr, hack, htime⟩ : ∃ s, create {} = .ok s ∧ ∃ r,
      (s.config.answer (.clamp 10000000000) (s.config.answer (.clamp 0) s.pool
          (.ofClient (.ofOctets [1]) [.kind .request, .requestedAddress ⟨192, 168, 4, 2⟩,
            .leaseTime (.ofWord 60)])).pool
        (.ofClient (.ofOctets [1]) [.kind .request, .requestedAddress ⟨192, 168, 4, 2⟩,
            .leaseTime (.ofWord 600)])).reply = .ok (some r) ∧
      r.kind? = some .ack ∧ r.leaseTime? = some (.ofWord 60) := ⟨_, rfl, _, rfl, rfl, rfl⟩
  have hread (seconds : UInt32) : ∃ data : Octets, Message.decode (data.take bufferLength) =
      .ok (.ofClient (.ofOctets [1]) [.kind .request, .requestedAddress ⟨192, 168, 4, 2⟩,
        .leaseTime (.ofWord seconds)]) := by
    refine ⟨_, decode_take_encode ?_ rfl (Nat.le_of_ble_eq_true rfl)⟩
    refine List.forall_mem_cons.2 ⟨OptionField.readable_kind _, ?_⟩
    refine List.forall_mem_cons.2 ⟨OptionField.readable_address rfl _, ?_⟩
    exact List.forall_mem_singleton.2 (OptionField.readable_span rfl _)
  obtain ⟨first, hfirst⟩ := hread 60
  obtain ⟨second, hsecond⟩ := hread 600
  have hanswer : ((s.run [⟨.clamp 0, .datagram first⟩]).step
      ⟨.clamp 10000000000, .datagram second⟩).1 = .handled (.ok (some r)) := by
    apply congrArg Effect.handled
    simp only [run_cons, run_nil, step, server_handle_of_ok hfirst]
    exact handle_eq_ok.2 ⟨_, hsecond, hr⟩
  have hnow : Instant.clamp 0 ≤ .clamp 10000000000 := by decide
  obtain ⟨-, hreplies⟩ := leases_and_replies_within hs [⟨.clamp 0, .datagram first⟩]
    (List.pairwise_singleton ..) (List.forall_mem_singleton.2 hnow)
  obtain ⟨L, hL, -, -, hlease⟩ := hreplies second r hanswer (Or.inr hack)
  obtain rfl : 60 = L := by
    have hsame := congrArg Span.word (Option.some.inj (htime.symm.trans hL))
    rwa [Span.word_ofWord, Span.word_ofWord] at hsame
  obtain ⟨k, l, -, hget, haddress, hterm, hexpiry⟩ := hlease hack
  exact ⟨s, first, second, r, k, l, hs, hanswer, hack, htime, hget, haddress, hterm, hexpiry⟩

end Dhcp.Server
