import Dhcp.Proofs.Lease.Lasting
import Dhcp.Proofs.Message.Header
import Dhcp.Proofs.Options.Grammar
import Dhcp.Server.Run

/-!
# Dhcp.Proofs.Server.Handling

What can go wrong when a server handles a datagram: nothing but that it is no DHCP message
(`Server.handle_cases`).  A message that was read asks for whole seconds, since its four octets
carry nothing else, and so the leases that come of it last a second at least.  This is what a
server needs to be `Ready`; a server for a configuration that was accepted is ready as it is made,
and stays so whatever it is given.
-/

namespace Dhcp

/-- A lease time that was read is a number of whole seconds. -/
theorem Message.asksWholeSeconds_of_decode {data : Octets} {m : Message}
    (h : decode data = .ok m) : m.AsksWholeSeconds := by
  intro d hd
  obtain ⟨hmem, -⟩ := Options.get?_eq_some.1 (Options.span?_eq_some.1 hd)
  obtain ⟨payload, -, hdecode⟩ := Options.readable_of_decode (options_of_decode h) _ hmem
  cases OptionField.decoded_of_decode hdecode with
  | span _ _ hoctets => exact Span.exists_ofWord_of_ofOctets? hoctets

namespace Server

/-- What the inputs of a run keep, the run keeps. -/
theorem run_induction {I : Server → Prop} {s : Server} {is : List Timed} (hs : I s)
    (hstep : ∀ s, ∀ i ∈ is, I s → I (s.step i).2) : I (s.run is) := by
  induction is generalizing s with
  | nil => exact hs
  | cons i is ih =>
      rw [run_cons]
      apply ih
      · exact hstep s i List.mem_cons_self hs
      · intro s' j hj
        exact hstep s' j (List.mem_cons_of_mem i hj)

/-- Whether a server can answer whatever message it is sent. -/
structure Ready (s : Server) : Prop where
  leaseSeconds : s.config.leaseSeconds ≠ 0
  lasting : s.pool.Lasting

/-- Whether a datagram was handled as it should be: it was answered, if only by silence, or was no
DHCP message. -/
def HandledWell (result : Except Error (Option Message)) : Prop :=
  (∃ reply, result = .ok reply) ∨ ∃ e, result = .error e ∧ e.isDecode

/-- A server can be made for a configuration that is accepted. -/
theorem create_of_check {c : Config} (hc : c.check = .ok ()) :
    ∃ pool, Pool.create c.server = .ok pool ∧ create c = .ok ⟨c, pool⟩ ∧
      (Server.mk c pool).Ready := by
  obtain ⟨hhost, -, hlease, -⟩ := Config.valid_iff.1 (Config.check_eq_ok.1 hc)
  obtain ⟨pool, hnew⟩ : ∃ pool, Pool.new? c.server = some pool := ⟨_, if_pos hhost⟩
  have hpool : Pool.create c.server = .ok pool := by
    rw [Pool.create, hnew]
  refine ⟨pool, hpool, ?_, hlease, Pool.lasting_of_new? hnew⟩
  rw [create, hc, hpool]
  rfl

/-- Only what is no message is dropped. -/
theorem decode_of_isDecode {s : Server} {now : Instant} {data : Octets} {e : Error}
    (h : (s.handle now data).answer = .error e) (he : e.isDecode) :
    ∃ flaw, Message.decode data = .error flaw := by
  cases hread : Message.decode data with
  | error flaw => exact ⟨flaw, rfl⟩
  | ok m =>
      simp only [handle, hread] at h
      cases hreply : (s.config.answer now s.pool m).reply with
      | ok reply =>
          rw [hreply] at h
          contradiction
      | error fault =>
          rw [hreply] at h
          cases h
          contradiction

section
variable {s : Server} (hs : s.Ready)
include hs

/-- **A datagram that is a message is answered**, if only by silence, and any other is dropped. -/
theorem handle_cases (now : Instant) (data : Octets) :
    (∃ e, Message.decode data = .error e ∧ (s.handle now data).answer = .error (.decode e)) ∨
      ∃ m reply, Message.decode data = .ok m ∧ (s.handle now data).answer = .ok reply := by
  cases hread : Message.decode data with
  | error e =>
      refine Or.inl ⟨e, rfl, ?_⟩
      simp only [handle, hread]
  | ok m =>
      obtain ⟨reply, hreply⟩ := Config.exists_reply_of_answer hs.leaseSeconds now hs.lasting
        (Message.asksWholeSeconds_of_decode hread)
      refine Or.inr ⟨m, reply, rfl, ?_⟩
      simp only [handle, hread, hreply]
      rfl

theorem handledWell (now : Instant) (data : Octets) : HandledWell (s.handle now data).answer := by
  obtain ⟨e, -, hanswer⟩ | ⟨m, reply, -, hanswer⟩ := handle_cases hs now data
  · exact Or.inr ⟨_, hanswer, rfl⟩
  · exact Or.inl ⟨reply, hanswer⟩

theorem ready_handle (now : Instant) (data : Octets) : (s.handle now data).server.Ready := by
  unfold handle
  cases hread : Message.decode data with
  | error e => exact hs
  | ok m =>
      exact ⟨hs.leaseSeconds, Config.lasting_answer hs.leaseSeconds hs.lasting now
        (Message.asksWholeSeconds_of_decode hread)⟩

/-- **A server stays ready**, whatever it is given. -/
theorem ready_step (i : Timed) : (s.step i).2.Ready := by
  obtain ⟨now, input⟩ := i
  cases input with
  | datagram data => exact ready_handle hs now _
  | sweep => exact ⟨hs.leaseSeconds, hs.lasting.sweep now⟩

theorem ready_run (is : List Timed) : (s.run is).Ready :=
  run_induction hs fun _ i _ h => ready_step h i

theorem handledWell_of_mem_effects {is : List Timed} {result : Except Error (Option Message)}
    (h : Effect.handled result ∈ s.effects is) : HandledWell result := by
  induction is generalizing s with
  | nil => contradiction
  | cons i is ih =>
      obtain hfirst | hrest := List.mem_cons.1 h
      · obtain ⟨now, input⟩ := i
        cases input with
        | datagram data =>
            cases hfirst
            exact handledWell hs now _
        | sweep => contradiction
      · exact ih (ready_step hs i) hrest

end

/-- **A server never fails on what it receives.**  For a configuration that is accepted a pool and
a server can be made; and whatever datagrams it is sent from then on, with sweeps between them and
the clock put forward or back, it handles each of them as it should, and so any other datagram that
comes next. -/
theorem handled_of_check {c : Config} (hc : c.check = .ok ()) :
    ∃ pool, Pool.create c.server = .ok pool ∧ create c = .ok ⟨c, pool⟩ ∧
      ∀ is : List Timed,
        (∀ result, Effect.handled result ∈ (Server.mk c pool).effects is → HandledWell result) ∧
        ∀ now data, HandledWell (((Server.mk c pool).run is).handle now data).answer := by
  obtain ⟨pool, hpool, hcreate, hready⟩ := create_of_check hc
  refine ⟨pool, hpool, hcreate, fun is => ⟨?_, ?_⟩⟩
  · exact fun result hresult => handledWell_of_mem_effects hready hresult
  · exact fun now data => handledWell (ready_run hready is) now data

/-- With leases of a second, a client asks once more for the address that it was granted, at the
last instant of its lease.  No time is left of it, and yet the client is answered. -/
theorem handled_of_check_lastInstant :
    ∃ (c : Config) (pool : Pool) (first last : Instant) (request discover : Octets),
      c.check = .ok () ∧ create c = .ok ⟨c, pool⟩ ∧ last = first.after c.term ∧
        ∃ reply,
          (((Server.mk c pool).run [⟨first, .datagram request⟩]).handle last discover).answer =
            .ok reply := by
  let c : Config := { leaseSeconds := 1 }
  let first : Instant := ⟨0, by decide, by decide⟩
  let packet (kind : UInt8) : Octets := [1, 1, 6, 0] ++ List.replicate 24 0 ++
    [1, 2, 3, 4, 5, 6] ++ List.replicate 202 0 ++ Message.magicCookie ++
      [53, 1, kind, 50, 4, 192, 168, 4, 7, 255]
  let m : Message := .ofHeader (packet 1) .request
    (.ofElements [.option 53 [1], .option 50 [192, 168, 4, 7]])
  have hread : Message.decode (packet 1) = .ok m :=
    Message.decode_eq_ok.2 ⟨by decide +kernel, rfl, rfl, by decide,
      Options.decode_eq_ok.2 ⟨by decide, _, [], ⟨by decide, rfl⟩, rfl⟩, rfl⟩
  have hc : c.check = .ok () := rfl
  obtain ⟨pool, -, hcreate, hrun⟩ := handled_of_check hc
  refine ⟨c, pool, first, first.after c.term, packet 3, packet 1, hc, hcreate, rfl, ?_⟩
  obtain hreply | ⟨e, herror, hdecode⟩ :=
    (hrun [⟨first, .datagram (packet 3)⟩]).2 (first.after c.term) (packet 1)
  · exact hreply
  · -- the packet is a message, so that it is not dropped
    obtain ⟨flaw, hflaw⟩ := decode_of_isDecode herror hdecode
    cases hread.symm.trans hflaw

end Server

end Dhcp
