import Dhcp.Proofs.Message.Length
import Dhcp.Proofs.Message.Settle
import Dhcp.Proofs.Server.Handling

/-!
# Dhcp.Proofs.Server.Running

What is true of a server all the time.  A server that was made for a configuration keeps it, and
it changes its pool as the events do that its inputs are (`Server.pool_step`).  So whatever it is
given, its pool stays sound, and it stays ready (`Server.Running.of_reachable`).
-/

namespace Dhcp.Server

variable {s : Server} {c : Config} {now : Instant} {data : Octets}

/-! ## A datagram -/

/-- What answers a datagram is what answers the message that it is. -/
theorem handle_eq_ok {reply : Option Message} :
    (s.handle now data).answer = .ok reply ↔
      ∃ m, Message.decode data = .ok m ∧ (s.config.answer now s.pool m).reply = .ok reply := by
  unfold handle
  cases Message.decode data with
  | error e => simp
  | ok m =>
      dsimp only
      rw [mapError_eq_ok]
      simp

theorem server_handle_of_ok {m : Message} (h : Message.decode data = .ok m) :
    (s.handle now data).server = { s with pool := (s.config.answer now s.pool m).pool } := by
  simp only [handle, h]

theorem server_handle_of_error {e : DecodeError} (h : Message.decode data = .error e) :
    (s.handle now data).server = s := by
  simp only [handle, h]

/-- A message whose options are read as they were sent is received as it was sent, if it fits the
buffer. -/
theorem decode_take_encode {m : Message} (h : ∀ f ∈ m.options.fields, f.Readable)
    (hname : m.hostName? = none) (hfits : m.encodedLength ≤ bufferLength) :
    Message.decode (m.encode.take bufferLength) = .ok m := by
  rw [List.take_of_length_le (m.length_encode ▸ hfits)]
  exact Message.decode_encode_of_nameless h hname

/-! ## An input as an event -/

/-- The event of a pool that an input of its server is.  Octets that are no message are none. -/
def Timed.event? (i : Timed) : Option Event :=
  match i.input with
  | .datagram data => (Message.decode (data.take bufferLength)).toOption.map .message
  | .sweep => some .sweep

/-- **A server changes its pool by events.** -/
theorem pool_step (s : Server) (i : Timed) :
    (s.step i).2.pool = i.event?.elim s.pool fun e => s.pool.apply s.config ⟨i.now, e⟩ := by
  obtain ⟨now, input⟩ := i
  cases input with
  | sweep => rfl
  | datagram data =>
      simp only [step, Timed.event?]
      cases hread : Message.decode (data.take bufferLength) with
      | error e => rw [server_handle_of_error hread]; rfl
      | ok m => rw [server_handle_of_ok hread]; rfl

/-- **What an input does to a server**: nothing, or it sweeps the pool, or it is a message that is
answered. -/
theorem step_cases (s : Server) (i : Timed) :
    (s.step i).2 = s ∨ (s.step i).2 = { s with pool := s.pool.sweep i.now } ∨
      ∃ data m, i.input = .datagram data ∧ Message.decode (data.take bufferLength) = .ok m ∧
        (s.step i).2 = { s with pool := (s.config.answer i.now s.pool m).pool } := by
  obtain ⟨now, input⟩ := i
  cases input with
  | sweep => exact Or.inr (Or.inl rfl)
  | datagram data =>
      cases hread : Message.decode (data.take bufferLength) with
      | error e => exact Or.inl (server_handle_of_error hread)
      | ok m => exact Or.inr (Or.inr ⟨data, m, rfl, hread, server_handle_of_ok hread⟩)

@[simp] theorem config_step (s : Server) (i : Timed) : (s.step i).2.config = s.config := by
  obtain h | h | ⟨data, m, -, -, h⟩ := step_cases s i <;> rw [h]

/-! ## All the time -/

/-- A server that was made has an accepted configuration and a new pool, and is ready. -/
theorem create_cases (h : create c = .ok s) :
    c.check = .ok () ∧ ∃ pool, Pool.new? c.server = some pool ∧ s = ⟨c, pool⟩ ∧ s.Ready := by
  cases hcheck : c.check with
  | error e =>
      rw [create, hcheck] at h
      contradiction
  | ok u =>
      obtain ⟨pool, hpool, hcreate, hready⟩ := create_of_check hcheck
      cases hcreate.symm.trans h
      refine ⟨rfl, pool, ?_, rfl, hready⟩
      unfold Pool.create at hpool
      split at hpool
      · next hnew => rw [hnew, Except.ok.inj hpool]
      · contradiction

/-- What is true of a server for a configuration as long as it runs. -/
structure Running (c : Config) (s : Server) : Prop where
  valid : c.Valid
  config : s.config = c
  server : s.pool.server = c.server
  sound : s.pool.Sound
  ready : s.Ready

namespace Running

theorem of_create (h : create c = .ok s) : Running c s := by
  obtain ⟨hcheck, pool, hnew, rfl, hready⟩ := create_cases h
  exact ⟨Config.check_eq_ok.1 hcheck, rfl, Pool.server_of_new? hnew, .new hnew, hready⟩

/-- **A server keeps running**, whatever it is given. -/
theorem step (hs : Running c s) (i : Timed) : Running c (s.step i).2 := by
  refine ⟨hs.valid, (config_step s i).trans hs.config, ?_, ?_, ready_step hs.ready i⟩
  · rw [pool_step]
    cases i.event? with
    | none => exact hs.server
    | some e => exact (Pool.server_apply ..).trans hs.server
  · rw [pool_step]
    cases i.event? with
    | none => exact hs.sound
    | some e => exact hs.sound.apply ..

theorem run (hs : Running c s) (is : List Timed) : Running c (s.run is) :=
  run_induction hs fun _ i _ h => h.step i

theorem of_reachable (h : s.Reachable c) : Running c s := by
  obtain ⟨fresh, is, hcreate, rfl⟩ := h
  exact (of_create hcreate).run is

theorem leaseSeconds_ne_zero (hs : Running c s) : c.leaseSeconds ≠ 0 :=
  hs.config ▸ hs.ready.leaseSeconds

end Running

end Dhcp.Server
