import Dhcp.Proofs.Lease.Unchanged
import Dhcp.Proofs.Reply.Received
import Dhcp.Proofs.Server.Running

/-!
# Dhcp.Proofs.Server.LeavingOut

Datagrams without effect.  Before the clock's last instant, a datagram that is no message, that is
answered with an OFFER or a NAK, or that is not answered and ends no lease, leaves its server as it
is (`Server.step_of_inert`).  So any of them can be left out of a run, and all others are answered
as they were (`Server.run_leaving_out`).
-/

namespace Dhcp.Server

/-- What remains of a list when the places are left out that are not to be kept. -/
def keeping {α : Type} (keep : Nat → Bool) : List α → List α
  | [] => []
  | x :: xs =>
    if keep 0 then x :: keeping (fun n => keep (n + 1)) xs else keeping (fun n => keep (n + 1)) xs

/-- Whether an input is a RELEASE that ends a lease. -/
def EndsLease (s : Server) (i : Timed) : Prop :=
  ∃ data m k, i.input = .datagram data ∧ Message.decode (data.take bufferLength) = .ok m ∧
    m.kind? = some .release ∧ (s.pool.get? k).isSome ∧ (s.step i).2.pool.get? k = none

/-- Whether an input is a datagram that cannot be seen in the pool, told from what comes of it: it
is no message, it is answered with an OFFER or a NAK, or it is not answered and is no RELEASE that
ends a lease. -/
def Inert (s : Server) (i : Timed) : Prop :=
  ∃ data result, i.input = .datagram data ∧ (s.step i).1 = .handled result ∧
    ((∃ e, result = .error e ∧ e.isDecode) ∨
      (∃ r, result = .ok (some r) ∧ (r.kind? = some .offer ∨ r.kind? = some .nak)) ∨
      ((∀ r, result ≠ .ok (some r)) ∧ ¬ s.EndsLease i))

variable {c : Config} {s : Server} {i : Timed}

/-- **A datagram without effect leaves its server as it is.** -/
theorem step_of_inert (hs : Running c s) (hnow : i.now < .last) (h : s.Inert i) :
    (s.step i).2 = s := by
  obtain ⟨now, input⟩ := i
  obtain ⟨data, result, rfl, hresult, hcases⟩ := h
  replace hresult : (s.handle now (data.take bufferLength)).answer = result :=
    Effect.handled.inj hresult
  change (s.handle now (data.take bufferLength)).server = s
  cases hread : Message.decode (data.take bufferLength) with
  | error e => exact server_handle_of_error hread
  | ok m =>
      rw [server_handle_of_ok hread]
      -- all that is left to show is that the pool is the same
      suffices hpool : (s.config.answer now s.pool m).pool = s.pool by rw [hpool]
      obtain ⟨e, he, -⟩ | ⟨m', reply, hm', hanswer⟩ :=
        handle_cases hs.ready now (data.take bufferLength)
      · rw [hread] at he
        contradiction
      obtain ⟨m', hm', hreply⟩ := handle_eq_ok.1 hanswer
      cases hread.symm.trans hm'
      rw [hanswer] at hresult
      obtain ⟨e, rfl, -⟩ | ⟨r, rfl, hkind⟩ | ⟨hsilent, hrelease⟩ := hcases
      · contradiction
      · cases hresult
        exact Config.pool_of_offer_or_nak hs.ready.lasting hnow hreply hkind
      · cases reply with
        | some r => exact absurd hresult.symm (hsilent r)
        | none =>
            obtain hsame | ⟨hk, hpool⟩ := Config.pool_of_silence hreply
            · exact hsame
            · rw [hpool]
              refine Pool.release_of_kept fun k htaken => ?_
              rw [Option.isSome_iff_ne_none]
              intro hnone
              refine hrelease ⟨data, m, k, rfl, hread, hk, htaken, ?_⟩
              change (s.handle now (data.take bufferLength)).server.pool.get? k = none
              rw [server_handle_of_ok hread]
              exact (congrArg (·.get? k) hpool).trans hnone

/-- Inputs that leave a server as it is can be left out of a run. -/
theorem run_keeping {is : List Timed} {keep : Nat → Bool}
    (h : ∀ n i, is[n]? = some i → keep n = false →
      ((s.run (is.take n)).step i).2 = s.run (is.take n)) :
    s.effects (keeping keep is) = keeping keep (s.effects is) ∧
      s.run (keeping keep is) = s.run is := by
  induction is generalizing s keep with
  | nil => exact ⟨rfl, rfl⟩
  | cons i is ih =>
      have hrest := @ih (s.step i).2 (fun n => keep (n + 1)) fun n j hj hkeep =>
        h (n + 1) j (by rw [List.getElem?_cons_succ, hj]) hkeep
      simp only [keeping, effects]
      cases hfirst : keep 0 with
      | true =>
          simp only [if_true, effects, run_cons]
          exact ⟨by rw [hrest.1], hrest.2⟩
      | false =>
          -- the run goes on from the same server
          have hsame : (s.step i).2 = s := h 0 i rfl hfirst
          simp only [hsame] at hrest ⊢
          simp only [Bool.false_eq_true, if_false, run_cons, hsame]
          exact hrest

/-- **Only ACKs, the ends of leases and sweeps have an effect.**  Let a server for an accepted
configuration be given datagrams and sweeps, all before the last instant.  Whichever datagrams are
left out that were no messages, were answered with an OFFER or a NAK, or were not answered and no
RELEASE that ended a lease, what comes of all other inputs is the same, every reply included, and so
is the server at the end. -/
theorem run_leaving_out {c : Config} {s : Server} (hs : create c = .ok s) (is : List Timed)
    (hnow : ∀ i ∈ is, i.now < .last) (keep : Nat → Bool)
    (hinert : ∀ n i, is[n]? = some i → keep n = false → (s.run (is.take n)).Inert i) :
    s.effects (keeping keep is) = keeping keep (s.effects is) ∧
      s.run (keeping keep is) = s.run is := by
  apply run_keeping
  intro n i hi hkeep
  have hrunning := (Running.of_create hs).run (is.take n)
  exact step_of_inert hrunning (hnow i (List.mem_of_getElem? hi)) (hinert n i hi hkeep)

/-- Octets that are no message, and a DISCOVER, without which a REQUEST is answered with the same
ACK. -/
theorem run_leaving_out_discover :
    ∃ (s : Server) (noise discover request : Octets),
      create {} = .ok s ∧ s.Inert ⟨.clamp 0, .datagram noise⟩ ∧
        (s.run [⟨.clamp 0, .datagram noise⟩]).Inert ⟨.clamp 1, .datagram discover⟩ ∧
        (∃ r, s.effects [⟨.clamp 2, .datagram request⟩] = [.handled (.ok (some r))] ∧
          r.kind? = some .ack) ∧
        s.effects [⟨.clamp 2, .datagram request⟩] =
          keeping (· = 2) (s.effects [⟨.clamp 0, .datagram noise⟩,
            ⟨.clamp 1, .datagram discover⟩, ⟨.clamp 2, .datagram request⟩]) ∧
        s.run [⟨.clamp 2, .datagram request⟩] =
          s.run [⟨.clamp 0, .datagram noise⟩, ⟨.clamp 1, .datagram discover⟩,
            ⟨.clamp 2, .datagram request⟩] := by
  obtain ⟨s, hs, ⟨offer, hoffer, hoffered⟩, ack, hack, hgranted⟩ : ∃ s, create {} = .ok s ∧
      (∃ r, (s.config.answer (.clamp 1) s.pool
          (.ofClient (.ofOctets [1]) [.kind .discover])).reply = .ok (some r) ∧
        r.kind? = some .offer) ∧
      ∃ r, (s.config.answer (.clamp 2) s.pool (.ofClient (.ofOctets [1])
          [.kind .request, .requestedAddress ⟨192, 168, 4, 2⟩])).reply = .ok (some r) ∧
        r.kind? = some .ack := ⟨_, rfl, ⟨_, rfl, rfl⟩, _, rfl, rfl⟩
  obtain ⟨noise, hnoise⟩ : ∃ data : Octets,
      Message.decode (data.take bufferLength) = .error (.truncated Message.headerLength 0) :=
    ⟨[], Message.decode_of_lt (by decide)⟩
  obtain ⟨discover, hdiscover⟩ : ∃ data : Octets, Message.decode (data.take bufferLength) =
      .ok (.ofClient (.ofOctets [1]) [.kind .discover]) :=
    ⟨_, decode_take_encode (List.forall_mem_singleton.2 (OptionField.readable_kind _)) rfl
      (Nat.le_of_ble_eq_true rfl)⟩
  obtain ⟨request, hrequest⟩ : ∃ data : Octets, Message.decode (data.take bufferLength) =
      .ok (.ofClient (.ofOctets [1]) [.kind .request, .requestedAddress ⟨192, 168, 4, 2⟩]) :=
    ⟨_, decode_take_encode (List.forall_mem_cons.2 ⟨OptionField.readable_kind _,
      List.forall_mem_singleton.2 (OptionField.readable_address rfl _)⟩) rfl
      (Nat.le_of_ble_eq_true rfl)⟩
  have hfirst : s.Inert ⟨.clamp 0, .datagram noise⟩ := by
    refine ⟨noise, _, rfl, rfl, Or.inl ⟨.decode (.truncated Message.headerLength 0), ?_, rfl⟩⟩
    simp only [handle, hnoise]
  have hsecond : (s.run [⟨.clamp 0, .datagram noise⟩]).Inert ⟨.clamp 1, .datagram discover⟩ := by
    have hsame : s.run [⟨.clamp 0, .datagram noise⟩] = s := server_handle_of_error hnoise
    have hanswer := handle_eq_ok.2 ⟨_, hdiscover, hoffer⟩
    rw [hsame]
    exact ⟨discover, _, rfl, congrArg Effect.handled hanswer,
      Or.inr (Or.inl ⟨offer, rfl, Or.inl hoffered⟩)⟩
  have hnow : ∀ i ∈ ([⟨.clamp 0, .datagram noise⟩, ⟨.clamp 1, .datagram discover⟩,
      ⟨.clamp 2, .datagram request⟩] : List Timed), i.now < .last := by
    simp only [List.forall_mem_cons]
    exact ⟨by decide, by decide, by decide, List.forall_mem_nil _⟩
  have hleft := run_leaving_out hs _ hnow (· = 2) fun n i hi hkeep => by
    rcases n with _ | _ | _ | n
    · cases hi
      exact hfirst
    · cases hi
      exact hsecond
    · contradiction
    · contradiction
  have hanswer := handle_eq_ok.2 ⟨_, hrequest, hack⟩
  refine ⟨s, noise, discover, request, hs, hfirst, hsecond, ⟨ack, ?_, hgranted⟩, hleft⟩
  exact congrArg (fun result => [Effect.handled result]) hanswer

end Dhcp.Server
