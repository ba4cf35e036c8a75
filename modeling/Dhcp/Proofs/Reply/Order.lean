import Dhcp.History
import Dhcp.Proofs.Lease.Promise
import Dhcp.Proofs.Lease.Target

/-!
# Dhcp.Proofs.Reply.Order

Messages that come twice, or in another order.

* `Config.answer_again` — a message that comes again at the same time is answered as before, and
  changes nothing that it has not changed already.
* `Config.exchanges_perm` — messages with different targets are answered as each of them would be
  alone, in whatever order they come, and lead to the same pool.

The second does not hold of DISCOVERs, which are offered the lowest address that is free.
-/

namespace Dhcp

/-- Messages that are answered one after the other at one time. -/
def History.atOnce (now : Instant) (ms : List Message) : History :=
  ms.map fun m => ⟨now, .message m⟩

/-- What comes of a message beside the pool: the reply, and what is logged. -/
def Exchange.result (x : Exchange) : Except ReplyError (Option Message) × List Entry :=
  (x.reply, x.log)

namespace Config

variable {c : Config} {now : Instant} {p : Pool} {m n : Message} {ms ns : List Message}

/-! ## The same message again -/

/-- **A message that comes again is answered as before**, be it with a reply, with silence or with
a failure, and leaves the pool as it was left. -/
theorem answer_again (c : Config) (now : Instant) (p : Pool) (m : Message) :
    (c.answer now (c.answer now p m).pool m).reply = (c.answer now p m).reply ∧
      (c.answer now (c.answer now p m).pool m).pool = (c.answer now p m).pool := by
  cases hd : c.demand? m with
  | none =>
      have hsame : (c.answer now p m).pool = p := by
        rw [answer_pool, hd]
        rfl
      rw [hsame]
      exact ⟨rfl, hsame⟩
  | some d =>
      have hpool : ∀ q, (c.answer now q m).pool = d.meet now q := by
        intro q
        rw [answer_pool, hd]
        rfl
      rw [hpool, hpool, Demand.meet_meet]
      refine ⟨?_, rfl⟩
      obtain ⟨hop, ⟨hk, -⟩ | ⟨hk, -⟩⟩ := demand?_cases hd
      · -- the lease that was made or extended is the one that is found now
        have hgrant : ∀ d', c.demand? m = some d' →
            d'.grant now (d.meet now p) = d'.grant now p := by
          intro d' hd'
          cases hd.symm.trans hd'
          exact Demand.grant_meet now p d
        simp only [answer, hop, answerKind, hk]
        exact (answerRequest_congr hop hk hgrant).1
      · have hsilent : ∀ q, (c.answer now q m).reply = .ok none := by
          intro q
          simp only [answer, hop, answerKind, hk, answerRelease]
          split <;> rfl
        rw [hsilent, hsilent]

/-! ## Messages in another order -/

/-- What comes of messages that are answered one after the other at one time. -/
def exchanges (c : Config) (now : Instant) (p : Pool) : List Message → List Exchange
  | [] => []
  | m :: ms => c.answer now p m :: c.exchanges now (c.answer now p m).pool ms

/-- Whether two messages are not about one address. -/
def Apart (c : Config) (m n : Message) : Prop := ∀ a, c.target? m = some a → c.target? n ≠ some a

theorem Apart.symm (h : c.Apart m n) : c.Apart n m := fun a hn hm => h a hm hn

theorem pairwise_apart : (ms.filterMap c.target?).Nodup ↔ ms.Pairwise c.Apart := by
  rw [List.Nodup, List.pairwise_filterMap]
  refine List.Pairwise.iff ?_
  intro m n
  constructor
  · intro h a hm hn
    exact h a hm a hn rfl
  · rintro h a hm b hn rfl
    exact h a hm hn

/-- What comes of a message is not changed by one that is about another address. -/
theorem result_answer (hk : n.kind? ≠ some .discover) (h : c.Apart m n) :
    (c.answer now (c.answer now p m).pool n).result = (c.answer now p n).result := by
  obtain ⟨hreply, hlog⟩ := @answer_congr c now (c.answer now p m).pool p n hk
    fun a hn => slotOf?_answer (h.symm a hn)
  rw [Exchange.result, Exchange.result, hreply, hlog]

/-- Two messages that are not about one address lead to the same pool in either order. -/
theorem answer_comm (h : c.Apart m n) :
    (c.answer now (c.answer now p m).pool n).pool =
      (c.answer now (c.answer now p n).pool m).pool := by
  simp only [answer_pool]
  cases hm : c.demand? m with
  | none => rfl
  | some d =>
      cases hn : c.demand? n with
      | none => rfl
      | some e =>
          have hne : d.address ≠ e.address :=
            fun heq => h d.address (target?_of_demand? hm) (heq ▸ target?_of_demand? hn)
          exact Demand.meet_comm now p hne

/-- Of messages with different targets each is answered as it would be alone. -/
theorem results_alone (hk : ∀ m ∈ ms, m.kind? ≠ some .discover) (h : ms.Pairwise c.Apart) :
    (c.exchanges now p ms).map Exchange.result = ms.map fun m => (c.answer now p m).result := by
  induction ms generalizing p with
  | nil => rfl
  | cons m ms ih =>
      rw [List.forall_mem_cons] at hk
      rw [List.pairwise_cons] at h
      rw [exchanges, List.map_cons, List.map_cons, ih hk.2 h.2]
      congr 1
      refine List.map_congr_left ?_
      intro n hn
      exact result_answer (hk.2 n hn) (h.1 n hn)

/-- Messages with different targets lead to the same pool in whatever order. -/
theorem run_atOnce_perm (hperm : ms.Perm ns) (h : ms.Pairwise c.Apart) :
    p.run c (.atOnce now ms) = p.run c (.atOnce now ns) := by
  induction hperm generalizing p with
  | nil => rfl
  | cons m _ ih => exact ih (List.pairwise_cons.1 h).2
  | swap m n ms =>
      have hnm : c.Apart n m := (List.pairwise_cons.1 h).1 m List.mem_cons_self
      exact congrArg (fun q : Pool => q.run c (.atOnce now ms)) (answer_comm hnm)
  | trans hfirst _ ih ih' => exact (ih h).trans (ih' (h.perm hfirst Apart.symm))

/-- **Messages about different addresses can come in any order.**  Let REQUESTs and RELEASEs come
at one time, each with a target of its own or with none.  In whatever order they come, each is
answered as it would be alone, and the pool afterwards is the same. -/
theorem exchanges_perm (c : Config) (now : Instant) (p : Pool)
    (hk : ∀ m ∈ ms, m.kind? ≠ some .discover) (htargets : (ms.filterMap c.target?).Nodup)
    (hperm : ms.Perm ns) :
    (c.exchanges now p ms).map Exchange.result = ms.map (fun m => (c.answer now p m).result) ∧
      (c.exchanges now p ns).map Exchange.result = ns.map (fun m => (c.answer now p m).result) ∧
        p.run c (.atOnce now ms) = p.run c (.atOnce now ns) := by
  have hapart := pairwise_apart.1 htargets
  have hk' : ∀ m ∈ ns, m.kind? ≠ some .discover := fun m hm => hk m (hperm.mem_iff.2 hm)
  exact ⟨results_alone hk hapart, results_alone hk' (hapart.perm hperm Apart.symm),
    run_atOnce_perm hperm hapart⟩

/-- One client asks for two addresses and gives back the one that it has, from the last message to
the first. -/
theorem exchanges_perm_release :
    ∃ p : Pool, p.Reachable {} ∧ p.isLeasedTo (.clamp 1) ⟨192, 168, 4, 7⟩ (.ofOctets [1]) ∧
      let ms : List Message :=
        [.asking ⟨192, 168, 4, 8⟩ (.ofOctets [1]), .asking ⟨192, 168, 4, 9⟩ (.ofOctets [1]),
          { Message.asking ⟨192, 168, 4, 7⟩ (.ofOctets [1]) with
            ciaddr := ⟨192, 168, 4, 7⟩, options := .ofList [.kind .release] }]
      ms.filterMap (target? {}) = [⟨192, 168, 4, 8⟩, ⟨192, 168, 4, 9⟩, ⟨192, 168, 4, 7⟩] ∧
        (exchanges {} (.clamp 1) p ms.reverse).map Exchange.result =
          ms.reverse.map (fun m => (answer {} (.clamp 1) p m).result) ∧
        p.run {} (.atOnce (.clamp 1) ms) = p.run {} (.atOnce (.clamp 1) ms.reverse) := by
  have hnew : Pool.new? ⟨192, 168, 4, 1⟩ = some _ := rfl
  have hp := (Pool.Reachable.new (c := {}) hnew).run
    [⟨.clamp 0, .request ⟨192, 168, 4, 7⟩ (.ofOctets [1]) (.ofWord 60)⟩]
  refine ⟨_, hp, by decide, ?_⟩
  intro ms
  have htargets : ms.filterMap (target? {}) =
      [⟨192, 168, 4, 8⟩, ⟨192, 168, 4, 9⟩, ⟨192, 168, 4, 7⟩] := rfl
  obtain ⟨-, hresults, hrun⟩ := @exchanges_perm ms ms.reverse {} (.clamp 1) _ (by decide)
    (htargets ▸ by decide) ms.reverse_perm.symm
  exact ⟨htargets, hresults, hrun⟩

end Config

end Dhcp
