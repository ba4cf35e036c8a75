import Dhcp.Exchange

/-!
# Dhcp.History

What can happen to the pool of a server, and which pools come of it.  A pool changes by
messages that are answered, by what is asked of it directly, and by sweeps.

Each event has the reading of the clock at which it happens, and the clock may be put
forward or back between two of them.  A history is chronological if it is never put back.
-/

namespace Dhcp

/-- What can happen to a pool. -/
inductive Event where
  /-- A message is answered. -/
  | message (m : Message)
  /-- A lease on an address is asked for. -/
  | request (a : Address) (hw : HardwareAddress) (term : Span)
  /-- A lease is to be renewed. -/
  | renew (a : Address) (hw : HardwareAddress)
  /-- A lease is given back. -/
  | release (a : Address) (hw : HardwareAddress)
  /-- The leases that have expired end. -/
  | sweep
deriving DecidableEq

/-- An event and the reading of the clock at which it happens. -/
structure Occurrence where
  now : Instant
  event : Event
deriving DecidableEq

/-- What happens to a pool, in order. -/
abbrev History := List Occurrence

/-- Whether the clock is never put back in a history. -/
def History.Chronological (h : History) : Prop := h.Pairwise fun x y => x.now ≤ y.now

/-- The pool after an event. -/
def Pool.apply (c : Config) (p : Pool) (o : Occurrence) : Pool :=
  match o.event with
  | .message m => (c.answer o.now p m).pool
  | .request a hw term => (p.request o.now a hw term).2
  | .renew a hw => (p.renew o.now a hw).2
  | .release a hw => (p.release a hw).2
  | .sweep => p.sweep o.now

/-- The pool after a history. -/
def Pool.run (c : Config) (p : Pool) (h : History) : Pool := h.foldl (Pool.apply c) p

@[simp] theorem Pool.run_nil (c : Config) (p : Pool) : p.run c [] = p := rfl

@[simp] theorem Pool.run_cons (c : Config) (p : Pool) (o : Occurrence) (h : History) :
    p.run c (o :: h) = (p.apply c o).run c h := rfl

theorem Pool.run_append (c : Config) (p : Pool) (g h : History) :
    p.run c (g ++ h) = (p.run c g).run c h := List.foldl_append ..

/-- Whether a pool comes of a new one by some history. -/
def Pool.Reachable (c : Config) (p : Pool) : Prop :=
  ∃ (server : Address) (fresh : Pool) (h : History),
    Pool.new? server = some fresh ∧ p = fresh.run c h

/-- A new pool is reachable. -/
theorem Pool.Reachable.new {c : Config} {server : Address} {p : Pool}
    (h : Pool.new? server = some p) : p.Reachable c := ⟨server, p, [], h, rfl⟩

/-- What a reachable pool leads to is reachable. -/
theorem Pool.Reachable.run {c : Config} {p : Pool} (hp : p.Reachable c) (h : History) :
    (p.run c h).Reachable c := by
  obtain ⟨server, fresh, g, hnew, rfl⟩ := hp
  exact ⟨server, fresh, g ++ h, hnew, (Pool.run_append ..).symm⟩

end Dhcp
