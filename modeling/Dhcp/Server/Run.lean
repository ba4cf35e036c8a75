import Dhcp.Server.Basic

/-!
# Dhcp.Server.Run

Runs of a server: what it is given, one thing after the other, and what comes of each.
The clock may be put forward or back between two of them.
-/

namespace Dhcp.Server

/-- What a server is given. -/
inductive Input where
  /-- The octets of a datagram. -/
  | datagram (data : Octets)
  /-- The order to sweep. -/
  | sweep
deriving DecidableEq

/-- An input and the reading of the clock at which it comes. -/
structure Timed where
  now : Instant
  input : Input
deriving DecidableEq

/-- What comes of an input: of a datagram the message that answers it, or why it is not
answered; of a sweep the number of leases that it ends. -/
inductive Effect where
  | handled (result : Except Error (Option Message))
  | swept (ended : Nat)

/-- What comes of an input, and the server afterwards. -/
def step (s : Server) (i : Timed) : Effect × Server :=
  match i.input with
  | .datagram data =>
    let x := s.handle i.now (data.take bufferLength)
    (.handled x.answer, x.server)
  | .sweep => (.swept (s.pool.expiredCount i.now), (s.sweep i.now).server)

/-- The server after a run. -/
def run (s : Server) (is : List Timed) : Server := is.foldl (fun s i => (s.step i).2) s

/-- What comes of each input of a run, in order. -/
def effects (s : Server) : List Timed → List Effect
  | [] => []
  | i :: is => (s.step i).1 :: (s.step i).2.effects is

@[simp] theorem run_nil (s : Server) : s.run [] = s := rfl

@[simp] theorem run_cons (s : Server) (i : Timed) (is : List Timed) :
    s.run (i :: is) = (s.step i).2.run is := rfl

theorem run_append (s : Server) (is js : List Timed) :
    s.run (is ++ js) = (s.run is).run js := List.foldl_append ..

@[simp] theorem length_effects (s : Server) (is : List Timed) :
    (s.effects is).length = is.length := by
  induction is generalizing s with
  | nil => rfl
  | cons i is ih => simp [effects, ih]

/-- Whether a server comes of one that was just made for a configuration. -/
def Reachable (c : Config) (s : Server) : Prop :=
  ∃ fresh is, create c = .ok fresh ∧ s = fresh.run is

end Dhcp.Server
