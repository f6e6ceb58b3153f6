import Mathlib.Data.Nat.Notation
import Riftgate.Lib.Machine

/-!
# The accept loop over a `JoinSet`: `riftgate/src/server.rs` in its default build, and `shutdown.rs`

Each connection is a task of its own. Its future can be cancelled while it serves; between the end of
`handle_connection` and `fetch_sub` it does not yield.
-/

open Lib

namespace Riftgate.ServerTasks

inductive Task where
  | serving
  | served -- past `handle_connection`
  | left -- past `fetch_sub`
  | panicked
  | cancelled
  deriving DecidableEq, Repr

def Task.ended : Task → Bool
  | .serving | .served => false
  | .left | .panicked | .cancelled => true

/-- Where the loop is. The `select!` is biased: it polls `drain.changed()`, and `accept` when there is no change. -/
inductive Phase where
  | top
  | changed
  | accept
  | sleeping -- after a failed `accept`
  | waiting -- `wait_until_done`, or the grace period
  | aborting -- `connection_tasks.shutdown()`
  | returned (drained : Bool)
  deriving DecidableEq, Repr

structure AcceptLoop where
  phase : Phase := .top
  /-- The watch channel: its value, whether the receiver has not seen the last change of it, and its sender. -/
  draining : Bool := false
  unseen : Bool := false
  sender : Bool := true
  accepted : ℕ := 0
  inFlight : ℕ := 0
  /-- By connection, in the order of `accept`. -/
  tasks : List Task := []
  /-- The connections whose tasks are not joined. -/
  connectionTasks : List ℕ := []
  deriving DecidableEq, Repr

inductive Label where
  | beginDrain
  | dropSender
  | check
  | pollChanged
  | accept
  | acceptPending -- the loop is woken up later, and polls from the start
  | acceptFailed
  | wake
  | join (conn : ℕ)
  | joinNone
  | expire
  | serve (conn : ℕ)
  | panic (conn : ℕ)
  | leave (conn : ℕ)
  | cancel (conn : ℕ)
  deriving DecidableEq, Repr

namespace AcceptLoop

def spawn (s : AcceptLoop) : AcceptLoop :=
  { s with
    phase := .top
    accepted := s.accepted + 1
    inFlight := s.inFlight + 1
    tasks := s.tasks ++ [.serving]
    connectionTasks := s.connectionTasks ++ [s.tasks.length] }

def setTask (s : AcceptLoop) (conn : ℕ) (task : Task) : AcceptLoop := { s with tasks := s.tasks.set conn task }

def step (s : AcceptLoop) : Label → Option AcceptLoop
  | .beginDrain => if s.sender then some { s with draining := true, unseen := true } else none
  | .dropSender => some { s with sender := false }
  | .check =>
    if s.phase = .top then some { s with phase := if s.draining then .waiting else .changed } else none
  | .pollChanged =>
    if s.phase = .changed then
      if s.unseen then some { s with unseen := false, phase := if s.draining then .waiting else .top }
      else if s.sender = false then some { s with phase := .waiting }
      else some { s with phase := .accept }
    else none
  | .accept => if s.phase = .accept then some s.spawn else none
  | .acceptPending => if s.phase = .accept then some { s with phase := .changed } else none
  | .acceptFailed => if s.phase = .accept then some { s with phase := .sleeping } else none
  | .wake => if s.phase = .sleeping then some { s with phase := .top } else none
  | .join conn =>
    if (s.phase = .waiting ∨ s.phase = .aborting) ∧ conn ∈ s.connectionTasks ∧ s.tasks[conn]?.any Task.ended then
      some { s with connectionTasks := s.connectionTasks.erase conn }
    else none
  | .joinNone =>
    if s.connectionTasks = [] then
      if s.phase = .waiting then some { s with phase := .returned true }
      else if s.phase = .aborting then some { s with phase := .returned false }
      else none
    else none
  | .expire => if s.phase = .waiting then some { s with phase := .aborting } else none
  | .serve conn => if s.tasks[conn]? = some .serving then some (s.setTask conn .served) else none
  | .panic conn => if s.tasks[conn]? = some .serving then some (s.setTask conn .panicked) else none
  | .leave conn =>
    if s.tasks[conn]? = some .served then some { s.setTask conn .left with inFlight := s.inFlight - 1 } else none
  | .cancel conn =>
    if s.phase = .aborting ∧ conn ∈ s.connectionTasks ∧ s.tasks[conn]? = some .serving then
      some (s.setTask conn .cancelled)
    else none

end AcceptLoop

def server : Machine AcceptLoop Label where
  init := {}
  step := AcceptLoop.step

end Riftgate.ServerTasks
