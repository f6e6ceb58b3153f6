import Riftgate.Code.Scheduler

/-!
# The accept loop over the scheduler: `riftgate/src/server.rs`, with the feature `per-core-scheduler`

A connection is the task of the scheduler that carries it. The task spawns a second one on the runtime, and that one
counts itself in, serves the connection and counts itself out. The accept loop is submitter 0.
-/

open Lib

namespace Riftgate.Server

open Scheduler

inductive Phase where
  | accepting
  | draining
  | reported (drained : Bool)
  deriving DecidableEq, Repr

structure AcceptLoop where
  scheduler : PerShardScheduler
  phase : Phase := .accepting
  inFlight : ℕ := 0
  /-- The connections past `fetch_add`, past `handle_connection` and past `fetch_sub`. -/
  counted : List ℕ := []
  served : List ℕ := []
  left : List ℕ := []

inductive Label where
  | accept
  | push
  | work (i : ℕ)
  | count (conn : ℕ)
  | serve (conn : ℕ)
  | leave (conn : ℕ)
  | drain
  | load
  | expire
  deriving DecidableEq, Repr

namespace AcceptLoop

/-- The workers have run the closure of `scheduler.submit`. -/
def spawned (s : AcceptLoop) : List ℕ := gather s.scheduler.queue.shardCount s.scheduler.ran

def setScheduler (s : AcceptLoop) (scheduler : PerShardScheduler) : AcceptLoop := { s with scheduler := scheduler }

def step (s : AcceptLoop) : Label → Option AcceptLoop
  | .accept => if s.phase = .accepting then (s.scheduler.submit 0).map s.setScheduler else none
  | .push => (s.scheduler.push 0).map s.setScheduler
  | .work i => (s.scheduler.step (.work i)).map s.setScheduler
  | .count conn =>
    if conn ∈ s.spawned ∧ conn ∉ s.counted then
      some { s with counted := s.counted ++ [conn], inFlight := s.inFlight + 1 }
    else none
  | .serve conn =>
    if conn ∈ s.counted ∧ conn ∉ s.served then some { s with served := s.served ++ [conn] } else none
  | .leave conn =>
    if conn ∈ s.served ∧ conn ∉ s.left then some { s with left := s.left ++ [conn], inFlight := s.inFlight - 1 }
    else none
  | .drain =>
    if s.phase = .accepting ∧ s.scheduler.submits 0 = .idle then some { s with phase := .draining } else none
  | .load =>
    if s.phase = .draining then some { s with phase := if s.inFlight = 0 then .reported true else .draining } else none
  | .expire => if s.phase = .draining then some { s with phase := .reported false } else none

end AcceptLoop

def server (shards capacity : ℕ) : Machine AcceptLoop Label where
  init := { scheduler := .start shards capacity }
  step := AcceptLoop.step

end Riftgate.Server
