import Riftgate.Lib.Channel
import Riftgate.Lib.Machine

/-!
# The sharded queue and its workers: `riftgate/src/scheduler.rs`

A shard is a bounded channel. A call of the queue goes through the shards in some order and looks at one of them in
a step, so calls of other threads come in between.
-/

open Lib

namespace Riftgate.Scheduler

variable {τ : Type}

structure ShardedMpmcQueue (τ : Type) where
  shardCount : ℕ
  shards : ℕ → Channel τ
  cursor : UInt64

namespace ShardedMpmcQueue

def new (shards perShardCapacity : ℕ) : ShardedMpmcQueue τ := ⟨shards, fun _ => .bounded perShardCapacity, 0⟩

def setShard (q : ShardedMpmcQueue τ) (i : ℕ) (c : Channel τ) : ShardedMpmcQueue τ :=
  { q with shards := Function.update q.shards i c }

/-- `shards[i].push_inner(item)`. -/
def pushInner (q : ShardedMpmcQueue τ) (i : ℕ) (item : τ) : Except τ (ShardedMpmcQueue τ) :=
  ((q.shards i).trySend item).map (q.setShard i)

/-- `shards[i].pop_inner()`. -/
def popFrom (q : ShardedMpmcQueue τ) (i : ℕ) : Option (τ × ShardedMpmcQueue τ) :=
  (q.shards i).tryRecv.map fun r => (r.1, q.setShard i r.2)

/-- `cursor.fetch_add(1)`. -/
def advance (q : ShardedMpmcQueue τ) : ShardedMpmcQueue τ := { q with cursor := q.cursor + 1 }

/-- The shards in the order in which `push` tries them. -/
def pushOrder (q : ShardedMpmcQueue τ) : List ℕ :=
  (List.range q.shardCount).map fun offset => (q.cursor.toNat % q.shardCount + offset) % q.shardCount

def popOrder (q : ShardedMpmcQueue τ) : List ℕ := List.range q.shardCount

/-- The own shard, and then the others once. -/
def stealOrder (q : ShardedMpmcQueue τ) (idx : ℕ) : List ℕ :=
  idx :: (List.range' 1 (q.shardCount - 1)).map fun offset => (idx + offset) % q.shardCount

/-- The depth of each shard at the moment when a call looked at it. -/
abbrev Probes := List (ℕ × ℕ)

def probed (q : ShardedMpmcQueue τ) (i : ℕ) : ℕ × ℕ := (i, (q.shards i).items.length)

end ShardedMpmcQueue

open ShardedMpmcQueue

/-! ## Any calls of the queue -/

/-- A call and the shards that it has not looked at. `whole` is false for `pop_from` only. -/
inductive Call (τ : Type) where
  | idle
  | push (given current : τ) (rest : List ℕ) (probes : Probes)
  | pop (whole : Bool) (rest : List ℕ) (probes : Probes)

/-- A push that has returned `Err`. -/
structure Rejection (τ : Type) where
  given : τ
  returned : τ
  probes : Probes

structure Clients (τ : Type) where
  queue : ShardedMpmcQueue τ
  calls : ℕ → Call τ := fun _ => .idle
  /-- What the calls have returned so far: the items of each `Ok(())`, of each `Some`, each `Err`, and the probes of
  each `None` of `pop` and `pop_or_steal`. -/
  accepted : List τ := []
  popped : List τ := []
  rejected : List (Rejection τ) := []
  missed : List Probes := []

inductive ClientLabel (τ : Type) where
  | push (t : ℕ) (item : τ)
  | pop (t : ℕ)
  | popFrom (t idx : ℕ)
  | popOrSteal (t idx : ℕ)
  | probe (t : ℕ)

namespace Clients

def setCall (s : Clients τ) (t : ℕ) (c : Call τ) : Clients τ := { s with calls := Function.update s.calls t c }

def isIdle (s : Clients τ) (t : ℕ) : Bool :=
  match s.calls t with
  | .idle => true
  | _ => false

/-- The next shard, or the return after the last one. -/
def probe (s : Clients τ) (t : ℕ) : Option (Clients τ) :=
  match s.calls t with
  | .idle => none
  | .push given current [] probes =>
    some { s.setCall t .idle with rejected := s.rejected ++ [⟨given, current, probes⟩] }
  | .push given current (i :: rest) probes =>
    match s.queue.pushInner i current with
    | .ok q => some { s.setCall t .idle with queue := q, accepted := s.accepted ++ [given] }
    | .error returned => some (s.setCall t (.push given returned rest (probes ++ [s.queue.probed i])))
  | .pop whole [] probes =>
    some { s.setCall t .idle with missed := if whole then s.missed ++ [probes] else s.missed }
  | .pop whole (i :: rest) probes =>
    match s.queue.popFrom i with
    | some (item, q) => some { s.setCall t .idle with queue := q, popped := s.popped ++ [item] }
    | none => some (s.setCall t (.pop whole rest (probes ++ [s.queue.probed i])))

def step (s : Clients τ) : ClientLabel τ → Option (Clients τ)
  | .push t item =>
    if s.isIdle t then some { s.setCall t (.push item item s.queue.pushOrder []) with queue := s.queue.advance }
    else none
  | .pop t => if s.isIdle t then some (s.setCall t (.pop true s.queue.popOrder [])) else none
  | .popFrom t idx =>
    if s.isIdle t ∧ idx < s.queue.shardCount then some (s.setCall t (.pop false [idx] [])) else none
  | .popOrSteal t idx =>
    if s.isIdle t ∧ idx < s.queue.shardCount then some (s.setCall t (.pop true (s.queue.stealOrder idx) []))
    else none
  | .probe t => s.probe t

end Clients

def clients (shards capacity : ℕ) : Machine (Clients τ) (ClientLabel τ) where
  init := { queue := .new shards capacity }
  step := Clients.step

/-! ## The workers

A task is its number, in the order of the `submit` calls.
-/

/-- `draining` is true in the second loop of a worker. -/
inductive Worker where
  | pop (draining : Bool)
  | run (task : ℕ) (draining : Bool)
  | load
  | exited
  deriving DecidableEq, Repr

inductive Submit where
  | idle
  | push (task : ℕ) (rest : List ℕ)
  deriving DecidableEq, Repr

/-- A call of `shutdown`. -/
inductive Stop where
  | idle
  | store
  | lock
  | join (rest : List ℕ)
  | returned
  deriving DecidableEq, Repr

structure PerShardScheduler where
  queue : ShardedMpmcQueue ℕ
  shutdown : Bool := false
  handles : List ℕ
  handlesLock : Option ℕ := none
  workers : ℕ → Worker := fun _ => .pop false
  submits : ℕ → Submit := fun _ => .idle
  stops : ℕ → Stop := fun _ => .idle
  next : ℕ := 0
  /-- The tasks that each worker has run. -/
  ran : ℕ → List ℕ := fun _ => []
  /-- Whether `shutdown` has been called. -/
  called : Bool := false
  /-- The tasks that were accepted before. -/
  due : List ℕ := []

inductive Label where
  | submit (t : ℕ)
  | push (t : ℕ)
  | work (i : ℕ)
  | shutdown (t : ℕ)
  | stop (t : ℕ)
  deriving DecidableEq, Repr

namespace PerShardScheduler

def start (shards perShardCapacity : ℕ) : PerShardScheduler where
  queue := .new shards perShardCapacity
  handles := List.range shards

def setSubmit (s : PerShardScheduler) (t : ℕ) (c : Submit) : PerShardScheduler :=
  { s with submits := Function.update s.submits t c }

def setWorker (s : PerShardScheduler) (i : ℕ) (w : Worker) : PerShardScheduler :=
  { s with workers := Function.update s.workers i w }

def setStop (s : PerShardScheduler) (t : ℕ) (c : Stop) : PerShardScheduler :=
  { s with stops := Function.update s.stops t c }

/-- `submit` begins, at the cursor. -/
def submit (s : PerShardScheduler) (t : ℕ) : Option PerShardScheduler :=
  match s.submits t with
  | .idle => some { s.setSubmit t (.push s.next s.queue.pushOrder) with queue := s.queue.advance, next := s.next + 1 }
  | .push _ _ => none

/-- A task that no shard takes is dropped. -/
def push (s : PerShardScheduler) (t : ℕ) : Option PerShardScheduler :=
  match s.submits t with
  | .idle => none
  | .push _ [] => some (s.setSubmit t .idle)
  | .push task (i :: rest) =>
    match s.queue.pushInner i task with
    | .ok q =>
      some { s.setSubmit t .idle with queue := q, due := if s.called then s.due else s.due ++ [task] }
    | .error returned => some (s.setSubmit t (.push returned rest))

/-- `worker_loop`. -/
def work (s : PerShardScheduler) (i : ℕ) : Option PerShardScheduler :=
  match s.workers i with
  | .pop draining =>
    match s.queue.popFrom i with
    | some (task, q) => some { s.setWorker i (.run task draining) with queue := q }
    | none => some (s.setWorker i (if draining then .exited else .load))
  | .run task draining =>
    some { s.setWorker i (.pop draining) with ran := Function.update s.ran i (s.ran i ++ [task]) }
  | .load => some (s.setWorker i (.pop s.shutdown))
  | .exited => none

/-- `shutdown`. The joins hold the mutex of the handles. -/
def stop (s : PerShardScheduler) (t : ℕ) : Option PerShardScheduler :=
  match s.stops t with
  | .store => some { s.setStop t .lock with shutdown := true }
  | .lock =>
    if s.handlesLock = none then some { s.setStop t (.join s.handles) with handlesLock := some t, handles := [] }
    else none
  | .join (i :: rest) => if s.workers i = .exited then some (s.setStop t (.join rest)) else none
  | .join [] => some { s.setStop t .returned with handlesLock := none }
  | _ => none

def step (s : PerShardScheduler) : Label → Option PerShardScheduler
  | .submit t => s.submit t
  | .push t => s.push t
  | .work i => if i < s.queue.shardCount then s.work i else none
  | .shutdown t =>
    if s.stops t = .idle ∨ s.stops t = .returned then some { s.setStop t .store with called := true } else none
  | .stop t => s.stop t

end PerShardScheduler

def scheduler (shards capacity : ℕ) : Machine PerShardScheduler Label where
  init := .start shards capacity
  step := PerShardScheduler.step

end Riftgate.Scheduler
