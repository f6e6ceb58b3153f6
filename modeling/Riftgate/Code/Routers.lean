import Riftgate.Lib.Words
import Riftgate.Code.Router

/-!
# The routers: `round_robin.rs`, `weighted.rs` and `kv_aware.rs` of `riftgate-router`

Counters that only telemetry reads are left out.
-/

open Lib

namespace Riftgate.Router

def badGateway : StatusCode := ⟨502⟩
def serviceUnavailable : StatusCode := ⟨503⟩

/-! ## Round robin -/

structure RoundRobinRouter where
  cursor : UInt64 := 0
  deriving DecidableEq, Repr

/-- The cursor wraps around. -/
def RoundRobinRouter.route (r : RoundRobinRouter) (pool : BackendPool) : RoundRobinRouter × RoutingDecision :=
  match pool.getModulo r.cursor.toNat with
  | none => (r, .reject badGateway) -- the pool is empty
  | some b => (⟨r.cursor + 1⟩, .send b)

instance : Router RoundRobinRouter where
  route r _ pool _ := r.route pool

/-! ## Weighted random: the alias table -/

def maxWeightedBackends : Nat := 32

structure AliasEntry where
  primary : BackendId
  «alias» : BackendId
  probScaled : UInt32
  deriving DecidableEq, Repr

def aliasScale : UInt32 := 2 ^ 24

/-- The locals of the loop of `with_seed`. The top of a stack is its head. -/
structure AliasBuild where
  small : List Nat
  large : List Nat
  scaled : List UInt64
  table : List AliasEntry
  deriving DecidableEq, Repr

def scaleWeights (weights : List (BackendId × UInt32)) : List UInt64 :=
  let total := (weights.map fun w => w.2.toUInt64).sum
  weights.map fun w => w.2.toUInt64 * UInt64.ofNat weights.length * aliasScale.toUInt64 / total

/-- A slot that always gives its own backend. -/
def fullEntry (w : BackendId × UInt32) : AliasEntry := ⟨w.1, w.1, aliasScale⟩

def AliasBuild.start (weights : List (BackendId × UInt32)) : AliasBuild :=
  let scaled := scaleWeights weights
  let isSmall := fun i => decide (scaled.getD i 0 < aliasScale.toUInt64)
  { small := ((List.range weights.length).filter isSmall).reverse
    large := ((List.range weights.length).filter fun i => !isSmall i).reverse
    scaled := scaled
    table := weights.map fullEntry }

/-- The slot `s` gets `l` as its alias. -/
def pairSlots (weights : List (BackendId × UInt32)) (table : List AliasEntry) (s l : Nat) (probScaled : UInt32) :
    List AliasEntry :=
  match weights[s]?, weights[l]? with
  | some ws, some wl => table.set s ⟨ws.1, wl.1, probScaled⟩
  | _, _ => table

/-- `while let (Some(s), Some(l)) = (small.pop(), large.pop())`. Both stacks are popped, also when the
other one is empty. Each turn leaves one index less on them. -/
def AliasBuild.pair (weights : List (BackendId × UInt32)) : Nat → AliasBuild → AliasBuild
  | 0, bld => bld
  | fuel + 1, bld =>
    match bld.small, bld.large with
    | s :: small, l :: large =>
      let newLarge := bld.scaled.getD l 0 + bld.scaled.getD s 0 - aliasScale.toUInt64
      let table := pairSlots weights bld.table s l (bld.scaled.getD s 0).toUInt32
      let scaled := bld.scaled.set l newLarge
      if newLarge < aliasScale.toUInt64
      then AliasBuild.pair weights fuel ⟨l :: small, large, scaled, table⟩
      else AliasBuild.pair weights fuel ⟨small, l :: large, scaled, table⟩
    | small, large => { bld with small := small.tail, large := large.tail }

/-- What is left over settles at 1. -/
def settle (weights : List (BackendId × UInt32)) (table : List AliasEntry) (i : Nat) : List AliasEntry :=
  match weights[i]? with
  | some w => table.set i (fullEntry w)
  | none => table

def aliasTable (weights : List (BackendId × UInt32)) : List AliasEntry :=
  let bld := AliasBuild.pair weights weights.length (AliasBuild.start weights)
  (bld.large.reverse ++ bld.small.reverse).foldl (settle weights) bld.table

/-! ## Weighted random: the generator and the samples -/

def xorshift64 (x : UInt64) : UInt64 :=
  let x := x ^^^ (x <<< 13)
  let x := x ^^^ (x >>> 7)
  x ^^^ (x <<< 17)

theorem xorshift64_ne_zero {x : UInt64} (h : x ≠ 0) : xorshift64 x ≠ 0 := by
  unfold xorshift64
  apply xor_shiftLeft_ne_zero (by decide)
  apply xor_shiftRight_ne_zero (by decide)
  exact xor_shiftLeft_ne_zero (by decide) h

/-- The constructor makes no empty table, and a state that is 0 never comes back from `next_u64`. -/
structure WeightedRandomRouter where
  table : List AliasEntry
  backends : List BackendId
  rngState : UInt64
  table_ne : table ≠ []
  rngState_ne : rngState ≠ 0

theorem max_one_ne_zero (seed : UInt64) : max seed 1 ≠ 0 := by
  intro h
  have hmax : max seed 1 = if seed ≤ 1 then 1 else seed := rfl
  rw [hmax] at h
  split at h
  · exact absurd h (by decide)
  · rename_i hle
    subst h
    exact hle (by decide)

theorem settle_length (weights : List (BackendId × UInt32)) (is : List Nat) (table : List AliasEntry) :
    (is.foldl (settle weights) table).length = table.length := by
  induction is generalizing table with
  | nil => rfl
  | cons i is ih =>
    rw [List.foldl_cons, ih, settle]
    split <;> simp

theorem pair_length (weights : List (BackendId × UInt32)) (fuel : Nat) (bld : AliasBuild) :
    (AliasBuild.pair weights fuel bld).table.length = bld.table.length := by
  fun_induction AliasBuild.pair weights fuel bld <;> grind [pairSlots]

theorem aliasTable_length (weights : List (BackendId × UInt32)) : (aliasTable weights).length = weights.length := by
  unfold aliasTable
  simp only [settle_length, pair_length, AliasBuild.start, List.length_map]

/-- `none` is a failed assertion. -/
def WeightedRandomRouter.withSeed (weights : List (BackendId × UInt32)) (seed : UInt64) : Option WeightedRandomRouter :=
  if h : weights ≠ [] ∧ weights.length ≤ maxWeightedBackends ∧ ∀ w ∈ weights, 0 < w.2 then
    some
      { table := aliasTable weights
        backends := weights.map (·.1)
        rngState := max seed 1
        table_ne := by
          rw [← List.length_pos_iff_ne_nil, aliasTable_length]
          exact List.length_pos_iff_ne_nil.mpr h.1
        rngState_ne := max_one_ne_zero seed }
  else none

/-- With one thread the exchange succeeds at once. -/
def WeightedRandomRouter.nextU64 (r : WeightedRandomRouter) : WeightedRandomRouter × UInt64 :=
  let next := xorshift64 r.rngState
  ({ r with rngState := next, rngState_ne := xorshift64_ne_zero r.rngState_ne }, next)

def WeightedRandomRouter.sample (r : WeightedRandomRouter) : WeightedRandomRouter × BackendId :=
  let (r', x) := r.nextU64
  let bucket := x.toNat % r.table.length
  let coin := (x >>> 32).toUInt32 &&& (aliasScale - 1)
  let entry := r.table.get ⟨bucket, Nat.mod_lt _ (List.length_pos_iff_ne_nil.mpr r.table_ne)⟩
  (r', if coin < entry.probScaled then entry.primary else entry.alias)

/-- `0.90` and infinity as bits. Below the sign bit, floats are ordered as their bits are. -/
def hotGpuPressureThreshold : UInt32 := 0x3F666666
def infinity : UInt32 := 0x7F800000

def isHot (signal : BackendSignal) : Bool :=
  signal.gpuPressure.any fun p => decide (hotGpuPressureThreshold ≤ p) && decide (p ≤ infinity)

/-- One turn of either loop of `route`. An error is an early return. -/
def consider (signals : BackendSignals) (closedFallback : Option BackendId) (b : BackendId) :
    Except BackendId (Option BackendId) :=
  let signal := signals.get b
  if signal.circuitState = .open then .ok closedFallback
  else if isHot signal then .ok (closedFallback.or (some b))
  else .error b

def trySamples (signals : BackendSignals) : Nat → WeightedRandomRouter → Option BackendId →
    WeightedRandomRouter × Except BackendId (Option BackendId)
  | 0, r, closedFallback => (r, .ok closedFallback)
  | n + 1, r, closedFallback =>
    let (r', b) := r.sample
    match consider signals closedFallback b with
    | .error b => (r', .error b)
    | .ok closedFallback => trySamples signals n r' closedFallback

def WeightedRandomRouter.route (r : WeightedRandomRouter) (pool : BackendPool) (signals : BackendSignals) :
    WeightedRandomRouter × RoutingDecision :=
  if pool.backends = [] then (r, .reject badGateway)
  else
    let (r', sampled) := trySamples signals r.backends.length r none
    match sampled >>= fun closedFallback => pool.backends.foldlM (consider signals) closedFallback with
    | .error b => (r', .send b)
    | .ok (some b) => (r', .send b)
    | .ok none => (r', .reject serviceUnavailable)

instance : Router WeightedRandomRouter where
  route r _ pool signals := r.route pool signals

/-! ## KV-aware -/

structure KvAwareConfig where
  prefixChunkBytes : Nat := 64
  maxTrieEntries : Nat := 100000
  minPrefixBytesToRoute : Nat := 256
  deriving DecidableEq, Repr

structure TrieNode where
  backend : Option BackendId := none
  children : UInt64 → Option TrieNode := fun _ => none

structure PrefixTrie where
  root : TrieNode := {}
  count : Nat := 0
  cap : Nat

def TrieNode.child (node : TrieNode) (h : UInt64) : TrieNode := (node.children h).getD {}

/-- The path is made where it is missing. The flag says that the endpoint is new. -/
def TrieNode.insert (node : TrieNode) (backend : BackendId) : List UInt64 → TrieNode × Bool
  | [] => ({ node with backend := some backend }, node.backend.isNone)
  | h :: hashes =>
    let (next, isNew) := (node.child h).insert backend hashes
    ({ node with children := Function.update node.children h (some next) }, isNew)

/-- A trie with `cap` endpoints is flushed before the next insertion. -/
def PrefixTrie.insert (trie : PrefixTrie) (hashes : List UInt64) (backend : BackendId) : PrefixTrie :=
  if hashes = [] then trie
  else
    let trie : PrefixTrie := if trie.cap ≤ trie.count then ⟨{}, 0, trie.cap⟩ else trie
    let (root, isNew) := trie.root.insert backend hashes
    ⟨root, if isNew then trie.count + 1 else trie.count, trie.cap⟩

def TrieNode.longestMatch (node : TrieNode) (best : Option BackendId) : List UInt64 → Option BackendId
  | [] => best
  | h :: hashes =>
    match node.children h with
    | some next => next.longestMatch (next.backend.or best) hashes
    | none => best

def PrefixTrie.longestMatch (trie : PrefixTrie) (hashes : List UInt64) : Option BackendId :=
  trie.root.longestMatch none hashes

/-- `xxh3` is the hash of one chunk, from another crate. -/
structure KvAwareRouter (ρ : Type) where
  inner : ρ
  cfg : KvAwareConfig
  xxh3 : List Byte → UInt64
  trie : PrefixTrie

variable {ρ : Type}

def KvAwareRouter.new (inner : ρ) (cfg : KvAwareConfig) (xxh3 : List Byte → UInt64) : KvAwareRouter ρ :=
  ⟨inner, cfg, xxh3, { cap := cfg.maxTrieEntries }⟩

def Body.asSlice : Body → List Byte
  | .empty => []
  | .bytes v => v

def KvAwareRouter.bodyHashes (r : KvAwareRouter ρ) (body : List Byte) : List UInt64 :=
  (body.toChunks (max r.cfg.prefixChunkBytes 1)).map r.xxh3

variable [Router ρ]

/-- Ask the inner router and remember where it sends the body. -/
def KvAwareRouter.defer (r : KvAwareRouter ρ) (hashes : List UInt64) (req : Request) (pool : BackendPool)
    (signals : BackendSignals) : KvAwareRouter ρ × RoutingDecision :=
  let (inner, decision) := Router.route r.inner req pool signals
  match decision with
  | .send b => ({ r with inner := inner, trie := r.trie.insert hashes b }, decision)
  | _ => ({ r with inner := inner }, decision)

def KvAwareRouter.route (r : KvAwareRouter ρ) (req : Request) (pool : BackendPool) (signals : BackendSignals) :
    KvAwareRouter ρ × RoutingDecision :=
  let body := req.body.asSlice
  if body.length < r.cfg.minPrefixBytesToRoute then
    let (inner, decision) := Router.route r.inner req pool signals
    ({ r with inner := inner }, decision)
  else
    let hashes := r.bodyHashes body
    match r.trie.longestMatch hashes with
    | some b =>
      if (signals.get b).circuitState = .closed then (r, .send b) else r.defer hashes req pool signals
    | none => r.defer hashes req pool signals

instance : Router (KvAwareRouter ρ) where
  route r := r.route
  onResponse r decision outcome := { r with inner := Router.onResponse r.inner decision outcome }

end Riftgate.Router
