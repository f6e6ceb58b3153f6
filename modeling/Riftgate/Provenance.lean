import Riftgate.Affinity
import Riftgate.TrieMap
import Riftgate.Code.KvAwareThreads

/-!
# Where the decisions of the KV-aware router are from

Threads look the trie up and insert into it while others are on their way. A decision from the trie is still one that
the inner router has made, for a body with a prefix of the chunks.
-/

open Lib

namespace Riftgate.KvAware

open Router

variable {ρ : Type}

/-- The path of a request in the trie. -/
def pathOf (cfg : KvAwareConfig) (xxh3 : List Byte → UInt64) (r : RouteArgs) : List UInt64 :=
  (r.req.body.asSlice.toChunks (max cfg.prefixChunkBytes 1)).map xxh3

theorem bodyHashes_eq (sh : KvAwareRouter ρ) (r : RouteArgs) :
    sh.bodyHashes r.req.body.asSlice = pathOf sh.cfg sh.xxh3 r := rfl

/-! ## The map of the insertions -/

theorem recordAll_append (cap : Nat) (m : PathMap) (inserts : List (List UInt64 × BackendId))
    (i : List UInt64 × BackendId) :
    m.recordAll cap (inserts ++ [i]) = (m.recordAll cap inserts).record cap i.1 i.2 := by
  simp only [PathMap.recordAll, List.foldl_append, List.foldl_cons, List.foldl_nil]

theorem lookup_record {cap : Nat} {m : PathMap} {path path' : List UInt64} {b b' : BackendId}
    (h : (m.record cap path b).lookup path' = some b') :
    m.lookup path' = some b' ∨ (path', b') = (path, b) ∧ path ≠ [] := by
  unfold PathMap.record at h
  split at h
  · exact Or.inl h
  · rename_i hne
    by_cases hpath : path' = path
    · subst hpath
      rw [AList.lookup_insert, Option.some.injEq] at h
      exact Or.inr ⟨by rw [h], hne⟩
    · rw [AList.lookup_insert_ne hpath] at h
      split at h
      · cases h
      · exact Or.inl h

theorem mem_of_lookup_recordAll {cap : Nat} {inserts : List (List UInt64 × BackendId)} {path : List UInt64}
    {b : BackendId} (h : (PathMap.recordAll cap ∅ inserts).lookup path = some b) :
    (path, b) ∈ inserts ∧ path ≠ [] := by
  induction inserts using List.reverseRecOn with
  | nil => cases h
  | append_singleton inserts i ih =>
    rw [recordAll_append] at h
    rcases lookup_record h with h | ⟨heq, hne⟩
    · obtain ⟨hmem, hne⟩ := ih h
      exact ⟨List.mem_append_left _ hmem, hne⟩
    · obtain ⟨rfl, rfl⟩ := Prod.mk.inj heq
      exact ⟨List.mem_append_right _ (List.mem_singleton_self _), hne⟩

/-! ## One step -/

section Steps

variable {cfg : KvAwareConfig} {xxh3 : List Byte → UInt64}

/-- The insertions of some records. -/
def inserts (cfg : KvAwareConfig) (xxh3 : List Byte → UInt64) (records : List (RouteArgs × BackendId)) :
    List (List UInt64 × BackendId) :=
  records.map fun p => (pathOf cfg xxh3 p.1, p.2)

/-- The trie after some records, as a map. -/
def mapOf (cfg : KvAwareConfig) (xxh3 : List Byte → UInt64) (records : List (RouteArgs × BackendId)) : PathMap :=
  PathMap.recordAll cfg.maxTrieEntries ∅ (inserts cfg xxh3 records)

/-- A decision that was read from the trie after `n` insertions: the map had it then as the longest entry, and the
backend was closed for this call. -/
structure Found (cfg : KvAwareConfig) (xxh3 : List Byte → UInt64) (records : List (RouteArgs × BackendId))
    (r : RouteArgs) (decision : RoutingDecision) (n : Nat) : Prop where
  before : n ≤ records.length
  send : ∃ b, decision = .send b ∧ (r.signals.get b).circuitState = .closed ∧
    (mapOf cfg xxh3 (records.take n)).IsLongest (pathOf cfg xxh3 r) (some b)

/-- What a thread has done so far. -/
def Pc.Justified (cfg : KvAwareConfig) (xxh3 : List Byte → UInt64) (answers : List (RouteArgs × RoutingDecision))
    (records : List (RouteArgs × BackendId)) : Pc → Prop
  | .idle | .lookup _ | .inner _ => True
  | .record r b => (r, .send b) ∈ answers
  | .routed r decision (.trie n) => Found cfg xxh3 records r decision n
  | .routed r decision .inner =>
    (r, decision) ∈ answers ∧ ∀ b, decision = .send b → tooShort cfg r = false → (r, b) ∈ records

theorem Found.mono {records : List (RouteArgs × BackendId)} {r : RouteArgs} {decision : RoutingDecision} {n : Nat}
    (h : Found cfg xxh3 records r decision n) (later : List (RouteArgs × BackendId)) :
    Found cfg xxh3 (records ++ later) r decision n where
  before := h.before.trans (by rw [List.length_append]; omega)
  send := by
    rw [List.take_append_of_le_length h.before]
    exact h.send

theorem Pc.Justified.mono {answers : List (RouteArgs × RoutingDecision)} {records : List (RouteArgs × BackendId)}
    {pc : Pc} (h : pc.Justified cfg xxh3 answers records) (answers' : List (RouteArgs × RoutingDecision))
    (records' : List (RouteArgs × BackendId)) : pc.Justified cfg xxh3 (answers ++ answers') (records ++ records') := by
  cases pc with
  | idle | lookup r | inner r => trivial
  | record r b => exact List.mem_append_left _ h
  | routed r decision source =>
    cases source with
    | trie n => exact Found.mono h records'
    | inner =>
      exact ⟨List.mem_append_left _ h.1, fun b hb hlong => List.mem_append_left _ (h.2 b hb hlong)⟩

/-- The invariant. The trie is the map of the insertions so far, and each of them is an answer of the inner router. -/
structure Known (cfg : KvAwareConfig) (xxh3 : List Byte → UInt64) (s : Threads ρ) : Prop where
  config : s.shared.cfg = cfg
  hash : s.shared.xxh3 = xxh3
  cap : s.shared.trie.cap = cfg.maxTrieEntries
  trie : Represents s.shared.trie (mapOf cfg xxh3 s.records)
  answered : ∀ p ∈ s.records, (p.1, .send p.2) ∈ s.answers
  justified : ∀ t, (s.pcs t).Justified cfg xxh3 s.answers s.records

theorem known_init (inner : ρ) (cfg : KvAwareConfig) (xxh3 : List Byte → UInt64) :
    Known cfg xxh3 (threads inner cfg xxh3).init where
  config := rfl
  hash := rfl
  cap := rfl
  trie := represents_empty cfg.maxTrieEntries
  answered _ hp := by cases hp
  justified _ := trivial

theorem justified_set {s : Threads ρ} (h : ∀ t, (s.pcs t).Justified cfg xxh3 s.answers s.records) (t : Nat) (pc : Pc)
    (answers : List (RouteArgs × RoutingDecision)) (records : List (RouteArgs × BackendId))
    (hpc : pc.Justified cfg xxh3 (s.answers ++ answers) (s.records ++ records)) (t' : Nat) :
    (Function.update s.pcs t pc t').Justified cfg xxh3 (s.answers ++ answers) (s.records ++ records) := by
  by_cases ht : t' = t
  · rw [ht, Function.update_self]
    exact hpc
  · rw [Function.update_of_ne ht]
    exact (h t').mono answers records

theorem Known.setPc {s : Threads ρ} (h : Known cfg xxh3 s) {t : Nat} {pc : Pc}
    (hpc : pc.Justified cfg xxh3 s.answers s.records) : Known cfg xxh3 (s.setPc t pc) := by
  have hset := justified_set h.justified t pc [] []
  simp only [List.append_nil] at hset
  exact ⟨h.config, h.hash, h.cap, h.trie, h.answered, hset hpc⟩

theorem Known.lookup {s : Threads ρ} (h : Known cfg xxh3 s) (r : RouteArgs) :
    (afterLookup r s.records.length (s.shared.trie.longestMatch (s.shared.bodyHashes r.req.body.asSlice))).Justified
      cfg xxh3 s.answers s.records := by
  have hlongest := h.trie.longestMatch (pathOf cfg xxh3 r)
  rw [bodyHashes_eq, h.config, h.hash]
  cases hhit : s.shared.trie.longestMatch (pathOf cfg xxh3 r) with
  | none => trivial
  | some b =>
    rw [hhit] at hlongest
    unfold afterLookup
    simp only
    split
    · rename_i hclosed
      refine ⟨Nat.le_refl _, b, rfl, hclosed, ?_⟩
      rw [List.take_length]
      exact hlongest
    · trivial

theorem afterDecide_justified {answers : List (RouteArgs × RoutingDecision)} {records : List (RouteArgs × BackendId)}
    (r : RouteArgs) (decision : RoutingDecision) (h : (r, decision) ∈ answers) :
    (afterDecide cfg r decision).Justified cfg xxh3 answers records := by
  cases decision with
  | send b =>
    unfold afterDecide
    simp only
    split
    · rename_i hshort
      refine ⟨h, fun b _ hlong => ?_⟩
      rw [hshort] at hlong
      cases hlong
    · exact h
  | hedge bs => exact ⟨h, fun b hb => by cases hb⟩
  | reject status => exact ⟨h, fun b hb => by cases hb⟩

theorem Known.record {s : Threads ρ} (h : Known cfg xxh3 s) {t : Nat} {r : RouteArgs} {b : BackendId}
    (hpc : s.pcs t = .record r b) :
    Known cfg xxh3 { s.setPc t (.routed r (.send b) .inner) with
      shared := { s.shared with trie := s.shared.trie.insert (s.shared.bodyHashes r.req.body.asSlice) b }
      records := s.records ++ [(r, b)] } := by
  have hanswer : (r, .send b) ∈ s.answers := by
    have hj := h.justified t
    rw [hpc] at hj
    exact hj
  have hset := justified_set h.justified t (.routed r (.send b) .inner) [] [(r, b)]
  simp only [List.append_nil] at hset
  refine ⟨h.config, h.hash, ?_, ?_, ?_, hset ⟨hanswer, fun b' hb' _ => ?_⟩⟩
  · rw [insert_cap]
    exact h.cap
  · have hrecord := h.trie.record (pathOf cfg xxh3 r) b
    rw [h.cap] at hrecord
    rw [bodyHashes_eq, h.config, h.hash, mapOf, inserts, List.map_append, List.map_singleton, recordAll_append]
    exact hrecord
  · intro p hp
    rcases List.mem_append.mp hp with hp | hp
    · exact h.answered p hp
    · rw [List.mem_singleton] at hp
      rw [hp]
      exact hanswer
  · cases hb'
    exact List.mem_append_right _ (List.mem_singleton_self _)

theorem Known.decide {s : Threads ρ} (h : Known cfg xxh3 s) (t : Nat) (r : RouteArgs) (inner : ρ)
    (decision : RoutingDecision) :
    Known cfg xxh3 { s.setPc t (afterDecide s.shared.cfg r decision) with
      shared := { s.shared with inner := inner }
      answers := s.answers ++ [(r, decision)] } := by
  have hset := justified_set h.justified t (afterDecide cfg r decision) [(r, decision)] []
  simp only [List.append_nil] at hset
  rw [h.config]
  refine ⟨h.config, h.hash, h.cap, h.trie, fun p hp => List.mem_append_left _ (h.answered p hp), hset ?_⟩
  exact afterDecide_justified r decision (List.mem_append_right _ (List.mem_singleton_self _))

theorem known_step {s s' : Threads ρ} {a : Label ρ} (h : Known cfg xxh3 s) (hs : s.step a = some s') :
    Known cfg xxh3 s' := by
  cases a with
  | route t r =>
    simp only [Threads.step] at hs
    split at hs
    · cases hs
      refine h.setPc ?_
      split <;> trivial
    · cases hs
  | lookup t =>
    simp only [Threads.step] at hs
    split at hs
    · cases hs
      exact h.setPc (h.lookup _)
    · cases hs
  | decide t inner decision =>
    simp only [Threads.step] at hs
    split at hs
    · cases hs
      exact h.decide t _ inner decision
    · cases hs
  | record t =>
    simp only [Threads.step] at hs
    split at hs
    · rename_i r b hpc
      cases hs
      exact h.record hpc
    · cases hs
  | onResponse inner =>
    cases hs
    exact ⟨h.config, h.hash, h.cap, h.trie, h.answered, h.justified⟩

/-! ## Any run -/

theorem known_reach {inner : ρ} {s : Threads ρ} (hs : (threads inner cfg xxh3).Reachable s) : Known cfg xxh3 s :=
  hs.invariant (known_init inner cfg xxh3) fun _ _ _ h hstep => known_step h hstep

theorem mapOf_length_le (hcap : 1 ≤ cfg.maxTrieEntries) (records : List (RouteArgs × BackendId)) :
    (mapOf cfg xxh3 records).entries.length ≤ cfg.maxTrieEntries :=
  recordAll_length_le (m := ∅) hcap (Nat.zero_le _) _

theorem exists_record {records : List (RouteArgs × BackendId)} {path : List UInt64} {b : BackendId}
    (h : (mapOf cfg xxh3 records).lookup path = some b) :
    ∃ r, (r, b) ∈ records ∧ pathOf cfg xxh3 r = path ∧ path ≠ [] := by
  obtain ⟨hmem, hne⟩ := mem_of_lookup_recordAll h
  obtain ⟨⟨r, b'⟩, hp, heq⟩ := List.mem_map.mp hmem
  obtain ⟨hpath, rfl⟩ := Prod.mk.inj heq
  exact ⟨r, hp, hpath, hne⟩

end Steps

variable {inner : ρ} {cfg : KvAwareConfig} {xxh3 : List Byte → UInt64} {s : Threads ρ}

/-- **The trie under threads.** In every interleaving it is the map of the insertions in the order of the write lock,
with no more entries than it may have, and each insertion is an answer of the inner router. -/
theorem trie_of_records (hs : (threads inner cfg xxh3).Reachable s) :
    Represents s.shared.trie (mapOf cfg xxh3 s.records) ∧
      (1 ≤ cfg.maxTrieEntries → s.shared.trie.count ≤ cfg.maxTrieEntries) ∧
      ∀ p ∈ s.records, (p.1, .send p.2) ∈ s.answers := by
  have h := known_reach hs
  refine ⟨h.trie, fun hcap => ?_, h.answered⟩
  rw [h.trie.count]
  exact mapOf_length_le hcap s.records

/-- What is behind a decision. One from the trie was the longest match of the body at the moment of the lookup, its
backend was closed for this call, and the inner router has sent a body there whose chunks begin this one. -/
def FromInner (cfg : KvAwareConfig) (xxh3 : List Byte → UInt64) (s : Threads ρ) (r : RouteArgs)
    (decision : RoutingDecision) : Source → Prop
  | .trie n => ∃ b, decision = .send b ∧ (r.signals.get b).circuitState = .closed ∧ n ≤ s.records.length ∧
      (mapOf cfg xxh3 (s.records.take n)).IsLongest (pathOf cfg xxh3 r) (some b) ∧
      ∃ r', (r', .send b) ∈ s.answers ∧ pathOf cfg xxh3 r' ≠ [] ∧ pathOf cfg xxh3 r' <+: pathOf cfg xxh3 r
  | .inner => (r, decision) ∈ s.answers ∧ ∀ b, decision = .send b → tooShort cfg r = false → (r, b) ∈ s.records

/-- **The trie makes no decision of its own.** In every interleaving, a decision is the answer of the inner router to
this call, and is inserted if it is a `Send` for a body that is long enough, or it is from the trie, and then from the
inner router as well. -/
theorem decisions_from_inner (hs : (threads inner cfg xxh3).Reachable s) {t : Nat} {r : RouteArgs}
    {decision : RoutingDecision} {source : Source} (hrouted : s.pcs t = .routed r decision source) :
    FromInner cfg xxh3 s r decision source := by
  have h := known_reach hs
  have hj := h.justified t
  rw [hrouted] at hj
  cases source with
  | inner => exact hj
  | trie n =>
    obtain ⟨hbefore, b, hsend, hclosed, hlongest⟩ := hj
    refine ⟨b, hsend, hclosed, hbefore, hlongest, ?_⟩
    obtain ⟨path, hprefix, hlookup, -⟩ := hlongest
    obtain ⟨r', hrecord, hpath, hne⟩ := exists_record hlookup
    refine ⟨r', h.answered _ (List.mem_of_mem_take hrecord), ?_, ?_⟩
    · rw [hpath]
      exact hne
    · rw [hpath]
      exact hprefix

def bodyArgs (body : List Byte) : RouteArgs := ⟨⟨.bytes body⟩, ⟨[⟨3⟩]⟩, ⟨[]⟩⟩

/-- One thread is still inserting `ab` when another one asks for `abef`, and a third one asks for `abcd` after that. -/
def threeCalls : List (Label Unit) :=
  [.route 0 (bodyArgs [97, 98]), .lookup 0, .decide 0 () (.send ⟨3⟩), .route 1 (bodyArgs [97, 98, 101, 102]), .lookup 1,
    .record 0, .route 2 (bodyArgs [97, 98, 99, 100]), .lookup 2]

theorem third_from_inner : ∃ s, (threads () twoByteChunks twoByteHash).Reachable s ∧
    FromInner twoByteChunks twoByteHash s (bodyArgs [97, 98, 99, 100]) (.send ⟨3⟩) (.trie 1) := by
  have hrun : ((threads () twoByteChunks twoByteHash).run threeCalls).map
      (fun s => decide (s.pcs 2 = .routed (bodyArgs [97, 98, 99, 100]) (.send ⟨3⟩) (.trie 1))) = some true := by decide
  obtain ⟨s, hs, hp⟩ := Machine.exists_of_run hrun
  exact ⟨s, hs, decisions_from_inner hs (of_decide_eq_true hp)⟩

/-! ## A call on its own -/

section Alone

variable [Router ρ]

/-- The steps of one call, where the inner router answers as it does. -/
def aloneLabels (s : Threads ρ) (t : Nat) (r : RouteArgs) : List (Label ρ) :=
  let answer := Router.route s.shared.inner r.req r.pool r.signals
  let rest : List (Label ρ) := match answer.2 with
    | .send _ =>
      if tooShort s.shared.cfg r then [.decide t answer.1 answer.2] else [.decide t answer.1 answer.2, .record t]
    | _ => [.decide t answer.1 answer.2]
  if tooShort s.shared.cfg r then .route t r :: rest
  else match s.shared.trie.longestMatch (s.shared.bodyHashes r.req.body.asSlice) with
    | some b =>
      if (r.signals.get b).circuitState = .closed then [.route t r, .lookup t] else .route t r :: .lookup t :: rest
    | none => .route t r :: .lookup t :: rest

/-- Where no other thread moves in between, a call does what `route` does in one piece. -/
theorem alone_route (s : Threads ρ) {t : Nat} (hfree : (s.pcs t).free = true) (r : RouteArgs) (inner : ρ)
    (cfg : KvAwareConfig) (xxh3 : List Byte → UInt64) :
    ∃ s', (threads inner cfg xxh3).runFrom s (aloneLabels s t r) = some s' ∧
      s'.shared = (s.shared.route r.req r.pool r.signals).1 ∧
      ∃ source, s'.pcs t = .routed r (s.shared.route r.req r.pool r.signals).2 source := by
  unfold aloneLabels KvAwareRouter.route KvAwareRouter.defer
  have hshort : tooShort s.shared.cfg r = decide (r.req.body.asSlice.length < s.shared.cfg.minPrefixBytesToRoute) := rfl
  rw [hshort]
  generalize hanswer : Router.route s.shared.inner r.req r.pool r.signals = answer
  obtain ⟨next, decision⟩ := answer
  by_cases h : r.req.body.asSlice.length < s.shared.cfg.minPrefixBytesToRoute
  · cases decision <;>
      simp [h, hfree, threads, Machine.runFrom, Threads.step, Threads.setPc, hshort, afterDecide]
  · cases hhit : s.shared.trie.longestMatch (s.shared.bodyHashes r.req.body.asSlice) with
    | none =>
      cases decision <;>
        simp [h, hhit, hfree, threads, Machine.runFrom, Threads.step, Threads.setPc, hshort, afterDecide,
          afterLookup]
      rfl
    | some b =>
      by_cases hclosed : (r.signals.get b).circuitState = .closed
      · simp [h, hhit, hclosed, hfree, threads, Machine.runFrom, Threads.step, Threads.setPc, hshort, afterLookup]
      · cases decision <;>
          simp [h, hhit, hclosed, hfree, threads, Machine.runFrom, Threads.step, Threads.setPc, hshort, afterDecide,
            afterLookup]
        rfl

end Alone

end Riftgate.KvAware
