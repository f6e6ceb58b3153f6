import Riftgate.Lib.Chunks
import Riftgate.Routing

/-!
# Prefix affinity of the KV-aware router

A decision is recorded at the end of the body's path through the trie and nowhere before it. So a later body
finds it when its chunks begin with all chunks of the recorded body.
-/

open Lib

namespace Riftgate.Router

/-! ## What an insertion records -/

theorem lookup_insert_trie {trie : PrefixTrie} {hashes : List UInt64} (hne : hashes ≠ [])
    (hroom : ¬ trie.cap ≤ trie.count) (b : BackendId) (path : List UInt64) :
    (trie.insert hashes b).root.lookup path = if path = hashes then some b else trie.root.lookup path := by
  unfold PrefixTrie.insert
  rw [if_neg hne, if_neg hroom]
  exact lookup_insert trie.root b hashes path

theorem lookup_insert_self (trie : PrefixTrie) {hashes : List UInt64} (hne : hashes ≠ []) (b : BackendId) :
    (trie.insert hashes b).root.lookup hashes = some b := by
  unfold PrefixTrie.insert
  rw [if_neg hne]
  simp only
  split
  · exact (lookup_insert {} b hashes hashes).trans (if_pos rfl)
  · exact (lookup_insert trie.root b hashes hashes).trans (if_pos rfl)

/-! ## Runs -/

inductive KvEvent where
  | route (req : Request) (pool : BackendPool) (signals : BackendSignals)
  | response (decision : RoutingDecision) (outcome : Outcome)

variable {ρ : Type} [Router ρ]

def KvAwareRouter.on (r : KvAwareRouter ρ) : KvEvent → KvAwareRouter ρ
  | .route req pool signals => (r.route req pool signals).1
  | .response decision outcome => Router.onResponse r decision outcome

def KvAwareRouter.after (r : KvAwareRouter ρ) (events : List KvEvent) : KvAwareRouter ρ :=
  events.foldl KvAwareRouter.on r

def KvEvent.ShowsClosed (b : BackendId) : KvEvent → Prop
  | .route _ _ signals => (signals.get b).circuitState = .closed
  | .response _ _ => True

/-- The call records a decision and the trie has no room for it. -/
def KvAwareRouter.Evicts (r : KvAwareRouter ρ) : KvEvent → Prop
  | .route req pool signals =>
    r.cfg.minPrefixBytesToRoute ≤ req.body.asSlice.length ∧ r.cached req signals = none ∧
      (∃ c, (Router.route r.inner req pool signals).2 = .send c) ∧ r.bodyHashes req.body.asSlice ≠ [] ∧
      r.trie.cap ≤ r.trie.count
  | .response _ _ => False

/-- `b` stays closed, and nothing is evicted. -/
def Steady (b : BackendId) : KvAwareRouter ρ → List KvEvent → Prop
  | _, [] => True
  | r, event :: events => event.ShowsClosed b ∧ ¬ r.Evicts event ∧ Steady b (r.on event) events

theorem route_of_cached {r : KvAwareRouter ρ} {req : Request} {signals : BackendSignals} {b : BackendId}
    (h : r.cached req signals = some b) (pool : BackendPool) : r.route req pool signals = (r, .send b) := by
  rcases kv_route r req pool signals with ⟨c, hc, heq⟩ | ⟨hnone, -⟩
  · rw [heq, Option.some.inj (hc.symm.trans h)]
  · cases hnone.symm.trans h

theorem route_of_miss {r : KvAwareRouter ρ} {req : Request} {signals : BackendSignals}
    (hlong : ¬ req.body.asSlice.length < r.cfg.minPrefixBytesToRoute) (h : r.cached req signals = none)
    (pool : BackendPool) :
    r.route req pool signals = r.defer (r.bodyHashes req.body.asSlice) req pool signals := by
  unfold KvAwareRouter.cached KvAwareRouter.hit at h
  rw [if_neg hlong] at h
  unfold KvAwareRouter.route
  simp only [if_neg hlong]
  split
  · rename_i b hb
    rw [hb, Option.filter_some] at h
    rw [if_neg]
    intro hclosed
    simp [hclosed] at h
  · rfl

theorem defer_trie (r : KvAwareRouter ρ) (hashes : List UInt64) (req : Request) (pool : BackendPool)
    (signals : BackendSignals) :
    (r.defer hashes req pool signals).1.cfg = r.cfg ∧ (r.defer hashes req pool signals).1.xxh3 = r.xxh3 ∧
      ((∀ c, (Router.route r.inner req pool signals).2 ≠ .send c) ∧ (r.defer hashes req pool signals).1.trie = r.trie ∨
        ∃ c, (Router.route r.inner req pool signals).2 = .send c ∧
          (r.defer hashes req pool signals).1.trie = r.trie.insert hashes c) := by
  unfold KvAwareRouter.defer
  simp only
  split
  · rename_i c hc
    exact ⟨rfl, rfl, Or.inr ⟨c, hc, rfl⟩⟩
  · rename_i hnot
    exact ⟨rfl, rfl, Or.inl ⟨hnot, rfl⟩⟩

theorem route_trie (r : KvAwareRouter ρ) (req : Request) (pool : BackendPool) (signals : BackendSignals) :
    (r.route req pool signals).1.cfg = r.cfg ∧ (r.route req pool signals).1.xxh3 = r.xxh3 ∧
      ((r.route req pool signals).1.trie = r.trie ∨
        r.cfg.minPrefixBytesToRoute ≤ req.body.asSlice.length ∧ r.cached req signals = none ∧
          ∃ c, (Router.route r.inner req pool signals).2 = .send c ∧
            (r.route req pool signals).1.trie = r.trie.insert (r.bodyHashes req.body.asSlice) c) := by
  by_cases hshort : req.body.asSlice.length < r.cfg.minPrefixBytesToRoute
  · simp [KvAwareRouter.route, hshort]
  · rcases hcached : r.cached req signals with - | b
    · rw [route_of_miss hshort hcached]
      obtain ⟨hcfg, hxxh3, ⟨-, htrie⟩ | hrecords⟩ := defer_trie r (r.bodyHashes req.body.asSlice) req pool signals
      · exact ⟨hcfg, hxxh3, Or.inl htrie⟩
      · exact ⟨hcfg, hxxh3, Or.inr ⟨Nat.le_of_not_lt hshort, rfl, hrecords⟩⟩
    · rw [route_of_cached hcached]
      exact ⟨rfl, rfl, Or.inl rfl⟩

/-! ## What was recorded for a body stays -/

/-- `p` leads to `b`, and so does what is recorded from there on down to the end of `a`. -/
structure Held (trie : PrefixTrie) (b : BackendId) (p a : List UInt64) : Prop where
  ne : p ≠ []
  within : p <+: a
  own : trie.root.lookup p = some b
  alone : ∀ q c, p <+: q → q <+: a → trie.root.lookup q = some c → c = b

theorem Held.longestMatch {trie : PrefixTrie} {b : BackendId} {p a hashes : List UInt64} (h : Held trie b p a)
    (hp : p <+: hashes)
    (hothers : ∀ q c, q <+: hashes → ¬ q <+: a → trie.root.lookup q = some c → c = b) :
    trie.longestMatch hashes = some b := by
  rcases longestMatch_cases trie.root none hashes with ⟨-, hnone⟩ | ⟨q, c, -, hq, hc, heq, hlonger⟩
  · have hown := hnone p h.ne hp
    rw [h.own] at hown
    cases hown
  · have hlen : p.length ≤ q.length := by
      by_contra hlt
      have hown := hlonger p hp (Nat.lt_of_not_le hlt)
      rw [h.own] at hown
      cases hown
    have hpq : p <+: q := List.prefix_of_prefix_length_le hp hq hlen
    have hcb : c = b := by
      by_cases hqa : q <+: a
      · exact h.alone q c hpq hqa hc
      · exact hothers q c hq hqa hc
    rw [← hcb]
    exact heq

omit [Router ρ] in
theorem cached_of_longestMatch {r : KvAwareRouter ρ} {req : Request} {signals : BackendSignals} {b : BackendId}
    (hlong : r.cfg.minPrefixBytesToRoute ≤ req.body.asSlice.length)
    (hmatch : r.trie.longestMatch (r.bodyHashes req.body.asSlice) = some b)
    (hclosed : (signals.get b).circuitState = .closed) : r.cached req signals = some b := by
  unfold KvAwareRouter.cached KvAwareRouter.hit
  rw [if_neg (Nat.not_lt.mpr hlong), hmatch, Option.filter_some, if_pos (by simpa using hclosed)]

theorem held_on {r : KvAwareRouter ρ} {b : BackendId} {p a : List UInt64} (h : Held r.trie b p a) {event : KvEvent}
    (hclosed : event.ShowsClosed b) (hevicts : ¬ r.Evicts event) : Held (r.on event).trie b p a := by
  cases event with
  | response decision outcome => exact h
  | route req pool signals =>
    obtain ⟨-, -, htrie | ⟨hlong, hmiss, c, hc, htrie⟩⟩ := route_trie r req pool signals
    · exact (show (r.on (.route req pool signals)).trie = r.trie from htrie) ▸ h
    · have hoff : ∀ q, p <+: q → q <+: a → q ≠ r.bodyHashes req.body.asSlice := by
        rintro q hpq hqa rfl
        have hmatch := h.longestMatch hpq fun q' _ hq' hnot => absurd (hq'.trans hqa) hnot
        rw [cached_of_longestMatch hlong hmatch hclosed] at hmiss
        cases hmiss
      have hon : (r.on (.route req pool signals)).trie = r.trie.insert (r.bodyHashes req.body.asSlice) c := htrie
      have hlookup : ∀ q, p <+: q → q <+: a →
          (r.on (.route req pool signals)).trie.root.lookup q = r.trie.root.lookup q := by
        intro q hpq hqa
        rw [hon]
        by_cases hnil : r.bodyHashes req.body.asSlice = []
        · rw [hnil, PrefixTrie.insert, if_pos rfl]
        · have hroom : ¬ r.trie.cap ≤ r.trie.count := fun hfull => hevicts ⟨hlong, hmiss, ⟨c, hc⟩, hnil, hfull⟩
          rw [lookup_insert_trie hnil hroom, if_neg (hoff q hpq hqa)]
      refine ⟨h.ne, h.within, ?_, ?_⟩
      · rw [hlookup p List.prefix_rfl h.within]
        exact h.own
      · intro q d hpq hqa hd
        rw [hlookup q hpq hqa] at hd
        exact h.alone q d hpq hqa hd

theorem held_after {r : KvAwareRouter ρ} {b : BackendId} {p a : List UInt64} (h : Held r.trie b p a)
    {events : List KvEvent} (hsteady : Steady b r events) : Held (r.after events).trie b p a := by
  induction events generalizing r with
  | nil => exact h
  | cons event events ih =>
    obtain ⟨hclosed, hevicts, hsteady⟩ := hsteady
    exact ih (held_on h hclosed hevicts) hsteady

theorem held_of_route {r : KvAwareRouter ρ} {req : Request} {pool : BackendPool} {signals : BackendSignals}
    {b : BackendId} (hlong : r.cfg.minPrefixBytesToRoute ≤ req.body.asSlice.length)
    (hne : r.bodyHashes req.body.asSlice ≠ []) (hsend : (r.route req pool signals).2 = .send b) :
    ∃ p, Held (r.route req pool signals).1.trie b p (r.bodyHashes req.body.asSlice) := by
  rcases hcached : r.cached req signals with - | c
  · rw [route_of_miss (Nat.not_lt.mpr hlong) hcached] at hsend ⊢
    have hinner := (defer_eq r (r.bodyHashes req.body.asSlice) req pool signals).1
    rw [hsend] at hinner
    obtain ⟨-, -, ⟨hnot, -⟩ | ⟨c, hc, htrie⟩⟩ := defer_trie r (r.bodyHashes req.body.asSlice) req pool signals
    · exact absurd hinner.symm (hnot b)
    · obtain rfl : b = c := RoutingDecision.send.inj (hinner.trans hc)
      have hown := lookup_insert_self r.trie hne b
      rw [htrie]
      refine ⟨_, hne, List.prefix_rfl, hown, fun q c hpq hqa hc => ?_⟩
      rw [← hpq.eq_of_length_le hqa.length_le, hown] at hc
      exact (Option.some.inj hc).symm
  · rw [route_of_cached hcached] at hsend ⊢
    obtain rfl : c = b := RoutingDecision.send.inj hsend
    obtain ⟨hhit, -⟩ := Option.filter_eq_some_iff.mp hcached
    unfold KvAwareRouter.hit at hhit
    rw [if_neg (Nat.not_lt.mpr hlong)] at hhit
    rcases longestMatch_cases r.trie.root none (r.bodyHashes req.body.asSlice) with
      ⟨hnone, -⟩ | ⟨p, d, hpne, hp, hd, heq, hlonger⟩
    · cases hnone.symm.trans hhit
    · obtain rfl : d = c := Option.some.inj (heq.symm.trans hhit)
      refine ⟨p, hpne, hp, hd, fun q e hpq hqa he => ?_⟩
      by_cases hlt : p.length < q.length
      · rw [hlonger q hqa hlt] at he
        cases he
      · rw [← hpq.eq_of_length_le (Nat.le_of_not_lt hlt), hd] at he
        exact (Option.some.inj he).symm

theorem after_cfg (r : KvAwareRouter ρ) (events : List KvEvent) :
    (r.after events).cfg = r.cfg ∧ (r.after events).xxh3 = r.xxh3 := by
  induction events generalizing r with
  | nil => exact ⟨rfl, rfl⟩
  | cons event events ih =>
    have hon : (r.on event).cfg = r.cfg ∧ (r.on event).xxh3 = r.xxh3 := by
      cases event with
      | response decision outcome => exact ⟨rfl, rfl⟩
      | route req pool signals =>
        obtain ⟨hcfg, hxxh3, -⟩ := route_trie r req pool signals
        exact ⟨hcfg, hxxh3⟩
    obtain ⟨hcfg, hxxh3⟩ := ih (r.on event)
    exact ⟨hcfg.trans hon.1, hxxh3.trans hon.2⟩

/-! ## Affinity -/

def KvAwareConfig.chunks (cfg : KvAwareConfig) (body : List Byte) : List (List Byte) :=
  body.toChunks (max cfg.prefixChunkBytes 1)

/-- `P` is a prefix of both bodies that ends where a chunk ends and is long enough to route by. -/
structure Shares (cfg : KvAwareConfig) (A B P : List Byte) : Prop where
  left : P <+: A
  right : P <+: B
  aligned : max cfg.prefixChunkBytes 1 ∣ P.length
  long : cfg.minPrefixBytesToRoute ≤ P.length

namespace Shares

variable {cfg : KvAwareConfig} {A B P : List Byte} (h : Shares cfg A B P)

include h

theorem long_left : cfg.minPrefixBytesToRoute ≤ A.length := h.long.trans h.left.length_le

theorem long_right : cfg.minPrefixBytesToRoute ≤ B.length := h.long.trans h.right.length_le

end Shares

/-- In every run: when the first request went to `b`, then `b` stayed closed, nothing was evicted and no longer
prefix of the second body is recorded for another backend, the second request goes to `b`. -/
def KeepsAffinity (cfg : KvAwareConfig) (xxh3 : List Byte → UInt64) (reqA reqB : Request) : Prop :=
  ∀ (ρ : Type) [Router ρ] (inner : ρ) (before later : List KvEvent) (poolA poolB : BackendPool)
    (signalsA signalsB : BackendSignals) (b : BackendId) (P : List Byte),
    let r := (KvAwareRouter.new inner cfg xxh3).after before
    let r' := (r.route reqA poolA signalsA).1.after later
    (r.route reqA poolA signalsA).2 = .send b → Steady b (r.route reqA poolA signalsA).1 later →
    (signalsB.get b).circuitState = .closed → Shares cfg reqA.body.asSlice reqB.body.asSlice P →
    (∀ path c, path <+: r'.bodyHashes reqB.body.asSlice → (cfg.chunks P).length < path.length →
      r'.trie.root.lookup path = some c → c = b) →
    (r'.route reqB poolB signalsB).2 = .send b

/-- The second body goes on where a chunk of the first ends, or the two are the same. -/
def Continues (cfg : KvAwareConfig) (A B : List Byte) : Prop :=
  A ≠ [] ∧ A <+: B ∧ (max cfg.prefixChunkBytes 1 ∣ A.length ∨ A = B)

theorem chunk_pos (cfg : KvAwareConfig) : 0 < max cfg.prefixChunkBytes 1 := by omega

theorem keepsAffinity_of_continues {cfg : KvAwareConfig} (xxh3 : List Byte → UInt64) {reqA reqB : Request}
    (h : Continues cfg reqA.body.asSlice reqB.body.asSlice) : KeepsAffinity cfg xxh3 reqA reqB := by
  intro ρ _ inner before later poolA poolB signalsA signalsB b P r r' hsend hsteady hclosed hshares hothers
  obtain ⟨hne, hfirst⟩ := h
  obtain ⟨hcfg, hxxh3⟩ : r.cfg = cfg ∧ r.xxh3 = xxh3 := after_cfg _ before
  obtain ⟨hcfg', hxxh3'⟩ : r'.cfg = cfg ∧ r'.xxh3 = xxh3 := by
    obtain ⟨hcfgA, hxxh3A, -⟩ := route_trie r reqA poolA signalsA
    obtain ⟨hcfgL, hxxh3L⟩ := after_cfg (r.route reqA poolA signalsA).1 later
    exact ⟨hcfgL.trans (hcfgA.trans hcfg), hxxh3L.trans (hxxh3A.trans hxxh3)⟩
  have hashA : r.bodyHashes reqA.body.asSlice = (cfg.chunks reqA.body.asSlice).map xxh3 := by
    rw [KvAwareRouter.bodyHashes, hcfg, hxxh3, KvAwareConfig.chunks]
  have hashB : r'.bodyHashes reqB.body.asSlice = (cfg.chunks reqB.body.asSlice).map xxh3 := by
    rw [KvAwareRouter.bodyHashes, hcfg', hxxh3', KvAwareConfig.chunks]
  have hAB : r.bodyHashes reqA.body.asSlice <+: r'.bodyHashes reqB.body.asSlice := by
    rw [hashA, hashB]
    exact ((toChunks_prefix_iff (chunk_pos cfg) _ _).mpr hfirst).map xxh3
  have hPA : (cfg.chunks P).length ≤ (r.bodyHashes reqA.body.asSlice).length := by
    rw [hashA, List.length_map]
    exact ((toChunks_prefix_iff (chunk_pos cfg) _ _).mpr ⟨hshares.left, Or.inl hshares.aligned⟩).length_le
  have hneA : r.bodyHashes reqA.body.asSlice ≠ [] := by
    rw [hashA]
    exact fun hnil => hne ((toChunks_eq_nil (chunk_pos cfg)).mp (List.map_eq_nil_iff.mp hnil))
  obtain ⟨p, hheld⟩ := held_of_route (hcfg ▸ hshares.long_left) hneA hsend
  have hheld' : Held r'.trie b p (r.bodyHashes reqA.body.asSlice) := held_after hheld hsteady
  have hmatch : r'.trie.longestMatch (r'.bodyHashes reqB.body.asSlice) = some b := by
    apply hheld'.longestMatch (hheld.within.trans hAB)
    intro q c hq hqA hc
    -- what is not within the first body's path is longer than it
    refine hothers q c hq (Nat.lt_of_le_of_lt hPA (Nat.lt_of_not_le fun hle => hqA ?_)) hc
    exact List.prefix_of_prefix_length_le hq hAB hle
  have hlongB : r'.cfg.minPrefixBytesToRoute ≤ reqB.body.asSlice.length := by
    rw [hcfg']
    exact hshares.long_right
  rw [route_of_cached (cached_of_longestMatch hlongB hmatch hclosed)]

/-! ## A body that diverges -/

def twoBackends : BackendPool := ⟨[⟨0⟩, ⟨1⟩]⟩

omit [Router ρ] in
theorem cached_of_no_path {r : KvAwareRouter ρ} {req : Request}
    (h : ∀ path, path ≠ [] → path <+: r.bodyHashes req.body.asSlice → r.trie.root.lookup path = none)
    (signals : BackendSignals) : r.cached req signals = none := by
  unfold KvAwareRouter.cached KvAwareRouter.hit
  split
  · rfl
  · rcases longestMatch_cases r.trie.root none (r.bodyHashes req.body.asSlice) with
      ⟨hnone, -⟩ | ⟨path, b, hne, hpath, hb, -, -⟩
    · rw [PrefixTrie.longestMatch, hnone, Option.filter_none]
    · cases (h path hne hpath).symm.trans hb

theorem lookup_insert_first {hashes path : List UInt64} {cap : Nat} {b c : BackendId}
    (h : (PrefixTrie.insert { cap := cap } hashes b).root.lookup path = some c) :
    hashes ≠ [] ∧ path = hashes ∧ c = b := by
  have hempty : ∀ path, TrieNode.lookup {} path ≠ some c := by
    intro path hpath
    cases (lookup_empty path).symm.trans hpath
  unfold PrefixTrie.insert at h
  split at h
  · exact absurd h (hempty path)
  · rename_i hne
    simp only [ite_self] at h
    have hroot := (lookup_insert {} b hashes path).symm.trans (by simpa using h)
    split at hroot
    · rename_i hpath
      exact ⟨hne, hpath, (Option.some.inj hroot).symm⟩
    · exact absurd hroot (hempty path)

/-- Over a round robin the first body goes to one backend, and a second body that finds nothing goes to the other. -/
theorem not_keepsAffinity {cfg : KvAwareConfig} {xxh3 : List Byte → UInt64} {reqA reqB : Request} {P : List Byte}
    (hinj : Set.InjOn xxh3 {x | x ∈ cfg.chunks reqA.body.asSlice ∨ x ∈ cfg.chunks reqB.body.asSlice})
    (hshares : Shares cfg reqA.body.asSlice reqB.body.asSlice P)
    (h : ¬ Continues cfg reqA.body.asSlice reqB.body.asSlice) : ¬ KeepsAffinity cfg xxh3 reqA reqB := by
  intro hkeeps
  let fresh : KvAwareRouter RoundRobinRouter := KvAwareRouter.new {} cfg xxh3
  let learned : KvAwareRouter RoundRobinRouter :=
    { fresh with inner := ⟨1⟩, trie := fresh.trie.insert (fresh.bodyHashes reqA.body.asSlice) ⟨0⟩ }
  have hfirst : fresh.route reqA twoBackends ⟨[]⟩ = (learned, .send ⟨0⟩) := by
    rw [route_of_miss (Nat.not_lt.mpr hshares.long_left) (cached_of_no_path (fun path _ _ => lookup_empty path) _)]
    rfl
  have hmiss : learned.cached reqB ⟨[]⟩ = none := by
    apply cached_of_no_path
    intro path hne hpath
    by_contra hsome
    obtain ⟨c, hc⟩ := Option.ne_none_iff_exists'.mp hsome
    obtain ⟨hneA, rfl, -⟩ := lookup_insert_first hc
    have hchunks : cfg.chunks reqA.body.asSlice <+: cfg.chunks reqB.body.asSlice := prefix_of_map hinj hpath
    refine h ⟨?_, (toChunks_prefix_iff (chunk_pos cfg) _ _).mp hchunks⟩
    intro hnil
    exact hneA (List.map_eq_nil_iff.mpr ((toChunks_eq_nil (chunk_pos cfg)).mpr hnil))
  have hsecond : (learned.route reqB twoBackends ⟨[]⟩).2 = .send ⟨1⟩ := by
    rw [route_of_miss (Nat.not_lt.mpr hshares.long_right) hmiss]
    rfl
  have hsame := hkeeps RoundRobinRouter {} [] [] twoBackends twoBackends ⟨[]⟩ ⟨[]⟩ ⟨0⟩ P (congrArg Prod.snd hfirst)
    trivial rfl hshares fun path c _ _ hc =>
      (lookup_insert_first ((congrArg (fun x => x.1.trie.root.lookup path) hfirst).symm.trans hc)).2.2
  have hlearned := (congrArg (fun x => (x.1.route reqB twoBackends ⟨[]⟩).2) hfirst).symm.trans hsame
  rw [hsecond] at hlearned
  exact absurd hlearned (by decide)

theorem keepsAffinity_iff {cfg : KvAwareConfig} {xxh3 : List Byte → UInt64} {reqA reqB : Request}
    (hinj : Set.InjOn xxh3 {x | x ∈ cfg.chunks reqA.body.asSlice ∨ x ∈ cfg.chunks reqB.body.asSlice})
    (hshares : ∃ P, Shares cfg reqA.body.asSlice reqB.body.asSlice P) :
    KeepsAffinity cfg xxh3 reqA reqB ↔ Continues cfg reqA.body.asSlice reqB.body.asSlice := by
  obtain ⟨P, hP⟩ := hshares
  constructor
  · intro hkeeps
    by_contra hnot
    exact not_keepsAffinity hinj hP hnot hkeeps
  · exact keepsAffinity_of_continues xxh3

def twoByteChunks : KvAwareConfig := { prefixChunkBytes := 2, minPrefixBytesToRoute := 2 }

/-- The hashes of `ab`, `cd` and `ef`. -/
def twoByteHash (chunk : List Byte) : UInt64 :=
  if chunk = [97, 98] then 0xa873719c24d5735c
  else if chunk = [99, 100] then 0x72dc4c5b74c8d331
  else if chunk = [101, 102] then 0x4076b5e9db38bf9f
  else 0

theorem injOn_of_forall {f : List Byte → UInt64} {l l' : List (List Byte)}
    (h : ∀ x ∈ l ++ l', ∀ y ∈ l ++ l', f x = f y → x = y) : Set.InjOn f {x | x ∈ l ∨ x ∈ l'} :=
  fun x hx y hy => h x (List.mem_append.mpr hx) y (List.mem_append.mpr hy)

/-- `ab` and then `abcd`. -/
theorem longer_body_follows :
    let A : Request := ⟨.bytes [97, 98]⟩
    let B : Request := ⟨.bytes [97, 98, 99, 100]⟩
    KeepsAffinity twoByteChunks twoByteHash A B :=
  (keepsAffinity_iff (injOn_of_forall (by decide)) ⟨[97, 98], by decide, by decide, by decide, by decide⟩).mpr
    ⟨by decide, by decide, by decide⟩

/-- `abcd` and then `abef`: they share the chunk `ab`. -/
theorem diverging_body_is_lost :
    let A : Request := ⟨.bytes [97, 98, 99, 100]⟩
    let B : Request := ⟨.bytes [97, 98, 101, 102]⟩
    Shares twoByteChunks A.body.asSlice B.body.asSlice [97, 98] ∧
      Set.InjOn twoByteHash
        {x | x ∈ twoByteChunks.chunks A.body.asSlice ∨ x ∈ twoByteChunks.chunks B.body.asSlice} ∧
      ¬ KeepsAffinity twoByteChunks twoByteHash A B := by
  intro A B
  have hshares : Shares twoByteChunks A.body.asSlice B.body.asSlice [97, 98] :=
    ⟨by decide, by decide, by decide, by decide⟩
  have hinj : Set.InjOn twoByteHash
      {x | x ∈ twoByteChunks.chunks A.body.asSlice ∨ x ∈ twoByteChunks.chunks B.body.asSlice} :=
    injOn_of_forall (by decide)
  refine ⟨hshares, hinj, not_keepsAffinity hinj hshares fun hcontinues => ?_⟩
  exact absurd hcontinues.2.1 (by decide)

end Riftgate.Router
