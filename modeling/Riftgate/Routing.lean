import Riftgate.Code.Hedged
import Riftgate.Code.Routers

/-!
# Where the routers get their targets from

A sample of the alias table, the scan over the pool, or the trie. The trie only has what the inner
router once answered.
-/

open Lib

namespace Riftgate.Router

/-! ## The alias table -/

/-- A slot of the table gives one of these. -/
def AliasEntry.Within (ids : List BackendId) (e : AliasEntry) : Prop := e.primary ∈ ids ∧ e.alias ∈ ids

theorem fullEntry_within {weights : List (BackendId × UInt32)} {w : BackendId × UInt32} (h : w ∈ weights) :
    (fullEntry w).Within (weights.map (·.1)) := ⟨List.mem_map_of_mem h, List.mem_map_of_mem h⟩

theorem set_within {ids : List BackendId} {table : List AliasEntry} (h : ∀ e ∈ table, e.Within ids) (i : Nat)
    {entry : AliasEntry} (hentry : entry.Within ids) : ∀ e ∈ table.set i entry, e.Within ids := by
  intro e he
  by_cases heq : e = entry
  · rw [heq]
    exact hentry
  · exact h e ((List.mem_or_eq_of_mem_set he).resolve_right heq)

theorem settle_within {weights : List (BackendId × UInt32)} (is : List Nat) {table : List AliasEntry}
    (h : ∀ e ∈ table, e.Within (weights.map (·.1))) :
    ∀ e ∈ is.foldl (settle weights) table, e.Within (weights.map (·.1)) := by
  induction is generalizing table with
  | nil => exact h
  | cons i is ih =>
    rw [List.foldl_cons]
    apply ih
    unfold settle
    split
    · rename_i w hw
      exact set_within h i (fullEntry_within (List.mem_of_getElem? hw))
    · exact h

theorem pairSlots_within {weights : List (BackendId × UInt32)} {table : List AliasEntry}
    (h : ∀ e ∈ table, e.Within (weights.map (·.1))) (s l : Nat) (probScaled : UInt32) :
    ∀ e ∈ pairSlots weights table s l probScaled, e.Within (weights.map (·.1)) := by
  unfold pairSlots
  split
  · rename_i ws wl hs hl
    exact set_within h s ⟨List.mem_map_of_mem (List.mem_of_getElem? hs), List.mem_map_of_mem (List.mem_of_getElem? hl)⟩
  · exact h

theorem pair_within {weights : List (BackendId × UInt32)} (fuel : Nat) {bld : AliasBuild}
    (h : ∀ e ∈ bld.table, e.Within (weights.map (·.1))) :
    ∀ e ∈ (AliasBuild.pair weights fuel bld).table, e.Within (weights.map (·.1)) := by
  induction fuel generalizing bld with
  | zero => exact h
  | succ fuel ih =>
    unfold AliasBuild.pair
    split
    · simp only
      split
      · exact ih (pairSlots_within h _ _ _)
      · exact ih (pairSlots_within h _ _ _)
    · exact h

theorem aliasTable_within (weights : List (BackendId × UInt32)) :
    ∀ e ∈ aliasTable weights, e.Within (weights.map (·.1)) := by
  unfold aliasTable
  apply settle_within
  apply pair_within
  intro e he
  obtain ⟨w, hw, rfl⟩ := List.mem_map.mp he
  exact fullEntry_within hw

theorem pair_done (weights : List (BackendId × UInt32)) (fuel : Nat) (bld : AliasBuild)
    (h : bld.small.length + bld.large.length ≤ fuel) (k : Nat) :
    AliasBuild.pair weights (fuel + k) bld = AliasBuild.pair weights fuel bld := by
  induction fuel generalizing bld with
  | zero =>
    have hsmall : bld.small = [] := List.eq_nil_of_length_eq_zero (by omega)
    have hlarge : bld.large = [] := List.eq_nil_of_length_eq_zero (by omega)
    cases k with
    | zero => rfl
    | succ k =>
      unfold AliasBuild.pair
      simp only [hsmall, hlarge]
      cases bld
      simp_all
  | succ fuel ih =>
    rw [Nat.add_right_comm]
    unfold AliasBuild.pair
    split
    · rename_i s small l large hs hl
      simp only
      split
      · apply ih
        simp only [hs, hl, List.length_cons] at h ⊢
        omega
      · apply ih
        simp only [hs, hl, List.length_cons] at h ⊢
        omega
    · rfl

theorem aliasTable_done (weights : List (BackendId × UInt32)) (k : Nat) :
    AliasBuild.pair weights (weights.length + k) (.start weights) =
      AliasBuild.pair weights weights.length (.start weights) := by
  apply pair_done
  have hlen := List.length_eq_length_filter_add (l := List.range weights.length)
    fun i => decide ((scaleWeights weights).getD i 0 < aliasScale.toUInt64)
  simp only [AliasBuild.start, List.length_reverse]
  rw [List.length_range] at hlen
  exact hlen.ge

/-! ## Weighted random -/

/-- The table of a router that the constructor has made. -/
def WeightedRandomRouter.Built (r : WeightedRandomRouter) : Prop := ∀ e ∈ r.table, e.Within r.backends

theorem built_withSeed {weights : List (BackendId × UInt32)} {seed : UInt64} {r : WeightedRandomRouter}
    (h : WeightedRandomRouter.withSeed weights seed = some r) : r.Built ∧ r.backends = weights.map (·.1) := by
  unfold WeightedRandomRouter.withSeed at h
  split at h
  · cases h
    exact ⟨aliasTable_within weights, rfl⟩
  · cases h

theorem sample_mem {r : WeightedRandomRouter} (h : r.Built) : r.sample.2 ∈ r.backends := by
  unfold WeightedRandomRouter.sample
  simp only
  have hentry := h _ (List.get_mem r.table
    ⟨(r.nextU64).2.toNat % r.table.length, Nat.mod_lt _ (List.length_pos_iff_ne_nil.mpr r.table_ne)⟩)
  split
  · exact hentry.1
  · exact hentry.2

/-- Only the state of the generator changes. -/
def SameTable (r r' : WeightedRandomRouter) : Prop := r'.table = r.table ∧ r'.backends = r.backends

theorem SameTable.built {r r' : WeightedRandomRouter} (h : SameTable r r') (hr : r.Built) : r'.Built := by
  intro e he
  rw [h.1] at he
  rw [h.2]
  exact hr e he

theorem trySamples_eq (signals : BackendSignals) (n : Nat) (r : WeightedRandomRouter) (hr : r.Built)
    (fallback : Option BackendId) :
    SameTable r (trySamples signals n r fallback).1 ∧
      ∃ drawn : List BackendId, (∀ b ∈ drawn, b ∈ r.backends) ∧
        (trySamples signals n r fallback).2 = drawn.foldlM (consider signals) fallback := by
  induction n generalizing r fallback with
  | zero => exact ⟨⟨rfl, rfl⟩, [], by simp, rfl⟩
  | succ n ih =>
    have hmem := sample_mem hr
    have hsame : SameTable r r.sample.1 := ⟨rfl, rfl⟩
    unfold trySamples
    simp only
    split
    · rename_i b hb
      refine ⟨hsame, [r.sample.2], by simpa using hmem, ?_⟩
      rw [List.foldlM_cons, hb]
      rfl
    · rename_i fallback' hb
      obtain ⟨htable, drawn, hdrawn, heq⟩ := ih r.sample.1 (hsame.built hr) fallback'
      refine ⟨⟨htable.1.trans hsame.1, htable.2.trans hsame.2⟩, r.sample.2 :: drawn, ?_, ?_⟩
      · rw [List.forall_mem_cons]
        exact ⟨hmem, hdrawn⟩
      · rw [List.foldlM_cons, hb]
        exact heq

def isOpen (signals : BackendSignals) (b : BackendId) : Prop := (signals.get b).circuitState = .open

/-- What the loops have found: an early return, or the fallback. -/
def found : Except BackendId (Option BackendId) → Option BackendId
  | .error b => some b
  | .ok closedFallback => closedFallback

theorem consider_cases (signals : BackendSignals) (fallback : Option BackendId) (b : BackendId) :
    (isOpen signals b ∧ consider signals fallback b = .ok fallback) ∨
      (¬ isOpen signals b ∧ consider signals fallback b = .ok (fallback.or (some b))) ∨
      (¬ isOpen signals b ∧ consider signals fallback b = .error b) := by
  unfold consider isOpen
  by_cases hopen : (signals.get b).circuitState = .open
  · exact Or.inl ⟨hopen, by simp [hopen]⟩
  · by_cases hhot : isHot (signals.get b) = true
    · exact Or.inr (Or.inl ⟨hopen, by simp [hopen, hhot]⟩)
    · exact Or.inr (Or.inr ⟨hopen, by simp [hopen, hhot]⟩)

theorem found_some {signals : BackendSignals} {l : List BackendId} {fallback : Option BackendId} {b : BackendId}
    (h : found (l.foldlM (consider signals) fallback) = some b) :
    fallback = some b ∨ b ∈ l ∧ ¬ isOpen signals b := by
  induction l generalizing fallback with
  | nil => exact Or.inl h
  | cons c l ih =>
    have hlater : ∀ fallback', found (l.foldlM (consider signals) fallback') = some b →
        fallback' = some b ∨ b ∈ c :: l ∧ ¬ isOpen signals b := fun fallback' h =>
      (ih h).imp_right fun h => ⟨List.mem_cons_of_mem c h.1, h.2⟩
    rw [List.foldlM_cons] at h
    rcases consider_cases signals fallback c with ⟨-, heq⟩ | ⟨hopen, heq⟩ | ⟨hopen, heq⟩
    · rw [heq] at h
      exact hlater _ h
    · rw [heq] at h
      rcases hlater _ h with hor | hmem
      · rcases Option.or_eq_some_iff.mp hor with hold | ⟨-, hc⟩
        · exact Or.inl hold
        · cases hc
          exact Or.inr ⟨List.mem_cons_self, hopen⟩
      · exact Or.inr hmem
    · rw [heq] at h
      cases h
      exact Or.inr ⟨List.mem_cons_self, hopen⟩

theorem found_none {signals : BackendSignals} {l : List BackendId} {fallback : Option BackendId} :
    found (l.foldlM (consider signals) fallback) = none ↔ fallback = none ∧ ∀ b ∈ l, isOpen signals b := by
  induction l generalizing fallback with
  | nil => simp [found, pure, Except.pure]
  | cons c l ih =>
    rw [List.foldlM_cons, List.forall_mem_cons]
    rcases consider_cases signals fallback c with ⟨hopen, heq⟩ | ⟨hopen, heq⟩ | ⟨hopen, heq⟩
    · rw [heq]
      refine ih.trans ?_
      simp [hopen]
    · rw [heq]
      refine ih.trans ?_
      simp [hopen]
    · rw [heq]
      simp [found, bind, Except.bind, hopen]

theorem found_hot {signals : BackendSignals} {l : List BackendId} {fallback : Option BackendId} {b : BackendId}
    (h : found (l.foldlM (consider signals) fallback) = some b) (hhot : isHot (signals.get b)) :
    ∀ c ∈ l, ¬ isOpen signals c → isHot (signals.get c) := by
  induction l generalizing fallback with
  | nil => exact List.forall_mem_nil _
  | cons c l ih =>
    rw [List.foldlM_cons] at h
    rw [List.forall_mem_cons]
    by_cases hopen : isOpen signals c
    · have heq : consider signals fallback c = .ok fallback := if_pos hopen
      rw [heq] at h
      exact ⟨fun hc => absurd hopen hc, ih h⟩
    · by_cases hc : isHot (signals.get c)
      · have heq : consider signals fallback c = .ok (fallback.or (some c)) := (if_neg hopen).trans (if_pos hc)
        rw [heq] at h
        exact ⟨fun _ => hc, ih h⟩
      · have heq : consider signals fallback c = .error c := (if_neg hopen).trans (if_neg hc)
        rw [heq] at h
        cases h
        exact absurd hhot hc

def sendOr503 : Option BackendId → RoutingDecision
  | some b => .send b
  | none => .reject serviceUnavailable

theorem weighted_route (r : WeightedRandomRouter) (hr : r.Built) {pool : BackendPool} (hpool : pool.backends ≠ [])
    (signals : BackendSignals) :
    SameTable r (r.route pool signals).1 ∧
      ∃ drawn : List BackendId, (∀ b ∈ drawn, b ∈ r.backends) ∧
        (r.route pool signals).2 =
          sendOr503 (found ((drawn ++ pool.backends).foldlM (consider signals) none)) := by
  obtain ⟨hsame, drawn, hdrawn, heq⟩ := trySamples_eq signals r.backends.length r hr none
  unfold WeightedRandomRouter.route
  rw [if_neg hpool]
  simp only [heq, ← List.foldlM_append]
  split <;> rename_i h <;> exact ⟨hsame, drawn, hdrawn, by rw [h]; rfl⟩

theorem sendOr503_send {o : Option BackendId} {b : BackendId} : sendOr503 o = .send b ↔ o = some b := by
  cases o with
  | none => exact iff_of_false (fun h => nomatch h) (fun h => nomatch h)
  | some c => exact ⟨fun h => by cases h; rfl, fun h => by cases h; rfl⟩

theorem sendOr503_reject {o : Option BackendId} : sendOr503 o = .reject serviceUnavailable ↔ o = none := by
  cases o with
  | none => exact iff_of_true rfl rfl
  | some c => exact iff_of_false (fun h => nomatch h) (fun h => nomatch h)

/-- Whatever the generator draws, an open backend gets nothing, and a hot one only what no other could take. -/
theorem weighted_prefers_cool (r : WeightedRandomRouter) (hr : r.Built) (pool : BackendPool)
    (hids : ∀ b, b ∈ r.backends ↔ b ∈ pool.backends) (signals : BackendSignals) :
    ((r.route pool signals).2 = .reject serviceUnavailable ∨
        ∃ b ∈ pool.backends, (r.route pool signals).2 = .send b) ∧
      ((r.route pool signals).2 = .reject serviceUnavailable ↔ ∀ b ∈ pool.backends, isOpen signals b) ∧
      ∀ b, (r.route pool signals).2 = .send b →
        ¬ isOpen signals b ∧
          (isHot (signals.get b) → ∀ c ∈ pool.backends, ¬ isOpen signals c → isHot (signals.get c)) := by
  have hpool : pool.backends ≠ [] := List.ne_nil_of_mem ((hids _).mp (sample_mem hr))
  obtain ⟨-, drawn, hdrawn, heq⟩ := weighted_route r hr hpool signals
  have hseen : ∀ b, b ∈ drawn ++ pool.backends ↔ b ∈ pool.backends := by
    intro b
    rw [List.mem_append, or_iff_right_of_imp fun hb => (hids b).mp (hdrawn b hb)]
  have hfound : ∀ b, found ((drawn ++ pool.backends).foldlM (consider signals) none) = some b →
      b ∈ pool.backends ∧ ¬ isOpen signals b := by
    intro b hb
    rcases found_some hb with hnone | ⟨hmem, hopen⟩
    · cases hnone
    · exact ⟨(hseen b).mp hmem, hopen⟩
  rw [heq]
  refine ⟨?_, ?_, fun b hb => ?_⟩
  · cases hb : found ((drawn ++ pool.backends).foldlM (consider signals) none) with
    | none => exact Or.inl rfl
    | some b => exact Or.inr ⟨b, (hfound b hb).1, rfl⟩
  · rw [sendOr503_reject, found_none]
    simp only [hseen, true_and]
  · rw [sendOr503_send] at hb
    exact ⟨(hfound b hb).2, fun hhot c hc => found_hot hb hhot c ((hseen c).mpr hc)⟩

/-- The samples are all hot, so the scan decides. -/
theorem weighted_prefers_cool_two :
    let r : WeightedRandomRouter := ⟨[⟨⟨0⟩, ⟨1⟩, aliasScale⟩], [⟨0⟩, ⟨1⟩], 1, by decide, by decide⟩
    let signals : BackendSignals := ⟨[{ gpuPressure := some infinity }]⟩
    (r.route ⟨[⟨0⟩, ⟨1⟩]⟩ signals).2 = .send ⟨1⟩ ∧ ¬ isOpen signals ⟨1⟩ := by
  intro r signals
  have hsend : (r.route ⟨[⟨0⟩, ⟨1⟩]⟩ signals).2 = .send ⟨1⟩ := by decide +kernel
  have hbuilt : r.Built := by
    intro e he
    rw [List.mem_singleton.mp he]
    exact ⟨by decide, by decide⟩
  exact ⟨hsend, ((weighted_prefers_cool r hbuilt ⟨[⟨0⟩, ⟨1⟩]⟩ (fun b => Iff.rfl) signals).2.2 ⟨1⟩ hsend).1⟩

/-! ## The trie as a map from paths -/

def TrieNode.lookup (node : TrieNode) : List UInt64 → Option BackendId
  | [] => node.backend
  | h :: path => (node.children h).bind fun next => next.lookup path

theorem lookup_empty (path : List UInt64) : TrieNode.lookup {} path = none := by
  cases path with
  | nil => rfl
  | cons h path => rfl

theorem lookup_child (node : TrieNode) (h : UInt64) (path : List UInt64) :
    (node.child h).lookup path = node.lookup (h :: path) := by
  unfold TrieNode.child
  rw [TrieNode.lookup]
  cases node.children h with
  | none => exact lookup_empty path
  | some next => rfl

theorem lookup_insert (node : TrieNode) (b : BackendId) (hashes path : List UInt64) :
    (node.insert b hashes).1.lookup path = if path = hashes then some b else node.lookup path := by
  induction hashes generalizing node path with
  | nil =>
    cases path with
    | nil => rfl
    | cons h path => simp [TrieNode.insert, TrieNode.lookup]
  | cons h hashes ih =>
    cases path with
    | nil => simp [TrieNode.insert, TrieNode.lookup]
    | cons k path =>
      by_cases hk : k = h
      · subst hk
        have hnext := ih (node.child k) path
        simp only [TrieNode.insert, TrieNode.lookup, Function.update_self, Option.bind_some, hnext, List.cons.injEq,
          true_and]
        rw [lookup_child, TrieNode.lookup]
      · simp [TrieNode.insert, TrieNode.lookup, hk]

theorem exists_rest {h : UInt64} {hashes path : List UInt64} (hne : path ≠ []) (hpath : path <+: h :: hashes) :
    ∃ rest, path = h :: rest ∧ rest <+: hashes := by
  obtain ⟨k, rest, rfl⟩ := List.exists_cons_of_ne_nil hne
  obtain ⟨rfl, hrest⟩ := List.cons_prefix_cons.mp hpath
  exact ⟨rest, rfl, hrest⟩

theorem lookup_cons_of_child {node next : TrieNode} {h : UInt64} (hchild : node.children h = some next)
    (rest : List UInt64) : node.lookup (h :: rest) = next.lookup rest := by
  rw [TrieNode.lookup, hchild, Option.bind_some]

theorem longestMatch_cases (node : TrieNode) (best : Option BackendId) (hashes : List UInt64) :
    (node.longestMatch best hashes = best ∧ ∀ path, path ≠ [] → path <+: hashes → node.lookup path = none) ∨
      ∃ path b, path ≠ [] ∧ path <+: hashes ∧ node.lookup path = some b ∧
        node.longestMatch best hashes = some b ∧
        ∀ q, q <+: hashes → path.length < q.length → node.lookup q = none := by
  induction hashes generalizing node best with
  | nil => exact Or.inl ⟨rfl, fun path hne hpath => absurd (List.prefix_nil.mp hpath) hne⟩
  | cons h hashes ih =>
    unfold TrieNode.longestMatch
    cases hchild : node.children h with
    | none =>
      refine Or.inl ⟨rfl, fun path hne hpath => ?_⟩
      obtain ⟨rest, rfl, -⟩ := exists_rest hne hpath
      rw [TrieNode.lookup, hchild, Option.bind_none]
    | some next =>
      have hnext := lookup_cons_of_child hchild
      simp only
      rcases ih next (next.backend.or best) with ⟨heq, hnone⟩ | ⟨path, b, -, hpath, hb, heq, hlonger⟩
      · cases hback : next.backend with
        | none =>
          rw [hback, Option.none_or] at heq
          refine Or.inl ⟨heq, fun path hne hpath => ?_⟩
          obtain ⟨rest, rfl, hrest⟩ := exists_rest hne hpath
          rw [hnext]
          by_cases hnil : rest = []
          · rw [hnil]
            exact hback
          · exact hnone rest hnil hrest
        | some b =>
          rw [hback, Option.some_or] at heq
          refine Or.inr ⟨[h], b, by simp, by simp, (hnext []).trans hback, heq, fun q hq hlt => ?_⟩
          obtain ⟨rest, rfl, hrest⟩ := exists_rest (by rintro rfl; simp at hlt) hq
          rw [hnext]
          exact hnone rest (by rintro rfl; simp at hlt) hrest
      · refine Or.inr ⟨h :: path, b, by simp, List.cons_prefix_cons.mpr ⟨rfl, hpath⟩, (hnext path).trans hb, heq, ?_⟩
        intro q hq hlt
        obtain ⟨rest, rfl, hrest⟩ := exists_rest (by rintro rfl; simp at hlt) hq
        rw [hnext]
        exact hlonger rest hrest (by simpa using hlt)

def PrefixTrie.Names (trie : PrefixTrie) (b : BackendId) : Prop := ∃ path, trie.root.lookup path = some b

theorem names_of_longestMatch {trie : PrefixTrie} {hashes : List UInt64} {b : BackendId}
    (h : trie.longestMatch hashes = some b) : trie.Names b := by
  rcases longestMatch_cases trie.root none hashes with ⟨hnone, -⟩ | ⟨path, c, -, -, hc, heq, -⟩
  · cases hnone.symm.trans h
  · exact ⟨path, hc.trans (heq.symm.trans h)⟩

theorem names_insert {trie : PrefixTrie} {hashes : List UInt64} {b c : BackendId}
    (h : (trie.insert hashes b).Names c) : c = b ∨ trie.Names c := by
  have hroot : ∀ root : TrieNode, (∃ path, (root.insert b hashes).1.lookup path = some c) →
      c = b ∨ ∃ path, root.lookup path = some c := by
    rintro root ⟨path, hpath⟩
    rw [lookup_insert] at hpath
    split at hpath
    · exact Or.inl (Option.some.inj hpath).symm
    · exact Or.inr ⟨path, hpath⟩
  unfold PrefixTrie.insert at h
  split at h
  · exact Or.inr h
  · simp only at h
    split at h
    · -- the trie was full, and now the new path is alone
      rcases hroot {} h with rfl | ⟨path, hpath⟩
      · exact Or.inl rfl
      · rw [lookup_empty] at hpath
        cases hpath
    · exact hroot trie.root h

/-! ## KV-aware -/

variable {ρ : Type}

/-- What the trie says about the body, when the body is long enough. -/
def KvAwareRouter.hit (r : KvAwareRouter ρ) (req : Request) : Option BackendId :=
  if req.body.asSlice.length < r.cfg.minPrefixBytesToRoute then none
  else r.trie.longestMatch (r.bodyHashes req.body.asSlice)

theorem names_of_hit {r : KvAwareRouter ρ} {req : Request} {b : BackendId} (h : r.hit req = some b) :
    r.trie.Names b := by
  unfold KvAwareRouter.hit at h
  split at h
  · cases h
  · exact names_of_longestMatch h

variable [Router ρ]

/-- The trie after an answer of the inner router has what it had and that answer. -/
def Learns (trie trie' : PrefixTrie) (d : RoutingDecision) : Prop := ∀ b, trie'.Names b → trie.Names b ∨ d = .send b

theorem defer_eq (r : KvAwareRouter ρ) (hashes : List UInt64) (req : Request) (pool : BackendPool)
    (signals : BackendSignals) :
    let answer := Router.route r.inner req pool signals
    (r.defer hashes req pool signals).2 = answer.2 ∧ (r.defer hashes req pool signals).1.inner = answer.1 ∧
      Learns r.trie (r.defer hashes req pool signals).1.trie answer.2 := by
  intro answer
  unfold KvAwareRouter.defer
  simp only
  split
  · rename_i b hb
    refine ⟨rfl, rfl, fun c hc => ?_⟩
    rcases names_insert hc with rfl | hold
    · exact Or.inr hb
    · exact Or.inl hold
  · exact ⟨rfl, rfl, fun c hc => Or.inl hc⟩

/-- The hit, if it is shown as closed. -/
def KvAwareRouter.cached (r : KvAwareRouter ρ) (req : Request) (signals : BackendSignals) : Option BackendId :=
  (r.hit req).filter fun b => (signals.get b).circuitState = .closed

theorem kv_route (r : KvAwareRouter ρ) (req : Request) (pool : BackendPool) (signals : BackendSignals) :
    (∃ b, r.cached req signals = some b ∧ r.route req pool signals = (r, .send b)) ∨
      let answer := Router.route r.inner req pool signals
      r.cached req signals = none ∧ (r.route req pool signals).2 = answer.2 ∧
        (r.route req pool signals).1.inner = answer.1 ∧ Learns r.trie (r.route req pool signals).1.trie answer.2 := by
  unfold KvAwareRouter.route KvAwareRouter.cached KvAwareRouter.hit
  simp only
  split
  · exact Or.inr ⟨rfl, rfl, rfl, fun c hc => Or.inl hc⟩
  · split
    · rename_i b hb
      split
      · rename_i hclosed
        exact Or.inl ⟨b, by simp [hb, hclosed], rfl⟩
      · rename_i hclosed
        exact Or.inr ⟨by simp [hb, hclosed], defer_eq r _ req pool signals⟩
    · rename_i hb
      exact Or.inr ⟨by simp [hb], defer_eq r _ req pool signals⟩

omit [Router ρ] in
theorem cached_some {r : KvAwareRouter ρ} {req : Request} {signals : BackendSignals} {b : BackendId}
    (h : r.cached req signals = some b) : r.trie.Names b ∧ (signals.get b).circuitState = .closed := by
  obtain ⟨hhit, hclosed⟩ := Option.filter_eq_some_iff.mp h
  exact ⟨names_of_hit hhit, of_decide_eq_true hclosed⟩

/-! ## Hedged -/

variable {F : Type} [Arith F]

theorem pickSecondary_mem {primary secondary : BackendId} {pool : BackendPool} {signals : BackendSignals}
    (h : pickSecondary primary pool signals = some secondary) :
    secondary ∈ pool.backends ∧ (signals.get secondary).circuitState = .closed := by
  have hp := List.find?_some h
  simp only [decide_eq_true_eq] at hp
  exact ⟨List.mem_of_find?_eq_some h, hp.2⟩

omit [Router ρ] in
theorem promote_eq (r : HedgedRouter F ρ) (primary : BackendId) (pool : BackendPool) (signals : BackendSignals) :
    (r.promote primary pool signals).1.inner = r.inner ∧
      ((r.promote primary pool signals).2 = .send primary ∨
        ∃ secondary, pickSecondary primary pool signals = some secondary ∧
          (r.promote primary pool signals).2 = .hedge [primary, secondary]) := by
  unfold HedgedRouter.promote
  split
  · exact ⟨rfl, Or.inl rfl⟩
  · split
    · exact ⟨rfl, Or.inl rfl⟩
    · split
      · exact ⟨rfl, Or.inl rfl⟩
      · split
        · rename_i secondary hsec
          exact ⟨rfl, Or.inr ⟨secondary, hsec, rfl⟩⟩
        · exact ⟨rfl, Or.inl rfl⟩

theorem hedged_route (r : HedgedRouter F ρ) (req : Request) (pool : BackendPool) (signals : BackendSignals) :
    let answer := Router.route r.inner req pool signals
    (r.route req pool signals).1.inner = answer.1 ∧
      ((r.route req pool signals).2 = answer.2 ∨
        ∃ primary secondary, answer.2 = .send primary ∧ pickSecondary primary pool signals = some secondary ∧
          (r.route req pool signals).2 = .hedge [primary, secondary]) := by
  intro answer
  unfold HedgedRouter.route
  simp only
  split
  · rename_i primary hp
    obtain ⟨hinner, hd⟩ := promote_eq
      { r with inner := answer.1, decisionsTotal := r.decisionsTotal + 1 } primary pool signals
    refine ⟨hinner, ?_⟩
    rcases hd with hd | ⟨secondary, hsec, hd⟩
    · exact Or.inl (hd.trans hp.symm)
    · exact Or.inr ⟨primary, secondary, hp, hsec, hd⟩
  · exact ⟨rfl, Or.inl rfl⟩

end Riftgate.Router
