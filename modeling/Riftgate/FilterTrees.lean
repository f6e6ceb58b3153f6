import Riftgate.Lib.ShortCircuit
import Riftgate.Code.Filter

/-!
# Chains of chains

A chain is a filter, so chains can be put into chains. However they are nested, the filters at the leaves see a request
from the first to the last, and a response from the last to the first, until one of them terminates it.
-/

open Lib

namespace Riftgate.Filters

open Router Proxy

variable {σ : Type}

def FilterAction.status : FilterAction → Option StatusCode
  | .continue => none
  | .terminate status => some status

/-- A filter as a stage on what all filters keep and on the request. -/
def Filter.requestStage (f : Filter σ) : Stage (σ × Request) StatusCode := fun s =>
  (((f.onRequest s.1 s.2).1, (f.onRequest s.1 s.2).2.1), (f.onRequest s.1 s.2).2.2.status)

def Filter.responseStage (f : Filter σ) : Stage (σ × Response) StatusCode := fun s =>
  (((f.onResponse s.1 s.2).1, (f.onResponse s.1 s.2).2.1), (f.onResponse s.1 s.2).2.2.status)

theorem requestStage_chain (chain : FilterChain σ) :
    chain.filter.requestStage = runStages (chain.filters.map Filter.requestStage) := by
  funext s
  obtain ⟨filters⟩ := chain
  show (((requestLoop filters s.1 s.2).1, (requestLoop filters s.1 s.2).2.1),
    (requestLoop filters s.1 s.2).2.2.status) = _
  induction filters generalizing s with
  | nil => rfl
  | cons f filters ih =>
    simp only [requestLoop, List.map_cons, runStages, Filter.requestStage]
    generalize f.onRequest s.1 s.2 = r
    obtain ⟨s', req', action⟩ := r
    cases action with
    | «continue» => exact ih (s', req')
    | terminate status => rfl

theorem responseStage_chain (chain : FilterChain σ) :
    chain.filter.responseStage = runStages (chain.filters.reverse.map Filter.responseStage) := by
  funext s
  show (((responseLoop chain.filters.reverse s.1 s.2).1, (responseLoop chain.filters.reverse s.1 s.2).2.1),
    (responseLoop chain.filters.reverse s.1 s.2).2.2.status) = _
  generalize chain.filters.reverse = filters
  induction filters generalizing s with
  | nil => rfl
  | cons f filters ih =>
    simp only [responseLoop, List.map_cons, runStages, Filter.responseStage]
    generalize f.onResponse s.1 s.2 = r
    obtain ⟨s', resp', action⟩ := r
    cases action with
    | «continue» => exact ih (s', resp')
    | terminate status => rfl

/-! ## Trees -/

inductive Tree (σ : Type) where
  | leaf (f : Filter σ)
  | chain (children : List (Tree σ))

mutual

/-- The filter that the chains make of a tree. -/
def Tree.filter : Tree σ → Filter σ
  | .leaf f => f
  | .chain children => FilterChain.filter ⟨Tree.filters children⟩

def Tree.filters : List (Tree σ) → List (Filter σ)
  | [] => []
  | t :: children => t.filter :: Tree.filters children

end

mutual

def Tree.leaves : Tree σ → List (Filter σ)
  | .leaf f => [f]
  | .chain children => Tree.leavesAll children

def Tree.leavesAll : List (Tree σ) → List (Filter σ)
  | [] => []
  | t :: children => t.leaves ++ Tree.leavesAll children

end

mutual

theorem requestStage_tree : (t : Tree σ) →
    t.filter.requestStage = runStages (t.leaves.map Filter.requestStage)
  | .leaf f => by simp [Tree.filter, Tree.leaves]
  | .chain children => by
    rw [Tree.filter, requestStage_chain, Tree.leaves]
    exact requestStages_trees children

theorem requestStages_trees : (children : List (Tree σ)) →
    runStages ((Tree.filters children).map Filter.requestStage) =
      runStages ((Tree.leavesAll children).map Filter.requestStage)
  | [] => rfl
  | t :: children => by
    funext s
    rw [Tree.filters, Tree.leavesAll, List.map_append, runStages_append, List.map_cons, ← List.singleton_append,
      runStages_append, runStages_singleton, requestStage_tree t, requestStages_trees children]

end

mutual

theorem responseStage_tree : (t : Tree σ) →
    t.filter.responseStage = runStages (t.leaves.reverse.map Filter.responseStage)
  | .leaf f => by simp [Tree.filter, Tree.leaves]
  | .chain children => by
    rw [Tree.filter, responseStage_chain, Tree.leaves]
    exact responseStages_trees children

theorem responseStages_trees : (children : List (Tree σ)) →
    runStages ((Tree.filters children).reverse.map Filter.responseStage) =
      runStages ((Tree.leavesAll children).reverse.map Filter.responseStage)
  | [] => rfl
  | t :: children => by
    funext s
    rw [Tree.filters, Tree.leavesAll, List.reverse_cons, List.reverse_append, List.map_append, List.map_append,
      runStages_append, runStages_append, List.map_singleton, runStages_singleton, responseStage_tree t,
      responseStages_trees children]

end

/-- **Nested chains are flat.** A tree of chains does to a request what the filters at its leaves do in order, and to a
response what they do in the opposite order, up to the first one that terminates it. -/
theorem tree_flat (t : Tree σ) :
    t.filter.requestStage = runStages (t.leaves.map Filter.requestStage) ∧
      t.filter.responseStage = runStages (t.leaves.reverse.map Filter.responseStage) :=
  ⟨requestStage_tree t, responseStage_tree t⟩

theorem status_injective : Function.Injective FilterAction.status
  | .continue, .continue, _ => rfl
  | .terminate _, .terminate _, h => congrArg FilterAction.terminate (Option.some.inj h)

theorem status_eq_none {action : FilterAction} : action.status = none ↔ action = .continue := by
  cases action <;> simp [FilterAction.status]

theorem requestStages_eq (filters : List (Filter σ)) (s : σ) (req : Request) :
    runStages (filters.map Filter.requestStage) (s, req) =
      (((requestLoop filters s req).1, (requestLoop filters s req).2.1), (requestLoop filters s req).2.2.status) :=
  (congrFun (requestStage_chain ⟨filters⟩) (s, req)).symm

theorem onRequest_tree (t : Tree σ) (s : σ) (req : Request) : t.filter.onRequest s req = requestLoop t.leaves s req := by
  have h := (congrFun (requestStage_tree t) (s, req)).trans (requestStages_eq t.leaves s req)
  obtain ⟨hkept, hstatus⟩ := Prod.ext_iff.mp h
  obtain ⟨hs, hreq⟩ := Prod.ext_iff.mp hkept
  exact Prod.ext hs (Prod.ext hreq (status_injective hstatus))

/-! ## Trees with plugins -/

/-- A plugin whose component was loaded. -/
def plugin (rt : WasmRuntime σ) : Filter σ := (WasmFilter.mk (some rt)).filter

/-- The component was instantiated, ran to its end on this request, and let it go on. -/
def WasmRuntime.Passes (rt : WasmRuntime σ) (s : σ) (req : Request) : Prop :=
  rt.instantiate s = .ok () ∧ (rt.callOnRequest s (rt.requestPayload req)).2 = .ok .continue

theorem plugin_continues (rt : WasmRuntime σ) (s : σ) (req : Request) :
    ((plugin rt).onRequest s req).2.2 = .continue ↔ rt.Passes s req := by
  simp only [plugin, WasmFilter.filter, WasmRuntime.Passes, WasmRuntime.onRequest, WasmRuntime.invoke]
  cases hinst : rt.instantiate s with
  | error e => simp [orTerminate]
  | ok _ =>
    simp only [true_and]
    generalize rt.callOnRequest s (rt.requestPayload req) = r
    obtain ⟨s', called⟩ := r
    cases called with
    | error e => simp [orTerminate]
    | ok action => cases action <;> simp [orTerminate, mapAction]

theorem requestLoop_append (before after : List (Filter σ)) (s : σ) (req : Request) :
    requestLoop (before ++ after) s req =
      if (requestLoop before s req).2.2 = .continue then
        requestLoop after (requestLoop before s req).1 (requestLoop before s req).2.1
      else requestLoop before s req := by
  induction before generalizing s req with
  | nil => rfl
  | cons f before ih =>
    rcases hf : f.onRequest s req with ⟨s', req', action⟩
    simp only [List.cons_append, requestLoop, hf]
    cases action with
    | «continue» => exact ih s' req'
    | terminate status => rfl

theorem requestLoop_continues_iff {filters : List (Filter σ)} {s : σ} {req : Request} :
    (requestLoop filters s req).2.2 = .continue ↔
      ∀ before f after, filters = before ++ f :: after →
        (f.onRequest (requestLoop before s req).1 (requestLoop before s req).2.1).2.2 = .continue := by
  have hrun : (requestLoop filters s req).2.2.status = (runStages (filters.map Filter.requestStage) (s, req)).2 := by
    rw [requestStages_eq]
  rw [← status_eq_none, hrun, runStages_none_iff]
  constructor
  · rintro h before f after rfl
    have hf := h (before.map Filter.requestStage) f.requestStage (after.map Filter.requestStage) (by simp)
    rw [requestStages_eq] at hf
    exact status_eq_none.mp hf
  · intro h before stage after heq
    rw [List.map_eq_append_iff] at heq
    obtain ⟨before, rest, rfl, rfl, hrest⟩ := heq
    rw [List.map_eq_cons_iff] at hrest
    obtain ⟨f, after, rfl, rfl, -⟩ := hrest
    rw [requestStages_eq]
    exact status_eq_none.mpr (h before f after rfl)

/-- **Plugins fail closed.** In a tree with plugins among its leaves, a request goes through exactly when each leaf lets
it go on as the leaves before have left it. A plugin there was instantiated then, ran to its end on that very request
and let it go on. One that fails answers 500, and no leaf behind it is called. No plugin changes the request. -/
theorem plugins_fail_closed (t : Tree σ) (s : σ) (req : Request) :
    ((t.filter.onRequest s req).2.2 = .continue ↔
      ∀ before f after, t.leaves = before ++ f :: after →
        (f.onRequest (requestLoop before s req).1 (requestLoop before s req).2.1).2.2 = .continue) ∧
    ∀ before rt after, t.leaves = before ++ plugin rt :: after →
      let r := requestLoop before s req
      ((t.filter.onRequest s req).2.2 = .continue → rt.Passes r.1 r.2.1) ∧
      (r.2.2 = .continue → ∀ s' e, rt.onRequest r.1 r.2.1 = (s', .error e) →
        t.filter.onRequest s req = (s', r.2.1, .terminate internalServerError)) ∧
      (requestLoop (before ++ [plugin rt]) s req).2.1 = r.2.1 := by
  have hiff := @requestLoop_continues_iff σ t.leaves s req
  rw [onRequest_tree]
  refine ⟨hiff, fun before rt after hleaves => ⟨fun hpass => ?_, fun hreached s' e hfails => ?_, ?_⟩⟩
  · exact (plugin_continues rt _ _).mp (hiff.mp hpass before (plugin rt) after hleaves)
  · rw [hleaves, requestLoop_append, if_pos hreached]
    simp only [requestLoop, plugin, WasmFilter.filter, hfails, orTerminate]
  · rw [requestLoop_append]
    split
    · simp only [requestLoop, plugin, WasmFilter.filter]
      split <;> rename_i h <;> simp only [Prod.mk.injEq] at h <;> exact h.2.1.symm
    · rfl

/-- A plugin that always answers the same. -/
def fixedRuntime (answer : Except String Action) : WasmRuntime Unit where
  debugMethod _ := "Get"
  fromUtf8Lossy _ := ""
  instantiate _ := .ok ()
  callOnRequest s _ := (s, answer)
  callOnResponse s _ := (s, answer)

/-- A filter of the gateway itself, which moves the request. -/
def movingFilter : Filter Unit where
  onRequest s req := (s, { req with path := "/v1" ++ req.path }, .continue)

def trappingTree : Tree Unit :=
  .chain [.leaf movingFilter, .chain [.leaf (plugin (fixedRuntime (.ok .continue))),
    .leaf (plugin (fixedRuntime (.error "out of fuel"))), .leaf movingFilter], .leaf loggingFilter]

/-- The last plugin traps on what the filter before has made of the request. -/
theorem trappingTree_closed :
    trappingTree.filter.onRequest () ⟨1, .get, "/models", [], .empty⟩ =
      ((), ⟨1, .get, "/v1/models", [], .empty⟩, .terminate internalServerError) :=
  ((plugins_fail_closed trappingTree () ⟨1, .get, "/models", [], .empty⟩).2
    [movingFilter, plugin (fixedRuntime (.ok .continue))] (fixedRuntime (.error "out of fuel"))
    [movingFilter, loggingFilter] rfl).2.1 rfl () (.executeFailed "out of fuel") rfl

end Riftgate.Filters
