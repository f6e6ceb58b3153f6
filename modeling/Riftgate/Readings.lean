import Riftgate.Code.Reconciler

/-!
# What a ConfigMap shows

A reconcile reads each kind of object at a time of its own, and each Secret too. The text that it writes shows the
namespace of its gateway at these times, whatever is edited between them and whoever else is reconciling.
-/

open Lib

namespace Riftgate.Operator

open Mcp Proxy

variable {debug : String → String} {sha256 : List Byte → List Byte}

/-! ## Readings -/

def HeldAt (past : List Cluster) (n : Nat) (p : Cluster → Prop) : Prop := ∃ c, past[n]? = some c ∧ p c

def GatewayRead (past : List Cluster) (obj : ObjectRef) (gateway : GatewayObject) (n : Nat) : Prop :=
  HeldAt past n fun c => c.gateways obj = some gateway

def BackendsRead (past : List Cluster) (obj : ObjectRef) (gateway : GatewayObject)
    (backends : List (String × RiftgateBackendSpec)) (n : Nat) : Prop :=
  ∃ m, m ≤ n ∧ GatewayRead past obj gateway m ∧ HeldAt past n fun c => c.backends obj.ns = backends

def RoutesRead (past : List Cluster) (obj : ObjectRef) (gateway : GatewayObject)
    (backends : List (String × RiftgateBackendSpec)) (routes : List (String × RiftgateRouteSpec)) (n : Nat) : Prop :=
  ∃ m, m ≤ n ∧ BackendsRead past obj gateway backends m ∧ HeldAt past n fun c => c.routes obj.ns = routes

/-- From time `m` to time `n` the routes are gone through. Each adds the lines of its Secret at its time. The `missed`
ones name a Secret that could not be had, and add nothing. -/
inductive KeysRead (sha256 : List Byte → List Byte) (past : List Cluster) (ns : String) (m : Nat) :
    List (String × RiftgateRouteSpec) → List (String × RiftgateRouteSpec) → Table String String → Nat → Prop where
  | start : KeysRead sha256 past ns m [] [] ∅ m
  | read {missed routes : List (String × RiftgateRouteSpec)} {keys : Table String String} {n k : Nat} {c : Cluster}
      (route : String × RiftgateRouteSpec) : KeysRead sha256 past ns m missed routes keys n → n ≤ k →
        past[k]? = some c →
        KeysRead sha256 past ns m missed (routes ++ [route]) (insertRoute sha256 (c.secrets ns) keys route.2) k
  | failed {missed routes : List (String × RiftgateRouteSpec)} {keys : Table String String} {n : Nat}
      (route : String × RiftgateRouteSpec) : route.2.secretRef ≠ none → KeysRead sha256 past ns m missed routes keys n →
        KeysRead sha256 past ns m (missed ++ [route]) (routes ++ [route]) keys n

/-- The text of a reconcile of `obj` that has read one thing after the other. -/
def Rendered (debug : String → String) (sha256 : List Byte → List Byte) (past : List Cluster)
    (missed : List (String × RiftgateRouteSpec)) (obj : ObjectRef) (tomlConfig : String) : Prop :=
  ∃ gateway backends routes keys m n, RoutesRead past obj gateway backends routes m ∧
    KeysRead sha256 past obj.ns m missed routes keys n ∧
    tomlConfig = renderConfig debug gateway.spec backends routes keys

variable {past : List Cluster} {obj : ObjectRef} {gateway : GatewayObject}
  {backends : List (String × RiftgateBackendSpec)} {missed routes : List (String × RiftgateRouteSpec)}
  {keys : Table String String} {m n : Nat}

theorem HeldAt.lt {p : Cluster → Prop} (h : HeldAt past n p) : n < past.length := by
  obtain ⟨c, hc, -⟩ := h
  exact (List.getElem?_eq_some_iff.mp hc).1

theorem HeldAt.append {p : Cluster → Prop} (h : HeldAt past n p) (later : List Cluster) :
    HeldAt (past ++ later) n p := by
  obtain ⟨c, hc, hp⟩ := h
  exact ⟨c, by rw [List.getElem?_append_left (HeldAt.lt ⟨c, hc, hp⟩), hc], hp⟩

theorem BackendsRead.append (h : BackendsRead past obj gateway backends n) (later : List Cluster) :
    BackendsRead (past ++ later) obj gateway backends n := by
  obtain ⟨m, hm, hgateway, hbackends⟩ := h
  exact ⟨m, hm, hgateway.append later, hbackends.append later⟩

theorem RoutesRead.append (h : RoutesRead past obj gateway backends routes n) (later : List Cluster) :
    RoutesRead (past ++ later) obj gateway backends routes n := by
  obtain ⟨m, hm, hbackends, hroutes⟩ := h
  exact ⟨m, hm, hbackends.append later, hroutes.append later⟩

theorem KeysRead.append {ns : String} (h : KeysRead sha256 past ns m missed routes keys n) (later : List Cluster) :
    KeysRead sha256 (past ++ later) ns m missed routes keys n := by
  induction h with
  | start => exact .start
  | read route _ hk hc ih =>
    refine .read route ih hk ?_
    rw [List.getElem?_append_left (List.getElem?_eq_some_iff.mp hc).1, hc]
  | failed route href _ ih => exact .failed route href ih

theorem Rendered.append {tomlConfig : String} (h : Rendered debug sha256 past missed obj tomlConfig)
    (later : List Cluster) :
    Rendered debug sha256 (past ++ later) missed obj tomlConfig := by
  obtain ⟨gateway, backends, routes, keys, m, n, hroutes, hkeys, htext⟩ := h
  exact ⟨gateway, backends, routes, keys, m, n, hroutes.append later, hkeys.append later, htext⟩

theorem KeysRead.lt {ns : String} (h : KeysRead sha256 past ns m missed routes keys n) (hm : m < past.length) :
    n < past.length := by
  induction h with
  | start => exact hm
  | read _ _ _ hc _ => exact (List.getElem?_eq_some_iff.mp hc).1
  | failed _ _ _ ih => exact ih

theorem insertRoute_unread {getSecret : String → Option Secret} {route : RiftgateRouteSpec}
    (h : secretContent getSecret route = none) (keys : Table String String) :
    insertRoute sha256 getSecret keys route = keys := by
  unfold insertRoute
  rw [h]

theorem secretContent_noRef (getSecret : String → Option Secret) {route : RiftgateRouteSpec}
    (h : route.secretRef = none) : secretContent getSecret route = none := by
  unfold RiftgateRouteSpec.secretRef at h
  unfold secretContent
  cases hmt : route.multitenancy with
  | none => rfl
  | some mt =>
    rw [hmt, Option.bind_some] at h
    rw [Option.bind_some, h]
    rfl

theorem secretContent_failed (route : RiftgateRouteSpec) : secretContent (fun _ => none) route = none := by
  unfold secretContent
  simp

/-! ## Every reconcile -/

/-- Where what a reconcile has read is from. -/
def Call.Recorded (debug : String → String) (sha256 : List Byte → List Byte) (past : List Cluster)
    (missed : List (String × RiftgateRouteSpec)) (obj : ObjectRef) (gateway : GatewayObject) : Call → Prop
  | .listBackends => missed = [] ∧ ∃ n, GatewayRead past obj gateway n
  | .listRoutes backends => missed = [] ∧ ∃ n, BackendsRead past obj gateway backends n
  | .getSecrets backends routes left keys => ∃ m n done, RoutesRead past obj gateway backends routes m ∧
      routes = done ++ left ∧ KeysRead sha256 past obj.ns m missed done keys n
  | .patchConfigMap tomlConfig => Rendered debug sha256 past missed obj tomlConfig
  | .patchDeployment | .patchStatus => True

theorem Call.Recorded.append {call : Call} (h : call.Recorded debug sha256 past missed obj gateway)
    (later : List Cluster) :
    call.Recorded debug sha256 (past ++ later) missed obj gateway := by
  unfold Call.Recorded at *
  cases call with
  | listBackends =>
    obtain ⟨hnone, n, hn⟩ := h
    exact ⟨hnone, n, hn.append later⟩
  | listRoutes backends =>
    obtain ⟨hnone, n, hn⟩ := h
    exact ⟨hnone, n, hn.append later⟩
  | getSecrets backends routes left keys =>
    obtain ⟨m, n, done, hroutes, hdone, hkeys⟩ := h
    exact ⟨m, n, done, hroutes.append later, hdone, hkeys.append later⟩
  | patchConfigMap tomlConfig => exact Rendered.append h later
  | patchDeployment => trivial
  | patchStatus => trivial

structure Recorded (debug : String → String) (sha256 : List Byte → List Byte) (s : Controllers) : Prop where
  last : ∃ n, s.past.length = n + 1 ∧ s.past[n]? = some s.cluster
  cache : ∀ obj gateway, s.cache obj = some gateway → ∃ n, GatewayRead s.past obj gateway n
  tasks : ∀ t task, s.tasks t = some task →
    task.call.Recorded debug sha256 s.past (s.missed t) task.obj task.gateway
  written : ∀ w ∈ s.written, ∃ obj : ObjectRef, w.1 = obj.configMap ∧ Rendered debug sha256 s.past w.2.2 obj w.2.1

variable {s s' : Controllers}

theorem Recorded.endTask (h : Recorded debug sha256 s) (t : Nat) : Recorded debug sha256 (s.setTask t none) := by
  refine ⟨h.last, h.cache, fun t' task ht' => ?_, h.written⟩
  rcases of_update_eq_some ht' with hold | hnone
  · exact h.tasks t' task hold
  · cases hnone

theorem Recorded.nextTask (h : Recorded debug sha256 s) (t : Nat) (missed : List (String × RiftgateRouteSpec))
    {obj : ObjectRef} {gateway : GatewayObject} {call : Call}
    (hcall : call.Recorded debug sha256 s.past missed obj gateway) :
    Recorded debug sha256
      ({ s with missed := Function.update s.missed t missed }.setTask t (some ⟨obj, gateway, call⟩)) := by
  refine ⟨h.last, h.cache, fun t' task ht' => ?_, h.written⟩
  show task.call.Recorded debug sha256 s.past (Function.update s.missed t missed t') task.obj task.gateway
  have ht' : Function.update s.tasks t (some ⟨obj, gateway, call⟩) t' = some task := ht'
  by_cases ht : t' = t
  · rw [ht, Function.update_self] at ht' ⊢
    obtain rfl := Option.some.inj ht'
    exact hcall
  · rw [Function.update_of_ne ht] at ht' ⊢
    exact h.tasks t' task ht'

theorem Recorded.goOn (h : Recorded debug sha256 s) (t : Nat) {obj : ObjectRef} {gateway : GatewayObject}
    {call : Call} (hcall : call.Recorded debug sha256 s.past (s.missed t) obj gateway) :
    Recorded debug sha256 (s.setTask t (some ⟨obj, gateway, call⟩)) := by
  have hnext := h.nextTask t (s.missed t) hcall
  rwa [Function.update_eq_self] at hnext

theorem Recorded.applyConfigMap (h : Recorded debug sha256 s) {t : Nat} {obj : ObjectRef} {tomlConfig : String}
    (htext : Rendered debug sha256 s.past (s.missed t) obj tomlConfig) :
    Recorded debug sha256 (s.applyConfigMap t obj tomlConfig) := by
  refine ⟨h.last, h.cache, h.tasks, fun w hw => ?_⟩
  rcases List.mem_append.mp hw with hold | hnew
  · exact h.written w hold
  · obtain rfl := List.mem_singleton.mp hnew
    exact ⟨obj, rfl, htext⟩

theorem Recorded.now (h : Recorded debug sha256 s) (p : Cluster → Prop) (hp : p s.cluster) :
    ∃ n, HeldAt s.past n p ∧ ∀ m, m < s.past.length → m ≤ n := by
  obtain ⟨n, hlength, hlast⟩ := h.last
  exact ⟨n, ⟨s.cluster, hlast, hp⟩, fun m hm => by omega⟩

/-- One route is gone through. Its Secret is read as it is now, or the route is missed. -/
theorem Recorded.getSecret (h : Recorded debug sha256 s) {t : Nat} {ns : String} {done : List (String × RiftgateRouteSpec)}
    (hkeys : KeysRead sha256 s.past ns m (s.missed t) done keys n) (hm : m < s.past.length)
    (route : String × RiftgateRouteSpec) (answer : Answer) :
    ∃ k, KeysRead sha256 s.past ns m ((s.recordGet t route answer).missed t) (done ++ [route])
      (insertRoute sha256 (if answer = .ok then s.cluster.secrets ns else fun _ => none) keys route.2) k := by
  obtain ⟨k, ⟨c, hc, rfl⟩, hk⟩ := h.now (fun c => c = s.cluster) rfl
  have hread := hkeys.read route (hk n (hkeys.lt hm)) hc
  unfold Controllers.recordGet
  by_cases hok : answer = .ok
  · rw [if_pos hok, if_pos (Or.inl hok)]
    exact ⟨k, hread⟩
  by_cases href : route.2.secretRef = none
  · rw [if_pos (Or.inr href), insertRoute_unread (secretContent_noRef _ href)]
    rw [insertRoute_unread (secretContent_noRef _ href)] at hread
    exact ⟨k, hread⟩
  · rw [if_neg hok, if_neg (not_or.mpr ⟨hok, href⟩), insertRoute_unread (secretContent_failed route.2)]
    refine ⟨n, ?_⟩
    show KeysRead sha256 s.past ns m (Function.update s.missed t (s.missed t ++ [route]) t) _ _ _
    rw [Function.update_self]
    exact hkeys.failed route href

theorem recordGet_eq (s : Controllers) (t : Nat) (route : String × RiftgateRouteSpec) (answer : Answer) :
    s.recordGet t route answer =
      { s with missed := Function.update s.missed t ((s.recordGet t route answer).missed t) } := by
  unfold Controllers.recordGet
  split
  · rw [Function.update_eq_self]
  · simp only [Function.update_self]

theorem Recorded.afterCall (h : Recorded debug sha256 s) {t : Nat} {task : Task} (ht : s.tasks t = some task)
    (answer : Answer) : Recorded debug sha256 (s.afterCall debug sha256 t task answer) := by
  have hcall := h.tasks t task ht
  obtain ⟨obj, gateway, call⟩ := task
  cases call with
  | listBackends =>
    obtain ⟨hnone, m, hgateway⟩ := hcall
    obtain ⟨n, hbackends, hn⟩ := h.now (fun c => c.backends obj.ns = s.cluster.backends obj.ns) rfl
    cases answer with
    | ok => exact h.goOn t ⟨hnone, n, m, hn m (HeldAt.lt hgateway), hgateway, hbackends⟩
    | failed => exact h.endTask t
    | lost => exact h.endTask t
  | listRoutes backends =>
    obtain ⟨hnone, m, hread⟩ := hcall
    obtain ⟨n, hroutes, hn⟩ := h.now (fun c => c.routes obj.ns = s.cluster.routes obj.ns) rfl
    have hm : m < s.past.length := by
      obtain ⟨-, -, -, hbackends⟩ := hread
      exact hbackends.lt
    cases answer with
    | ok =>
      refine h.goOn t ⟨n, n, [], ⟨m, hn m hm, hread, hroutes⟩, rfl, ?_⟩
      rw [hnone]
      exact .start
    | failed => exact h.endTask t
    | lost => exact h.endTask t
  | getSecrets backends routes left keys =>
    obtain ⟨m, n, done, hread, hdone, hkeys⟩ := hcall
    cases left with
    | nil =>
      rw [List.append_nil] at hdone
      subst hdone
      exact h.goOn t ⟨gateway, backends, routes, keys, m, n, hread, hkeys, rfl⟩
    | cons route left =>
      have hdone' : routes = (done ++ [route]) ++ left := by rw [hdone, List.append_assoc, List.singleton_append]
      have hm : m < s.past.length := by
        obtain ⟨-, -, -, hroutes⟩ := hread
        exact hroutes.lt
      obtain ⟨k, hkeys'⟩ := h.getSecret hkeys hm route answer
      show Recorded debug sha256 ((s.recordGet t route answer).setTask t _)
      rw [recordGet_eq]
      exact h.nextTask t _ ⟨m, k, done ++ [route], hread, hdone', hkeys'⟩
  | patchConfigMap tomlConfig =>
    cases answer with
    | ok => exact (h.applyConfigMap hcall).goOn t trivial
    | failed => exact h.endTask t
    | lost => exact (h.applyConfigMap hcall).endTask t
  | patchDeployment =>
    have happlied : Recorded debug sha256 (s.applyDeployment obj gateway) := ⟨h.last, h.cache, h.tasks, h.written⟩
    cases answer with
    | ok => exact happlied.goOn t trivial
    | failed => exact h.endTask t
    | lost => exact happlied.endTask t
  | patchStatus =>
    have hreturned : Recorded debug sha256 (s.returnOk obj) := ⟨h.last, h.cache, h.tasks, h.written⟩
    exact hreturned.endTask t

theorem Recorded.step (h : Recorded debug sha256 s) {a : Label} (hstep : s.step debug sha256 a = some s') :
    Recorded debug sha256 s' := by
  cases a with
  | edit cluster =>
    cases hstep
    refine ⟨⟨s.past.length, ?_, ?_⟩, fun obj gateway hcached => ?_, fun t task ht => ?_, fun w hw => ?_⟩
    · exact List.length_append
    · show (s.past ++ [cluster])[s.past.length]? = some cluster
      rw [List.getElem?_append_right le_rfl, Nat.sub_self]
      rfl
    · obtain ⟨n, hgateway⟩ := h.cache obj gateway hcached
      exact ⟨n, hgateway.append [cluster]⟩
    · exact (h.tasks t task ht).append [cluster]
    · obtain ⟨obj, hobj, hrendered⟩ := h.written w hw
      exact ⟨obj, hobj, hrendered.append [cluster]⟩
  | meddle managed =>
    cases hstep
    exact ⟨h.last, h.cache, h.tasks, h.written⟩
  | observe obj =>
    cases hstep
    refine ⟨h.last, fun obj' gateway hcached => ?_, h.tasks, h.written⟩
    have hcached : Function.update s.cache obj (s.cluster.gateways obj) obj' = some gateway := hcached
    by_cases hobj : obj' = obj
    · rw [hobj, Function.update_self] at hcached
      obtain ⟨n, hn, -⟩ := h.now (fun c => c.gateways obj' = some gateway) (hobj ▸ hcached)
      exact ⟨n, hn⟩
    · rw [Function.update_of_ne hobj] at hcached
      exact h.cache obj' gateway hcached
  | start t obj =>
    simp only [Controllers.step] at hstep
    split at hstep
    case h_2 => cases hstep
    rename_i hcached
    cases hstep
    exact h.nextTask t [] ⟨rfl, h.cache obj _ hcached⟩
  | stop t =>
    cases hstep
    exact h.endTask t
  | call t answer =>
    simp only [Controllers.step, Option.map_eq_some_iff] at hstep
    obtain ⟨task, ht, rfl⟩ := hstep
    exact h.afterCall ht _

theorem reachable_recorded {cluster : Cluster} (hs : (controllers debug sha256 cluster).Reachable s) :
    Recorded debug sha256 s := by
  refine Machine.Reachable.invariant ?_ (fun _ _ _ h hstep => h.step hstep) hs
  exact ⟨⟨0, rfl, rfl⟩, fun _ _ hnone => (nomatch hnone), fun _ _ hnone => (nomatch hnone), List.forall_mem_nil _⟩

/-! ## Where no Secret is missed -/

/-- The Secrets that a reconcile asks for can be had. -/
def GetsAnswered (s : Controllers) : Label → Prop
  | .call t answer => ∀ obj gateway backends routes route left keys,
    s.tasks t = some ⟨obj, gateway, .getSecrets backends routes (route :: left) keys⟩ →
      route.2.secretRef ≠ none → answer = .ok
  | _ => True

structure NoneMissed (s : Controllers) : Prop where
  tasks : ∀ t, s.missed t = []
  written : ∀ w ∈ s.written, w.2.2 = []

theorem NoneMissed.applyConfigMap (h : NoneMissed s) (t : Nat) (obj : ObjectRef) (tomlConfig : String) :
    NoneMissed (s.applyConfigMap t obj tomlConfig) := by
  refine ⟨h.tasks, fun w hw => ?_⟩
  rcases List.mem_append.mp hw with hold | hnew
  · exact h.written w hold
  · rw [List.mem_singleton.mp hnew]
    exact h.tasks t

theorem NoneMissed.afterCall (h : NoneMissed s) {t : Nat} {task : Task} (ht : s.tasks t = some task)
    {answer : Answer} (hgets : GetsAnswered s (.call t answer)) :
    NoneMissed (s.afterCall debug sha256 t task (s.answered task answer)) := by
  obtain ⟨obj, gateway, call⟩ := task
  cases call with
  | getSecrets backends routes left keys =>
    cases left with
    | nil => exact ⟨h.tasks, h.written⟩
    | cons route left =>
      have hrecorded : answer = .ok ∨ route.2.secretRef = none := by
        by_cases href : route.2.secretRef = none
        · exact .inr href
        · exact .inl (hgets obj gateway backends routes route left keys ht href)
      have hkept : (s.recordGet t route answer).missed = s.missed := if_pos hrecorded
      refine ⟨fun t' => ?_, h.written⟩
      show (s.recordGet t route answer).missed t' = []
      rw [hkept]
      exact h.tasks t'
  | patchConfigMap tomlConfig =>
    have happlied := h.applyConfigMap t obj tomlConfig
    cases s.answered _ answer with
    | ok => exact ⟨happlied.tasks, happlied.written⟩
    | failed => exact ⟨h.tasks, h.written⟩
    | lost => exact ⟨happlied.tasks, happlied.written⟩
  | _ => cases s.answered _ answer <;> exact ⟨h.tasks, h.written⟩

theorem NoneMissed.step (h : NoneMissed s) {a : Label} (hgets : GetsAnswered s a)
    (hstep : s.step debug sha256 a = some s') : NoneMissed s' := by
  cases a with
  | start t obj =>
    simp only [Controllers.step] at hstep
    split at hstep
    case h_2 => cases hstep
    cases hstep
    refine ⟨fun t' => ?_, h.written⟩
    show Function.update s.missed t [] t' = []
    by_cases ht : t' = t
    · rw [ht, Function.update_self]
    · rw [Function.update_of_ne ht, h.tasks t']
  | call t answer =>
    simp only [Controllers.step, Option.map_eq_some_iff] at hstep
    obtain ⟨task, ht, rfl⟩ := hstep
    exact h.afterCall ht hgets
  | _ =>
    cases hstep
    exact ⟨h.tasks, h.written⟩

/-- **A ConfigMap shows one namespace, one thing after the other.** Whatever is edited and however many reconciles are
under way, each text that was applied went to the ConfigMap of its gateway and is made of the gateway as it once was,
the backends of its namespace as they were then or later, the routes as they were after that, and the lines of each
route's Secret as they were after the route before it. Only the routes that its reconcile has missed are left out, and
none is missed where the Secrets can always be had. -/
theorem written_in_order {cluster : Cluster} (hs : (controllers debug sha256 cluster).Reachable s) :
    (∀ w ∈ s.written, ∃ obj : ObjectRef, w.1 = obj.configMap ∧ Rendered debug sha256 s.past w.2.2 obj w.2.1) ∧
    ((controllers debug sha256 cluster).Reach GetsAnswered s → ∀ w ∈ s.written, w.2.2 = []) := by
  refine ⟨(reachable_recorded hs).written, fun hanswered => ?_⟩
  have hnone : NoneMissed s := by
    refine Machine.Reach.invariant ?_ (fun _ _ _ _ h hgets hstep => h.step hgets hstep) hanswered
    exact ⟨fun _ => rfl, List.forall_mem_nil _⟩
  exact hnone.written

def keysSecret (content : String) (name : String) : Option Secret :=
  if name = "keys" then some ⟨some (Table.collect [("keys", bytesOf content)])⟩ else none

/-- A gateway, and two routes whose API keys are in Secrets. The second one is not there. -/
def acmeCluster (content : String) : Cluster where
  gateways := fun obj => if obj = ⟨"default", "prod"⟩ then some ⟨"riftgate:v1", 2, ⟨"0.0.0.0:80", "", "info"⟩⟩ else none
  routes := fun _ => [("acme", { multitenancy := some ⟨some ⟨"keys", "keys"⟩⟩ }),
    ("beta", { multitenancy := some ⟨some ⟨"gone", "keys"⟩⟩ })]
  secrets := fun _ => keysSecret content

def Label.answered : Label → Bool
  | .call _ answer => decide (answer = .ok)
  | _ => true

theorem getsAnswered_of_answered (s : Controllers) (a : Label) (h : a.answered = true) : GetsAnswered s a := by
  cases a with
  | call t answer => exact fun _ _ _ _ _ _ _ _ _ => of_decide_eq_true h
  | _ => trivial

/-- The key is replaced while a reconcile is under way, then its Secret is asked for. The Deployment has not been
applied yet. -/
def replacedKey (answer : Answer) : List Label :=
  [.observe ⟨"default", "prod"⟩, .start 0 ⟨"default", "prod"⟩, .call 0 .ok, .call 0 .ok,
    .edit (acmeCluster "sha256:bb=acme"), .call 0 answer, .call 0 .ok, .call 0 .ok, .call 0 .ok]

theorem replacedKey_in_order :
    (∃ s : Controllers, s.written.length = 1 ∧
      (∀ w ∈ s.written, ∃ obj : ObjectRef, w.1 = obj.configMap ∧ Rendered id id s.past w.2.2 obj w.2.1) ∧
      ∀ w ∈ s.written, w.2.2 = []) ∧
    ∃ s : Controllers, s.written.map (fun w => w.2.2.map Prod.fst) = [["acme"]] ∧
      ∀ w ∈ s.written, ∃ obj : ObjectRef, w.1 = obj.configMap ∧ Rendered id id s.past w.2.2 obj w.2.1 := by
  constructor
  · have hrun : (((controllers id id (acmeCluster "sha256:aa=acme")).restrict fun _ a => a.answered).run
        (replacedKey .ok)).map (fun s => decide (s.written.length = 1)) = some true := rfl
    obtain ⟨s, hs, hp⟩ := Machine.exists_of_restrict (C := GetsAnswered)
      (fun s a _ ha => getsAnswered_of_answered s a ha) hrun
    obtain ⟨hrendered, hnone⟩ := written_in_order (hs.mono fun _ _ _ => trivial)
    exact ⟨s, of_decide_eq_true hp, hrendered, hnone hs⟩
  · have hrun : ((controllers id id (acmeCluster "sha256:aa=acme")).run (replacedKey .failed)).map
        (fun s => decide (s.written.map (fun w => w.2.2.map Prod.fst) = [["acme"]])) = some true := rfl
    obtain ⟨s, hs, hp⟩ := Machine.exists_of_run hrun
    exact ⟨s, of_decide_eq_true hp, (written_in_order hs).1⟩

end Riftgate.Operator
