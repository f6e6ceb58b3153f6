import Mathlib.Data.String.Basic
import Riftgate.Lib.Runs
import Riftgate.Code.Reconciler

/-!
# The operator converges

A reconcile reads its objects one after the other, while others edit them. What it writes is right once nothing that
it reads has changed since it began.
-/

open Lib

namespace Riftgate.Operator

open Mcp Proxy

/-! ## What a gateway should have -/

def desiredText (debug : String → String) (sha256 : List Byte → List Byte) (cluster : Cluster) (ns : String)
    (gateway : GatewayObject) : String :=
  renderConfig debug gateway.spec (cluster.backends ns) (cluster.routes ns)
    (collectApiKeys sha256 (cluster.secrets ns) (cluster.routes ns))

structure Converged (debug : String → String) (sha256 : List Byte → List Byte) (s : Controllers) (obj : ObjectRef)
    (gateway : GatewayObject) : Prop where
  current : s.cluster.gateways obj = some gateway
  configMap : s.configMaps obj.configMap = some (desiredText debug sha256 s.cluster obj.ns gateway)
  deployment : s.deployments obj = some (deployPatch obj.name gateway)

/-- The clusters differ in nothing that the reconcile of `obj` reads. -/
structure SameFor (obj : ObjectRef) (c c' : Cluster) : Prop where
  gateway : c'.gateways obj = c.gateways obj
  backends : c'.backends obj.ns = c.backends obj.ns
  routes : c'.routes obj.ns = c.routes obj.ns
  secrets : ∀ route ∈ c.routes obj.ns,
    secretContent (c'.secrets obj.ns) route.2 = secretContent (c.secrets obj.ns) route.2

/-- Nor do these differ in what it applies, or in who owns it. -/
structure SameManaged (obj : ObjectRef) (m m' : Managed) : Prop where
  configMap : m'.configMaps obj.configMap = m.configMaps obj.configMap
  deployment : m'.deployments obj = m.deployments obj
  heldConfigMap : m'.heldConfigMaps obj.configMap = m.heldConfigMaps obj.configMap
  heldDeployment : m'.heldDeployments obj = m.heldDeployments obj

/-- Nobody changes what the reconcile of `obj` reads or writes or who owns it, and the Secrets that it asks for can be
had. Its other calls may fail, it may be stopped, and everything else may change. -/
def Quiet (obj : ObjectRef) (s : Controllers) : Label → Prop
  | .edit cluster => SameFor obj s.cluster cluster
  | .meddle managed => SameManaged obj s.toManaged managed
  | .call t answer => ∀ gateway backends routes left keys,
    s.tasks t = some ⟨obj, gateway, .getSecrets backends routes left keys⟩ → answer = .ok
  | _ => True

variable {debug : String → String} {sha256 : List Byte → List Byte}

theorem configMap_inj {obj obj' : ObjectRef} (h : obj.configMap = obj'.configMap) : obj = obj' := by
  unfold ObjectRef.configMap cmName at h
  simp only [ObjectRef.mk.injEq] at h
  obtain ⟨hns, hname⟩ := h
  have hlist := congrArg String.toList hname
  simp only [String.toList_append, List.append_cancel_right_eq] at hlist
  cases obj
  cases obj'
  simp only [ObjectRef.mk.injEq]
  exact ⟨hns, String.toList_inj.mp hlist⟩

/-! ## Reading the Secrets -/

theorem collectApiKeys_concat (getSecret : String → Option Secret) (routes : List (String × RiftgateRouteSpec))
    (route : String × RiftgateRouteSpec) :
    collectApiKeys sha256 getSecret (routes ++ [route]) =
      insertRoute sha256 getSecret (collectApiKeys sha256 getSecret routes) route.2 := by
  unfold collectApiKeys apiKeyLines insertRoute
  cases hcontent : secretContent getSecret route.2 with
  | none => simp [hcontent]
  | some content => simp [hcontent, insertLines, Table.collect, List.foldl_map]

theorem collectApiKeys_congr {getSecret getSecret' : String → Option Secret}
    {routes : List (String × RiftgateRouteSpec)}
    (h : ∀ route ∈ routes, secretContent getSecret' route.2 = secretContent getSecret route.2) :
    collectApiKeys sha256 getSecret' routes = collectApiKeys sha256 getSecret routes := by
  unfold collectApiKeys apiKeyLines
  rw [List.filterMap_congr h]

/-! ## Who owns it -/

/-- Another field manager owns something that the reconcile of `obj` would have to change, or it is the selector. -/
def Blocked (debug : String → String) (sha256 : List Byte → List Byte) (s : Controllers) (obj : ObjectRef)
    (gateway : GatewayObject) : Prop :=
  s.configMapConflict obj (desiredText debug sha256 s.cluster obj.ns gateway) = true ∨
    s.deploymentConflict obj gateway = true

theorem agrees_self (d : Deployment) (field : DeploymentField) : d.agrees d field = true := by
  cases field <;> exact decide_eq_true rfl

theorem configMapConflict_of_eq {m : Managed} {obj : ObjectRef} {tomlConfig : String}
    (h : m.configMaps obj.configMap = some tomlConfig) : m.configMapConflict obj tomlConfig = false := by
  simp [Managed.configMapConflict, h]

theorem deploymentConflict_of_eq {m : Managed} {obj : ObjectRef} {gateway : GatewayObject}
    (h : m.deployments obj = some (deployPatch obj.name gateway)) : m.deploymentConflict obj gateway = false := by
  simp [Managed.deploymentConflict, h, agrees_self]

/-! ## What a reconcile knows -/

/-- What the reconcile has read and written is what is there. -/
def Call.Fresh (debug : String → String) (sha256 : List Byte → List Byte) (s : Controllers) (obj : ObjectRef)
    (gateway : GatewayObject) : Call → Prop
  | .listBackends => True
  | .listRoutes backends => backends = s.cluster.backends obj.ns
  | .getSecrets backends routes left keys =>
    backends = s.cluster.backends obj.ns ∧ routes = s.cluster.routes obj.ns ∧
      ∃ done, routes = done ++ left ∧ keys = collectApiKeys sha256 (s.cluster.secrets obj.ns) done
  | .patchConfigMap tomlConfig => tomlConfig = desiredText debug sha256 s.cluster obj.ns gateway
  | .patchDeployment => s.configMaps obj.configMap = some (desiredText debug sha256 s.cluster obj.ns gateway)
  | .patchStatus => Converged debug sha256 s obj gateway

/-- A reconcile of `obj` is under way with the gateway as it is, and knows what is there. -/
structure Task.Fresh (debug : String → String) (sha256 : List Byte → List Byte) (s : Controllers) (task : Task) :
    Prop where
  current : s.cluster.gateways task.obj = some task.gateway
  call : task.call.Fresh debug sha256 s task.obj task.gateway

/-- `s'` has what `s` has for `obj`, or what it should have, and the same owners. -/
structure Advances (debug : String → String) (sha256 : List Byte → List Byte) (obj : ObjectRef)
    (gateway : GatewayObject) (s s' : Controllers) : Prop where
  cluster : SameFor obj s.cluster s'.cluster
  configMap : s'.configMaps obj.configMap = s.configMaps obj.configMap ∨
    s'.configMaps obj.configMap = some (desiredText debug sha256 s.cluster obj.ns gateway)
  deployment : s'.deployments obj = s.deployments obj ∨ s'.deployments obj = some (deployPatch obj.name gateway)
  heldConfigMap : s'.heldConfigMaps obj.configMap = s.heldConfigMaps obj.configMap
  heldDeployment : s'.heldDeployments obj = s.heldDeployments obj

variable {obj : ObjectRef} {gateway : GatewayObject} {s s' : Controllers} {task : Task}

theorem SameFor.refl (obj : ObjectRef) (c : Cluster) : SameFor obj c c := ⟨rfl, rfl, rfl, fun _ _ => rfl⟩

theorem SameFor.symm {c c' : Cluster} (h : SameFor obj c c') : SameFor obj c' c := by
  refine ⟨h.gateway.symm, h.backends.symm, h.routes.symm, fun route hroute => (h.secrets route ?_).symm⟩
  rw [← h.routes]
  exact hroute

theorem SameFor.desiredText {c c' : Cluster} (h : SameFor obj c c') (gateway : GatewayObject) :
    desiredText debug sha256 c' obj.ns gateway = desiredText debug sha256 c obj.ns gateway := by
  unfold Operator.desiredText
  rw [h.backends, h.routes, collectApiKeys_congr h.secrets]

theorem Advances.configMap_desired (h : Advances debug sha256 obj gateway s s')
    (hs : s.configMaps obj.configMap = some (desiredText debug sha256 s.cluster obj.ns gateway)) :
    s'.configMaps obj.configMap = some (desiredText debug sha256 s'.cluster obj.ns gateway) := by
  rw [h.cluster.desiredText]
  rcases h.configMap with hkept | hnew
  · rw [hkept, hs]
  · exact hnew

theorem Advances.converged (h : Advances debug sha256 obj gateway s s') (hs : Converged debug sha256 s obj gateway) :
    Converged debug sha256 s' obj gateway := by
  refine ⟨by rw [h.cluster.gateway, hs.current], h.configMap_desired hs.configMap, ?_⟩
  rcases h.deployment with hkept | hnew
  · rw [hkept, hs.deployment]
  · exact hnew

theorem Advances.fresh (h : Advances debug sha256 task.obj task.gateway s s') (hs : task.Fresh debug sha256 s) :
    task.Fresh debug sha256 s' := by
  obtain ⟨hgateway, hcall⟩ := hs
  refine ⟨by rw [h.cluster.gateway, hgateway], ?_⟩
  obtain ⟨obj, gateway, call⟩ := task
  unfold Call.Fresh at *
  cases call with
  | listBackends => trivial
  | listRoutes backends => exact hcall.trans h.cluster.backends.symm
  | getSecrets backends routes left keys =>
    obtain ⟨hbackends, hroutes, done, hdone, hkeys⟩ := hcall
    refine ⟨hbackends.trans h.cluster.backends.symm, hroutes.trans h.cluster.routes.symm, done, hdone, ?_⟩
    rw [hkeys]
    refine (collectApiKeys_congr fun route hroute => h.cluster.secrets route ?_).symm
    rw [← hroutes, hdone]
    exact List.mem_append_left left hroute
  | patchConfigMap tomlConfig => exact hcall.trans (h.cluster.desiredText gateway).symm
  | patchDeployment => exact h.configMap_desired hcall
  | patchStatus => exact h.converged hcall

theorem Advances.of_same (hcluster : SameFor obj s.cluster s'.cluster)
    (hmanaged : SameManaged obj s.toManaged s'.toManaged) : Advances debug sha256 obj gateway s s' :=
  ⟨hcluster, .inl hmanaged.configMap, .inl hmanaged.deployment, hmanaged.heldConfigMap, hmanaged.heldDeployment⟩

theorem SameManaged.refl (obj : ObjectRef) (m : Managed) : SameManaged obj m m := ⟨rfl, rfl, rfl, rfl⟩

theorem SameManaged.symm {m m' : Managed} (h : SameManaged obj m m') : SameManaged obj m' m :=
  ⟨h.configMap.symm, h.deployment.symm, h.heldConfigMap.symm, h.heldDeployment.symm⟩

theorem Advances.of_eq (hcluster : s'.cluster = s.cluster) (hmanaged : s'.toManaged = s.toManaged) :
    Advances debug sha256 obj gateway s s' := by
  refine .of_same ?_ ?_
  · rw [hcluster]
    exact SameFor.refl obj _
  · rw [hmanaged]
    exact SameManaged.refl obj _

/-- What the reconcile has set itself is not in its way. -/
theorem Advances.blocked (h : Advances debug sha256 obj gateway s s')
    (hblocked : Blocked debug sha256 s' obj gateway) : Blocked debug sha256 s obj gateway := by
  rcases hblocked with hconflict | hconflict
  · left
    rw [h.cluster.desiredText] at hconflict
    rcases h.configMap with hkept | hnew
    · rwa [Managed.configMapConflict, hkept, h.heldConfigMap] at hconflict
    · rw [configMapConflict_of_eq hnew] at hconflict
      cases hconflict
  · right
    rcases h.deployment with hkept | hnew
    · rwa [Managed.deploymentConflict, hkept, h.heldDeployment] at hconflict
    · rw [deploymentConflict_of_eq hnew] at hconflict
      cases hconflict

/-! ## One step -/

namespace Controllers

variable (debug sha256)

theorem afterCall_cluster (s : Controllers) (t : Nat) (task : Task) (answer : Answer) :
    (s.afterCall debug sha256 t task answer).cluster = s.cluster ∧
      (s.afterCall debug sha256 t task answer).cache = s.cache := by
  unfold afterCall
  split <;> exact ⟨rfl, rfl⟩

theorem afterCall_tasks (s : Controllers) (t : Nat) (task : Task) (answer : Answer) :
    ∃ task' : Option Task, (∀ new ∈ task', new.obj = task.obj ∧ new.gateway = task.gateway) ∧
      (s.afterCall debug sha256 t task answer).tasks = Function.update s.tasks t task' := by
  unfold afterCall
  split <;> exact ⟨_, by simp, rfl⟩

theorem afterCall_other (s : Controllers) (t : Nat) (answer : Answer) (hobj : task.obj ≠ obj) :
    SameManaged obj s.toManaged (s.afterCall debug sha256 t task answer).toManaged ∧
      (s.afterCall debug sha256 t task answer).reconciled obj = s.reconciled obj := by
  have hconfigMap : obj.configMap ≠ task.obj.configMap := fun h => hobj (configMap_inj h).symm
  have happlied (tomlConfig : String) :
      (s.applyConfigMap t task.obj tomlConfig).configMaps obj.configMap = s.configMaps obj.configMap :=
    Function.update_of_ne hconfigMap _ _
  have hdeployed : (s.applyDeployment task.obj task.gateway).deployments obj = s.deployments obj :=
    Function.update_of_ne hobj.symm _ _
  unfold afterCall
  split
  all_goals refine ⟨⟨?_, ?_, rfl, rfl⟩, ?_⟩
  all_goals first | rfl | exact happlied _ | exact hdeployed | exact Function.update_of_ne hobj.symm _ _

end Controllers

theorem no_task {t : Nat} (s : Controllers) :
    ∀ new, (s.setTask t none).tasks t = some new → new.Fresh debug sha256 (s.setTask t none) := by
  intro new hnew
  simp [Controllers.setTask] at hnew

theorem next_task {t : Nat} (s : Controllers) (hcurrent : s.cluster.gateways obj = some gateway) {call : Call}
    (hcall : call.Fresh debug sha256 s obj gateway) :
    ∀ new, (s.setTask t (some ⟨obj, gateway, call⟩)).tasks t = some new →
      new.Fresh debug sha256 (s.setTask t (some ⟨obj, gateway, call⟩)) := by
  intro new hnew
  simp only [Controllers.setTask, Function.update_self, Option.some.injEq] at hnew
  subst hnew
  have hsame : Advances debug sha256 obj gateway s (s.setTask t (some ⟨obj, gateway, call⟩)) := .of_eq rfl rfl
  exact hsame.fresh ⟨hcurrent, hcall⟩

theorem Advances.setTask (h : Advances debug sha256 obj gateway s s') (t : Nat) (new : Option Task) :
    Advances debug sha256 obj gateway s (s'.setTask t new) :=
  ⟨h.cluster, h.configMap, h.deployment, h.heldConfigMap, h.heldDeployment⟩

theorem Advances.applyConfigMap (s : Controllers) (t : Nat) (obj : ObjectRef) (gateway : GatewayObject) :
    Advances debug sha256 obj gateway s
      (s.applyConfigMap t obj (desiredText debug sha256 s.cluster obj.ns gateway)) := by
  refine ⟨SameFor.refl obj _, .inr ?_, .inl rfl, rfl, rfl⟩
  exact Function.update_self _ _ _

theorem Advances.applyDeployment (s : Controllers) (obj : ObjectRef) (gateway : GatewayObject) :
    Advances debug sha256 obj gateway s (s.applyDeployment obj gateway) := by
  refine ⟨SameFor.refl obj _, .inl rfl, .inr ?_, rfl, rfl⟩
  exact Function.update_self _ _ _

/-- A call of the reconcile itself: it goes on knowing what is there, and when it returns `Ok` its work is done. -/
theorem Task.Fresh.afterCall (h : task.Fresh debug sha256 s) (t : Nat) (answer : Answer)
    (hok : ∀ backends routes left keys, task.call = .getSecrets backends routes left keys → answer = .ok) :
    Advances debug sha256 task.obj task.gateway s (s.afterCall debug sha256 t task answer) ∧
      (∀ new, (s.afterCall debug sha256 t task answer).tasks t = some new →
        new.Fresh debug sha256 (s.afterCall debug sha256 t task answer)) ∧
      ((s.afterCall debug sha256 t task answer).reconciled task.obj = s.reconciled task.obj ∨
        Converged debug sha256 s task.obj task.gateway) := by
  obtain ⟨obj, gateway, call⟩ := task
  obtain ⟨hcurrent, hcall⟩ := h
  cases call with
  | listBackends =>
    cases answer with
    | ok => exact ⟨.of_eq rfl rfl, next_task s hcurrent rfl, .inl rfl⟩
    | failed => exact ⟨.of_eq rfl rfl, no_task s, .inl rfl⟩
    | lost => exact ⟨.of_eq rfl rfl, no_task s, .inl rfl⟩
  | listRoutes backends =>
    cases answer with
    | ok => exact ⟨.of_eq rfl rfl, next_task s hcurrent ⟨hcall, rfl, [], rfl, rfl⟩, .inl rfl⟩
    | failed => exact ⟨.of_eq rfl rfl, no_task s, .inl rfl⟩
    | lost => exact ⟨.of_eq rfl rfl, no_task s, .inl rfl⟩
  | getSecrets backends routes left keys =>
    obtain rfl := hok backends routes left keys rfl
    obtain ⟨hbackends, hroutes, done, hdone, hkeys⟩ := hcall
    cases left with
    | nil =>
      refine ⟨.of_eq rfl rfl, next_task s hcurrent ?_, .inl rfl⟩
      rw [List.append_nil] at hdone
      show renderConfig _ _ _ _ _ = desiredText _ _ _ _ _
      unfold desiredText
      rw [hkeys, ← hdone, hroutes, hbackends]
    | cons route left =>
      refine ⟨.of_eq rfl rfl, next_task (s.recordGet t route .ok) hcurrent ⟨hbackends, hroutes, done ++ [route], ?_, ?_⟩, .inl rfl⟩
      · rw [hdone, List.append_assoc, List.singleton_append]
      · rw [collectApiKeys_concat, hkeys, if_pos rfl]
        rfl
  | patchConfigMap tomlConfig =>
    obtain rfl : tomlConfig = desiredText debug sha256 s.cluster obj.ns gateway := hcall
    have happlied : Advances debug sha256 obj gateway s
        (s.applyConfigMap t obj (desiredText debug sha256 s.cluster obj.ns gateway)) := .applyConfigMap s t obj gateway
    cases answer with
    | ok =>
      refine ⟨happlied.setTask t _, next_task (s.applyConfigMap t obj _) hcurrent ?_, .inl rfl⟩
      exact Function.update_self _ _ _
    | failed => exact ⟨.of_eq rfl rfl, no_task s, .inl rfl⟩
    | lost => exact ⟨happlied.setTask t none, no_task _, .inl rfl⟩
  | patchDeployment =>
    have happlied : Advances debug sha256 obj gateway s (s.applyDeployment obj gateway) :=
      .applyDeployment s obj gateway
    cases answer with
    | ok =>
      refine ⟨happlied.setTask t _, next_task (s.applyDeployment obj gateway) hcurrent ⟨hcurrent, hcall, ?_⟩, .inl rfl⟩
      exact Function.update_self _ _ _
    | failed => exact ⟨.of_eq rfl rfl, no_task s, .inl rfl⟩
    | lost => exact ⟨happlied.setTask t none, no_task _, .inl rfl⟩
  | patchStatus => exact ⟨.of_eq rfl rfl, no_task _, .inr hcall⟩

/-! ## Quiet runs -/

/-- Every reconcile of `obj` under way is fresh, and from the first that returns `Ok` on, all is as it should be. -/
structure Settling (debug : String → String) (sha256 : List Byte → List Byte) (obj : ObjectRef)
    (gateway : GatewayObject) (n : Nat) (s : Controllers) : Prop where
  current : s.cluster.gateways obj = some gateway
  cache : s.cache obj = some gateway
  tasks : ∀ t task, s.tasks t = some task → task.obj = obj → task.Fresh debug sha256 s
  done : n < s.reconciled obj → Converged debug sha256 s obj gateway

variable {n : Nat}

theorem Settling.gateway_eq (h : Settling debug sha256 obj gateway n s) {t : Nat} (ht : s.tasks t = some task)
    (hobj : task.obj = obj) : task.gateway = gateway := by
  have hcurrent := (h.tasks t task ht hobj).current
  rw [hobj, h.current] at hcurrent
  exact (Option.some.inj hcurrent).symm

theorem Settling.advance (h : Settling debug sha256 obj gateway n s)
    (hadvances : Advances debug sha256 obj gateway s s') (hcache : s'.cache obj = some gateway)
    (htasks : ∀ t task, s'.tasks t = some task → task.obj = obj →
      s.tasks t = some task ∨ task.Fresh debug sha256 s')
    (hdone : s'.reconciled obj = s.reconciled obj ∨ Converged debug sha256 s obj gateway) :
    Settling debug sha256 obj gateway n s' := by
  refine ⟨by rw [hadvances.cluster.gateway, h.current], hcache, fun t task ht hobj => ?_, fun hn => ?_⟩
  · rcases htasks t task ht hobj with hold | hnew
    · have hgateway := h.gateway_eq hold hobj
      subst hobj hgateway
      exact hadvances.fresh (h.tasks t task hold rfl)
    · exact hnew
  · refine hadvances.converged ?_
    rcases hdone with hsame | hconverged
    · exact h.done (hsame ▸ hn)
    · exact hconverged

theorem tasks_setTask {t : Nat} {new : Option Task} (hnew : ∀ task ∈ new, task.obj = obj → task.Fresh debug sha256 s')
    (htasks : s'.tasks = Function.update s.tasks t new) (t' : Nat) (task : Task) (ht' : s'.tasks t' = some task)
    (hobj : task.obj = obj) : s.tasks t' = some task ∨ task.Fresh debug sha256 s' := by
  rw [htasks] at ht'
  rcases of_update_eq_some ht' with hold | hcome
  · exact .inl hold
  · exact .inr (hnew task hcome hobj)

theorem Controllers.answered_secrets {backends : List (String × RiftgateBackendSpec)}
    {routes left : List (String × RiftgateRouteSpec)} {keys : Table String String}
    (hcall : task.call = .getSecrets backends routes left keys) (answer : Answer) :
    s.answered task answer = answer := by
  simp [answered, conflicts, hcall]

theorem Settling.call (h : Settling debug sha256 obj gateway n s) {t : Nat} {answer : Answer}
    (hquiet : Quiet obj s (.call t answer)) (ht : s.tasks t = some task) :
    Settling debug sha256 obj gateway n (s.afterCall debug sha256 t task (s.answered task answer)) := by
  have hok : task.obj = obj → ∀ backends routes left keys, task.call = .getSecrets backends routes left keys →
      s.answered task answer = .ok := by
    rintro rfl backends routes left keys hcall
    rw [Controllers.answered_secrets hcall]
    exact hquiet task.gateway backends routes left keys (by rw [ht, ← hcall])
  generalize s.answered task answer = answer at hok ⊢
  obtain ⟨hcluster, hcacheEq⟩ := Controllers.afterCall_cluster debug sha256 s t task answer
  obtain ⟨new, hnew, htasks⟩ := Controllers.afterCall_tasks debug sha256 s t task answer
  have hcache : (s.afterCall debug sha256 t task answer).cache obj = some gateway := by rw [hcacheEq, h.cache]
  by_cases hobj : task.obj = obj
  · have hgateway := h.gateway_eq ht hobj
    have hfresh := h.tasks t task ht hobj
    subst hobj hgateway
    obtain ⟨hadvances, hnext, hdone⟩ := hfresh.afterCall t answer (hok rfl)
    refine h.advance hadvances hcache (tasks_setTask (fun task' htask' _ => hnext task' ?_) htasks) hdone
    rw [htasks, Function.update_self]
    exact htask'
  · obtain ⟨hmanaged, hreconciled⟩ := Controllers.afterCall_other debug sha256 s t answer hobj
    have hsame : SameFor obj s.cluster (s.afterCall debug sha256 t task answer).cluster := by
      rw [hcluster]
      exact SameFor.refl obj _
    refine h.advance (.of_same hsame hmanaged) hcache (tasks_setTask (fun task' htask' hobj' => ?_) htasks) (.inl hreconciled)
    exact absurd ((hnew task' htask').1.symm.trans hobj') hobj

theorem Settling.step (h : Settling debug sha256 obj gateway n s) {a : Label} (hquiet : Quiet obj s a)
    (hstep : s.step debug sha256 a = some s') : Settling debug sha256 obj gateway n s' := by
  cases a with
  | edit cluster =>
    cases hstep
    exact h.advance (.of_same hquiet (SameManaged.refl obj _)) h.cache (fun _ _ ht _ => .inl ht) (.inl rfl)
  | meddle managed =>
    cases hstep
    exact h.advance (.of_same (SameFor.refl obj _) hquiet) h.cache (fun _ _ ht _ => .inl ht) (.inl rfl)
  | observe obj' =>
    cases hstep
    refine h.advance (.of_eq rfl rfl) ?_ (fun _ _ ht _ => .inl ht) (.inl rfl)
    show Function.update s.cache obj' (s.cluster.gateways obj') obj = some gateway
    by_cases hobj : obj = obj'
    · rw [← hobj, Function.update_self, h.current]
    · rw [Function.update_of_ne hobj, h.cache]
  | start t obj' =>
    simp only [Controllers.step] at hstep
    split at hstep
    case h_2 => cases hstep
    rename_i cached _ hcached
    cases hstep
    refine h.advance (.of_eq rfl rfl) h.cache (tasks_setTask (fun task htask hobj => ?_) rfl) (.inl rfl)
    obtain rfl := Option.some.inj htask
    obtain rfl : obj' = obj := hobj
    obtain rfl : cached = gateway := Option.some.inj (hcached.symm.trans h.cache)
    exact ⟨h.current, trivial⟩
  | stop t =>
    cases hstep
    exact h.advance (.of_eq rfl rfl) h.cache (tasks_setTask (fun _ hnone => by cases hnone) rfl) (.inl rfl)
  | call t answer =>
    simp only [Controllers.step, Option.map_eq_some_iff] at hstep
    obtain ⟨task, ht, rfl⟩ := hstep
    exact h.call hquiet ht

/-! ## A reconcile that is answered -/

/-- How many calls are left, where the namespace has so many routes. -/
def Call.left (routes : Nat) : Call → Nat
  | .listBackends => routes + 6
  | .listRoutes _ => routes + 5
  | .getSecrets _ _ left _ => left.length + 4
  | .patchConfigMap _ => 3
  | .patchDeployment => 2
  | .patchStatus => 1

theorem afterCall_left (s : Controllers) (t : Nat) (task : Task) :
    task.call = .patchStatus ∨
      ∃ call, (s.afterCall debug sha256 t task .ok).tasks t = some { task with call := call } ∧
        (s.afterCall debug sha256 t task .ok).reconciled = s.reconciled ∧
        task.call.left (s.cluster.routes task.obj.ns).length = call.left (s.cluster.routes task.obj.ns).length + 1 := by
  obtain ⟨obj, gateway, call⟩ := task
  cases call with
  | listBackends => exact .inr ⟨_, Function.update_self _ _ _, rfl, rfl⟩
  | listRoutes backends => exact .inr ⟨_, Function.update_self _ _ _, rfl, rfl⟩
  | getSecrets backends routes left keys =>
    cases left with
    | nil => exact .inr ⟨_, Function.update_self _ _ _, rfl, rfl⟩
    | cons route left =>
      refine .inr ⟨_, Function.update_self _ _ _, rfl, ?_⟩
      simp only [Call.left, List.length_cons]
  | patchConfigMap tomlConfig => exact .inr ⟨_, Function.update_self _ _ _, rfl, rfl⟩
  | patchDeployment => exact .inr ⟨_, Function.update_self _ _ _, rfl, rfl⟩
  | patchStatus => exact .inl rfl

theorem setTask_task (s : Controllers) (t : Nat) (task : Task) : (s.setTask t (some task)).tasks t = some task :=
  Function.update_self _ _ _

theorem Task.Fresh.answered_ok (h : task.Fresh debug sha256 s)
    (hfree : ¬ Blocked debug sha256 s task.obj task.gateway) : s.answered task .ok = .ok := by
  have hno : s.conflicts task = false := by
    rw [Bool.eq_false_iff]
    refine fun hconflict => hfree ?_
    obtain ⟨obj, gateway, call⟩ := task
    cases call with
    | patchConfigMap tomlConfig =>
      obtain rfl : tomlConfig = desiredText debug sha256 s.cluster obj.ns gateway := h.call
      exact .inl hconflict
    | patchDeployment => exact .inr hconflict
    | _ => cases hconflict
  rw [Controllers.answered, if_neg (by simp [hno])]

theorem run_left (cluster : Cluster) {left : Nat} (h : Settling debug sha256 obj gateway n s)
    (hfree : ¬ Blocked debug sha256 s obj gateway) {t : Nat} (ht : s.tasks t = some task) (hobj : task.obj = obj)
    (hleft : task.call.left (s.cluster.routes obj.ns).length = left) :
    ∃ s', (controllers debug sha256 cluster).runFrom s (List.replicate left (.call t .ok)) = some s' ∧
      s'.reconciled obj = s.reconciled obj + 1 := by
  induction left generalizing s task with
  | zero =>
    unfold Call.left at hleft
    split at hleft <;> omega
  | succ left ih =>
    have hfresh := h.tasks t task ht hobj
    obtain rfl := h.gateway_eq ht hobj
    subst hobj
    have hanswered := hfresh.answered_ok hfree
    have hstep : (controllers debug sha256 cluster).step s (.call t .ok) =
        some (s.afterCall debug sha256 t task .ok) := by
      show Option.map _ _ = _
      rw [ht, Option.map_some, hanswered]
    rw [List.replicate_succ]
    rcases afterCall_left s t task with hlast | ⟨call, htask, hreconciled, hcall⟩
    · obtain rfl : left = 0 := by
        rw [hlast] at hleft
        simpa [Call.left] using hleft.symm
      obtain ⟨obj, gateway, call⟩ := task
      obtain rfl : call = .patchStatus := hlast
      exact ⟨_, Machine.runFrom_cons.mpr ⟨_, hstep, rfl⟩, Function.update_self _ _ _⟩
    · obtain ⟨hcluster, -⟩ := Controllers.afterCall_cluster debug sha256 s t task .ok
      have hnext := h.step (a := .call t .ok) (fun _ _ _ _ _ _ => rfl) hstep
      have hadvances := (hfresh.afterCall t .ok fun _ _ _ _ _ => rfl).1
      obtain ⟨s', hrun, hs'⟩ := ih hnext (fun hblocked => hfree (hadvances.blocked hblocked)) htask rfl (by
        rw [hcluster]
        exact Nat.succ.inj (hcall.symm.trans hleft))
      refine ⟨s', Machine.runFrom_cons.mpr ⟨_, hstep, hrun⟩, ?_⟩
      rw [hs', hreconciled]

theorem exists_reconcile (cluster : Cluster) {t : Nat} (h : Settling debug sha256 obj gateway n s)
    (hfree : ¬ Blocked debug sha256 s obj gateway) (hidle : s.tasks t = none) :
    ∃ as s', (∀ a ∈ as, ∀ s, Quiet obj s a) ∧ (controllers debug sha256 cluster).runFrom s as = some s' ∧
      s'.reconciled obj = s.reconciled obj + 1 := by
  obtain ⟨s₁, hstart, htask, hcluster, hmanaged, hreconciled⟩ : ∃ s₁,
      (controllers debug sha256 cluster).step s (.start t obj) = some s₁ ∧
      s₁.tasks t = some ⟨obj, gateway, .listBackends⟩ ∧ s₁.cluster = s.cluster ∧ s₁.toManaged = s.toManaged ∧
      s₁.reconciled = s.reconciled := by
    refine ⟨{ s with missed := Function.update s.missed t [] }.setTask t (some ⟨obj, gateway, .listBackends⟩), ?_,
      setTask_task _ _ _, rfl, rfl, rfl⟩
    show Controllers.step debug sha256 s (.start t obj) = _
    simp only [Controllers.step, hidle, h.cache]
  have hsettling : Settling debug sha256 obj gateway n s₁ := h.step (a := .start t obj) trivial hstart
  have hadvances : Advances debug sha256 obj gateway s s₁ := .of_eq hcluster hmanaged
  obtain ⟨s', hrun, hs'⟩ := run_left cluster hsettling (fun hblocked => hfree (hadvances.blocked hblocked)) htask rfl rfl
  refine ⟨_, s', fun a ha s => ?_, Machine.runFrom_cons.mpr ⟨_, hstart, hrun⟩, by rw [hs', hreconciled]⟩
  rcases List.mem_cons.mp ha with rfl | ha
  · trivial
  · rw [List.eq_of_mem_replicate ha]
    exact fun _ _ _ _ _ _ => rfl

/-! ## A reconcile that is blocked -/

theorem Task.Fresh.blocked (h : task.Fresh debug sha256 s) (hblocked : Blocked debug sha256 s task.obj task.gateway)
    (t : Nat) (answer : Answer) :
    Blocked debug sha256 (s.afterCall debug sha256 t task (s.answered task answer)) task.obj task.gateway ∧
      (s.afterCall debug sha256 t task (s.answered task answer)).reconciled task.obj = s.reconciled task.obj := by
  have hconflict : s.conflicts task = true → s.answered task answer = .failed := by
    intro htrue
    rw [Controllers.answered, if_pos htrue]
  obtain ⟨obj, gateway, call⟩ := task
  obtain ⟨-, hcall⟩ := h
  cases call with
  | listBackends => cases s.answered _ answer <;> exact ⟨hblocked, rfl⟩
  | listRoutes backends => cases s.answered _ answer <;> exact ⟨hblocked, rfl⟩
  | getSecrets backends routes left keys => cases left <;> exact ⟨hblocked, rfl⟩
  | patchConfigMap tomlConfig =>
    obtain rfl : tomlConfig = desiredText debug sha256 s.cluster obj.ns gateway := hcall
    rcases hblocked with hconfigMap | hdeployment
    · rw [hconflict hconfigMap]
      exact ⟨.inl hconfigMap, rfl⟩
    · cases s.answered _ answer <;> exact ⟨.inr hdeployment, rfl⟩
  | patchDeployment =>
    have hdeployment := hblocked.resolve_left (by simp [configMapConflict_of_eq hcall])
    rw [hconflict hdeployment]
    exact ⟨hblocked, rfl⟩
  | patchStatus =>
    have hconverged : Converged debug sha256 s obj gateway := hcall
    rcases hblocked with hconfigMap | hdeployment
    · rw [configMapConflict_of_eq hconverged.configMap] at hconfigMap
      cases hconfigMap
    · rw [deploymentConflict_of_eq hconverged.deployment] at hdeployment
      cases hdeployment

theorem Settling.blocked (h : Settling debug sha256 obj gateway n s) (hblocked : Blocked debug sha256 s obj gateway)
    {a : Label} (hquiet : Quiet obj s a) (hstep : s.step debug sha256 a = some s') :
    Blocked debug sha256 s' obj gateway ∧ s'.reconciled obj = s.reconciled obj := by
  have hsame {s' : Controllers} (hcluster : SameFor obj s.cluster s'.cluster)
      (hmanaged : SameManaged obj s.toManaged s'.toManaged) : Blocked debug sha256 s' obj gateway :=
    (Advances.of_same hcluster.symm hmanaged.symm).blocked hblocked
  cases a with
  | edit cluster =>
    cases hstep
    exact ⟨hsame hquiet (SameManaged.refl obj _), rfl⟩
  | meddle managed =>
    cases hstep
    exact ⟨hsame (SameFor.refl obj _) hquiet, rfl⟩
  | observe obj' =>
    cases hstep
    exact ⟨hblocked, rfl⟩
  | start t obj' =>
    simp only [Controllers.step] at hstep
    split at hstep
    case h_2 => cases hstep
    cases hstep
    exact ⟨hblocked, rfl⟩
  | stop t =>
    cases hstep
    exact ⟨hblocked, rfl⟩
  | call t answer =>
    simp only [Controllers.step, Option.map_eq_some_iff] at hstep
    obtain ⟨task, ht, rfl⟩ := hstep
    by_cases hobj : task.obj = obj
    · obtain rfl := h.gateway_eq ht hobj
      subst hobj
      exact (h.tasks t task ht rfl).blocked hblocked t answer
    · obtain ⟨hmanaged, hreconciled⟩ :=
        Controllers.afterCall_other debug sha256 s t (s.answered task answer) hobj
      refine ⟨hsame ?_ hmanaged, hreconciled⟩
      rw [(Controllers.afterCall_cluster debug sha256 s t task _).1]
      exact SameFor.refl obj _

theorem bounded_update {α : Type} {f : Nat → Option α} (h : ∃ m, ∀ t, m ≤ t → f t = none) (t : Nat) (new : Option α) :
    ∃ m, ∀ t', m ≤ t' → Function.update f t new t' = none := by
  obtain ⟨m, hm⟩ := h
  refine ⟨m + t + 1, fun t' ht' => ?_⟩
  have hne : t' ≠ t := by omega
  rw [Function.update_of_ne hne]
  exact hm t' (by omega)

theorem tasks_bounded {cluster : Cluster} (hs : (controllers debug sha256 cluster).Reachable s) :
    ∃ m, ∀ t, m ≤ t → s.tasks t = none := by
  refine Machine.Reachable.invariant (I := fun s => ∃ m, ∀ t, m ≤ t → s.tasks t = none) ⟨0, fun _ _ => rfl⟩
    (fun s a s' h hstep => ?_) hs
  have hstep : s.step debug sha256 a = some s' := hstep
  cases a with
  | edit cluster =>
    cases hstep
    exact h
  | meddle managed =>
    cases hstep
    exact h
  | observe obj =>
    cases hstep
    exact h
  | start t obj =>
    simp only [Controllers.step] at hstep
    split at hstep
    case h_2 => cases hstep
    cases hstep
    exact bounded_update h t _
  | stop t =>
    cases hstep
    exact bounded_update h t none
  | call t answer =>
    simp only [Controllers.step, Option.map_eq_some_iff] at hstep
    obtain ⟨task, ht, rfl⟩ := hstep
    obtain ⟨new, -, htasks⟩ := Controllers.afterCall_tasks debug sha256 s t task (s.answered task answer)
    rw [htasks]
    exact bounded_update h t new

def prod : ObjectRef := ⟨"default", "prod"⟩

def prodGateway : GatewayObject := ⟨"riftgate:v1", 2, ⟨"0.0.0.0:80", "", "info"⟩⟩

def prodCluster (routes : List (String × RiftgateRouteSpec)) : Cluster where
  gateways := fun obj => if obj = prod then some prodGateway else none
  backends := fun _ => [("llm", ⟨some "http://llm:8000", 30000⟩)]
  routes := fun _ => routes

/-- An older Deployment, whose replicas an autoscaler owns, and a ConfigMap that somebody wrote and no field manager
owns. -/
def scaled : Managed where
  configMaps := Function.update (fun _ => none) prod.configMap (some "# by hand")
  deployments := Function.update (fun _ => none) prod
    (some { deployPatch prod.name prodGateway with image := "riftgate:v0" })
  heldDeployments := Function.update (fun _ => []) prod [.replicas]

/-- A route is added while a reconcile has the routes already, and the replica is killed. -/
def editedAndKilled : List Label :=
  [.meddle scaled, .observe prod, .start 0 prod, .call 0 .ok, .call 0 .ok,
    .edit (prodCluster [("acme", { mcp := some {} })]), .stop 0]

end Riftgate.Operator
