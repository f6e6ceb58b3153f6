import Mathlib.Logic.Function.Basic
import Riftgate.Lib.Machine
import Riftgate.Code.Operator

/-!
# Reconciling: `riftgate-operator/src/reconciler.rs`

`reconcile_riftgate` cut at its calls of the Kubernetes API, for any gateways, namespaces and replicas of the operator:
nothing takes the leader lock. A list or a get shows the objects of that moment, or it fails. The gateway itself is
from the cache of the watch. All replicas apply under one name of a field manager, and without force.
-/

open Lib

namespace Riftgate.Operator

open Mcp Proxy

/-! ## Objects -/

structure ObjectRef where
  ns : String
  name : String
  deriving DecidableEq, Repr

/-- A `Riftgate`: beside what is rendered, it has what the Deployment is made of. -/
structure GatewayObject where
  image : String
  replicas : ℤ
  spec : RiftgateSpec
  deriving DecidableEq, Repr

structure Cluster where
  gateways : ObjectRef → Option GatewayObject := fun _ => none
  backends : String → List (String × RiftgateBackendSpec) := fun _ => []
  routes : String → List (String × RiftgateRouteSpec) := fun _ => []
  secrets : String → String → Option Secret := fun _ _ => none

structure Deployment where
  managedBy : String
  replicas : ℤ
  app : String
  image : String
  args : List String
  containerPort : Nat
  mountPath : String
  configMap : String
  deriving DecidableEq, Repr

def cmName (name : String) : String := name ++ "-config"

def ObjectRef.configMap (obj : ObjectRef) : ObjectRef := ⟨obj.ns, cmName obj.name⟩

def deployPatch (name : String) (gateway : GatewayObject) : Deployment where
  managedBy := "riftgate-operator"
  replicas := gateway.replicas
  app := name
  image := gateway.image
  args := ["--config", "/etc/riftgate/riftgate.toml"]
  containerPort := 8080
  mountPath := "/etc/riftgate"
  configMap := cmName name

/-! ## Server-side apply -/

/-- What another field manager can own. The port and the mount are keys of their lists: others have other entries. -/
inductive DeploymentField where
  | managedBy
  | replicas
  | app
  | image
  | args
  | configMap
  deriving DecidableEq, Repr

def Deployment.agrees (d d' : Deployment) : DeploymentField → Bool
  | .managedBy => d.managedBy = d'.managedBy
  | .replicas => d.replicas = d'.replicas
  | .app => d.app = d'.app
  | .image => d.image = d'.image
  | .args => d.args = d'.args
  | .configMap => d.configMap = d'.configMap

/-- What the operator applies, and what of it other field managers own. -/
structure Managed where
  /-- The entry `riftgate.toml` of each. -/
  configMaps : ObjectRef → Option String := fun _ => none
  deployments : ObjectRef → Option Deployment := fun _ => none
  heldConfigMaps : ObjectRef → Bool := fun _ => false
  heldDeployments : ObjectRef → List DeploymentField := fun _ => []

/-- Another field manager owns the entry, and has another text there. -/
def Managed.configMapConflict (m : Managed) (obj : ObjectRef) (tomlConfig : String) : Bool :=
  m.heldConfigMaps obj.configMap && (m.configMaps obj.configMap).any fun text => decide (text ≠ tomlConfig)

/-- The selector of a Deployment cannot be changed, whoever owns it. -/
def Managed.deploymentConflict (m : Managed) (obj : ObjectRef) (gateway : GatewayObject) : Bool :=
  (m.deployments obj).any fun d =>
    (.app :: m.heldDeployments obj).any fun field => !d.agrees (deployPatch obj.name gateway) field

/-! ## The state -/

/-- The next call of a reconcile, with what it has read. `getSecrets` has the routes that are left. -/
inductive Call where
  | listBackends
  | listRoutes (backends : List (String × RiftgateBackendSpec))
  | getSecrets (backends : List (String × RiftgateBackendSpec)) (routes left : List (String × RiftgateRouteSpec))
      (keys : Table String String)
  | patchConfigMap (tomlConfig : String)
  | patchDeployment
  | patchStatus

structure Task where
  obj : ObjectRef
  gateway : GatewayObject
  call : Call

structure Controllers extends Managed where
  cluster : Cluster
  cache : ObjectRef → Option GatewayObject := fun _ => none
  tasks : Nat → Option Task := fun _ => none
  /-- How many reconciles have returned `Ok`. The program does not keep this. -/
  reconciled : ObjectRef → Nat := fun _ => 0
  /-- All clusters so far, the last one at the end. The program does not keep this. -/
  past : List Cluster
  /-- The routes of the reconcile whose Secret could not be had. The program does not keep this. -/
  missed : Nat → List (String × RiftgateRouteSpec) := fun _ => []
  /-- What was applied to ConfigMaps, and what was missed for it. The program does not keep this. -/
  written : List (ObjectRef × String × List (String × RiftgateRouteSpec)) := []

/-- A call that is `lost` is carried out, but the operator sees an error. -/
inductive Answer where
  | ok
  | failed
  | lost
  deriving DecidableEq, Repr

/-- Others edit what the operator reads, and `meddle` with what it writes, or with who owns it. A task may `stop` with
its replica. -/
inductive Label where
  | edit (cluster : Cluster)
  | meddle (managed : Managed)
  | observe (obj : ObjectRef)
  | start (t : Nat) (obj : ObjectRef)
  | stop (t : Nat)
  | call (t : Nat) (answer : Answer)

/-! ## reconcile_riftgate -/

/-- The Secret that a route names. -/
def RiftgateRouteSpec.secretRef (route : RiftgateRouteSpec) : Option SecretKeyRef :=
  route.multitenancy.bind fun mt => mt.apiKeySecretRef

/-- The lines of one Secret. -/
def insertLines (sha256 : List Byte → List Byte) (keys : Table String String) (content : String) :
    Table String String :=
  ((lines content.toList).filterMap apiKeyLine).foldl
    (fun keys p => keys.insert (storedKey sha256 p.1) (String.ofList p.2)) keys

/-- A route without a Secret, or whose Secret cannot be had, is passed over. -/
def insertRoute (sha256 : List Byte → List Byte) (getSecret : String → Option Secret) (keys : Table String String)
    (route : RiftgateRouteSpec) : Table String String :=
  match secretContent getSecret route with
  | some content => insertLines sha256 keys content
  | none => keys

namespace Controllers

variable (debug : String → String) (sha256 : List Byte → List Byte)

def setTask (s : Controllers) (t : Nat) (task : Option Task) : Controllers :=
  { s with tasks := Function.update s.tasks t task }

def applyConfigMap (s : Controllers) (t : Nat) (obj : ObjectRef) (tomlConfig : String) : Controllers :=
  { s with
    configMaps := Function.update s.configMaps obj.configMap (some tomlConfig)
    written := s.written ++ [(obj.configMap, tomlConfig, s.missed t)] }

def applyDeployment (s : Controllers) (obj : ObjectRef) (gateway : GatewayObject) : Controllers :=
  { s with deployments := Function.update s.deployments obj (some (deployPatch obj.name gateway)) }

def returnOk (s : Controllers) (obj : ObjectRef) : Controllers :=
  { s with reconciled := Function.update s.reconciled obj (s.reconciled obj + 1) }

/-- The get of a route's Secret was answered. A route that names none has no get. -/
def recordGet (s : Controllers) (t : Nat) (route : String × RiftgateRouteSpec) (answer : Answer) : Controllers :=
  { s with missed :=
      if answer = .ok ∨ route.2.secretRef = none then s.missed
      else Function.update s.missed t (s.missed t ++ [route]) }

/-- The API server does not take this apply. -/
def conflicts (s : Controllers) (task : Task) : Bool :=
  match task.call with
  | .patchConfigMap tomlConfig => s.configMapConflict task.obj tomlConfig
  | .patchDeployment => s.deploymentConflict task.obj task.gateway
  | _ => false

/-- An apply with a conflict is answered with an error. What else the API server may have against it is in `answer`. -/
def answered (s : Controllers) (task : Task) (answer : Answer) : Answer :=
  if s.conflicts task then .failed else answer

/-- What comes after a call. An error ends the reconcile, but not one of a Secret, nor one of the status. -/
def afterCall (s : Controllers) (t : Nat) (task : Task) (answer : Answer) : Controllers :=
  let next := fun call => some { task with call := call }
  match task.call, answer with
  | .listBackends, .ok => s.setTask t (next (.listRoutes (s.cluster.backends task.obj.ns)))
  | .listRoutes backends, .ok =>
    let routes := s.cluster.routes task.obj.ns
    s.setTask t (next (.getSecrets backends routes routes ∅))
  | .getSecrets backends routes (route :: left) keys, answer =>
    let getSecret := if answer = .ok then s.cluster.secrets task.obj.ns else fun _ => none
    (s.recordGet t route answer).setTask t
      (next (.getSecrets backends routes left (insertRoute sha256 getSecret keys route.2)))
  | .getSecrets backends routes [] keys, _ =>
    s.setTask t (next (.patchConfigMap (renderConfig debug task.gateway.spec backends routes keys)))
  | .patchConfigMap tomlConfig, .ok => (s.applyConfigMap t task.obj tomlConfig).setTask t (next .patchDeployment)
  | .patchConfigMap tomlConfig, .lost => (s.applyConfigMap t task.obj tomlConfig).setTask t none
  | .patchDeployment, .ok => (s.applyDeployment task.obj task.gateway).setTask t (next .patchStatus)
  | .patchDeployment, .lost => (s.applyDeployment task.obj task.gateway).setTask t none
  | .patchStatus, _ => (s.returnOk task.obj).setTask t none
  | _, _ => s.setTask t none

def step (s : Controllers) : Label → Option Controllers
  | .edit cluster => some { s with cluster := cluster, past := s.past ++ [cluster] }
  | .meddle managed => some { s with toManaged := managed }
  | .observe obj => some { s with cache := Function.update s.cache obj (s.cluster.gateways obj) }
  | .start t obj =>
    match s.tasks t, s.cache obj with
    | none, some gateway =>
      some ({ s with missed := Function.update s.missed t [] }.setTask t (some ⟨obj, gateway, .listBackends⟩))
    | _, _ => none
  | .stop t => some (s.setTask t none)
  | .call t answer => (s.tasks t).map fun task => s.afterCall debug sha256 t task (s.answered task answer)

end Controllers

theorem of_update_eq_some {α : Type} {f : Nat → Option α} {t t' : Nat} {new : Option α} {a : α}
    (h : Function.update f t new t' = some a) : f t' = some a ∨ new = some a := by
  by_cases ht : t' = t
  · rw [ht, Function.update_self] at h
    exact .inr h
  · rw [Function.update_of_ne ht] at h
    exact .inl h

def controllers (debug : String → String) (sha256 : List Byte → List Byte) (cluster : Cluster) :
    Machine Controllers Label where
  init := { cluster := cluster, past := [cluster] }
  step := Controllers.step debug sha256

end Riftgate.Operator
