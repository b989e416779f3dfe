import ClusterController.Request

/-!
# Extensions of API objects

The functions of `utils::traits`: status access, finalizers, annotations of nodes and of
virtual machines.
-/

namespace ClusterController

open ApiServer (StringMap Key KubeError Resource)
open Interaction (Program)

variable {κ : Kind}

/-! ## All objects -/

/-- `name_prefixed_with_namespace` for an object of the given key -/
def namePrefixedWithNamespace (k : Key) : String := k.ns ++ "-" ++ k.name

/-- The status of an object, or an error that names the object. -/
def tryStatus (o : Object κ) : Except Error κ.Status :=
  match o.status with
  | some status => .ok status
  | none => .error (.noStatusSubresource
      (κ.name ++ "/" ++ o.metadata.name ++ " in ns " ++ o.metadata.ns ++ " has no status"))

/-- Send the whole object. The answer is dropped: the local copy keeps its version. -/
def commit (o : Object κ) (writer : Writer) : Prog Unit := do
  let _ ← kubeCall (.replace κ o writer)

/-- The function that `create_set_status_namespaced!` defines. The answer is dropped, and
the local copy keeps its version and its status. -/
def setStatus (o : Object κ) (status : κ.Status) (writer : Writer) : Prog Unit := do
  let _ ← kubeCall (.replaceStatus κ o.key o.version status writer)

/-- The name of a finalizer of this project. -/
def finalizerName (finalizer : String) : String := groupName ++ "/" ++ finalizer

def hasFinalizer (o : Object κ) (finalizer : String) : Bool :=
  o.metadata.finalizers.contains finalizer

/-- The object with the finalizer appended. -/
def addFinalizer (o : Object κ) (finalizer : String) : Object κ :=
  { o with metadata := { o.metadata with finalizers := o.metadata.finalizers ++ [finalizer] } }

/-- The object without the finalizer. -/
def dropFinalizer (o : Object κ) (finalizer : String) : Object κ :=
  { o with metadata :=
    { o.metadata with finalizers := o.metadata.finalizers.filter (· ≠ finalizer) } }

/-- Register the finalizer. The result is the local copy as it is afterwards. -/
def ensureFinalizer (o : Object κ) (finalizer : String) : Prog (Object κ) := do
  if !hasFinalizer o (finalizerName finalizer) then
    let o := addFinalizer o (finalizerName finalizer)
    commit o (.ensureFinalizer finalizer)
    return o
  else return o

/-- Unregister the finalizer. The result is the local copy as it is afterwards. -/
def removeFinalizer (o : Object κ) (finalizer : String) : Prog (Object κ) := do
  if hasFinalizer o (finalizerName finalizer) then
    let o := dropFinalizer o (finalizerName finalizer)
    commit o (.removeFinalizer finalizer)
    return o
  else return o

/-! ## Nodes -/

inductive OvnCentralManagement : Type
  | managed
  | unmanaged
  | notPresent
deriving DecidableEq

/-- An annotation or label in lower case. -/
def lowerValue (m : StringMap) (key : String) : Option String := (m.get key).map String.toLower

def inMaintenanceMode (node : Node) : Bool :=
  lowerValue node.metadata.annotations maintenanceAnnotation = some "true"

def allowsScheduling (node : Node) : Bool :=
  lowerValue node.metadata.annotations noScheduleAnnotation ≠ some "true"

def ovnCentralStatus (node : Node) : OvnCentralManagement :=
  match lowerValue node.metadata.labels ovnCentralManagedLabel with
  | some v =>
    if v = "managed" then .managed else if v = "unmanaged" then .unmanaged else .notPresent
  | none => .notPresent

def ovnCentralAnnotatedIp (node : Node) : Option String :=
  node.metadata.annotations.get ovnCentralIpAnnotation

def internalIp (node : Node) : Option String := do
  let status ← node.status
  let addresses ← status.addresses
  let address ← addresses.find? fun addr => addr.type = "InternalIP"
  return address.address

/-! ## Virtual machines -/

def migrationRequestedFrom (vm : VirtualMachine) : Option String :=
  vm.metadata.annotations.get migrationRequestAnnotation

/-- The VM with the migration annotation set to a node. -/
def annotateMigration (vm : VirtualMachine) (node : String) : VirtualMachine :=
  { vm with metadata := { vm.metadata with
      annotations := vm.metadata.annotations.insert migrationRequestAnnotation node } }

/-- The VM without the migration annotation. -/
def dropMigrationRequest (vm : VirtualMachine) : VirtualMachine :=
  { vm with metadata := { vm.metadata with
      annotations := vm.metadata.annotations.remove migrationRequestAnnotation } }

def requestMigrationAwayFrom (vm : VirtualMachine) (sourceNode : Node) : Prog Unit :=
  commit (annotateMigration vm sourceNode.metadata.name) .requestMigrationAwayFrom

def clearMigrationRequest (vm : VirtualMachine) : Prog Unit :=
  commit (dropMigrationRequest vm) .clearMigrationRequest

end ClusterController
