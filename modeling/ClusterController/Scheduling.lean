import ClusterController.Kube

/-!
# Scheduling

`virtualmachine::scheduling` and the node controller: which node a VM is placed on, when
it has to move, and the migration requests for the VMs of a node in maintenance.
-/

namespace ClusterController

open ApiServer (StringMap Key KubeError Resource)
open Interaction (Program)

/-! ## Anti-affinity groups -/

/-- All VMs with the label set to the value. -/
def getVmsWithLabel (label value : String) : Prog (List VirtualMachine) :=
  kubeList .virtualMachine (some (label, value))

/-- All VMs except the VM itself in its anti-affinity group. -/
def getOthersInAffinityGroup (refVm : VirtualMachine) : Prog (List VirtualMachine) := do
  match refVm.metadata.labels.get antiAffinityLabel with
  | some group =>
    let vms ← getVmsWithLabel antiAffinityLabel group
    return vms.filter fun vm => namePrefixedWithNamespace vm.key ≠ namePrefixedWithNamespace refVm.key
  | none => return []

/-- The node the VM is scheduled to run on. -/
def getVmNode (vm : VirtualMachine) : Option String := vm.status.bind (·.node)

/-- The VM is scheduled to the node of another member of its group. -/
def isUncompliant (vm : VirtualMachine) : Prog Bool := do
  let status ← tryStatus vm
  if status.scheduled then
    let antiAffinityMembers ← getOthersInAffinityGroup vm
    return antiAffinityMembers.any fun otherVm =>
      (getVmNode vm).isSome && getVmNode vm = getVmNode otherVm
  else return false

/-! ## Migration requests -/

/-- The migration annotation names the node the VM is scheduled to. An annotation with
another node, such as after a migration, does not count. -/
def migrationRequested (vm : VirtualMachine) : Bool :=
  match migrationRequestedFrom vm with
  | some nodeToLeave => getVmNode vm = some nodeToLeave
  | none => false

/-- Clear an annotation that names another node than that of the local copy. -/
def clearSuccessfulMigration (vm : VirtualMachine) : Prog Unit := do
  match migrationRequestedFrom vm with
  | some nodeToLeave =>
    onlyIf (getVmNode vm ≠ some nodeToLeave) (clearMigrationRequest vm)
  | none => return ()

/-! ## Placement -/

/-- The nodes of the scheduled VMs with the label set to the value. -/
def getNodesWithLabelScheduled (label value : String) : Prog (List String) := do
  let vmsScheduled ← getVmsWithLabel label value
  return vmsScheduled.filterMap getVmNode

def removeCandidateNodes (candidates : List Node) (nodesToRemove : List String) : List Node :=
  nodesToRemove.foldl
    (fun candidates nodeToRemove => candidates.filter fun c => c.metadata.name ≠ nodeToRemove)
    candidates

def removeNodesInMaintenance (candidates : List Node) : List Node :=
  candidates.filter fun c => !inMaintenanceMode c

def removeNodesWithNoSchedule (candidates : List Node) : List Node :=
  candidates.filter allowsScheduling

/-- The nodes that the anti-affinity group of the VM occupies, its own node included. -/
def blockedNodes (vm : VirtualMachine) (ignoreAffinity : Bool) : Prog (List String) := do
  if !ignoreAffinity then
    match vm.metadata.labels.get antiAffinityLabel with
    | some group => getNodesWithLabelScheduled antiAffinityLabel group
    | none => return []
  else return []

/-- The candidates for a VM that its spec does not pin, before anti-affinity. -/
def openCandidates (vm : VirtualMachine) (candidates : List Node) : List Node :=
  let candidates := removeNodesWithNoSchedule candidates
  match migrationRequestedFrom vm with
  | some sourceNode => removeCandidateNodes candidates [sourceNode]
  | none => candidates

/-- Find a node for the VM. With `ignoreAffinity` the anti-affinity rules are bypassed. -/
def schedule (vm : VirtualMachine) (ignoreAffinity : Bool) : Prog Node := do
  ask (.scheduleSpan ignoreAffinity)
  let nodes ← kubeList .node none
  let candidates := removeNodesInMaintenance nodes
  match vm.spec.node with
  | some requestedNode =>
    match candidates.find? fun c => c.metadata.name = requestedNode with
    | some node => return node
    | none => .fail (.scheduleFailed
        (vm.metadata.name ++ " requested node " ++ requestedNode ++ " which is not available"))
  | none =>
    let candidates := openCandidates vm candidates
    let blocked ← blockedNodes vm ignoreAffinity
    match (← choose (removeCandidateNodes candidates blocked)) with
    | some node => return node
    | none => .fail (.scheduleFailed vm.metadata.name)

/-! ## The node controller -/

/-- Ask every VM on the node to move. A list that fails is no error. -/
def requestRescheduleNodeVms (node : Node) : Prog Unit := do
  match (← (kubeList .virtualMachine none).attempt) with
  | .ok list =>
    Program.forEach list fun vm => do
      let status ← tryStatus vm
      onlyIf (status.node = some node.metadata.name) (requestMigrationAwayFrom vm node)
  | .error _ => return ()

/-- `update_fn` of the node controller. Its `delete_fn` does nothing. -/
def updateNode (node : Node) : Prog Unit := do
  onlyIf (inMaintenanceMode node) (requestRescheduleNodeVms node)

end ClusterController
