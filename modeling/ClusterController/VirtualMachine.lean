import ClusterController.Scheduling

/-!
# The VM controller

`virtualmachine::utils` and `virtualmachine::vm`: a reconcile initializes the status,
fills the NICs and the UUID, and schedules the VM.
-/

namespace ClusterController

open ApiServer (StringMap Key KubeError Resource)
open Interaction (Program)

variable [Crates]

/-! ## NICs -/

def macPrefix : String := "52:54:00"

/-- A byte in hexadecimal digits, without a leading zero. -/
def hexByte (b : UInt8) : String := String.ofList (Nat.toDigits 16 b.toNat)

/-- A MAC address from a hash of the VM, its network or bridge and the index of the NIC. -/
def generateMacAddress (vmName : String) (nic : NetworkAttachment) (index : Nat) :
    Except String String :=
  match nic.name.or nic.bridge with
  | some target =>
    let hash := Crates.sha256 (vmName.toUTF8.toList ++ target.toUTF8.toList ++ [UInt8.ofNat index])
    .ok (macPrefix ++ ":" ++ hexByte (hash 29) ++ ":" ++ hexByte (hash 30) ++ ":" ++ hexByte (hash 31))
  | none => .error "bridge or network name should be set"

/-- The first attachment with the same target: the network name, or the bridge for an
attachment without a name. -/
def findMatchingNetwork (list : List NetworkAttachment) (network : NetworkAttachment) :
    Except String (Option NetworkAttachment) :=
  if network.name.isSome then
    .ok (list.find? fun candidate => candidate.name = network.name)
  else if network.bridge.isSome then
    .ok (list.find? fun candidate => candidate.bridge = network.bridge)
  else .error "A network with neither name nor bridge should not exist"

/-- What a network of type EVPN sets in the status of a NIC. -/
def fillEvpn (nicStatus : NetworkAttachment) (network : Network) : NetworkAttachment :=
  { nicStatus with
    bridge := network.spec.bridge
    untaggedVlan := network.spec.networkId.map UInt64.toUInt16 }

/-- The port ID of a NIC on an OVN network. -/
def fillOvnId (nicSpec nicStatus : NetworkAttachment) : Prog NetworkAttachment := do
  if nicSpec.ovnId.isSome then return { nicStatus with ovnId := nicSpec.ovnId }
  else if nicStatus.ovnId.isNone then
    let id ← newV4
    return { nicStatus with ovnId := some id }
  else return nicStatus

/-- The status entry that a NIC starts from: that of the same target, or a new one. -/
def startNic (nicSpec : NetworkAttachment) (found : Option NetworkAttachment) : NetworkAttachment :=
  found.getD { NetworkAttachment.default with name := nicSpec.name, bridge := nicSpec.bridge }

/-- The MAC address of a NIC: the one of the spec, the recorded one, or a generated one. -/
def fillMac (vmName : String) (index : Nat) (nicSpec nicStatus : NetworkAttachment) :
    Except String NetworkAttachment :=
  if nicSpec.macAddress.isSome then .ok { nicStatus with macAddress := nicSpec.macAddress }
  else if nicStatus.macAddress.isNone then
    match generateMacAddress vmName nicSpec index with
    | .ok mac => .ok { nicStatus with macAddress := some mac }
    | .error msg => .error msg
  else .ok nicStatus

/-- The status entry of one NIC. -/
def fillNic (ns vmName : String) (statusNetworks : List NetworkAttachment)
    (nicSpec : NetworkAttachment) (index : Nat) : Prog NetworkAttachment := do
  let found ← orPanic (findMatchingNetwork statusNetworks nicSpec)
  let nicStatus := { startNic nicSpec found with queues := nicSpec.queues }
  let nicStatus ← orPanic (fillMac vmName index nicSpec nicStatus)
  match nicSpec.name with
  | some name =>
    let network ← kubeGet .network ⟨ns, name⟩
    match network.spec.networkType with
    | none | some .ovn => fillOvnId nicSpec nicStatus
    | some .evpn => return fillEvpn nicStatus network
  | none => return nicStatus

/-- `Vec::retain` with a predicate that may panic -/
def retain {α : Type} (p : α → Except String Bool) : List α → Except String (List α)
  | [] => .ok []
  | a :: as => do
    let keep ← p a
    let rest ← retain p as
    return if keep then a :: rest else rest

/-- Keep the status entries whose target the spec still has. -/
def retainNics (spec status : List NetworkAttachment) : Except String (List NetworkAttachment) :=
  retain (fun nic => (findMatchingNetwork spec nic).map Option.isSome) status

/-- Add MAC addresses and port IDs where necessary, and save them in the status. -/
def fillNics (vm : VirtualMachine) : Prog Unit := do
  let status ← tryStatus vm
  let newStatusNetworks ← Program.collect vm.spec.networks.zipIdx fun nic =>
    fillNic vm.metadata.ns (namePrefixedWithNamespace vm.key) status.networks nic.1 nic.2
  let newStatusNetworks ← orPanic (retainNics vm.spec.networks newStatusNetworks)
  onlyIf (status.networks ≠ newStatusNetworks)
    (setStatus vm { status with networks := newStatusNetworks } .fillNics)
  commit vm .fillNics

/-- Create a UUID if not yet set. The result is the local copy as it is afterwards. -/
def fillUuid (vm : VirtualMachine) : Prog VirtualMachine := do
  if vm.spec.uuid.isNone then
    let id ← newV4
    let vm : VirtualMachine := { vm with spec := { vm.spec with uuid := some id } }
    commit vm .fillUuid
    return vm
  else return vm

/-! ## The reconcile -/

/-- The status that a VM gets first. -/
def initialStatus (name : String) : VirtualMachineStatus where
  scheduled := false
  running := false
  migrationPending := false
  node := none
  domainName := name
  ipAddresses := none
  ipAddressesString := none
  networks := []

def initializeStatus (vm : VirtualMachine) (name : String) : Prog Unit := do
  onlyIf (vm.status = none) (setStatus vm (initialStatus name) .initializeStatus)

/-- The status after the VM has been placed on a node. -/
def scheduledStatus (status : VirtualMachineStatus) (node : Node) (migrationRequired : Bool) :
    VirtualMachineStatus :=
  { status with
    node := some node.metadata.name
    scheduled := true
    migrationPending := if migrationRequired then true else status.migrationPending }

/-- Schedule normally. If that fails and a migration is required, bypass affinity. -/
def scheduleOrBypass (vm : VirtualMachine) (migrationRequired : Bool) : Prog Node := do
  match (← (schedule vm false).attempt) with
  | .ok node => return node
  | .error e => if migrationRequired then schedule vm true else .fail e

/-- Choose a node and write it, within the mutex. -/
def placeVm (vm : VirtualMachine) (status : VirtualMachineStatus) (migrationRequired : Bool) :
    Prog Unit := do
  let node ← scheduleOrBypass vm migrationRequired
  setStatus vm (scheduledStatus status node migrationRequired) .schedulingAndMigrations

/-- Place the VM, under the scheduler mutex, if it has no node yet, if a migration is
required or if it shares its node with its anti-affinity group. -/
def schedulingAndMigrations (vm : VirtualMachine) : Prog Unit := do
  let status ← tryStatus vm
  let migrationRequired := migrationRequested vm
  let rescheduleRequired ← isUncompliant vm
  onlyIf (!status.scheduled || migrationRequired || rescheduleRequired)
    (Program.bracket (ask .lockSchedule) (placeVm vm status migrationRequired)
      (ask .unlockSchedule))
  clearSuccessfulMigration vm

/-- `create_fn`, for a VM that is not marked deleted. `delete_fn` does nothing. -/
def createVm (vm : VirtualMachine) : Prog Unit := do
  initializeStatus vm (namePrefixedWithNamespace vm.key)
  fillNics vm
  let vm ← fillUuid vm
  schedulingAndMigrations vm

end ClusterController
