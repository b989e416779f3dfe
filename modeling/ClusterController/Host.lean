import ClusterController.Ceph
import ClusterController.Ovn

/-!
# The host controller

`host::libvirt`: every host classifies each virtual machine by its status and by the
domains that the host has, and then creates, migrates or destroys the domain.
-/

namespace ClusterController

open ApiServer (StringMap Key KubeError Resource)
open Interaction (Program)

namespace Host

/-! ## Storage locations and memory -/

inductive StorageType : Type
  | ceph
  | filesystem
deriving DecidableEq

/-- `foo-bar` and `ceph:foo-bar` are in Ceph, `fs:/foo-bar` is a file. -/
def parseStorageLocation (location : String) : Except Error (StorageType × String) :=
  match splitChar ':' location with
  | [name] => .ok (.ceph, name)
  | [schema, name] =>
    if schema = "ceph" then .ok (.ceph, name)
    else if schema = "fs" then .ok (.filesystem, name)
    else .error (.storageLocationParse location)
  | _ => .error (.storageLocationParse location)

/-- `str::ends_with` -/
def endsWith (s suffix : String) : Bool := suffix.toList <:+ s.toList

def toStorageSource (volume : VolumeAttachment) (ns : String) : Except Error StorageSource := do
  let (schema, location) ← parseStorageLocation volume.name
  match schema with
  | .ceph => return .ceph ⟨"volumes", ns ++ "-" ++ volume.name⟩
  | .filesystem =>
    return .filesystem ⟨if endsWith location ".qcow2" then "qcow2" else "raw", location⟩

/-- The first digits of the blocks of decimal digits (`\d`). -/
def decimalZeros : List Nat :=
  [0x30, 0x660, 0x6F0, 0x7C0, 0x966, 0x9E6, 0xA66, 0xAE6, 0xB66, 0xBE6, 0xC66, 0xCE6, 0xD66,
    0xDE6, 0xE50, 0xED0, 0xF20, 0x1040, 0x1090, 0x17E0, 0x1810, 0x1946, 0x19D0, 0x1A80, 0x1A90,
    0x1B50, 0x1BB0, 0x1C40, 0x1C50, 0xA620, 0xA8D0, 0xA900, 0xA9D0, 0xA9F0, 0xAA50, 0xABF0,
    0xFF10, 0x104A0, 0x10D30, 0x11066, 0x110F0, 0x11136, 0x111D0, 0x112F0, 0x11450, 0x114D0,
    0x11650, 0x116C0, 0x11730, 0x118E0, 0x11950, 0x11C50, 0x11D50, 0x11DA0, 0x11F50, 0x16A60,
    0x16AC0, 0x16B50, 0x1D7CE, 0x1D7D8, 0x1D7E2, 0x1D7EC, 0x1D7F6, 0x1E140, 0x1E2F0, 0x1E4F0,
    0x1E950, 0x1FBF0]

/-- `\d` -/
def isDecimal (c : Char) : Bool := decimalZeros.any fun z => z ≤ c.toNat && c.toNat < z + 10

/-- `\s` -/
def isSpace (c : Char) : Bool :=
  [0x9, 0xA, 0xB, 0xC, 0xD, 0x20, 0x85, 0xA0, 0x1680, 0x2028, 0x2029, 0x202F, 0x205F,
    0x3000].contains c.toNat || (0x2000 ≤ c.toNat && c.toNat ≤ 0x200A)

/-- `[a-zA-Z]` -/
def isLetter (c : Char) : Bool := ('a' ≤ c && c ≤ 'z') || ('A' ≤ c && c ≤ 'Z')

/-- The leftmost match of `(\d+)\s*([a-zA-Z]+)`. Only the longest digits and blanks at a
position can be followed by a letter, so nothing else need be tried there. -/
def captureMemory : List Char → Option (List Char × List Char)
  | [] => none
  | c :: cs =>
    let digits := (c :: cs).takeWhile isDecimal
    let unit := (((c :: cs).dropWhile isDecimal).dropWhile isSpace).takeWhile isLetter
    if digits ≠ [] ∧ unit ≠ [] then some (digits, unit) else captureMemory cs

/-- `str::parse::<usize>` for a string of digits -/
def parseUsize (digits : List Char) : Option UInt64 :=
  if digits.all fun c => '0' ≤ c && c ≤ '9' then
    let n := digits.foldl (fun n c => 10 * n + (c.toNat - '0'.toNat)) 0
    if n < 2 ^ 64 then some (UInt64.ofNat n) else none
  else none

def parseMemory (input : String) : Except String (UInt64 × String) :=
  match captureMemory input.toList with
  | none => .error "called `Option::unwrap()` on a `None` value"
  | some (digits, unit) =>
    match parseUsize digits with
    | none => .error "called `Result::unwrap()` on an `Err` value"
    | some amount => .ok (amount, String.ofList unit)

/-! ## libvirt -/

def getDomainName (vm : VirtualMachine) : Option String := vm.status.map (·.domainName)

/-- `virt::domain::Domain::lookup_by_name` -/
def lookupByName (host domain : String) : Prog Unit := libvirtCall host (.lookupByName domain)

def hasDomain (host name : String) : Prog Bool := do
  let domains ← libvirtCall host .listAllDomains
  return domains.any (· = name)

/-- Some Ceph image of the volumes is locked. -/
def volumesLocked : List StorageTemplate → Prog Bool
  | [] => return false
  | volume :: volumes =>
    match volume.source with
    | .ceph cephSource => do
      if (← Ceph.hasLocks cephSource.pool cephSource.image) then return true
      else volumesLocked volumes
    | .filesystem _ => volumesLocked volumes

/-- The letter of a drive: the addition of bytes wraps around. -/
def driveLetter (driveIndex : UInt8) : String :=
  String.singleton (Char.ofNat (97 + driveIndex).toNat)

/-- The storage devices of a domain. -/
def storageTemplates (vm : VirtualMachine) (deviceLetters bus : String) :
    Prog (List StorageTemplate) :=
  Program.collect vm.spec.volumes.zipIdx fun volume => do
    if 256 ≤ volume.2 then .abort "Volume index overflows u8"
    else
      let source ← toStorageSource volume.1 vm.metadata.ns
      return { source := source
               device := deviceLetters ++ driveLetter (UInt8.ofNat volume.2)
               bootdevice := volume.2 = 0
               bus := bus }

/-- The bridge of a NIC. -/
def bridgeOf (nic : NetworkAttachment) : Prog String :=
  match nic.ovnId with
  | some _ => .ret "br-int"
  | none => expect nic.bridge "bridge to be set"

/-- The network interface of a NIC. -/
def interfaceTemplate (model : String) (nic : NetworkAttachment) : Prog NetworkInterfaceTemplate := do
  let bridge ← bridgeOf nic
  let mac ← expect nic.macAddress "MAC to be set"
  return { bridge := bridge
           mac := mac
           ovnId := nic.ovnId
           model := model
           queues := nic.queues.getD 1
           untaggedVlan := nic.untaggedVlan
           taggedVlans := nic.taggedVlans }

/-- What the XML of the domain of a VM is rendered from. -/
def domainTemplate (vm : VirtualMachine) (cluster : Cluster) (volumes : List StorageTemplate)
    (networkModel : String) : Prog DomainTemplate := do
  let status ← tryStatus vm
  let nics ← Program.collect status.networks (interfaceTemplate networkModel)
  let (memoryAmount, memoryUnit) ← orPanic (parseMemory vm.spec.memory)
  let name ← expect (getDomainName vm) "no domain name specified"
  let uuid ← expect vm.spec.uuid "VM has no UUID"
  return { name := name
           uuid := uuid
           machineType := vm.spec.machineType.getD cluster.spec.machineType
           cpu := vm.spec.cpuModel.getD cluster.spec.cpu
           cpus := vm.spec.cpus
           memory := memoryAmount
           memoryUnit := memoryUnit
           networkInterfaces := nics
           storageDevices := volumes }

def createDomain (host : String) (vm : VirtualMachine) (cluster : Cluster) : Prog Unit := do
  let compatible := vm.spec.compatibilityMode.getD false
  let volumes ← storageTemplates vm (if compatible then "sd" else "vd")
    (if compatible then "sata" else "virtio")
  if (← volumesLocked volumes) then .fail .volumelocked
  else
    let template ← domainTemplate vm cluster volumes (if compatible then "e1000" else "virtio")
    libvirtCall host (.createXml template)

/-! ## EVPN -/

/-- Run `/usr/sbin/bridge`. -/
def bridgeCommand (host : String) (args : List String) : Prog CommandOutput := do
  match (← ask (.bridge host args) : Option CommandOutput) with
  | some output => .ret output
  | none => .fail .io

/-- Map one VLAN to its VNI on the bridge and the VXLAN interface. -/
def mapVlan (host : String) (vlan : UInt16) : Prog Unit := do
  let vid := toString vlan.toNat
  let addToBridge ← bridgeCommand host ["vlan", "add", "dev", "br0", "vid", vid, "self"]
  onlyIf (!addToBridge.success) (.fail (.vniMapping ("add_to_bridge: " ++ addToBridge.stderr)))
  let addToVxlan ← bridgeCommand host ["vlan", "add", "dev", "vxlan0", "vid", vid]
  onlyIf (!addToVxlan.success) (.fail (.vniMapping ("add_to_vxlan: " ++ addToVxlan.stderr)))
  let setTunnelInfo ← bridgeCommand host
    ["vlan", "add", "dev", "vxlan0", "vid", vid, "tunnel_info", "id", vid]
  onlyIf (!setTunnelInfo.success && setTunnelInfo.stderr ≠ "RTNETLINK answers: File exists\n")
    (.fail (.vniMapping ("set_tunnel_info: " ++ setTunnelInfo.stderr)))

/-- Configure all VLANs of the VM on the EVPN bridge and the VXLAN interface. -/
def ensureVniMapping (host : String) (vm : VirtualMachine) : Prog Unit := do
  let nics := (vm.status.map (·.networks)).getD []
  let vlans := nics.flatMap fun nic => nic.taggedVlans.getD [] ++ nic.untaggedVlan.toList
  Program.forEach vlans (mapVlan host)

/-! ## Handlers -/

def getCluster : Prog Cluster := do
  match (← ask (.kube (.get .cluster ⟨"", "default"⟩)) : Except KubeError Cluster) with
  | .ok cluster => .ret cluster
  | .error error => .fail (.clusterNotFound "default" error)

def finalizer : String := "libvirt-host"

/-- Destroy the domain if it is there. -/
def destroyDomain (host vmName : String) : Prog Unit := do
  match (← (lookupByName host vmName).attempt) with
  | .ok () => libvirtCall host (.destroy vmName)
  | .error _ => return () -- any error is taken for a domain that does not exist

/-- Destroy the domain if it is there, and unregister the finalizer. -/
def handleDelete (host : String) (vm : VirtualMachine) : Prog Unit := do
  let vmName ← expect (getDomainName vm) "VM has a libvirt domain name"
  destroyDomain host vmName
  let _ ← removeFinalizer vm finalizer

/-- Register the finalizer, create the domain and set `running`. -/
def handleAdd (host : String) (vm : VirtualMachine) : Prog Unit := do
  ensureVniMapping host vm
  let _ ← expect (getDomainName vm) "VM has a libvirt domain name"
  let vm ← ensureFinalizer vm finalizer
  if vm.spec.getPowerAction ≠ .powerOn then return ()
  else
    let cluster ← getCluster
    createDomain host vm cluster
    let status ← expect vm.status "VM didn't have existing status"
    setStatus vm { status with running := true } .handleAdd

/-- Start a live migration to the node of the status and wait for it. -/
def handleOutboundMigration (host : String) (vm : VirtualMachine) : Prog Unit := do
  let vmName ← expect (getDomainName vm) "VM has a libvirt domain name"
  match (← (lookupByName host vmName).attempt) with
  | .error _ => .abort "Domain not found"
  | .ok () =>
    let status ← tryStatus vm
    let destinationNode ← expect status.node "No destination node"
    libvirtCall host (.startMigration vmName destinationNode)
    libvirtCall host (.awaitMigration vmName)

/-- Wait for the domain to arrive, and clear `migration_pending` once it is active. -/
def handleInboundMigration (host : String) (vm : VirtualMachine) : Prog Unit := do
  ensureVniMapping host vm
  let libvirtDomainName ← expect (getDomainName vm) "failed to get domain name"
  if !(← hasDomain host libvirtDomainName) then return ()
  else
    match (← (lookupByName host libvirtDomainName).attempt) with
    | .error _ => .abort "Domain not found"
    | .ok () =>
      if !(← libvirtCall host (.isActive libvirtDomainName)) then return ()
      else
        let newStatus ← tryStatus vm
        setStatus vm { newStatus with migrationPending := false } .handleInboundMigration

/-! ## Classification -/

inductive Event : Type
  | missingDomainName
  | unscheduled
  | noNode
  | inboundMigration
  | outboundMigration
  | notOurs
  | added
  | updated
  | deleted
deriving DecidableEq

/-- What a scheduled VM means to a host that has its domain or not. -/
def classify (vmRunsOnUs targetNodeIsUs migrationPending isDeleted : Bool) : Event :=
  if targetNodeIsUs && migrationPending then .inboundMigration
  else if !targetNodeIsUs then
    if vmRunsOnUs then .outboundMigration else .notOurs
  else
    match vmRunsOnUs, isDeleted with
    | false, false => .added
    | true, false => .updated
    | _, true => .deleted

def getEventType (myNodeName : String) (vm : VirtualMachine) : Prog Event := do
  match getDomainName vm with
  | none => return .missingDomainName
  | some libvirtDomainName =>
    let vmStatus ← tryStatus vm
    if !vmStatus.scheduled then return .unscheduled
    else
      match vmStatus.node with
      | none => return .noNode
      | some targetNode =>
        let vmRunsOnUs ← hasDomain myNodeName libvirtDomainName
        return classify vmRunsOnUs (targetNode = myNodeName) vmStatus.migrationPending vm.isDeleted

/-- `reconcile` -/
def reconcile (myNodeName : String) (vm : VirtualMachine) : Prog Unit := do
  match (← getEventType myNodeName vm) with
  | .deleted => handleDelete myNodeName vm
  | .added => handleAdd myNodeName vm
  | .outboundMigration => handleOutboundMigration myNodeName vm
  | .inboundMigration => handleInboundMigration myNodeName vm
  | _ => return ()

end Host

end ClusterController
