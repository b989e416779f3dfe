import ClusterController.Ovn

/-!
# Networks, routers and the ports of virtual machines

The controllers that keep the northbound database: `network`, `router` and
`virtualmachine::ovn`.
-/

namespace ClusterController

open ApiServer (StringMap Key KubeError Resource)
open Interaction (Program)

/-! ## Networks -/

/-- Find or create the DHCP options of a CIDR, set their content and give the switch the
CIDR as its subnet. -/
def ensureDhcp [Crates] (name : String) (dhcp : DhcpOptionsCrd) : Prog Unit := do
  let dhcpOpts ← orCreate (DhcpOptions.getByCidr dhcp.cidr) (DhcpOptions.create dhcp.cidr)
  dhcpOpts.setOptions dhcp
  let ls ← getByName LogicalSwitch name
  ls.setCidr dhcp.cidr

/-- The namespace and the name of an attached router: `router` or `namespace/router`. -/
def attachedRouter (networkNs : String) (routerName : String) : Except String (String × String) :=
  match splitChar '/' routerName with
  | [name] => .ok (networkNs, name)
  | [ns, name] => .ok (ns, name)
  | _ => .error "Malformed router name (todo: error)"

/-- Connect the switch of a network to a router. -/
def ensureRouterAttachment (network : Network) (routerAttachment : RouterAttachment) :
    Prog Unit := do
  let router ← orPanic (attachedRouter network.metadata.ns routerAttachment.name)
  let lr ← getByName LogicalRouter (router.1 ++ "-" ++ router.2)
  let ls ← getByName LogicalSwitch (namePrefixedWithNamespace network.key)
  connectRouterToLs lr ls routerAttachment.address

/-- `update_network` -/
def updateNetwork [Crates] (network : Network) : Prog Unit := do
  if network.spec.networkType.getD .ovn ≠ .ovn then return ()
  else
    let name := namePrefixedWithNamespace network.key
    ovnTryFromAnnotations
    let network ← ensureFinalizer network "ovn"
    let _ ← createIfMissing LogicalSwitch name
    ifSome network.spec.dhcp (ensureDhcp name)
    ifSome network.spec.routers fun routers =>
      Program.forEach routers (ensureRouterAttachment network)
    setStatus network (⟨true⟩ : NetworkStatus) .updateNetwork

/-- Delete a switch if it is found. -/
def deleteSwitch (name : String) : Prog Unit := do
  match (← (getByName LogicalSwitch name).attempt) with
  | .ok ls => ovnDelete ls
  | .error (.ovnNotFound _ _) => return () -- nothing to delete
  | .error e => .fail e

/-- `remove_network` -/
def removeNetwork (network : Network) : Prog Unit := do
  if network.spec.networkType.getD .ovn ≠ .ovn then return ()
  else
    ovnTryFromAnnotations
    deleteSwitch (namePrefixedWithNamespace network.key)
    let _ ← removeFinalizer network "ovn"

/-! ## Routers -/

/-- `deployment::deploy` for the metadata service of a router -/
def deployMds (ns router : String) : Prog Unit := do
  kubeCall (.apply (.serviceAccount ns))
  kubeCall (.apply .clusterRole)
  kubeCall (.apply (.clusterRoleBinding ns))
  let image ← kubeCall .runningImage
  kubeCall (.apply (.metadataDeployment image ns router))

/-- The switch of the metadata service and the port that it uses. -/
def connectMetadataservice (lr : LogicalRouter) : Prog Unit := do
  let mdsName := "mds-" ++ lr.name
  let ls ← createIfMissing LogicalSwitch mdsName
  connectRouterToLs lr ls "169.254.169.253/30"
  let lsp ← LogicalSwitchPort.createIfMissing ls mdsName []
  lsp.setAddress "02:00:00:00:00:02" (.address "169.254.169.254")

/-- `update_router` -/
def updateRouter (router : Router) : Prog Unit := do
  ovnTryFromAnnotations
  let name := namePrefixedWithNamespace router.key
  let router ← ensureFinalizer router "ovn"
  let lr ← createIfMissing LogicalRouter name
  let current ← getByName LogicalRouter name
  current.setRoutes (router.spec.routes.getD [])
  onlyIf (router.spec.metadataService = some true) do
    deployMds router.metadata.ns router.metadata.name
    connectMetadataservice lr
  setStatus router (⟨true⟩ : RouterStatus) .updateRouter

/-- `remove_router` -/
def removeRouter (router : Router) : Prog Unit := do
  ovnTryFromAnnotations
  let lr ← getByName LogicalRouter (namePrefixedWithNamespace router.key)
  ovnDelete lr
  let _ ← removeFinalizer router "ovn"

/-! ## Ports of virtual machines -/

/-- Connect a NIC to the switch of its network. -/
def connectVmNic (vm : VirtualMachine) (nic : NetworkAttachment) : Prog Unit := do
  let networkName ← expect nic.name "No network name set"
  let macAddress ← expect nic.macAddress "MAC address missing"
  let ls ← getByName LogicalSwitch (vm.metadata.ns ++ "-" ++ networkName)
  let lspId ← expect nic.ovnId "called `Option::unwrap()` on a `None` value"
  let lsp ← LogicalSwitchPort.createIfMissing ls lspId []
  lsp.setAddress macAddress (if ls.getCidr.isSome then .dynamic else .none)
  let network ← kubeGet .network ⟨vm.metadata.ns, networkName⟩
  match network.spec.dhcp with
  | some dhcp => lsp.setDhcpOptions dhcp.cidr
  | none => return ()

/-- Remove the port of a NIC, if it exists. -/
def disconnectVmNic (vm : VirtualMachine) (nic : NetworkAttachment) : Prog Unit := do
  let networkName ← expect nic.name "No network name set"
  let ovnId ← expect nic.ovnId "called `Option::unwrap()` on a `None` value"
  match (← (getByName LogicalSwitchPort ovnId).attempt) with
  | .ok _ =>
    let ls ← getByName LogicalSwitch (vm.metadata.ns ++ "-" ++ networkName)
    ls.delLsp ovnId
  | .error _ => return ()

/-- The status entries with a port ID. -/
def getVmOvnNics (vm : VirtualMachine) : List NetworkAttachment :=
  match vm.status with
  | some status => status.networks.filter fun net => net.ovnId.isSome
  | none => []

/-- Connect one NIC and read the IP address that its port has got. -/
def updateVmNic (vm : VirtualMachine) (nic : NetworkAttachment) : Prog (Option String) := do
  connectVmNic vm nic
  match nic.ovnId with
  | some ovnId =>
    let lsp ← getByName LogicalSwitchPort ovnId
    return lsp.dynamicIp
  | none => return none

/-- `update_vm` -/
def updateVm (vm : VirtualMachine) : Prog Unit := do
  ovnTryFromAnnotations
  let vm ← ensureFinalizer vm "ovn"
  let ipAddresses ← Program.collect (getVmOvnNics vm) (updateVmNic vm)
  let ipAddresses := ipAddresses.filterMap id
  match vm.status with
  | some status =>
    setStatus vm { status with
      ipAddresses := some ipAddresses
      ipAddressesString := some (",".intercalate ipAddresses) } .updateVm
  | none => return ()

/-- `remove_vm` -/
def removeVm (vm : VirtualMachine) : Prog Unit := do
  ovnTryFromAnnotations
  Program.forEach (getVmOvnNics vm) (disconnectVmNic vm)
  let _ ← removeFinalizer vm "ovn"

end ClusterController
