import ClusterController.Ovn

/-!
# The metadata service

`metadataservice`: the backend answers a request by the IP address that it comes from.
-/

namespace ClusterController

open ApiServer (StringMap Key KubeError Resource)
open Interaction (Program)

namespace Metadata

structure MetadataPayload where
  ip : String
  instanceId : String
  hostname : String
  userData : String
deriving DecidableEq

/-- What is sent on the return channel. -/
abbrev MetadataResponse := Except Error MetadataPayload

/-- The router that a service is started for, from the argument `namespace/router`. -/
def routerName (target : String) : Except String String :=
  match splitChar '/' target with
  | ns :: router :: _ => .ok (ns ++ "-" ++ router)
  | _ => .error "called `Option::unwrap()` on a `None` value"

/-- The user data in a config map. -/
def userdataOf (userdataName : String) (configMap : ConfigMap) : Except Error String :=
  match configMap.spec.data with
  | none => .error (.configMapInvalid userdataName "no .data")
  | some cmData =>
    match cmData.get "userdata" with
    | none => .error (.configMapInvalid userdataName "no .data.userdata")
    | some userdata => .ok userdata

/-- The VMs with a NIC on the port. -/
def matchingVms (port : LogicalSwitchPort) (vms : List VirtualMachine) : List VirtualMachine :=
  vms.filter fun vm =>
    match vm.status with
    | some status => status.networks.any fun network => network.ovnId = some port.name
    | none => false

/-- The response about a VM. -/
def describe (ip : String) (vm : VirtualMachine) : Prog MetadataResponse := do
  match vm.spec.userdata with
  | some userdataName =>
    let configMap ← (kubeGet .configMap ⟨vm.metadata.ns, userdataName⟩).attempt
    match configMap with
    | .error _ => return .error (.configMapNotFound userdataName)
    | .ok configMap =>
      match userdataOf userdataName configMap with
      | .error e => return .error e
      | .ok userdata =>
        let instanceId ← expect vm.spec.uuid "called `Option::unwrap()` on a `None` value"
        return .ok { ip := ip
                     instanceId := instanceId
                     hostname := vm.metadata.name
                     userData := userdata }
  | none => return .error .userdataNotSpecified

/-- One turn of the loop of `MetadataBackend::main`: the response to a request from an IP
address. The router that the service was started for is not among the arguments: the
backend does not get it. -/
def handleRequest (ip : String) : Prog MetadataResponse := do
  ovnTryFromAnnotations
  let ports ← LogicalSwitchPort.getByIp ip
  match ports with
  | [port] =>
    let vms ← kubeList .virtualMachine none
    match matchingVms port vms with
    | [vm] => describe ip vm
    | _ => .abort "assertion failed: `(left == right)`"
  | _ => return .error (.instanceMatchFailed
      ("Matched " ++ toString ports.length ++ " instances"))

end Metadata

end ClusterController
