import ClusterController.Lib.ApiServer

/-!
# Resources and errors

The custom resources of the cluster with the fields that the controllers read and write,
the built-in resources that they read, and the errors that they return.
-/

namespace ClusterController

open ApiServer (StringMap Key KubeError Resource)

/-! ## Virtual machines -/

structure VolumeAttachment where
  name : String
deriving DecidableEq

structure NetworkAttachment where
  /-- A managed network, -/
  name : Option String
  /-- or an externally created host bridge. -/
  bridge : Option String
  macAddress : Option String
  queues : Option UInt8
  ovnId : Option String
  untaggedVlan : Option UInt16
  taggedVlans : Option (List UInt16)
deriving DecidableEq

/-- `NetworkAttachment::default()` -/
def NetworkAttachment.default : NetworkAttachment :=
  ⟨none, none, none, none, none, none, none⟩

inductive PowerAction : Type
  | powerOn
  | shutdown
  | powerOff
  | manual
deriving DecidableEq

structure VirtualMachineSpec where
  cpus : UInt64
  cpuModel : Option String
  memory : String
  volumes : List VolumeAttachment
  networks : List NetworkAttachment
  uuid : Option String
  userdata : Option String
  compatibilityMode : Option Bool
  node : Option String
  powerAction : Option PowerAction
  machineType : Option String
deriving DecidableEq

/-- The VM is powered on unless its spec says otherwise. -/
def VirtualMachineSpec.getPowerAction (spec : VirtualMachineSpec) : PowerAction :=
  match spec.powerAction with
  | some action => action
  | none => .powerOn

structure VirtualMachineStatus where
  scheduled : Bool
  running : Bool
  migrationPending : Bool
  node : Option String
  domainName : String
  ipAddresses : Option (List String)
  ipAddressesString : Option String
  networks : List NetworkAttachment
deriving DecidableEq

/-! ## Networks and routers -/

structure DhcpOptionsCrd where
  cidr : String
  leaseTime : Option UInt64
  dnsServer : Option String
  domainName : Option String
  router : Option String
deriving DecidableEq

structure RouterAttachment where
  name : String
  address : String
deriving DecidableEq

inductive NetworkType : Type
  | ovn
  | evpn
deriving DecidableEq

structure NetworkSpec where
  dhcp : Option DhcpOptionsCrd
  routers : Option (List RouterAttachment)
  networkType : Option NetworkType
  networkId : Option UInt64
  bridge : Option String
deriving DecidableEq

structure NetworkStatus where
  isCreated : Bool
deriving DecidableEq

structure Route where
  cidr : String
  nexthop : String
deriving DecidableEq

structure RouterSpec where
  routes : Option (List Route)
  metadataService : Option Bool
deriving DecidableEq

structure RouterStatus where
  isCreated : Bool
deriving DecidableEq

/-! ## Volumes and images -/

structure VolumeSpec where
  size : String
  template : Option String
deriving DecidableEq

structure ImageSpec where
  source : String
deriving DecidableEq

/-! ## Cluster-wide resources -/

structure ClusterSpec where
  machineType : String
  cpu : String
deriving DecidableEq

structure NodeAddress where
  type : String
  address : String
deriving DecidableEq

structure NodeStatus where
  addresses : Option (List NodeAddress)
deriving DecidableEq

structure ConfigMapData where
  data : Option StringMap
deriving DecidableEq

/-! ## All kinds -/

/-- The kinds of objects that the modelled code reads or writes. -/
inductive Kind : Type
  | virtualMachine
  | network
  | router
  | volume
  | image
  | cluster
  | node
  | configMap
deriving DecidableEq

namespace Kind

/-- The name that error messages give the kind. -/
def name : Kind → String
  | virtualMachine => "VirtualMachine"
  | network => "Network"
  | router => "Router"
  | volume => "Volume"
  | image => "Image"
  | cluster => "Cluster"
  | node => "Node"
  | configMap => "ConfigMap"

@[reducible] def Spec : Kind → Type
  | virtualMachine => VirtualMachineSpec
  | network => NetworkSpec
  | router => RouterSpec
  | volume => VolumeSpec
  | image => ImageSpec
  | cluster => ClusterSpec
  | node => Unit
  | configMap => ConfigMapData

/-- The status of a kind. Nothing reads or writes the status of volumes and images. -/
@[reducible] def Status : Kind → Type
  | virtualMachine => VirtualMachineStatus
  | network => NetworkStatus
  | router => RouterStatus
  | volume => Unit
  | image => Unit
  | cluster => Unit
  | node => NodeStatus
  | configMap => Unit

instance : (κ : Kind) → DecidableEq κ.Spec
  | virtualMachine => inferInstanceAs (DecidableEq VirtualMachineSpec)
  | network => inferInstanceAs (DecidableEq NetworkSpec)
  | router => inferInstanceAs (DecidableEq RouterSpec)
  | volume => inferInstanceAs (DecidableEq VolumeSpec)
  | image => inferInstanceAs (DecidableEq ImageSpec)
  | cluster => inferInstanceAs (DecidableEq ClusterSpec)
  | node => inferInstanceAs (DecidableEq Unit)
  | configMap => inferInstanceAs (DecidableEq ConfigMapData)

instance : (κ : Kind) → DecidableEq κ.Status
  | virtualMachine => inferInstanceAs (DecidableEq VirtualMachineStatus)
  | network => inferInstanceAs (DecidableEq NetworkStatus)
  | router => inferInstanceAs (DecidableEq RouterStatus)
  | volume => inferInstanceAs (DecidableEq Unit)
  | image => inferInstanceAs (DecidableEq Unit)
  | cluster => inferInstanceAs (DecidableEq Unit)
  | node => inferInstanceAs (DecidableEq NodeStatus)
  | configMap => inferInstanceAs (DecidableEq Unit)

end Kind

/-- An object of a kind. -/
abbrev Object (κ : Kind) := Resource κ.Spec κ.Status

abbrev VirtualMachine := Object .virtualMachine
abbrev Network := Object .network
abbrev Router := Object .router
abbrev Volume := Object .volume
abbrev Image := Object .image
abbrev Cluster := Object .cluster
abbrev Node := Object .node
abbrev ConfigMap := Object .configMap

/-! ## Labels and annotations -/

def groupName : String := "cluster-virt.acl.fi"

def ovnCentralManagedLabel : String := "cluster-virt.acl.fi/ovn-central-installation"
def ovnCentralIpAnnotation : String := "cluster-virt.acl.fi/ovn-central-ip"
def maintenanceAnnotation : String := "cluster-virt.acl.fi/maintenance"
def noScheduleAnnotation : String := "cluster-virt.acl.fi/no-schedule"
def migrationRequestAnnotation : String := "cluster-virt.acl.fi/migration-required"
def antiAffinityLabel : String := "antiAffinity"

/-! ## Errors -/

/-- The errors that the modelled code returns. -/
inductive Error : Type
  | io
  | kube (e : KubeError)
  | noStatusSubresource (resource : String)
  | rados (operation : String) (code : Int)
  | volumelocked
  | libvirt
  | scheduleFailed (vm : String)
  | storageLocationParse (location : String)
  | ovnCentralNodesNotFound
  | ovnConnection (last : Error)
  | ovnNotFound (type name : String)
  | ovnDeserializationFailed
  | ovnConflict (resource : String)
  | parseHumanize
  | template
  | parseNetwork
  | instanceMatchFailed (message : String)
  | userdataNotSpecified
  | configMapNotFound (name : String)
  | configMapInvalid (name message : String)
  | vniMapping (message : String)
  | clusterNotFound (name : String) (inner : KubeError)
  | notImplemented (feature : String)
deriving DecidableEq

end ClusterController
