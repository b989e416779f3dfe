import ClusterController.Lib.Program
import ClusterController.Lib.Ovsdb
import ClusterController.Crd

/-!
# Requests

Everything that the controllers ask of the systems around them: the API server, the
scheduler mutex and the sources of randomness of the process, libvirt and the `bridge`
command of a host, librados and librbd, and the OVN northbound database.
-/

namespace ClusterController

open ApiServer (StringMap Key KubeError Resource)
open Interaction (Program)

/-! ## The API server -/

/-- The function that issues a write. The API server does not read it: it lets statements
about a run say whose write a step is. -/
inductive Writer : Type
  | initializeStatus
  | fillNics
  | fillUuid
  | schedulingAndMigrations
  | clearMigrationRequest
  | requestMigrationAwayFrom
  | ensureFinalizer (finalizer : String)
  | removeFinalizer (finalizer : String)
  | updateVm
  | handleAdd
  | handleInboundMigration
  | updateNetwork
  | updateRouter
deriving DecidableEq

/-- A manifest that is applied and not read again. -/
inductive Manifest : Type
  | serviceAccount (ns : String)
  | clusterRole
  | clusterRoleBinding (ns : String)
  | metadataDeployment (image ns router : String)

inductive KubeRequest : Type
  | get (κ : Kind) (k : Key)
  | list (κ : Kind) (selector : Option (String × String))
  | replace (κ : Kind) (o : Object κ) (writer : Writer)
  | replaceStatus (κ : Kind) (k : Key) (version : Nat) (status : κ.Status) (writer : Writer)
  | apply (manifest : Manifest)
  | runningImage

@[reducible] def KubeRequest.Answer : KubeRequest → Type
  | get κ _ => Object κ
  | list κ _ => List (Object κ)
  | replace κ _ _ => Object κ
  | replaceStatus κ _ _ _ _ => Object κ
  | apply _ => Unit
  | runningImage => String

/-! ## libvirt -/

structure CephSource where
  pool : String
  image : String
deriving DecidableEq

structure FilesystemSource where
  format : String
  location : String
deriving DecidableEq

inductive StorageSource : Type
  | ceph (source : CephSource)
  | filesystem (source : FilesystemSource)
deriving DecidableEq

structure StorageTemplate where
  source : StorageSource
  device : String
  bootdevice : Bool
  bus : String
deriving DecidableEq

structure NetworkInterfaceTemplate where
  bridge : String
  mac : String
  ovnId : Option String
  model : String
  queues : UInt8
  untaggedVlan : Option UInt16
  taggedVlans : Option (List UInt16)
deriving DecidableEq

/-- What the XML of a domain is rendered from. -/
structure DomainTemplate where
  name : String
  uuid : String
  machineType : String
  cpu : String
  cpus : UInt64
  memory : UInt64
  memoryUnit : String
  networkInterfaces : List NetworkInterfaceTemplate
  storageDevices : List StorageTemplate
deriving DecidableEq

/-- Calls on the connection to the libvirt of one host. A migration to
`qemu+ssh://<host>/system` is one blocking call, split here into its beginning and its end. -/
inductive LibvirtRequest : Type
  | listAllDomains
  | lookupByName (domain : String)
  | isActive (domain : String)
  | destroy (domain : String)
  | createXml (template : DomainTemplate)
  | startMigration (domain host : String)
  | awaitMigration (domain : String)

@[reducible] def LibvirtRequest.Answer : LibvirtRequest → Type
  | listAllDomains => List String
  | isActive _ => Bool
  | _ => Unit

/-- The result of a command: whether it was successful, and what it wrote to stderr. -/
structure CommandOutput where
  success : Bool
  stderr : String

/-! ## librados and librbd -/

/-- The lengths that `rbd_list_lockers` reports with its return code. -/
structure Lockers where
  code : Int
  clientsLen : Nat
  cookiesLen : Nat
  addrsLen : Nat

/-- Calls of the C libraries. Numbers stand for handles. -/
inductive CephRequest : Type
  | radosCreate
  | radosConfReadFile (cluster : Nat)
  | radosConfSet (cluster : Nat)
  | radosConnect (cluster : Nat)
  | radosMonCommand (cluster : Nat) (command : List (String × String))
  | radosShutdown (cluster : Nat)
  | radosIoctxCreate (cluster : Nat) (pool : String)
  | radosIoctxDestroy (pool : Nat)
  | rbdList (pool : Nat) (len : Nat)
  | rbdCreate (pool : Nat) (name : String) (size : UInt64)
  | rbdOpen (pool : Nat) (name snapshot : String)
  | rbdOpenReadOnly (pool : Nat) (name : String)
  | rbdGetFeatures (image : Nat)
  | rbdClose (image : Nat)
  | rbdClone (parentPool : Nat) (parent snapshot : String) (pool : Nat) (name : String)
      (features : UInt64)
  | rbdRemove (pool : Nat) (name : String)
  | rbdListLockers (image : Nat)

@[reducible] def CephRequest.Answer : CephRequest → Type
  | radosCreate => Nat
  | radosMonCommand _ _ => List UInt8
  | radosIoctxCreate _ _ => Nat
  | rbdList _ _ => List UInt8
  | rbdOpen _ _ _ => Nat
  | rbdOpenReadOnly _ _ => Nat
  | rbdGetFeatures _ => UInt64
  | rbdListLockers _ => Lockers
  | _ => Unit

/-! ## All requests -/

/-- * `lockSchedule`, `unlockSchedule`: acquire and release `SCHEDULE_MUTEX`
* `scheduleSpan`: the tracing span that a call of `schedule` opens with its argument
* `newV4`: a random UUID
* `choose`: a random index below a positive bound
* `ovnConnect`, `transact`: open the connection to the northbound database, and one
  transaction on it -/
inductive Request : Type
  | kube (r : KubeRequest)
  | lockSchedule
  | unlockSchedule
  | scheduleSpan (ignoreAffinity : Bool)
  | newV4
  | choose (bound : Nat)
  | libvirt (host : String) (r : LibvirtRequest)
  | bridge (host : String) (args : List String)
  | ceph (r : CephRequest)
  | ovnConnect (address : String) (port : Nat)
  | transact (operations : List Ovsdb.Operation)

/-- An answer `none` of libvirt, of a command and of the database is an error whose
content nothing reads. An error of librados or librbd is its return code. -/
@[reducible] def Request.Answer : Request → Type
  | kube r => Except KubeError r.Answer
  | newV4 => String
  | choose _ => Nat
  | libvirt _ r => Option r.Answer
  | bridge _ _ => Option CommandOutput
  | ceph r => Except Int r.Answer
  | ovnConnect _ _ => Option Unit
  | transact _ => Option (List Ovsdb.Json)
  | _ => Unit

/-- The writer of a request that writes a virtual machine. -/
def Request.writerOfVm : Request → Option Writer
  | kube (.replace .virtualMachine _ writer) => some writer
  | kube (.replaceStatus .virtualMachine _ _ _ writer) => some writer
  | _ => none

/-- A function of the controllers. -/
abbrev Prog (α : Type) := Program Request Request.Answer Error α

/-- What the code uses of third-party crates: the SHA-256 digest, the host addresses of a
parsed CIDR, and the number of bytes that a size like `10G` means. -/
class Crates where
  sha256 : List UInt8 → Fin 32 → UInt8
  netHosts : String → Option (List String)
  parseBytes : String → Option UInt64

/-- Crates for runs in which no hash is read and nothing is parsed. -/
@[reducible] def plainCrates : Crates := ⟨fun _ _ => 0, fun _ => none, fun _ => none⟩

/-! ## Calls -/

/-- A value whose absence is a panic. -/
def orPanic {α : Type} : Except String α → Prog α
  | .ok a => .ret a
  | .error msg => .abort msg

/-- `Option::expect` -/
def expect {α : Type} (o : Option α) (msg : String) : Prog α :=
  match o with
  | some a => .ret a
  | none => .abort msg

/-- `if` without `else` -/
def onlyIf (c : Prop) [Decidable c] (p : Prog Unit) : Prog Unit := if c then p else .ret ()

/-- `if let Some(a)` without `else` -/
def ifSome {α : Type} (o : Option α) (f : α → Prog Unit) : Prog Unit :=
  match o with
  | some a => f a
  | none => .ret ()

/-- One request. -/
def ask (r : Request) : Prog r.Answer := Program.request r

/-- A request to the API server. -/
def kubeCall (r : KubeRequest) : Prog r.Answer := do
  match (← ask (.kube r) : Except KubeError r.Answer) with
  | .ok a => .ret a
  | .error e => .fail (.kube e)

/-- `Api::get` -/
def kubeGet (κ : Kind) (k : Key) : Prog (Object κ) := kubeCall (.get κ k)

/-- `Api::list` -/
def kubeList (κ : Kind) (selector : Option (String × String)) : Prog (List (Object κ)) :=
  kubeCall (.list κ selector)

/-- A call of libvirt on a host. -/
def libvirtCall (host : String) (r : LibvirtRequest) : Prog r.Answer := do
  match (← ask (.libvirt host r) : Option r.Answer) with
  | some a => .ret a
  | none => .fail .libvirt

/-- `Uuid::new_v4()` -/
def newV4 : Prog String := ask .newV4

/-- `candidates.choose(&mut rand::thread_rng())` -/
def choose {α : Type} (candidates : List α) : Prog (Option α) :=
  match candidates with
  | [] => .ret none
  | _ => do
    let i ← ask (.choose candidates.length)
    .ret candidates[i]?

end ClusterController
