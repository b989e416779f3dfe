import ClusterController.World

/-!
# Migration of the virtual machine CRD

`crd::virtualmachine::run_migrations` and `crd::utils::remove_crd_version`, with the API server
that they talk to. A stored object is read at any served version; what a version requires of a
status decides whether it can be read, and whether a patch of it is accepted.
-/

namespace ClusterController

open ApiServer (Key KubeError)
open Interaction (Program)
open Interaction.Program (Outcome Reaches Always)

/-! ## The older version -/

namespace V1beta2

structure VirtualMachineSpec where
  cpus : UInt64
  memory : String
  volumes : List VolumeAttachment
  networks : List NetworkAttachment
  uuid : Option String
  userdata : Option String
deriving DecidableEq

structure VirtualMachineStatus where
  scheduled : Bool
  running : Bool
  migrationPending : Bool
  node : Option String
  domainName : String
  ipAddresses : Option (List String)
  ipAddressesString : Option String
deriving DecidableEq

structure VirtualMachine where
  key : Key
  spec : VirtualMachineSpec
  status : Option VirtualMachineStatus
deriving DecidableEq

end V1beta2

/-! ## Stored objects -/

/-- The fields of a status as they are stored. Each of them may be missing. -/
structure StoredStatus where
  scheduled : Option Bool
  running : Option Bool
  migrationPending : Option Bool
  node : Option String
  domainName : Option String
  ipAddresses : Option (List String)
  ipAddressesString : Option String
  networks : Option (List NetworkAttachment)
deriving DecidableEq

namespace StoredStatus

/-- The object without fields. -/
def empty : StoredStatus := ⟨none, none, none, none, none, none, none, none⟩

/-- The status as `v1beta2::VirtualMachineStatus`, if it has the fields that this requires. -/
def asV1beta2 (status : StoredStatus) : Option V1beta2.VirtualMachineStatus := do
  let scheduled ← status.scheduled
  let running ← status.running
  let migrationPending ← status.migrationPending
  let domainName ← status.domainName
  return ⟨scheduled, running, migrationPending, status.node, domainName, status.ipAddresses,
    status.ipAddressesString⟩

/-- The status as `v1beta3::VirtualMachineStatus`, if it has the fields that this requires. -/
def asV1beta3 (status : StoredStatus) : Option VirtualMachineStatus := do
  let old ← status.asV1beta2
  let networks ← status.networks
  return ⟨old.scheduled, old.running, old.migrationPending, old.node, old.domainName,
    old.ipAddresses, old.ipAddressesString, networks⟩

/-- The merge patch `{"networks": networks}` -/
def patch (status : StoredStatus) (networks : List NetworkAttachment) : StoredStatus :=
  { status with networks := some networks }

end StoredStatus

/-- A virtual machine as it is stored, at one of the versions. The newer fields of the spec are
missing in an object of the older version. -/
structure StoredVm where
  key : Key
  version : String
  spec : VirtualMachineSpec
  status : Option StoredStatus
deriving DecidableEq

namespace StoredVm

/-- Read at version v1beta2. -/
def asV1beta2 (vm : StoredVm) : Option V1beta2.VirtualMachine := do
  let spec := ⟨vm.spec.cpus, vm.spec.memory, vm.spec.volumes, vm.spec.networks, vm.spec.uuid,
    vm.spec.userdata⟩
  match vm.status with
  | none => return ⟨vm.key, spec, none⟩
  | some status => do
    let status ← status.asV1beta2
    return ⟨vm.key, spec, some status⟩

/-- Read at version v1beta3: the spec and the status. -/
def asV1beta3 (vm : StoredVm) : Option (VirtualMachineSpec × Option VirtualMachineStatus) := do
  match vm.status with
  | none => return (vm.spec, none)
  | some status => do
    let status ← status.asV1beta3
    return (vm.spec, some status)

end StoredVm

/-- The status of a CRD. -/
structure CrdStatus where
  storedVersions : Option (List String)
deriving DecidableEq

/-- A `CustomResourceDefinition` with the names of its versions, one of which objects are
stored at. -/
structure CustomResourceDefinition where
  name : String
  resourceVersion : Nat
  versions : List String
  storage : String
  status : Option CrdStatus
deriving DecidableEq

namespace CustomResourceDefinition

/-- The versions that objects may be stored at. -/
def stored (crd : CustomResourceDefinition) : List String :=
  (crd.status.bind CrdStatus.storedVersions).getD []

/-- What the API server asks of the versions: objects are stored at one that is listed as
stored, and all that are listed as stored exist. -/
def valid (crd : CustomResourceDefinition) : Bool :=
  match crd.status.bind CrdStatus.storedVersions with
  | none => true
  | some stored => stored.contains crd.storage && stored.all crd.versions.contains

end CustomResourceDefinition

/-! ## The API server -/

inductive CrdRequest : Type
  | getCrd (name : String)
  | listNamespaces
  | listVms (ns : String)
  /-- the merge patch of a status at v1beta3 -/
  | patchVmStatus (k : Key) (networks : List NetworkAttachment)
  | patchCrdStatus (name : String) (storedVersions : List String)
  | replaceCrd (name : String) (crd : CustomResourceDefinition)

/-- The content of an answer that is no error. -/
def CrdRequest.Answer : CrdRequest → Type
  | .getCrd _ => CustomResourceDefinition
  | .listNamespaces => List String
  | .listVms _ => List V1beta2.VirtualMachine
  | _ => Unit

structure CrdServer where
  crd : CustomResourceDefinition
  namespaces : List String
  vms : List StoredVm
deriving DecidableEq

namespace CrdServer

/-- The virtual machine after a patch of its status, which is stored at the current version. -/
def patched (s : CrdServer) (networks : List NetworkAttachment) (vm : StoredVm) : StoredVm :=
  { vm with version := s.crd.storage, status := some ((vm.status.getD .empty).patch networks) }

/-- Store another CRD. -/
def writeCrd (s : CrdServer) (crd : CustomResourceDefinition) :
    Except KubeError Unit × CrdServer :=
  if crd.valid then
    (.ok (), { s with crd := { crd with resourceVersion := s.crd.resourceVersion + 1 } })
  else (.error .invalid, s)

/-- The answer to a request and the state afterwards. -/
def serve (s : CrdServer) : (r : CrdRequest) → Except KubeError r.Answer × CrdServer
  | .getCrd name => if name = s.crd.name then (.ok s.crd, s) else (.error .notFound, s)
  | .listNamespaces => (.ok s.namespaces, s)
  | .listVms ns =>
    if s.crd.versions.contains "v1beta2" then
      match (s.vms.filter fun vm => vm.key.ns = ns).mapM StoredVm.asV1beta2 with
      | some vms => (.ok vms, s)
      | none => (.error .invalid, s)
    else (.error .notFound, s)
  | .patchVmStatus k networks =>
    match s.vms.find? fun vm => vm.key = k with
    | none => (.error .notFound, s)
    | some vm =>
      if s.crd.versions.contains "v1beta3" then
        -- A status that lacks a field that v1beta3 requires is rejected.
        match (s.patched networks vm).asV1beta3 with
        | some _ => (.ok (), { s with
            vms := s.vms.map fun vm => if vm.key = k then s.patched networks vm else vm })
        | none => (.error .invalid, s)
      else (.error .notFound, s)
  | .patchCrdStatus name storedVersions =>
    if name = s.crd.name then s.writeCrd { s.crd with status := some ⟨some storedVersions⟩ }
    else (.error .notFound, s)
  | .replaceCrd name crd =>
    if name = s.crd.name then
      if crd.resourceVersion = s.crd.resourceVersion then
        s.writeCrd { crd with name := s.crd.name, status := s.crd.status }
      else (.error .conflict, s)
    else (.error .notFound, s)

end CrdServer

/-! ## The functions -/

/-- A function that talks to the API server about the CRD. -/
abbrev CrdProg (α : Type) :=
  Program CrdRequest (fun r => Except KubeError r.Answer) Error α

def crdCall (r : CrdRequest) : CrdProg r.Answer :=
  .call r fun
    | .ok a => .ret a
    | .error e => .fail (.kube e)

/-- `Option::expect` -/
def expectOf {α : Type} (o : Option α) (msg : String) : CrdProg α :=
  match o with
  | some a => .ret a
  | none => .abort msg

/-- `CRD_NAME` -/
def crdName : String := "virtualmachines.cluster-virt.acl.fi"

def getNamespaceNames : CrdProg (List String) := crdCall .listNamespaces

def removeCrdVersion (crdName crdVersion : String) : CrdProg Unit := do
  let crd ← crdCall (.getCrd crdName)
  let status ← expectOf crd.status "CRD has no status"
  let storedVersions ← expectOf status.storedVersions "CRD has no stored versions"
  let _ ← crdCall (.patchCrdStatus crdName (storedVersions.filter (· ≠ crdVersion)))
  let crd ← crdCall (.getCrd crdName)
  let _ ← crdCall (.replaceCrd crdName
    { crd with versions := crd.versions.filter (· ≠ crdVersion) })

/-- Copy the networks of the VMs of a namespace to their status. -/
def upgradeNamespace (ns : String) : CrdProg Unit := do
  let vms ← crdCall (.listVms ns)
  Program.forEach vms fun vm => crdCall (.patchVmStatus vm.key vm.spec.networks)

/-- Move all VMs on from a version. -/
def upgradeVersion (version : String) : CrdProg Unit := do
  if version = "v1beta2" then
    let namespaces ← getNamespaceNames
    Program.forEach namespaces upgradeNamespace
    removeCrdVersion crdName version
  else return ()

def runMigrations : CrdProg Unit := do
  let vmCrd ← crdCall (.getCrd crdName)
  let status ← expectOf vmCrd.status "CRD has no status"
  Program.forEach (status.storedVersions.getD []) upgradeVersion

/-! ## Runs -/

/-- The API server serves a request, or the request fails before or after it has an effect. Only
deliveries of a certain kind happen. -/
def Relayed (kind : Delivery → Prop) (s : CrdServer) (r : CrdRequest)
    (a : Except KubeError r.Answer) (t : CrdServer) : Prop :=
  (kind .served ∧ s.serve r = (a, t)) ∨
    (kind .failed ∧ a = .error .unreachable ∧ t = s) ∨
    (kind .lost ∧ a = .error .unreachable ∧ t = (s.serve r).2)

/-- A run while the API server can be reached. -/
def CrdServer.run (s : CrdServer) (p : CrdProg Unit) : Option (Outcome Error Unit × CrdServer) :=
  p.runWith (fun s r => some (s.serve r)) s

/-- The state in which `create` leaves the API server for the migrations: both versions exist, and
all VMs are stored at the older one. -/
structure Prepared (s : CrdServer) : Prop where
  name : s.crd.name = crdName
  versions : s.crd.versions = ["v1beta2", "v1beta3"]
  storage : s.crd.storage = "v1beta3"
  status : s.crd.status = some ⟨some s.crd.stored⟩
  distinct : s.crd.stored.Nodup
  latest : "v1beta3" ∈ s.crd.stored
  known : ∀ v ∈ s.crd.stored, v ∈ s.crd.versions
  stored : ∀ vm ∈ s.vms, vm.version ∈ s.crd.stored
  older : ∀ vm ∈ s.vms, vm.version = "v1beta2" ∧ vm.asV1beta2.isSome = true
  namespaces : ∀ vm ∈ s.vms, vm.key.ns ∈ s.namespaces
  unique : (s.vms.map StoredVm.key).Nodup

/-- The VM can be read at the newer version, where it says what it said at the older one, and its
status has the networks of its spec. -/
def Carried (vm vm' : StoredVm) : Prop :=
  vm'.key = vm.key ∧ ∃ status, vm'.asV1beta3 = some (vm.spec, some status) ∧
    status.networks = vm.spec.networks ∧
    ∀ old, vm.status.bind StoredStatus.asV1beta2 = some old →
      old = ⟨status.scheduled, status.running, status.migrationPending, status.node,
        status.domainName, status.ipAddresses, status.ipAddressesString⟩

/-- All VMs have been carried over. -/
def Migrated (s t : CrdServer) : Prop := List.Forall₂ Carried s.vms t.vms

/-! ## One VM -/

namespace StoredVm

/-- The VM after its migration. -/
def migrate (vm : StoredVm) : StoredVm :=
  { vm with version := "v1beta3", status := vm.status.map fun status => status.patch vm.spec.networks }

/-- The VM is as it was or has been migrated, for which it needs a status. -/
def Stage (vm vm' : StoredVm) : Prop := vm' = vm ∨ (vm.status.isSome = true ∧ vm' = vm.migrate)

variable {vm vm' : StoredVm}

@[simp] theorem key_migrate : vm.migrate.key = vm.key := rfl
@[simp] theorem spec_migrate : vm.migrate.spec = vm.spec := rfl
@[simp] theorem version_migrate : vm.migrate.version = "v1beta3" := rfl

theorem Stage.key (h : vm.Stage vm') : vm'.key = vm.key := by
  rcases h with rfl | ⟨-, rfl⟩ <;> rfl

theorem Stage.spec (h : vm.Stage vm') : vm'.spec = vm.spec := by
  rcases h with rfl | ⟨-, rfl⟩ <;> rfl

/-- A status of the older version can be read at the newer one once it has networks. -/
theorem asV1beta3_patch {status : StoredStatus} {old : V1beta2.VirtualMachineStatus}
    (h : status.asV1beta2 = some old) (networks : List NetworkAttachment) :
    (status.patch networks).asV1beta3 = some ⟨old.scheduled, old.running, old.migrationPending,
      old.node, old.domainName, old.ipAddresses, old.ipAddressesString, networks⟩ := by
  have hpatch : (status.patch networks).asV1beta2 = status.asV1beta2 := rfl
  unfold StoredStatus.asV1beta3
  rw [hpatch, h]
  rfl

theorem status_of_asV1beta2 {status : StoredStatus} (h : vm.asV1beta2.isSome = true)
    (hs : vm.status = some status) : ∃ old, status.asV1beta2 = some old := by
  unfold asV1beta2 at h
  rw [hs] at h
  cases hold : status.asV1beta2 with
  | some old => exact ⟨old, rfl⟩
  | none => simp [hold] at h

theorem carried_migrate (h : vm.asV1beta2.isSome = true) (hs : vm.status.isSome = true) :
    Carried vm vm.migrate := by
  obtain ⟨status, hs⟩ := Option.isSome_iff_exists.mp hs
  obtain ⟨old, hold⟩ := status_of_asV1beta2 h hs
  refine ⟨rfl, ⟨old.scheduled, old.running, old.migrationPending, old.node, old.domainName,
    old.ipAddresses, old.ipAddressesString, vm.spec.networks⟩, ?_, rfl, ?_⟩
  · simp [asV1beta3, migrate, hs, asV1beta3_patch hold]
  · intro old' hold'
    rw [hs, Option.bind_some, hold] at hold'
    cases hold'
    rfl

theorem asV1beta2_same {v : V1beta2.VirtualMachine} (h : vm.asV1beta2 = some v) :
    v.key = vm.key ∧ v.spec.networks = vm.spec.networks := by
  unfold asV1beta2 at h
  cases hs : vm.status with
  | none =>
    rw [hs] at h
    cases h
    exact ⟨rfl, rfl⟩
  | some status =>
    rw [hs] at h
    obtain ⟨old, -, h⟩ := Option.bind_eq_some_iff.mp h
    cases h
    exact ⟨rfl, rfl⟩

/-- Both stages can be read at the older version. -/
theorem Stage.readable (h : vm.Stage vm') (hvm : vm.asV1beta2.isSome = true) :
    vm'.asV1beta2 = vm.asV1beta2 := by
  rcases h with rfl | ⟨hs, rfl⟩
  · rfl
  · obtain ⟨status, hs⟩ := Option.isSome_iff_exists.mp hs
    have hpatch : (status.patch vm.spec.networks).asV1beta2 = status.asV1beta2 := rfl
    simp [asV1beta2, migrate, hs, hpatch]

end StoredVm

/-- The objects of a list of VMs that can all be read. -/
theorem exists_mapM_asV1beta2 {l : List StoredVm} (h : ∀ vm ∈ l, vm.asV1beta2.isSome = true) :
    ∃ vms, l.mapM StoredVm.asV1beta2 = some vms ∧
      (∀ v ∈ vms, ∃ vm ∈ l, v.key = vm.key ∧ v.spec.networks = vm.spec.networks) ∧
      ∀ vm ∈ l, ∃ v ∈ vms, v.key = vm.key := by
  induction l with
  | nil => exact ⟨[], rfl, by simp, by simp⟩
  | cons vm l ih =>
    obtain ⟨vms, hvms, hfrom, hto⟩ := ih fun v hv => h v (List.mem_cons_of_mem _ hv)
    obtain ⟨v, hv⟩ := Option.isSome_iff_exists.mp (h vm List.mem_cons_self)
    obtain ⟨hk, hn⟩ := StoredVm.asV1beta2_same hv
    refine ⟨v :: vms, by simp [hv, hvms], fun v' hv' => ?_, fun vm' hvm' => ?_⟩
    · rcases List.mem_cons.mp hv' with rfl | hv'
      · exact ⟨vm, List.mem_cons_self, hk, hn⟩
      · obtain ⟨vm', hvm', hsame⟩ := hfrom v' hv'
        exact ⟨vm', List.mem_cons_of_mem _ hvm', hsame⟩
    · rcases List.mem_cons.mp hvm' with rfl | hvm'
      · exact ⟨v, List.mem_cons_self, hk⟩
      · obtain ⟨v', hv', hsame⟩ := hto vm' hvm'
        exact ⟨v', List.mem_cons_of_mem _ hv', hsame⟩

/-- A patch migrates a VM that has a status, and no other. -/
theorem patched_stage {s : CrdServer} {vm vm' : StoredVm} (hstorage : s.crd.storage = "v1beta3")
    (h : vm.Stage vm') (hvm : vm.asV1beta2.isSome = true) :
    (vm.status.isSome = true ∧ s.patched vm.spec.networks vm' = vm.migrate ∧
        (s.patched vm.spec.networks vm').asV1beta3.isSome = true) ∨
      (vm.status = none ∧ (s.patched vm.spec.networks vm').asV1beta3 = none) := by
  cases hs : vm.status with
  | none =>
    have hvm' : vm' = vm := h.resolve_right fun hmig => by simp [hs] at hmig
    refine .inr ⟨rfl, ?_⟩
    subst hvm'
    simp only [CrdServer.patched, hs, StoredVm.asV1beta3]
    rfl
  | some status =>
    obtain ⟨old, hold⟩ := StoredVm.status_of_asV1beta2 hvm hs
    have hmig : s.patched vm.spec.networks vm' = vm.migrate := by
      rcases h with rfl | ⟨-, rfl⟩
      · simp [CrdServer.patched, StoredVm.migrate, hstorage, hs]
      · simp [CrdServer.patched, StoredVm.migrate, hstorage, hs, StoredStatus.patch]
    refine .inl ⟨rfl, hmig, ?_⟩
    rw [hmig]
    simp [StoredVm.asV1beta3, StoredVm.migrate, hs, StoredVm.asV1beta3_patch hold]

/-! ## A run on its way -/

/-- Every VM has been migrated or is as it was. The older version is listed as stored until all of
them have been. -/
structure Midway (s₀ s : CrdServer) : Prop where
  name : s.crd.name = crdName
  storage : s.crd.storage = "v1beta3"
  status : s.crd.status = some ⟨some s.crd.stored⟩
  distinct : s.crd.stored.Nodup
  latest : "v1beta3" ∈ s.crd.stored
  known : ∀ v ∈ s.crd.stored, v ∈ s.crd.versions
  namespaces : s.namespaces = s₀.namespaces
  vms : List.Forall₂ StoredVm.Stage s₀.vms s.vms
  gone : "v1beta2" ∉ s.crd.stored → ∀ vm ∈ s.vms, vm.version = "v1beta3"

/-- The VM of the key has been migrated. -/
def Done (s : CrdServer) (k : Key) : Prop := ∀ vm ∈ s.vms, vm.key = k → vm.version = "v1beta3"

/-- VMs that have been migrated remain so, and the CRD is as before. -/
def Advances (s t : CrdServer) : Prop := t.crd = s.crd ∧ ∀ k, Done s k → Done t k

theorem Advances.refl (s : CrdServer) : Advances s s := ⟨rfl, fun _ h => h⟩

theorem Advances.trans {s t u : CrdServer} (h : Advances s t) (h' : Advances t u) : Advances s u :=
  ⟨h'.1.trans h.1, fun k hk => h'.2 k (h.2 k hk)⟩

section Midway

variable {s₀ s : CrdServer} {vm : StoredVm}

theorem forall₂_stage_refl (l : List StoredVm) : List.Forall₂ StoredVm.Stage l l :=
  List.forall₂_same.mpr fun _ _ => .inl rfl

theorem Prepared.midway (h : Prepared s) : Midway s s where
  name := h.name
  storage := h.storage
  status := h.status
  distinct := h.distinct
  latest := h.latest
  known := h.known
  namespaces := rfl
  vms := forall₂_stage_refl s.vms
  gone := fun hgone vm hvm => by
    have hstored := h.stored vm hvm
    rw [(h.older vm hvm).1] at hstored
    exact absurd hstored hgone

theorem exists_of_forall₂ {α β : Type} {R : α → β → Prop} {l : List α} {l' : List β}
    (h : List.Forall₂ R l l') : (∀ a ∈ l, ∃ b ∈ l', R a b) ∧ ∀ b ∈ l', ∃ a ∈ l, R a b := by
  induction h with
  | nil => exact ⟨nofun, nofun⟩
  | @cons a b l l' hab _ ih =>
    refine ⟨fun a' ha' => ?_, fun b' hb' => ?_⟩
    · rcases List.mem_cons.mp ha' with rfl | ha'
      · exact ⟨b, List.mem_cons_self, hab⟩
      · obtain ⟨b', hb', hR⟩ := ih.1 a' ha'
        exact ⟨b', List.mem_cons_of_mem _ hb', hR⟩
    · rcases List.mem_cons.mp hb' with rfl | hb'
      · exact ⟨a, List.mem_cons_self, hab⟩
      · obtain ⟨a', ha', hR⟩ := ih.2 b' hb'
        exact ⟨a', List.mem_cons_of_mem _ ha', hR⟩

variable (hp : Prepared s₀) (hm : Midway s₀ s)
include hp hm

/-- The VMs of the state, each beside what it was. -/
theorem Midway.stage (hvm : vm ∈ s.vms) :
    ∃ vm₀ ∈ s₀.vms, vm₀.Stage vm ∧ vm₀.asV1beta2.isSome = true := by
  obtain ⟨vm₀, hvm₀, hstage⟩ := (exists_of_forall₂ hm.vms).2 vm hvm
  exact ⟨vm₀, hvm₀, hstage, (hp.older vm₀ hvm₀).2⟩

/-- The VM with the key of a VM that was there is that VM. -/
theorem Midway.stage_of_key {vm₀ : StoredVm} (hvm₀ : vm₀ ∈ s₀.vms) (hvm : vm ∈ s.vms)
    (hk : vm.key = vm₀.key) : vm₀.Stage vm := by
  obtain ⟨vm₁, hvm₁, hstage⟩ := (exists_of_forall₂ hm.vms).2 vm hvm
  obtain rfl := List.inj_on_of_nodup_map hp.unique hvm₁ hvm₀ (hstage.key.symm.trans hk)
  exact hstage

/-- Once all VMs are stored at the newer version, they have been carried over. -/
theorem Midway.migrated (h : ∀ vm ∈ s.vms, vm.version = "v1beta3") : Migrated s₀ s := by
  have hall : ∀ vm₀ ∈ s₀.vms, vm₀.version = "v1beta2" ∧ vm₀.asV1beta2.isSome = true := hp.older
  have hvms := hm.vms
  unfold Migrated
  generalize s₀.vms = l at hall hvms
  generalize s.vms = l' at h hvms
  induction hvms with
  | nil => exact .nil
  | @cons vm₀ vm l l' hstage _ ih =>
    refine .cons ?_ (ih (fun v hv => hall v (List.mem_cons_of_mem _ hv))
      fun v hv => h v (List.mem_cons_of_mem _ hv))
    obtain ⟨hversion, hreadable⟩ := hall vm₀ List.mem_cons_self
    rcases hstage with rfl | ⟨hs, rfl⟩
    · have hv := h vm List.mem_cons_self
      rw [hversion] at hv
      simp at hv
    · exact StoredVm.carried_migrate hreadable hs

/-! ### The requests -/

omit hp in
theorem serve_getCrd : s.serve (.getCrd crdName) = (.ok s.crd, s) := by
  simp [CrdServer.serve, hm.name]

/-- The list of a namespace has the VMs that were there, with their networks. -/
theorem serve_listVms (hv : "v1beta2" ∈ s.crd.versions) (ns : String) :
    ∃ vms : List V1beta2.VirtualMachine, s.serve (.listVms ns) = (.ok vms, s) ∧
      (∀ v ∈ vms, ∃ vm₀ ∈ s₀.vms, v.key = vm₀.key ∧ v.spec.networks = vm₀.spec.networks) ∧
      ∀ vm₀ ∈ s₀.vms, vm₀.key.ns = ns → ∃ v ∈ vms, v.key = vm₀.key := by
  have hread : ∀ vm ∈ s.vms.filter (fun vm => vm.key.ns = ns), vm.asV1beta2.isSome = true := by
    intro vm hvm
    obtain ⟨vm₀, -, hstage, hreadable⟩ := hm.stage hp (List.mem_filter.mp hvm).1
    rwa [hstage.readable hreadable]
  obtain ⟨vms, hvms, hfrom, hto⟩ := exists_mapM_asV1beta2 hread
  refine ⟨vms, ?_, fun v hv => ?_, fun vm₀ hvm₀ hns => ?_⟩
  · simp [CrdServer.serve, hv, hvms]
  · obtain ⟨vm, hvm, hk, hn⟩ := hfrom v hv
    obtain ⟨vm₀, hvm₀, hstage, -⟩ := hm.stage hp (List.mem_filter.mp hvm).1
    exact ⟨vm₀, hvm₀, hk.trans hstage.key, hn.trans (by rw [hstage.spec])⟩
  · obtain ⟨vm, hvm, hstage⟩ := (exists_of_forall₂ hm.vms).1 vm₀ hvm₀
    obtain ⟨v, hv, hk⟩ := hto vm (List.mem_filter.mpr ⟨hvm, by simp [hstage.key, hns]⟩)
    exact ⟨v, hv, hk.trans hstage.key⟩

/-- The patch of a VM migrates it if it has a status, and is rejected otherwise. -/
theorem serve_patchVmStatus {vm₀ : StoredVm} (hvm₀ : vm₀ ∈ s₀.vms) :
    (∃ t, s.serve (.patchVmStatus vm₀.key vm₀.spec.networks) = (.ok (), t) ∧ Midway s₀ t ∧
        Advances s t ∧ Done t vm₀.key) ∨
      (vm₀.status = none ∧
        s.serve (.patchVmStatus vm₀.key vm₀.spec.networks) = (.error .invalid, s)) := by
  have hreadable := (hp.older vm₀ hvm₀).2
  have hversion : "v1beta3" ∈ s.crd.versions := hm.known _ hm.latest
  obtain ⟨vm, hfind⟩ : ∃ vm, s.vms.find? (fun vm => vm.key = vm₀.key) = some vm := by
    obtain ⟨vm, hvm, hstage⟩ := (exists_of_forall₂ hm.vms).1 vm₀ hvm₀
    refine Option.isSome_iff_exists.mp (List.find?_isSome.mpr ⟨vm, hvm, ?_⟩)
    exact decide_eq_true hstage.key
  have hvm := List.mem_of_find?_eq_some hfind
  have hkey : vm.key = vm₀.key := by simpa using List.find?_some hfind
  have hserve : s.serve (.patchVmStatus vm₀.key vm₀.spec.networks) =
      match (s.patched vm₀.spec.networks vm).asV1beta3 with
      | some _ => (.ok (), { s with vms := s.vms.map fun vm =>
          if vm.key = vm₀.key then s.patched vm₀.spec.networks vm else vm })
      | none => (.error .invalid, s) := by
    simp only [CrdServer.serve]
    rw [hfind]
    simp [hversion]
  rw [hserve]
  rcases patched_stage hm.storage (hm.stage_of_key hp hvm₀ hvm hkey) hreadable with
    ⟨hs, -, hsome⟩ | ⟨hs, hnone⟩
  · obtain ⟨v, hv⟩ := Option.isSome_iff_exists.mp hsome
    rw [hv]
    have hpatched : ∀ vm ∈ s.vms, vm.key = vm₀.key → s.patched vm₀.spec.networks vm = vm₀.migrate := by
      intro vm hvm hk
      rcases patched_stage hm.storage (hm.stage_of_key hp hvm₀ hvm hk) hreadable with
        ⟨-, hmig, -⟩ | ⟨hnone, -⟩
      · exact hmig
      · simp [hnone] at hs
    have hdone : ∀ vm ∈ s.vms.map (fun vm =>
        if vm.key = vm₀.key then s.patched vm₀.spec.networks vm else vm), ∀ k,
        Done s k → vm.key = k → vm.version = "v1beta3" := by
      intro vm' hvm' k hk hvk
      obtain ⟨vm, hvm, rfl⟩ := List.mem_map.mp hvm'
      split at hvk
      · next h =>
        rw [if_pos h, hpatched vm hvm h]
        rfl
      · next h =>
        rw [if_neg h]
        exact hk vm hvm hvk
    have hself : ∀ vm ∈ s.vms.map (fun vm =>
        if vm.key = vm₀.key then s.patched vm₀.spec.networks vm else vm), vm.key = vm₀.key →
        vm.version = "v1beta3" := by
      intro vm' hvm' hk
      obtain ⟨vm, hvm, rfl⟩ := List.mem_map.mp hvm'
      split at hk
      · next h =>
        rw [if_pos h, hpatched vm hvm h]
        rfl
      · next h => exact absurd hk h
    refine .inl ⟨_, rfl, ⟨hm.name, hm.storage, hm.status, hm.distinct, hm.latest, hm.known,
      hm.namespaces, ?_, fun hgone vm hvm => ?_⟩, ⟨rfl, fun k hk vm hvm => hdone vm hvm k hk⟩, hself⟩
    · have hstages := hm.vms
      have hmap : List.Forall₂ StoredVm.Stage s₀.vms (s.vms.map fun vm =>
          if vm.key = vm₀.key then s.patched vm₀.spec.networks vm else vm) := by
        rw [List.forall₂_map_right_iff]
        refine (List.forall₂_iff_zip.mpr ⟨hstages.length_eq, fun {a b} hab => ?_⟩)
        have hstage := (List.forall₂_iff_zip.mp hstages).2 hab
        obtain ⟨ha, hb⟩ := List.of_mem_zip hab
        split
        · next h =>
          rw [hpatched b hb h]
          obtain rfl := List.inj_on_of_nodup_map hp.unique ha hvm₀ (hstage.key.symm.trans h)
          exact .inr ⟨hs, rfl⟩
        · exact hstage
      exact hmap
    · exact hdone vm hvm _ (fun v hv _ => hm.gone hgone v hv) rfl
  · rw [hnone]
    exact .inr ⟨hs, rfl⟩

omit hp in
/-- The older version is struck from the list once no VM is stored at it. -/
theorem serve_patchCrdStatus (hall : ∀ vm ∈ s.vms, vm.version = "v1beta3") :
    ∃ t, s.serve (.patchCrdStatus crdName (s.crd.stored.filter (· ≠ "v1beta2"))) = (.ok (), t) ∧
      Midway s₀ t ∧ t.vms = s.vms ∧ "v1beta2" ∉ t.crd.stored := by
  have hlatest : "v1beta3" ∈ s.crd.stored.filter (· ≠ "v1beta2") :=
    List.mem_filter.mpr ⟨hm.latest, by decide⟩
  have hknown : ∀ v ∈ s.crd.stored.filter (· ≠ "v1beta2"), v ∈ s.crd.versions :=
    fun v hv => hm.known v (List.mem_filter.mp hv).1
  have hvalid : ({ s.crd with status := some ⟨some (s.crd.stored.filter (· ≠ "v1beta2"))⟩ } :
      CustomResourceDefinition).valid = true := by
    simp only [CustomResourceDefinition.valid, Option.bind_some, Bool.and_eq_true,
      List.contains_iff_mem, List.all_eq_true]
    exact ⟨hm.storage ▸ hlatest, hknown⟩
  refine ⟨{ s with crd := { s.crd with
      status := some ⟨some (s.crd.stored.filter (· ≠ "v1beta2"))⟩
      resourceVersion := s.crd.resourceVersion + 1 } }, ?_, ?_, rfl, ?_⟩
  · exact (if_pos hm.name.symm).trans (if_pos hvalid)
  · exact ⟨hm.name, hm.storage, rfl, hm.distinct.filter _, hlatest, hknown, hm.namespaces, hm.vms,
      fun _ => hall⟩
  · simp [CustomResourceDefinition.stored]

omit hp in
/-- A version that is not listed as stored can be removed. -/
theorem serve_replaceCrd (hgone : "v1beta2" ∉ s.crd.stored) :
    ∃ t, s.serve (.replaceCrd crdName
        { s.crd with versions := s.crd.versions.filter (· ≠ "v1beta2") }) = (.ok (), t) ∧
      Midway s₀ t ∧ t.vms = s.vms := by
  have hknown : ∀ v ∈ s.crd.stored, v ∈ s.crd.versions.filter (· ≠ "v1beta2") := by
    refine fun v hv => List.mem_filter.mpr ⟨hm.known v hv, ?_⟩
    rw [decide_eq_true_eq]
    rintro rfl
    exact hgone hv
  have hvalid : ({ s.crd with versions := s.crd.versions.filter (· ≠ "v1beta2") } :
      CustomResourceDefinition).valid = true := by
    have hstatus := hm.status
    simp only [CustomResourceDefinition.valid, hstatus, Option.bind_some, Bool.and_eq_true,
      List.contains_iff_mem, List.all_eq_true]
    exact ⟨hm.storage ▸ hm.latest, hknown⟩
  refine ⟨{ s with crd := { s.crd with
      versions := s.crd.versions.filter (· ≠ "v1beta2")
      resourceVersion := s.crd.resourceVersion + 1 } }, ?_, ?_, rfl⟩
  · exact (if_pos hm.name.symm).trans ((if_pos rfl).trans (if_pos hvalid))
  · exact ⟨hm.name, hm.storage, hm.status, hm.distinct, hm.latest, hknown, hm.namespaces, hm.vms,
      hm.gone⟩

end Midway

/-! ## The functions, request by request -/

/-- A run may end in an error: because a request fails, or because a VM has no status. -/
def Excused (kind : Delivery → Prop) (s₀ : CrdServer) : Prop :=
  (kind .failed ∨ kind .lost) ∨ ∃ vm ∈ s₀.vms, vm.status = none

/-- What a part of the run leaves when it has returned, and when it may fail. -/
def Part (kind : Delivery → Prop) (s₀ : CrdServer) (P : CrdServer → Prop) (o : Outcome Error Unit)
    (t : CrdServer) : Prop := (o = .ok () ∧ P t) ∨ (o ≠ .ok () ∧ Excused kind s₀)

section Functions

variable {kind : Delivery → Prop} {s₀ s t : CrdServer} {I P : CrdServer → Prop} {r : CrdRequest}
  {f : r.Answer → CrdProg Unit} {a : r.Answer} {post : Outcome Error Unit → CrdServer → Prop}

/-- A request that the server answers, and the rest of the program. -/
theorem always_crdCall (hI : I s) (hserve : s.serve r = (.ok a, t)) (ht : I t)
    (hok : (f a).Always (Relayed kind) I post t)
    (hfail : kind .failed ∨ kind .lost →
      post (.err (.kube .unreachable)) s ∧ post (.err (.kube .unreachable)) t) :
    (crdCall r >>= f).Always (Relayed kind) I post s := by
  refine ⟨hI, ?_⟩
  rintro x u (⟨-, hx⟩ | ⟨hk, rfl, rfl⟩ | ⟨hk, rfl, rfl⟩)
  · rw [hserve] at hx
    cases hx
    exact hok
  · exact ⟨hI, (hfail (.inl hk)).1⟩
  · rw [hserve]
    exact ⟨ht, (hfail (.inr hk)).2⟩

/-- A request that the server refuses. -/
theorem always_crdCall_error {e : KubeError} (hI : I s) (hserve : s.serve r = (.error e, s))
    (herr : ∀ e, post (.err e) s) : (crdCall r >>= f).Always (Relayed kind) I post s := by
  refine ⟨hI, ?_⟩
  rintro x u (⟨-, hx⟩ | ⟨-, rfl, rfl⟩ | ⟨-, rfl, rfl⟩)
  · rw [hserve] at hx
    cases hx
    exact ⟨hI, herr _⟩
  · exact ⟨hI, herr _⟩
  · rw [hserve]
    exact ⟨hI, herr _⟩

theorem part_error {e : Error} (h : Excused kind s₀) : Part kind s₀ P (.err e) t :=
  .inr ⟨nofun, h⟩

/-- The older version is removed. -/
theorem always_removeCrdVersion (hm : Midway s₀ s) (hall : ∀ vm ∈ s.vms, vm.version = "v1beta3") :
    (removeCrdVersion crdName "v1beta2").Always (Relayed kind) (Midway s₀)
      (Part kind s₀ fun t => ∀ vm ∈ t.vms, vm.version = "v1beta3") s := by
  obtain ⟨t, hpatch, ht, hvms, hgone⟩ := serve_patchCrdStatus hm hall
  obtain ⟨u, hreplace, hu, hvms'⟩ := serve_replaceCrd ht hgone
  unfold removeCrdVersion
  refine always_crdCall hm (serve_getCrd hm) hm ?_ fun hk => ⟨part_error (.inl hk), part_error (.inl hk)⟩
  rw [hm.status]
  refine always_crdCall hm hpatch ht ?_ fun hk => ⟨part_error (.inl hk), part_error (.inl hk)⟩
  refine always_crdCall ht (serve_getCrd ht) ht ?_ fun hk => ⟨part_error (.inl hk), part_error (.inl hk)⟩
  refine always_crdCall ht hreplace hu ?_ fun hk => ⟨part_error (.inl hk), part_error (.inl hk)⟩
  have hall' : ∀ vm ∈ u.vms, vm.version = "v1beta3" := by rwa [hvms', hvms]
  exact ⟨hu, .inl ⟨rfl, hall'⟩⟩

/-- The VMs of a namespace are migrated. -/
theorem always_upgradeNamespace (hp : Prepared s₀) (hm : Midway s₀ s)
    (hv : "v1beta2" ∈ s.crd.versions) (ns : String) :
    (upgradeNamespace ns).Always (Relayed kind) (Midway s₀) (fun o t => Midway s₀ t ∧ Advances s t ∧
      ((o = .ok () ∧ ∀ vm ∈ s₀.vms, vm.key.ns = ns → Done t vm.key) ∨
        (o ≠ .ok () ∧ Excused kind s₀))) s := by
  obtain ⟨vms, hlist, hfrom, hto⟩ := serve_listVms hp hm hv ns
  refine always_crdCall hm hlist hm ?_ fun hk =>
    ⟨⟨hm, .refl s, .inr ⟨nofun, .inl hk⟩⟩, hm, .refl s, .inr ⟨nofun, .inl hk⟩⟩
  have hloop : (Program.forEach vms fun vm => crdCall (.patchVmStatus vm.key vm.spec.networks)).Always
      (Relayed kind) (Midway s₀) _ s := Program.always_forEach
    (fun (v : V1beta2.VirtualMachine) t => Done t v.key) Advances (Excused kind s₀) .refl
    (fun _ _ _ => Advances.trans) (fun v t u hd hk => hk.2 v.key hd) hm fun v hv t ht hst => by
      obtain ⟨vm₀, hvm₀, hkey, hnet⟩ := hfrom v hv
      rw [hkey, hnet, ← Program.bind_ret (crdCall _)]
      rcases serve_patchVmStatus hp ht hvm₀ with ⟨u, hserve, hu, hadvances, hdone⟩ | ⟨hnone, hserve⟩
      · refine always_crdCall ht hserve hu ⟨hu, hu, hadvances, .inl ⟨rfl, hdone⟩⟩ fun hk =>
          ⟨⟨ht, .refl t, .inr ⟨nofun, .inl hk⟩⟩, hu, hadvances, .inr ⟨nofun, .inl hk⟩⟩
      · exact always_crdCall_error ht hserve fun e =>
          ⟨ht, .refl t, .inr ⟨nofun, .inr ⟨vm₀, hvm₀, hnone⟩⟩⟩
  refine hloop.mono fun o t h => ⟨h.1, h.2.1, h.2.2.imp ?_ id⟩
  rintro ⟨ho, hdone⟩
  refine ⟨ho, fun vm₀ hvm₀ hns => ?_⟩
  obtain ⟨v, hv, hkey⟩ := hto vm₀ hvm₀ hns
  exact hkey ▸ hdone v hv

/-- All VMs are migrated, and the older version is removed. -/
theorem always_upgradeVersion (hp : Prepared s₀) (hm : Midway s₀ s)
    (hv : "v1beta2" ∈ s.crd.versions) :
    (upgradeVersion "v1beta2").Always (Relayed kind) (Midway s₀)
      (Part kind s₀ fun t => ∀ vm ∈ t.vms, vm.version = "v1beta3") s := by
  unfold upgradeVersion
  rw [if_pos rfl]
  refine always_crdCall hm (t := s) rfl hm ?_ fun hk => ⟨part_error (.inl hk), part_error (.inl hk)⟩
  have hloop : (Program.forEach s.namespaces upgradeNamespace).Always (Relayed kind) (Midway s₀) _ s :=
    Program.always_forEach (fun ns t => ∀ vm ∈ s₀.vms, vm.key.ns = ns → Done t vm.key) Advances
      (Excused kind s₀) .refl (fun _ _ _ => Advances.trans)
      (fun ns t u hd hk vm hvm hns => hk.2 _ (hd vm hvm hns)) hm fun ns _ t ht hst =>
        always_upgradeNamespace hp ht (by rwa [hst.1]) ns
  refine hloop.bind (fun _ t h => ?_) (fun e t h => ?_) fun m t h => ?_
  · obtain ⟨ht, -, ⟨-, hdone⟩ | ⟨hne, -⟩⟩ := h
    · refine always_removeCrdVersion ht fun vm hvm => ?_
      obtain ⟨vm₀, hvm₀, hstage, -⟩ := ht.stage hp hvm
      refine hdone vm₀.key.ns ?_ vm₀ hvm₀ rfl vm hvm hstage.key
      rw [hm.namespaces]
      exact hp.namespaces vm₀ hvm₀
    · exact absurd rfl hne
  · obtain ⟨-, -, ⟨ho, -⟩ | ⟨hne, hex⟩⟩ := h
    · cases ho
    · exact .inr ⟨hne, hex⟩
  · obtain ⟨-, -, ⟨ho, -⟩ | ⟨hne, hex⟩⟩ := h
    · cases ho
    · exact .inr ⟨nofun, hex⟩

/-- Of the versions only the older one is worked on. -/
theorem forEach_upgradeVersion {l : List String} (hn : l.Nodup) :
    Program.forEach l upgradeVersion =
      if "v1beta2" ∈ l then upgradeVersion "v1beta2" else .ret () := by
  induction l with
  | nil => rfl
  | cons v l ih =>
    unfold Program.forEach
    rw [ih (List.nodup_cons.mp hn).2]
    by_cases hv : v = "v1beta2"
    · subst hv
      rw [if_neg (List.nodup_cons.mp hn).1, if_pos List.mem_cons_self]
      exact Program.bind_ret _
    · have hskip : upgradeVersion v = .ret () := if_neg hv
      rw [hskip, Program.ret_bind]
      simp [Ne.symm hv]

theorem always_runMigrations (hp : Prepared s₀) (hm : Midway s₀ s) :
    runMigrations.Always (Relayed kind) (Midway s₀)
      (Part kind s₀ fun t => ∀ vm ∈ t.vms, vm.version = "v1beta3") s := by
  unfold runMigrations
  refine always_crdCall hm (serve_getCrd hm) hm ?_ fun hk => ⟨part_error (.inl hk), part_error (.inl hk)⟩
  rw [hm.status]
  show (Program.forEach s.crd.stored upgradeVersion).Always _ _ _ s
  rw [forEach_upgradeVersion hm.distinct]
  split
  · next h => exact always_upgradeVersion hp hm (hm.known _ h)
  · next h => exact ⟨hm, .inl ⟨rfl, hm.gone h⟩⟩

end Functions

/-! ## Interruption and repetition -/

/-- An interrupted run of the migrations can be completed by another run, which carries all VMs over,
if and only if all VMs have a status. -/
theorem migration_preserves_iff {s : CrdServer} (hp : Prepared s) :
    (∀ t, runMigrations.Reaches (Relayed fun _ => True) s t →
      ∃ u, t.run runMigrations = some (.ok (), u) ∧ Migrated s u) ↔
    ∀ vm ∈ s.vms, vm.status.isSome = true := by
  have hrun : ∀ t u o, Midway s t → t.run runMigrations = some (o, u) → Midway s u ∧
      Part (fun d => d = .served) s (fun u => ∀ vm ∈ u.vms, vm.version = "v1beta3") o u := by
    intro t u o ht h
    have hends : runMigrations.Ends (Relayed fun d => d = .served) t o u :=
      Program.ends_of_runWith (fun _ _ _ _ hx => .inl ⟨rfl, Option.some.inj hx⟩) h
    exact ⟨(always_runMigrations hp ht).reaches hends.reaches,
      (always_runMigrations hp ht).after _ _ hends⟩
  constructor
  · intro h vm hvm
    obtain ⟨u, hu, -⟩ := h s (Program.reaches_refl _ _)
    obtain ⟨hmid, ⟨-, hall⟩ | ⟨hne, -⟩⟩ := hrun s u _ hp.midway hu
    · obtain ⟨vm', hvm', hstage⟩ := (exists_of_forall₂ hmid.vms).1 vm hvm
      have hversion := hall vm' hvm'
      rcases hstage with rfl | ⟨hs, -⟩
      · rw [(hp.older vm' hvm).1] at hversion
        simp at hversion
      · exact hs
    · exact absurd rfl hne
  · intro hall t ht
    have htm : Midway s t := (always_runMigrations hp hp.midway).reaches ht
    obtain ⟨o, u, hu⟩ := Program.exists_runWith CrdServer.serve runMigrations t
    obtain ⟨hmid, ⟨rfl, hdone⟩ | ⟨-, hex⟩⟩ := hrun t u o htm hu
    · exact ⟨u, hu, hmid.migrated hp hdone⟩
    · rcases hex with (hk | hk) | ⟨vm, hvm, hnone⟩
      · cases hk
      · cases hk
      · exact absurd hnone (Option.isSome_iff_ne_none.mp (hall vm hvm))

/-- An API server with one VM of the older version. -/
def oneVm (status : Option StoredStatus) : CrdServer where
  crd := ⟨crdName, 1, ["v1beta2", "v1beta3"], "v1beta3", some ⟨some ["v1beta2", "v1beta3"]⟩⟩
  namespaces := ["default"]
  vms := [⟨⟨"default", "web"⟩, "v1beta2",
    ⟨2, none, "4 Gi", [], [⟨some "lan", none, none, none, none, none, none⟩], none, none, none, none,
      none, none⟩, status⟩]

theorem prepared_oneVm : Prepared (oneVm none) where
  name := rfl
  versions := rfl
  storage := rfl
  status := rfl
  distinct := by decide
  latest := by decide
  known := by decide
  stored := by decide
  older := by decide
  namespaces := by decide
  unique := by decide

/-- The status of a VM that has been scheduled. -/
def webStatus : StoredStatus :=
  ⟨some true, some true, some false, some "node1", some "default-web", none, none, none⟩

/-- An API server with two VMs of the older version in two namespaces. -/
def twoVms : CrdServer where
  crd := (oneVm none).crd
  namespaces := ["default", "guest"]
  vms := (oneVm (some webStatus)).vms ++ [⟨⟨"guest", "db"⟩, "v1beta2",
    ⟨4, none, "8 Gi", [], [⟨some "lan", none, none, none, none, none, none⟩,
      ⟨none, some "br0", none, none, none, none, none⟩], none, none, none, none, none, none⟩,
    some { webStatus with domainName := some "guest-db" }⟩]

theorem prepared_twoVms : Prepared twoVms where
  name := rfl
  versions := rfl
  storage := rfl
  status := rfl
  distinct := by decide
  latest := by decide
  known := by decide
  stored := by decide
  older := by decide
  namespaces := by decide
  unique := by decide

/-- A request that is served, and the rest of the program. -/
theorem reaches_served {α : Type} {r : CrdRequest} {f : Except KubeError r.Answer → CrdProg α}
    {s t u : CrdServer} {a : Except KubeError r.Answer} (h : s.serve r = (a, t))
    (hf : (f a).Reaches (Relayed fun _ => True) t u) :
    (Program.call r f : CrdProg α).Reaches (Relayed fun _ => True) s u :=
  .inr ⟨a, t, .inl ⟨trivial, h⟩, hf⟩

/-- The first run is broken off between the two namespaces. -/
theorem migration_preserves_scheduled :
    ∃ t, runMigrations.Reaches (Relayed fun _ => True) twoVms t ∧
      t.vms.map StoredVm.version = ["v1beta3", "v1beta2"] ∧
      ∃ u, t.run runMigrations = some (.ok (), u) ∧ Migrated twoVms u := by
  have hreaches : runMigrations.Reaches (Relayed fun _ => True) twoVms _ :=
    reaches_served rfl (reaches_served rfl (reaches_served rfl (reaches_served rfl
      (Program.reaches_refl _ _))))
  exact ⟨_, hreaches, rfl, (migration_preserves_iff prepared_twoVms).mpr (by decide) _ hreaches⟩

/-- The patch of a VM that has no status yet is rejected. -/
theorem migration_blocked : ¬∀ s : CrdServer, Prepared s →
    ∀ t, runMigrations.Reaches (Relayed fun _ => True) s t →
      ∃ u, t.run runMigrations = some (.ok (), u) ∧ Migrated s u := by
  intro h
  obtain ⟨u, hu, -⟩ := h (oneVm none) prepared_oneVm _ (Program.reaches_refl _ _)
  have hrun : (oneVm none).run runMigrations = some (.err (.kube .invalid), oneVm none) := rfl
  rw [hrun] at hu
  simp at hu

end ClusterController
