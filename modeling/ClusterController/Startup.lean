import ClusterController.CrdMigration
import ClusterController.Lib.Interleaving

/-!
# Startup

`controllers::run` up to the start of the controllers: the `create` functions of the CRDs, one of which
migrates the virtual machines. Any number of processes may start up side by side, fail or be killed at any
request and begin again, while users and controllers that run already go on.
-/

namespace ClusterController

open ApiServer (Key KubeError)
open Interaction (Program Machine Terms Regime)

/-! ## Requests -/

/-- An event of the stream that `wait_crd_ready` reads. -/
inductive WatchEvent : Type
  | modified (conditions : Option (List (String × String)))
  | other
  | failed (e : KubeError)

inductive StartupRequest : Type
  | getCrd (name : String)
  /-- server-side apply of a CRD with these versions, one of which objects are stored at -/
  | applyCrd (name : String) (versions : List String) (storage : String)
  /-- the events about a CRD until the stream ends -/
  | watchCrd (name : String)
  | migration (r : CrdRequest)
  /-- `tokio::spawn` of the controllers -/
  | startTasks

/-- The content of an answer that is no error. -/
def StartupRequest.Answer : StartupRequest → Type
  | .getCrd _ => CustomResourceDefinition
  | .watchCrd _ => List WatchEvent
  | .migration r => r.Answer
  | _ => Unit

inductive StartupError : Type
  | other (e : Error)
  | crdMerge
  | timeout (text : String)

abbrev StartupProg (α : Type) :=
  Program StartupRequest (fun r => Except KubeError r.Answer) StartupError α

def startupCall (r : StartupRequest) : StartupProg r.Answer :=
  .call r fun
    | .ok a => .ret a
    | .error e => .fail (.other (.kube e))

/-- A function that talks to the API server about the CRD, as a part of the startup. -/
def CrdProg.embed {α : Type} (p : CrdProg α) : StartupProg α :=
  Program.embed StartupRequest.migration (fun _ a => a) StartupError.other p

/-! ## Functions -/

/-- The loop of `wait_crd_ready`. -/
def awaitAccepted (name : String) : List WatchEvent → StartupProg Unit
  | [] => .fail (.timeout ("Apply CRD " ++ name))
  | .modified conditions :: events =>
    match (conditions.getD []).find? fun c => c.1 = "NamesAccepted" with
    | some c => if c.2 = "True" then .ret () else awaitAccepted name events
    | none => awaitAccepted name events
  | .other :: events => awaitAccepted name events
  | .failed e :: _ => .fail (.other (.kube e))

def waitCrdReady (name : String) : StartupProg Unit := do
  match ← (startupCall (.getCrd name)).attempt with
  | .ok _ => return ()
  | .error _ =>
    let events ← startupCall (.watchCrd name)
    awaitAccepted name events

/-- `merge_crds` of CRDs with one version each: the versions of the result. -/
def mergeCrds (versions : List String) (storage : String) : StartupProg (List String) :=
  if versions.contains storage then .ret (storage :: (versions.erase storage).reverse) else .fail .crdMerge

/-- `create` of a CRD with several versions. -/
def createVersioned (name : String) (versions : List String) (latest : String)
    (migrate : StartupProg Unit) : StartupProg Unit := do
  let current ← (startupCall (.getCrd name)).attempt
  match current with
  | .ok crd =>
    if crd.versions = [latest] then startupCall (.applyCrd name [latest] latest) else upgrade
  | .error _ => upgrade
where
  upgrade : StartupProg Unit := do
    let merged ← mergeCrds versions latest
    startupCall (.applyCrd name merged latest)
    waitCrdReady name
    migrate
    startupCall (.applyCrd name [latest] latest)

/-- `create` of a CRD with one version. -/
def createSimple (name version : String) : StartupProg Unit := do
  startupCall (.applyCrd name [version] version)
  waitCrdReady name

def libvirtnodeCrd : String := "libvirtnodes.cluster-virt.acl.fi"

def volumeCrd : String := "volumes.cluster-virt.acl.fi"

def imageCrd : String := "images.cluster-virt.acl.fi"

def networkCrd : String := "networks.cluster-virt.acl.fi"

def routerCrd : String := "routers.cluster-virt.acl.fi"

/-- `crd::libvirtnode::create` -/
def createLibvirtnode : StartupProg Unit := createVersioned libvirtnodeCrd ["v1beta1"] "v1beta1" (.ret ())

/-- `crd::virtualmachine::create` -/
def createVirtualmachine : StartupProg Unit :=
  createVersioned crdName ["v1beta2", "v1beta3"] "v1beta3" (CrdProg.embed runMigrations)

/-- `crd::ceph::create` -/
def createCeph : StartupProg Unit := do
  createSimple volumeCrd "v1beta"
  createSimple imageCrd "v1beta"

/-- `crd::network::create` -/
def createNetwork : StartupProg Unit := createSimple networkCrd "v1beta"

/-- `crd::router::create` -/
def createRouter : StartupProg Unit := createSimple routerCrd "v1beta"

/-- `controllers::run` up to the start of the controllers. -/
def controllersRun : StartupProg Unit := do
  createLibvirtnode
  createVirtualmachine
  createCeph
  createNetwork
  createRouter
  startupCall .startTasks

/-! ## The API server -/

/-- The CRDs, the namespaces and the virtual machines, and all specs that users have written. -/
structure StartupServer where
  crds : String → Option CustomResourceDefinition
  namespaces : List String
  vms : List StoredVm
  written : List (Key × VirtualMachineSpec)

/-- What the state leaves open: the delivery and the events of a stream. -/
structure StartupChoice where
  delivery : Delivery := .served
  events : List WatchEvent := []

namespace StartupServer

def setCrd (s : StartupServer) (name : String) (crd : CustomResourceDefinition) : StartupServer :=
  { s with crds := Function.update s.crds name (some crd) }

/-- The CRD after the first apply. -/
def created (name : String) (versions : List String) (storage : String) : CustomResourceDefinition :=
  ⟨name, 1, versions, storage, some ⟨some [storage]⟩⟩

/-- The CRD after an apply, if there was one already. -/
def applied (crd : CustomResourceDefinition) (versions : List String) (storage : String) :
    CustomResourceDefinition :=
  { crd with
    versions := versions
    storage := storage
    status := some ⟨some (if storage ∈ crd.stored then crd.stored else crd.stored ++ [storage])⟩
    resourceVersion := crd.resourceVersion + 1 }

def applyCrd (s : StartupServer) (name : String) (versions : List String) (storage : String) :
    Except KubeError Unit × StartupServer :=
  match s.crds name with
  | none => (.ok (), s.setCrd name (created name versions storage))
  | some crd =>
    if (applied crd versions storage).valid then (.ok (), s.setCrd name (applied crd versions storage))
    else (.error .invalid, s)

/-- The part of the state that the migrations are about. -/
def view (s : StartupServer) (crd : CustomResourceDefinition) : CrdServer := ⟨crd, s.namespaces, s.vms⟩

def serveMigration (s : StartupServer) (r : CrdRequest) : Except KubeError r.Answer × StartupServer :=
  match s.crds crdName with
  | some crd =>
    let v := ((s.view crd).serve r).2
    (((s.view crd).serve r).1, { s.setCrd crdName v.crd with namespaces := v.namespaces, vms := v.vms })
  | none =>
    match r with
    | .listNamespaces => (.ok s.namespaces, s)
    | _ => (.error .notFound, s)

/-- The answer to a request and the state afterwards. -/
def serve (s : StartupServer) (events : List WatchEvent) :
    (r : StartupRequest) → Except KubeError r.Answer × StartupServer
  | .getCrd name =>
    match s.crds name with
    | some crd => (.ok crd, s)
    | none => (.error .notFound, s)
  | .applyCrd name versions storage => s.applyCrd name versions storage
  | .watchCrd _ => (.ok events, s)
  | .migration r => s.serveMigration r
  | .startTasks => (.ok (), s)

/-- A request may fail, before or after it has an effect. The start of the controllers is none of the API server. -/
def answer (s : StartupServer) (x : StartupChoice) (r : StartupRequest) :
    Except KubeError r.Answer × StartupServer :=
  match r, x.delivery with
  | .startTasks, _ => s.serve x.events .startTasks
  | r, .served => s.serve x.events r
  | _, .failed => (.error .unreachable, s)
  | r, .lost => (.error .unreachable, (s.serve x.events r).2)

end StartupServer

/-! ## Users and controllers -/

/-- What others do meanwhile. Nothing of the older release still writes a status. -/
inductive StartupEvent : Type
  | createNamespace (ns : String)
  | createVm (k : Key) (spec : VirtualMachineSpec)
  | editSpec (k : Key) (spec : VirtualMachineSpec)
  | deleteVm (k : Key)
  | writeStatus (k : Key) (status : VirtualMachineStatus)

/-- The fields of a status of the newer version. -/
def StoredStatus.of (status : VirtualMachineStatus) : StoredStatus :=
  ⟨some status.scheduled, some status.running, some status.migrationPending, status.node,
    some status.domainName, status.ipAddresses, status.ipAddressesString, some status.networks⟩

namespace StartupServer

/-- Change the VM of a key, which is stored at the current version then. -/
def changeVm (s : StartupServer) (k : Key) (storage : String) (f : StoredVm → StoredVm) : StartupServer :=
  { s with vms := s.vms.map fun vm => if vm.key = k then { f vm with version := storage } else vm }

def happen (s : StartupServer) : StartupEvent → Option StartupServer
  | .createNamespace ns => if ns ∈ s.namespaces then none else some { s with namespaces := ns :: s.namespaces }
  | .createVm k spec => do
    let crd ← s.crds crdName
    if k.ns ∈ s.namespaces ∧ ∀ vm ∈ s.vms, vm.key ≠ k then
      some { s with
        vms := s.vms ++ [⟨k, crd.storage, spec, none⟩]
        written := (k, spec) :: s.written }
    else none
  | .editSpec k spec => do
    let crd ← s.crds crdName
    if ∃ vm ∈ s.vms, vm.key = k then
      some { s.changeVm k crd.storage fun vm => { vm with spec := spec } with
        written := (k, spec) :: s.written }
    else none
  | .deleteVm k => some { s with vms := s.vms.filter fun vm => vm.key ≠ k }
  | .writeStatus k status => do
    let crd ← s.crds crdName
    if "v1beta3" ∈ crd.versions then
      some (s.changeVm k crd.storage fun vm => { vm with status := some (.of status) })
    else none

end StartupServer

/-- Processes that start up, each with a number of its own. -/
def startups : Machine Nat StartupRequest (fun r => Except KubeError r.Answer) StartupError Unit StartupServer
    StartupChoice Unit StartupEvent where
  answer _ s r x := some (s.answer x r)
  launch _ s _ := some (controllersRun, s)
  release _ s := s
  world s e := s.happen e

/-! ## What holds of every state -/

/-- The VM can be read at the newer version. -/
def StoredVm.Ready (vm : StoredVm) : Prop := vm.version = "v1beta3" ∧ vm.asV1beta3.isSome = true

namespace StoredVm

variable {vm : StoredVm}

theorem isSome_asV1beta2 :
    vm.asV1beta2.isSome = true ↔ ∀ status, vm.status = some status → status.asV1beta2.isSome = true := by
  unfold asV1beta2
  cases vm.status with
  | none => simp
  | some status => cases h : status.asV1beta2 <;> simp [h]

theorem isSome_asV1beta3 :
    vm.asV1beta3.isSome = true ↔ ∀ status, vm.status = some status → status.asV1beta3.isSome = true := by
  unfold asV1beta3
  cases vm.status with
  | none => simp
  | some status => cases h : status.asV1beta3 <;> simp [h]

end StoredVm

/-- The VM with the networks of a spec in its status. -/
def StoredVm.carry (vm : StoredVm) (networks : List NetworkAttachment) : StoredVm :=
  { vm with version := "v1beta3", status := vm.status.map fun status => status.patch networks }

theorem StoredVm.carry_read {vm : StoredVm} (h : vm.asV1beta2.isSome = true) (networks : List NetworkAttachment) :
    (vm.carry networks).asV1beta2.isSome = true ∧ (vm.carry networks).asV1beta3.isSome = true := by
  rw [isSome_asV1beta2, isSome_asV1beta3]
  refine ⟨fun status hst => ?_, fun status hst => ?_⟩
  · obtain ⟨status₀, hst₀, rfl⟩ := Option.map_eq_some_iff.mp hst
    exact isSome_asV1beta2.mp h status₀ hst₀
  · obtain ⟨status₀, hst₀, rfl⟩ := Option.map_eq_some_iff.mp hst
    obtain ⟨old, hold⟩ := Option.isSome_iff_exists.mp (isSome_asV1beta2.mp h status₀ hst₀)
    rw [asV1beta3_patch hold]
    rfl

/-- The CRDs beside that of the virtual machines, with their only versions. -/
def simpleCrds : List (String × String) :=
  [(libvirtnodeCrd, "v1beta1"), (volumeCrd, "v1beta"), (imageCrd, "v1beta"), (networkCrd, "v1beta"),
    (routerCrd, "v1beta")]

/-- The CRD of the virtual machines is that of the older release, of the newer one, or between them. -/
structure SaneCrd (crd : CustomResourceDefinition) : Prop where
  name : crd.name = crdName
  status : crd.status = some ⟨some crd.stored⟩
  storage : crd.storage ∈ crd.stored
  served : ∀ v ∈ crd.stored, v ∈ crd.versions
  known : ∀ v ∈ crd.stored, v = "v1beta2" ∨ v = "v1beta3"
  distinct : crd.stored.Nodup
  newer : "v1beta3" ∈ crd.versions → crd.storage = "v1beta3"

/-- While the older version is not listed, objects are stored at the newer one. -/
theorem SaneCrd.storage_of_struck {crd : CustomResourceDefinition} (h : SaneCrd crd) (hs : "v1beta2" ∉ crd.stored) :
    crd.storage = "v1beta3" := by
  refine (h.known _ h.storage).resolve_left fun he => hs ?_
  rw [← he]
  exact h.storage

namespace StartupServer

/-- Objects are stored at the newer version. -/
def Latest (s : StartupServer) : Prop := ∃ crd, s.crds crdName = some crd ∧ crd.storage = "v1beta3"

/-- The older version is not listed as stored. -/
def Struck (s : StartupServer) : Prop := ∀ crd, s.crds crdName = some crd → "v1beta2" ∉ crd.stored

/-- If there is a VM of this key, then it can be read at the newer version. -/
def Moved (s : StartupServer) (k : Key) : Prop := ∀ vm ∈ s.vms, vm.key = k → vm.Ready

/-- VMs are stored at versions that are listed and served, and the older version is listed until all VMs
can be read at the newer one. -/
structure Sound (s : StartupServer) : Prop where
  crd : ∀ crd, s.crds crdName = some crd → SaneCrd crd
  absent : s.crds crdName = none → s.vms = []
  stored : ∀ crd, s.crds crdName = some crd → ∀ vm ∈ s.vms, vm.version ∈ crd.stored
  moved : s.Struck → ∀ k, s.Moved k
  readable : ∀ vm ∈ s.vms, vm.asV1beta2.isSome = true
  unique : (s.vms.map StoredVm.key).Nodup
  namespaces : ∀ vm ∈ s.vms, vm.key.ns ∈ s.namespaces
  written : ∀ vm ∈ s.vms, (vm.key, vm.spec) ∈ s.written
  others : ∀ p ∈ simpleCrds, ∀ crd, s.crds p.1 = some crd → ∀ v ∈ crd.stored, v = p.2

/-- What never goes back. -/
structure Later (s t : StartupServer) : Prop where
  installed : ∀ name, (s.crds name).isSome = true → (t.crds name).isSome = true
  written : ∀ p ∈ s.written, p ∈ t.written
  latest : s.Latest → t.Latest
  struck : s.Struck → t.Struck
  moved : s.Latest → ∀ k, s.Moved k → t.Moved k

/-- The VMs stay as they are, or one that has a status gets the networks of a spec of its own. -/
def Touches (s t : StartupServer) : Prop :=
  t.vms = s.vms ∨ ∃ k spec, (k, spec) ∈ s.written ∧ (∀ vm ∈ s.vms, vm.key = k → vm.status.isSome = true) ∧
    t.vms = s.vms.map fun vm => if vm.key = k then vm.carry spec.networks else vm

variable {s t u : StartupServer} {crd : CustomResourceDefinition} {k : Key}

theorem Later.refl (s : StartupServer) : s.Later s := ⟨fun _ h => h, fun _ h => h, id, id, fun _ _ h => h⟩

theorem Later.trans (h : s.Later t) (h' : t.Later u) : s.Later u where
  installed name hs := h'.installed name (h.installed name hs)
  written p hp := h'.written p (h.written p hp)
  latest hs := h'.latest (h.latest hs)
  struck hs := h'.struck (h.struck hs)
  moved hs k hk := h'.moved (h.latest hs) k (h.moved hs k hk)

theorem crds_setCrd (s : StartupServer) (crd : CustomResourceDefinition) (name : String) :
    (s.setCrd name crd).crds name = some crd := Function.update_self _ _ _

theorem crds_setCrd_of_ne {name name' : String} (h : name' ≠ name) : (s.setCrd name crd).crds name' = s.crds name' :=
  Function.update_of_ne h _ _

theorem setCrd_self {name : String} (h : s.crds name = some crd) : s.setCrd name crd = s := by
  unfold setCrd
  rw [← h, Function.update_eq_self]

theorem crdName_not_simple : ∀ p ∈ simpleCrds, p.1 ≠ crdName := by decide

theorem simpleCrds_unique : ∀ p ∈ simpleCrds, ∀ q ∈ simpleCrds, p.1 = q.1 → p.2 = q.2 := by decide

theorem Latest.storage (h : s.Latest) (hcrd : s.crds crdName = some crd) : crd.storage = "v1beta3" := by
  obtain ⟨crd', hcrd', hstorage⟩ := h
  rwa [Option.some.inj (hcrd.symm.trans hcrd')]

/-! ### Users and controllers -/

/-- What the old VMs have, and the one of the key as well after it is written. -/
theorem forall_changeVm {storage : String} {f : StoredVm → StoredVm} {P : StoredVm → Prop} (hold : ∀ vm ∈ s.vms, P vm)
    (hnew : ∀ vm ∈ s.vms, vm.key = k → P { f vm with version := storage }) :
    ∀ vm ∈ (s.changeVm k storage f).vms, P vm := by
  intro vm hvm
  obtain ⟨vm₀, hvm₀, rfl⟩ := List.mem_map.mp hvm
  split
  · next h => exact hnew vm₀ hvm₀ h
  · exact hold vm₀ hvm₀

theorem keys_changeVm {storage : String} {f : StoredVm → StoredVm}
    (hf : ∀ vm ∈ s.vms, vm.key = k → (f vm).key = k) :
    (s.changeVm k storage f).vms.map StoredVm.key = s.vms.map StoredVm.key := by
  unfold changeVm
  rw [List.map_map]
  refine List.map_congr_left fun vm hvm => ?_
  dsimp only [Function.comp_apply]
  split
  · next h => exact (hf vm hvm h).trans h.symm
  · rfl

/-- The VM of a key is written anew. -/
theorem keeps_changeVm (hs : s.Sound) (hcrd : s.crds crdName = some crd) {w : List (Key × VirtualMachineSpec)}
    {f : StoredVm → StoredVm} (hw : ∀ p ∈ s.written, p ∈ w)
    (hf : ∀ vm ∈ s.vms, vm.key = k → (f vm).key = k ∧ (k, (f vm).spec) ∈ w ∧ (f vm).asV1beta2.isSome = true ∧
      (vm.asV1beta3.isSome = true → (f vm).asV1beta3.isSome = true)) :
    Sound { s.changeVm k crd.storage f with written := w } ∧
      s.Later { s.changeVm k crd.storage f with written := w } := by
  have hsane := hs.crd crd hcrd
  have hmoved : crd.storage = "v1beta3" → ∀ k', s.Moved k' →
      ∀ vm ∈ (s.changeVm k crd.storage f).vms, vm.key = k' → vm.Ready := by
    intro hstorage k' hk'
    refine forall_changeVm hk' fun vm hvm hk hkey => ⟨hstorage, ?_⟩
    have hkk : k = k' := (hf vm hvm hk).1.symm.trans hkey
    exact (hf vm hvm hk).2.2.2 (hk' vm hvm (hk.trans hkk)).2
  have hkeys : (s.changeVm k crd.storage f).vms.map StoredVm.key = s.vms.map StoredVm.key :=
    keys_changeVm fun vm hvm hk => (hf vm hvm hk).1
  refine ⟨⟨hs.crd, fun h => ?_, ?_, fun hstruck k' => ?_, ?_, hkeys ▸ hs.unique, ?_, ?_, hs.others⟩,
    ⟨fun _ h => h, hw, id, id, fun hlatest k' hk' => hmoved (hlatest.storage hcrd) k' hk'⟩⟩
  · exact nomatch hcrd.symm.trans h
  · intro crd' hcrd'
    obtain rfl := Option.some.inj (hcrd.symm.trans hcrd')
    exact forall_changeVm (hs.stored crd hcrd) fun vm hvm hk => hsane.storage
  · exact hmoved (hsane.storage_of_struck (hstruck crd hcrd)) k' (hs.moved hstruck k')
  · exact forall_changeVm hs.readable fun vm hvm hk => (hf vm hvm hk).2.2.1
  · refine forall_changeVm hs.namespaces fun vm hvm hk => ?_
    show (f vm).key.ns ∈ s.namespaces
    rw [(hf vm hvm hk).1, ← hk]
    exact hs.namespaces vm hvm
  · refine forall_changeVm (fun vm hvm => hw _ (hs.written vm hvm)) fun vm hvm hk => ?_
    show ((f vm).key, (f vm).spec) ∈ w
    rw [(hf vm hvm hk).1]
    exact (hf vm hvm hk).2.1

theorem keeps_createVm (hs : s.Sound) (hcrd : s.crds crdName = some crd) {spec : VirtualMachineSpec}
    (hns : k.ns ∈ s.namespaces) (hk : ∀ vm ∈ s.vms, vm.key ≠ k) :
    Sound { s with vms := s.vms ++ [⟨k, crd.storage, spec, none⟩], written := (k, spec) :: s.written } ∧
      s.Later { s with vms := s.vms ++ [⟨k, crd.storage, spec, none⟩], written := (k, spec) :: s.written } := by
  have hsane := hs.crd crd hcrd
  have hall : ∀ P : StoredVm → Prop, (∀ vm ∈ s.vms, P vm) → P ⟨k, crd.storage, spec, none⟩ →
      ∀ vm ∈ s.vms ++ [⟨k, crd.storage, spec, none⟩], P vm := by
    intro P hold hnew vm hvm
    rcases List.mem_append.mp hvm with hvm | hvm
    · exact hold vm hvm
    · rw [List.mem_singleton.mp hvm]
      exact hnew
  refine ⟨⟨hs.crd, fun h => ?_, ?_, fun hstruck k' => ?_, hall _ hs.readable rfl, ?_, hall _ hs.namespaces hns, ?_,
    hs.others⟩, ⟨fun _ h => h, fun p hp => List.mem_cons_of_mem _ hp, id, id, fun hlatest k' hk' => hall _ hk' fun _ =>
    ⟨hlatest.storage hcrd, rfl⟩⟩⟩
  · exact nomatch hcrd.symm.trans h
  · intro crd' hcrd'
    obtain rfl := Option.some.inj (hcrd.symm.trans hcrd')
    exact hall _ (hs.stored crd hcrd) hsane.storage
  · exact hall _ (hs.moved hstruck k') fun _ => ⟨hsane.storage_of_struck (hstruck crd hcrd), rfl⟩
  · rw [List.map_append, List.nodup_append]
    refine ⟨hs.unique, List.nodup_singleton _, fun a ha b hb => ?_⟩
    obtain ⟨vm, hvm, rfl⟩ := List.mem_map.mp ha
    rw [List.mem_singleton.mp hb]
    exact hk vm hvm
  · exact hall _ (fun vm hvm => List.mem_cons_of_mem _ (hs.written vm hvm)) List.mem_cons_self

theorem keeps_deleteVm (hs : s.Sound) : Sound { s with vms := s.vms.filter fun vm => vm.key ≠ k } ∧
    s.Later { s with vms := s.vms.filter fun vm => vm.key ≠ k } := by
  have hall : ∀ P : StoredVm → Prop, (∀ vm ∈ s.vms, P vm) → ∀ vm ∈ s.vms.filter fun vm => vm.key ≠ k, P vm :=
    fun P hold vm hvm => hold vm (List.mem_filter.mp hvm).1
  refine ⟨⟨hs.crd, fun h => ?_, fun crd hcrd => hall _ (hs.stored crd hcrd), fun hstruck k' =>
    hall _ (hs.moved hstruck k'), hall _ hs.readable, hs.unique.sublist (List.filter_sublist.map _),
    hall _ hs.namespaces, hall _ hs.written, hs.others⟩,
    ⟨fun _ h => h, fun _ h => h, id, id, fun _ k' hk' => hall _ hk'⟩⟩
  show s.vms.filter _ = []
  rw [hs.absent h]
  rfl

theorem keeps_happen {e : StartupEvent} (hs : s.Sound) (h : s.happen e = some t) : t.Sound ∧ s.Later t := by
  cases e with
  | createNamespace ns =>
    simp only [happen] at h
    split at h
    · cases h
    · cases h
      exact ⟨⟨hs.crd, hs.absent, hs.stored, hs.moved, hs.readable, hs.unique, fun vm hvm =>
        List.mem_cons_of_mem _ (hs.namespaces vm hvm), hs.written, hs.others⟩,
        ⟨fun _ h => h, fun _ h => h, id, id, fun _ _ h => h⟩⟩
  | createVm k spec =>
    obtain ⟨crd, hcrd, h⟩ := Option.bind_eq_some_iff.mp h
    split at h
    · next hnew =>
      cases h
      exact keeps_createVm hs hcrd hnew.1 hnew.2
    · cases h
  | editSpec k spec =>
    obtain ⟨crd, hcrd, h⟩ := Option.bind_eq_some_iff.mp h
    split at h
    · cases h
      -- What can be read of a VM depends on its status only.
      refine keeps_changeVm hs hcrd (fun p hp => List.mem_cons_of_mem _ hp) fun vm hvm hk =>
        ⟨hk, List.mem_cons_self, ?_, fun h => ?_⟩
      · have h := StoredVm.isSome_asV1beta2.mp (hs.readable vm hvm)
        exact StoredVm.isSome_asV1beta2.mpr h
      · have h' := StoredVm.isSome_asV1beta3.mp h
        exact StoredVm.isSome_asV1beta3.mpr h'
    · cases h
  | deleteVm k =>
    cases h
    exact keeps_deleteVm hs
  | writeStatus k status =>
    obtain ⟨crd, hcrd, h⟩ := Option.bind_eq_some_iff.mp h
    split at h
    · cases h
      refine keeps_changeVm hs hcrd (w := s.written) (fun _ hp => hp) fun vm hvm hk => ⟨hk, ?_, rfl, fun _ => rfl⟩
      rw [← hk]
      exact hs.written vm hvm
    · cases h

/-! ### Requests of a startup -/

/-- What each request of a startup does. -/
structure Kept (s t : StartupServer) : Prop where
  sound : t.Sound
  later : s.Later t
  touches : s.Touches t

theorem Kept.refl (hs : s.Sound) : s.Kept s := ⟨hs, .refl s, .inl rfl⟩

/-- The CRD of the virtual machines is written. -/
theorem kept_setCrd (hs : s.Sound) (hsane : SaneCrd crd) (hlatest : crd.storage = "v1beta3")
    (hstored : ∀ vm ∈ s.vms, vm.version ∈ crd.stored) (hmoved : "v1beta2" ∉ crd.stored → ∀ k, s.Moved k)
    (hstruck : s.Struck → "v1beta2" ∉ crd.stored) : s.Kept (s.setCrd crdName crd) := by
  have hget : ∀ crd', (s.setCrd crdName crd).crds crdName = some crd' → crd' = crd :=
    fun crd' h => Option.some.inj (h.symm.trans (crds_setCrd s crd crdName))
  refine ⟨⟨fun crd' h => hget crd' h ▸ hsane, fun h => ?_, fun crd' h => hget crd' h ▸ hstored,
    fun h => hmoved (h crd (crds_setCrd s crd crdName)), hs.readable, hs.unique, hs.namespaces, hs.written,
    fun p hp crd' h => ?_⟩, ⟨fun name h => ?_, fun _ h => h, fun _ => ⟨crd, crds_setCrd s crd crdName, hlatest⟩,
    fun h crd' hcrd' => hget crd' hcrd' ▸ hstruck h, fun _ _ h => h⟩, .inl rfl⟩
  · exact nomatch (crds_setCrd s crd crdName).symm.trans h
  · rw [crds_setCrd_of_ne (crdName_not_simple p hp)] at h
    exact hs.others p hp crd' h
  · by_cases hname : name = crdName
    · rw [hname, crds_setCrd]
      rfl
    · rwa [crds_setCrd_of_ne hname]

/-- Another CRD is written. -/
theorem kept_setCrd_simple (hs : s.Sound) {p : String × String} (hp : p ∈ simpleCrds)
    (hstored : ∀ v ∈ crd.stored, v = p.2) : s.Kept (s.setCrd p.1 crd) := by
  have hget : (s.setCrd p.1 crd).crds crdName = s.crds crdName :=
    crds_setCrd_of_ne (Ne.symm (crdName_not_simple p hp))
  have hiff : (s.setCrd p.1 crd).Struck ↔ s.Struck := by
    unfold Struck
    rw [hget]
  refine ⟨⟨fun crd' h => hs.crd crd' (hget ▸ h), fun h => hs.absent (hget ▸ h),
    fun crd' h => hs.stored crd' (hget ▸ h), fun h => hs.moved (hiff.mp h), hs.readable, hs.unique, hs.namespaces,
    hs.written, fun q hq crd' h => ?_⟩, ⟨fun name h => ?_, fun _ h => h, fun h => ?_, hiff.mpr, fun _ _ h => h⟩,
    .inl rfl⟩
  · by_cases hname : q.1 = p.1
    · rw [hname, crds_setCrd] at h
      cases h
      rw [simpleCrds_unique q hq p hp hname]
      exact hstored
    · rw [crds_setCrd_of_ne hname] at h
      exact hs.others q hq crd' h
  · by_cases hname : name = p.1
    · rw [hname, crds_setCrd]
      rfl
    · rwa [crds_setCrd_of_ne hname]
  · obtain ⟨crd', hcrd', hstorage⟩ := h
    exact ⟨crd', hget.trans hcrd', hstorage⟩

theorem valid_iff {stored : List String} (h : crd.status = some ⟨some stored⟩) :
    crd.valid = true ↔ crd.storage ∈ stored ∧ ∀ v ∈ stored, v ∈ crd.versions := by
  simp only [CustomResourceDefinition.valid, h, Option.bind_some, Bool.and_eq_true, List.contains_iff_mem,
    List.all_eq_true]

theorem mem_stored_created {name storage v : String} {versions : List String} :
    v ∈ (created name versions storage).stored ↔ v = storage := List.mem_singleton

theorem mem_stored_applied {versions : List String} {storage v : String} :
    v ∈ (applied crd versions storage).stored ↔ v ∈ crd.stored ∨ v = storage := by
  show v ∈ (if storage ∈ crd.stored then crd.stored else crd.stored ++ [storage]) ↔ _
  split
  · next h => exact ⟨.inl, fun hv => hv.elim id fun hv => hv ▸ h⟩
  · rw [List.mem_append, List.mem_singleton]

theorem nodup_stored_applied {versions : List String} {storage : String} (h : crd.stored.Nodup) :
    (applied crd versions storage).stored.Nodup := by
  show (if storage ∈ crd.stored then crd.stored else crd.stored ++ [storage]).Nodup
  split
  · exact h
  · next hnot => exact h.append (List.nodup_singleton _) (List.disjoint_singleton.mpr hnot)

theorem saneCrd_created {versions : List String} (hv : "v1beta3" ∈ versions) :
    SaneCrd (created crdName versions "v1beta3") where
  name := rfl
  status := rfl
  storage := mem_stored_created.mpr rfl
  served v h := by rwa [mem_stored_created.mp h]
  known v h := .inr (mem_stored_created.mp h)
  distinct := List.nodup_singleton _
  newer _ := rfl

theorem saneCrd_applied {versions : List String} (h : SaneCrd crd)
    (hvalid : (applied crd versions "v1beta3").valid = true) : SaneCrd (applied crd versions "v1beta3") where
  name := h.name
  status := rfl
  storage := ((valid_iff rfl).mp hvalid).1
  served := ((valid_iff rfl).mp hvalid).2
  known v hv := (mem_stored_applied.mp hv).elim (h.known v) .inr
  distinct := nodup_stored_applied h.distinct
  newer _ := rfl

/-- The CRD of the virtual machines is applied. That the older version goes is rejected while it is listed. -/
theorem kept_applyCrd (hs : s.Sound) {versions : List String} (hv : "v1beta3" ∈ versions) :
    s.Kept (s.applyCrd crdName versions "v1beta3").2 ∧ ((s.applyCrd crdName versions "v1beta3").1 = .ok () →
      (s.applyCrd crdName versions "v1beta3").2.Latest ∧
        ("v1beta2" ∉ versions → (s.applyCrd crdName versions "v1beta3").2.Struck)) := by
  unfold applyCrd
  split
  · next hnone =>
    have hsane := saneCrd_created hv
    have hstruck : "v1beta2" ∉ (created crdName versions "v1beta3").stored := by
      rw [mem_stored_created]
      decide
    have hget := crds_setCrd s (created crdName versions "v1beta3") crdName
    have hkept : s.Kept (s.setCrd crdName (created crdName versions "v1beta3")) := by
      refine kept_setCrd hs hsane rfl ?_ (fun _ k => ?_) fun _ => hstruck
      · rw [hs.absent hnone]
        exact fun vm hvm => absurd hvm List.not_mem_nil
      · intro vm hvm
        rw [hs.absent hnone] at hvm
        exact absurd hvm List.not_mem_nil
    refine ⟨hkept, fun _ => ⟨⟨_, hget, rfl⟩, fun _ crd h => ?_⟩⟩
    rwa [← Option.some.inj (hget.symm.trans h)]
  · next crd hcrd =>
    split
    · next hvalid =>
      have hsane := saneCrd_applied (hs.crd crd hcrd) hvalid
      have hstruck : s.Struck ↔ "v1beta2" ∉ (applied crd versions "v1beta3").stored := by
        rw [mem_stored_applied]
        refine ⟨fun h hin => hin.elim (h crd hcrd) (by decide), fun h crd' hcrd' hin => h (.inl ?_)⟩
        rwa [Option.some.inj (hcrd.symm.trans hcrd')]
      have hget := crds_setCrd s (applied crd versions "v1beta3") crdName
      have hkept : s.Kept (s.setCrd crdName (applied crd versions "v1beta3")) := by
        refine kept_setCrd hs hsane rfl (fun vm hvm => ?_) (fun h => hs.moved (hstruck.mpr h)) hstruck.mp
        exact mem_stored_applied.mpr (.inl (hs.stored crd hcrd vm hvm))
      refine ⟨hkept, fun _ => ⟨⟨_, hget, rfl⟩, fun hnot crd' h hin => hnot ?_⟩⟩
      rw [← Option.some.inj (hget.symm.trans h)] at hin
      exact hsane.served _ hin
    · exact ⟨.refl hs, nofun⟩

theorem kept_applyCrd_simple (hs : s.Sound) {name version : String} (hp : (name, version) ∈ simpleCrds) :
    s.Kept (s.applyCrd name [version] version).2 ∧ ((s.applyCrd name [version] version).1 = .ok () →
      ((s.applyCrd name [version] version).2.crds name).isSome = true) := by
  have hdone : ∀ crd, ((s.setCrd name crd).crds name).isSome = true := by
    intro crd
    rw [crds_setCrd]
    rfl
  unfold applyCrd
  split
  · exact ⟨kept_setCrd_simple hs hp fun v h => List.mem_singleton.mp h, fun _ => hdone _⟩
  · next crd hcrd =>
    split
    · refine ⟨kept_setCrd_simple hs hp fun v h => ?_, fun _ => hdone _⟩
      exact (mem_stored_applied.mp h).elim (hs.others _ hp crd hcrd v) id
    · exact ⟨.refl hs, nofun⟩

/-! ### Requests of the migrations -/

theorem serveMigration_none {r : CrdRequest} (h : s.crds crdName = none) : (s.serveMigration r).2 = s := by
  unfold serveMigration
  rw [h]
  cases r <;> rfl

theorem serveMigration_some (h : s.crds crdName = some crd) (r : CrdRequest) :
    s.serveMigration r = (((s.view crd).serve r).1, { s.setCrd crdName ((s.view crd).serve r).2.crd with
      namespaces := ((s.view crd).serve r).2.namespaces
      vms := ((s.view crd).serve r).2.vms }) := by
  unfold serveMigration
  rw [h]

/-- A request that the state remains the same in. -/
theorem serveMigration_same (h : s.crds crdName = some crd) {r : CrdRequest}
    (hserve : ((s.view crd).serve r).2 = s.view crd) : s.serveMigration r = (((s.view crd).serve r).1, s) := by
  rw [serveMigration_some h, hserve]
  show (_, { s.setCrd crdName crd with namespaces := s.namespaces, vms := s.vms }) = _
  rw [setCrd_self h]

theorem serve_getCrd (hs : s.Sound) : (s.serveMigration (.getCrd crdName)).2 = s ∧
    ∀ crd, (s.serveMigration (.getCrd crdName)).1 = .ok crd → s.crds crdName = some crd := by
  cases hcrd : s.crds crdName with
  | none =>
    refine ⟨serveMigration_none hcrd, fun crd h => ?_⟩
    unfold serveMigration at h
    rw [hcrd] at h
    cases h
  | some crd =>
    have hserve : (s.view crd).serve (.getCrd crdName) = (.ok crd, s.view crd) :=
      if_pos (hs.crd crd hcrd).name.symm
    rw [serveMigration_same hcrd (congrArg Prod.snd hserve), hserve]
    exact ⟨rfl, fun crd' h => congrArg some (Except.ok.inj h)⟩

theorem serve_listNamespaces : s.serveMigration .listNamespaces = (.ok s.namespaces, s) := by
  cases hcrd : s.crds crdName with
  | none =>
    unfold serveMigration
    rw [hcrd]
  | some crd => exact serveMigration_same hcrd rfl

/-- The list of a namespace has all its VMs, with their networks. -/
theorem serve_listVms (hs : s.Sound) (ns : String) : (s.serveMigration (.listVms ns)).2 = s ∧
    ∀ vms : List V1beta2.VirtualMachine, (s.serveMigration (.listVms ns)).1 = .ok vms →
      (∀ v ∈ vms, ∃ vm ∈ s.vms, v.key = vm.key ∧ v.spec.networks = vm.spec.networks) ∧
      ∀ vm ∈ s.vms, vm.key.ns = ns → ∃ v ∈ vms, v.key = vm.key := by
  cases hcrd : s.crds crdName with
  | none =>
    refine ⟨serveMigration_none hcrd, fun vms h => ?_⟩
    unfold serveMigration at h
    rw [hcrd] at h
    cases h
  | some crd =>
    obtain ⟨vms, hvms, hfrom, hto⟩ := exists_mapM_asV1beta2
      (l := s.vms.filter fun vm => vm.key.ns = ns) fun vm hvm => hs.readable vm (List.mem_filter.mp hvm).1
    have hserve : (s.view crd).serve (.listVms ns) =
        (if crd.versions.contains "v1beta2" then .ok vms else .error .notFound, s.view crd) := by
      simp only [CrdServer.serve, view, hvms]
      split <;> rfl
    rw [serveMigration_same hcrd (congrArg Prod.snd hserve), hserve]
    refine ⟨rfl, fun vms' h => ?_⟩
    obtain rfl : vms = vms' := by
      dsimp only at h
      split at h
      · exact Except.ok.inj h
      · cases h
    refine ⟨fun v hv => ?_, fun vm hvm hns => hto vm (List.mem_filter.mpr ⟨hvm, decide_eq_true hns⟩)⟩
    obtain ⟨vm, hvm, hsame⟩ := hfrom v hv
    exact ⟨vm, (List.mem_filter.mp hvm).1, hsame⟩

/-- The VM of a key as a patch leaves it. -/
theorem patched_eq_carry {vm : StoredVm} {networks : List NetworkAttachment} (hstorage : crd.storage = "v1beta3")
    (hst : vm.status.isSome = true) : (s.view crd).patched networks vm = vm.carry networks := by
  obtain ⟨status, hst⟩ := Option.isSome_iff_exists.mp hst
  simp [CrdServer.patched, StoredVm.carry, view, hstorage, hst]

/-- A patch of a VM is rejected unless the VM can be read at the newer version then. -/
theorem patchVmStatus_cases (v : CrdServer) (k : Key) (networks : List NetworkAttachment) :
    (∃ e, v.serve (.patchVmStatus k networks) = (.error e, v)) ∨
      ∃ vm ∈ v.vms, vm.key = k ∧ "v1beta3" ∈ v.crd.versions ∧
        (v.patched networks vm).asV1beta3.isSome = true ∧
        v.serve (.patchVmStatus k networks) = (.ok (), { v with
          vms := v.vms.map fun vm => if vm.key = k then v.patched networks vm else vm }) := by
  simp only [CrdServer.serve]
  split
  · exact .inl ⟨_, rfl⟩
  · next vm hfind =>
    split
    · next hv =>
      split
      · next hread =>
        refine .inr ⟨vm, List.mem_of_find?_eq_some hfind, ?_, List.contains_iff_mem.mp hv, ?_, rfl⟩
        · simpa using List.find?_some hfind
        · rw [hread]
          rfl
      · exact .inl ⟨_, rfl⟩
    · exact .inl ⟨_, rfl⟩

/-- An accepted patch writes the VM of the key. -/
theorem patchVmStatus_eq {networks : List NetworkAttachment} (hcrd : s.crds crdName = some crd)
    (hstorage : crd.storage = "v1beta3") (hst : ∀ vm ∈ s.vms, vm.key = k → vm.status.isSome = true)
    (hserve : (s.view crd).serve (.patchVmStatus k networks) = (.ok (), { s.view crd with
      vms := (s.view crd).vms.map fun vm => if vm.key = k then (s.view crd).patched networks vm else vm })) :
    (s.serveMigration (.patchVmStatus k networks)).2 =
      { s.changeVm k crd.storage fun vm => vm.carry networks with written := s.written } := by
  rw [serveMigration_some hcrd, hserve]
  show ({ s.setCrd crdName crd with
    namespaces := s.namespaces
    vms := s.vms.map fun vm => if vm.key = k then (s.view crd).patched networks vm else vm } : StartupServer) = _
  rw [setCrd_self hcrd]
  refine congrArg (fun vms => { s with vms := vms }) (List.map_congr_left fun vm hvm => ?_)
  split
  · next h =>
    rw [patched_eq_carry hstorage (hst vm hvm h), hstorage]
    rfl
  · rfl

theorem kept_patchVmStatus (hs : s.Sound) {spec : VirtualMachineSpec} (hw : (k, spec) ∈ s.written) :
    s.Kept (s.serveMigration (.patchVmStatus k spec.networks)).2 ∧
      ∀ a, (s.serveMigration (.patchVmStatus k spec.networks)).1 = .ok a →
        (s.serveMigration (.patchVmStatus k spec.networks)).2.Moved k := by
  cases hcrd : s.crds crdName with
  | none =>
    rw [serveMigration_none hcrd]
    refine ⟨.refl hs, fun a h => ?_⟩
    unfold serveMigration at h
    rw [hcrd] at h
    cases h
  | some crd =>
    rcases patchVmStatus_cases (s.view crd) k spec.networks with ⟨e, hserve⟩ | ⟨vm, hvm, hkey, hv, hread, hserve⟩
    · rw [serveMigration_same hcrd (congrArg Prod.snd hserve), hserve]
      exact ⟨.refl hs, nofun⟩
    · have hstorage := (hs.crd crd hcrd).newer hv
      -- Without a status the VM could not be read now. There is no other VM of the key.
      have hst : ∀ vm' ∈ s.vms, vm'.key = k → vm'.status.isSome = true := by
        intro vm' hvm' hkey'
        obtain rfl := List.inj_on_of_nodup_map hs.unique hvm' hvm (hkey'.trans hkey.symm)
        cases hst : vm'.status with
        | some status => rfl
        | none =>
          simp only [CrdServer.patched, hst, StoredVm.asV1beta3] at hread
          exact absurd hread Bool.false_ne_true
      have hf := keeps_changeVm hs hcrd (k := k) (w := s.written) (f := fun vm => vm.carry spec.networks)
        (fun _ hp => hp) fun vm' hvm' hkey' => by
          obtain ⟨hread₂, hread₃⟩ := StoredVm.carry_read (hs.readable vm' hvm') spec.networks
          exact ⟨hkey', hkey' ▸ hs.written vm' hvm', hread₂, fun _ => hread₃⟩
      rw [patchVmStatus_eq hcrd hstorage hst hserve]
      refine ⟨⟨hf.1, hf.2, .inr ⟨k, spec, hw, hst, ?_⟩⟩, fun _ _ => ?_⟩
      · refine List.map_congr_left fun vm' hvm' => ?_
        rw [hstorage]
        rfl
      · intro vm' hvm' hkey'
        obtain ⟨vm₀, hvm₀, rfl⟩ := List.mem_map.mp hvm'
        split at hkey'
        · next h =>
          rw [if_pos h]
          exact ⟨hstorage, (StoredVm.carry_read (hs.readable vm₀ hvm₀) spec.networks).2⟩
        · next h => exact absurd hkey' h

/-- A request that writes the CRD. -/
theorem serveMigration_writeCrd {crd' : CustomResourceDefinition} {r : CrdRequest} (h : s.crds crdName = some crd)
    (hserve : ((s.view crd).serve r).2 = ((s.view crd).writeCrd crd').2) : (s.serveMigration r).2 =
      if crd'.valid then s.setCrd crdName { crd' with resourceVersion := crd.resourceVersion + 1 } else s := by
  rw [serveMigration_some h, hserve]
  unfold CrdServer.writeCrd
  split
  · rfl
  · exact setCrd_self h

/-- The older version is struck from the list once all VMs can be read at the newer one. -/
theorem kept_patchCrdStatus (hs : s.Sound) (hlatest : s.Latest) (hmoved : ∀ k, s.Moved k) {stored : List String}
    (hstored : ∀ v ∈ stored, v = "v1beta3") (hdistinct : stored.Nodup) :
    s.Kept (s.serveMigration (.patchCrdStatus crdName stored)).2 := by
  obtain ⟨crd, hcrd, hstorage⟩ := hlatest
  have hsane := hs.crd crd hcrd
  have hserve : ((s.view crd).serve (.patchCrdStatus crdName stored)).2 =
      ((s.view crd).writeCrd { crd with status := some ⟨some stored⟩ }).2 :=
    congrArg Prod.snd (if_pos hsane.name.symm)
  rw [serveMigration_writeCrd hcrd hserve]
  split
  · next hvalid =>
    obtain ⟨hmem, hserved⟩ := (valid_iff rfl).mp hvalid
    have hnot : "v1beta2" ∉ stored := fun h => absurd (hstored _ h) (by decide)
    refine kept_setCrd hs ⟨hsane.name, rfl, hmem, hserved, fun v h => .inr (hstored v h), hdistinct, hsane.newer⟩
      hstorage (fun vm hvm => ?_) (fun _ => hmoved) fun _ => hnot
    rw [(hmoved vm.key vm hvm rfl).1, ← hstorage]
    exact hmem
  · exact .refl hs

/-- The versions of the CRD are written. The list of the stored ones stays. -/
theorem kept_replaceCrd (hs : s.Sound) (hlatest : crd.storage = "v1beta3") :
    s.Kept (s.serveMigration (.replaceCrd crdName crd)).2 := by
  cases hcrd : s.crds crdName with
  | none =>
    rw [serveMigration_none hcrd]
    exact .refl hs
  | some crd₀ =>
    have hsane := hs.crd crd₀ hcrd
    by_cases hversion : crd.resourceVersion = crd₀.resourceVersion
    · have hserve : ((s.view crd₀).serve (.replaceCrd crdName crd)).2 =
          ((s.view crd₀).writeCrd { crd with name := crd₀.name, status := crd₀.status }).2 :=
        congrArg Prod.snd ((if_pos hsane.name.symm).trans (if_pos hversion))
      rw [serveMigration_writeCrd hcrd hserve]
      split
      · next hvalid =>
        have hstatus : ({ crd with name := crd₀.name, status := crd₀.status } : CustomResourceDefinition).status =
            some ⟨some crd₀.stored⟩ := hsane.status
        obtain ⟨hmem, hserved⟩ := (valid_iff hstatus).mp hvalid
        exact kept_setCrd hs ⟨hsane.name, hsane.status, hmem, hserved, hsane.known, hsane.distinct, fun _ => hlatest⟩
          hlatest (hs.stored crd₀ hcrd) (fun h => hs.moved fun crd' h' => Option.some.inj (hcrd.symm.trans h') ▸ h)
          fun h => h crd₀ hcrd
      · exact .refl hs
    · have hserve : ((s.view crd₀).serve (.replaceCrd crdName crd)).2 = s.view crd₀ :=
        congrArg Prod.snd ((if_pos hsane.name.symm).trans (if_neg hversion))
      rw [serveMigration_same hcrd hserve]
      exact .refl hs

theorem serve_read (s : StartupServer) (events : List WatchEvent) (name : String) :
    (s.serve events (.getCrd name)).2 = s ∧
      ∀ crd, (s.serve events (.getCrd name)).1 = .ok crd → s.crds name = some crd := by
  simp only [serve]
  cases s.crds name with
  | none => exact ⟨rfl, fun _ h => nomatch h⟩
  | some crd => exact ⟨rfl, fun _ h => congrArg some (Except.ok.inj h)⟩

/-- The controllers can go to work: all CRDs are there, and all VMs can be read at the newer version. -/
structure Upgraded (s : StartupServer) : Prop where
  installed : ∀ name ∈ [libvirtnodeCrd, crdName, volumeCrd, imageCrd, networkCrd, routerCrd],
    (s.crds name).isSome = true
  struck : s.Struck
  ready : ∀ vm ∈ s.vms, vm.Ready

theorem Upgraded.later (h : s.Upgraded) (hl : s.Later t) (ht : t.Sound) : t.Upgraded where
  installed name hname := hl.installed name (h.installed name hname)
  struck := hl.struck h.struck
  ready vm hvm := ht.moved (hl.struck h.struck) vm.key vm hvm rfl

theorem answer_cases {r : StartupRequest} (hr : r ≠ .startTasks) (x : StartupChoice) :
    s.answer x r = s.serve x.events r ∨ s.answer x r = (.error .unreachable, s) ∨
      s.answer x r = (.error .unreachable, (s.serve x.events r).2) := by
  unfold answer
  cases r with
  | startTasks => exact absurd rfl hr
  | _ => cases x.delivery <;> simp

end StartupServer

/-! ## Startups side by side -/

open StartupServer (Sound Later Kept Struck Moved Latest Upgraded)
open Interaction.Contract (wp_mono wp_bind wp_attempt wp_forEach)

/-- A process starts the controllers only when they can go to work. -/
def startupTerms : Terms Nat StartupRequest StartupServer where
  inv := Sound
  rely _ := Later
  guar _ s r t := s.Kept t ∧ (r = .startTasks → s.Upgraded)

/-- Whatever others do in between: the program keeps the terms, and `done` holds when it returns. -/
def Leads {α : Type} (w : Nat) (p : StartupProg α) (done : α → StartupServer → Prop) (s : StartupServer) : Prop :=
  (startupTerms.contract startups (fun _ _ => True) w).wp p
    (fun x t => s.Later t ∧ ∀ a, x = .ok a → done a t) s

section Leads

variable {α β : Type} {w : Nat} {s t : StartupServer} {p : StartupProg α} {f : α → StartupProg β}
  {done : α → StartupServer → Prop} {done' : β → StartupServer → Prop} {k : Key}

theorem leads_ret {a : α} (h : done a s) : Leads w (.ret a) done s :=
  ⟨.refl s, fun b hb => by cases hb; exact h⟩

theorem leads_fail {e : StartupError} : Leads w (.fail e) done s := ⟨.refl s, nofun⟩

theorem leads_call {r : StartupRequest} {P : r.Answer → StartupServer → Prop} (hr : r ≠ .startTasks)
    (h : ∀ s₁ events, s.Later s₁ → s₁.Sound → s₁.Kept (s₁.serve events r).2 ∧
      ∀ a, (s₁.serve events r).1 = .ok a → P a (s₁.serve events r).2) : Leads w (startupCall r) P s := by
  intro s₁ hs₁ hsound a t hexec
  obtain ⟨x, -, ha⟩ := hexec
  have ha : s₁.answer x r = (a, t) := Option.some.inj ha
  obtain ⟨hkept, hP⟩ := h s₁ x.events hs₁ hsound
  -- An answer that is an error says nothing, but the request may have had its effect.
  obtain ⟨ht, hok⟩ : s₁.Kept t ∧ ∀ v, a = .ok v → P v t := by
    rcases StartupServer.answer_cases (s := s₁) hr x with h | h | h <;> rw [h] at ha
    · obtain ⟨hres, rfl⟩ := Prod.mk.inj ha
      exact ⟨hkept, fun v hv => hP v (hres.trans hv)⟩
    · cases ha
      exact ⟨.refl hsound, nofun⟩
    · cases ha
      exact ⟨hkept, nofun⟩
  refine ⟨⟨ht, fun h => absurd h hr⟩, ?_⟩
  cases a with
  | error e => exact ⟨hs₁.trans ht.later, nofun⟩
  | ok v => exact ⟨hs₁.trans ht.later, fun b hb => by cases hb; exact hok v rfl⟩

theorem leads_bind (h : Leads w p done s) (hf : ∀ a t, s.Later t → done a t → Leads w (f a) done' t) :
    Leads w (p >>= f) done' s := by
  refine wp_bind (wp_mono h fun x t hx => ?_)
  cases x with
  | error e => exact ⟨hx.1, nofun⟩
  | ok a => exact wp_mono (hf a t hx.1 (hx.2 a rfl)) fun y u hy => ⟨hx.1.trans hy.1, hy.2⟩

theorem leads_attempt (h : Leads w p done s) : Leads w p.attempt (fun x t => ∀ a, x = .ok a → done a t) s :=
  wp_attempt (wp_mono h fun x t hx => ⟨hx.1, fun y hy a ha => hx.2 a (by cases hy; exact ha)⟩)

theorem leads_mono {done' : α → StartupServer → Prop} (h : Leads w p done s)
    (hd : ∀ a t, s.Later t → done a t → done' a t) : Leads w p done' s :=
  wp_mono h fun _ t hx => ⟨hx.1, fun a ha => hd a t hx.1 (hx.2 a ha)⟩

/-- What each round of a loop brings about, when nothing takes it back. -/
theorem leads_forEach {ι : Type} {l : List ι} {f : ι → StartupProg Unit} (P : ι → StartupServer → Prop)
    (hP : ∀ i t u, t.Later u → P i t → P i u)
    (h : ∀ i ∈ l, ∀ t, s.Later t → Leads w (f i) (fun _ u => P i u) t) :
    Leads w (Program.forEach l f) (fun _ t => ∀ i ∈ l, P i t) s := by
  induction l generalizing s with
  | nil => exact leads_ret nofun
  | cons i is ih =>
    refine leads_bind (h i List.mem_cons_self s (.refl s)) fun _ t ht hi => ?_
    refine leads_mono (ih fun j hj u hu => h j (List.mem_cons_of_mem i hj) u (ht.trans hu)) fun _ u hu his j hj => ?_
    rcases List.mem_cons.mp hj with rfl | hj
    · exact hP _ t u hu hi
    · exact his j hj

/-! ### The migrations -/

theorem embed_crdCall (r : CrdRequest) : (crdCall r).embed = startupCall (.migration r) :=
  congrArg (Program.call _) (funext fun a => by cases a <;> rfl)

theorem embed_bind {p : CrdProg α} {f : α → CrdProg β} : CrdProg.embed (p >>= f) = p.embed >>= fun a => (f a).embed :=
  Program.embed_bind _ _ _ p f

/-- A request of the migrations and the rest of them. -/
theorem leads_crdCall {r : CrdRequest} {f : r.Answer → CrdProg β} {P : r.Answer → StartupServer → Prop}
    (h : ∀ s₁, s.Later s₁ → s₁.Sound → s₁.Kept (s₁.serveMigration r).2 ∧
      ∀ a, (s₁.serveMigration r).1 = .ok a → P a (s₁.serveMigration r).2)
    (hf : ∀ a t, s.Later t → P a t → Leads w (f a).embed done' t) :
    Leads w (CrdProg.embed (crdCall r >>= f)) done' s := by
  rw [embed_bind, embed_crdCall]
  exact leads_bind (leads_call nofun fun s₁ _ => h s₁) hf

/-- A request that reads only. -/
theorem leads_crdRead {r : CrdRequest} {f : r.Answer → CrdProg β} {P : r.Answer → StartupServer → Prop}
    (h : ∀ s₁ : StartupServer, s₁.Sound → (s₁.serveMigration r).2 = s₁ ∧
      ∀ a, (s₁.serveMigration r).1 = .ok a → P a s₁)
    (hf : ∀ a t, s.Later t → t.Sound → P a t → Leads w (f a).embed done' t) :
    Leads w (CrdProg.embed (crdCall r >>= f)) done' s := by
  refine leads_crdCall (P := fun a t => t.Sound ∧ P a t) (fun s₁ _ hs₁ => ?_) fun a t ht h => hf a t ht h.1 h.2
  obtain ⟨hsame, hok⟩ := h s₁ hs₁
  rw [hsame]
  exact ⟨.refl hs₁, fun a ha => ⟨hs₁, hok a ha⟩⟩

theorem leads_removeCrdVersion (hlatest : s.Latest) (hmoved : ∀ k, s.Moved k) :
    Leads w (removeCrdVersion crdName "v1beta2").embed (fun _ _ => True) s := by
  refine leads_crdRead (fun _ => StartupServer.serve_getCrd) fun crd t ht htsound hcrd => ?_
  have hsane := htsound.crd crd hcrd
  rw [hsane.status]
  refine leads_crdCall (P := fun _ _ => True) (fun u hu husound => ⟨?_, fun _ _ => trivial⟩) fun _ u hu _ => ?_
  · have hl := ht.trans hu
    refine StartupServer.kept_patchCrdStatus husound (hl.latest hlatest)
      (fun k => hl.moved hlatest k (hmoved k)) (fun v hv => ?_) (hsane.distinct.filter _)
    obtain ⟨hv, hne⟩ := List.mem_filter.mp hv
    exact (hsane.known v hv).resolve_left (of_decide_eq_true hne)
  · refine leads_crdRead (fun _ => StartupServer.serve_getCrd) fun crd' u' hu' _ hcrd' => ?_
    -- The CRD is written back as it was read, when it was at the newer version already.
    obtain ⟨crd'', hcrd'', hstorage⟩ := ((ht.trans hu).trans hu').latest hlatest
    obtain rfl := Option.some.inj (hcrd'.symm.trans hcrd'')
    exact leads_crdCall (P := fun _ _ => True) (fun v _ hv => ⟨StartupServer.kept_replaceCrd hv hstorage, fun _ _ => trivial⟩)
      fun _ _ _ _ => leads_ret trivial

theorem embed_forEach {ι : Type} {l : List ι} {f : ι → CrdProg Unit} :
    CrdProg.embed (Program.forEach l f) = Program.forEach l fun i => (f i).embed :=
  Program.embed_forEach _ _ _ l f

theorem leads_embed_forEach {ι : Type} {l : List ι} {f : ι → CrdProg Unit} (P : ι → StartupServer → Prop)
    (hP : ∀ i t u, t.Later u → P i t → P i u)
    (h : ∀ i ∈ l, ∀ t, s.Later t → Leads w (f i).embed (fun _ u => P i u) t) :
    Leads w (CrdProg.embed (Program.forEach l f)) (fun _ t => ∀ i ∈ l, P i t) s := by
  rw [embed_forEach]
  exact leads_forEach P hP h

/-- The list of the VMs of a namespace: there is no other VM that has still to be carried over. -/
structure Listed (ns : String) (vms : List V1beta2.VirtualMachine) (s : StartupServer) : Prop where
  written : ∀ v ∈ vms, ∃ spec, (v.key, spec) ∈ s.written ∧ v.spec.networks = spec.networks
  rest : ∀ k : Key, k.ns = ns → (∀ v ∈ vms, v.key ≠ k) → s.Moved k

/-- All VMs of a namespace are carried over. -/
theorem leads_upgradeNamespace (hlatest : s.Latest) (ns : String) :
    Leads w (upgradeNamespace ns).embed (fun _ t => t.Latest ∧ ∀ k : Key, k.ns = ns → t.Moved k) s := by
  refine leads_crdRead (P := fun vms t => Listed ns vms t) (fun s₁ hs₁ => ?_)
    fun (vms : List V1beta2.VirtualMachine) t ht _ hlisted => ?_
  · obtain ⟨hsame, hok⟩ := StartupServer.serve_listVms hs₁ ns
    refine ⟨hsame, fun vms h => ⟨fun v hv => ?_, fun k hns hnot vm hvm hk => ?_⟩⟩
    · obtain ⟨vm, hvm, hkey, hnetworks⟩ := (hok vms h).1 v hv
      exact ⟨vm.spec, hkey ▸ hs₁.written vm hvm, hnetworks⟩
    · obtain ⟨v, hv, hkey⟩ := (hok vms h).2 vm hvm (hk ▸ hns)
      exact absurd (hkey.trans hk) (hnot v hv)
  · have hround : ∀ v ∈ vms, ∀ u, t.Later u → Leads w (crdCall (.patchVmStatus v.key v.spec.networks)).embed
        (fun _ u => u.Latest ∧ u.Moved v.key) u := by
      intro v hv u hu
      obtain ⟨spec, hwritten, hnetworks⟩ := hlisted.written v hv
      rw [embed_crdCall, hnetworks]
      refine leads_call nofun fun s₁ _ hs₁ hsound => ?_
      have hl := hu.trans hs₁
      obtain ⟨hkept, hok⟩ := StartupServer.kept_patchVmStatus hsound (hl.written _ hwritten)
      exact ⟨hkept, fun a ha => ⟨hkept.later.latest ((ht.trans hl).latest hlatest), hok a ha⟩⟩
    refine leads_mono (leads_embed_forEach (fun (v : V1beta2.VirtualMachine) u => u.Latest ∧ u.Moved v.key)
      (fun v _ _ hu h => ⟨hu.latest h.1, hu.moved h.1 v.key h.2⟩) hround) fun _ u hu h => ?_
    have hlatest' : t.Latest := ht.latest hlatest
    refine ⟨hu.latest hlatest', fun k hns => ?_⟩
    by_cases hk : ∃ v ∈ vms, v.key = k
    · obtain ⟨v, hv, rfl⟩ := hk
      exact (h v hv).2
    · exact hu.moved hlatest' k (hlisted.rest k hns fun v hv hkey => hk ⟨v, hv, hkey⟩)

/-- All VMs are carried over, and the older version is removed. -/
theorem leads_upgradeVersion (hlatest : s.Latest) (version : String) :
    Leads w (upgradeVersion version).embed (fun _ _ => True) s := by
  unfold upgradeVersion
  split
  · next hversion =>
    subst hversion
    refine leads_crdRead (P := fun (namespaces : List String) t => ∀ k : Key, k.ns ∉ namespaces → t.Moved k)
      (fun s₁ hs₁ => ?_) fun (namespaces : List String) t ht _ hrest => ?_
    · rw [StartupServer.serve_listNamespaces]
      refine ⟨rfl, fun namespaces h k hns vm hvm hk => ?_⟩
      cases h
      exact absurd (hk ▸ hs₁.namespaces vm hvm) hns
    · have hlatest' : t.Latest := ht.latest hlatest
      rw [embed_bind]
      refine leads_bind (leads_embed_forEach (fun ns u => u.Latest ∧ ∀ k : Key, k.ns = ns → u.Moved k)
        (fun ns u u' hu h => ⟨hu.latest h.1, fun k hk => hu.moved h.1 k (h.2 k hk)⟩)
        fun ns _ u hu => leads_upgradeNamespace (hu.latest hlatest') ns) fun _ u hu h => ?_
      refine leads_removeCrdVersion (hu.latest hlatest') fun k => ?_
      by_cases hk : k.ns ∈ namespaces
      · exact (h k.ns hk).2 k rfl
      · exact hu.moved hlatest' k (hrest k hk)
  · exact leads_ret trivial

theorem leads_runMigrations (hlatest : s.Latest) : Leads w runMigrations.embed (fun _ _ => True) s := by
  refine leads_crdRead (fun _ => StartupServer.serve_getCrd) fun crd t ht hsound hcrd => ?_
  rw [(hsound.crd crd hcrd).status]
  show Leads w (CrdProg.embed (Program.forEach crd.stored upgradeVersion)) _ t
  exact leads_mono (leads_embed_forEach (fun _ _ => True) (fun _ _ _ _ _ => trivial) fun version _ u hu =>
    leads_upgradeVersion (hu.latest (ht.latest hlatest)) version) fun _ _ _ _ => trivial

/-! ### The CRDs -/

theorem leads_awaitAccepted (name : String) (events : List WatchEvent) :
    Leads w (awaitAccepted name events) (fun _ _ => True) s := by
  induction events with
  | nil => exact leads_fail
  | cons event events ih =>
    cases event with
    | modified conditions =>
      unfold awaitAccepted
      split
      · split
        · exact leads_ret trivial
        · exact ih
      · exact ih
    | other => exact ih
    | failed e => exact leads_fail

theorem leads_getCrd (name : String) :
    Leads w (startupCall (.getCrd name)) (fun crd t => t.Sound ∧ t.crds name = some crd) s := by
  refine leads_call nofun fun s₁ events _ hs₁ => ?_
  obtain ⟨hsame, hok⟩ := s₁.serve_read events name
  rw [hsame]
  exact ⟨.refl hs₁, fun crd h => ⟨hs₁, hok crd h⟩⟩

theorem leads_waitCrdReady (name : String) : Leads w (waitCrdReady name) (fun _ _ => True) s := by
  refine leads_bind (leads_attempt (leads_getCrd name)) fun result t _ _ => ?_
  cases result with
  | ok crd => exact leads_ret trivial
  | error e =>
    exact leads_bind (leads_call (P := fun _ _ => True) nofun fun s₁ _ _ hs₁ => ⟨.refl hs₁, fun _ _ => trivial⟩)
      fun events u _ _ => leads_awaitAccepted name events

theorem leads_applyCrd {versions : List String} (hv : "v1beta3" ∈ versions) :
    Leads w (startupCall (.applyCrd crdName versions "v1beta3"))
      (fun _ t => t.Latest ∧ ("v1beta2" ∉ versions → t.Struck)) s := by
  refine leads_call nofun fun s₁ _ _ hs₁ => ?_
  obtain ⟨hkept, hok⟩ := StartupServer.kept_applyCrd hs₁ hv
  exact ⟨hkept, fun _ h => hok h⟩

theorem leads_applyCrd_simple {name version : String} (hp : (name, version) ∈ simpleCrds) :
    Leads w (startupCall (.applyCrd name [version] version)) (fun _ t => (t.crds name).isSome = true) s := by
  refine leads_call nofun fun s₁ _ _ hs₁ => ?_
  obtain ⟨hkept, hok⟩ := StartupServer.kept_applyCrd_simple hs₁ hp
  exact ⟨hkept, fun _ h => hok h⟩

theorem leads_createSimple {name version : String} (hp : (name, version) ∈ simpleCrds) :
    Leads w (createSimple name version) (fun _ t => (t.crds name).isSome = true) s :=
  leads_bind (leads_applyCrd_simple hp) fun _ _ _ ht => leads_mono (leads_waitCrdReady name) fun _ _ hu _ =>
    hu.installed name ht

/-- Both ways through `create` end with an apply of the latest version alone. -/
theorem leads_createVersioned {name latest : String} {versions merged : List String}
    {migrate : StartupProg Unit} {P Q : StartupServer → Prop} (hmerge : mergeCrds versions latest = .ret merged)
    (hmerged : ∀ t, Leads w (startupCall (.applyCrd name merged latest)) (fun _ u => P u) t)
    (hP : ∀ t u, t.Later u → P t → P u) (hmigrate : ∀ t, P t → Leads w migrate (fun _ _ => True) t)
    (hlatest : ∀ t, Leads w (startupCall (.applyCrd name [latest] latest)) (fun _ u => Q u) t) :
    Leads w (createVersioned name versions latest migrate) (fun _ t => Q t) s := by
  have hupgrade : ∀ t, Leads w (createVersioned.upgrade name versions latest migrate) (fun _ t => Q t) t := by
    intro t
    unfold createVersioned.upgrade
    rw [hmerge]
    change Leads w (startupCall _ >>= fun _ => waitCrdReady name >>= fun _ => migrate >>= fun _ => startupCall _) _ t
    exact leads_bind (hmerged t) fun _ u _ hu => leads_bind (leads_waitCrdReady name) fun _ v huv _ =>
      leads_bind (hmigrate v (hP u v huv hu)) fun _ _ _ _ => hlatest _
  refine leads_bind (leads_attempt (leads_getCrd name)) fun current t _ _ => ?_
  cases current with
  | error e => exact hupgrade t
  | ok crd =>
    have hboth : ∀ (current : Prop) [Decidable current],
        Leads w (if current then startupCall (.applyCrd name [latest] latest)
          else createVersioned.upgrade name versions latest migrate) (fun _ t => Q t) t := by
      intro current inst
      cases inst with
      | isTrue => exact hlatest t
      | isFalse => exact hupgrade t
    exact hboth _

theorem leads_createLibvirtnode : Leads w createLibvirtnode (fun _ t => (t.crds libvirtnodeCrd).isSome = true) s :=
  leads_createVersioned (P := fun _ => True) (show mergeCrds ["v1beta1"] "v1beta1" = .ret ["v1beta1"] from rfl)
    (fun _ => leads_mono (leads_applyCrd_simple (by decide)) fun _ _ _ _ => trivial) (fun _ _ _ _ => trivial)
    (fun _ _ => leads_ret trivial) fun _ => leads_applyCrd_simple (by decide)

theorem leads_createVirtualmachine : Leads w createVirtualmachine (fun _ t => t.Latest ∧ t.Struck) s :=
  leads_createVersioned (P := Latest)
    (show mergeCrds ["v1beta2", "v1beta3"] "v1beta3" = .ret ["v1beta3", "v1beta2"] from rfl)
    (fun _ => leads_mono (leads_applyCrd (by decide)) fun _ _ _ h => h.1) (fun _ _ h => h.latest)
    (fun _ => leads_runMigrations) fun _ => leads_mono (leads_applyCrd (by decide)) fun _ _ _ h =>
      ⟨h.1, h.2 (by decide)⟩

theorem leads_startTasks (hinstalled : ∀ name ∈ [libvirtnodeCrd, crdName, volumeCrd, imageCrd, networkCrd, routerCrd],
    (s.crds name).isSome = true) (hstruck : s.Struck) :
    Leads w (startupCall .startTasks) (fun _ t => t.Upgraded) s := by
  intro s₁ hs₁ hsound a t hexec
  obtain ⟨x, -, ha⟩ := hexec
  cases ha
  have hupgraded : s₁.Upgraded := ⟨fun name h => hs₁.installed name (hinstalled name h), hs₁.struck hstruck,
    fun vm hvm => hsound.moved (hs₁.struck hstruck) vm.key vm hvm rfl⟩
  exact ⟨⟨.refl hsound, fun _ => hupgraded⟩, hs₁, fun _ _ => hupgraded⟩

theorem leads_createCeph :
    Leads w createCeph (fun _ t => (t.crds volumeCrd).isSome = true ∧ (t.crds imageCrd).isSome = true) s :=
  leads_bind (leads_createSimple (by decide)) fun _ _ _ hvolume => leads_mono (leads_createSimple (by decide))
    fun _ _ hu himage => ⟨hu.installed _ hvolume, himage⟩

theorem leads_controllersRun : Leads w controllersRun (fun _ t => t.Upgraded) s := by
  refine leads_bind leads_createLibvirtnode fun _ t₁ _ hnode => ?_
  refine leads_bind leads_createVirtualmachine fun _ t₂ h₂ hvm => ?_
  refine leads_bind leads_createCeph fun _ t₃ h₃ hceph => ?_
  refine leads_bind (leads_createSimple (by decide)) fun _ t₄ h₄ hnetwork => ?_
  refine leads_bind (leads_createSimple (by decide)) fun _ t₅ h₅ hrouter => ?_
  obtain ⟨crd, hcrd, -⟩ := hvm.1
  have h₃₅ := h₄.trans h₅
  have h₂₅ := h₃.trans h₃₅
  refine leads_startTasks (fun name hname => ?_) (h₂₅.struck hvm.2)
  simp only [List.mem_cons, List.not_mem_nil, or_false] at hname
  rcases hname with rfl | rfl | rfl | rfl | rfl | rfl
  · exact h₂₅.installed _ (h₂.installed _ hnode)
  · exact h₂₅.installed _ (by rw [hcrd]; rfl)
  · exact h₃₅.installed _ hceph.1
  · exact h₃₅.installed _ hceph.2
  · exact h₅.installed _ hnetwork
  · exact hrouter

end Leads

/-- In every interleaving. -/
def startupRegime : Regime startups (fun _ _ => True) where
  toTerms := startupTerms
  rely_refl _ := .refl
  rely_trans _ _ _ _ := .trans
  call_keeps _ _ _ _ _ _ _ hg := ⟨hg.1.sound, fun _ _ => hg.1.later⟩
  start_keeps w s i p t hs _ hl := by
    cases hl
    exact ⟨hs, fun _ _ => .refl s, wp_mono leads_controllersRun fun _ _ _ => trivial⟩
  stop_keeps _ s hs _ := ⟨hs, fun _ _ => .refl s⟩
  world_keeps s e t hs _ h := ⟨(StartupServer.keeps_happen hs h).1, fun _ => (StartupServer.keeps_happen hs h).2⟩

/-- The shared state and the startups of the processes. -/
abbrev StartupConfig := Interaction.Config Nat StartupRequest (fun r => Except KubeError r.Answer) StartupError
  Unit StartupServer

section Runs

variable {s : StartupServer} {c d : StartupConfig}

theorem later_step {e : Interaction.Event Nat StartupRequest StartupChoice Unit StartupEvent}
    (h : startupRegime.Holds c) (hstep : startups.Step c e d) : c.state.Later d.state := by
  cases e with
  | call w r x => exact (startupRegime.step_guar h trivial hstep).1.later
  | start w i =>
    cases hstep with
    | start _ hl =>
      cases hl
      exact .refl c.state
  | stop w =>
    cases hstep with
    | stop _ => exact .refl c.state
  | world e =>
    cases hstep with
    | world ht => exact (StartupServer.keeps_happen h.1 ht).2

theorem later_run (h : startupRegime.Holds c) (hrun : startups.Run (fun _ _ => True) c d) :
    c.state.Later d.state := by
  induction hrun with
  | refl => exact .refl _
  | tail hrun _ hstep ih => exact ih.trans (later_step (startupRegime.run_holds h hrun) hstep)

/-- What the controllers need is there for good. -/
theorem upgraded_run (h : startupRegime.Holds c) (hc : c.state.Upgraded)
    (hrun : startups.Run (fun _ _ => True) c d) : d.state.Upgraded :=
  hc.later (later_run h hrun) (startupRegime.run_holds h hrun).1

/-- The VM is stored at a version that is served, and it can be read at one. -/
def StartupServer.Reads (s : StartupServer) (vm : StoredVm) : Prop :=
  ∃ crd, s.crds crdName = some crd ∧ vm.version ∈ crd.versions ∧
    (("v1beta2" ∈ crd.versions ∧ vm.asV1beta2.isSome = true) ∨
      ("v1beta3" ∈ crd.versions ∧ vm.asV1beta3.isSome = true))

theorem StartupServer.Sound.reads (hs : s.Sound) {vm : StoredVm} (hvm : vm ∈ s.vms) : s.Reads vm := by
  cases hcrd : s.crds crdName with
  | none =>
    rw [hs.absent hcrd] at hvm
    cases hvm
  | some crd =>
    have hsane := hs.crd crd hcrd
    have hversion := hsane.served _ (hs.stored crd hcrd vm hvm)
    refine ⟨crd, hcrd, hversion, ?_⟩
    by_cases hold : "v1beta2" ∈ crd.stored
    · exact .inl ⟨hsane.served _ hold, hs.readable vm hvm⟩
    · have hstruck : s.Struck := fun crd' h => Option.some.inj (hcrd.symm.trans h) ▸ hold
      obtain ⟨hv, hread⟩ := hs.moved hstruck vm.key vm hvm rfl
      exact .inr ⟨hv ▸ hversion, hread⟩

end Runs

/-! ## An upgrade -/

/-- An API server of the older release with these VMs. -/
def olderServer (s : CrdServer) : StartupServer where
  crds name := if name = crdName then some ⟨crdName, 1, ["v1beta2"], "v1beta2", some ⟨some ["v1beta2"]⟩⟩ else none
  namespaces := s.namespaces
  vms := s.vms
  written := s.vms.map fun vm => (vm.key, vm.spec)

theorem sound_olderServer {s : CrdServer} (h : Prepared s) : (olderServer s).Sound := by
  have hcrd : ∀ crd, (olderServer s).crds crdName = some crd →
      crd = ⟨crdName, 1, ["v1beta2"], "v1beta2", some ⟨some ["v1beta2"]⟩⟩ := by
    intro crd hcrd
    exact (Option.some.inj hcrd).symm
  refine ⟨fun crd h => ?_, fun h => (nomatch h), fun crd hc vm hvm => ?_, fun hstruck => ?_,
    fun vm hvm => (h.older vm hvm).2, h.unique, h.namespaces, fun vm hvm => List.mem_map_of_mem hvm, ?_⟩
  · rw [hcrd crd h]
    refine ⟨rfl, rfl, by decide, by decide, ?_, List.nodup_singleton _, by decide⟩
    exact fun v hv => .inl (List.mem_singleton.mp hv)
  · rw [hcrd crd hc, (h.older vm hvm).1]
    exact List.mem_singleton_self _
  · exact absurd (List.mem_singleton_self _) (hstruck _ rfl)
  · intro p hp crd h
    have hnone : (olderServer s).crds p.1 = none := if_neg (StartupServer.crdName_not_simple p hp)
    rw [hnone] at h
    cases h

/-- One process is killed between the VMs of two namespaces, another one comes to the start of the
controllers. -/
def upgradeScript : List (Interaction.Command Nat StartupChoice Unit StartupEvent) :=
  [.start 0 ()] ++ List.replicate 11 (.call 0 {}) ++ [.stop 0, .start 1 ()] ++ List.replicate 24 (.call 1 {})

def StartupRequest.isStart : StartupRequest → Bool
  | .startTasks => true
  | _ => false

end ClusterController
