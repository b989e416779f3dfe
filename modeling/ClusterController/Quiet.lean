import ClusterController.World

/-!
# Quiet programs

A request is quiet when it neither writes a virtual machine nor acts on a domain. Most of
what the controllers do is quiet: reads, the northbound database, Ceph, and writes of
other objects. A quiet program keeps every contract about virtual machines and domains,
so the contracts only have to be shown for what remains.
-/

namespace ClusterController

open ApiServer (StringMap Key KubeError Resource)
open Interaction (Program)
open Interaction.Program (Within)

/-- A program that makes no request. -/
abbrev Silent {α : Type} (p : Prog α) : Prop := p.Within (fun _ => False) fun _ => True

section Silent

variable {α β ι : Type} {p : Prog α} {f : α → Prog β}

theorem Silent.bind (hp : Silent p) (hf : ∀ a, Silent (f a)) : Silent (p >>= f) :=
  Within.bind hp fun a _ => hf a

/-- A program without requests keeps to any limits. -/
theorem Silent.within {ask : Request → Prop} (h : Silent p) : p.Within ask fun _ => True :=
  Within.mono h (fun _ hr => hr.elim) fun _ h => h

theorem Silent.attempt (h : Silent p) : Silent p.attempt :=
  Within.mono (Within.attempt h) (fun _ hr => hr) fun _ _ => trivial

theorem silent_collect {l : List ι} {f : ι → Prog α} (h : ∀ i, Silent (f i)) :
    Silent (Program.collect l f) :=
  Within.mono (Program.within_collect fun i _ => h i) (fun _ hr => hr) fun _ _ => trivial

theorem silent_ofExcept (x : Except Error α) : Silent (Program.ofExcept x) :=
  Program.within_ofExcept fun _ _ => trivial

theorem silent_orPanic (x : Except String α) : Silent (orPanic x) := by
  cases x <;> exact trivial

theorem silent_expect (o : Option α) (msg : String) : Silent (expect o msg) := by
  cases o <;> exact trivial

theorem silent_cStringNew (text msg : String) : Silent (cStringNew text msg) := by
  unfold cStringNew
  split <;> exact trivial

end Silent

/-- The request is not a write of a virtual machine, and it does not create, destroy,
migrate or examine a domain. -/
def Quiet : Request → Prop
  | .kube (.replace κ _ _) => κ ≠ .virtualMachine
  | .kube (.replaceStatus κ _ _ _ _) => κ ≠ .virtualMachine
  | .libvirt _ (.createXml _) => False
  | .libvirt _ (.destroy _) => False
  | .libvirt _ (.startMigration _ _) => False
  | .libvirt _ (.isActive _) => False
  | _ => True

/-- A program all of whose requests are quiet. -/
abbrev IsQuiet {α : Type} (p : Prog α) : Prop := p.Within Quiet fun _ => True

section Basic

variable {α β ι : Type} {p : Prog α} {f : α → Prog β}

theorem IsQuiet.bind (hp : IsQuiet p) (hf : ∀ a, IsQuiet (f a)) : IsQuiet (p >>= f) :=
  Within.bind hp fun a _ => hf a

theorem IsQuiet.of_within {done : α → Prop} (h : p.Within Quiet done) : IsQuiet p :=
  h.mono (fun _ hr => hr) fun _ _ => trivial

theorem IsQuiet.attempt (h : IsQuiet p) : IsQuiet p.attempt :=
  .of_within (Within.attempt h)

theorem quiet_forEach {l : List ι} {f : ι → Prog Unit} (h : ∀ i, IsQuiet (f i)) :
    IsQuiet (Program.forEach l f) := Program.within_forEach fun i _ => h i

theorem quiet_collect {l : List ι} {f : ι → Prog α} (h : ∀ i, IsQuiet (f i)) :
    IsQuiet (Program.collect l f) := .of_within (Program.within_collect fun i _ => h i)

theorem quiet_ofExcept (x : Except Error α) : IsQuiet (Program.ofExcept x) :=
  (silent_ofExcept x).within

theorem quiet_orPanic (x : Except String α) : IsQuiet (orPanic x) := (silent_orPanic x).within

theorem quiet_expect (o : Option α) (msg : String) : IsQuiet (expect o msg) :=
  (silent_expect o msg).within

theorem quiet_cStringNew (text msg : String) : IsQuiet (cStringNew text msg) :=
  (silent_cStringNew text msg).within

theorem quiet_onlyIf {c : Prop} [Decidable c] {p : Prog Unit} (h : IsQuiet p) :
    IsQuiet (onlyIf c p) := by
  unfold onlyIf
  split
  · exact h
  · exact trivial

theorem quiet_ifSome {o : Option α} {f : α → Prog Unit} (h : ∀ a, IsQuiet (f a)) :
    IsQuiet (ifSome o f) := by
  cases o with
  | some a => exact h a
  | none => exact trivial

theorem quiet_ask {r : Request} (h : Quiet r) : IsQuiet (ask r) := ⟨h, fun _ => trivial⟩

theorem quiet_kubeCall {r : KubeRequest} (h : Quiet (.kube r)) : IsQuiet (kubeCall r) := by
  refine .bind (quiet_ask h) fun a => ?_
  split <;> exact trivial

theorem quiet_kubeGet (κ : Kind) (k : Key) : IsQuiet (kubeGet κ k) := quiet_kubeCall trivial

theorem quiet_kubeList (κ : Kind) (selector : Option (String × String)) :
    IsQuiet (kubeList κ selector) := quiet_kubeCall trivial

theorem quiet_libvirtCall {host : String} {r : LibvirtRequest} (h : Quiet (.libvirt host r)) :
    IsQuiet (libvirtCall host r) := by
  refine .bind (quiet_ask h) fun a => ?_
  split <;> exact trivial

theorem quiet_choose (l : List α) : IsQuiet (choose l) := by
  cases l with
  | nil => exact trivial
  | cons a l => exact .bind (quiet_ask trivial) fun _ => trivial

end Basic

/-! ## Writes of other objects -/

section OtherKinds

variable {κ : Kind} (hκ : κ ≠ .virtualMachine)
include hκ

theorem quiet_commit (o : Object κ) (writer : Writer) : IsQuiet (commit o writer) :=
  .bind (quiet_kubeCall hκ) fun _ => trivial

theorem quiet_setStatus (o : Object κ) (status : κ.Status) (writer : Writer) :
    IsQuiet (setStatus o status writer) := .bind (quiet_kubeCall hκ) fun _ => trivial

theorem quiet_ensureFinalizer (o : Object κ) (finalizer : String) :
    IsQuiet (ensureFinalizer o finalizer) := by
  unfold ensureFinalizer
  split
  · exact .bind (quiet_commit hκ _ _) fun _ => trivial
  · exact trivial

theorem quiet_removeFinalizer (o : Object κ) (finalizer : String) :
    IsQuiet (removeFinalizer o finalizer) := by
  unfold removeFinalizer
  split
  · exact .bind (quiet_commit hκ _ _) fun _ => trivial
  · exact trivial

end OtherKinds

/-! ## Scheduling -/

theorem quiet_getVmsWithLabel (label value : String) : IsQuiet (getVmsWithLabel label value) :=
  quiet_kubeList _ _

theorem quiet_isUncompliant (vm : VirtualMachine) : IsQuiet (isUncompliant vm) := by
  unfold isUncompliant
  refine .bind (quiet_ofExcept _) fun status => ?_
  split
  · refine .bind ?_ fun _ => trivial
    unfold getOthersInAffinityGroup
    split
    · exact .bind (quiet_getVmsWithLabel _ _) fun _ => trivial
    · exact trivial
  · exact trivial

theorem quiet_blockedNodes (vm : VirtualMachine) (ignoreAffinity : Bool) :
    IsQuiet (blockedNodes vm ignoreAffinity) := by
  unfold blockedNodes
  split
  · split
    · exact .bind (quiet_getVmsWithLabel _ _) fun _ => trivial
    · exact trivial
  · exact trivial

/-- The node for a VM that its spec pins is the one of the spec. -/
def Pinned (vm : VirtualMachine) (node : Node) : Prop :=
  ∀ requested, vm.spec.node = some requested → node.metadata.name = requested

theorem schedule_pinned (vm : VirtualMachine) (ignoreAffinity : Bool) :
    (schedule vm ignoreAffinity).Within Quiet (Pinned vm) := by
  unfold schedule
  refine Within.bind (quiet_ask trivial) fun _ _ =>
    Within.bind (quiet_kubeList _ _) fun nodes _ => ?_
  split
  · next requested hr =>
    dsimp only
    split
    · next node hn =>
      intro p hp
      have he : requested = p := Option.some.inj (hr.symm.trans hp)
      have hd := List.find?_some hn
      rw [← he]
      simpa using hd
    · exact trivial
  · next hr =>
    refine Within.bind (quiet_blockedNodes _ _) fun blocked _ =>
      Within.bind (quiet_choose _) fun node _ => ?_
    split
    · intro p hp
      rw [hr] at hp
      cases hp
    · exact trivial

theorem scheduleOrBypass_pinned (vm : VirtualMachine) (migrationRequired : Bool) :
    (scheduleOrBypass vm migrationRequired).Within Quiet (Pinned vm) := by
  unfold scheduleOrBypass
  refine Within.bind (Within.attempt (schedule_pinned _ _)) fun result hr => ?_
  split
  · next node => exact hr node rfl
  · split
    · exact schedule_pinned _ _
    · exact trivial

/-! ## NICs -/

theorem quiet_fillNic [Crates] (ns vmName : String) (statusNetworks : List NetworkAttachment)
    (nicSpec : NetworkAttachment) (index : Nat) :
    IsQuiet (fillNic ns vmName statusNetworks nicSpec index) := by
  unfold fillNic
  refine .bind (quiet_orPanic _) fun found => .bind (quiet_orPanic _) fun nicStatus => ?_
  split
  · refine .bind (quiet_kubeGet _ _) fun network => ?_
    split
    · unfold fillOvnId
      split
      · exact trivial
      · split
        · exact .bind (quiet_ask trivial) fun _ => trivial
        · exact trivial
    · unfold fillOvnId
      split
      · exact trivial
      · split
        · exact .bind (quiet_ask trivial) fun _ => trivial
        · exact trivial
    · exact trivial
  · exact trivial

/-! ## The northbound database -/

theorem quiet_connectFirst (nodes : List Node) (error : Option Error) :
    IsQuiet (connectFirst nodes error) := by
  induction nodes generalizing error with
  | nil => cases error <;> exact trivial
  | cons node nodes ih =>
    unfold connectFirst
    split
    · refine .bind (quiet_ask trivial) fun a => ?_
      split
      · exact trivial
      · exact ih _
    · exact ih _

theorem quiet_ovnTryFromAnnotations : IsQuiet ovnTryFromAnnotations :=
  .bind (quiet_kubeList _ _) fun _ => quiet_connectFirst _ _

theorem quiet_transact (operations : List Ovsdb.Operation) : IsQuiet (transact operations) := by
  refine .bind (quiet_ask trivial) fun a => ?_
  split <;> exact trivial

theorem quiet_listObjects (objectType : String) : IsQuiet (listObjects objectType) :=
  .bind (quiet_transact _) fun _ => .bind (quiet_expect _ _) fun _ =>
    .bind (quiet_expect _ _) fun _ => .bind (quiet_expect _ _) fun _ => quiet_expect _ _

/-- A type whose decoder makes no request. -/
class SilentDecoder (τ : Type) [OvnCommon τ] : Prop where
  silent : ∀ value, Silent (OvnCommon.deserialize value : Prog τ)

theorem silent_orDeserializationFailed {α : Type} (o : Option α) :
    Silent (orDeserializationFailed o) := by
  cases o <;> exact trivial

theorem silent_deserializeStringOrEmpty (object : Fields) (field : String) :
    Silent (deserializeStringOrEmpty object field) := by
  refine .bind (silent_orDeserializationFailed _).attempt fun a => ?_
  split <;> exact trivial

theorem silent_deserializeMap (object : Fields) (field : String) :
    Silent (deserializeMap object field) := by
  refine .bind (silent_orDeserializationFailed _) fun array => ?_
  split
  · split
    · refine .bind (silent_orDeserializationFailed _) fun entries => ?_
      refine .bind (silent_collect fun entry => ?_) fun _ => trivial
      refine .bind (silent_expect _ _) fun kv => ?_
      split
      · exact .bind (silent_expect _ _) fun _ => .bind (silent_expect _ _) fun _ => trivial
      · exact trivial
    · exact trivial
  · exact trivial

theorem silent_deserializeUuidSet (object : Fields) (field : String) :
    Silent (deserializeUuidSet object field) := by
  refine .bind (silent_orDeserializationFailed _) fun set => ?_
  dsimp only
  split
  · exact .bind (silent_expect _ _) fun _ => .bind (silent_expect _ _) fun _ => trivial
  · split
    · refine .bind (silent_expect _ _) fun _ => .bind (silent_expect _ _) fun _ => ?_
      refine silent_collect fun uuid => .bind (silent_expect _ _) fun _ =>
        .bind (silent_expect _ _) fun tag => ?_
      split
      · exact .bind (silent_expect _ _) fun _ => silent_expect _ _
      · exact trivial
    · exact trivial

theorem silent_deserializeRouteSet (object : Fields) : Silent (deserializeRouteSet object) := by
  refine .bind (silent_orDeserializationFailed _) fun routeSet => ?_
  split
  · exact trivial
  · exact silent_collect fun item => .bind (silent_expect _ _) fun _ =>
      .bind (silent_expect _ _) fun _ => silent_expect _ _
  · exact trivial

instance : SilentDecoder LogicalSwitch where
  silent _ := .bind (silent_orDeserializationFailed _) fun _ =>
    .bind (silent_orDeserializationFailed _) fun _ => .bind (silent_orDeserializationFailed _) fun _ =>
    .bind (silent_deserializeUuidSet _ _) fun _ => .bind (silent_deserializeMap _ _) fun _ => trivial

instance : SilentDecoder LogicalSwitchPort where
  silent _ := .bind (silent_orDeserializationFailed _) fun _ =>
    .bind (silent_orDeserializationFailed _) fun _ => .bind (silent_orDeserializationFailed _) fun _ =>
    .bind (silent_deserializeStringOrEmpty _ _) fun _ =>
    .bind (silent_deserializeStringOrEmpty _ _) fun _ => trivial

instance : SilentDecoder DhcpOptions where
  silent _ := .bind (silent_orDeserializationFailed _) fun _ =>
    .bind (silent_orDeserializationFailed _) fun _ => .bind (silent_orDeserializationFailed _) fun _ =>
    trivial

instance : SilentDecoder StaticRoute where
  silent _ := .bind (silent_orDeserializationFailed _) fun _ =>
    .bind (silent_orDeserializationFailed _) fun _ => .bind (silent_orDeserializationFailed _) fun _ =>
    .bind (silent_orDeserializationFailed _) fun _ => trivial

instance : SilentDecoder LogicalRouter where
  silent _ := .bind (silent_orDeserializationFailed _) fun _ =>
    .bind (silent_deserializeRouteSet _) fun _ => .bind (silent_orDeserializationFailed _) fun _ =>
    .bind (silent_orDeserializationFailed _) fun _ => trivial

instance : SilentDecoder LogicalRouterPort where
  silent _ := .bind (silent_orDeserializationFailed _) fun _ =>
    .bind (silent_orDeserializationFailed _) fun _ => .bind (silent_orDeserializationFailed _) fun _ =>
    trivial

theorem quiet_ovnList (τ : Type) [OvnCommon τ] [SilentDecoder τ] : IsQuiet (ovnList τ) :=
  .bind (quiet_listObjects _) fun _ => quiet_collect fun value => (SilentDecoder.silent value).within

theorem quiet_getByName (τ : Type) [OvnNamed τ] [SilentDecoder τ] (name : String) :
    IsQuiet (getByName τ name) := by
  refine .bind (quiet_ovnList τ) fun objects => ?_
  split <;> exact trivial

theorem quiet_orCreate {α : Type} {get create : Prog α} (hg : IsQuiet get) (hc : IsQuiet create) :
    IsQuiet (orCreate get create) := by
  refine .bind hg.attempt fun a => ?_
  split
  · exact trivial
  · exact hc
  · exact trivial

theorem quiet_createIfMissing (τ : Type) [OvnNamed τ] [SilentDecoder τ] (name : String) :
    IsQuiet (createIfMissing τ name) :=
  quiet_orCreate (quiet_getByName τ name) (.bind (.bind (quiet_transact _) fun _ => trivial) fun _ =>
    quiet_getByName τ name)

theorem quiet_ovnDelete {τ : Type} [OvnCommon τ] (o : τ) : IsQuiet (ovnDelete o) :=
  .bind (quiet_transact _) fun _ => trivial

theorem quiet_getByCidr (cidr : String) : IsQuiet (DhcpOptions.getByCidr cidr) := by
  refine .bind (quiet_ovnList _) fun all => ?_
  split <;> exact trivial

theorem quiet_lspCreateIfMissing (ls : LogicalSwitch) (name : String)
    (params : Ovsdb.Columns Ovsdb.Ref) :
    IsQuiet (LogicalSwitchPort.createIfMissing ls name params) :=
  quiet_orCreate (quiet_getByName _ _) (.bind (quiet_transact _) fun _ => quiet_getByName _ _)

theorem quiet_setAddress (lsp : LogicalSwitchPort) (mac : String) (ip : IpConfiguration) :
    IsQuiet (lsp.setAddress mac ip) := by
  unfold LogicalSwitchPort.setAddress
  split
  · exact trivial
  · refine .bind (.bind (quiet_ovnList _) fun _ => ?_) fun ls => .bind ?_ fun found => ?_
    · split <;> exact trivial
    · refine IsQuiet.attempt (.bind (quiet_ovnList _) fun _ => ?_)
      dsimp only
      split <;> exact trivial
    · split
      · exact trivial
      · exact .bind (quiet_transact _) fun _ => trivial

theorem quiet_setDhcpOptions (lsp : LogicalSwitchPort) (cidr : String) :
    IsQuiet (lsp.setDhcpOptions cidr) :=
  .bind (quiet_getByCidr _) fun _ => .bind (quiet_transact _) fun _ => trivial

theorem quiet_setRoutes (lr : LogicalRouter) (routes : List Route) : IsQuiet (lr.setRoutes routes) :=
  .bind (.bind (quiet_ovnList _) fun _ => quiet_collect fun _ => quiet_expect _ _) fun _ =>
    .bind (quiet_transact _) fun _ => trivial

theorem quiet_connectRouterToLs (lr : LogicalRouter) (ls : LogicalSwitch) (address : String) :
    IsQuiet (connectRouterToLs lr ls address) :=
  .bind (quiet_orCreate (quiet_getByName _ _) (.bind (quiet_transact _) fun _ =>
      quiet_getByName _ _)) fun _ =>
    .bind (.bind (quiet_transact _) fun _ => trivial) fun _ =>
      .bind (quiet_lspCreateIfMissing _ _ _) fun _ => trivial

/-! ## Networks, routers and ports -/

theorem quiet_ensureDhcp [Crates] (name : String) (dhcp : DhcpOptionsCrd) :
    IsQuiet (ensureDhcp name dhcp) := by
  refine .bind (quiet_orCreate (quiet_getByCidr _) (.bind (quiet_transact _) fun _ =>
    quiet_getByCidr _)) fun opts => .bind ?_ fun _ =>
      .bind (quiet_getByName _ _) fun ls => .bind (quiet_transact _) fun _ => trivial
  unfold DhcpOptions.setOptions
  split
  · exact trivial
  · exact .bind (quiet_expect _ _) fun _ => .bind (quiet_transact _) fun _ => trivial

theorem quiet_ensureRouterAttachment (network : Network) (a : RouterAttachment) :
    IsQuiet (ensureRouterAttachment network a) := by
  exact .bind (quiet_orPanic _) fun p => .bind (quiet_getByName _ _) fun lr =>
    .bind (quiet_getByName _ _) fun ls => quiet_connectRouterToLs lr ls a.address

theorem quiet_updateNetwork [Crates] (network : Network) : IsQuiet (updateNetwork network) := by
  unfold updateNetwork
  split
  · exact trivial
  · refine .bind quiet_ovnTryFromAnnotations fun _ =>
      .bind (quiet_ensureFinalizer (by decide) _ _) fun network =>
      .bind (quiet_createIfMissing _ _) fun _ =>
      .bind (quiet_ifSome fun _ => quiet_ensureDhcp _ _) fun _ =>
      .bind (quiet_ifSome fun _ => quiet_forEach fun _ => quiet_ensureRouterAttachment _ _) fun _ =>
      quiet_setStatus (by decide) _ _ _

theorem quiet_removeNetwork (network : Network) : IsQuiet (removeNetwork network) := by
  unfold removeNetwork
  split
  · exact trivial
  · refine .bind quiet_ovnTryFromAnnotations fun _ => .bind ?_ fun _ =>
      .bind (quiet_removeFinalizer (by decide) _ _) fun _ => trivial
    refine .bind (quiet_getByName _ _).attempt fun a => ?_
    split
    · exact quiet_ovnDelete _
    · exact trivial
    · exact trivial

theorem quiet_updateRouter (router : Router) : IsQuiet (updateRouter router) := by
  refine .bind quiet_ovnTryFromAnnotations fun _ =>
    .bind (quiet_ensureFinalizer (by decide) _ _) fun router =>
    .bind (quiet_createIfMissing _ _) fun lr => .bind (quiet_getByName _ _) fun current =>
    .bind (quiet_setRoutes _ _) fun _ => .bind (quiet_onlyIf (.bind ?_ fun _ => ?_)) fun _ =>
    quiet_setStatus (by decide) _ _ _
  · exact .bind (quiet_kubeCall trivial) fun _ => .bind (quiet_kubeCall trivial) fun _ =>
      .bind (quiet_kubeCall trivial) fun _ => .bind (quiet_kubeCall trivial) fun _ =>
      quiet_kubeCall trivial
  · exact .bind (quiet_createIfMissing _ _) fun ls => .bind (quiet_connectRouterToLs _ _ _) fun _ =>
      .bind (quiet_lspCreateIfMissing _ _ _) fun lsp => quiet_setAddress _ _ _

theorem quiet_removeRouter (router : Router) : IsQuiet (removeRouter router) :=
  .bind quiet_ovnTryFromAnnotations fun _ => .bind (quiet_getByName _ _) fun lr =>
    .bind (quiet_ovnDelete lr) fun _ => .bind (quiet_removeFinalizer (by decide) _ _) fun _ => trivial

theorem quiet_updateVmNic (vm : VirtualMachine) (nic : NetworkAttachment) :
    IsQuiet (updateVmNic vm nic) := by
  refine .bind ?_ fun _ => ?_
  · refine .bind (quiet_expect _ _) fun name => .bind (quiet_expect _ _) fun mac =>
      .bind (quiet_getByName _ _) fun ls => .bind (quiet_expect _ _) fun id =>
      .bind (quiet_lspCreateIfMissing _ _ _) fun lsp => .bind (quiet_setAddress _ _ _) fun _ =>
      .bind (quiet_kubeGet _ _) fun network => ?_
    split
    · exact quiet_setDhcpOptions _ _
    · exact trivial
  · split
    · exact .bind (quiet_getByName _ _) fun _ => trivial
    · exact trivial

theorem quiet_disconnectVmNic (vm : VirtualMachine) (nic : NetworkAttachment) :
    IsQuiet (disconnectVmNic vm nic) := by
  refine .bind (quiet_expect _ _) fun name => .bind (quiet_expect _ _) fun id =>
    .bind (quiet_getByName _ _).attempt fun a => ?_
  split
  · exact .bind (quiet_getByName _ _) fun ls => .bind (quiet_getByName _ _) fun _ =>
      .bind (quiet_transact _) fun _ => trivial
  · exact trivial

/-! ## Ceph -/

theorem quiet_cephCall (operation : String) (r : CephRequest) : IsQuiet (cephCall operation r) := by
  refine .bind (quiet_ask trivial) fun a => ?_
  split <;> exact trivial

theorem quiet_cephCallUnchecked (r : CephRequest) : IsQuiet (cephCallUnchecked r) :=
  .bind (quiet_ask trivial) fun _ => trivial

theorem quiet_cephConnect : IsQuiet Ceph.connect :=
  .bind (quiet_cephCall _ _) fun _ => .bind (quiet_cephCall _ _) fun _ =>
    .bind (quiet_cephCall _ _) fun _ => .bind (quiet_cephCall _ _) fun _ => trivial

theorem quiet_getImages (pool : Nat) : IsQuiet (Ceph.getImages pool) :=
  .bind (quiet_cephCall _ _) fun _ => quiet_orPanic _

theorem quiet_hasLocks (poolName imageName : String) : IsQuiet (Ceph.hasLocks poolName imageName) := by
  refine .bind quiet_cephConnect fun cluster => .bind (quiet_cephCall _ _) fun pool =>
    .bind (.bind (quiet_cStringNew _ _) fun _ => quiet_cephCall _ _) fun image =>
    .bind (quiet_cephCall _ _) fun lockers => ?_
  split
  · exact trivial
  · split <;> exact trivial

theorem quiet_getFeatures (pool : Nat) (name snapshot : String) : IsQuiet (Ceph.getFeatures pool name snapshot) :=
  .bind (quiet_cStringNew _ _) fun _ => .bind (quiet_cStringNew _ _) fun _ => .bind (quiet_cephCall _ _) fun _ =>
    .bind (quiet_cephCall _ _) fun _ => .bind (quiet_cephCall _ _) fun _ => trivial

theorem quiet_ceph_removeImage (pool : Nat) (name : String) : IsQuiet (Ceph.removeImage pool name) :=
  .bind (quiet_cStringNew _ _) fun _ => quiet_cephCall _ _

theorem quiet_makeImage (volumePool templatePool : Nat) (name : String) (size : UInt64)
    (template : Option String) :
    IsQuiet (Volumes.makeImage volumePool templatePool name size template) := by
  unfold Volumes.makeImage
  split
  · exact .bind (quiet_cStringNew _ _) fun _ => .bind (quiet_cStringNew _ _) fun _ =>
      .bind (quiet_getFeatures _ _ _) fun _ => quiet_cephCall _ _
  · exact .bind (quiet_cStringNew _ _) fun _ => quiet_cephCall _ _

theorem quiet_updateVolume [Crates] (volume : Volume) : IsQuiet (Volumes.updateVolume volume) := by
  unfold Volumes.updateVolume
  dsimp only
  split
  · exact trivial
  · exact .bind (quiet_ensureFinalizer (by decide) _ _) fun _ =>
      .bind quiet_cephConnect fun _ => .bind (quiet_cephCall _ _) fun _ =>
      .bind (quiet_cephCall _ _) fun _ => .bind (quiet_getImages _) fun _ =>
      .bind (quiet_onlyIf (quiet_makeImage _ _ _ _ _)) fun _ =>
      .bind (quiet_cephCallUnchecked _) fun _ => .bind (quiet_cephCallUnchecked _) fun _ =>
      quiet_cephCallUnchecked _

theorem quiet_removeVolume (volume : Volume) : IsQuiet (Volumes.removeVolume volume) :=
  .bind (.bind quiet_cephConnect fun _ => .bind (quiet_cephCall _ _) fun _ =>
      .bind (quiet_getImages _) fun _ => quiet_onlyIf (quiet_ceph_removeImage _ _)) fun _ =>
    .bind (quiet_removeFinalizer (by decide) _ _) fun _ => trivial

theorem quiet_updateImage (image : Image) : IsQuiet (Images.updateImage image) :=
  .bind (quiet_ensureFinalizer (by decide) _ _) fun _ =>
    .bind quiet_cephConnect fun _ => .bind (quiet_cephCall _ _) fun _ =>
    .bind (quiet_getImages _) fun _ => .bind (quiet_onlyIf trivial) fun _ =>
    .bind (quiet_cephCallUnchecked _) fun _ => quiet_cephCallUnchecked _

theorem quiet_removeImage (image : Image) : IsQuiet (Images.removeImage image) :=
  .bind (.bind quiet_cephConnect fun _ => .bind (quiet_cephCall _ _) fun _ =>
      .bind (quiet_getImages _) fun _ => quiet_onlyIf (quiet_ceph_removeImage _ _)) fun _ =>
    .bind (quiet_removeFinalizer (by decide) _ _) fun _ => trivial

/-! ## Hosts -/

namespace Host

theorem quiet_hasDomain (host name : String) : IsQuiet (hasDomain host name) :=
  .bind (quiet_libvirtCall trivial) fun _ => trivial

theorem quiet_lookupByName (host domain : String) : IsQuiet (lookupByName host domain) :=
  quiet_libvirtCall trivial

theorem quiet_volumesLocked (volumes : List StorageTemplate) : IsQuiet (volumesLocked volumes) := by
  induction volumes with
  | nil => exact trivial
  | cons volume volumes ih =>
    unfold volumesLocked
    split
    · refine .bind (quiet_hasLocks _ _) fun locked => ?_
      split
      · exact trivial
      · exact ih
    · exact ih

theorem quiet_storageTemplates (vm : VirtualMachine) (letters bus : String) :
    IsQuiet (storageTemplates vm letters bus) := by
  refine quiet_collect fun volume => ?_
  split
  · exact trivial
  · exact .bind (quiet_ofExcept _) fun _ => trivial

/-- The template of a domain carries the domain name of the VM. -/
theorem domainTemplate_name (vm : VirtualMachine) (cluster : Cluster)
    (volumes : List StorageTemplate) (model : String) :
    (domainTemplate vm cluster volumes model).Within Quiet fun t => getDomainName vm = some t.name := by
  unfold domainTemplate
  refine Within.bind (quiet_ofExcept _) fun status _ => ?_
  refine Within.bind (quiet_collect fun nic => ?_) fun nics _ => ?_
  · refine .bind ?_ fun _ => .bind (quiet_expect _ _) fun _ => trivial
    unfold bridgeOf
    split
    · exact trivial
    · exact quiet_expect _ _
  · refine Within.bind (quiet_orPanic _) fun memory _ => ?_
    have hname : (expect (getDomainName vm) "no domain name specified").Within Quiet
        fun name => getDomainName vm = some name := by
      cases getDomainName vm with
      | none => exact trivial
      | some name => exact rfl
    exact Within.bind hname fun name hn => Within.bind (quiet_expect _ _) fun uuid _ => hn

theorem quiet_ensureVniMapping (host : String) (vm : VirtualMachine) :
    IsQuiet (ensureVniMapping host vm) := by
  have hb : ∀ args, IsQuiet (bridgeCommand host args) := fun args => by
    refine .bind (quiet_ask trivial) fun a => ?_
    split <;> exact trivial
  exact quiet_forEach fun vlan => .bind (hb _) fun _ => .bind (quiet_onlyIf trivial) fun _ =>
    .bind (hb _) fun _ => .bind (quiet_onlyIf trivial) fun _ => .bind (hb _) fun _ =>
    quiet_onlyIf trivial

theorem quiet_getCluster : IsQuiet getCluster := by
  refine .bind (quiet_ask trivial) fun a => ?_
  split <;> exact trivial

end Host

end ClusterController
