import ClusterController.OvnActions
import ClusterController.Quiet

/-!
# Transactions that fit the schema

Every operation that the controllers send to the northbound database fits its schema. So the
database stays consistent whatever the controllers do and however their requests interleave.
-/

namespace ClusterController

open ApiServer (Key KubeError Resource Collection)
open Interaction (Program Machine Terms Regime)
open Interaction.Program (Within)
open Ovsdb (Consistent Operation FitColumns Columns Ref)

/-- The operations of the request fit the schema. -/
def Fitting (r : Request) : Prop :=
  ∀ operations, r = .transact operations → ∀ operation ∈ operations, operation.Fits northbound

/-- The operation makes no switch and no router, and gives none another name. -/
def LeavesNames : Operation → Prop
  | .insert T _ _ => ¬(T = typeLogicalSwitch ∨ T = typeLogicalRouter)
  | .update T _ row => T = typeLogicalSwitch ∨ T = typeLogicalRouter → ∀ e ∈ row, e.1 ≠ "name"
  | .mutate T _ mutations =>
    T = typeLogicalSwitch ∨ T = typeLogicalRouter → ∀ m ∈ mutations, m.column ≠ "name"
  | .delete _ _ => True
  | .select _ _ => True

/-- The objects of the kind stand for something outside of the cluster. -/
def Kind.isExternal : Kind → Bool
  | .volume => true
  | .network => true
  | .router => true
  | _ => false

/-- The request asks nothing of the northbound database, makes no image, and replaces neither a volume
nor a network nor a router. -/
def Apart : Request → Prop
  | .transact _ => False
  | .kube (.replace κ _ _) => κ.isExternal = false
  | .ceph (.rbdCreate _ _ _) => False
  | .ceph (.rbdClone _ _ _ _ _ _) => False
  | _ => True

/-- The request makes nothing that a volume, a network or a router stands for. -/
def Gentle : Request → Prop
  | .transact operations => ∀ operation ∈ operations, operation.Fits northbound ∧ LeavesNames operation
  | r => Apart r

/-- A program all of whose requests are of one sort. -/
abbrev Only {α : Type} (sort : Request → Prop) (p : Prog α) : Prop := p.Within sort fun _ => True

/-- A program all of whose requests fit. -/
abbrev IsFitting {α : Type} (p : Prog α) : Prop := Only Fitting p

theorem Apart.gentle {r : Request} (h : Apart r) : Gentle r := by
  cases r with
  | transact operations => exact h.elim
  | _ => exact h

theorem Apart.aside {r : Request} (h : Apart r) : Aside r := by
  rintro operations rfl
  exact h

theorem Gentle.fitting {r : Request} (h : Gentle r) : Fitting r := by
  rintro operations rfl operation hmem
  exact (h operation hmem).1

section Basic

variable {α β ι : Type} {sort sort' : Request → Prop} {p : Prog α} {f : α → Prog β}

theorem Only.mono (h : Only sort p) (hr : ∀ r, sort r → sort' r) : Only sort' p :=
  Within.mono h hr fun _ _ => trivial

theorem Only.bind (hp : Only sort p) (hf : ∀ a, Only sort (f a)) : Only sort (p >>= f) :=
  Within.bind hp fun a _ => hf a

theorem Only.attempt (h : Only sort p) : Only sort p.attempt :=
  Within.mono (Within.attempt h) (fun _ hr => hr) fun _ _ => trivial

theorem only_collect {l : List ι} {f : ι → Prog α} (h : ∀ i, Only sort (f i)) :
    Only sort (Program.collect l f) :=
  Within.mono (Program.within_collect fun i _ => h i) (fun _ hr => hr) fun _ _ => trivial

theorem only_forEach {l : List ι} {f : ι → Prog Unit} (h : ∀ i, Only sort (f i)) :
    Only sort (Program.forEach l f) := Program.within_forEach fun i _ => h i

theorem only_onlyIf {c : Prop} [Decidable c] {p : Prog Unit} (h : Only sort p) :
    Only sort (onlyIf c p) := by
  unfold onlyIf
  split
  · exact h
  · exact trivial

theorem only_ifSome {o : Option α} {f : α → Prog Unit} (h : ∀ a, Only sort (f a)) :
    Only sort (ifSome o f) := by
  cases o with
  | some a => exact h a
  | none => exact trivial

theorem only_ask {r : Request} (h : sort r) : Only sort (ask r) := ⟨h, fun _ => trivial⟩

theorem Only.gentle (h : Only Apart p) : Only Gentle p := h.mono fun _ => Apart.gentle

theorem Only.fitting (h : Only Gentle p) : Only Fitting p := h.mono fun _ => Gentle.fitting

/-- What is not about the database fits. -/
theorem fitting_of_aside {done : α → Prop} (h : p.Within Aside done) : Only Fitting p :=
  h.mono (fun _ hr operations he => absurd he (hr operations)) fun _ _ => trivial

theorem only_transact {operations : List Operation} (h : sort (.transact operations)) :
    Only sort (transact operations) := by
  refine ⟨h, fun a => ?_⟩
  cases a <;> exact trivial

theorem fitting_transact {operations : List Operation}
    (h : ∀ operation ∈ operations, operation.Fits northbound) : Only Fitting (transact operations) := by
  refine only_transact ?_
  rintro _ ⟨⟩
  exact h

end Basic

/-! ## The API server -/

section Api

theorem apart_kubeCall {q : KubeRequest} (h : Apart (.kube q)) : Only Apart (kubeCall q) := by
  refine .bind (only_ask h) fun a => ?_
  split <;> exact trivial

theorem apart_kubeGet (κ : Kind) (k : Key) : Only Apart (kubeGet κ k) := apart_kubeCall trivial

theorem apart_kubeList (κ : Kind) (selector : Option (String × String)) :
    Only Apart (kubeList κ selector) := apart_kubeCall trivial

theorem apart_connectFirst (nodes : List Node) (error : Option Error) :
    Only Apart (connectFirst nodes error) := by
  induction nodes generalizing error with
  | nil => cases error <;> exact trivial
  | cons node nodes ih =>
    unfold connectFirst
    split
    · refine ⟨trivial, fun a => ?_⟩
      cases a with
      | some u => exact trivial
      | none => exact ih _
    · exact ih _

theorem apart_ovnTry : Only Apart ovnTryFromAnnotations :=
  .bind (apart_kubeCall trivial) fun _ => apart_connectFirst _ _

theorem apart_deployMds (ns router : String) : Only Apart (deployMds ns router) :=
  .bind (apart_kubeCall trivial) fun _ => .bind (apart_kubeCall trivial) fun _ =>
    .bind (apart_kubeCall trivial) fun _ => .bind (apart_kubeCall trivial) fun _ =>
      apart_kubeCall trivial

variable {κ : Kind} (v : Object κ)

theorem apart_setStatus (status : κ.Status) (writer : Writer) : Only Apart (setStatus v status writer) :=
  .bind (apart_kubeCall trivial) fun _ => trivial

variable (hκ : κ.isExternal = false) (finalizer : String)
include hκ

theorem apart_commit (writer : Writer) : Only Apart (commit v writer) :=
  .bind (apart_kubeCall hκ) fun _ => trivial

theorem apart_ensureFinalizer : Only Apart (ensureFinalizer v finalizer) := by
  unfold ensureFinalizer
  split
  · exact .bind (apart_commit _ hκ _) fun _ => trivial
  · exact trivial

theorem apart_removeFinalizer : Only Apart (removeFinalizer v finalizer) := by
  unfold removeFinalizer
  split
  · exact .bind (apart_commit _ hκ _) fun _ => trivial
  · exact trivial

end Api

/-! ## OVN -/

theorem gentle_listObjects (objectType : String) : Only Gentle (listObjects objectType) := by
  refine .bind (only_transact fun operation h => ?_) fun _ => .bind (silent_expect _ _).within fun _ =>
    .bind (silent_expect _ _).within fun _ => .bind (silent_expect _ _).within fun _ =>
      (silent_expect _ _).within
  rw [List.mem_singleton.mp h]
  exact ⟨trivial, trivial⟩

theorem gentle_ovnList (τ : Type) [OvnCommon τ] [SilentDecoder τ] : Only Gentle (ovnList τ) :=
  .bind (gentle_listObjects _) fun _ => only_collect fun value => (SilentDecoder.silent value).within

theorem gentle_getByName (τ : Type) [OvnNamed τ] [SilentDecoder τ] (name : String) :
    Only Gentle (getByName τ name) := by
  refine .bind (gentle_ovnList τ) fun objects => ?_
  split <;> exact trivial

theorem only_orCreate {sort : Request → Prop} {α : Type} {get create : Prog α} (hg : Only sort get)
    (hc : Only sort create) : Only sort (orCreate get create) := by
  refine .bind hg.attempt fun a => ?_
  split
  · exact trivial
  · exact hc
  · exact trivial

theorem fitting_createIfMissing (τ : Type) [OvnNamed τ] [SilentDecoder τ] (name : String)
    (hst : northbound.Stores (OvnCommon.ovnType τ))
    (hcol : ("name", .strings [""]) ∈ northboundColumns (OvnCommon.ovnType τ)) :
    Only Fitting (createIfMissing τ name) := by
  refine only_orCreate (gentle_getByName τ name).fitting
    (.bind (.bind (fitting_transact ?_) fun _ => trivial) fun _ => (gentle_getByName τ name).fitting)
  intro operation h
  rw [List.mem_singleton.mp h]
  exact ⟨hst, fit_one (.strings [name]) hcol fun _ => rfl⟩

theorem gentle_ovnDelete {τ : Type} [OvnCommon τ] (o : τ) : Only Gentle (ovnDelete o) := by
  refine .bind (only_transact fun operation h => ?_) fun _ => trivial
  rw [List.mem_singleton.mp h]
  exact ⟨trivial, trivial⟩

theorem gentle_getByCidr (cidr : String) : Only Gentle (DhcpOptions.getByCidr cidr) := by
  refine .bind (gentle_ovnList _) fun all => ?_
  split <;> exact trivial

/-- A reference is added to or dropped from the ports of a switch or of a router. -/
theorem fits_mutatePorts {T u : String} {insert : Bool} {refs : List Ref}
    (hT : T = typeLogicalSwitch ∨ T = typeLogicalRouter) :
    (Operation.mutate T u [⟨"ports", insert, refs⟩]).Fits northbound := by
  intro m hm e he hc
  rw [List.mem_singleton.mp hm] at hc
  have h₁ := Ovsdb.lookup_of_mem (flat_northbound.nodup T) he
  rw [hc] at h₁
  rcases hT with rfl | rfl <;> exact ⟨[], (Option.some.inj h₁).symm⟩

theorem leavesNames_mutatePorts {T u : String} {insert : Bool} {refs : List Ref} :
    LeavesNames (.mutate T u [⟨"ports", insert, refs⟩]) := by
  intro _ m hm
  rw [List.mem_singleton.mp hm]
  show "ports" ≠ "name"
  decide

theorem gentle_createPort {τ : Type} [OvnNamed τ] [SilentDecoder τ] {name n T u : String}
    {cols : Columns Ref} (hst : northbound.Stores (OvnCommon.ovnType τ))
    (hfit : FitColumns (northboundColumns (OvnCommon.ovnType τ)) cols)
    (hport : ¬(OvnCommon.ovnType τ = typeLogicalSwitch ∨ OvnCommon.ovnType τ = typeLogicalRouter))
    (hT : T = typeLogicalSwitch ∨ T = typeLogicalRouter) :
    Only Gentle (orCreate (getByName τ name) (transact [.insert (OvnCommon.ovnType τ) cols (some n),
      .mutate T u [⟨"ports", true, [.named n]⟩]] >>= fun _ => getByName τ name)) := by
  refine only_orCreate (gentle_getByName τ name) (.bind (only_transact fun operation h => ?_) fun _ =>
    gentle_getByName τ name)
  rcases List.mem_cons.mp h with rfl | h
  · exact ⟨⟨hst, hfit⟩, hport⟩
  · rw [List.mem_singleton.mp h]
    exact ⟨fits_mutatePorts hT, leavesNames_mutatePorts⟩

theorem gentle_lspCreateIfMissing (ls : LogicalSwitch) (name : String) {params : Columns Ref}
    (hfit : FitColumns (northboundColumns typeLogicalSwitchPort)
      (params ++ [("name", .strings [name])])) :
    Only Gentle (LogicalSwitchPort.createIfMissing ls name params) :=
  gentle_createPort ⟨_, .head _, .inr rfl⟩ hfit (by decide) (.inl rfl)

theorem gentle_plainPort (ls : LogicalSwitch) (name : String) :
    Only Gentle (LogicalSwitchPort.createIfMissing ls name []) := by
  refine gentle_lspCreateIfMissing ls name ?_
  exact fit_one (.strings [name]) (d := .strings [""]) (by decide) fun _ => rfl

theorem gentle_update {T u : String} {cols : Columns Ref} (hfit : FitColumns (northboundColumns T) cols)
    (hname : T = typeLogicalSwitch ∨ T = typeLogicalRouter → ∀ e ∈ cols, e.1 ≠ "name") :
    Only Gentle (transact [.update T u cols]) := by
  refine only_transact fun operation h => ?_
  rw [List.mem_singleton.mp h]
  exact ⟨hfit, hname⟩

theorem gentle_setAddress (lsp : LogicalSwitchPort) (mac : String) (ip : IpConfiguration) :
    Only Gentle (lsp.setAddress mac ip) := by
  unfold LogicalSwitchPort.setAddress
  split
  · exact trivial
  · refine .bind (.bind (gentle_ovnList _) fun _ => ?_) fun ls => .bind ?_ fun found => ?_
    · split <;> exact trivial
    · refine Only.attempt (.bind (gentle_ovnList _) fun _ => ?_)
      dsimp only
      split <;> exact trivial
    · split
      · exact trivial
      · exact .bind (gentle_update (fit_one _ (d := .strings []) (by decide) nofun)
          fun h => absurd h (by decide)) fun _ => trivial

theorem gentle_setDhcpOptions (lsp : LogicalSwitchPort) (cidr : String) :
    Only Gentle (lsp.setDhcpOptions cidr) :=
  .bind (gentle_getByCidr _) fun _ =>
    .bind (gentle_update (fit_one _ (d := .refs []) (by decide) trivial) fun h => absurd h (by decide))
      fun _ => trivial

theorem gentle_setRoutes (lr : LogicalRouter) (routes : List Route) :
    Only Gentle (lr.setRoutes routes) := by
  refine .bind (.bind (gentle_ovnList _) fun _ => only_collect fun _ =>
    (silent_expect _ _).within) fun _ => .bind (only_transact fun operation h => ?_) fun _ => trivial
  rcases List.mem_append.mp h with h | h
  · obtain ⟨⟨row, name, hins⟩, hfits⟩ := addRoutes_insert _ _ operation h
    refine ⟨hfits, ?_⟩
    rw [hins]
    show ¬(typeLogicalRouterStaticRoute = typeLogicalSwitch ∨
      typeLogicalRouterStaticRoute = typeLogicalRouter)
    decide
  · rw [List.mem_singleton.mp h]
    refine ⟨fun m hm e he hc => ?_, fun _ m hm => ?_⟩
    · have hcolumn : m.column = "static_routes" := by
        rcases List.mem_cons.mp hm with rfl | hm
        · rfl
        · rw [List.mem_singleton.mp hm]
      have h₁ := Ovsdb.lookup_of_mem (flat_northbound.nodup _) he
      rw [hc, hcolumn] at h₁
      exact ⟨[], (Option.some.inj h₁).symm⟩
    · have hne : "static_routes" ≠ "name" := by decide
      rcases List.mem_cons.mp hm with rfl | hm
      · exact hne
      · rw [List.mem_singleton.mp hm]
        exact hne

theorem gentle_connectRouterToLs (lr : LogicalRouter) (ls : LogicalSwitch) (address : String) :
    Only Gentle (connectRouterToLs lr ls address) :=
  .bind (gentle_createPort ⟨_, .tail _ (.head _), .inr rfl⟩ (fit_routerPort _ _) (by decide) (.inr rfl))
    fun _ => .bind (.bind (gentle_update (fit_routerPort _ _) fun h => absurd h (by decide)) fun _ =>
      trivial) fun _ => .bind (gentle_lspCreateIfMissing _ _ (fit_linkPort _ _)) fun _ => trivial

/-! ## Networks, routers and ports -/

section Ovn

variable [Crates]

theorem gentle_ensureDhcp (name : String) (dhcp : DhcpOptionsCrd) :
    Only Gentle (ensureDhcp name dhcp) := by
  refine .bind (only_orCreate (gentle_getByCidr _) (.bind (only_transact fun operation h => ?_) fun _ =>
    gentle_getByCidr _)) fun opts => .bind ?_ fun _ => .bind (gentle_getByName _ _) fun ls =>
      .bind (gentle_update (fit_one _ (d := .map []) (by decide) trivial) fun _ e he => ?_) fun _ => trivial
  · rw [List.mem_singleton.mp h]
    have hfit : FitColumns (northboundColumns typeDhcpOptions)
        [("cidr", (.strings [dhcp.cidr] : Ovsdb.Datum Ref))] :=
      fit_one _ (d := .strings [""]) (by decide) fun _ => rfl
    refine ⟨⟨⟨_, .tail _ (.tail _ (.tail _ (.head _))), .inr rfl⟩, hfit⟩, ?_⟩
    show ¬(typeDhcpOptions = typeLogicalSwitch ∨ typeDhcpOptions = typeLogicalRouter)
    decide
  · unfold DhcpOptions.setOptions
    split
    · exact trivial
    · exact .bind (silent_expect _ _).within fun _ =>
        .bind (gentle_update (fit_one _ (d := .map []) (by decide) trivial)
          fun h => absurd h (by decide)) fun _ => trivial
  · rw [List.mem_singleton.mp he]
    show "other_config" ≠ "name"
    decide

omit [Crates] in
theorem gentle_ensureRouterAttachment (network : Network) (attachment : RouterAttachment) :
    Only Gentle (ensureRouterAttachment network attachment) :=
  .bind (silent_orPanic _).within fun _ => .bind (gentle_getByName _ _) fun lr =>
    .bind (gentle_getByName _ _) fun ls => gentle_connectRouterToLs lr ls attachment.address

/-- What the update of a network does once its switch is there. -/
theorem gentle_switchSettings (network : Network) (name : String) : Only Gentle (do
    ifSome network.spec.dhcp (ensureDhcp name)
    ifSome network.spec.routers fun routers => Program.forEach routers (ensureRouterAttachment network)
    setStatus network (⟨true⟩ : NetworkStatus) .updateNetwork) :=
  .bind (only_ifSome fun _ => gentle_ensureDhcp _ _) fun _ =>
    .bind (only_ifSome fun _ => only_forEach fun _ => gentle_ensureRouterAttachment _ _)
      fun _ => (apart_setStatus _ _ _).gentle

theorem fitting_updateNetwork (network : Network) : Only Fitting (updateNetwork network) := by
  unfold updateNetwork
  split
  · exact trivial
  · exact .bind apart_ovnTry.gentle.fitting fun _ =>
      .bind (fitting_of_aside (aside_ensureFinalizer _ _)) fun network =>
      .bind (fitting_createIfMissing LogicalSwitch _ ⟨_, .head _, .inl rfl⟩ (by decide)) fun _ =>
      (gentle_switchSettings network _).fitting

omit [Crates] in
theorem gentle_deleteSwitch (name : String) : Only Gentle (deleteSwitch name) := by
  refine .bind (gentle_getByName _ _).attempt fun a => ?_
  split
  · exact gentle_ovnDelete _
  · exact trivial
  · exact trivial

omit [Crates] in
theorem fitting_removeNetwork (network : Network) : Only Fitting (removeNetwork network) := by
  unfold removeNetwork
  split
  · exact trivial
  · exact .bind apart_ovnTry.gentle.fitting fun _ => .bind (gentle_deleteSwitch _).fitting fun _ =>
      .bind (fitting_of_aside (aside_removeFinalizer _ _)) fun _ => trivial

omit [Crates] in
theorem fitting_updateRouter (router : Router) : Only Fitting (updateRouter router) := by
  refine .bind apart_ovnTry.gentle.fitting fun _ =>
    .bind (fitting_of_aside (aside_ensureFinalizer _ _)) fun router =>
    .bind (fitting_createIfMissing LogicalRouter _ ⟨_, .tail _ (.head _), .inl rfl⟩ (by decide))
      fun lr => .bind (gentle_getByName _ _).fitting fun current =>
    .bind (gentle_setRoutes _ _).fitting fun _ => .bind (only_onlyIf ?_) fun _ =>
    (apart_setStatus _ _ _).gentle.fitting
  exact .bind (apart_deployMds _ _).gentle.fitting fun _ =>
    .bind (fitting_createIfMissing LogicalSwitch _ ⟨_, .head _, .inl rfl⟩ (by decide)) fun ls =>
    .bind (gentle_connectRouterToLs _ _ _).fitting fun _ => .bind (gentle_plainPort _ _).fitting fun lsp =>
    (gentle_setAddress _ _ _).fitting

omit [Crates] in
theorem fitting_removeRouter (router : Router) : Only Fitting (removeRouter router) :=
  .bind apart_ovnTry.gentle.fitting fun _ => .bind (gentle_getByName _ _).fitting fun lr =>
    .bind (gentle_ovnDelete lr).fitting fun _ =>
      .bind (fitting_of_aside (aside_removeFinalizer _ _)) fun _ => trivial

omit [Crates] in
theorem gentle_updateVmNic (vm : VirtualMachine) (nic : NetworkAttachment) :
    Only Gentle (updateVmNic vm nic) := by
  refine .bind ?_ fun _ => ?_
  · refine .bind (silent_expect _ _).within fun name => .bind (silent_expect _ _).within fun mac =>
      .bind (gentle_getByName _ _) fun ls => .bind (silent_expect _ _).within fun id =>
      .bind (gentle_plainPort _ _) fun lsp => .bind (gentle_setAddress _ _ _) fun _ =>
      .bind (apart_kubeGet _ _).gentle fun network => ?_
    split
    · exact gentle_setDhcpOptions _ _
    · exact trivial
  · split
    · exact .bind (gentle_getByName _ _) fun _ => trivial
    · exact trivial

omit [Crates] in
theorem gentle_updateVm (vm : VirtualMachine) : Only Gentle (updateVm vm) := by
  refine .bind apart_ovnTry.gentle fun _ => .bind (apart_ensureFinalizer _ rfl _).gentle fun vm =>
    .bind (only_collect fun _ => gentle_updateVmNic _ _) fun _ => ?_
  dsimp only
  split
  · exact (apart_setStatus _ _ _).gentle
  · exact trivial

omit [Crates] in
theorem gentle_disconnectVmNic (vm : VirtualMachine) (nic : NetworkAttachment) :
    Only Gentle (disconnectVmNic vm nic) := by
  refine .bind (silent_expect _ _).within fun name => .bind (silent_expect _ _).within fun id =>
    .bind (gentle_getByName _ _).attempt fun a => ?_
  split
  · refine .bind (gentle_getByName _ _) fun ls => .bind (gentle_getByName _ _) fun _ =>
      .bind (only_transact fun operation h => ?_) fun _ => trivial
    rw [List.mem_singleton.mp h]
    exact ⟨fits_mutatePorts (.inl rfl), leavesNames_mutatePorts⟩
  · exact trivial

omit [Crates] in
theorem gentle_removeVm (vm : VirtualMachine) : Only Gentle (removeVm vm) :=
  .bind apart_ovnTry.gentle fun _ => .bind (only_forEach fun _ => gentle_disconnectVmNic _ _)
    fun _ => .bind (apart_removeFinalizer _ rfl _).gentle fun _ => trivial

end Ovn

/-! ## The other controllers -/

theorem apart_choose {α : Type} (l : List α) : Only Apart (choose l) := by
  cases l with
  | nil => exact trivial
  | cons a l => exact .bind (only_ask trivial) fun _ => trivial

section Ceph

theorem only_cephCall {sort : Request → Prop} {operation : String} {r : CephRequest}
    (h : sort (.ceph r)) : Only sort (cephCall operation r) := by
  refine .bind (only_ask h) fun a => ?_
  split <;> exact trivial

theorem only_cephCallUnchecked {sort : Request → Prop} {r : CephRequest} (h : sort (.ceph r)) :
    Only sort (cephCallUnchecked r) := .bind (only_ask h) fun _ => trivial

theorem apart_cephConnect : Only Apart Ceph.connect :=
  .bind (only_cephCall trivial) fun _ => .bind (only_cephCall trivial) fun _ =>
    .bind (only_cephCall trivial) fun _ => .bind (only_cephCall trivial) fun _ => trivial

theorem apart_getImages (pool : Nat) : Only Apart (Ceph.getImages pool) :=
  .bind (only_cephCall trivial) fun _ => (silent_orPanic _).within

theorem apart_getFeatures (pool : Nat) (name snapshot : String) :
    Only Apart (Ceph.getFeatures pool name snapshot) :=
  .bind (silent_cStringNew _ _).within fun _ => .bind (silent_cStringNew _ _).within fun _ =>
    .bind (only_cephCall trivial) fun _ => .bind (only_cephCall trivial) fun _ =>
    .bind (only_cephCall trivial) fun _ => trivial

/-- The pools are closed and the connection ends. -/
theorem apart_closing (cluster volumePool templatePool : Nat) : Only Apart (do
    Ceph.closePool volumePool
    Ceph.closePool templatePool
    Ceph.disconnect cluster) :=
  .bind (only_cephCallUnchecked trivial) fun _ => .bind (only_cephCallUnchecked trivial) fun _ =>
    only_cephCallUnchecked trivial

theorem fitting_makeImage (volumePool templatePool : Nat) (name : String) (size : UInt64)
    (template : Option String) :
    Only Fitting (Volumes.makeImage volumePool templatePool name size template) := by
  unfold Volumes.makeImage
  split
  · exact .bind (silent_cStringNew _ _).within fun _ => .bind (silent_cStringNew _ _).within fun _ =>
      .bind (apart_getFeatures _ _ _).gentle.fitting fun _ => only_cephCall nofun
  · exact .bind (silent_cStringNew _ _).within fun _ => only_cephCall nofun

theorem fitting_updateVolume [Crates] (volume : Volume) : Only Fitting (Volumes.updateVolume volume) := by
  unfold Volumes.updateVolume
  dsimp only
  split
  · exact trivial
  · exact .bind (fitting_of_aside (aside_ensureFinalizer _ _)) fun _ =>
      .bind apart_cephConnect.gentle.fitting fun _ => .bind (only_cephCall nofun) fun _ =>
      .bind (only_cephCall nofun) fun _ => .bind (apart_getImages _).gentle.fitting fun _ =>
      .bind (only_onlyIf (fitting_makeImage _ _ _ _ _)) fun _ => (apart_closing _ _ _).gentle.fitting

/-- The images of a pool are listed, and one is removed. -/
theorem apart_removal (pool name : String) : Only Apart (do
    let cluster ← Ceph.connect
    let p ← Ceph.getPool cluster pool
    let images ← Ceph.getImages p
    onlyIf (name ∈ images) (Ceph.removeImage p name)) :=
  .bind apart_cephConnect fun _ => .bind (only_cephCall trivial) fun _ =>
    .bind (apart_getImages _) fun _ => only_onlyIf (.bind (silent_cStringNew _ _).within fun _ =>
    only_cephCall trivial)

theorem fitting_removeVolume (volume : Volume) : Only Fitting (Volumes.removeVolume volume) :=
  .bind (apart_removal _ _).gentle.fitting fun _ => .bind (fitting_of_aside (aside_removeFinalizer _ _))
    fun _ => trivial

theorem apart_updateImage (image : Image) : Only Apart (Images.updateImage image) :=
  .bind (apart_ensureFinalizer _ rfl _) fun _ =>
    .bind apart_cephConnect fun _ => .bind (only_cephCall trivial) fun _ =>
    .bind (apart_getImages _) fun _ => .bind (only_onlyIf trivial) fun _ =>
    .bind (only_cephCallUnchecked trivial) fun _ => only_cephCallUnchecked trivial

theorem apart_removeImage (image : Image) : Only Apart (Images.removeImage image) :=
  .bind (apart_removal _ _) fun _ => .bind (apart_removeFinalizer _ rfl _) fun _ => trivial

end Ceph

section Machines

variable (vm : VirtualMachine)

theorem apart_isUncompliant : Only Apart (isUncompliant vm) := by
  refine .bind (silent_ofExcept _).within fun status => ?_
  split
  · refine .bind ?_ fun _ => trivial
    unfold getOthersInAffinityGroup
    split
    · exact .bind (apart_kubeCall trivial) fun _ => trivial
    · exact trivial
  · exact trivial

theorem apart_schedule (ignoreAffinity : Bool) : Only Apart (schedule vm ignoreAffinity) := by
  refine .bind (only_ask trivial) fun _ => .bind (apart_kubeCall trivial) fun nodes => ?_
  dsimp only
  split
  · split <;> exact trivial
  · refine .bind ?_ fun blocked => .bind (apart_choose _) fun node => ?_
    · unfold blockedNodes
      split
      · split
        · exact .bind (apart_kubeCall trivial) fun _ => trivial
        · exact trivial
      · exact trivial
    · split <;> exact trivial

theorem apart_placeVm (status : VirtualMachineStatus) (migrationRequired : Bool) :
    Only Apart (placeVm vm status migrationRequired) := by
  refine .bind (.bind (apart_schedule _ _).attempt fun a => ?_) fun node => apart_setStatus _ _ _
  split
  · exact trivial
  · split
    · exact apart_schedule _ _
    · exact trivial

theorem apart_schedulingAndMigrations : Only Apart (schedulingAndMigrations vm) := by
  refine .bind (silent_ofExcept _).within fun status => .bind (apart_isUncompliant vm) fun required =>
    .bind (only_onlyIf ?_) fun _ => ?_
  · refine .bind (only_ask trivial) fun _ => .bind (apart_placeVm _ _ _).attempt fun a =>
      .bind (only_ask trivial) fun _ => ?_
    exact (silent_ofExcept _).within
  · unfold clearSuccessfulMigration
    split
    · exact only_onlyIf (apart_commit _ rfl _)
    · exact trivial

variable [Crates]

theorem apart_fillNic (ns vmName : String) (statusNetworks : List NetworkAttachment)
    (nicSpec : NetworkAttachment) (index : Nat) :
    Only Apart (fillNic ns vmName statusNetworks nicSpec index) := by
  refine .bind (silent_orPanic _).within fun found => .bind (silent_orPanic _).within fun nicStatus => ?_
  split
  · refine .bind (apart_kubeCall trivial) fun network => ?_
    have hid : ∀ nicStatus, Only Apart (fillOvnId nicSpec nicStatus) := by
      intro nicStatus
      unfold fillOvnId
      split
      · exact trivial
      · split
        · exact .bind (only_ask trivial) fun _ => trivial
        · exact trivial
    split
    · exact hid _
    · exact hid _
    · exact trivial
  · exact trivial

theorem apart_createVm : Only Apart (createVm vm) := by
  refine .bind (only_onlyIf (apart_setStatus _ _ _)) fun _ => .bind ?_ fun _ => .bind ?_ fun vm =>
    apart_schedulingAndMigrations vm
  · exact .bind (silent_ofExcept _).within fun status => .bind (only_collect fun _ => apart_fillNic _ _ _ _ _)
      fun _ => .bind (silent_orPanic _).within fun _ => .bind (only_onlyIf (apart_setStatus _ _ _)) fun _ =>
      apart_commit _ rfl _
  · unfold fillUuid
    split
    · exact .bind (only_ask trivial) fun _ => .bind (apart_commit _ rfl _) fun _ => trivial
    · exact trivial

omit [Crates] in
theorem apart_updateNode (node : Node) : Only Apart (updateNode node) := by
  refine only_onlyIf (.bind (Only.attempt (apart_kubeList _ _)) fun a => ?_)
  split
  · exact only_forEach fun vm => .bind (silent_ofExcept _).within fun _ => only_onlyIf (apart_commit _ rfl _)
  · exact trivial

end Machines

namespace Host

variable (host : String) (vm : VirtualMachine)

theorem apart_libvirtCall (r : LibvirtRequest) : Only Apart (libvirtCall host r) := by
  refine .bind (only_ask trivial) fun a => ?_
  split <;> exact trivial

theorem apart_volumesLocked (volumes : List StorageTemplate) : Only Apart (volumesLocked volumes) := by
  induction volumes with
  | nil => exact trivial
  | cons volume volumes ih =>
    unfold volumesLocked
    split
    · refine .bind (.bind apart_cephConnect fun cluster => .bind (only_cephCall trivial) fun pool =>
        .bind (.bind (silent_cStringNew _ _).within fun _ => only_cephCall trivial) fun image =>
        .bind (only_cephCall trivial) fun lockers => ?_) fun locked => ?_
      · split
        · exact trivial
        · split <;> exact trivial
      · split
        · exact trivial
        · exact ih
    · exact ih

theorem apart_createDomain (cluster : Cluster) : Only Apart (createDomain host vm cluster) := by
  refine .bind (only_collect fun volume => ?_) fun volumes => .bind (apart_volumesLocked _) fun locked => ?_
  · split
    · exact trivial
    · exact .bind (silent_ofExcept _).within fun _ => trivial
  · split
    · exact trivial
    · refine .bind (.bind (silent_ofExcept _).within fun status => .bind (only_collect fun nic => ?_)
        fun nics => .bind (silent_orPanic _).within fun memory => .bind (silent_expect _ _).within fun name =>
        .bind (silent_expect _ _).within fun uuid => trivial) fun template => apart_libvirtCall _ _
      refine .bind ?_ fun _ => .bind (silent_expect _ _).within fun _ => trivial
      unfold bridgeOf
      split
      · exact trivial
      · exact (silent_expect _ _).within

theorem apart_ensureVniMapping : Only Apart (ensureVniMapping host vm) := by
  have hb : ∀ args, Only Apart (bridgeCommand host args) := fun args => by
    refine .bind (only_ask trivial) fun a => ?_
    split <;> exact trivial
  exact only_forEach fun vlan => .bind (hb _) fun _ => .bind (only_onlyIf trivial) fun _ =>
    .bind (hb _) fun _ => .bind (only_onlyIf trivial) fun _ => .bind (hb _) fun _ =>
    only_onlyIf trivial

theorem apart_handleDelete : Only Apart (handleDelete host vm) := by
  refine .bind (silent_expect _ _).within fun name => .bind (.bind (Only.attempt (apart_libvirtCall _ _))
    fun a => ?_) fun _ => .bind (apart_removeFinalizer _ rfl _) fun _ => trivial
  split
  · exact apart_libvirtCall _ _
  · exact trivial

theorem apart_handleAdd : Only Apart (handleAdd host vm) := by
  refine .bind (apart_ensureVniMapping _ _) fun _ => .bind (silent_expect _ _).within fun _ =>
    .bind (apart_ensureFinalizer _ rfl _) fun vm => ?_
  split
  · exact trivial
  · refine .bind (.bind (only_ask trivial) fun a => ?_) fun cluster =>
      .bind (apart_createDomain _ _ _) fun _ => .bind (silent_expect _ _).within fun _ => apart_setStatus _ _ _
    split <;> exact trivial

theorem apart_handleOutboundMigration : Only Apart (handleOutboundMigration host vm) := by
  refine .bind (silent_expect _ _).within fun name => .bind (Only.attempt (apart_libvirtCall _ _)) fun a => ?_
  split
  · exact trivial
  · exact .bind (silent_ofExcept _).within fun _ => .bind (silent_expect _ _).within fun _ =>
      .bind (apart_libvirtCall _ _) fun _ => apart_libvirtCall _ _

theorem apart_handleInboundMigration : Only Apart (handleInboundMigration host vm) := by
  refine .bind (apart_ensureVniMapping _ _) fun _ => .bind (silent_expect _ _).within fun _ =>
    .bind (.bind (apart_libvirtCall _ _) fun _ => trivial) fun has => ?_
  split
  · exact trivial
  · refine .bind (Only.attempt (apart_libvirtCall _ _)) fun a => ?_
    split
    · exact trivial
    · refine .bind (apart_libvirtCall _ _) fun active => ?_
      split
      · exact trivial
      · exact .bind (silent_ofExcept _).within fun _ => apart_setStatus _ _ _

theorem apart_reconcile : Only Apart (reconcile host vm) := by
  refine .bind ?_ fun event => ?_
  · unfold getEventType
    split
    · exact trivial
    · refine .bind (silent_ofExcept _).within fun status => ?_
      split
      · exact trivial
      · split
        · exact trivial
        · exact .bind (.bind (apart_libvirtCall _ _) fun _ => trivial) fun _ => trivial
  · split
    · exact apart_handleDelete _ _
    · exact apart_handleAdd _ _
    · exact apart_handleOutboundMigration _ _
    · exact apart_handleInboundMigration _ _
    · exact trivial

end Host

/-! ## The database stays consistent -/

section Consistency

variable {w : Worker} {s t : World}

/-- A request that fits leaves the database consistent, however it is delivered. -/
theorem consistent_answer {r : Request} {a : r.Answer} {x : Choice} (hr : Fitting r)
    (hc : Consistent northbound s.northbound) (h : World.answer w s r x = some (a, t)) :
    Consistent northbound t.northbound := by
  cases r with
  | transact operations =>
    have hd : x.deliver none s (s.serveTransact x operations) = (a, t) := Option.some.inj h
    rcases Choice.deliver_state hd with rfl | rfl
    · exact hc
    · unfold World.serveTransact
      cases hn : s.northbound.transact northbound x.fresh operations with
      | none => exact hc
      | some p =>
        obtain ⟨mid, htr⟩ := Ovsdb.transacted hn
        exact htr.consistent flat_northbound hc (hr operations rfl)
  | _ =>
    rw [(World.answer_frame h).northbound nofun]
    exact hc

variable [Crates]

/-- All that the controllers ask of the database fits its schema. -/
theorem fitting_reconcile (w : Worker) (v : Object w.kind) : IsFitting (w.reconcile v) := by
  have hboth : ∀ {p q : Prog Unit} {b : Bool}, IsFitting p → IsFitting q →
      IsFitting (if b then p else q) := by
    intro p q b hp hq
    cases b
    · exact hq
    · exact hp
  cases w with
  | vm k => exact hboth trivial (apart_createVm v).gentle.fitting
  | vmOvn k => exact hboth (gentle_removeVm v).fitting (gentle_updateVm v).fitting
  | node name => exact hboth trivial (apart_updateNode v).gentle.fitting
  | network k => exact hboth (fitting_removeNetwork v) (fitting_updateNetwork v)
  | router k => exact hboth (fitting_removeRouter v) (fitting_updateRouter v)
  | volume k => exact hboth (fitting_removeVolume v) (fitting_updateVolume v)
  | image k => exact hboth (apart_removeImage v).gentle.fitting (apart_updateImage v).gentle.fitting
  | host h k => exact (Host.apart_reconcile h v).gentle.fitting

/-- In every run in which no two reconciles overlap. -/
theorem consistent_serial {ok : Worker → World → Request → Prop} {allowed : World → Deed → Prop}
    (hrun : Serial (servedIf ok) allowed s t) (hc : Consistent northbound s.northbound) :
    Consistent northbound t.northbound := by
  induction hrun with
  | refl => exact hc
  | tail _ hstep ih =>
    obtain ⟨d, -, hd⟩ := hstep
    cases d with
    | happen e => exact consistent_happen hd ih
    | turn w =>
      obtain ⟨o, v, -, hends⟩ := hd
      refine ((fitting_reconcile w v).ends_invariant
        (I := fun s => Consistent northbound s.northbound) ?_ ih hends).1
      rintro s r a t hr hs ⟨⟨x, -, hans⟩, -⟩
      exact consistent_answer hr hs hans

/-- Terms under which the database stays consistent. -/
def fittingTerms : Terms Worker Request World where
  inv s := Consistent northbound s.northbound
  rely _ _ _ := True
  guar _ _ r _ := Fitting r

/-- In every interleaving. -/
def fittingRegime (allowed : World → ClusterEvent → Prop) : Regime cluster allowed where
  toTerms := fittingTerms
  rely_refl _ _ := trivial
  rely_trans _ _ _ _ _ _ := trivial
  call_keeps w s r a t hc hexec hr := by
    obtain ⟨x, -, hans⟩ := hexec
    exact ⟨consistent_answer hr hc hans, fun _ _ => trivial⟩
  start_keeps w s i p t hc _ hl := by
    obtain ⟨v, -, -, -, rfl, rfl⟩ := World.launch_some hl
    refine ⟨hc, fun _ _ => trivial, ?_⟩
    refine Interaction.Contract.wp_mono (Interaction.Contract.wp_of_within (K := fun _ _ => True)
      (fun _ => trivial) (fun _ _ _ _ _ => trivial) (fun _ _ _ => trivial)
      (fun _ _ _ _ hr _ _ => ⟨hr, trivial⟩) (fitting_reconcile w v) _) fun _ _ _ => trivial
  stop_keeps w s hc _ := by
    refine ⟨?_, fun _ _ => trivial⟩
    show Consistent northbound (World.release w s).northbound
    unfold World.release
    split <;> exact hc
  world_keeps s e t hc _ ht := ⟨consistent_happen ht hc, fun _ => trivial⟩

theorem consistent_reaches {allowed : World → ClusterEvent → Prop} {c : ClusterConfig}
    (hc : Consistent northbound s.northbound) (hrun : cluster.Run allowed ⟨s, fun _ => none⟩ c) :
    Consistent northbound c.state.northbound :=
  (fittingRegime allowed).run_inv ((fittingRegime allowed).holds_idle hc) hrun

end Consistency

end ClusterController
