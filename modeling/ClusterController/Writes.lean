import ClusterController.Fitting

/-!
# What the controllers write to OVN

The operations that the reconcile of each worker can send to the northbound database, with the data of
the object that it starts from (`Worker.Sends`). Whatever the answers are, it sends no other
(`sends_reconcile`).
-/

namespace ClusterController

open ApiServer (Key Resource)
open Interaction (Program)
open Interaction.Program (Within)
open Ovsdb (Columns Datum Mutation Operation Ref)

/-! ## The operations -/

/-- The operations of a link between a router and a switch. -/
inductive LinkSends (router switch address : String) : Operation → Prop
  | routerPort : LinkSends router switch address (.insert typeLogicalRouterPort
      [("name", .strings ["lr_" ++ router ++ "_ls_" ++ switch]), ("mac", .strings ["02:00:00:00:00:01"]),
        ("networks", .strings [address])] (some "new_lrp"))
  | routerPorts (u : String) : LinkSends router switch address
      (.mutate typeLogicalRouter u [⟨"ports", true, [.named "new_lrp"]⟩])
  | update (u : String) : LinkSends router switch address (.update typeLogicalRouterPort u
      [("name", .strings ["lr_" ++ router ++ "_ls_" ++ switch]), ("mac", .strings ["02:00:00:00:00:01"]),
        ("networks", .strings [address])])
  | switchPort : LinkSends router switch address (.insert typeLogicalSwitchPort
      [("type", .strings ["router"]), ("addresses", .strings ["router"]),
        ("options", .map [("router-port", "lr_" ++ router ++ "_ls_" ++ switch)]),
        ("name", .strings ["ls_" ++ switch ++ "_lr_" ++ router])] (some "new_lsp"))
  | switchPorts (u : String) : LinkSends router switch address
      (.mutate typeLogicalSwitch u [⟨"ports", true, [.named "new_lsp"]⟩])

/-- What a network sends. -/
inductive NetworkSends [Crates] (network : Network) : Operation → Prop
  | select (T : String) (columns : List String) : NetworkSends network (.select T columns)
  | switch : NetworkSends network (.insert typeLogicalSwitch
      [("name", .strings [namePrefixedWithNamespace network.key])] none)
  | delete (u : String) : NetworkSends network (.delete typeLogicalSwitch u)
  | dhcp {dhcp : DhcpOptionsCrd} : network.spec.dhcp = some dhcp → NetworkSends network
      (.insert typeDhcpOptions [("cidr", .strings [dhcp.cidr])] (some "new_dhcp_options"))
  | options {dhcp : DhcpOptionsCrd} {hosts : List String} {serverId : String} (u : String) :
      network.spec.dhcp = some dhcp → Crates.netHosts dhcp.cidr = some hosts →
      hosts.head? = some serverId → NetworkSends network
        (.update typeDhcpOptions u [("options", .map (DhcpOptions.options serverId dhcp))])
  | subnet {dhcp : DhcpOptionsCrd} (u : String) : network.spec.dhcp = some dhcp → NetworkSends network
      (.update typeLogicalSwitch u [("other_config", .map [("subnet", dhcp.cidr)])])
  | link {attachment : RouterAttachment} {router : String × String} {operation : Operation} :
      attachment ∈ network.spec.routers.getD [] →
      attachedRouter network.metadata.ns attachment.name = .ok router →
      LinkSends (router.1 ++ "-" ++ router.2) (namePrefixedWithNamespace network.key) attachment.address
        operation → NetworkSends network operation

/-- What a router sends. -/
inductive RouterSends (router : Router) : Operation → Prop
  | select (T : String) (columns : List String) : RouterSends router (.select T columns)
  | router : RouterSends router (.insert typeLogicalRouter
      [("name", .strings [namePrefixedWithNamespace router.key])] none)
  | delete (u : String) : RouterSends router (.delete typeLogicalRouter u)
  | route {route : Route} (id : String) : route ∈ router.spec.routes.getD [] → RouterSends router
      (.insert typeLogicalRouterStaticRoute
        [("ip_prefix", .strings [route.cidr]), ("nexthop", .strings [route.nexthop])] (some id))
  | routes (u : String) (added dropped : List Ref) : RouterSends router (.mutate typeLogicalRouter u
      [⟨"static_routes", true, added⟩, ⟨"static_routes", false, dropped⟩])
  | mdsSwitch : router.spec.metadataService = some true → RouterSends router (.insert typeLogicalSwitch
      [("name", .strings ["mds-" ++ namePrefixedWithNamespace router.key])] none)
  | mdsLink {operation : Operation} : router.spec.metadataService = some true →
      LinkSends (namePrefixedWithNamespace router.key) ("mds-" ++ namePrefixedWithNamespace router.key)
        "169.254.169.253/30" operation → RouterSends router operation
  | mdsPort : router.spec.metadataService = some true → RouterSends router (.insert typeLogicalSwitchPort
      [("name", .strings ["mds-" ++ namePrefixedWithNamespace router.key])] (some "new_lsp"))
  | mdsPorts (u : String) : RouterSends router
      (.mutate typeLogicalSwitch u [⟨"ports", true, [.named "new_lsp"]⟩])
  | mdsAddress (u : String) : RouterSends router (.update typeLogicalSwitchPort u
      [("addresses", .strings [LogicalSwitchPort.addressString "02:00:00:00:00:02"
        (.address "169.254.169.254")])])

/-- What a virtual machine sends. -/
inductive VmSends (vm : VirtualMachine) : Operation → Prop
  | select (T : String) (columns : List String) : VmSends vm (.select T columns)
  | port {nic : NetworkAttachment} {id : String} : nic ∈ getVmOvnNics vm → nic.ovnId = some id →
      VmSends vm (.insert typeLogicalSwitchPort [("name", .strings [id])] (some "new_lsp"))
  | ports (u : String) : VmSends vm (.mutate typeLogicalSwitch u [⟨"ports", true, [.named "new_lsp"]⟩])
  | address {nic : NetworkAttachment} {mac : String} {ip : IpConfiguration} (u : String) :
      nic ∈ getVmOvnNics vm → nic.macAddress = some mac → ip = .dynamic ∨ ip = .none →
      VmSends vm (.update typeLogicalSwitchPort u
        [("addresses", .strings [LogicalSwitchPort.addressString mac ip])])
  | dhcp (u options : String) : VmSends vm
      (.update typeLogicalSwitchPort u [("dhcpv4_options", .refs [.uuid options])])
  | detach (u port : String) : VmSends vm
      (.mutate typeLogicalSwitch u [⟨"ports", false, [.uuid port]⟩])

/-- What a worker sends that reconciles a version of its object. -/
def Worker.Sends [Crates] : (w : Worker) → Object w.kind → Operation → Prop
  | .network _, v => NetworkSends v
  | .router _, v => RouterSends v
  | .vmOvn _, v => VmSends v
  | _, _ => fun _ => False

/-- The operations of the request are among those. -/
def Sends (P : Operation → Prop) : Request → Prop
  | .transact operations => ∀ operation ∈ operations, P operation
  | _ => True

/-! ## The programs -/

theorem Aside.sends {P : Operation → Prop} {r : Request} (h : Aside r) : Sends P r := by
  cases r with
  | transact operations => exact absurd rfl (h operations)
  | _ => exact trivial

section Programs

variable {P : Operation → Prop}

theorem sends_of_aside {α : Type} {p : Prog α} {done : α → Prop} (h : p.Within Aside done) :
    p.Within (Sends P) done := h.mono (fun _ => Aside.sends) fun _ h => h

theorem sends_of_apart {α : Type} {p : Prog α} (h : Only Apart p) : Only (Sends P) p :=
  Within.mono h (fun _ hr => hr.aside.sends) fun _ h => h

theorem sends_one {operation : Operation} (h : P operation) : Only (Sends P) (transact [operation]) := by
  refine only_transact fun operation' hmem => ?_
  rw [List.mem_singleton.mp hmem]
  exact h

theorem sends_ignored {α : Type} {p : Prog α} (h : Only (Sends P) p) :
    Only (Sends P) (do let _ ← p) := Within.bind h fun _ _ => trivial

theorem sends_expect {α : Type} (o : Option α) (message : String) :
    (expect o message).Within (Sends P) fun a => o = some a := by
  cases o with
  | none => trivial
  | some a => exact rfl

theorem sends_orPanic {α : Type} (e : Except String α) :
    (orPanic e).Within (Sends P) fun a => e = .ok a := by
  cases e with
  | error message => trivial
  | ok a => exact rfl

theorem sends_ensureFinalizer {κ : Kind} (v : Object κ) (finalizer : String) :
    (ensureFinalizer v finalizer).Within (Sends P)
      fun n => n.key = v.key ∧ n.spec = v.spec ∧ n.status = v.status := by
  unfold ensureFinalizer
  split
  · exact Within.bind (sends_of_aside (aside_commit _ _)) fun _ _ => ⟨rfl, rfl, rfl⟩
  · exact ⟨rfl, rfl, rfl⟩

variable (hselect : ∀ T columns, P (.select T columns))
include hselect

theorem sends_listObjects (objectType : String) : Only (Sends P) (listObjects objectType) :=
  Within.bind (sends_one (hselect _ _)) fun _ _ => Within.bind (silent_expect _ _).within fun _ _ =>
    Within.bind (silent_expect _ _).within fun _ _ => Within.bind (silent_expect _ _).within fun _ _ =>
      (silent_expect _ _).within

theorem sends_ovnList (τ : Type) [OvnCommon τ] [SilentDecoder τ] : Only (Sends P) (ovnList τ) :=
  Within.bind (sends_listObjects hselect _) fun _ _ => only_collect fun value => (SilentDecoder.silent value).within

theorem sends_getByName (τ : Type) [OvnNamed τ] [SilentDecoder τ] (name : String) :
    (getByName τ name).Within (Sends P) fun o => OvnNamed.name o = name := by
  refine Within.bind (sends_ovnList hselect τ) fun objects _ => ?_
  split
  · next o ho =>
    have hname := List.find?_some ho
    simpa using hname
  · trivial

omit hselect in
theorem sends_orCreate {α : Type} {get create : Prog α} {done : α → Prop}
    (hget : get.Within (Sends P) done) (hcreate : create.Within (Sends P) done) :
    (orCreate get create).Within (Sends P) done := by
  refine .bind hget.attempt fun a ha => ?_
  split
  · next o => exact ha o rfl
  · exact hcreate
  · trivial

theorem sends_createIfMissing (τ : Type) [OvnNamed τ] [SilentDecoder τ] {name : String}
    (h : P (.insert (OvnCommon.ovnType τ) [("name", .strings [name])] none)) :
    (createIfMissing τ name).Within (Sends P) fun o => OvnNamed.name o = name :=
  sends_orCreate (sends_getByName hselect τ name)
    (Within.bind (sends_ignored (sends_one h)) fun _ _ => sends_getByName hselect τ name)

theorem sends_createPort {τ : Type} [OvnNamed τ] [SilentDecoder τ] {name n T u : String}
    {columns : Columns Ref} (hinsert : P (.insert (OvnCommon.ovnType τ) columns (some n)))
    (hmutate : P (.mutate T u [⟨"ports", true, [.named n]⟩])) :
    (orCreate (getByName τ name) (transact [.insert (OvnCommon.ovnType τ) columns (some n),
      .mutate T u [⟨"ports", true, [.named n]⟩]] >>= fun _ => getByName τ name)).Within (Sends P)
      fun o => OvnNamed.name o = name := by
  refine sends_orCreate (sends_getByName hselect τ name)
    (Within.bind (only_transact fun operation h => ?_) fun _ _ => sends_getByName hselect τ name)
  rcases List.mem_cons.mp h with rfl | h
  · exact hinsert
  · rw [List.mem_singleton.mp h]
    exact hmutate

theorem sends_setAddress (lsp : LogicalSwitchPort) {mac : String} {ip : IpConfiguration}
    (h : ∀ u, P (.update typeLogicalSwitchPort u
      [("addresses", .strings [LogicalSwitchPort.addressString mac ip])])) :
    Only (Sends P) (lsp.setAddress mac ip) := by
  unfold LogicalSwitchPort.setAddress
  split
  · trivial
  · refine Within.bind (?_ : Only (Sends P) _) fun ls _ => Within.bind (?_ : Only (Sends P) _) fun found _ => ?_
    · refine Within.bind (sends_ovnList hselect _) fun _ _ => ?_
      split <;> trivial
    · refine Only.attempt (Within.bind (sends_ovnList hselect _) fun _ _ => ?_)
      dsimp only
      split <;> trivial
    · split
      · trivial
      · exact Within.bind (sends_one (h _)) fun _ _ => trivial

theorem sends_getByCidr (cidr : String) :
    (DhcpOptions.getByCidr cidr).Within (Sends P) fun o => o.cidr = cidr := by
  refine Within.bind (sends_ovnList hselect _) fun all _ => ?_
  split
  · next o ho =>
    have hname := List.find?_some ho
    simpa using hname
  · trivial

omit hselect in
/-- The inserts of `addRoutes` are those of its routes. -/
theorem mem_addRoutes {routes : List Route} {i : UInt8} {operation : Operation}
    (h : operation ∈ (LogicalRouter.addRoutes routes i).1) : ∃ route ∈ routes, ∃ id,
      operation = .insert typeLogicalRouterStaticRoute
        [("ip_prefix", .strings [route.cidr]), ("nexthop", .strings [route.nexthop])] (some id) := by
  induction routes generalizing i with
  | nil => cases h
  | cons route routes ih =>
    rcases List.mem_cons.mp h with rfl | h
    · exact ⟨route, List.mem_cons_self, _, rfl⟩
    · obtain ⟨route', hmem, id, rfl⟩ := ih h
      exact ⟨route', List.mem_cons_of_mem _ hmem, id, rfl⟩

theorem sends_setRoutes (lr : LogicalRouter) {routes : List Route}
    (hinsert : ∀ route ∈ routes, ∀ id, P (.insert typeLogicalRouterStaticRoute
      [("ip_prefix", .strings [route.cidr]), ("nexthop", .strings [route.nexthop])] (some id)))
    (hmutate : ∀ u added dropped, P (.mutate typeLogicalRouter u
      [⟨"static_routes", true, added⟩, ⟨"static_routes", false, dropped⟩])) :
    Only (Sends P) (lr.setRoutes routes) := by
  refine Within.bind (Within.bind (sends_ovnList hselect _) fun _ _ => only_collect fun _ =>
    (silent_expect _ _).within) fun _ _ => Within.bind (only_transact fun operation h => ?_) fun _ _ => trivial
  rcases List.mem_append.mp h with h | h
  · obtain ⟨route, hmem, id, rfl⟩ := mem_addRoutes h
    exact hinsert route (List.mem_filter.mp hmem).1 id
  · rw [List.mem_singleton.mp h]
    exact hmutate _ _ _

theorem sends_connectRouterToLs {lr : LogicalRouter} {ls : LogicalSwitch} {address : String}
    (h : ∀ operation, LinkSends lr.name ls.name address operation → P operation) :
    Only (Sends P) (connectRouterToLs lr ls address) := by
  refine Within.bind (sends_createPort hselect (h _ .routerPort) (h _ (.routerPorts _))) fun lrp hlrp =>
    Within.bind (sends_ignored (sends_one ?_)) fun _ _ =>
      Within.bind (sends_createPort hselect (h _ .switchPort) (h _ (.switchPorts _))) fun _ _ => trivial
  have hname : lrp.name = "lr_" ++ lr.name ++ "_ls_" ++ ls.name := hlrp
  rw [hname]
  exact h _ (.update _)

end Programs

/-! ## The controllers -/

section Controllers

variable [Crates] {P : Operation → Prop}

theorem NetworkSends.congr {network network' : Network} {operation : Operation}
    (hkey : network'.key = network.key) (hspec : network'.spec = network.spec)
    (h : NetworkSends network' operation) : NetworkSends network operation := by
  have hns : network'.metadata.ns = network.metadata.ns := congrArg Key.ns hkey
  cases h with
  | select T columns => exact .select T columns
  | switch => exact hkey ▸ .switch
  | delete u => exact .delete u
  | dhcp hd => exact .dhcp (hspec ▸ hd)
  | options u hd hhosts hhead => exact .options u (hspec ▸ hd) hhosts hhead
  | subnet u hd => exact .subnet u (hspec ▸ hd)
  | link hmem hrouter hlink =>
    rw [hspec] at hmem
    rw [hns] at hrouter
    rw [hkey] at hlink
    exact .link hmem hrouter hlink

theorem sends_ensureDhcp {network : Network} {dhcp : DhcpOptionsCrd} (name : String)
    (h : network.spec.dhcp = some dhcp) : Only (Sends (NetworkSends network)) (ensureDhcp name dhcp) := by
  have hselect : ∀ T columns, NetworkSends network (.select T columns) := .select
  refine Within.bind (sends_orCreate (sends_getByCidr hselect _)
    (Within.bind (sends_one (.dhcp h)) fun _ _ => sends_getByCidr hselect _)) fun options hoptions =>
    Within.bind (?_ : Only (Sends (NetworkSends network)) _) fun _ _ =>
      Within.bind (sends_getByName hselect _ _) fun ls _ => Within.bind (sends_one (.subnet _ h)) fun _ _ =>
        trivial
  unfold DhcpOptions.setOptions
  rw [hoptions]
  cases hhosts : Crates.netHosts dhcp.cidr with
  | none => trivial
  | some hosts =>
    exact Within.bind (sends_expect _ _) fun serverId hhead =>
      Within.bind (sends_one (.options _ h hhosts hhead)) fun _ _ => trivial

omit [Crates] in
theorem sends_ensureRouterAttachment {network : Network} {attachment : RouterAttachment}
    (hselect : ∀ T columns, P (.select T columns))
    (h : ∀ router operation, attachedRouter network.metadata.ns attachment.name = .ok router →
      LinkSends (router.1 ++ "-" ++ router.2) (namePrefixedWithNamespace network.key) attachment.address
        operation → P operation) :
    Only (Sends P) (ensureRouterAttachment network attachment) := by
  refine Within.bind (sends_orPanic _) fun router hrouter => Within.bind (sends_getByName hselect _ _)
    fun lr hlr => Within.bind (sends_getByName hselect _ _) fun ls hls =>
      sends_connectRouterToLs hselect fun operation hlink => ?_
  have hlrName : lr.name = router.1 ++ "-" ++ router.2 := hlr
  have hlsName : ls.name = namePrefixedWithNamespace network.key := hls
  rw [hlrName, hlsName] at hlink
  exact h router operation hrouter hlink

theorem sends_updateNetwork (network : Network) :
    Only (Sends (NetworkSends network)) (updateNetwork network) := by
  unfold updateNetwork
  split
  · trivial
  · refine Within.bind (sends_of_aside aside_ovnTry) fun _ _ => Within.bind (sends_ensureFinalizer _ _) fun n hn =>
      Within.bind (sends_createIfMissing .select LogicalSwitch .switch) fun _ _ => ?_
    obtain ⟨hkey, hspec, -⟩ := hn
    have hcongr : ∀ {p : Prog Unit}, Only (Sends (NetworkSends n)) p →
        Only (Sends (NetworkSends network)) p := by
      refine fun hp => Within.mono hp (fun r hr => ?_) fun _ h => h
      cases r with
      | transact operations => exact fun operation hmem => (hr operation hmem).congr hkey hspec
      | _ => trivial
    refine hcongr (Within.bind (?_ : Only (Sends (NetworkSends n)) _) fun _ _ =>
      Within.bind (?_ : Only (Sends (NetworkSends n)) _) fun _ _ => sends_of_aside (aside_setStatus _ _ _))
    · cases hd : n.spec.dhcp with
      | none => trivial
      | some dhcp => exact sends_ensureDhcp _ hd
    · cases hr : n.spec.routers with
      | none => trivial
      | some routers =>
        refine Program.within_forEach fun attachment hmem =>
          sends_ensureRouterAttachment .select fun router operation => .link ?_
        rw [hr]
        exact hmem

omit [Crates] in
theorem sends_removeNetwork (network : Network) (hselect : ∀ T columns, P (.select T columns))
    (hdelete : ∀ u, P (.delete typeLogicalSwitch u)) : Only (Sends P) (removeNetwork network) := by
  unfold removeNetwork
  split
  · trivial
  · refine Within.bind (sends_of_aside aside_ovnTry) fun _ _ => Within.bind (?_ : Only (Sends P) _)
      fun _ _ => Within.bind (sends_of_aside (aside_removeFinalizer _ _)) fun _ _ => trivial
    refine Within.bind (sends_getByName hselect _ _).attempt fun a _ => ?_
    split
    · exact Within.bind (sends_one (hdelete _)) fun _ _ => trivial
    · trivial
    · trivial

omit [Crates] in
theorem sends_connectMetadataservice {router : Router} {lr : LogicalRouter}
    (hlr : lr.name = namePrefixedWithNamespace router.key) (h : router.spec.metadataService = some true) :
    Only (Sends (RouterSends router)) (connectMetadataservice lr) := by
  have hselect : ∀ T columns, RouterSends router (.select T columns) := .select
  have hport : ∀ ls, (LogicalSwitchPort.createIfMissing ls
      ("mds-" ++ namePrefixedWithNamespace router.key) []).Within (Sends (RouterSends router))
        fun lsp => lsp.name = "mds-" ++ namePrefixedWithNamespace router.key := fun ls =>
    sends_createPort hselect (.mdsPort h) (.mdsPorts ls.uuid)
  unfold connectMetadataservice
  rw [hlr]
  refine Within.bind (sends_createIfMissing hselect LogicalSwitch (.mdsSwitch h)) fun ls hls =>
    Within.bind (sends_connectRouterToLs hselect fun operation hlink => ?_) fun _ _ =>
      Within.bind (hport ls) fun lsp _ => ?_
  · have hlsName : ls.name = "mds-" ++ namePrefixedWithNamespace router.key := hls
    rw [hlr, hlsName] at hlink
    exact .mdsLink h hlink
  · -- not `exact`: with the texts of the code in the goal Lean would look into the strings
    apply sends_setAddress hselect lsp
    exact .mdsAddress

omit [Crates] in
theorem sends_updateRouter (router : Router) : Only (Sends (RouterSends router)) (updateRouter router) := by
  have hselect : ∀ T columns, RouterSends router (.select T columns) := .select
  refine Within.bind (sends_of_aside aside_ovnTry) fun _ _ => Within.bind (sends_ensureFinalizer _ _) fun n hn =>
    Within.bind (sends_createIfMissing hselect LogicalRouter .router) fun lr hlr =>
    Within.bind (sends_getByName hselect _ _) fun current _ =>
    Within.bind (sends_setRoutes hselect current ?_ .routes) fun _ _ =>
      Within.bind (?_ : Only (Sends (RouterSends router)) _) fun _ _ => sends_of_aside (aside_setStatus _ _ _)
  · rw [hn.2.1]
    exact fun route hmem id => .route id hmem
  · unfold onlyIf
    split
    · next h =>
      rw [hn.2.1] at h
      exact Within.bind (sends_of_aside (aside_deployMds _ _)) fun _ _ =>
        sends_connectMetadataservice hlr h
    · trivial

omit [Crates] in
theorem sends_removeRouter (router : Router) : Only (Sends (RouterSends router)) (removeRouter router) :=
  Within.bind (sends_of_aside aside_ovnTry) fun _ _ => Within.bind (sends_getByName .select _ _) fun _ _ =>
    Within.bind (sends_ignored (sends_one (.delete _))) fun _ _ =>
      Within.bind (sends_of_aside (aside_removeFinalizer _ _)) fun _ _ => trivial

omit [Crates] in
theorem sends_connectVmNic {vm v : VirtualMachine} {nic : NetworkAttachment} (h : nic ∈ getVmOvnNics vm) :
    Only (Sends (VmSends vm)) (connectVmNic v nic) := by
  have hselect : ∀ T columns, VmSends vm (.select T columns) := .select
  have hip : ∀ b : Bool, (if b then IpConfiguration.dynamic else .none) = .dynamic ∨
      (if b then IpConfiguration.dynamic else .none) = .none := by
    intro b
    cases b with
    | true => exact .inl rfl
    | false => exact .inr rfl
  refine Within.bind (sends_expect _ _) fun _ _ => Within.bind (sends_expect _ _) fun mac hmac =>
    Within.bind (sends_getByName hselect _ _) fun ls _ => Within.bind (sends_expect _ _) fun id hid =>
    Within.bind (sends_createPort hselect (.port h hid) (.ports _)) fun lsp _ =>
    Within.bind (sends_setAddress hselect lsp fun u => .address u h hmac (hip _)) fun _ _ =>
    Within.bind (sends_of_aside (aside_kubeCall _)) fun network _ => ?_
  split
  · exact Within.bind (sends_getByCidr hselect _) fun _ _ => sends_ignored (sends_one (.dhcp _ _))
  · trivial

omit [Crates] in
theorem sends_updateVm (vm : VirtualMachine) : Only (Sends (VmSends vm)) (updateVm vm) := by
  refine Within.bind (sends_of_aside aside_ovnTry) fun _ _ => Within.bind (sends_ensureFinalizer _ _) fun n hn =>
    Within.bind (Program.within_collect fun nic hmem => (?_ : Only (Sends (VmSends vm)) _)) fun _ _ => ?_
  · have hnics : getVmOvnNics n = getVmOvnNics vm := by
      unfold getVmOvnNics
      rw [hn.2.2]
    refine Within.bind (sends_connectVmNic (hnics ▸ hmem)) fun _ _ => ?_
    split
    · exact Within.bind (sends_getByName .select _ _) fun _ _ => trivial
    · trivial
  · dsimp only
    split
    · exact sends_of_aside (aside_setStatus _ _ _)
    · trivial

theorem sends_updateVolume (volume : Volume) : Only (Sends P) (Volumes.updateVolume volume) := by
  unfold Volumes.updateVolume
  dsimp only
  split
  · trivial
  · refine Within.bind (sends_ensureFinalizer _ _) fun _ _ => Within.bind (sends_of_apart apart_cephConnect)
      fun _ _ => Within.bind (only_cephCall trivial) fun _ _ => Within.bind (only_cephCall trivial)
      fun _ _ => Within.bind (sends_of_apart (apart_getImages _)) fun _ _ =>
      Within.bind (only_onlyIf ?_) fun _ _ => sends_of_apart (apart_closing _ _ _)
    unfold Volumes.makeImage
    split
    · exact Within.bind (silent_cStringNew _ _).within fun _ _ => Within.bind (silent_cStringNew _ _).within
        fun _ _ => Within.bind (sends_of_apart (apart_getFeatures _ _ _)) fun _ _ => only_cephCall trivial
    · exact Within.bind (silent_cStringNew _ _).within fun _ _ => only_cephCall trivial

omit [Crates] in
theorem sends_removeVolume (volume : Volume) : Only (Sends P) (Volumes.removeVolume volume) :=
  Within.bind (sends_of_apart (apart_removal _ _)) fun _ _ =>
    sends_ignored (sends_of_aside (aside_removeFinalizer _ _))

omit [Crates] in
theorem sends_removeVm (vm : VirtualMachine) : Only (Sends (VmSends vm)) (removeVm vm) := by
  have hselect : ∀ T columns, VmSends vm (.select T columns) := .select
  refine Within.bind (sends_of_aside aside_ovnTry) fun _ _ => Within.bind (Program.within_forEach fun nic _ => ?_)
    fun _ _ => Within.bind (sends_of_aside (aside_removeFinalizer _ _)) fun _ _ => trivial
  refine Within.bind (silent_expect _ _).within fun _ _ => Within.bind (silent_expect _ _).within fun _ _ =>
    Within.bind (sends_getByName hselect _ _).attempt fun a _ => ?_
  split
  · exact Within.bind (sends_getByName hselect _ _) fun ls _ => Within.bind (sends_getByName hselect _ _) fun _ _ =>
      Within.bind (sends_one (.detach _ _)) fun _ _ => trivial
  · trivial

/-- A reconcile sends no other operations than those of its version. -/
theorem sends_reconcile (w : Worker) (v : Object w.kind) : Only (Sends (w.Sends v)) (w.reconcile v) := by
  have hboth : ∀ {p q : Prog Unit} {b : Bool}, Only (Sends (w.Sends v)) p → Only (Sends (w.Sends v)) q →
      Only (Sends (w.Sends v)) (if b then p else q) := by
    intro p q b hp hq
    cases b
    · exact hq
    · exact hp
  cases w with
  | vm k => exact hboth trivial (sends_of_apart (apart_createVm v))
  | vmOvn k => exact hboth (sends_removeVm v) (sends_updateVm v)
  | node name => exact hboth trivial (sends_of_apart (apart_updateNode v))
  | network k => exact hboth (sends_removeNetwork v .select .delete) (sends_updateNetwork v)
  | router k => exact hboth (sends_removeRouter v) (sends_updateRouter v)
  | volume k => exact hboth (sends_removeVolume v) (sends_updateVolume v)
  | image k => exact hboth (sends_of_apart (apart_removeImage v)) (sends_of_apart (apart_updateImage v))
  | host h k => exact sends_of_apart (Host.apart_reconcile h v)

end Controllers

end ClusterController
