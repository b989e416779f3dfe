import ClusterController.Contracts
import ClusterController.Writes
import ClusterController.Calls

/-!
# Where the rows of OVN come from

Every switch, router, port, static route and set of DHCP options in the northbound database has been
asked for by some version of an object, with the content that this version gives it (`Sourced`), in every
interleaving.
-/

namespace ClusterController

open ApiServer (Key Resource)
open Interaction (Program Terms Regime Contract)
open Interaction.Program (Within)
open Interaction.Contract (wp_mono wp_bind wp_attempt wp_of_within_from)
open Ovsdb (Columns Consistent Database Datum Mutation Operation Ref Row)

/-! ## Rows and versions -/

/-- A version asks for a link of a router and a switch at an address. -/
inductive Links (s : World) : String → String → String → Prop
  | network {v : Network} {attachment : RouterAttachment} {router : String × String} :
      v ∈ (s.kube .network).history → attachment ∈ v.spec.routers.getD [] →
      attachedRouter v.metadata.ns attachment.name = .ok router →
      Links s (router.1 ++ "-" ++ router.2) (namePrefixedWithNamespace v.key) attachment.address
  | mds {v : Router} : v ∈ (s.kube .router).history → v.spec.metadataService = some true →
      Links s (namePrefixedWithNamespace v.key) ("mds-" ++ namePrefixedWithNamespace v.key)
        "169.254.169.253/30"

/-- The options are none yet, or those of a version of a network with the CIDR. -/
inductive Offers [Crates] (s : World) (cidr : String) (r : Row) : Prop
  | none : r.get "options" = some (.map []) → Offers s cidr r
  | network {v : Network} {dhcp : DhcpOptionsCrd} {hosts : List String} {serverId : String} :
      v ∈ (s.kube .network).history → v.spec.dhcp = some dhcp → dhcp.cidr = cidr →
      Crates.netHosts cidr = some hosts → hosts.head? = some serverId →
      r.get "options" = some (.map (DhcpOptions.options serverId dhcp)) → Offers s cidr r

/-- The row of a table is as a version asks for it. -/
inductive Sourced [Crates] (s : World) : String → Row → Prop
  | switch {v : Network} {r : Row} : v ∈ (s.kube .network).history →
      r.get "name" = some (.strings [namePrefixedWithNamespace v.key]) → Sourced s typeLogicalSwitch r
  | mdsSwitch {v : Router} {r : Row} : v ∈ (s.kube .router).history → v.spec.metadataService = some true →
      r.get "name" = some (.strings ["mds-" ++ namePrefixedWithNamespace v.key]) →
      Sourced s typeLogicalSwitch r
  | router {v : Router} {r : Row} : v ∈ (s.kube .router).history →
      r.get "name" = some (.strings [namePrefixedWithNamespace v.key]) → Sourced s typeLogicalRouter r
  | route {v : Router} {route : Route} {r : Row} : v ∈ (s.kube .router).history →
      route ∈ v.spec.routes.getD [] → r.get "ip_prefix" = some (.strings [route.cidr]) →
      r.get "nexthop" = some (.strings [route.nexthop]) → Sourced s typeLogicalRouterStaticRoute r
  | routerPort {router switch address : String} {r : Row} : Links s router switch address →
      r.get "name" = some (.strings ["lr_" ++ router ++ "_ls_" ++ switch]) →
      r.get "mac" = some (.strings ["02:00:00:00:00:01"]) →
      r.get "networks" = some (.strings [address]) → Sourced s typeLogicalRouterPort r
  | linkPort {router switch address : String} {r : Row} : Links s router switch address →
      r.get "name" = some (.strings ["ls_" ++ switch ++ "_lr_" ++ router]) →
      Sourced s typeLogicalSwitchPort r
  | mdsPort {v : Router} {r : Row} : v ∈ (s.kube .router).history → v.spec.metadataService = some true →
      r.get "name" = some (.strings ["mds-" ++ namePrefixedWithNamespace v.key]) →
      Sourced s typeLogicalSwitchPort r
  | vmPort {v : VirtualMachine} {nic : NetworkAttachment} {id : String} {r : Row} : v ∈ s.vms.history →
      nic ∈ getVmOvnNics v → nic.ovnId = some id → r.get "name" = some (.strings [id]) →
      Sourced s typeLogicalSwitchPort r
  | dhcp {v : Network} {dhcp : DhcpOptionsCrd} {r : Row} : v ∈ (s.kube .network).history →
      v.spec.dhcp = some dhcp → r.get "cidr" = some (.strings [dhcp.cidr]) → Offers s dhcp.cidr r →
      Sourced s typeDhcpOptions r

section Rows

variable [Crates] {s t : World} {T router switch address : String} {r r' : Row}

omit [Crates] in
theorem Links.mono (hg : s.Grows t) (h : Links s router switch address) : Links t router switch address := by
  cases h with
  | network hv hmem hrouter => exact .network (hg _ _ hv) hmem hrouter
  | mds hv hm => exact .mds (hg _ _ hv) hm

theorem Sourced.mono (hg : s.Grows t) (h : Sourced s T r) : Sourced t T r := by
  cases h with
  | switch hv hname => exact .switch (hg _ _ hv) hname
  | mdsSwitch hv hm hname => exact .mdsSwitch (hg _ _ hv) hm hname
  | router hv hname => exact .router (hg _ _ hv) hname
  | route hv hmem hprefix hnexthop => exact .route (hg _ _ hv) hmem hprefix hnexthop
  | routerPort hl hname hmac hnetworks => exact .routerPort (hl.mono hg) hname hmac hnetworks
  | linkPort hl hname => exact .linkPort (hl.mono hg) hname
  | mdsPort hv hm hname => exact .mdsPort (hg _ _ hv) hm hname
  | vmPort hv hnic hid hname => exact .vmPort (hg _ _ hv) hnic hid hname
  | dhcp hv hd hcidr ho =>
    refine .dhcp (hg _ _ hv) hd hcidr ?_
    cases ho with
    | none hopt => exact .none hopt
    | network hv' hd' hc hhosts hhead hopt => exact .network (hg _ _ hv') hd' hc hhosts hhead hopt

/-- The columns that tell where a row comes from. -/
def sourceColumns (T : String) : List String :=
  ["name", "mac", "networks", "ip_prefix", "nexthop", "cidr"] ++ if T = typeDhcpOptions then ["options"] else []

theorem Sourced.congr (h : Sourced s T r) (hget : ∀ c ∈ sourceColumns T, r'.get c = r.get c) :
    Sourced s T r' := by
  have hbase : ∀ c ∈ ["name", "mac", "networks", "ip_prefix", "nexthop", "cidr"], r'.get c = r.get c :=
    fun c hc => hget c (List.mem_append_left _ hc)
  have hname : r'.get "name" = r.get "name" := hbase _ (by simp)
  cases h with
  | switch hv h => exact .switch hv (hname.trans h)
  | mdsSwitch hv hm h => exact .mdsSwitch hv hm (hname.trans h)
  | router hv h => exact .router hv (hname.trans h)
  | route hv hmem hprefix hnexthop =>
    exact .route hv hmem ((hbase _ (by simp)).trans hprefix) ((hbase _ (by simp)).trans hnexthop)
  | routerPort hl h hmac hnetworks =>
    exact .routerPort hl (hname.trans h) ((hbase _ (by simp)).trans hmac)
      ((hbase _ (by simp)).trans hnetworks)
  | linkPort hl h => exact .linkPort hl (hname.trans h)
  | mdsPort hv hm h => exact .mdsPort hv hm (hname.trans h)
  | vmPort hv hnic hid h => exact .vmPort hv hnic hid (hname.trans h)
  | dhcp hv hd hcidr ho =>
    have hopt : r'.get "options" = r.get "options" := hget _ (by simp [sourceColumns])
    refine .dhcp hv hd ((hbase _ (by simp)).trans hcidr) ?_
    cases ho with
    | none h => exact .none (hopt.trans h)
    | network hv' hd' hc hhosts hhead h => exact .network hv' hd' hc hhosts hhead (hopt.trans h)

/-- Weak references are in no such column. -/
theorem blind_sourced (T : String) : northbound.Blind T (Sourced s T) := by
  intro db r h
  refine h.congr fun c hc => Ovsdb.get_forgetRow fun ref href hweak hT => ?_
  have hcases : ref = ⟨typeLogicalSwitchPort, "dhcpv4_options", typeDhcpOptions, false⟩ := by
    simp only [northbound, List.mem_cons, List.not_mem_nil, or_false] at href
    rcases href with rfl | rfl | rfl | rfl
    · cases hweak
    · cases hweak
    · cases hweak
    · rfl
  subst hcases
  rintro rfl
  cases hT
  revert hc
  decide

end Rows

/-! ## Operations of versions -/

/-- The operation is not about the content of DHCP options that are there. -/
def Operation.Tame : Operation → Prop
  | .update T _ _ => T ≠ typeDhcpOptions
  | _ => True

section Operations

variable [Crates] {s : World} {T router switch address : String} {operation : Operation}

theorem keeps_update {T' u : String} {row : Columns Ref} (h : ∀ e ∈ row, e.1 ∉ sourceColumns T') :
    (Operation.update T' u row).Keeps northbound T (Sourced s T) := by
  rintro rfl find columns r hcols - hr
  refine hr.congr fun c hc => Ovsdb.Row.get_write_of_not_mem fun e he hec => ?_
  obtain ⟨e₀, he₀, hre⟩ := Ovsdb.mapM_mem hcols he
  obtain ⟨d, -, rfl⟩ := Option.map_eq_some_iff.mp hre
  exact h e₀ he₀ (hec ▸ hc)

theorem keeps_mutate {T' u : String} {ms : List Mutation} (h : ∀ m ∈ ms, m.column ∉ sourceColumns T') :
    (Operation.mutate T' u ms).Keeps northbound T (Sourced s T) := by
  rintro rfl find r r' hm hr
  exact hr.congr fun c hc => (Ovsdb.get_mutations hm).2 c fun m hmem hmc => h m hmem (hmc ▸ hc)

/-- A new row has its name. -/
theorem keeps_insertNamed {T' text : String} {n : Option String}
    (hc : ("name", .strings [""]) ∈ northboundColumns T')
    (h : ∀ r : Row, r.get "name" = some (.strings [text]) → Sourced s T' r) :
    (Operation.insert T' [("name", .strings [text])] n).Keeps northbound T (Sourced s T) := by
  rintro rfl find columns u - hcols
  cases hcols
  refine h _ (get_write_self ?_ nofun)
  exact (congrArg Option.isSome (get_default hc)).trans rfl

theorem Sourced.routerPort_name {r : Row} (h : Sourced s T r) (hT : T = typeLogicalRouterPort) :
    ∃ text mac l, r.get "name" = some (.strings text) ∧ r.get "mac" = some (.strings mac) ∧
      r.get "networks" = some (.strings l) := by
  cases h with
  | routerPort _ hname hmac hnetworks => exact ⟨_, _, _, hname, hmac, hnetworks⟩
  | _ => exact absurd hT (by decide)

theorem LinkSends.keeps (hl : Links s router switch address) (h : LinkSends router switch address operation) :
    operation.Keeps northbound T (Sourced s T) := by
  have hwrite : ∀ (r : Row) find columns, Operation.resolveColumns find
      [("name", .strings ["lr_" ++ router ++ "_ls_" ++ switch]), ("mac", .strings ["02:00:00:00:00:01"]),
        ("networks", .strings [address])] = some columns →
      (r.get "name").isSome → (r.get "mac").isSome → (r.get "networks").isSome →
      Sourced s typeLogicalRouterPort (r.write columns) := by
    intro r find columns hcols hname hmac hnetworks
    cases hcols
    have hn : ["name", "mac", "networks"].Nodup := by decide
    exact .routerPort hl (Row.get_write_of_mem hn (by simp) hname)
      (Row.get_write_of_mem hn (by simp) hmac) (Row.get_write_of_mem hn (by simp) hnetworks)
  cases h with
  | routerPort =>
    rintro rfl find columns u - hcols
    refine hwrite _ find columns hcols ?_ ?_ ?_ <;> rfl
  | routerPorts u => exact keeps_mutate (by decide)
  | update u =>
    rintro rfl find columns r hcols - hr
    obtain ⟨text, mac, l, hname, hmac, hnetworks⟩ := hr.routerPort_name rfl
    exact hwrite r find columns hcols (by rw [hname]; rfl) (by rw [hmac]; rfl) (by rw [hnetworks]; rfl)
  | switchPort =>
    rintro rfl find columns u - hcols
    cases hcols
    have hn : ["type", "addresses", "options", "name"].Nodup := by decide
    exact .linkPort hl (Row.get_write_of_mem hn (by simp) rfl)
  | switchPorts u => exact keeps_mutate (by decide)

theorem NetworkSends.keeps {v : Network} (hv : v ∈ (s.kube .network).history) (h : NetworkSends v operation)
    (ht : Operation.Tame operation) : operation.Keeps northbound T (Sourced s T) := by
  cases h with
  | select T columns => trivial
  | switch =>
    exact keeps_insertNamed (by decide) fun _ => .switch hv
  | delete u => trivial
  | dhcp hd =>
    rintro rfl find columns u - hcols
    cases hcols
    exact .dhcp hv hd (get_write_self rfl nofun) (.none rfl)
  | options u => exact absurd rfl ht
  | subnet u hd => exact keeps_update (by simp [sourceColumns])
  | link hmem hrouter hlink => exact hlink.keeps (.network hv hmem hrouter)

theorem RouterSends.keeps {v : Router} (hv : v ∈ (s.kube .router).history) (h : RouterSends v operation) :
    operation.Keeps northbound T (Sourced s T) := by
  cases h with
  | select T columns => trivial
  | router =>
    exact keeps_insertNamed (by decide) fun _ => .router hv
  | delete u => trivial
  | route id hmem =>
    rintro rfl find columns u - hcols
    cases hcols
    have hn : ["ip_prefix", "nexthop"].Nodup := by decide
    exact .route hv hmem (Row.get_write_of_mem hn (by simp) rfl) (Row.get_write_of_mem hn (by simp) rfl)
  | routes u added dropped => exact keeps_mutate (by simp [sourceColumns, typeLogicalRouter, typeDhcpOptions])
  | mdsSwitch hm =>
    exact keeps_insertNamed (by decide) fun _ => .mdsSwitch hv hm
  | mdsLink hm hlink => exact hlink.keeps (.mds hv hm)
  | mdsPort hm =>
    exact keeps_insertNamed (by decide) fun _ => .mdsPort hv hm
  | mdsPorts u => exact keeps_mutate (by decide)
  | mdsAddress u => exact keeps_update (by simp [sourceColumns, typeLogicalSwitchPort, typeDhcpOptions])

theorem VmSends.keeps {v : VirtualMachine} (hv : v ∈ s.vms.history) (h : VmSends v operation) :
    operation.Keeps northbound T (Sourced s T) := by
  cases h with
  | select T columns => trivial
  | port hnic hid =>
    exact keeps_insertNamed (by decide) fun _ => .vmPort hv hnic hid
  | ports u => exact keeps_mutate (by decide)
  | address u hnic hmac => exact keeps_update (by simp [sourceColumns, typeLogicalSwitchPort, typeDhcpOptions])
  | dhcp u options => exact keeps_update (by simp [sourceColumns, typeLogicalSwitchPort, typeDhcpOptions])
  | detach u port => exact keeps_mutate (by simp [sourceColumns, typeLogicalSwitch, typeDhcpOptions])

omit [Crates] in
theorem fits_insert {T c : String} {d : Datum String} {e : Datum Ref} {n : Option String}
    (hst : northbound.Stores T) (hd : (c, d) ∈ northboundColumns T) (hl : d.Like e) :
    (Operation.insert T [(c, e)] n).Fits northbound := ⟨hst, fit_one e hd hl⟩

omit [Crates] in
theorem fits_update {T u c : String} {d : Datum String} {e : Datum Ref}
    (hd : (c, d) ∈ northboundColumns T) (hl : d.Like e) :
    (Operation.update T u [(c, e)]).Fits northbound := fit_one e hd hl

omit [Crates] in
theorem LinkSends.fits (h : LinkSends router switch address operation) : operation.Fits northbound := by
  cases h with
  | routerPort => exact ⟨⟨_, .tail _ (.head _), .inr rfl⟩, fit_routerPort _ _⟩
  | routerPorts u => exact fits_mutatePorts (.inr rfl)
  | update u => exact fit_routerPort _ _
  | switchPort => exact ⟨⟨_, .head _, .inr rfl⟩, fit_linkPort _ _⟩
  | switchPorts u => exact fits_mutatePorts (.inl rfl)

omit [Crates] in
theorem LinkSends.retains (h : LinkSends router switch address operation) :
    operation.Retains typeDhcpOptions "cidr" := by
  cases h with
  | routerPort => trivial
  | routerPorts u => exact fun h => absurd h (by decide)
  | update u => exact fun h => absurd h (by decide)
  | switchPort => trivial
  | switchPorts u => exact fun h => absurd h (by decide)

theorem NetworkSends.fits {v : Network} (h : NetworkSends v operation) : operation.Fits northbound := by
  cases h with
  | select T columns => trivial
  | switch => exact fits_insert (d := .strings [""]) ⟨_, .head _, .inl rfl⟩ (by decide) fun _ => rfl
  | delete u => trivial
  | dhcp hd =>
    exact fits_insert (d := .strings [""]) ⟨_, .tail _ (.tail _ (.tail _ (.head _))), .inr rfl⟩ (by decide)
      fun _ => rfl
  | options u => exact fits_update (d := .map []) (by decide) trivial
  | subnet u => exact fits_update (d := .map []) (by decide) trivial
  | link _ _ hlink => exact hlink.fits

theorem NetworkSends.retains {v : Network} (h : NetworkSends v operation) :
    operation.Retains typeDhcpOptions "cidr" := by
  cases h with
  | select T columns => trivial
  | switch => trivial
  | delete u => exact fun h => absurd h (by decide)
  | dhcp hd => trivial
  | options u =>
    intro _ e he
    rw [List.mem_singleton.mp he]
    show "options" ≠ "cidr"
    decide
  | subnet u => exact fun h => absurd h (by decide)
  | link _ _ hlink => exact hlink.retains

omit [Crates] in
theorem RouterSends.fits {v : Router} (h : RouterSends v operation) : operation.Fits northbound := by
  cases h with
  | select T columns => trivial
  | router =>
    exact fits_insert (d := .strings [""]) ⟨_, .tail _ (.head _), .inl rfl⟩ (by decide) fun _ => rfl
  | delete u => trivial
  | route id hmem =>
    have hone : ∀ {c : String} (text : String),
        (c, .strings [""]) ∈ northboundColumns typeLogicalRouterStaticRoute →
        Ovsdb.FitColumns (northboundColumns typeLogicalRouterStaticRoute)
          [(c, (.strings [text] : Datum Ref))] :=
      fun _ hc => fit_one _ hc fun _ => rfl
    exact ⟨⟨_, .tail _ (.tail _ (.head _)), .inr rfl⟩, .cons (hone _ (by decide)) (hone _ (by decide))⟩
  | routes u added dropped =>
    intro m hm e he hc
    have hcolumn : m.column = "static_routes" := by
      rcases List.mem_cons.mp hm with rfl | hm
      · rfl
      · rw [List.mem_singleton.mp hm]
    have h₁ := Ovsdb.lookup_of_mem (flat_northbound.nodup _) he
    rw [hc, hcolumn] at h₁
    exact ⟨[], (Option.some.inj h₁).symm⟩
  | mdsSwitch => exact fits_insert (d := .strings [""]) ⟨_, .head _, .inl rfl⟩ (by decide) fun _ => rfl
  | mdsLink _ hlink => exact hlink.fits
  | mdsPort => exact fits_insert (d := .strings [""]) ⟨_, .head _, .inr rfl⟩ (by decide) fun _ => rfl
  | mdsPorts u => exact fits_mutatePorts (.inl rfl)
  | mdsAddress u => exact fits_update (d := .strings []) (by decide) nofun

omit [Crates] in
theorem RouterSends.retains {v : Router} (h : RouterSends v operation) :
    operation.Retains typeDhcpOptions "cidr" := by
  cases h with
  | mdsLink _ hlink => exact hlink.retains
  | delete u => exact fun h => absurd h (by decide)
  | routes u added dropped => exact fun h => absurd h (by decide)
  | mdsPorts u => exact fun h => absurd h (by decide)
  | mdsAddress u => exact fun h => absurd h (by decide)
  | _ => trivial

omit [Crates] in
theorem VmSends.fits {v : VirtualMachine} (h : VmSends v operation) : operation.Fits northbound := by
  cases h with
  | select T columns => trivial
  | port => exact fits_insert (d := .strings [""]) ⟨_, .head _, .inr rfl⟩ (by decide) fun _ => rfl
  | ports u => exact fits_mutatePorts (.inl rfl)
  | address u => exact fits_update (d := .strings []) (by decide) nofun
  | dhcp u options => exact fits_update (d := .refs []) (by decide) trivial
  | detach u port => exact fits_mutatePorts (.inl rfl)

omit [Crates] in
theorem VmSends.retains {v : VirtualMachine} (h : VmSends v operation) :
    operation.Retains typeDhcpOptions "cidr" := by
  cases h with
  | select T columns => trivial
  | port => trivial
  | ports u => exact fun h => absurd h (by decide)
  | address u => exact fun h => absurd h (by decide)
  | dhcp u options => exact fun h => absurd h (by decide)
  | detach u port => exact fun h => absurd h (by decide)

variable {w : Worker} {v : Object w.kind}

theorem Worker.Sends.fits (h : w.Sends v operation) : operation.Fits northbound := by
  cases w with
  | network k => exact NetworkSends.fits h
  | router k => exact RouterSends.fits h
  | vmOvn k => exact VmSends.fits h
  | _ => exact h.elim

theorem Worker.Sends.retains (h : w.Sends v operation) : operation.Retains typeDhcpOptions "cidr" := by
  cases w with
  | network k => exact NetworkSends.retains h
  | router k => exact RouterSends.retains h
  | vmOvn k => exact VmSends.retains h
  | _ => exact h.elim

theorem Worker.Sends.keeps (hv : v ∈ (s.kube w.kind).history) (h : w.Sends v operation)
    (ht : Operation.Tame operation) : operation.Keeps northbound T (Sourced s T) := by
  cases w with
  | network k => exact NetworkSends.keeps hv h ht
  | router k => exact RouterSends.keeps hv h
  | vmOvn k => exact VmSends.keeps hv h
  | _ => exact h.elim

end Operations

/-! ## The terms -/

/-- The database is consistent, and every row comes from a version. -/
structure Traced [Crates] (s : World) : Prop where
  consistent : Consistent northbound s.northbound
  sourced : ∀ T, ∀ r ∈ s.northbound T, Sourced s T r

/-- The DHCP options stay, each with its CIDR. -/
abbrev DhcpStays (s t : World) : Prop := Ovsdb.Retained typeDhcpOptions "cidr" s.northbound t.northbound

/-- What others do between two requests of a worker. -/
structure Traces [Crates] (s t : World) : Prop where
  traced : Traced s → Traced t
  grows : s.Grows t
  stays : DhcpStays s t

/-- The request is one of those of a version of the object of the worker. -/
def Asked [Crates] (w : Worker) (s : World) (r : Request) : Prop :=
  ∃ v ∈ (s.kube w.kind).history, v.key = w.key ∧ Sends (w.Sends v) r

section Terms

variable [Crates] {w : Worker} {s t u : World}

theorem Traces.refl (s : World) : Traces s s := ⟨fun h => h, .refl s, .refl _⟩

theorem Traces.trans (h : Traces s t) (h' : Traces t u) : Traces s u :=
  ⟨fun hs => h'.traced (h.traced hs), h.grows.trans h'.grows, h.stays.trans h'.stays⟩

theorem Traced.of_eq (hs : Traced s) (hg : s.Grows t) (h : t.northbound = s.northbound) : Traced t := by
  refine ⟨h ▸ hs.consistent, fun T r hr => ?_⟩
  rw [h] at hr
  exact (hs.sourced T r hr).mono hg

theorem Traces.of_eq (hg : s.Grows t) (h : t.northbound = s.northbound) : Traces s t :=
  ⟨fun hs => hs.of_eq hg h, hg, .of_eq (congrFun h _)⟩

/-- The terms of all workers. -/
def traceTerms : Terms Worker Request World where
  inv := Traced
  rely _ := Traces
  guar w s r t := Asked w s r ∧ Traced t ∧ DhcpStays s t

/-- The contract of a worker under these terms. -/
abbrev tracing (w : Worker) : Contract Request Request.Answer World :=
  traceTerms.contract cluster anything w

/-! ### Requests -/

variable {v : Object w.kind} {operations : List Operation} {db : Database} {fresh : List String}
  {answers : List Ovsdb.Json}

theorem traced_transact (hs : Traced s) (hops : ∀ operation ∈ operations, w.Sends v operation)
    (h : s.northbound.transact northbound fresh operations = some (answers, db))
    (hsourced : ∀ T, ∀ r ∈ db T, Sourced s T r) :
    Traced (s.setNorthbound db) ∧ DhcpStays s (s.setNorthbound db) := by
  obtain ⟨mid, htr⟩ := Ovsdb.transacted h
  have hc : Consistent northbound db :=
    htr.consistent flat_northbound hs.consistent fun operation hmem => (hops operation hmem).fits
  have hstays : Ovsdb.Retained typeDhcpOptions "cidr" s.northbound db :=
    Ovsdb.retained_transact flat_northbound rfl (fun operation hmem => (hops operation hmem).retains) h
  exact ⟨⟨hc, fun T r hr => Sourced.mono (s := s) (.of_eq rfl) (hsourced T r hr)⟩, hstays⟩

/-- A request of a version, but for the content of DHCP options. -/
theorem traced_answer {r : Request} {a : r.Answer} {x : Choice} (hs : Traced s)
    (hv : v ∈ (s.kube w.kind).history)
    (hr : Sends (fun operation => w.Sends v operation ∧ Operation.Tame operation) r)
    (h : World.answer w s r x = some (a, t)) : Traced t ∧ DhcpStays s t := by
  cases r with
  | transact operations =>
    have hd : x.deliver none s (s.serveTransact x operations) = (a, t) := Option.some.inj h
    rcases Choice.deliver_state hd with rfl | rfl
    · exact ⟨hs, .refl _⟩
    · unfold World.serveTransact
      cases hn : s.northbound.transact northbound x.fresh operations with
      | none => exact ⟨hs, .refl _⟩
      | some p =>
        refine traced_transact hs (fun operation hmem => (hr operation hmem).1) hn fun T r₁ hr₁ => ?_
        exact Ovsdb.all_transact (blind_sourced T)
          (fun operation hmem => (hr operation hmem).1.keeps hv (hr operation hmem).2) (hs.sourced T) hn r₁ hr₁
  | _ =>
    have hdb : t.northbound = s.northbound := (World.answer_frame h).northbound nofun
    have htraces : Traces s t := .of_eq (World.answer_grows h) hdb
    exact ⟨htraces.traced hs, htraces.stays⟩

section Programs

variable {α : Type} {p : Prog α} {done : α → Prop}

/-- A program that does not write the content of DHCP options. -/
theorem wp_tame (h : p.Within (Sends fun operation => w.Sends v operation ∧ Operation.Tame operation) done)
    (hv : v ∈ (s.kube w.kind).history) (hkey : v.key = w.key) :
    (tracing w).wp p (fun x t => Traces s t ∧ ∀ a, x = .ok a → done a) s := by
  refine wp_of_within_from (K := Traces) (I := fun s => v ∈ (s.kube w.kind).history) .refl (fun _ _ _ => .trans)
    (fun _ _ h => h) (fun _ _ h hv => h.grows _ _ hv) (fun s r a t hr hs hv hexec => ?_) h hv
  obtain ⟨x, -, hans⟩ := hexec
  obtain ⟨ht, hstays⟩ := traced_answer hs hv hr hans
  have hasked : Asked w s r := by
    refine ⟨v, hv, hkey, ?_⟩
    cases r with
    | transact operations => exact fun operation hmem => (hr operation hmem).1
    | _ => trivial
  exact ⟨⟨hasked, ht, hstays⟩, fun _ => ht, World.answer_grows hans, hstays⟩

theorem wp_only {p : Prog α}
    (h : Only (Sends fun operation => w.Sends v operation ∧ Operation.Tame operation) p)
    (hv : v ∈ (s.kube w.kind).history) (hkey : v.key = w.key) :
    (tracing w).wp p (fun _ t => Traces s t) s :=
  wp_mono (wp_tame h hv hkey) fun _ _ hx => hx.1

/-- A part of a program that does not write the content of DHCP options. -/
theorem wp_next {β : Type} {f : α → Prog β}
    (h : p.Within (Sends fun operation => w.Sends v operation ∧ Operation.Tame operation) done)
    (hv : v ∈ (s.kube w.kind).history) (hkey : v.key = w.key)
    (hf : ∀ a t, done a → Traces s t → (tracing w).wp (f a) (fun _ _ => True) t) :
    (tracing w).wp (p >>= f) (fun _ _ => True) s := by
  refine wp_bind (wp_mono (wp_tame h hv hkey) fun x t hx => ?_)
  cases x with
  | ok a => exact hf a t (hx.2 a rfl) hx.1
  | error e => trivial

end Programs

/-! ### DHCP options -/

/-- The row of the uuid is one of DHCP options with the CIDR. -/
def HasCidr (u cidr : String) (s : World) : Prop :=
  ∃ r ∈ s.northbound typeDhcpOptions, r.uuid = u ∧ r.get "cidr" = some (.strings [cidr])

omit [Crates] in
theorem HasCidr.stays {cidr o : String} (h : HasCidr o cidr s) (hd : DhcpStays s t) : HasCidr o cidr t := by
  obtain ⟨r, hr, hu, hc⟩ := h
  obtain ⟨r', hr', hu', hc'⟩ := hd r hr
  exact ⟨r', hr', hu'.trans hu, hc'.trans hc⟩

/-- The uuid stands for no other row. -/
theorem HasCidr.get {o cidr : String} (hs : Traced s) (h : HasCidr o cidr s) {r : Row}
    (hr : r ∈ s.northbound typeDhcpOptions) (hu : r.uuid = o) : r.get "cidr" = some (.strings [cidr]) := by
  obtain ⟨r', hr', hu', hc⟩ := h
  obtain rfl := List.inj_on_of_nodup_map (hs.consistent.conforms.unique typeDhcpOptions) hr hr' (hu.trans hu'.symm)
  exact hc

omit [Crates] in
theorem blind_cidr (o cidr : String) : northbound.Blind T fun r =>
    T = typeDhcpOptions → r.uuid = o → r.get "cidr" = some (.strings [cidr]) := by
  have hfirm : northbound.Firm typeDhcpOptions "cidr" := by
    unfold Ovsdb.Schema.Firm
    decide
  rintro db r h rfl hu
  rw [Ovsdb.uuid_forgetRow] at hu
  rw [Ovsdb.get_forgetRow hfirm]
  exact h rfl hu

theorem Sourced.dhcp_inv {r : Row} (h : Sourced s T r) (hT : T = typeDhcpOptions) :
    ∃ (v : Network) (dhcp : DhcpOptionsCrd), v ∈ (s.kube .network).history ∧ v.spec.dhcp = some dhcp ∧
      r.get "cidr" = some (.strings [dhcp.cidr]) ∧ Offers s dhcp.cidr r := by
  cases h with
  | dhcp hv hd hcidr ho => exact ⟨_, _, hv, hd, hcidr, ho⟩
  | _ => exact absurd hT (by decide)

/-- The content of the DHCP options of a version. -/
theorem keeps_options {network : Network} {dhcp : DhcpOptionsCrd} {o serverId : String} {hosts : List String}
    (hv : network ∈ (s.kube .network).history) (hd : network.spec.dhcp = some dhcp)
    (hhosts : Crates.netHosts dhcp.cidr = some hosts) (hhead : hosts.head? = some serverId) :
    (Operation.update typeDhcpOptions o [("options", .map (DhcpOptions.options serverId dhcp))]).Keeps
      northbound T fun r => Sourced s T r ∧ (T = typeDhcpOptions → r.uuid = o →
        r.get "cidr" = some (.strings [dhcp.cidr])) := by
  rintro rfl find columns r hcols hu ⟨hr, hknown⟩
  cases hcols
  have hcidr : (r.write [("options", .map (DhcpOptions.options serverId dhcp))]).get "cidr" =
      some (.strings [dhcp.cidr]) := by
    rw [Row.get_write_of_not_mem (by simp)]
    exact hknown rfl hu
  refine ⟨?_, fun _ _ => hcidr⟩
  obtain ⟨v, dhcp', hv', hd', -, ho⟩ := hr.dhcp_inv rfl
  have hsome : (r.get "options").isSome := by
    cases ho with
    | none h => rw [h]; rfl
    | network _ _ _ _ _ h => rw [h]; rfl
  exact .dhcp hv hd hcidr (.network hv hd rfl hhosts hhead (get_write_self hsome nofun))

theorem wp_getByCidr (hv : v ∈ (s.kube w.kind).history) (hkey : v.key = w.key)
    (hselect : ∀ T columns, w.Sends v (.select T columns)) (cidr : String) :
    (tracing w).wp (DhcpOptions.getByCidr cidr)
      (fun x t => Traces s t ∧ ∀ o, x = .ok o → HasCidr o.uuid cidr t ∧ o.cidr = cidr) s := by
  unfold DhcpOptions.getByCidr
  refine wp_bind (contract_list DhcpOptions (fun _ h => h.consistent) (fun s₁ hr hs => ?_) fun t ht hs => ?_)
  · refine ⟨⟨v, hr.grows _ _ hv, hkey, fun operation hmem => ?_⟩, hs, .refl _⟩
    rw [List.mem_singleton.mp hmem]
    exact hselect _ _
  · dsimp only
    cases hfind : (rowsOf DhcpOptions t.northbound).find? fun o => o.cidr = cidr with
    | none => exact ⟨ht, fun _ ho => nomatch ho⟩
    | some o =>
      refine ⟨ht, fun o' ho' => ?_⟩
      cases ho'
      obtain ⟨r, hr, rfl⟩ := List.mem_map.mp (List.mem_of_find?_eq_some hfind)
      have hfound := List.find?_some hfind
      have hcidr : rowText r "cidr" = cidr := of_decide_eq_true hfound
      refine ⟨⟨r, hr, rfl, ?_⟩, hcidr⟩
      rw [← hcidr]
      exact get_of_text (hs.consistent.conforms.typed _ r hr) (by decide)

/-- The content of DHCP options is written into a row with their CIDR. -/
theorem wp_setOptions {network : Network} {dhcp : DhcpOptionsCrd} {o : DhcpOptions} {k : Key}
    (hv : network ∈ (s.kube .network).history) (hkey : network.key = k) (hd : network.spec.dhcp = some dhcp)
    (ho : HasCidr o.uuid dhcp.cidr s) (hcidr : o.cidr = dhcp.cidr) :
    (tracing (.network k)).wp (o.setOptions dhcp) (fun _ t => Traces s t) s := by
  unfold DhcpOptions.setOptions
  rw [hcidr]
  cases hhosts : Crates.netHosts dhcp.cidr with
  | none => exact .refl s
  | some hosts =>
    dsimp only
    cases hhead : hosts.head? with
    | none => trivial
    | some serverId =>
      have hsends : ∀ operation ∈ [Operation.update typeDhcpOptions o.uuid
          [("options", .map (DhcpOptions.options serverId dhcp))]], NetworkSends network operation := by
        intro operation hmem
        rw [List.mem_singleton.mp hmem]
        exact .options _ hd hhosts hhead
      change (tracing (.network k)).wp (transact _ >>= fun _ => pure ()) _ s
      refine wp_bind (contract_transact (fun s₁ hr hs => ?_) fun s₁ fresh answers db hr hs htr => ?_)
      · exact ⟨⟨network, hr.grows _ _ hv, hkey, hsends⟩, hs, .refl _⟩
      · have hknown : HasCidr o.uuid dhcp.cidr s₁ := ho.stays hr.stays
        have hall : ∀ T, ∀ r ∈ db T, Sourced s₁ T r := by
          intro T r hmem
          refine (Ovsdb.all_transact ((blind_sourced T).and (blind_cidr o.uuid dhcp.cidr)) ?_ ?_ htr r hmem).1
          · intro operation hop
            rw [List.mem_singleton.mp hop]
            exact keeps_options (hr.grows _ _ hv) hd hhosts hhead
          · exact fun r hr => ⟨hs.sourced T r hr, fun hT hu => hknown.get hs (hT ▸ hr) hu⟩
        obtain ⟨ht, hstays⟩ := traced_transact (w := .network k) (v := network) hs hsends htr hall
        exact ⟨⟨⟨network, hr.grows _ _ hv, hkey, hsends⟩, ht, hstays⟩,
          hr.trans ⟨fun _ => ht, .of_eq rfl, hstays⟩⟩

/-! ### Programs -/

section Networks

variable {network : Network} {dhcp : DhcpOptionsCrd} {k : Key}

theorem wp_getOrCreate {α : Type} {get create : Prog α} {post : Except Error α → World → Prop}
    (hget : (tracing w).wp get post s) (hcreate : ∀ e t, post (.error e) t → (tracing w).wp create post t) :
    (tracing w).wp (orCreate get create) post s := by
  refine wp_bind (wp_attempt (wp_mono hget fun x t hx => ?_))
  dsimp only
  split
  · exact hx
  · exact hcreate _ t hx
  · exact hx

theorem wp_ensureDhcp (hv : network ∈ (s.kube .network).history) (hkey : network.key = k)
    (hd : network.spec.dhcp = some dhcp) (name : String) :
    (tracing (.network k)).wp (ensureDhcp name dhcp) (fun _ t => Traces s t) s := by
  have hselect : ∀ T columns, NetworkSends network (.select T columns) := .select
  have hget : ∀ t, Traces s t → (tracing (.network k)).wp (DhcpOptions.getByCidr dhcp.cidr)
      (fun x u => Traces s u ∧ ∀ o, x = .ok o → HasCidr o.uuid dhcp.cidr u ∧ o.cidr = dhcp.cidr) t := by
    intro t ht
    refine wp_mono (wp_getByCidr (w := .network k) (v := network) (ht.grows _ _ hv) hkey hselect _) fun x u hx => ?_
    exact ⟨ht.trans hx.1, hx.2⟩
  refine wp_bind (wp_mono (wp_getOrCreate (hget s (.refl s)) fun _ t ht => ?_) fun x t hx => ?_)
  · refine wp_bind (wp_mono (wp_tame (w := .network k) (v := network) (sends_one ⟨.dhcp hd, trivial⟩) (ht.1.grows _ _ hv)
      hkey) fun x u hx => ?_)
    cases x with
    | ok a => exact hget u (ht.1.trans hx.1)
    | error e => exact ⟨ht.1.trans hx.1, fun _ ho => nomatch ho⟩
  · cases x with
    | error e => exact hx.1
    | ok o =>
      obtain ⟨ho, hcidr⟩ := hx.2 o rfl
      refine wp_bind (wp_mono (wp_setOptions (hx.1.grows _ _ hv) hkey hd ho hcidr) fun x u hu => ?_)
      have ht := hx.1.trans hu
      cases x with
      | error e => exact ht
      | ok a =>
        refine wp_mono (wp_only (w := .network k) (v := network) ?_ (ht.grows _ _ hv) hkey)
          fun _ _ h => ht.trans h
        refine Within.bind (sends_getByName (fun T columns => ⟨.select T columns, trivial⟩) _ _) fun ls _ =>
          Within.bind (sends_one ⟨.subnet _ hd, ?_⟩) fun _ _ => trivial
        exact show typeLogicalSwitch ≠ typeDhcpOptions by decide

omit [Crates] in
theorem LinkSends.tame (h : LinkSends router switch address operation) : Operation.Tame operation := by
  cases h with
  | update u => exact show typeLogicalRouterPort ≠ typeDhcpOptions by decide
  | _ => trivial

theorem wp_updateNetwork (hv : network ∈ (s.kube .network).history) (hkey : network.key = k) :
    (tracing (.network k)).wp (updateNetwork network) (fun _ _ => True) s := by
  have hselect : ∀ T columns, NetworkSends network (.select T columns) ∧
      Operation.Tame (.select T columns) := fun T columns => ⟨.select T columns, trivial⟩
  unfold updateNetwork
  split
  · trivial
  · refine wp_next (w := .network k) (v := network) (sends_of_aside aside_ovnTry) hv
      hkey fun _ t₁ _ h₁ => ?_
    refine wp_next (w := .network k) (v := network) (sends_ensureFinalizer _ _) (h₁.grows _ _ hv) hkey
      fun n t₂ hn h₂ => ?_
    obtain ⟨hnkey, hspec, -⟩ := hn
    refine wp_next (w := .network k) (v := network)
      (sends_createIfMissing hselect LogicalSwitch ⟨.switch, trivial⟩) ((h₁.trans h₂).grows _ _ hv) hkey
      fun _ t₃ _ h₃ => ?_
    have hv₃ : network ∈ (t₃.kube .network).history := ((h₁.trans h₂).trans h₃).grows _ _ hv
    rw [hspec]
    refine wp_bind (wp_mono (?_ : (tracing (.network k)).wp _ (fun x t => Traces t₃ t) t₃) fun x t h => ?_)
    · cases hd : network.spec.dhcp with
      | none => exact .refl t₃
      | some dhcp => exact wp_ensureDhcp hv₃ hkey hd _
    · cases x with
      | error e => trivial
      | ok a =>
        refine wp_mono (wp_only (w := .network k) (v := network) ?_ (h.grows _ _ hv₃) hkey)
          fun _ _ _ => trivial
        refine Within.bind (?_ : Only (Sends fun operation => NetworkSends network operation ∧
          Operation.Tame operation) _) fun _ _ => sends_of_aside (aside_setStatus _ _ _)
        cases hr : network.spec.routers with
        | none => trivial
        | some routers =>
          refine Program.within_forEach fun attachment hmem => sends_ensureRouterAttachment hselect
            fun router operation hrouter hlink => ⟨?_, hlink.tame⟩
          rw [hnkey] at hlink
          rw [show n.metadata.ns = network.metadata.ns from congrArg Key.ns hnkey] at hrouter
          refine .link ?_ hrouter hlink
          rw [hr]
          exact hmem

end Networks

/-! ### Reconciles -/

omit [Crates] in
theorem RouterSends.tame {router : Router} {operation : Operation} (h : RouterSends router operation) :
    Operation.Tame operation := by
  cases h with
  | mdsLink _ hlink => exact hlink.tame
  | mdsAddress u => exact show typeLogicalSwitchPort ≠ typeDhcpOptions by decide
  | _ => trivial

omit [Crates] in
theorem VmSends.tame {vm : VirtualMachine} {operation : Operation} (h : VmSends vm operation) :
    Operation.Tame operation := by
  cases h with
  | address u => exact show typeLogicalSwitchPort ≠ typeDhcpOptions by decide
  | dhcp u options => exact show typeLogicalSwitchPort ≠ typeDhcpOptions by decide
  | _ => trivial

theorem wp_reconcile (hv : v ∈ (s.kube w.kind).history) (hkey : v.key = w.key) :
    (tracing w).wp (w.reconcile v) (fun _ _ => True) s := by
  have htame : (∀ operation, w.Sends v operation → Operation.Tame operation) →
      (tracing w).wp (w.reconcile v) (fun _ _ => True) s := by
    intro h
    refine wp_mono (wp_only (Only.mono (sends_reconcile w v) fun r hr => ?_) hv hkey) fun _ _ _ => trivial
    cases r with
    | transact operations => exact fun operation hmem => ⟨hr operation hmem, h operation (hr operation hmem)⟩
    | _ => trivial
  cases w with
  | network k =>
    have main : ∀ o : Network, o ∈ (s.kube .network).history → o.key = k → (tracing (.network k)).wp
        (if o.isDeleted then removeNetwork o else updateNetwork o) (fun _ _ => True) s := by
      intro o ho hk
      split
      · exact wp_mono (wp_only (w := .network k) (v := o)
          (sends_removeNetwork o (fun T columns => ⟨.select T columns, trivial⟩) fun u => ⟨.delete u, trivial⟩)
          ho hk) fun _ _ _ => trivial
      · exact wp_updateNetwork ho hk
    exact main v hv hkey
  | router k => exact htame fun _ => RouterSends.tame
  | vmOvn k => exact htame fun _ => VmSends.tame
  | _ => exact htame fun _ h => h.elim

/-- Nothing from outside makes a row. -/
theorem traces_happen {e : WorldEvent} (h : s.happen e = some t) : Traces s t := by
  have hg := World.grows_happen h
  rcases northbound_happen h with hdb | ⟨port, address, hdb⟩
  · exact .of_eq hg hdb
  · have hports : typeLogicalSwitchPort ≠ typeDhcpOptions := by decide
    refine ⟨fun hs => ⟨consistent_happen h hs.consistent, ?_⟩, hg, .of_eq ?_⟩
    · intro T
      rw [hdb]
      refine Ovsdb.all_modifyRow (fun r hr => (hs.sourced T r hr).mono hg) ?_
      rintro rfl r hr -
      refine ((hs.sourced _ r hr).mono hg).congr fun c hc => Row.get_modify_of_ne ?_
      rintro rfl
      revert hc
      decide
    · rw [hdb]
      exact Ovsdb.Database.modify_of_ne (Ne.symm hports)

/-- In every interleaving. -/
def traceRegime : Regime cluster anything where
  toTerms := traceTerms
  rely_refl _ := .refl
  rely_trans _ _ _ _ := .trans
  call_keeps w s r a t _ hexec hg := by
    obtain ⟨x, -, hans⟩ := hexec
    exact ⟨hg.2.1, fun _ _ => ⟨fun _ => hg.2.1, World.answer_grows hans, hg.2.2⟩⟩
  start_keeps w s i p t hs _ hl := by
    obtain ⟨v, hv, hkey, -, rfl, rfl⟩ := World.launch_some hl
    have ht : Traces s { s with seen := Function.update s.seen w i } := .of_eq (.of_eq rfl) rfl
    exact ⟨ht.traced hs, fun _ _ => ht, wp_reconcile hv hkey⟩
  stop_keeps w s hs _ := by
    have ht : Traces s (World.release w s) := by
      refine .of_eq (World.grows_release w s) ?_
      unfold World.release
      split <;> rfl
    exact ⟨ht.traced hs, fun _ _ => ht⟩
  world_keeps s e t hs _ h := ⟨(traces_happen h).traced hs, fun _ => traces_happen h⟩

theorem traced_initial : Traced World.initial := ⟨Ovsdb.consistent_empty, fun _ _ hr => nomatch hr⟩

variable {c d : ClusterConfig}

/-- Every row has been asked for by a version of an object, as it is there. -/
theorem rows_sourced (hrun : cluster.Run anything ⟨.initial, fun _ => none⟩ c) {T : String} {r : Row}
    (hr : r ∈ c.state.northbound T) : Sourced c.state T r :=
  (traceRegime.run_inv (traceRegime.holds_idle traced_initial) hrun).sourced T r hr

/-- A worker asks the database for nothing but what a version of its own object gives rise to. The
operations fit the schema, and the database is consistent afterwards. -/
theorem transactions_asked (hrun : cluster.Run anything ⟨.initial, fun _ => none⟩ c)
    {operations : List Operation} {x : Choice} (hstep : cluster.Step c (.call w (.transact operations) x) d) :
    Consistent northbound d.state.northbound ∧ ∃ v ∈ (c.state.kube w.kind).history, v.key = w.key ∧
      ∀ operation ∈ operations, w.Sends v operation ∧ operation.Fits northbound := by
  have hholds := traceRegime.run_holds (traceRegime.holds_idle traced_initial) hrun
  obtain ⟨⟨v, hv, hkey, hsends⟩, ht, -⟩ := traceRegime.step_guar hholds trivial hstep
  exact ⟨ht.consistent, v, hv, hkey, fun operation hmem => ⟨hsends operation hmem, (hsends operation hmem).fits⟩⟩

end Terms

/-! ## A network with DHCP -/

/-- Every subnet has one host. -/
@[reducible] def singleHost : Crates := ⟨fun _ _ => 0, fun _ => some ["10.0.0.1"], fun _ => none⟩

attribute [local instance] singleHost

/-- A network is reconciled up to the transaction that writes its DHCP options. -/
def dhcpScript : List ClusterCommand :=
  [.world (.create .node ⟨"", "a"⟩ [(ovnCentralManagedLabel, "managed")]
      [( ovnCentralIpAnnotation, "10.0.0.1")] ()),
    .world (.create .network ⟨"n", "r"⟩ [] []
      ⟨some ⟨"10.0.0.0/24", none, none, none, none⟩, none, none, none, none⟩)] ++
  serve (.network ⟨"n", "r"⟩) 1 4 ++
  [.call (.network ⟨"n", "r"⟩) { fresh := ["u"] }, .call (.network ⟨"n", "r"⟩) {},
    .call (.network ⟨"n", "r"⟩) {}, .call (.network ⟨"n", "r"⟩) { fresh := ["v"] },
    .call (.network ⟨"n", "r"⟩) {}]

/-- What a request asks of the database. -/
def Request.asked : Request → List Operation
  | .transact operations => operations
  | _ => []

theorem dhcp_sourced : ∃ c : ClusterConfig, cluster.Run anything ⟨.initial, fun _ => none⟩ c ∧
    ∃ r ∈ c.state.northbound typeDhcpOptions, r.get "options" ≠ some (.map []) ∧
      Sourced c.state typeDhcpOptions r := by
  obtain ⟨c, hr, hc⟩ := Interaction.Machine.play_reaches (M := cluster) anything
    ⟨World.initial, fun _ => none⟩ (dhcpScript ++ [.call (.network ⟨"n", "r"⟩) {}])
    (fun c => (c.state.northbound typeDhcpOptions).any fun r => r.get "options" ≠ some (.map []))
    (by decide +kernel)
  obtain ⟨r, hmem, hne⟩ := List.any_eq_true.mp hc
  exact ⟨c, hr, r, hmem, of_decide_eq_true hne, rows_sourced hr hmem⟩

theorem options_asked : ∃ (c d : ClusterConfig) (operations : List Operation) (x : Choice),
    cluster.Run anything ⟨.initial, fun _ => none⟩ c ∧
    cluster.Step c (.call (.network ⟨"n", "r"⟩) (.transact operations) x) d ∧ operations ≠ [] ∧
    Consistent northbound d.state.northbound ∧ ∃ v ∈ (c.state.kube .network).history,
      v.key = ⟨"n", "r"⟩ ∧ ∀ operation ∈ operations, NetworkSends v operation ∧
        operation.Fits northbound := by
  obtain ⟨c, hr, hc⟩ := Interaction.Machine.play_reaches (M := cluster) anything
    ⟨World.initial, fun _ => none⟩ dhcpScript
    (fun c => (((c.threads (.network ⟨"n", "r"⟩)).bind Program.next?).any fun r => r.asked ≠ []) &&
      (cluster.obey anything c (.call (.network ⟨"n", "r"⟩) {})).isSome)
    (by decide +kernel)
  simp only [Bool.and_eq_true, Option.any_eq_true, decide_eq_true_eq] at hc
  obtain ⟨⟨r, hnext, hne⟩, hobey⟩ := hc
  obtain ⟨d, hd⟩ := Option.isSome_iff_exists.mp hobey
  obtain ⟨r', hnext', -, hs⟩ := Interaction.Machine.obey_call hd
  obtain rfl := Option.some.inj (hnext'.symm.trans hnext)
  cases r' with
  | transact operations =>
    have h := transactions_asked hr hs
    exact ⟨c, d, operations, _, hr, hs, hne, h.1, h.2⟩
  | _ => exact absurd rfl hne

end ClusterController
