import ClusterController.PortAddresses

/-!
# Connecting a NIC

`connect_vm_nic` looks a port up by its name in the whole database, and makes one on the switch
of the NIC's network only where there is none. When it keeps to the ports of that switch.
-/

namespace ClusterController

open ApiServer (Key)
open Interaction (Program)
open Interaction.Program (Outcome After after_ret after_fail after_abort)
open Ovsdb (Json Datum Row Columns Database Consistent Operation Ref FitColumns addRefs)

/-! ## Whose ports -/

/-- A switch of the name has the port. -/
def Own (db : Database) (name v : String) : Prop :=
  ∃ L ∈ db typeLogicalSwitch, rowText L "name" = name ∧ v ∈ L.refs "ports"

/-- A switch of another name has the port. -/
def Foreign (db : Database) (name v : String) : Prop :=
  ∃ L ∈ db typeLogicalSwitch, rowText L "name" ≠ name ∧ v ∈ L.refs "ports"

/-- The name of the switch of a network. -/
def networkSwitch (vm : VirtualMachine) (network : String) : String :=
  vm.metadata.ns ++ "-" ++ network

/-- What a run of `connect_vm_nic` comes to. If it returns, the port of the NIC is on the switch of
its network, and however it ends, the ports of other switches are as they were. -/
structure Connected (vm : VirtualMachine) (nic : NetworkAttachment) (db db' : Database)
    (o : Outcome Error Unit) : Prop where
  port : o = .ok () → ∃ network id p, nic.name = some network ∧ nic.ovnId = some id ∧
    named db' typeLogicalSwitchPort id = some p ∧ Own db' (networkSwitch vm network) p.uuid
  others : ∀ v, (∀ network, nic.name = some network → Foreign db (networkSwitch vm network) v) →
    db'.find? typeLogicalSwitchPort v = db.find? typeLogicalSwitchPort v

/-- The port of the NIC is on another switch, and `connect_vm_nic` does not give up before it has
changed it or is done: the MAC address is neither in its address nor in one of its switch, or it
is in its address already and what the network asks for is there. -/
def Misplaced (s : World) (vm : VirtualMachine) (nic : NetworkAttachment) : Prop :=
  ∃ network mac id L r, nic.name = some network ∧ nic.macAddress = some mac ∧ nic.ovnId = some id ∧
    named s.northbound typeLogicalSwitch (networkSwitch vm network) = some L ∧
    named s.northbound typeLogicalSwitchPort id = some r ∧
    Foreign s.northbound (networkSwitch vm network) r.uuid ∧
    ((containsStr (rowText r "addresses") mac = false ∧ ¬TextTaken s.northbound r.uuid mac) ∨
      (containsStr (rowText r "addresses") mac = true ∧
        ∃ v, (s.kube .network).find? ⟨vm.metadata.ns, network⟩ = some v ∧
          ∀ dhcp, v.spec.dhcp = some dhcp →
            ∃ d, firstWith s.northbound typeDhcpOptions "cidr" dhcp.cidr = some d))

section Ports

variable {db db' : Database} {name v v' : String}

/-- A port on one switch is its own or another's. -/
theorem not_own_of_foreign (hc : Consistent northbound db) (hone : OnOneSwitch db)
    (h : Foreign db name v) : ¬Own db name v := by
  rintro ⟨L, hL, hLname, hv⟩
  obtain ⟨L', hL', hne, hv'⟩ := h
  have hu : L.uuid = L'.uuid := hone _ _ v ⟨L, hL, rfl, hv⟩ ⟨L', hL', rfl, hv'⟩
  obtain rfl := List.inj_on_of_nodup_map (hc.conforms.unique _) hL hL' hu
  exact hne hLname

theorem own_or_foreign (hc : Consistent northbound db) {r : Row}
    (hr : r ∈ db typeLogicalSwitchPort) : Own db name r.uuid ∨ Foreign db name r.uuid := by
  obtain ⟨-, L, hL, -, hv⟩ := exists_holds hc hr
  by_cases hn : rowText L "name" = name
  · exact .inl ⟨L, hL, hn, hv⟩
  · exact .inr ⟨L, hL, hn, hv⟩

/-- A switch has only ports that there are. -/
theorem mem_of_foreign (hc : Consistent northbound db) (h : Foreign db name v) :
    v ∈ (db typeLogicalSwitchPort).map Row.uuid := by
  obtain ⟨L, hL, -, hv⟩ := h
  obtain ⟨p, hp, rfl⟩ := exists_port hc ⟨L, hL, rfl, hv⟩
  exact List.mem_map_of_mem hp

/-- Rows are found as before. -/
theorem find?_modifyRow {T : String} {f : Row → Row} (huuid : ∀ r, (f r).uuid = r.uuid) :
    (db.modifyRow T v f).find? T v' =
      (db.find? T v').map fun r => if r.uuid = v then f r else r := by
  have hsame : ∀ r : Row, (if r.uuid = v then f r else r).uuid = r.uuid := by
    intro r
    split
    · exact huuid r
    · rfl
  unfold Database.find?
  rw [Database.modifyRow_self, List.find?_map]
  simp only [Function.comp_def, hsame]

/-- Another row changes. -/
theorem find?_modifyRow_of_ne {T : String} {f : Row → Row} (huuid : ∀ r, (f r).uuid = r.uuid)
    (hne : v' ≠ v) : (db.modifyRow T v f).find? T v' = db.find? T v' := by
  rw [find?_modifyRow huuid]
  cases hr : db.find? T v' with
  | none => rfl
  | some r =>
    have hu := (Database.find?_some hr).2
    rw [Option.map_some, if_neg (by rw [hu]; exact hne)]

end Ports

/-- The port `v` is the one of the name, on a switch of the name, and the ports of other switches are
as in `db₀`. -/
structure OwnPort (db₀ db : Database) (name id v : String) : Prop where
  consistent : Consistent northbound db
  port : portOf db id = some v
  own : Own db name v
  others : ∀ v', Foreign db₀ name v' →
    v' ≠ v ∧ db.find? typeLogicalSwitchPort v' = db₀.find? typeLogicalSwitchPort v'

namespace OwnPort

variable {db₀ db db' : Database} {name id v : String}

/-- A port that was there. -/
theorem found (hc : Consistent northbound db) (hone : OnOneSwitch db) {r : Row}
    (hr : named db typeLogicalSwitchPort id = some r) (hown : Own db name r.uuid) :
    OwnPort db db name id r.uuid := by
  refine ⟨hc, ?_, hown, fun v' hv' => ⟨?_, rfl⟩⟩
  · unfold portOf uuidOf
    rw [hr]
    rfl
  · rintro rfl
    exact not_own_of_foreign hc hone hv' hown

/-- A new port. -/
theorem created (hc : Consistent northbound db) {L row : Row} (hL : L ∈ db typeLogicalSwitch)
    (hLname : rowText L "name" = name) (hnone : named db typeLogicalSwitchPort id = none)
    (hid : rowText row "name" = id) (hfresh : Fresh db row.uuid) (hc' : Consistent northbound db')
    (hdb : db' = (db.modify typeLogicalSwitchPort fun rows => rows ++ [row]).modifyRow
      typeLogicalSwitch L.uuid (addRefs "ports" [row.uuid])) : OwnPort db db' name id row.uuid := by
  have hports : db' typeLogicalSwitchPort = db typeLogicalSwitchPort ++ [row] := by
    rw [hdb]
    unfold Database.modifyRow
    rw [Database.modify_of_ne (by decide), Database.modify_self]
  have hswitch : addRefs "ports" [row.uuid] L ∈ db' typeLogicalSwitch := by
    rw [hdb, Database.modifyRow_self, Database.modify_of_ne (by decide)]
    exact List.mem_map.mpr ⟨L, hL, if_pos rfl⟩
  refine ⟨hc', ?_, ?_, fun v' hv' => ?_⟩
  · unfold portOf uuidOf named
    rw [firstWith_append hnone hid hports]
    rfl
  · refine ⟨_, hswitch, ?_, ?_⟩
    · rw [← hLname]
      exact rowText_modify_of_ne (by decide)
    · exact mem_refs_addRefs_self (get_of_refs (hc.conforms.typed _ L hL) (by decide)) (.head _)
  · have hne : v' ≠ row.uuid := by
      rintro rfl
      exact hfresh _ ⟨_, .head _, .inr rfl⟩ (mem_of_foreign hc hv')
    refine ⟨hne, ?_⟩
    unfold Database.find?
    rw [hports, List.find?_append, List.find?_singleton, if_neg (by simpa using hne.symm), Option.or_none]

/-- The port changes, but for its name. -/
theorem setPort {f : Row → Row} (h : OwnPort db₀ db name id v) (hc' : Consistent northbound db')
    (hdb : db' = db.modifyRow typeLogicalSwitchPort v f) (huuid : ∀ r, (f r).uuid = r.uuid)
    (hname : ∀ r, rowText (f r) "name" = rowText r "name") : OwnPort db₀ db' name id v := by
  have hports : db' typeLogicalSwitchPort =
      (db typeLogicalSwitchPort).map fun r => if r.uuid = v then f r else r := by
    rw [hdb, Database.modifyRow_self]
  have hswitches : db' typeLogicalSwitch = db typeLogicalSwitch := by
    rw [hdb]
    exact Database.modify_of_ne (by decide)
  refine ⟨hc', ?_, ?_, fun v' hv' => ⟨(h.others v' hv').1, ?_⟩⟩
  · rw [← h.port]
    refine uuidOf_map hports (fun r _ => ?_) fun r _ => ?_
    · split
      · exact huuid r
      · rfl
    · split
      · exact hname r
      · rfl
  · have hown := h.own
    unfold Own at hown ⊢
    rwa [hswitches]
  · rw [hdb, find?_modifyRow_of_ne huuid (h.others v' hv').1]
    exact (h.others v' hv').2

end OwnPort

/-! ## The rest of `connect_vm_nic` -/

/-- What `connect_vm_nic` does when the port has its address. -/
def configureDhcp (vm : VirtualMachine) (lsp : LogicalSwitchPort) (networkName : String) : Prog Unit := do
  let network ← kubeGet .network ⟨vm.metadata.ns, networkName⟩
  match network.spec.dhcp with
  | some dhcp => lsp.setDhcpOptions dhcp.cidr
  | none => return ()

/-- What `connect_vm_nic` does with the port. -/
def configurePort (vm : VirtualMachine) (lsp : LogicalSwitchPort) (networkName macAddress : String)
    (ip : IpConfiguration) : Prog Unit := do
  lsp.setAddress macAddress ip
  configureDhcp vm lsp networkName

/-- The IP part that is asked for. -/
def nicAddress (ls : LogicalSwitch) : IpConfiguration :=
  if ls.getCidr.isSome then .dynamic else .none

theorem connectVmNic_eq {vm : VirtualMachine} {nic : NetworkAttachment} {network mac id : String}
    (hname : nic.name = some network) (hmac : nic.macAddress = some mac) (hid : nic.ovnId = some id) :
    connectVmNic vm nic = (do
      let ls ← getByName LogicalSwitch (networkSwitch vm network)
      let lsp ← LogicalSwitchPort.createIfMissing ls id []
      configurePort vm lsp network mac (nicAddress ls)) := by
  unfold connectVmNic
  rw [hname, hmac, hid]
  rfl

section Runs

variable {ok : (r : Request) → r.Answer → Prop} {w : Worker} {s t : World} {vm : VirtualMachine}
  {nic : NetworkAttachment} {network mac id name : String} {ip : IpConfiguration}
  {lsp : LogicalSwitchPort} {db₀ : Database}

/-- The configuration of DHCP changes the port alone. -/
theorem ownPort_configureDhcp (h : OwnPort db₀ s.northbound name id lsp.uuid) :
    After (answering ok w) (configureDhcp vm lsp network) s fun _ t =>
      OwnPort db₀ t.northbound name id lsp.uuid := by
  unfold configureDhcp
  refine after_kubeGet (fun v _ => ?_) fun _ _ => h
  split
  · rw [← Program.bind_ret (lsp.setDhcpOptions _)]
    refine after_setDhcpOptions h.consistent (fun d db _ hcons hdb => after_ret ?_) (fun _ => h) fun _ _ => h
    exact h.setPort hcons hdb (fun _ => Row.uuid_write) fun _ => rowText_write_of_not_mem (by simp)
  · exact after_ret h

/-- The configuration of a port changes the port alone. -/
theorem ownPort_configurePort (h : OwnPort db₀ s.northbound name id lsp.uuid) :
    After (answering ok w) (configurePort vm lsp network mac ip) s fun _ t =>
      OwnPort db₀ t.northbound name id lsp.uuid := by
  unfold configurePort
  refine after_setAddress h.consistent (ownPort_configureDhcp h) (fun db hcons hdb => ?_) (fun _ => h)
    fun _ _ => h
  exact ownPort_configureDhcp (h.setPort hcons hdb (fun _ => Row.uuid_write)
    fun _ => rowText_write_of_not_mem (by simp))

/-- The DHCP options that are missing are not set. -/
theorem after_setDhcpOptions_missing {cidr : String} {post : Outcome Error Unit → World → Prop}
    (hc : Consistent northbound s.northbound)
    (hnone : firstWith s.northbound typeDhcpOptions "cidr" cidr = none)
    (herr : ∀ e, post (.err e) s) (habort : ∀ o, Unanswered ok o → post o s) :
    After (answering ok w) (lsp.setDhcpOptions cidr) s post := by
  unfold LogicalSwitchPort.setDhcpOptions
  refine (reads_getByCidr hc cidr).after (fun a ha => ?_) (fun e _ => herr e) habort
  unfold foundByCidr at ha
  rw [hnone] at ha
  cases ha

/-- A port whose MAC address is in the address of another port of its switch is left alone. -/
theorem after_setAddress_taken {r : Row} {f : Unit → Prog Unit}
    {post : Outcome Error Unit → World → Prop}
    (hc : Consistent northbound s.northbound) (hone : OnOneSwitch s.northbound)
    (hr : r ∈ s.northbound typeLogicalSwitchPort)
    (htext : containsStr (rowText r "addresses") mac = false)
    (htaken : TextTaken s.northbound r.uuid mac)
    (herr : post (.err (.ovnConflict mac)) s) (habort : ∀ o, Unanswered ok o → post o s) :
    After (answering ok w) (LogicalSwitchPort.setAddress (OvnRow.ofRow r) mac ip >>= f) s post := by
  obtain ⟨ls, hls, hv, hfind⟩ := exists_lspOwner hc hr
  obtain ⟨lsp, hlsp⟩ := (foundByMac_ok_iff hone hls hv hr hc htext).mpr htaken
  have htext : ¬containsStr (OvnRow.ofRow r : LogicalSwitchPort).addresses mac = true :=
    Bool.not_eq_true _ ▸ htext
  unfold LogicalSwitchPort.setAddress
  rw [if_neg htext, Program.bind_assoc']
  unfold LogicalSwitch.findLspOwner
  rw [Program.bind_assoc']
  refine (reads_ovnList LogicalSwitch hc).after (fun switches hsw => ?_) (fun e he => by cases he) habort
  cases hsw
  have hfind : (rowsOf LogicalSwitch s.northbound).find? (fun switch =>
      switch.portIds.contains (OvnRow.ofRow r : LogicalSwitchPort).uuid) =
        some (OvnRow.ofRow ls) := hfind
  rw [hfind]
  show After _ (((LogicalSwitchPort.getByMac (OvnRow.ofRow ls) mac).attempt >>= _) >>= f) s post
  rw [Program.bind_assoc']
  refine (reads_getByMac hc (OvnRow.ofRow ls) mac).attempt.after (fun x hx => ?_)
    (fun e he => by cases he) habort
  cases hx
  rw [hlsp]
  exact after_fail herr

/-- A run that does not return and changes nothing. -/
theorem Connected.kept {db : Database} {o : Outcome Error Unit} (h : o ≠ .ok ()) :
    Connected vm nic db db o := ⟨fun ho => absurd ho h, fun _ _ => rfl⟩

theorem Connected.of_own {db db' : Database} {v : String} {o : Outcome Error Unit}
    (hname : nic.name = some network) (hid : nic.ovnId = some id)
    (h : OwnPort db db' (networkSwitch vm network) id v) : Connected vm nic db db' o := by
  refine ⟨fun _ => ?_, fun v' hv' => (h.others v' (hv' network hname)).2⟩
  obtain ⟨p, hp, hu⟩ := Option.map_eq_some_iff.mp h.port
  refine ⟨network, id, p, hname, hid, hp, ?_⟩
  rw [hu]
  exact h.own

/-- A port on another switch for which `connect_vm_nic` gives up is left alone. -/
theorem connected_of_given_up {r L : Row} (hc : Consistent northbound s.northbound)
    (hone : OnOneSwitch s.northbound) (hname : nic.name = some network)
    (hmac : nic.macAddress = some mac) (hid : nic.ovnId = some id)
    (hL : named s.northbound typeLogicalSwitch (networkSwitch vm network) = some L)
    (hr : named s.northbound typeLogicalSwitchPort id = some r)
    (hforeign : Foreign s.northbound (networkSwitch vm network) r.uuid) (h : ¬Misplaced s vm nic) :
    After (answering ok w) (configurePort vm (OvnRow.ofRow r) network mac ip) s fun o t =>
      Connected vm nic s.northbound t.northbound o := by
  have habort : ∀ o : Outcome Error Unit, Unanswered ok o →
      Connected vm nic s.northbound s.northbound o := by
    rintro o ⟨-, m, rfl⟩
    exact .kept fun h => by cases h
  have herr : ∀ e, Connected vm nic s.northbound s.northbound (.err e) := fun e =>
    .kept fun h => by cases h
  unfold configurePort
  cases htext : containsStr (rowText r "addresses") mac with
  | false =>
    refine after_setAddress_taken hc hone (firstWith_some hr).1 htext ?_ (herr _) habort
    by_contra hfree
    exact h ⟨network, mac, id, L, r, hname, hmac, hid, hL, hr, hforeign, .inl ⟨htext, hfree⟩⟩
  | true =>
    have htext' : containsStr (OvnRow.ofRow r : LogicalSwitchPort).addresses mac = true := htext
    unfold LogicalSwitchPort.setAddress
    rw [if_pos htext']
    show After _ (configureDhcp vm (OvnRow.ofRow r) network) s _
    unfold configureDhcp
    refine after_kubeGet (fun v hv => ?_) fun e _ => herr e
    have hmissing : ∃ dhcp, v.spec.dhcp = some dhcp ∧
        firstWith s.northbound typeDhcpOptions "cidr" dhcp.cidr = none := by
      by_contra hall
      refine h ⟨network, mac, id, L, r, hname, hmac, hid, hL, hr, hforeign, .inr ⟨htext, v, hv, ?_⟩⟩
      intro dhcp hdhcp
      exact Option.ne_none_iff_exists'.mp fun hnone => hall ⟨dhcp, hdhcp, hnone⟩
    obtain ⟨dhcp, hdhcp, hnone⟩ := hmissing
    rw [hdhcp]
    exact after_setDhcpOptions_missing hc hnone herr habort

/-- A NIC whose port is not misplaced is connected to its own network only. -/
theorem connected_of_placed (hc : Consistent northbound s.northbound)
    (hone : OnOneSwitch s.northbound) (h : ¬Misplaced s vm nic) :
    After (answering ok w) (connectVmNic vm nic) s fun o t =>
      Connected vm nic s.northbound t.northbound o := by
  have habort : ∀ o : Outcome Error Unit, Unanswered ok o →
      Connected vm nic s.northbound s.northbound o := by
    rintro o ⟨-, m, rfl⟩
    exact .kept fun h => by cases h
  have hpanic : ∀ m, Connected vm nic s.northbound s.northbound (.aborted m) := fun m =>
    .kept fun h => by cases h
  cases hname : nic.name with
  | none =>
    unfold connectVmNic
    rw [hname]
    exact after_abort (hpanic _)
  | some network =>
    cases hmac : nic.macAddress with
    | none =>
      unfold connectVmNic
      rw [hname, hmac]
      exact after_abort (hpanic _)
    | some mac =>
      have hread : Reads ok w s (getByName LogicalSwitch (networkSwitch vm network)) _ :=
        reads_getByName LogicalSwitch hc _
      have herr : ∀ e, Connected vm nic s.northbound s.northbound (.err e) := fun e =>
        .kept fun h => by cases h
      cases hid : nic.ovnId with
      | none =>
        unfold connectVmNic
        rw [hname, hmac, hid]
        exact hread.after (fun _ _ => after_abort (hpanic _)) (fun e _ => herr e) habort
      | some id =>
        rw [connectVmNic_eq hname hmac hid]
        refine hread.after (fun ls hls => ?_) (fun e _ => herr e) habort
        unfold foundByName at hls
        split at hls
        · next L hL =>
          cases hls
          refine after_createPlainPort (List.mem_map_of_mem (firstWith_some hL).1) hc (fun r hr => ?_)
            (fun u db hnone hfresh hcons hdb => ?_) habort
          · have hwhose : Own s.northbound (networkSwitch vm network) r.uuid ∨
                Foreign s.northbound (networkSwitch vm network) r.uuid :=
              own_or_foreign hc (firstWith_some hr).1
            rcases hwhose with hown | hforeign
            · refine (ownPort_configurePort (OwnPort.found hc hone hr hown)).mono fun o t ht => ?_
              exact .of_own hname hid ht
            · exact connected_of_given_up hc hone hname hmac hid hL hr hforeign h
          · have hport : OwnPort s.northbound db (networkSwitch vm network) id
                (newRow typeLogicalSwitchPort u (plainPort id)).uuid := by
              refine .created hc (firstWith_some hL).1 (firstWith_some hL).2 hnone ?_ ?_ hcons ?_
              · exact rowText_of_get (get_write_self rfl (by simp))
              · rwa [uuid_newRow]
              · rwa [uuid_newRow]
            refine ⟨fun o _ => .of_own hname hid hport, ?_⟩
            refine (ownPort_configurePort hport).mono fun o t ht => ?_
            exact .of_own hname hid ht
        · cases hls

/-! ## A misplaced port -/

theorem served_of_supplied {r : Request} {a : r.Answer} (h : Supplied w s r a t) :
    answering anyAnswer w s r a t := by
  obtain ⟨x, hx, -, hans⟩ := h
  exact ⟨⟨x, hx, hans⟩, trivial⟩

theorem Gives.attempt {α : Type} {p : Prog α} {a : α} (h : Gives w s p a) :
    Gives w s p.attempt (.ok a) := by
  intro o t
  rw [Program.ends_attempt]
  constructor
  · rintro (⟨b, hb, rfl⟩ | ⟨e, he, -⟩ | ⟨m, hm, -⟩)
    · obtain ⟨ho, rfl⟩ := (h _ _).mp hb
      cases ho
      exact ⟨rfl, rfl⟩
    · cases ((h _ _).mp he).1
    · cases ((h _ _).mp hm).1
  · rintro ⟨rfl, rfl⟩
    exact .inl ⟨a, (h _ _).mpr ⟨rfl, rfl⟩, rfl⟩

/-- A port that there is already is taken. -/
theorem gives_lspCreateIfMissing {r : Row} {ls : LogicalSwitch} (hc : Consistent northbound s.northbound)
    (hr : named s.northbound typeLogicalSwitchPort id = some r) :
    Gives w s (LogicalSwitchPort.createIfMissing ls id []) (OvnRow.ofRow r) := by
  have hget : Gives w s (getByName LogicalSwitchPort id) (OvnRow.ofRow r) :=
    gives_getByName LogicalSwitchPort hc hr
  exact hget.attempt.bind (gives_ret _)

theorem supplied_get (κ : Kind) (k : Key) :
    Supplied w s (.kube (.get κ k)) ((s.kube κ).get k) s := by
  refine ⟨{}, rfl, ?_, rfl⟩
  intro operations h
  cases h

theorem gives_kubeGet {κ : Kind} {k : Key} {v : Object κ} (hv : (s.kube κ).find? k = some v) :
    Gives w s (kubeGet κ k) v := by
  intro o t
  constructor
  · intro h
    obtain ⟨rfl, ⟨v', hv', rfl⟩ | ⟨hn, -⟩⟩ :=
      ends_kubeGet (h.mono fun _ _ _ _ he => (served_of_supplied he).1)
    · cases hv.symm.trans hv'
      exact ⟨rfl, rfl⟩
    · cases hv.symm.trans hn
  · rintro ⟨rfl, rfl⟩
    have hget := supplied_get (w := w) (s := t) κ k
    unfold ApiServer.Collection.get at hget
    rw [hv] at hget
    exact ⟨_, t, hget, rfl, rfl⟩

/-- What is not stored is not read. -/
theorem ends_kubeGet_none {κ : Kind} {k : Key} (hn : (s.kube κ).find? k = none) :
    ∃ e, (kubeGet κ k).Ends (Supplied w) s (.err e) s := by
  have hget := supplied_get (w := w) (s := s) κ k
  unfold ApiServer.Collection.get at hget
  rw [hn] at hget
  exact ⟨_, _, s, hget, rfl, rfl⟩

/-- The DHCP options of a CIDR, by their row. -/
theorem find?_cidr {db : Database} {cidr : String} :
    (rowsOf DhcpOptions db).find? (fun o => o.cidr = cidr) =
      (firstWith db typeDhcpOptions "cidr" cidr).map OvnRow.ofRow := by
  unfold rowsOf firstWith
  rw [List.find?_map]
  rfl

/-- DHCP options that there are are set. -/
theorem ends_setDhcpOptions {cidr : String} {d : Row} {o : Outcome Error Unit}
    (hc : Consistent northbound s.northbound)
    (hd : firstWith s.northbound typeDhcpOptions "cidr" cidr = some d) :
    (lsp.setDhcpOptions cidr).Ends (Supplied w) s o t ↔ o = .ok () ∧
      t = s.setNorthbound (s.northbound.modifyRow typeLogicalSwitchPort lsp.uuid
        fun r => r.write [("dhcpv4_options", .refs [d.uuid])]) := by
  have hget : Gives w s (DhcpOptions.getByCidr cidr) (OvnRow.ofRow d) := by
    unfold DhcpOptions.getByCidr
    refine (gives_ovnList DhcpOptions hc).bind ?_
    rw [find?_cidr, hd]
    exact gives_ret _
  have hcons : Consistent northbound (s.northbound.modifyRow typeLogicalSwitchPort lsp.uuid
      fun r => r.write [("dhcpv4_options", .refs [d.uuid])]) := by
    refine consistent_write (fit_one (.refs [d.uuid]) (d := .refs []) (by decide) trivial) ?_
      (by simp [northbound]) hc fun _ _ _ => linked_write_dhcp (firstWith_some hd).1
    simp [binds_iff, typeLogicalSwitchPort, typeLogicalSwitch, typeLogicalRouter]
  have hrow : ∀ names, Operation.resolveColumns (Database.lookup names)
      [("dhcpv4_options", .refs [Ref.uuid d.uuid])] = some [("dhcpv4_options", .refs [d.uuid])] :=
    fun _ => rfl
  obtain ⟨answers, hupdate⟩ := ends_update (w := w) (t := t) (T := typeLogicalSwitchPort) (u := lsp.uuid)
    hrow hcons fun _ => .ret ()
  unfold LogicalSwitchPort.setDhcpOptions
  rw [hget.ends_bind]
  exact hupdate o

/-- DHCP options that there are not are not set. -/
theorem ends_setDhcpOptions_none {cidr : String} (hc : Consistent northbound s.northbound)
    (hd : firstWith s.northbound typeDhcpOptions "cidr" cidr = none) :
    (lsp.setDhcpOptions cidr).Ends (Supplied w) s (.err (.ovnNotFound typeDhcpOptions cidr)) s := by
  unfold LogicalSwitchPort.setDhcpOptions DhcpOptions.getByCidr
  rw [Program.bind_assoc', (gives_ovnList DhcpOptions hc).ends_bind, find?_cidr, hd]
  exact ⟨rfl, rfl⟩

/-- The configuration of DHCP ends. -/
theorem exists_configureDhcp (hc : Consistent northbound s.northbound) :
    ∃ o t, (configureDhcp vm lsp network).Ends (Supplied w) s o t := by
  unfold configureDhcp
  cases hv : (s.kube .network).find? ⟨vm.metadata.ns, network⟩ with
  | none =>
    obtain ⟨e, he⟩ := ends_kubeGet_none (w := w) hv
    exact ⟨_, s, Program.ends_bind.mpr (.inr (.inl ⟨e, he, rfl⟩))⟩
  | some v =>
    simp only [(gives_kubeGet (w := w) hv).ends_bind]
    cases v.spec.dhcp with
    | none => exact ⟨_, _, rfl, rfl⟩
    | some dhcp =>
      cases hd : firstWith s.northbound typeDhcpOptions "cidr" dhcp.cidr with
      | some d => exact ⟨_, _, (ends_setDhcpOptions hc hd).mpr ⟨rfl, rfl⟩⟩
      | none => exact ⟨_, _, ends_setDhcpOptions_none hc hd⟩

/-- The MAC address is in the address. -/
theorem containsStr_addressString (mac : String) (ip : IpConfiguration) :
    containsStr (LogicalSwitchPort.addressString mac ip) mac = true := by
  have hprefix : ∀ rest : String, containsStr (mac ++ rest) mac = true := by
    intro rest
    unfold containsStr
    rw [decide_eq_true_eq, String.toList_append]
    exact (List.prefix_append _ _).isInfix
  cases ip with
  | address ip =>
    show containsStr (mac ++ " " ++ ip) mac = true
    rw [String.append_assoc]
    exact hprefix _
  | dynamic => exact hprefix _
  | none =>
    unfold containsStr
    exact decide_eq_true List.infix_rfl

/-- The text of a port with one address. -/
theorem rowText_of_addresses {r : Row} {address : String} (h : addressesOf r = [address]) :
    rowText r "addresses" = address := by
  unfold addressesOf at h
  split at h
  · next l hl =>
    rw [h] at hl
    exact rowText_of_get hl
  · cases h

/-- The configuration of DHCP keeps addresses. -/
theorem after_configureDhcp_address {r : Row} {v : String} (hc : Consistent northbound s.northbound)
    (hr : s.northbound.find? typeLogicalSwitchPort v = some r) :
    After (answering ok w) (configureDhcp vm lsp network) s fun _ t =>
      ∃ r', t.northbound.find? typeLogicalSwitchPort v = some r' ∧
        rowText r' "addresses" = rowText r "addresses" := by
  unfold configureDhcp
  refine after_kubeGet (fun n _ => ?_) fun _ _ => ⟨r, hr, rfl⟩
  split
  · rw [← Program.bind_ret (lsp.setDhcpOptions _)]
    refine after_setDhcpOptions hc (fun d db _ hcons hdb => after_ret ?_) (fun _ => ⟨r, hr, rfl⟩)
      fun _ _ => ⟨r, hr, rfl⟩
    refine ⟨if r.uuid = lsp.uuid then r.write [("dhcpv4_options", .refs [d.uuid])] else r, ?_, ?_⟩
    · rw [northbound_setNorthbound, hdb, find?_modifyRow fun _ => Row.uuid_write, hr]
      rfl
    · split
      · exact rowText_write_of_not_mem (by simp)
      · rfl
  · exact after_ret ⟨r, hr, rfl⟩

/-- The NIC's port is there already. -/
theorem ends_connectVmNic_found {L r : Row} {o : Outcome Error Unit}
    (hc : Consistent northbound s.northbound) (hname : nic.name = some network)
    (hmac : nic.macAddress = some mac) (hid : nic.ovnId = some id)
    (hL : named s.northbound typeLogicalSwitch (networkSwitch vm network) = some L)
    (hr : named s.northbound typeLogicalSwitchPort id = some r) :
    (connectVmNic vm nic).Ends (Supplied w) s o t ↔
      (configurePort vm (OvnRow.ofRow r) network mac (nicAddress (OvnRow.ofRow L))).Ends
        (Supplied w) s o t := by
  have hswitch : Gives w s (getByName LogicalSwitch (networkSwitch vm network)) (OvnRow.ofRow L) :=
    gives_getByName LogicalSwitch hc hL
  rw [connectVmNic_eq hname hmac hid, hswitch.ends_bind, (gives_lspCreateIfMissing hc hr).ends_bind]

/-- The port on another switch gets the address. -/
theorem not_connected_of_free {r : Row} (hc : Consistent northbound s.northbound)
    (hone : OnOneSwitch s.northbound) (hname : nic.name = some network)
    (hr : r ∈ s.northbound typeLogicalSwitchPort)
    (hforeign : Foreign s.northbound (networkSwitch vm network) r.uuid)
    (htext : containsStr (rowText r "addresses") mac = false)
    (hfree : ¬TextTaken s.northbound r.uuid mac) : ∃ o t,
      (configurePort vm (OvnRow.ofRow r) network mac ip).Ends (Supplied w) s o t ∧
        ¬Connected vm nic s.northbound t.northbound o := by
  let address := LogicalSwitchPort.addressString mac ip
  let s₁ := s.setNorthbound (addressed s.northbound r.uuid address)
  have hc₁ : Consistent northbound s₁.northbound := consistent_addressed hc
  obtain ⟨r₁, hr₁, haddresses⟩ : ∃ r₁, s₁.northbound.find? typeLogicalSwitchPort r.uuid = some r₁ ∧
      addressesOf r₁ = [address] := find?_addressed hc hr
  obtain ⟨o, t, hrest⟩ : ∃ o t,
      (configureDhcp vm (OvnRow.ofRow r) network).Ends (Supplied w) s₁ o t := exists_configureDhcp hc₁
  refine ⟨o, t, Program.ends_bind.mpr (.inl ⟨(), s₁,
    (ends_setAddress_free hc hone hr htext hfree).mpr ⟨rfl, rfl⟩, hrest⟩), fun hconnected => ?_⟩
  -- The new address stays, and it has the MAC address, which the old one has not.
  have hserved : (configureDhcp vm (OvnRow.ofRow r) network).Ends (answering anyAnswer w) s₁ o t :=
    hrest.mono fun _ _ _ _ he => served_of_supplied he
  obtain ⟨r₂, hr₂, hsame⟩ := after_configureDhcp_address hc₁ hr₁ o t hserved
  have hold := hconnected.others r.uuid fun network' hname' => by
    cases hname.symm.trans hname'
    exact hforeign
  rw [hr₂, find?_row hc hr] at hold
  rw [Option.some.inj hold] at hsame
  rw [hsame, rowText_of_addresses haddresses] at htext
  rw [containsStr_addressString] at htext
  cases htext

/-- The port on another switch has the address, and the run returns. -/
theorem not_connected_of_kept {r : Row} {v : Network} (hc : Consistent northbound s.northbound)
    (hone : OnOneSwitch s.northbound) (hname : nic.name = some network) (hid : nic.ovnId = some id)
    (hr : named s.northbound typeLogicalSwitchPort id = some r)
    (hforeign : Foreign s.northbound (networkSwitch vm network) r.uuid)
    (htext : containsStr (rowText r "addresses") mac = true)
    (hv : (s.kube .network).find? ⟨vm.metadata.ns, network⟩ = some v)
    (hdhcp : ∀ dhcp, v.spec.dhcp = some dhcp →
      ∃ d, firstWith s.northbound typeDhcpOptions "cidr" dhcp.cidr = some d) : ∃ o t,
      (configurePort vm (OvnRow.ofRow r) network mac ip).Ends (Supplied w) s o t ∧
        ¬Connected vm nic s.northbound t.northbound o := by
  have hport : portOf s.northbound id = some r.uuid := by
    unfold portOf uuidOf
    rw [hr]
    rfl
  -- The run returns, and the port stays where it is.
  obtain ⟨t, hrest, hswitches, hport'⟩ : ∃ t,
      (configureDhcp vm (OvnRow.ofRow r) network).Ends (Supplied w) s (.ok ()) t ∧
        t.northbound typeLogicalSwitch = s.northbound typeLogicalSwitch ∧
        portOf t.northbound id = portOf s.northbound id := by
    unfold configureDhcp
    simp only [(gives_kubeGet (w := w) hv).ends_bind]
    cases hd : v.spec.dhcp with
    | none => exact ⟨s, ⟨rfl, rfl⟩, rfl, rfl⟩
    | some dhcp =>
      obtain ⟨d, hfirst⟩ := hdhcp dhcp hd
      refine ⟨_, (ends_setDhcpOptions hc hfirst).mpr ⟨rfl, rfl⟩, ?_, ?_⟩
      · rw [northbound_setNorthbound]
        exact Database.modify_of_ne (by decide)
      · rw [northbound_setNorthbound]
        refine uuidOf_map Database.modifyRow_self (fun r _ => ?_) fun r _ => ?_
        · split
          · exact Row.uuid_write
          · rfl
        · split
          · exact rowText_write_of_not_mem (by simp)
          · rfl
  refine ⟨.ok (), t, Program.ends_bind.mpr (.inl ⟨(), s,
    (ends_setAddress_kept htext).mpr ⟨rfl, rfl⟩, hrest⟩), fun hconnected => ?_⟩
  obtain ⟨network', id', p, hname', hid', hp, L, hL, hLname, hLp⟩ := hconnected.port rfl
  cases hname.symm.trans hname'
  cases hid.symm.trans hid'
  have hu : p.uuid = r.uuid := by
    rw [hport] at hport'
    unfold portOf uuidOf at hport'
    rw [hp] at hport'
    exact Option.some.inj hport'
  rw [hswitches] at hL
  rw [hu] at hLp
  exact not_own_of_foreign hc hone hforeign ⟨L, hL, hLname, hLp⟩

/-- A misplaced port makes a run go wrong. -/
theorem exists_not_connected (w : Worker) (hc : Consistent northbound s.northbound)
    (hone : OnOneSwitch s.northbound) (h : Misplaced s vm nic) : ∃ o t,
      (connectVmNic vm nic).Ends (answering anyAnswer w) s o t ∧
        ¬Connected vm nic s.northbound t.northbound o := by
  obtain ⟨network, mac, id, L, r, hname, hmac, hid, hL, hr, hforeign, hgoes⟩ := h
  obtain ⟨o, t, hends, hnot⟩ : ∃ o t, (configurePort vm (OvnRow.ofRow r) network mac
      (nicAddress (OvnRow.ofRow L))).Ends (Supplied w) s o t ∧
        ¬Connected vm nic s.northbound t.northbound o := by
    rcases hgoes with ⟨htext, hfree⟩ | ⟨htext, v, hv, hdhcp⟩
    · exact not_connected_of_free hc hone hname (firstWith_some hr).1 hforeign htext hfree
    · exact not_connected_of_kept hc hone hname hid hr hforeign htext hv hdhcp
  have hrun := (ends_connectVmNic_found hc hname hmac hid hL hr).mpr hends
  exact ⟨o, t, hrun.mono fun _ _ _ _ he => served_of_supplied he, hnot⟩

/-- A NIC is connected to its own network only, in every run, exactly if its port is not misplaced. -/
theorem connected_iff (hc : Consistent northbound s.northbound) (hone : OnOneSwitch s.northbound) :
    (∀ o t, (connectVmNic vm nic).Ends (answering anyAnswer w) s o t →
      Connected vm nic s.northbound t.northbound o) ↔ ¬Misplaced s vm nic := by
  constructor
  · intro hall h
    obtain ⟨o, t, hrun, hnot⟩ := exists_not_connected w hc hone h
    exact hnot (hall o t hrun)
  · exact fun h => connected_of_placed hc hone h

end Runs

/-! ### A port of another tenant -/

/-- A machine of a namespace, which is all that a connection asks of it. -/
def machineOf (ns : String) : VirtualMachine :=
  ⟨⟨ns, "vm", 0, 0, [], [], [], none⟩,
    ⟨1, none, "1Gi", [], [], none, none, none, none, none, none⟩, none⟩

/-- A NIC that names its network and its port. -/
def nicOf (network id : String) : NetworkAttachment :=
  { NetworkAttachment.default with
    name := some network, macAddress := some "52:54:00:9:9:9", ovnId := some id }

/-- Beside the switch with two ports there is the empty switch of another namespace. -/
def tenantsDatabase : Database :=
  ((Database.transact northbound lanDatabase ["guest"]
    [.insert typeLogicalSwitch [("name", .strings ["guest-net"])] none]).map Prod.snd).getD fun _ => []

theorem consistent_tenantsDatabase : Consistent northbound tenantsDatabase := by
  have hsome : (Database.transact northbound lanDatabase ["guest"]
      [.insert typeLogicalSwitch [("name", .strings ["guest-net"])] none]).isSome = true := by
    decide +kernel
  obtain ⟨p, hp⟩ := Option.isSome_iff_exists.mp hsome
  have hfit : FitColumns (northboundColumns typeLogicalSwitch)
      [("name", (.strings ["guest-net"] : Datum Ref))] :=
    fit_one _ (d := .strings [""]) (by decide) fun _ => rfl
  have hcons := (transact_insert rfl ⟨_, .head _, .inl rfl⟩ (resolve_text _ _) hfit
    consistent_lanDatabase hp).1
  unfold tenantsDatabase
  rw [hp]
  exact hcons

theorem onOneSwitch_tenantsDatabase : OnOneSwitch tenantsDatabase := by
  have hls : ∀ r ∈ tenantsDatabase typeLogicalSwitch, r.refs "ports" = [] ∨ r.uuid = "ls" := by
    decide +kernel
  have hholds : ∀ u v, Holds tenantsDatabase u v → u = "ls" := by
    rintro u v ⟨r, hr, rfl, hv⟩
    refine (hls r hr).resolve_left fun hnone => ?_
    rw [hnone] at hv
    cases hv
  exact fun u u' v hu hu' => (hholds u v hu).trans (hholds u' v hu').symm

/-- A machine of the namespace `guest` names the port of a machine of the namespace `default`, and
gets it an address. -/
theorem tenant_port_rewritten : ¬∀ o t, (connectVmNic (machineOf "guest") (nicOf "net" "vm-2")).Ends
    (answering anyAnswer (.vmOvn ⟨"guest", "vm"⟩)) (World.initial.setNorthbound tenantsDatabase) o t →
      Connected (machineOf "guest") (nicOf "net" "vm-2") tenantsDatabase t.northbound o := by
  have hswitch : ∃ L, named tenantsDatabase typeLogicalSwitch "guest-net" = some L :=
    Option.isSome_iff_exists.mp (by decide +kernel)
  have hport : named tenantsDatabase typeLogicalSwitchPort "vm-2" = some secondLanPort := by
    decide +kernel
  have hforeign : Foreign tenantsDatabase "guest-net" "p2" := by
    unfold Foreign
    decide +kernel
  have htext : containsStr (rowText secondLanPort "addresses") "52:54:00:9:9:9" = false := by
    decide +kernel
  have hfree : ¬TextTaken tenantsDatabase "p2" "52:54:00:9:9:9" := by
    rintro ⟨q, ⟨hq, -⟩, hin⟩
    have hnone : ∀ q ∈ tenantsDatabase typeLogicalSwitchPort,
        containsStr (rowText q "addresses") "52:54:00:9:9:9" = false := by decide +kernel
    rw [hnone q hq] at hin
    cases hin
  obtain ⟨L, hL⟩ := hswitch
  have hmisplaced : Misplaced (World.initial.setNorthbound tenantsDatabase) (machineOf "guest")
      (nicOf "net" "vm-2") :=
    ⟨"net", _, "vm-2", L, secondLanPort, rfl, rfl, rfl, hL, hport, hforeign, .inl ⟨htext, hfree⟩⟩
  intro hall
  obtain ⟨o, t, hrun, hnot⟩ := exists_not_connected (.vmOvn ⟨"guest", "vm"⟩)
    (s := World.initial.setNorthbound tenantsDatabase) consistent_tenantsDatabase
    onOneSwitch_tenantsDatabase hmisplaced
  exact hnot (hall o t hrun)

/-- A machine of the namespace `default` that names the same port is connected to its own network. -/
theorem connected_own : ¬Misplaced (World.initial.setNorthbound tenantsDatabase) (machineOf "default")
      (nicOf "lan" "vm-2") ∧
    ∀ o t, (connectVmNic (machineOf "default") (nicOf "lan" "vm-2")).Ends
      (answering anyAnswer (.vmOvn ⟨"default", "vm"⟩)) (World.initial.setNorthbound tenantsDatabase) o t →
        Connected (machineOf "default") (nicOf "lan" "vm-2") tenantsDatabase t.northbound o := by
  have hplaced : ¬Misplaced (World.initial.setNorthbound tenantsDatabase) (machineOf "default")
      (nicOf "lan" "vm-2") := by
    rintro ⟨network, mac, id, L, r, hname, -, hid, -, hr, ⟨L', hL', hne, hv⟩, -⟩
    cases hname
    cases hid
    have hport : named tenantsDatabase typeLogicalSwitchPort "vm-2" = some secondLanPort := by
      decide +kernel
    obtain rfl := Option.some.inj (hport.symm.trans hr)
    have hlan : ∀ L ∈ tenantsDatabase typeLogicalSwitch, "p2" ∈ L.refs "ports" →
        rowText L "name" = "default-lan" := by decide +kernel
    exact hne (hlan L' hL' hv)
  exact ⟨hplaced, (connected_iff (s := World.initial.setNorthbound tenantsDatabase)
    consistent_tenantsDatabase onOneSwitch_tenantsDatabase).mpr hplaced⟩

end ClusterController
