import ClusterController.Fitting
import ClusterController.NicHistory
import ClusterController.Teardown
import ClusterController.Wiring

/-!
# The ports of a virtual machine

Ports are created from the NICs that the status records, and removed from the NICs that it
records later. `fill_nics` rewrites this list in between.

* `Ported`: every port that has come since the start belongs to a recorded NIC.
* `teardown_removes_ports`: the removal takes every port, if no fill has dropped a NIC that
  has one.
-/

namespace ClusterController

open ApiServer (Key Resource Collection)
open Interaction (Program)
open Interaction.Program (Outcome After Ends ends_bind after_ret after_fail after_abort)
open Ovsdb (Row Database Columns Consistent addRefs dropRefs)

/-! ## Ports and the NICs they belong to -/

/-- The port has the ID of the NIC, and is on the switch of its network alone. -/
def Accounts (db : Database) (ns : String) (nic : NetworkAttachment) (p : Row) : Prop :=
  ∃ network, nic.name = some network ∧ nic.ovnId = some (rowText p "name") ∧
    ∀ u, Holds db u p.uuid → switchOf db (ns ++ "-" ++ network) = some u

/-- Every port that the start does not have belongs to one of the NICs. -/
structure Ported (start : Database) (ns : String) (nics : List NetworkAttachment) (db : Database) :
    Prop where
  consistent : Consistent northbound db
  covered : ∀ p ∈ db typeLogicalSwitchPort,
    p.uuid ∉ (start typeLogicalSwitchPort).map Row.uuid → ∃ nic ∈ nics, Accounts db ns nic p

section Ported

variable {start db db' : Database} {ns : String} {nics nics' : List NetworkAttachment}
  {nic nic' : NetworkAttachment} {p p' : Row}

/-- The NIC has the network and the port ID of the other one. -/
def Resembles (nic nic' : NetworkAttachment) : Prop := nic'.name = nic.name ∧ nic'.ovnId = nic.ovnId

theorem Accounts.of_resembles (h : Accounts db ns nic p) (hr : Resembles nic nic') :
    Accounts db ns nic' p := by
  obtain ⟨network, hn, hid, hall⟩ := h
  exact ⟨network, hr.1.trans hn, hr.2.trans hid, hall⟩

/-- The port keeps its name, and comes to no other switch. -/
theorem Accounts.keep (h : Accounts db ns nic p) (hu : p'.uuid = p.uuid)
    (hn : rowText p' "name" = rowText p "name") (hholds : ∀ u, Holds db' u p.uuid → Holds db u p.uuid)
    (hswitch : ∀ name, switchOf db' name = switchOf db name) : Accounts db' ns nic p' := by
  obtain ⟨network, hname, hid, hall⟩ := h
  refine ⟨network, hname, hn ▸ hid, fun u hv => ?_⟩
  rw [hu] at hv
  rw [hswitch]
  exact hall u (hholds u hv)

theorem Ported.refl (hc : Consistent northbound start) : Ported start ns nics start :=
  ⟨hc, fun _ hp hne => absurd (List.mem_map_of_mem hp) hne⟩

/-- Only NICs with the ID of a new port count. -/
theorem Ported.mono (h : Ported start ns nics db)
    (hsub : ∀ p ∈ db typeLogicalSwitchPort, p.uuid ∉ (start typeLogicalSwitchPort).map Row.uuid →
      ∀ nic ∈ nics, Accounts db ns nic p → ∃ nic' ∈ nics', Resembles nic nic') :
    Ported start ns nics' db := by
  refine ⟨h.consistent, fun p hp hne => ?_⟩
  obtain ⟨nic, hnic, ha⟩ := h.covered p hp hne
  obtain ⟨nic', hnic', hr⟩ := hsub p hp hne nic hnic ha
  exact ⟨nic', hnic', ha.of_resembles hr⟩

theorem Ported.subset (h : Ported start ns nics db) (hsub : ∀ nic ∈ nics, nic ∈ nics') :
    Ported start ns nics' db :=
  h.mono fun _ _ _ nic hnic _ => ⟨nic, hsub nic hnic, rfl, rfl⟩

/-- A port changes, but for its name. -/
theorem Ported.setPort {u : String} {f : Row → Row} (h : Ported start ns nics db)
    (hc : Consistent northbound db') (hdb : db' = db.modifyRow typeLogicalSwitchPort u f)
    (huuid : ∀ r, (f r).uuid = r.uuid) (hname : ∀ r, rowText (f r) "name" = rowText r "name") :
    Ported start ns nics db' := by
  have hports : db' typeLogicalSwitchPort =
      (db typeLogicalSwitchPort).map fun r => if r.uuid = u then f r else r := by
    rw [hdb, Database.modifyRow_self]
  have hswitches : db' typeLogicalSwitch = db typeLogicalSwitch := by
    rw [hdb]
    exact Database.modify_of_ne (by decide)
  refine ⟨hc, fun p hp hne => ?_⟩
  rw [hports] at hp
  obtain ⟨p₀, hp₀, rfl⟩ := List.mem_map.mp hp
  have hu : (if p₀.uuid = u then f p₀ else p₀).uuid = p₀.uuid := by
    split
    · exact huuid p₀
    · rfl
  have hn : rowText (if p₀.uuid = u then f p₀ else p₀) "name" = rowText p₀ "name" := by
    split
    · exact hname p₀
    · rfl
  rw [hu] at hne
  obtain ⟨nic, hnic, ha⟩ := h.covered p₀ hp₀ hne
  refine ⟨nic, hnic, ha.keep hu hn (fun u hv => ?_) fun name => uuidOf_congr hswitches⟩
  unfold Holds at hv ⊢
  rwa [hswitches] at hv

/-- What happens outside. -/
theorem Ported.happen {s t : World} {e : WorldEvent} (h : Ported start ns nics s.northbound)
    (he : s.happen e = some t) : Ported start ns nics t.northbound := by
  rcases northbound_happen he with ht | ⟨port, address, ht⟩
  · rw [ht]
    exact h
  · exact h.setPort (consistent_happen he h.consistent) ht (fun _ => rfl)
      fun r => rowText_modify_of_ne (by decide)

/-- A new port of a NIC comes to the first switch of its network. -/
theorem Ported.addPort {L row : Row} {network : String} (h : Ported start ns nics db)
    (hc : Consistent northbound db') (hnic : nic ∈ nics) (hname : nic.name = some network)
    (hid : nic.ovnId = some (rowText row "name"))
    (hL : named db typeLogicalSwitch (ns ++ "-" ++ network) = some L)
    (hfresh : Fresh db row.uuid)
    (hdb : db' = (db.modify typeLogicalSwitchPort fun rows => rows ++ [row]).modifyRow
      typeLogicalSwitch L.uuid (addRefs "ports" [row.uuid])) : Ported start ns nics db' := by
  have hswitches : db' typeLogicalSwitch = (db typeLogicalSwitch).map
      fun r => if r.uuid = L.uuid then addRefs "ports" [row.uuid] r else r := by
    rw [hdb, Database.modifyRow_self, Database.modify_of_ne (by decide)]
  have hports : db' typeLogicalSwitchPort = db typeLogicalSwitchPort ++ [row] := by
    rw [hdb]
    unfold Database.modifyRow
    rw [Database.modify_of_ne (by decide), Database.modify_self]
  have hswitch : ∀ name, switchOf db' name = switchOf db name := by
    refine fun name => uuidOf_map hswitches (fun r _ => ?_) fun r _ => ?_
    · split <;> rfl
    · split
      · exact rowText_modify_of_ne (by decide)
      · rfl
  -- Only the new port comes to a switch, and to this one.
  have hholds : ∀ u v, Holds db' u v → Holds db u v ∨ (v = row.uuid ∧ u = L.uuid) := by
    rintro u v ⟨r, hr, rfl, hv⟩
    rw [hswitches] at hr
    obtain ⟨r₀, hr₀, rfl⟩ := List.mem_map.mp hr
    split at hv
    · next hu =>
      rw [if_pos hu]
      rcases of_mem_refs_addRefs hv with hv | hv
      · exact .inl ⟨r₀, hr₀, rfl, hv⟩
      · exact .inr ⟨List.mem_singleton.mp hv, hu⟩
    · next hu =>
      rw [if_neg hu]
      exact .inl ⟨r₀, hr₀, rfl, hv⟩
  have hnew : row.uuid ∉ (db typeLogicalSwitchPort).map Row.uuid :=
    hfresh _ ⟨_, .head _, .inr rfl⟩
  refine ⟨hc, fun p hp hne => ?_⟩
  rw [hports] at hp
  rcases List.mem_append.mp hp with hp | hp
  · obtain ⟨nic, hnic, ha⟩ := h.covered p hp hne
    refine ⟨nic, hnic, ha.keep rfl rfl (fun u hv => ?_) hswitch⟩
    rcases hholds u _ hv with hv | ⟨hv, -⟩
    · exact hv
    · exact absurd (hv ▸ List.mem_map_of_mem hp) hnew
  · obtain rfl := List.mem_singleton.mp hp
    refine ⟨nic, hnic, network, hname, hid, fun u hv => ?_⟩
    rcases hholds u _ hv with hv | ⟨-, rfl⟩
    · obtain ⟨q, hq, hqu⟩ := exists_port h.consistent hv
      exact absurd (hqu ▸ List.mem_map_of_mem hq) hnew
    · rw [hswitch]
      unfold switchOf uuidOf
      rw [hL]
      rfl

/-- A NIC whose port is not there has no new port. -/
theorem Ported.skip {id : String} (h : Ported start ns (nic :: nics) db) (hid : nic.ovnId = some id)
    (hn : named db typeLogicalSwitchPort id = none) : Ported start ns nics db := by
  refine h.mono fun p hp _ e he ha => ?_
  rcases List.mem_cons.mp he with rfl | he
  · obtain ⟨network, -, hid', -⟩ := ha
    cases hid.symm.trans hid'
    exact absurd rfl (firstWith_none.mp hn p hp)
  · exact ⟨e, he, rfl, rfl⟩

/-- The port of a NIC is taken from a switch. -/
theorem Ported.dropRef {u v : String} (h : Ported start ns nics db)
    (hc : Consistent northbound
      ((db.modifyRow typeLogicalSwitch u (dropRefs "ports" [v])).sweep northbound)) :
    Ported start ns nics ((db.modifyRow typeLogicalSwitch u (dropRefs "ports" [v])).sweep northbound) := by
  refine ⟨hc, fun p hp hne => ?_⟩
  obtain ⟨nic, hnic, ha⟩ := h.covered p ((mem_ports_dropped hc).mp hp).1 hne
  exact ⟨nic, hnic, ha.keep rfl rfl (fun u hv => (holds_dropped.mp hv).1) fun _ => switchOf_dropped⟩

/-- The port of a NIC is taken from the switch of its network: nothing is left of the NIC. -/
theorem Ported.drop {id network : String} {L q : Row} (h : Ported start ns (nic :: nics) db)
    (hname : nic.name = some network) (hid : nic.ovnId = some id)
    (hq : named db typeLogicalSwitchPort id = some q)
    (hL : named db typeLogicalSwitch (ns ++ "-" ++ network) = some L)
    (hc : Consistent northbound
      ((db.modifyRow typeLogicalSwitch L.uuid (dropRefs "ports" [q.uuid])).sweep northbound)) :
    Ported start ns nics
      ((db.modifyRow typeLogicalSwitch L.uuid (dropRefs "ports" [q.uuid])).sweep northbound) := by
  refine ⟨hc, fun p hp hne => ?_⟩
  obtain ⟨hp₀, u, hu⟩ := (mem_ports_dropped hc).mp hp
  obtain ⟨hu, hdropped⟩ := holds_dropped.mp hu
  obtain ⟨e, he, ha⟩ := h.covered p hp₀ hne
  rcases List.mem_cons.mp he with rfl | he
  · -- The port of this NIC would still be on the switch that it was taken from.
    obtain ⟨network', hname', hid', hall⟩ := ha
    cases hname.symm.trans hname'
    have hqp : q = p := by
      have hp' := (named_port_iff h.consistent).mpr ⟨hp₀, rfl⟩
      rw [← Option.some.inj (hid.symm.trans hid'), hq] at hp'
      exact Option.some.inj hp'
    have hswitch : switchOf db (ns ++ "-" ++ network) = some L.uuid := by
      unfold switchOf uuidOf
      rw [hL]
      rfl
    refine absurd ⟨?_, congrArg Row.uuid hqp.symm⟩ hdropped
    exact Option.some.inj ((hall u hu).symm.trans hswitch)
  · exact ⟨e, he, ha.keep rfl rfl (fun u hv => (holds_dropped.mp hv).1) fun _ => switchOf_dropped⟩

end Ported

/-! ## What the controller does to ports -/

section Nics

variable {ok : (r : Request) → r.Answer → Prop} {w : Worker} {s : World} {start : Database}
  {vm : VirtualMachine} {nics : List NetworkAttachment} {nic : NetworkAttachment}

/-- Only the database changes, and its ports belong to the NICs. -/
def Porting (start : Database) (ns : String) (nics : List NetworkAttachment) (s t : World) : Prop :=
  t.kube = s.kube ∧ Ported start ns nics t.northbound

theorem porting_connectVmNic (h : Ported start vm.metadata.ns nics s.northbound) (hnic : nic ∈ nics) :
    After (answering ok w) (connectVmNic vm nic) s fun _ t =>
      Porting start vm.metadata.ns nics s t := by
  have h₀ : Porting start vm.metadata.ns nics s s := ⟨rfl, h⟩
  unfold connectVmNic
  cases hname : nic.name with
  | none => exact after_abort h₀
  | some network =>
    cases nic.macAddress with
    | none => exact after_abort h₀
    | some mac =>
      show After _ (getByName LogicalSwitch (vm.metadata.ns ++ "-" ++ network) >>= _) s _
      refine (reads_getByName LogicalSwitch h.consistent _).after (fun ls hls => ?_) (fun _ _ => h₀)
        fun _ _ => h₀
      unfold foundByName at hls
      split at hls
      · next L hL =>
        cases hls
        cases hid : nic.ovnId with
        | none => exact after_abort h₀
        | some id =>
          show After _ (LogicalSwitchPort.createIfMissing (OvnRow.ofRow L) id [] >>= _) s _
          have hdhcp : ∀ (lsp : LogicalSwitchPort) cidr t, Porting start vm.metadata.ns nics s t →
              After (answering ok w) (lsp.setDhcpOptions cidr) t fun _ t =>
                Porting start vm.metadata.ns nics s t := by
            intro lsp cidr t ht
            rw [← Program.bind_ret (lsp.setDhcpOptions cidr)]
            refine after_setDhcpOptions ht.2.consistent (fun d db _ hcons hdb => after_ret ?_)
              (fun _ => ht) fun _ _ => ht
            exact ⟨ht.1, ht.2.setPort hcons hdb (fun _ => Row.uuid_write)
              fun _ => rowText_write_of_not_mem (by simp)⟩
          have hrest : ∀ (rest : Network → Prog Unit),
              (∀ v t, Porting start vm.metadata.ns nics s t →
                After (answering ok w) (rest v) t fun _ t => Porting start vm.metadata.ns nics s t) →
              ∀ (lsp : LogicalSwitchPort) (ip : IpConfiguration) t,
              Porting start vm.metadata.ns nics s t →
              After (answering ok w) (do
                lsp.setAddress mac ip
                let network ← kubeGet .network ⟨vm.metadata.ns, network⟩
                rest network) t fun _ t => Porting start vm.metadata.ns nics s t := by
            intro rest hrest lsp ip t ht
            refine after_setAddress ht.2.consistent
              (after_kubeGet (fun v _ => hrest v _ ht) fun _ _ => ht) (fun db hcons hdb => ?_)
              (fun _ => ht) fun _ _ => ht
            have ht' : Porting start vm.metadata.ns nics s (t.setNorthbound db) :=
              ⟨ht.1, ht.2.setPort hcons hdb (fun _ => Row.uuid_write)
                fun _ => rowText_write_of_not_mem (by simp)⟩
            exact after_kubeGet (fun v _ => hrest v _ ht') fun _ _ => ht'
          refine after_createPlainPort (List.mem_map_of_mem (firstWith_some hL).1) h.consistent
            (fun r _ => hrest _ (fun v t ht => ?_) _ _ s h₀) (fun u db _ hfresh hcons hdb => ?_) fun _ _ => h₀
          · split
            · exact hdhcp _ _ t ht
            · exact after_ret ht
          have hnew : rowText (newRow typeLogicalSwitchPort u (plainPort id)) "name" = id :=
            rowText_of_get (get_write_self rfl (by simp))
          have hadded : db = (s.northbound.modify typeLogicalSwitchPort fun rows =>
              rows ++ [newRow typeLogicalSwitchPort u (plainPort id)]).modifyRow typeLogicalSwitch
                L.uuid (addRefs "ports" [(newRow typeLogicalSwitchPort u (plainPort id)).uuid]) := by
            rwa [uuid_newRow]
          have h₁ : Porting start vm.metadata.ns nics s (s.setNorthbound db) := by
            refine ⟨rfl, h.addPort hcons hnic hname ?_ hL ?_ hadded⟩
            · rw [hnew, hid]
            · rwa [uuid_newRow]
          exact ⟨fun _ _ => h₁, hrest _ (fun v t ht => by
            split
            · exact hdhcp _ _ t ht
            · exact after_ret ht) _ _ _ h₁⟩
      · cases hls

theorem porting_updateVmNic (h : Ported start vm.metadata.ns nics s.northbound) (hnic : nic ∈ nics) :
    After (answering ok w) (updateVmNic vm nic) s fun _ t =>
      Porting start vm.metadata.ns nics s t := by
  refine (porting_connectVmNic h hnic).then (fun _ t ht => ?_) fun _ _ ht => ht
  split
  · exact (reads_getByName LogicalSwitchPort ht.2.consistent _).after (fun _ _ => after_ret ht)
      (fun _ _ => ht) fun _ _ => ht
  · exact after_ret ht

/-- The NICs whose ports are removed are those with an ID. -/
theorem mem_getVmOvnNics {v : VirtualMachine} :
    nic ∈ getVmOvnNics v ↔ ∃ st, v.status = some st ∧ nic ∈ st.networks ∧ nic.ovnId.isSome = true := by
  unfold getVmOvnNics
  cases v.status with
  | none => simp
  | some st => simp

/-- The removal of the ports of some NICs. It brings no port. When it returns `Ok`, none of the NICs
has one left. -/
theorem porting_disconnectAll {covering : List NetworkAttachment}
    (hcov : Ported start vm.metadata.ns covering s.northbound)
    (h : Ported start vm.metadata.ns nics s.northbound) (hids : ∀ nic ∈ nics, nic.ovnId.isSome = true) :
    After (answering ok w) (Program.forEach nics (disconnectVmNic vm)) s fun o t =>
      Porting start vm.metadata.ns covering s t ∧
        (o = .ok () → Ported start vm.metadata.ns [] t.northbound) := by
  induction nics generalizing s with
  | nil => exact after_ret ⟨⟨rfl, hcov⟩, fun _ => h⟩
  | cons nic nics ih =>
    obtain ⟨id, hid⟩ := Option.isSome_iff_exists.mp (hids nic List.mem_cons_self)
    have hfirst : After (answering ok w) (disconnectVmNic vm nic) s fun o t =>
        Porting start vm.metadata.ns covering s t ∧
          (o = .ok () → Ported start vm.metadata.ns nics t.northbound) := by
      cases hname : nic.name with
      | none =>
        unfold disconnectVmNic
        rw [hname]
        exact after_abort ⟨⟨rfl, hcov⟩, nofun⟩
      | some network =>
        refine after_disconnectVmNic h.consistent hname hid
          (fun hp => ⟨⟨rfl, hcov⟩, fun _ => h.skip hid hp⟩)
          (fun _ _ _ _ => ⟨⟨rfl, hcov⟩, nofun⟩) (fun p r db hp hr hcons hdb => ?_) ?_
        · subst hdb
          exact ⟨⟨rfl, hcov.dropRef hcons⟩, fun _ => h.drop hname hid hp hr hcons⟩
        · rintro o ⟨-, m, rfl⟩
          exact ⟨⟨rfl, hcov⟩, nofun⟩
    refine hfirst.bind (fun _ t ht => ?_) (fun _ t ht => ⟨ht.1, nofun⟩) fun _ t ht => ⟨ht.1, nofun⟩
    refine (ih ht.1.2 (ht.2 rfl) fun e he => hids e (List.mem_cons_of_mem _ he)).mono ?_
    rintro o u ⟨⟨hkube, hported⟩, hgone⟩
    exact ⟨⟨hkube.trans ht.1.1, hported⟩, hgone⟩

end Nics

/-! ## What a fill keeps -/

/-- The status records a NIC on the network with the port ID. -/
def Records (nics : List NetworkAttachment) (network id : String) : Prop :=
  ∃ nic ∈ nics, nic.name = some network ∧ nic.ovnId = some id

/-- `fill_nics` gets through: every NIC has a bridge, or a network that exists. -/
def Fillable (s : World) (v : VirtualMachine) : Prop :=
  ∀ nicSpec ∈ v.spec.networks, match nicSpec.name with
    | some network => ((s.kube .network).find? ⟨v.metadata.ns, network⟩).isSome = true
    | none => nicSpec.bridge.isSome = true

/-- The port ID that a NIC has after a fill, if it has been recorded. -/
def refilledId (s : World) (ns : String) (nicSpec found : NetworkAttachment) : Option String :=
  match nicSpec.name.bind fun network => (s.kube .network).find? ⟨ns, network⟩ with
  | some network =>
    if network.spec.networkType = some .evpn then found.ovnId else nicSpec.ovnId.or found.ovnId
  | none => found.ovnId

/-- Some NIC of the spec takes over the entry and its port ID, and the spec has the network. -/
def KeepsNic (s : World) (v : VirtualMachine) (network id : String) : Prop :=
  (∃ nicSpec ∈ v.spec.networks, ∃ found,
    findMatchingNetwork (recordedNics v) nicSpec = .ok (some found) ∧
      found.name = some network ∧ refilledId s v.metadata.ns nicSpec found = some id) ∧
    ∃ nicSpec ∈ v.spec.networks, nicSpec.name = some network

section Fill

variable [Crates] {s : World} {v : VirtualMachine} {network id : String}

theorem FilledNic.refilled {ns vmName : String} {old : List NetworkAttachment}
    {nicSpec nic found : NetworkAttachment} {index : Nat} {drawn : Option String}
    (h : FilledNic s ns vmName old nicSpec index drawn nic)
    (hfound : findMatchingNetwork old nicSpec = .ok (some found))
    (hid : refilledId s ns nicSpec found = some id) :
    nic.name = found.name ∧ nic.ovnId = some id := by
  obtain ⟨⟨found', entry, hfound', hmac, hfrom⟩⟩ := h
  cases hfound.symm.trans hfound'
  obtain ⟨hentry, -, -⟩ := fillMac_ok hmac
  have hname : entry.name = found.name := by
    rw [hentry]
    rfl
  have hovn : entry.ovnId = found.ovnId := by
    rw [hentry]
    rfl
  unfold refilledId at hid
  cases hfrom with
  | unmanaged hn =>
    rw [hn] at hid
    exact ⟨hname, hovn.trans hid⟩
  | evpn hn hf ht =>
    simp only [hn, Option.bind_some, hf, if_pos ht] at hid
    exact ⟨hname, hovn.trans hid⟩
  | given hn hf ht hg =>
    simp only [hn, Option.bind_some, hf, if_neg ht, hg, Option.some_or] at hid
    exact ⟨hname, hid⟩
  | kept hn hf ht hg he =>
    simp only [hn, Option.bind_some, hf, if_neg ht, hg, Option.none_or] at hid
    exact ⟨hname, hovn.trans hid⟩
  | drawn x hn hf ht hg he =>
    simp only [hn, Option.bind_some, hf, if_neg ht, hg, Option.none_or, ← hovn, he] at hid
    cases hid

/-- What a fill has computed shows that it gets through. -/
theorem Computed.fillable {w : Worker} {t : World} {all kept : List NetworkAttachment}
    (h : Computed (Served w) v s all kept t) : Fillable s v := by
  intro nicSpec hspec
  obtain ⟨i, hi⟩ := List.mem_iff_getElem?.mp hspec
  obtain ⟨r, drawn, -, ⟨found, entry, hfound, -, hfrom⟩⟩ := h.filledAt (watches_served w) hi
  cases hn : nicSpec.name with
  | none =>
    cases hb : nicSpec.bridge with
    | none =>
      unfold findMatchingNetwork at hfound
      simp [hn, hb] at hfound
    | some bridge => rfl
  | some name =>
    cases hfrom with
    | unmanaged hn' => cases hn.symm.trans hn'
    | evpn hn' hf _ => cases hn.symm.trans hn'; exact Option.isSome_of_eq_some hf
    | given hn' hf _ _ => cases hn.symm.trans hn'; exact Option.isSome_of_eq_some hf
    | kept hn' hf _ _ _ => cases hn.symm.trans hn'; exact Option.isSome_of_eq_some hf
    | drawn _ hn' hf _ _ _ => cases hn.symm.trans hn'; exact Option.isSome_of_eq_some hf

/-- An entry that is kept is recorded again. -/
theorem Computed.records {w : Worker} {t : World} {all kept : List NetworkAttachment}
    (h : Computed (Served w) v s all kept t) (hkeep : KeepsNic s v network id) :
    Records kept network id := by
  obtain ⟨⟨nicSpec, hspec, found, hfound, hname, hid⟩, hnamed⟩ := hkeep
  obtain ⟨i, hi⟩ := List.mem_iff_getElem?.mp hspec
  obtain ⟨r, drawn, hr, hfilled⟩ := h.filledAt (watches_served w) hi
  have hr := List.mem_of_getElem? hr
  obtain ⟨hrn, hri⟩ := hfilled.refilled hfound hid
  exact ⟨r, mem_of_retainNics h.retained hr (hrn.trans hname) hnamed, hrn.trans hname, hri⟩

end Fill

/-! ## Writes that keep what is recorded -/

/-- The VM is stored with its finalizers, and still records the port IDs that are to stay. -/
def Retained (v : VirtualMachine) (stays : String → String → Prop) (s : World) : Prop :=
  ∃ v', s.vms.find? v.key = some v' ∧ v'.isDeleted = false ∧
    v'.metadata.finalizers = v.metadata.finalizers ∧ ∀ network id,
      Records (recordedNics v) network id → stays network id → Records (recordedNics v') network id

/-- The request writes no VM, or this one with its finalizers and the port IDs that are to stay. -/
inductive Modest (v : VirtualMachine) (stays : String → String → Prop) : Request → Prop
  | other {r : Request} : r.writerOfVm = none → Modest v stays r
  | whole {n : VirtualMachine} {writer : Writer} : n.key = v.key →
      n.metadata.finalizers = v.metadata.finalizers →
      Modest v stays (.kube (.replace .virtualMachine n writer))
  | status {version : Nat} {st : VirtualMachineStatus} {writer : Writer} :
      (∀ network id, Records (recordedNics v) network id → stays network id →
        Records st.networks network id) →
      Modest v stays (.kube (.replaceStatus .virtualMachine v.key version st writer))

section Modest

variable {w : Worker} {s t : World} {v n : VirtualMachine} {stays : String → String → Prop}
  {α : Type}

/-- A write of the stored VM, which is not deleted. -/
theorem Retained.settle {stored : VirtualMachine} (hs : s.vms.find? v.key = some stored)
    (halive : stored.isDeleted = false) (hk : n.key = v.key) (hd : n.isDeleted = false)
    (hf : n.metadata.finalizers = v.metadata.finalizers)
    (hrec : ∀ network id, Records (recordedNics v) network id → stays network id →
      Records (recordedNics n) network id) :
    Retained v stays (s.setKube .virtualMachine (s.vms.settle stored n).2) := by
  have hkey : stored.key = v.key := Collection.key_of_find? hs
  have hvms : (s.setKube .virtualMachine (s.vms.settle stored n).2).vms = (s.vms.settle stored n).2 :=
    World.kube_setKube_self
  unfold Retained
  rw [hvms]
  rcases Collection.find?_settle (hkey.symm ▸ hs) (hk.trans hkey.symm) hd with
    ⟨rfl, he⟩ | ⟨-, -, he, -⟩
  · rw [he]
    exact ⟨n, hs, halive, hf, hrec⟩
  · rw [hkey] at he
    exact ⟨_, he, hd, hf, hrec⟩

theorem Retained.served {r : Request} {a : r.Answer} (h : Retained v stays s) (hr : Modest v stays r)
    (hx : Served w s r a t) : Retained v stays t := by
  obtain ⟨v', hv', halive, hf, hrec⟩ := h
  cases hr with
  | other hr =>
    obtain ⟨x, -, hx⟩ := hx
    unfold Retained
    rw [World.answer_vms hr hx]
    exact ⟨v', hv', halive, hf, hrec⟩
  | @whole n writer hk hn =>
    obtain ⟨x, hx⟩ := served_kube hx
    have hstore : s.store .virtualMachine (s.vms.replace n) = (a, t) := hx
    cases hrep : s.vms.replace n with
    | error e =>
      rw [hrep] at hstore
      cases hstore
      exact ⟨v', hv', halive, hf, hrec⟩
    | ok p =>
      rw [hrep] at hstore
      cases hstore
      obtain ⟨stored, hs, -, -, hset⟩ := Collection.replace_ok hrep
      rw [hk, hv'] at hs
      cases hs
      rw [congrArg Prod.snd hset]
      exact Retained.settle hv' halive hk halive hn hrec
  | @status version st writer hst =>
    obtain ⟨x, hx⟩ := served_kube hx
    have hstore : s.store .virtualMachine (s.vms.replaceStatus v.key version st) = (a, t) := hx
    cases hrep : s.vms.replaceStatus v.key version st with
    | error e =>
      rw [hrep] at hstore
      cases hstore
      exact ⟨v', hv', halive, hf, hrec⟩
    | ok p =>
      rw [hrep] at hstore
      cases hstore
      obtain ⟨stored, hs, -, hset⟩ := Collection.replaceStatus_ok hrep
      rw [hv'] at hs
      cases hs
      rw [congrArg Prod.snd hset]
      exact Retained.settle hv' halive (Collection.key_of_find? hv' : v'.key = v.key) halive hf hst

theorem ends_modest {p : Prog α} {done : α → Prop} {o : Outcome Error α}
    (hp : p.Within (Modest v stays) done) (h : Retained v stays s) (hends : p.Ends (Served w) s o t) :
    Retained v stays t ∧ ∀ a, o = .ok a → done a :=
  hp.ends_invariant (I := Retained v stays) (fun _ _ _ _ hr hs hx => hs.served hr hx) h hends

theorem IsQuiet.modest {p : Prog α} (h : IsQuiet p) : p.Within (Modest v stays) fun _ => True :=
  h.mono (fun _ hr => .other (writerOfVm_of_quiet hr)) fun _ h => h

theorem modest_commit {writer : Writer} (hk : n.key = v.key)
    (hf : n.metadata.finalizers = v.metadata.finalizers) :
    (commit n writer).Within (Modest v stays) fun _ => True := by
  refine ⟨.whole hk hf, fun x => ?_⟩
  cases x <;> trivial

theorem modest_setStatus {st : VirtualMachineStatus} {writer : Writer} (hk : n.key = v.key)
    (hst : ∀ network id, Records (recordedNics v) network id → stays network id →
      Records st.networks network id) :
    (setStatus n st writer).Within (Modest v stays) fun _ => True := by
  unfold setStatus
  rw [hk]
  refine ⟨.status hst, fun x => ?_⟩
  cases x <;> trivial

theorem modest_onlyIf {c : Prop} [Decidable c] {p : Prog Unit}
    (hp : p.Within (Modest v stays) fun _ => True) :
    (onlyIf c p).Within (Modest v stays) fun _ => True := by
  unfold onlyIf
  split
  · exact hp
  · trivial

/-- The copy differs from the VM in nothing that matters here. -/
structure Matching (n v : VirtualMachine) : Prop where
  key : n.key = v.key
  finalizers : n.metadata.finalizers = v.metadata.finalizers
  status : n.status = v.status

variable [Crates]

omit [Crates] in
theorem modest_clearSuccessfulMigration (hn : Matching n v) :
    (clearSuccessfulMigration n).Within (Modest v stays) fun _ => True := by
  unfold clearSuccessfulMigration
  split
  · exact modest_onlyIf (modest_commit hn.key hn.finalizers)
  · trivial

omit [Crates] in
theorem modest_schedulingAndMigrations (hn : Matching n v) :
    (schedulingAndMigrations n).Within (Modest v stays) fun _ => True := by
  have hrecorded : ∀ st, n.status = some st → recordedNics v = st.networks := by
    intro st hst
    unfold recordedNics
    rw [← hn.status, hst]
    rfl
  have hstatus : (Program.ofExcept (tryStatus n) : Prog VirtualMachineStatus).Within (Modest v stays)
      fun st => recordedNics v = st.networks := by
    refine Program.within_ofExcept fun st hst => hrecorded st ?_
    unfold tryStatus at hst
    cases h : n.status with
    | none =>
      rw [h] at hst
      cases hst
    | some st' =>
      rw [h] at hst
      cases hst
      rfl
  refine .bind hstatus fun st hst => .bind (quiet_isUncompliant _).modest fun uncompliant _ =>
    .bind (modest_onlyIf ?_) fun _ _ => modest_clearSuccessfulMigration hn
  have hplace : (placeVm n st (migrationRequested n)).Within (Modest v stays) fun _ => True := by
    refine .bind (IsQuiet.modest ((scheduleOrBypass_pinned n _).mono (fun _ h => h) fun _ _ => trivial))
      fun node _ => modest_setStatus hn.key fun network id hrec _ => ?_
    rwa [hst] at hrec
  refine .bind (quiet_ask (r := .lockSchedule) trivial).modest fun _ _ =>
    .bind hplace.attempt fun result _ => .bind (quiet_ask (r := .unlockSchedule) trivial).modest
      fun _ _ => (quiet_ofExcept result).modest

omit [Crates] in
theorem modest_fillUuid : (fillUuid v).Within (Modest v stays) fun n => Matching n v := by
  unfold fillUuid
  split
  · refine .bind (quiet_ask (r := .newV4) trivial).modest fun id _ =>
      .bind (modest_commit rfl rfl) fun _ _ => ?_
    exact ⟨rfl, rfl, rfl⟩
  · exact ⟨rfl, rfl, rfl⟩

/-- A reconcile of the VM controller keeps the port IDs that the fill keeps, if it gets through. -/
theorem retained_createVm {o : Outcome Error Unit} (hs : s.vms.find? v.key = some v)
    (halive : v.isDeleted = false) (h : (createVm v).Ends (Served w) s o t) :
    Retained v (fun network id => Fillable s v → KeepsNic s v network id) t := by
  have h₀ : Retained v (fun network id => Fillable s v → KeepsNic s v network id) s :=
    ⟨v, hs, halive, rfl, fun _ _ hr _ => hr⟩
  unfold createVm initializeStatus at h
  cases hst : v.status with
  | none =>
    have hnone : recordedNics v = [] := by
      unfold recordedNics
      rw [hst]
      rfl
    have hall : ∀ l network id, Records (recordedNics v) network id → Records l network id := by
      rw [hnone]
      rintro l network id ⟨nic, hnic, -⟩
      cases hnic
    have hinit : (onlyIf (v.status = none)
        (setStatus v (initialStatus (namePrefixedWithNamespace v.key)) .initializeStatus)).Within
        (Modest v fun network id => Fillable s v → KeepsNic s v network id) fun _ => True :=
      modest_onlyIf (modest_setStatus rfl fun network id hr _ => hall _ network id hr)
    have hfill : (fillNics v).Within
        (Modest v fun network id => Fillable s v → KeepsNic s v network id) fun _ => True := by
      unfold fillNics tryStatus
      rw [hst]
      trivial
    refine (ends_modest (.bind hinit fun _ _ => .bind hfill fun _ _ => .bind modest_fillUuid
      fun n hn => modest_schedulingAndMigrations hn) h₀ h).1
  | some st =>
    have hinit : onlyIf (v.status = none)
        (setStatus v (initialStatus (namePrefixedWithNamespace v.key)) .initializeStatus) =
          Program.ret () := if_neg (by rw [hst]; exact nofun)
    rw [hinit] at h
    change (fillNics v >>= fun _ => fillUuid v >>= schedulingAndMigrations).Ends _ _ _ _ at h
    have hfill : ∀ o u, (fillNics v).Ends (Served w) s o u →
        Retained v (fun network id => Fillable s v → KeepsNic s v network id) u := by
      intro o u hu
      rcases ends_fillNics (watches_served w) hu with ⟨rfl, -⟩ | ⟨st, all, kept, a, -, hc, rfl, hsave⟩
      · exact h₀
      · refine (ends_modest (.bind (modest_onlyIf (modest_setStatus rfl ?_)) fun _ _ =>
          modest_commit rfl rfl) h₀ hsave).1
        exact fun network id _ hkeep => hc.records (hkeep hc.fillable)
    rcases ends_bind.mp h with ⟨_, u, hu, hrest⟩ | ⟨e, he, -⟩ | ⟨m, hm, -⟩
    · exact (ends_modest (.bind modest_fillUuid fun n hn => modest_schedulingAndMigrations hn)
        (hfill _ u hu) hrest).1
    · exact hfill _ t he
    · exact hfill _ t hm

end Modest

/-! ## Reconciles -/

/-- The VM is stored with the finalizer, and the ports that have come belong to the NICs that it
records. -/
def Held (start : Database) (k : Key) (s : World) : Prop :=
  ∃ v : Object .virtualMachine, s.vms.find? k = some v ∧
    hasFinalizer v (finalizerName "ovn") = true ∧
    Ported start k.ns (recordedNics v) s.northbound

/-- No port has come, or the VM is held. -/
def Accounted (start : Database) (k : Key) (s : World) : Prop :=
  Ported start k.ns [] s.northbound ∨ Held start k s

/-- A fill that gets through keeps every recorded NIC that has a port since the start. -/
def FillKeeps (start : Database) (s : World) (v : VirtualMachine) : Prop :=
  ∀ p ∈ s.northbound typeLogicalSwitchPort, p.uuid ∉ (start typeLogicalSwitchPort).map Row.uuid →
    ∀ network, Records (recordedNics v) network (rowText p "name") → Fillable s v →
      KeepsNic s v network (rowText p "name")

section Accounted

variable {w : Worker} {start : Database} {s t : World} {v : VirtualMachine} {k : Key}
  {o : Outcome Error Unit}

theorem Accounted.congr (h : Accounted start k s) (hvms : t.vms = s.vms)
    (hdb : t.northbound = s.northbound) : Accounted start k t := by
  unfold Accounted Held
  rw [hvms, hdb]
  exact h

theorem Accounted.covered (h : Accounted start k s) (hs : s.vms.find? k = some v) :
    Ported start k.ns (recordedNics v) s.northbound := by
  rcases h with h | ⟨v', hv', -, h⟩
  · exact h.subset nofun
  · cases hs.symm.trans hv'
    exact h

/-- An act of a user leaves status and finalizers. -/
theorem Accounted.happen {e : WorldEvent} (h : Accounted start k s) (he : s.happen e = some t) :
    Accounted start k t := by
  rcases h with h | ⟨v, hv, hf, h⟩
  · exact .inl (h.happen he)
  · rcases World.happen_vms he with ht | ⟨k', labels, annotations, spec, -, hnone, ht⟩ |
      ⟨old, n, htouch, hch⟩
    · exact .inr ⟨v, ht ▸ hv, hf, h.happen he⟩
    · have hne : k ≠ k' := by
        rintro rfl
        cases hnone.symm.trans hv
      refine .inr ⟨v, ?_, hf, h.happen he⟩
      rw [ht]
      exact (Collection.find?_record_of_ne hne).trans hv
    · by_cases hk : k = old.key
      · have hold : s.vms.find? old.key = some old := hch.key_eq ▸ hch.find?_old
        obtain rfl : old = v := Option.some.inj (hold.symm.trans (hk ▸ hv))
        rcases hch.find?_new with hn | ⟨-, -, hnil⟩
        · refine .inr ⟨_, hk ▸ hn, ?_, ?_⟩
          · unfold hasFinalizer at hf ⊢
            rwa [← htouch.finalizers] at hf
          · have hrec : recordedNics (s.vms.stamp n) = recordedNics old :=
              congrArg (fun st => (Option.map VirtualMachineStatus.networks st).getD []) htouch.status
            rw [hrec]
            exact h.happen he
        · have hnil : n.metadata.finalizers = [] := hnil
          unfold hasFinalizer at hf
          rw [← htouch.finalizers, hnil] at hf
          cases hf
      · exact .inr ⟨v, (hch.find?_of_ne hk).trans hv, hf, h.happen he⟩

/-- The database stays, and the VM keeps the NICs that have a port. -/
theorem Accounted.retained {stays : String → String → Prop} (h : Accounted start v.key s)
    (hs : s.vms.find? v.key = some v) (hdb : t.northbound = s.northbound) (hret : Retained v stays t)
    (hstays : ∀ p ∈ s.northbound typeLogicalSwitchPort,
      p.uuid ∉ (start typeLogicalSwitchPort).map Row.uuid → ∀ network,
        Records (recordedNics v) network (rowText p "name") → stays network (rowText p "name")) :
    Accounted start v.key t := by
  rcases h with h | ⟨v', hv', hf, h⟩
  · exact .inl (hdb ▸ h)
  · cases hs.symm.trans hv'
    obtain ⟨v', hv', -, hfin, hrec⟩ := hret
    refine .inr ⟨v', hv', ?_, ?_⟩
    · unfold hasFinalizer
      rw [hfin]
      exact hf
    · rw [hdb]
      refine h.mono fun p hp hne nic hnic ⟨network, hname, hid, _⟩ => ?_
      have hr : Records (recordedNics v) network (rowText p "name") := ⟨nic, hnic, hname, hid⟩
      obtain ⟨nic', hnic', hname', hid'⟩ := hrec network _ hr (hstays p hp hne network hr)
      exact ⟨nic', hnic', hname'.trans hname.symm, hid'.trans hid.symm⟩

/-- The VM controller touches no port, and the fill keeps the NICs that have one. -/
theorem Accounted.createVm [Crates] (h : Accounted start v.key s) (hs : s.vms.find? v.key = some v)
    (halive : v.isDeleted = false) (hkeep : FillKeeps start s v)
    (hends : (createVm v).Ends (Served w) s o t) : Accounted start v.key t := by
  have hany : (ClusterController.createVm v).Ends (answering anyAnswer w) s o t :=
    hends.mono fun _ _ _ _ he => ⟨he, trivial⟩
  exact h.retained hs (after_aside ((apart_createVm v).mono fun _ => Apart.aside) o t hany).1 (retained_createVm hs halive hends) hkeep

end Accounted

section Finalizer

variable {w : Worker} {s t : World} {κ : Kind} {v : Object κ} {finalizer : String}

/-- The finalizer is registered: the object is stored with it. -/
theorem ends_ensureFinalizer {o : Outcome Error (Object κ)} (hs : (s.kube κ).find? v.key = some v)
    (halive : v.isDeleted = false) (h : (ensureFinalizer v finalizer).Ends (Served w) s o t) :
    t.northbound = s.northbound ∧ ∃ v' stored, o = .ok v' ∧ v'.key = v.key ∧ v'.status = v.status ∧
      (t.kube κ).find? v.key = some stored ∧ stored.isDeleted = false ∧
      hasFinalizer stored (finalizerName finalizer) = true ∧ stored.status = v.status := by
  unfold ensureFinalizer at h
  split at h
  · have hrep := Collection.replace_current hs (n := addFinalizer v (finalizerName finalizer))
      rfl rfl rfl rfl rfl halive
    have hadded : hasFinalizer (addFinalizer v (finalizerName finalizer)) (finalizerName finalizer)
        = true := by
      simp [hasFinalizer, addFinalizer]
    rcases ends_bind.mp h with ⟨_, u, hu, rfl, rfl⟩ | ⟨e, he, -⟩ | ⟨m, hm, -⟩
    · rcases ends_commit hu with ⟨r, c, hr, -, rfl⟩ | ⟨e, he, -, -⟩
      · obtain rfl : _ = c := congrArg Prod.snd (Except.ok.inj (hrep.symm.trans hr))
        refine ⟨rfl, addFinalizer v (finalizerName finalizer), ?_⟩
        rw [World.kube_setKube_self]
        rcases Collection.find?_settle hs (n := addFinalizer v (finalizerName finalizer)) rfl halive
          with ⟨hsame, hc⟩ | ⟨-, -, hfound, -⟩
        · rw [hc]
          exact ⟨v, rfl, rfl, rfl, hs, halive, hsame ▸ hadded, rfl⟩
        · exact ⟨_, rfl, rfl, rfl, hfound, halive, hadded, rfl⟩
      · rw [hrep] at he
        cases he
    · rcases ends_commit he with ⟨r, c, -, ho, -⟩ | ⟨e', he', -, -⟩
      · cases ho
      · rw [hrep] at he'
        cases he'
    · rcases ends_commit hm with ⟨r, c, -, ho, -⟩ | ⟨e', -, ho, -⟩
      · cases ho
      · cases ho
  · next hf =>
    obtain ⟨rfl, rfl⟩ := h
    exact ⟨rfl, v, v, rfl, rfl, rfl, hs, halive, by simpa using hf, rfl⟩

end Finalizer

section Controller

variable {w : Worker} {start : Database} {s t : World} {v : VirtualMachine} {o : Outcome Error Unit}

/-- What makes neither a transaction nor a write of a VM leaves both. -/
theorem ends_ovnTry {o : Outcome Error Unit} (h : ovnTryFromAnnotations.Ends (Served w) s o t) :
    t.vms = s.vms ∧ t.northbound = s.northbound := by
  have hany : ovnTryFromAnnotations.Ends (answering anyAnswer w) s o t :=
    h.mono fun _ _ _ _ he => ⟨he, trivial⟩
  refine ⟨?_, (after_aside aside_ovnTry o t hany).1⟩
  refine (quiet_ovnTryFromAnnotations.ends_invariant (I := fun u => u.vms = s.vms) ?_ rfl h).1
  rintro s₁ r a t₁ hr hs₁ ⟨x, -, hx⟩
  exact (World.answer_vms (writerOfVm_of_quiet hr) hx).trans hs₁

theorem Accounted.updateVm (h : Accounted start v.key s) (hs : s.vms.find? v.key = some v)
    (halive : v.isDeleted = false) (hends : (updateVm v).Ends (Served w) s o t) :
    Accounted start v.key t := by
  unfold ClusterController.updateVm at hends
  rcases ends_bind.mp hends with ⟨_, s₁, htry, hrest⟩ | ⟨e, he, -⟩ | ⟨m, hm, -⟩
  · obtain ⟨hvms₁, hdb₁⟩ := ends_ovnTry htry
    have hs₁ : (s₁.kube .virtualMachine).find? v.key = some v :=
      (congrArg (·.find? v.key) hvms₁).trans hs
    have hcov : Ported start v.key.ns (recordedNics v) s₁.northbound := hdb₁ ▸ h.covered hs
    rcases ends_bind.mp hrest with ⟨v', s₂, hfin, hrest'⟩ | ⟨e, he, -⟩ | ⟨m, hm, -⟩
    · obtain ⟨hdb₂, v'', stored, ho, hkey, hst, hstored, halive', hf, hstatus⟩ :=
        ends_ensureFinalizer hs₁ halive hfin
      obtain rfl : v' = v'' := Outcome.ok.inj ho
      have hns : v'.metadata.ns = v.key.ns := congrArg Key.ns hkey
      have hrec : ∀ {n : VirtualMachine}, n.status = v.status → recordedNics n = recordedNics v :=
        fun h => congrArg (fun st => (Option.map VirtualMachineStatus.networks st).getD []) h
      have hloop : After (answering anyAnswer w) (Program.collect (getVmOvnNics v') (updateVmNic v')) s₂
          fun _ u => Porting start v.key.ns (recordedNics v) s₂ u := by
        refine Program.after_collect ⟨rfl, hdb₂ ▸ hcov⟩ fun nic hnic u hu => ?_
        obtain ⟨st, hst', hmem, -⟩ := mem_getVmOvnNics.mp hnic
        have hmem : nic ∈ recordedNics v := by
          rw [← hrec hst]
          unfold recordedNics
          rw [hst']
          exact hmem
        rw [← hns] at hu ⊢
        exact (porting_updateVmNic hu.2 hmem).mono fun _ u' hu' => ⟨hu'.1.trans hu.1, hu'.2⟩
      -- The VM is held from here on.
      have hheld : ∀ {p : Prog (List (Option String))} {o : Outcome Error (List (Option String))}
          {u : World}, p = Program.collect (getVmOvnNics v') (updateVmNic v') → p.Ends (Served w) s₂ o u →
          u.vms.find? v.key = some stored ∧ Accounted start v.key u := by
        rintro p o u rfl hu
        obtain ⟨hkube, hported⟩ := hloop o u (hu.mono fun _ _ _ _ he => ⟨he, trivial⟩)
        have hfound : u.vms.find? v.key = some stored := by
          show (u.kube .virtualMachine).find? v.key = some stored
          rw [hkube]
          exact hstored
        exact ⟨hfound, .inr ⟨stored, hfound, hf, hrec hstatus ▸ hported⟩⟩
      rcases ends_bind.mp hrest' with ⟨ips, s₃, hips, hrest₃⟩ | ⟨e, he, -⟩ | ⟨m, hm, -⟩
      · obtain ⟨hfound, haccounted⟩ := hheld rfl hips
        have hkey' : stored.key = v.key := Collection.key_of_find? hstored
        rw [← hkey'] at hfound haccounted ⊢
        cases hst' : v'.status with
        | none =>
          simp only [hst'] at hrest₃
          obtain ⟨-, rfl⟩ := hrest₃
          exact haccounted
        | some st =>
          simp only [hst'] at hrest₃
          have hnics : recordedNics stored = st.networks := by
            unfold recordedNics
            rw [hstatus, ← hst, hst']
            rfl
          have hret : Retained stored (fun _ _ => True) t := by
            refine (ends_modest (modest_setStatus (hkey.trans hkey'.symm) ?_) ?_ hrest₃).1
            · exact fun _ _ hr _ => hnics ▸ hr
            · exact ⟨stored, hfound, halive', rfl, fun _ _ hr _ => hr⟩
          exact haccounted.retained hfound (after_aside (aside_setStatus (v' : Object .virtualMachine) _ _)
            o t (hrest₃.mono fun _ _ _ _ he => ⟨he, trivial⟩)).1 hret fun _ _ _ _ _ => trivial
      · exact (hheld rfl he).2
      · exact (hheld rfl hm).2
    · obtain ⟨-, _, _, ho, -⟩ := ends_ensureFinalizer hs₁ halive he
      cases ho
    · obtain ⟨-, _, _, ho, -⟩ := ends_ensureFinalizer hs₁ halive hm
      cases ho
  · exact h.congr (ends_ovnTry he).1 (ends_ovnTry he).2
  · exact h.congr (ends_ovnTry hm).1 (ends_ovnTry hm).2

/-- The removal. When it returns `Ok`, no port is left that has come since the start. -/
theorem Accounted.removeVm (h : Accounted start v.key s) (hs : s.vms.find? v.key = some v)
    (hends : (removeVm v).Ends (Served w) s o t) : Accounted start v.key t ∧
      (o = .ok () → Ported start v.key.ns [] t.northbound) := by
  unfold ClusterController.removeVm at hends
  rcases ends_bind.mp hends with ⟨_, s₁, htry, hrest⟩ | ⟨e, he, rfl⟩ | ⟨m, hm, rfl⟩
  · obtain ⟨hvms₁, hdb₁⟩ := ends_ovnTry htry
    have hs₁ : (s₁.kube .virtualMachine).find? v.key = some v :=
      (congrArg (·.find? v.key) hvms₁).trans hs
    have h₁ : Accounted start v.key s₁ := h.congr hvms₁ hdb₁
    have hnics : Ported start v.key.ns (getVmOvnNics v) s₁.northbound := by
      refine (h₁.covered hs₁).mono fun p _ _ nic hnic ⟨network, _, hid, _⟩ => ⟨nic, ?_, rfl, rfl⟩
      unfold recordedNics at hnic
      cases hst : v.status with
      | none =>
        rw [hst] at hnic
        cases hnic
      | some st =>
        rw [hst] at hnic
        exact mem_getVmOvnNics.mpr ⟨st, hst, hnic, Option.isSome_of_eq_some hid⟩
    have hids : ∀ nic ∈ getVmOvnNics v, nic.ovnId.isSome = true := by
      intro nic hnic
      obtain ⟨-, -, -, hid⟩ := mem_getVmOvnNics.mp hnic
      exact hid
    have hloop : ∀ o u, (Program.forEach (getVmOvnNics v) (disconnectVmNic v)).Ends (Served w) s₁ o u →
        Accounted start v.key u ∧ (o = .ok () → Ported start v.key.ns [] u.northbound) := by
      intro o u hu
      have hu := hu.mono fun _ _ _ _ he => (⟨he, trivial⟩ : answering anyAnswer w _ _ _ _)
      rcases h₁ with h₁ | ⟨v', hv', hf, h₁⟩
      · obtain ⟨⟨-, hported⟩, hgone⟩ := porting_disconnectAll h₁ hnics hids o u hu
        exact ⟨.inl hported, hgone⟩
      · obtain ⟨⟨hkube, hported⟩, hgone⟩ := porting_disconnectAll h₁ hnics hids o u hu
        refine ⟨.inr ⟨v', ?_, hf, hported⟩, hgone⟩
        show (u.kube .virtualMachine).find? v.key = some v'
        rw [hkube]
        exact hv'
    rcases ends_bind.mp hrest with ⟨_, s₂, hs₂, hrest'⟩ | ⟨e, he, rfl⟩ | ⟨m, hm, rfl⟩
    · have hported := (hloop _ _ hs₂).2 rfl
      have haside : (do let _ ← removeFinalizer (v : Object .virtualMachine) "ovn" : Prog Unit).Within
          Aside fun _ => True :=
        .bind (aside_removeFinalizer _ _) fun _ _ => Program.within_ret.mpr trivial
      have hdb : t.northbound = s₂.northbound :=
        (after_aside haside o t (hrest'.mono fun _ _ _ _ he => ⟨he, trivial⟩)).1
      rw [← hdb] at hported
      exact ⟨.inl hported, fun _ => hported⟩
    · exact ⟨(hloop _ _ he).1, nofun⟩
    · exact ⟨(hloop _ _ hm).1, nofun⟩
  · exact ⟨h.congr (ends_ovnTry he).1 (ends_ovnTry he).2, nofun⟩
  · exact ⟨h.congr (ends_ovnTry hm).1 (ends_ovnTry hm).2, nofun⟩

end Controller

/-! ## Runs -/

/-- Reconciles of the VM by its two controllers, and what happens besides. No fill drops a NIC that
has a port. -/
def portTurns (start : Database) (k : Key) (s : World) : Deed → Prop
  | .turn w => w = .vmOvn k ∨ (w = .vm k ∧
      ∀ v, s.vms.find? k = some v → v.isDeleted = false → FillKeeps start s v)
  | .happen _ => True

section Runs

variable [Crates] {start : Database} {s t u : World} {k : Key} {v : VirtualMachine}

/-- A reconcile of either controller. -/
theorem Accounted.reconcile {w : Worker} {o : Outcome Error Unit} (h : Accounted start v.key s)
    (hs : s.vms.find? v.key = some v)
    (hends : ((v.isDeleted = false → FillKeeps start s v) ∧
        ((Worker.vm v.key).reconcile v).Ends (Served w) s o t) ∨
      ((Worker.vmOvn v.key).reconcile v).Ends (Served w) s o t) : Accounted start v.key t := by
  simp only [Worker.reconcile] at hends
  cases hd : v.isDeleted with
  | true =>
    simp only [hd, if_true] at hends
    rcases hends with ⟨-, -, rfl⟩ | hends
    · exact h
    · exact (h.removeVm hs hends).1
  | false =>
    simp only [hd, Bool.false_eq_true, if_false] at hends
    rcases hends with ⟨hkeep, hends⟩ | hends
    · exact h.createVm hs hd (hkeep trivial) hends
    · exact h.updateVm hs hd hends

theorem Accounted.turn {d : Deed} (h : Accounted start k s) (ha : portTurns start k s d)
    (hd : d.Does Served s t) : Accounted start k t := by
  cases d with
  | happen e => exact h.happen hd
  | turn w =>
    obtain ⟨o, v, hv, hends⟩ := hd
    rcases ha with rfl | ⟨rfl, hkeep⟩
    all_goals
      revert v
      intro (v : VirtualMachine) hv hends
      obtain rfl : v.key = k := Collection.key_of_find? hv
    · have h' : Accounted start v.key (s.started (.vmOvn v.key) v.version) := h.congr rfl rfl
      exact h'.reconcile hv (.inr hends)
    · have h' : Accounted start v.key (s.started (.vm v.key) v.version) := h.congr rfl rfl
      exact h'.reconcile hv (.inl ⟨hkeep v hv, hends⟩)

theorem Accounted.run (h : Accounted start k s) (hrun : Serial Served (portTurns start k) s t) :
    Accounted start k t := by
  induction hrun with
  | refl => exact h
  | tail _ hstep ih =>
    obtain ⟨d, ha, hd⟩ := hstep
    exact ih.turn ha hd

/-- In every run in which a VM is created, edited, deleted and reconciled any number of times, and
no fill drops a NIC that has a port, a removal that returns `Ok` leaves no port that has come since
the start. -/
theorem teardown_removes_ports (hc : Consistent northbound s.northbound)
    (hrun : Serial Served (portTurns s.northbound k) s t) (hv : t.vms.find? k = some v)
    (hd : v.isDeleted = true) (hlast : Turn Served (.vmOvn k) t (.ok ()) u) :
    ∀ p ∈ u.northbound typeLogicalSwitchPort,
      p.uuid ∈ (s.northbound typeLogicalSwitchPort).map Row.uuid := by
  have h₀ : Accounted s.northbound k s := .inl (.refl hc)
  obtain ⟨v', hv', hends⟩ := hlast
  obtain rfl : v = v' := Option.some.inj (hv.symm.trans hv')
  obtain rfl : v.key = k := Collection.key_of_find? hv
  have h₁ : Accounted s.northbound v.key (t.started (.vmOvn v.key) v.version) :=
    (h₀.run hrun).congr rfl rfl
  simp only [Worker.reconcile, if_pos hd] at hends
  have hported := (h₁.removeVm (t := u) hv hends).2 rfl
  intro p hp
  by_contra hne
  obtain ⟨nic, hnic, -⟩ := hported.covered p hp hne
  cases hnic

end Runs

attribute [local instance] plainCrates

/-- A network with its switch. -/
def switchDeeds : List Deed :=
  [.happen (.create .node ⟨"", "a"⟩ [(ovnCentralManagedLabel, "managed")]
      [( ovnCentralIpAnnotation, "10.0.0.1")] ()),
   .happen (.create .network ⟨"n", "net"⟩ [] [] ⟨none, none, none, none, none⟩),
   .turn (.network ⟨"n", "net"⟩)]

/-- A VM on the network gets its port. -/
def connectDeeds : List Deed :=
  [.happen (.create .virtualMachine vmKey [] [] (specOn [nicOn "net"])), .turn (.vm vmKey),
   .turn (.vm vmKey), .turn (.vmOvn vmKey)]

/-- Its NIC is taken from the spec. -/
def detachDeeds : List Deed :=
  [.happen (.edit .virtualMachine vmKey [] [] (specOn [])), .turn (.vm vmKey)]

/-- Reconciles of the VM by its two controllers, and what happens besides. -/
def vmTurns (_ : World) : Deed → Prop
  | .turn w => w = .vm vmKey ∨ w = .vmOvn vmKey
  | .happen _ => True

instance (s : World) : (d : Deed) → Decidable (vmTurns s d)
  | .turn _ => inferInstanceAs (Decidable (_ ∨ _))
  | .happen _ => .isTrue trivial

/-- The port of a NIC that is no longer in the spec stays. -/
theorem dropped_port_stays : ∃ s t u : World,
    Serial Served anyDeed World.initial s ∧ s.vms.find? vmKey = none ∧
    Serial Served vmTurns s t ∧ (∃ v, t.vms.find? vmKey = some v ∧ v.isDeleted = true) ∧
    Turn Served (.vmOvn vmKey) t (.ok ()) u ∧ u.vms.find? vmKey = none ∧
    ∃ p ∈ u.northbound typeLogicalSwitchPort,
      p.uuid ∉ (s.northbound typeLogicalSwitchPort).map Row.uuid := by
  have h : ((performAll anyRequest anyDeed World.initial switchDeeds).any fun s =>
      (s.vms.find? vmKey).isNone &&
      (performAll anyRequest vmTurns s (connectDeeds ++ detachDeeds ++
        [.happen (.delete .virtualMachine vmKey 0)])).any fun t =>
          (t.vms.find? vmKey).any (fun v => v.isDeleted) &&
          ((Worker.vmOvn vmKey).finish t).any fun u => (u.vms.find? vmKey).isNone &&
            (u.northbound typeLogicalSwitchPort).any fun p =>
              p.uuid ∉ (s.northbound typeLogicalSwitchPort).map Row.uuid) = true := by
    decide +kernel
  simp only [Option.any_eq_true, Bool.and_eq_true, Option.isNone_iff_eq_none, List.any_eq_true,
    decide_eq_true_eq] at h
  obtain ⟨s, hs, hnone, t, ht, hv, u, hu, hgone, hp⟩ := h
  have hlast := turn_of_finish hu
  obtain ⟨v, hv', hends⟩ := hlast
  exact ⟨s, t, u, (serial_of_perform hs).mono (fun _ _ _ _ _ h => h.1) (fun _ _ h => h), hnone,
    (serial_of_perform ht).mono (fun _ _ _ _ _ h => h.1) (fun _ _ h => h), hv,
    ⟨v, hv', hends.mono fun _ _ _ _ he => he.1⟩, hgone, hp⟩

/-- Every recorded NIC is taken over by a NIC of the spec, with its port ID. -/
def Refilled (s : World) (v : VirtualMachine) : Prop :=
  ∀ nic ∈ recordedNics v, ∃ nicSpec ∈ v.spec.networks,
    findMatchingNetwork (recordedNics v) nicSpec = .ok (some nic) ∧
      refilledId s v.metadata.ns nicSpec nic = nic.ovnId ∧ nicSpec.name = nic.name

instance (s : World) (v : VirtualMachine) : Decidable (Refilled s v) :=
  inferInstanceAs (Decidable (∀ nic ∈ _, ∃ nicSpec ∈ _, _ ∧ _ ∧ _))

theorem fillKeeps_of_refilled {start : Database} {s : World} {v : VirtualMachine} (h : Refilled s v) :
    FillKeeps start s v := by
  rintro p - - network ⟨nic, hnic, hname, hid⟩ -
  obtain ⟨nicSpec, hspec, hfound, hrefilled, hn⟩ := h nic hnic
  exact ⟨⟨nicSpec, hspec, nic, hfound, hname, hrefilled.trans hid⟩, nicSpec, hspec, hn.trans hname⟩

/-- Turns of the VM that keep its NICs. -/
def keepingTurns (s : World) : Deed → Prop
  | .turn w => w = .vmOvn vmKey ∨ (w = .vm vmKey ∧ (s.vms.find? vmKey).all (fun v => Refilled s v) = true)
  | .happen _ => True

instance (s : World) : (d : Deed) → Decidable (keepingTurns s d)
  | .turn _ => inferInstanceAs (Decidable (_ ∨ _ ∧ _))
  | .happen _ => .isTrue trivial

/-- A VM that keeps its NIC, reconciled once more after its port has come. -/
theorem teardown_removes_ports_kept : ∃ s u : World, s.vms.find? vmKey = none ∧
    ∀ p ∈ u.northbound typeLogicalSwitchPort,
      p.uuid ∈ (s.northbound typeLogicalSwitchPort).map Row.uuid := by
  have h : ((performAll anyRequest anyDeed World.initial switchDeeds).any fun s =>
      (s.vms.find? vmKey).isNone &&
      (performAll anyRequest keepingTurns s (connectDeeds ++
        [.turn (.vm vmKey), .happen (.delete .virtualMachine vmKey 0)])).any fun t =>
          (t.vms.find? vmKey).any (fun v => v.isDeleted) &&
          ((Worker.vmOvn vmKey).finish t).isSome) = true := by
    decide +kernel
  simp only [Option.any_eq_true, Bool.and_eq_true, Option.isNone_iff_eq_none,
    Option.isSome_iff_exists] at h
  obtain ⟨s, hs, hnone, t, ht, ⟨v, hv, hd⟩, u, hu⟩ := h
  have hc : Consistent northbound s.northbound :=
    consistent_serial (serial_of_perform hs) Ovsdb.consistent_empty
  have hrun : Serial Served (portTurns s.northbound vmKey) s t := by
    refine (serial_of_perform ht).mono (fun _ _ _ _ _ h => h.1) fun s' d hd => ?_
    cases d with
    | happen e => trivial
    | turn w =>
      rcases hd with rfl | ⟨rfl, hall⟩
      · exact .inl rfl
      · refine .inr ⟨rfl, fun v hv _ => fillKeeps_of_refilled ?_⟩
        rw [hv] at hall
        simpa using hall
  obtain ⟨v', hv', hends⟩ := turn_of_finish hu
  exact ⟨s, u, hnone, teardown_removes_ports hc hrun hv hd
    ⟨v', hv', hends.mono fun _ _ _ _ he => he.1⟩⟩

end ClusterController
