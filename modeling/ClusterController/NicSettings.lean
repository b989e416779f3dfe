import ClusterController.NicHistory

/-!
# What a fill sets

The entry of a NIC starts from the recorded one and is updated in place. A field that no
branch sets is what an earlier fill has left in it.

* `wired_iff`: NICs are wired to the networks that they name, if these have kept their types.
* `carried_iff`: what the spec sets reaches the domain, but for VLANs that are not there already.
-/

namespace ClusterController

open ApiServer (Key Resource Collection)
open Interaction (Program)
open Interaction.Program (Outcome Ends)

/-! ## The entry of a NIC -/

namespace FilledFrom

variable {s : World} {ns : String} {nicSpec entry nic : NetworkAttachment} {drawn : Option String}
  {name : String} {network : Network}

theorem keeps (h : FilledFrom s ns nicSpec entry drawn nic) : nic.name = entry.name ∧
    nic.queues = entry.queues ∧ nic.taggedVlans = entry.taggedVlans ∧
      nic.macAddress = entry.macAddress := by
  cases h <;> exact ⟨rfl, rfl, rfl, rfl⟩

/-- A network that is named has been found. -/
theorem exists_network (h : FilledFrom s ns nicSpec entry drawn nic) (hn : nicSpec.name = some name) :
    ∃ network, (s.kube .network).find? ⟨ns, name⟩ = some network := by
  cases h with
  | unmanaged hn' => cases hn.symm.trans hn'
  | evpn hn' hf _ => cases hn.symm.trans hn'; exact ⟨_, hf⟩
  | given hn' hf _ _ => cases hn.symm.trans hn'; exact ⟨_, hf⟩
  | kept hn' hf _ _ _ => cases hn.symm.trans hn'; exact ⟨_, hf⟩
  | drawn _ hn' hf _ _ _ => cases hn.symm.trans hn'; exact ⟨_, hf⟩

theorem eq_of_unmanaged (h : FilledFrom s ns nicSpec entry drawn nic) (hn : nicSpec.name = none) :
    nic = entry := by
  cases h with
  | unmanaged _ => rfl
  | evpn hn' _ _ => cases hn.symm.trans hn'
  | given hn' _ _ _ => cases hn.symm.trans hn'
  | kept hn' _ _ _ _ => cases hn.symm.trans hn'
  | drawn _ hn' _ _ _ _ => cases hn.symm.trans hn'

theorem eq_of_evpn (h : FilledFrom s ns nicSpec entry drawn nic) (hn : nicSpec.name = some name)
    (hf : (s.kube .network).find? ⟨ns, name⟩ = some network)
    (ht : network.spec.networkType = some .evpn) : nic = fillEvpn entry network := by
  cases h with
  | unmanaged hn' => cases hn.symm.trans hn'
  | evpn hn' hf' _ =>
    cases hn.symm.trans hn'
    cases hf.symm.trans hf'
    rfl
  | given hn' hf' ht' _ => cases hn.symm.trans hn'; cases hf.symm.trans hf'; exact absurd ht ht'
  | kept hn' hf' ht' _ _ => cases hn.symm.trans hn'; cases hf.symm.trans hf'; exact absurd ht ht'
  | drawn _ hn' hf' ht' _ _ => cases hn.symm.trans hn'; cases hf.symm.trans hf'; exact absurd ht ht'

/-- On an OVN network only the port ID is set: that of the spec, the recorded one, or a new one. -/
theorem eq_of_ovn (h : FilledFrom s ns nicSpec entry drawn nic) (hn : nicSpec.name = some name)
    (hf : (s.kube .network).find? ⟨ns, name⟩ = some network)
    (ht : network.spec.networkType ≠ some .evpn) : ∃ id, nic = { entry with ovnId := some id } ∧
      (nicSpec.ovnId.or entry.ovnId).getD id = id := by
  cases h with
  | unmanaged hn' => cases hn.symm.trans hn'
  | evpn hn' hf' ht' => cases hn.symm.trans hn'; cases hf.symm.trans hf'; exact absurd ht' ht
  | given _ _ _ hg => exact ⟨_, rfl, by rw [hg]; rfl⟩
  | @kept name id network _ _ _ hg he => exact ⟨id, by rw [← he], by rw [hg, he]; rfl⟩
  | drawn id _ _ _ hg he => exact ⟨id, rfl, by rw [hg, he]; rfl⟩

end FilledFrom

section Entry

variable [Crates] {σ : Type} {w : Worker} {view : σ → World}
  {exec : σ → (r : Request) → r.Answer → σ → Prop} {a b : σ} {k : Key} {f : Fill}
  {o : Outcome Error Unit} {nicSpec nic : NetworkAttachment} {i : Nat}

/-- What a NIC starts from: the recorded entry that it takes over, or a new one. -/
def Fill.startOf (f : Fill) (nicSpec : NetworkAttachment) : NetworkAttachment :=
  startNic nicSpec (f.takenOver nicSpec)

/-- The entry of a NIC, from what it starts from. -/
structure FilledAt (f : Fill) (i : Nat) (nicSpec nic : NetworkAttachment) : Prop where
  entry : f.entries[i]? = some nic
  found : findMatchingNetwork (recordedNics f.vm) nicSpec = .ok (f.takenOver nicSpec)
  name : nic.name = (f.startOf nicSpec).name
  queues : nic.queues = nicSpec.queues
  taggedVlans : nic.taggedVlans = (f.startOf nicSpec).taggedVlans
  macAddress : nic.macAddress.isSome = true ∧ nic.macAddress =
    (nicSpec.macAddress.or (f.startOf nicSpec).macAddress).or
      (generateMacAddress (namePrefixedWithNamespace f.vm.key) nicSpec i).toOption
  network : nicSpec.name.isSome = true → (f.network nicSpec).isSome = true
  unmanaged : nicSpec.name = none → nic.bridge = (f.startOf nicSpec).bridge ∧
    nic.untaggedVlan = (f.startOf nicSpec).untaggedVlan ∧ nic.ovnId = (f.startOf nicSpec).ovnId
  evpn : ∀ network, f.network nicSpec = some network → network.spec.networkType = some .evpn →
    nic.bridge = network.spec.bridge ∧
    nic.untaggedVlan = network.spec.networkId.map UInt64.toUInt16 ∧
    nic.ovnId = (f.startOf nicSpec).ovnId
  ovn : ∀ network, f.network nicSpec = some network → network.spec.networkType ≠ some .evpn →
    nic.bridge = (f.startOf nicSpec).bridge ∧
    nic.untaggedVlan = (f.startOf nicSpec).untaggedVlan ∧
    ∃ id, nic.ovnId = some id ∧ (nicSpec.ovnId.or (f.startOf nicSpec).ovnId).getD id = id

omit [Crates] in
theorem Fill.network_some {network : Network} (h : f.network nicSpec = some network) :
    ∃ name, nicSpec.name = some name ∧
      (f.before.kube .network).find? ⟨f.vm.metadata.ns, name⟩ = some network :=
  Option.bind_eq_some_iff.mp h

/-- Every NIC of the spec has its entry. -/
theorem FillRun.filledAt (hw : Watches w view exec) (h : FillRun view exec k a f o b)
    (hi : f.vm.spec.networks[i]? = some nicSpec) : ∃ nic, FilledAt f i nicSpec nic := by
  obtain ⟨hbefore, -, st, a₁, -, hc, -⟩ := h
  obtain ⟨nic, drawn, hnic, ⟨found, entry, hfound, hmac, hfrom⟩⟩ := hc.filledAt hw hi
  rw [← hbefore] at hfrom
  obtain rfl : f.takenOver nicSpec = found := by
    unfold Fill.takenOver
    rw [hfound]
  obtain ⟨hentry, hsome, hmac⟩ := fillMac_ok hmac
  have hkeeps := hfrom.keeps
  have hn := congrArg NetworkAttachment.name hentry
  have hb := congrArg NetworkAttachment.bridge hentry
  have hq := congrArg NetworkAttachment.queues hentry
  have hid := congrArg NetworkAttachment.ovnId hentry
  have hv := congrArg NetworkAttachment.untaggedVlan hentry
  have ht := congrArg NetworkAttachment.taggedVlans hentry
  refine ⟨nic, hnic, hfound, hkeeps.1.trans hn, hkeeps.2.1.trans hq, hkeeps.2.2.1.trans ht, ?_, ?_, ?_,
    ?_, ?_⟩
  · rw [hkeeps.2.2.2]
    exact ⟨hsome, hmac⟩
  · intro hn
    obtain ⟨name, hn⟩ := Option.isSome_iff_exists.mp hn
    obtain ⟨network, hf⟩ := hfrom.exists_network hn
    unfold Fill.network
    rw [hn]
    exact Option.isSome_of_eq_some hf
  · intro hn
    rw [hfrom.eq_of_unmanaged hn]
    exact ⟨hb, hv, hid⟩
  · intro network hnet ht
    obtain ⟨name, hn, hf⟩ := Fill.network_some hnet
    rw [hfrom.eq_of_evpn hn hf ht]
    exact ⟨rfl, rfl, hid⟩
  · intro network hnet ht
    obtain ⟨name, hn, hf⟩ := Fill.network_some hnet
    obtain ⟨id, rfl, hkept⟩ := hfrom.eq_of_ovn hn hf ht
    have hid : entry.ovnId = (f.startOf nicSpec).ovnId := hid
    rw [hid] at hkept
    exact ⟨hb, hv, id, rfl, hkept⟩

omit [Crates] in
theorem Fill.startOf_none (h : f.takenOver nicSpec = none) : f.startOf nicSpec =
    { NetworkAttachment.default with name := nicSpec.name, bridge := nicSpec.bridge } := by
  unfold Fill.startOf
  rw [h]
  rfl

omit [Crates] in
theorem Fill.startOf_some {e : NetworkAttachment} (h : f.takenOver nicSpec = some e) :
    f.startOf nicSpec = e := by
  unfold Fill.startOf
  rw [h]
  rfl

/-- The entry of a NIC with a name has the name. -/
theorem FilledAt.name_eq (h : FilledAt f i nicSpec nic) (hn : nicSpec.name.isSome = true) :
    nic.name = nicSpec.name := by
  rw [h.name]
  cases ht : f.takenOver nicSpec with
  | none =>
    rw [Fill.startOf_none ht]
  | some e =>
    rw [Fill.startOf_some ht]
    exact (mem_of_findMatchingNetwork (ht ▸ h.found)).2.1 hn

/-- It is recorded. -/
theorem FillRun.mem_nics (h : FillRun view exec k a f o b) (hi : f.vm.spec.networks[i]? = some nicSpec)
    (hf : FilledAt f i nicSpec nic) (hn : nicSpec.name.isSome = true) : nic ∈ f.nics := by
  obtain ⟨-, -, st, a₁, -, hc, -⟩ := h
  obtain ⟨name, hname⟩ := Option.isSome_iff_exists.mp hn
  exact mem_of_retainNics hc.retained (List.mem_of_getElem? hf.entry) ((hf.name_eq hn).trans hname)
    ⟨nicSpec, List.mem_of_getElem? hi, hname⟩

end Entry

/-! ## Interfaces -/

/-- What the interface of a NIC is built from. -/
theorem Host.interfaceTemplate_ret {model : String} {nic : NetworkAttachment}
    {template : NetworkInterfaceTemplate} (h : interfaceTemplate model nic = .ret template) :
    (nic.ovnId = none → nic.bridge = some template.bridge) ∧ nic.macAddress = some template.mac ∧
      template = { bridge := template.bridge, mac := template.mac, ovnId := nic.ovnId, model := model
                   queues := nic.queues.getD 1, untaggedVlan := nic.untaggedVlan
                   taggedVlans := nic.taggedVlans } := by
  unfold interfaceTemplate bridgeOf expect at h
  cases hid : nic.ovnId with
  | some id =>
    rw [hid] at h
    cases hm : nic.macAddress with
    | some mac =>
      rw [hm] at h
      cases h
      exact ⟨nofun, rfl, rfl⟩
    | none =>
      rw [hm] at h
      cases h
  | none =>
    rw [hid] at h
    cases hb : nic.bridge with
    | some bridge =>
      rw [hb] at h
      cases hm : nic.macAddress with
      | some mac =>
        rw [hm] at h
        cases h
        exact ⟨fun _ => rfl, rfl, rfl⟩
      | none =>
        rw [hm] at h
        cases h
    | none =>
      rw [hb] at h
      cases h

/-! ## Networks and their types -/

/-- Some spec has given the bridge to a NIC of the name. -/
def Given (fills : List Fill) (name : Option String) (bridge : String) : Prop :=
  ∃ f ∈ fills, ∃ nicSpec ∈ f.vm.spec.networks, nicSpec.name = name ∧ nicSpec.bridge = some bridge

/-- The NIC and its interface are on the bridge and the VLAN of an EVPN network. -/
structure WiredEvpn (network : Network) (nic : NetworkAttachment) : Prop where
  ovnId : nic.ovnId = none
  bridge : nic.bridge = network.spec.bridge
  vlan : nic.untaggedVlan.map UInt16.toNat = network.spec.networkId.map UInt64.toNat
  template : ∀ model template, Host.interfaceTemplate model nic = .ret template →
    network.spec.bridge = some template.bridge ∧ template.ovnId = none ∧
      template.untaggedVlan.map UInt16.toNat = network.spec.networkId.map UInt64.toNat

/-- The NIC has a port ID, and nothing that a type of EVPN has set. -/
structure WiredOvn (given : String → Prop) (nic : NetworkAttachment) : Prop where
  ovnId : nic.ovnId.isSome = true
  vlan : nic.untaggedVlan = none
  bridge : ∀ bridge, nic.bridge = some bridge → given bridge

/-- Every NIC is wired to the network that it names, and NICs on EVPN networks with different IDs
are on different VLANs. -/
structure Fill.Wired (f : Fill) (earlier : List Fill) : Prop where
  wired : ∀ (i : Nat) nicSpec network, f.vm.spec.networks[i]? = some nicSpec →
    f.network nicSpec = some network → ∃ nic ∈ f.nics, f.entries[i]? = some nic ∧
      (network.spec.networkType = some .evpn → WiredEvpn network nic) ∧
      (network.spec.networkType ≠ some .evpn → WiredOvn (Given (f :: earlier) nicSpec.name) nic)
  apart : ∀ (i j : Nat) nicSpec nicSpec' network network' nic nic', f.vm.spec.networks[i]? = some nicSpec →
    f.vm.spec.networks[j]? = some nicSpec' → f.network nicSpec = some network →
    f.network nicSpec' = some network' → network.spec.networkType = some .evpn →
    network'.spec.networkType = some .evpn → f.entries[i]? = some nic → f.entries[j]? = some nic' →
    network.spec.networkId ≠ network'.spec.networkId → nic.untaggedVlan ≠ nic'.untaggedVlan

/-- No entry is taken over from a time when the network had another type, and IDs of EVPN networks
are VLAN IDs. -/
def Fill.KeepsTypes (f : Fill) (earlier : List Fill) : Prop :=
  ∀ nicSpec ∈ f.vm.spec.networks, ∀ network, f.network nicSpec = some network →
    (network.spec.networkType = some .evpn →
      (∀ e, f.takenOver nicSpec = some e → e.ovnId = none) ∧
        ∀ id, network.spec.networkId = some id → id.toNat < 2 ^ 16) ∧
    (network.spec.networkType ≠ some .evpn → ∀ e, f.takenOver nicSpec = some e →
      e.untaggedVlan = none ∧ ∀ bridge, e.bridge = some bridge → Given (f :: earlier) nicSpec.name bridge)

section Wired

variable {network : Network} {nic : NetworkAttachment}

theorem WiredEvpn.of_fields (hid : nic.ovnId = none) (hb : nic.bridge = network.spec.bridge)
    (hv : nic.untaggedVlan.map UInt16.toNat = network.spec.networkId.map UInt64.toNat) :
    WiredEvpn network nic := by
  refine ⟨hid, hb, hv, fun model template h => ?_⟩
  obtain ⟨hbridge, -, ht⟩ := Host.interfaceTemplate_ret h
  rw [ht]
  exact ⟨hb ▸ hbridge hid, hid, hv⟩

/-- An ID is the same number as a VLAN ID if it fits. -/
theorem map_toUInt16_iff {id : Option UInt64} :
    (id.map UInt64.toUInt16).map UInt16.toNat = id.map UInt64.toNat ↔
      ∀ n, id = some n → n.toNat < 2 ^ 16 := by
  cases id with
  | none => simp
  | some n =>
    simp only [Option.map_some, Option.some.injEq, UInt64.toNat_toUInt16, forall_eq']
    omega

end Wired

section Settings

variable [Crates] {σ : Type} {w : Worker} {view : σ → World}
  {exec : σ → (r : Request) → r.Answer → σ → Prop} {a b : σ} {k : Key} {f : Fill}
  {o : Outcome Error Unit} {nicSpec nic : NetworkAttachment} {i : Nat} {earlier : List Fill}
  {network : Network}

/-- A NIC on an EVPN network is wired to it if it takes over no port ID and the ID is a VLAN ID. -/
theorem FilledAt.wiredEvpn_iff (h : FilledAt f i nicSpec nic) (hn : f.network nicSpec = some network)
    (ht : network.spec.networkType = some .evpn) : WiredEvpn network nic ↔
      (∀ e, f.takenOver nicSpec = some e → e.ovnId = none) ∧
        ∀ id, network.spec.networkId = some id → id.toNat < 2 ^ 16 := by
  obtain ⟨hb, hv, hid⟩ := h.evpn network hn ht
  have hstart : (f.startOf nicSpec).ovnId = none ↔
      ∀ e, f.takenOver nicSpec = some e → e.ovnId = none := by
    cases he : f.takenOver nicSpec with
    | none => simp [Fill.startOf_none he, NetworkAttachment.default]
    | some e => simp [Fill.startOf_some he]
  rw [← hstart, ← map_toUInt16_iff, ← hid, ← hv]
  exact ⟨fun h => ⟨h.ovnId, h.vlan⟩, fun h => .of_fields h.1 hb h.2⟩

/-- A NIC on an OVN network is wired to it if it takes over nothing that a type of EVPN has set. -/
theorem FilledAt.wiredOvn_iff (h : FilledAt f i nicSpec nic) (hn : f.network nicSpec = some network)
    (ht : network.spec.networkType ≠ some .evpn) (hspec : nicSpec ∈ f.vm.spec.networks) :
    WiredOvn (Given (f :: earlier) nicSpec.name) nic ↔ ∀ e, f.takenOver nicSpec = some e →
      e.untaggedVlan = none ∧
        ∀ bridge, e.bridge = some bridge → Given (f :: earlier) nicSpec.name bridge := by
  obtain ⟨hb, hv, id, hid, -⟩ := h.ovn network hn ht
  have hiff : WiredOvn (Given (f :: earlier) nicSpec.name) nic ↔
      (f.startOf nicSpec).untaggedVlan = none ∧
        ∀ bridge, (f.startOf nicSpec).bridge = some bridge → Given (f :: earlier) nicSpec.name bridge := by
    rw [← hb, ← hv]
    exact ⟨fun h => ⟨h.vlan, h.bridge⟩, fun h => ⟨Option.isSome_of_eq_some hid, h.1, h.2⟩⟩
  rw [hiff]
  cases he : f.takenOver nicSpec with
  | none =>
    rw [Fill.startOf_none he]
    refine iff_of_true ⟨rfl, fun bridge hbridge => ?_⟩ nofun
    exact ⟨f, List.mem_cons_self, nicSpec, hspec, rfl, hbridge⟩
  | some e =>
    rw [Fill.startOf_some he]
    simp

/-- In every history of edits of the VM and of the networks, the NICs are wired to their networks
after a run of `fill_nics` that gets through, if and only if it takes over no entry from a time when
the network had another type, and the IDs of EVPN networks are VLAN IDs. -/
theorem wired_iff {fills : List Fill} {s t : World} (h : NicHistory k s (f :: fills) t) :
    f.Wired fills ↔ f.KeepsTypes fills := by
  obtain ⟨a, o, b, -, hrun⟩ := h.last
  constructor
  · intro hw nicSpec hspec network hnet
    obtain ⟨i, hi⟩ := List.mem_iff_getElem?.mp hspec
    obtain ⟨nic, hnic, hentry, hevpn, hovn⟩ := hw.wired i nicSpec network hi hnet
    obtain ⟨nic', hf⟩ := hrun.filledAt (watches_served _) hi
    obtain rfl : nic = nic' := Option.some.inj (hentry.symm.trans hf.entry)
    exact ⟨fun ht => (hf.wiredEvpn_iff hnet ht).mp (hevpn ht),
      fun ht => (hf.wiredOvn_iff hnet ht hspec).mp (hovn ht)⟩
  · intro hkeep
    have hwired : ∀ (i : Nat) nicSpec network, f.vm.spec.networks[i]? = some nicSpec →
        f.network nicSpec = some network → ∃ nic ∈ f.nics, f.entries[i]? = some nic ∧
          (network.spec.networkType = some .evpn → WiredEvpn network nic) ∧
          (network.spec.networkType ≠ some .evpn →
            WiredOvn (Given (f :: fills) nicSpec.name) nic) := by
      intro i nicSpec network hi hnet
      obtain ⟨nic, hf⟩ := hrun.filledAt (watches_served _) hi
      obtain ⟨name, hname, -⟩ := Fill.network_some hnet
      have hspec := List.mem_of_getElem? hi
      obtain ⟨hevpn, hovn⟩ := hkeep nicSpec hspec network hnet
      exact ⟨nic, hrun.mem_nics hi hf (Option.isSome_of_eq_some hname), hf.entry,
        fun ht => (hf.wiredEvpn_iff hnet ht).mpr (hevpn ht),
        fun ht => (hf.wiredOvn_iff hnet ht hspec).mpr (hovn ht)⟩
    refine ⟨hwired, fun i j nicSpec nicSpec' network network' nic nic' hi hj hn hn' ht ht' he he' hne
      hsame => hne ?_⟩
    obtain ⟨e, -, hentry, hevpn, -⟩ := hwired i nicSpec network hi hn
    obtain ⟨e', -, hentry', hevpn', -⟩ := hwired j nicSpec' network' hj hn'
    cases he.symm.trans hentry
    cases he'.symm.trans hentry'
    have hids := ((hevpn ht).vlan.symm.trans (congrArg _ hsame)).trans (hevpn' ht').vlan
    exact Option.map_injective (fun _ _ h => UInt64.toNat_inj.mp h) hids

end Settings

/-- The first fill takes over nothing. -/
theorem Fill.takenOver_of_first {f : Fill} {nicSpec : NetworkAttachment} (h : recordedNics f.vm = []) :
    f.takenOver nicSpec = none := by
  unfold Fill.takenOver findMatchingNetwork
  rw [h]
  split
  · next found hfound =>
    split at hfound
    · cases hfound
      rfl
    · split at hfound
      · cases hfound
        rfl
      · cases hfound
  · rfl

section Plain

attribute [local instance] plainCrates

/-- A VM on an EVPN network. -/
def evpnDeeds (id : UInt64) : List Deed :=
  .happen (.create .network ⟨"n", "net"⟩ [] [] ⟨none, none, some .evpn, some id, some "br"⟩) ::
    createdOn [nicOn "net"]

/-- The network has the ID. -/
def hasId (s : World) (id : UInt64) : Bool :=
  ((s.kube .network).find? ⟨"n", "net"⟩).any fun network =>
    network.spec.networkType = some .evpn && network.spec.networkId = some id

/-- The ID of a network is cut to 16 bits. -/
theorem vlan_of_another_network : ∃ (s t : World) (f : Fill), Serial Served anyDeed World.initial s ∧
    NicHistory vmKey s [f] t ∧ ¬ f.Wired [] := by
  have h : ((performAll anyRequest anyDeed World.initial (evpnDeeds 65537)).any fun s =>
      (s.vms.find? vmKey).any (fun v => v.metadata.ns = "n" && v.spec.networks = [nicOn "net"]) &&
      hasId s 65537 && (performFill vmKey s).any fun q => q.2.vms.revision ≠ s.vms.revision &&
        (q.2.vms.find? vmKey).any fun v =>
          (recordedNics v).all fun nic => nic.untaggedVlan = some 1) = true := by
    decide +kernel
  simp only [Option.any_eq_true, Bool.and_eq_true, decide_eq_true_eq, List.all_eq_true, hasId] at h
  obtain ⟨s, hs, ⟨⟨v, hv, hns, hspec⟩, network, hnet, htype, hid⟩, ⟨o, t⟩, hperf, hne, v', hv', hvlan⟩ := h
  obtain ⟨f, hfv, hbefore, hrun⟩ := fillRun_of_perform hperf (.inr hne)
  cases hv.symm.trans hfv
  refine ⟨s, t, f, (serial_of_perform hs).mono (fun _ _ _ _ _ h => h.1) (fun _ _ h => h),
    .fill .start hrun, fun hw => ?_⟩
  have hn : f.network (nicOn "net") = some network := by
    show (f.before.kube .network).find? ⟨f.vm.metadata.ns, "net"⟩ = some network
    rw [hbefore, hns]
    exact hnet
  obtain ⟨nic, hnic, -, hevpn, -⟩ := hw.wired 0 (nicOn "net") network (by rw [hspec]; rfl) hn
  have hnum := (hevpn htype).vlan
  rw [hvlan nic (hrun.recorded (watches_served _) hv' ▸ hnic), hid] at hnum
  cases hnum

/-- A VM on an EVPN network with a small ID. -/
theorem wired_iff_small : ∃ f : Fill, f.vm.spec.networks = [nicOn "net"] ∧ f.Wired [] := by
  have h : ((performAll anyRequest anyDeed World.initial (evpnDeeds 7)).any fun s =>
      (s.vms.find? vmKey).any (fun v => v.metadata.ns = "n" && v.spec.networks = [nicOn "net"] &&
        recordedNics v = []) &&
      hasId s 7 && (performFill vmKey s).any fun q => q.2.vms.revision ≠ s.vms.revision) = true := by
    decide +kernel
  simp only [Option.any_eq_true, Bool.and_eq_true, decide_eq_true_eq, hasId] at h
  obtain ⟨s, -, ⟨⟨v, hv, ⟨hns, hspec⟩, hrec⟩, network, hnet, -, hid⟩, ⟨o, t⟩, hperf, hne⟩ := h
  obtain ⟨f, hfv, hbefore, hrun⟩ := fillRun_of_perform hperf (.inr hne)
  cases hv.symm.trans hfv
  refine ⟨f, hspec, (wired_iff (.fill .start hrun)).mpr fun nicSpec hnic network' hn => ?_⟩
  have hfirst : ∀ e, f.takenOver nicSpec ≠ some e := by
    intro e
    simp [Fill.takenOver_of_first hrec]
  rw [hspec, List.mem_singleton] at hnic
  subst hnic
  have hn : (f.before.kube .network).find? ⟨f.vm.metadata.ns, "net"⟩ = some network' := hn
  rw [hbefore, hns, hnet] at hn
  cases hn
  refine ⟨fun _ => ⟨fun e he => absurd he (hfirst e), fun id h => ?_⟩, fun _ e he => absurd he (hfirst e)⟩
  cases hid.symm.trans h
  decide

end Plain

/-! ## Settings of the spec -/

/-- The entry has what the spec sets. A port ID counts on an OVN network. -/
structure Carries (nicSpec : NetworkAttachment) (ovn : Prop) (nic : NetworkAttachment) : Prop where
  macAddress : nicSpec.macAddress.isSome = true → nic.macAddress = nicSpec.macAddress
  queues : nicSpec.queues.isSome = true → nic.queues = nicSpec.queues
  untaggedVlan : nicSpec.untaggedVlan.isSome = true → nic.untaggedVlan = nicSpec.untaggedVlan
  taggedVlans : nicSpec.taggedVlans.isSome = true → nic.taggedVlans = nicSpec.taggedVlans
  ovnId : ovn → nicSpec.ovnId.isSome = true → nic.ovnId = nicSpec.ovnId

/-- The interface of the domain has what the spec sets. -/
structure Builds (nicSpec : NetworkAttachment) (ovn : Prop) (template : NetworkInterfaceTemplate) :
    Prop where
  macAddress : ∀ mac, nicSpec.macAddress = some mac → template.mac = mac
  queues : ∀ queues, nicSpec.queues = some queues → template.queues = queues
  untaggedVlan : nicSpec.untaggedVlan.isSome = true → template.untaggedVlan = nicSpec.untaggedVlan
  taggedVlans : nicSpec.taggedVlans.isSome = true → template.taggedVlans = nicSpec.taggedVlans
  ovnId : ovn → nicSpec.ovnId.isSome = true → template.ovnId = nicSpec.ovnId

/-- The spec sets something. -/
def Sets (nicSpec : NetworkAttachment) (ovn : Prop) : Prop :=
  nicSpec.macAddress.isSome = true ∨ nicSpec.queues.isSome = true ∨
    nicSpec.untaggedVlan.isSome = true ∨ nicSpec.taggedVlans.isSome = true ∨
    (ovn ∧ nicSpec.ovnId.isSome = true)

/-- The VLANs of a NIC. -/
def vlansOf (nic : NetworkAttachment) : List UInt16 :=
  nic.taggedVlans.getD [] ++ nic.untaggedVlan.toList

/-- The host configures the VLANs of the NICs that the status records. -/
theorem Host.ensureVniMapping_eq {host : String} {v : VirtualMachine} :
    ensureVniMapping host v = Program.forEach ((recordedNics v).flatMap vlansOf) (mapVlan host) := rfl

/-- Everything that the spec sets for a NIC on a bridge or on an OVN network is in its entry, in the
interface of the domain and among the VLANs that the host configures. -/
def Fill.Carried (f : Fill) : Prop :=
  ∀ (i : Nat) nicSpec, f.vm.spec.networks[i]? = some nicSpec →
    (nicSpec.name = none ∨ f.OnOvn nicSpec) → Sets nicSpec (f.OnOvn nicSpec) →
    ∃ nic ∈ f.nics, f.entries[i]? = some nic ∧ Carries nicSpec (f.OnOvn nicSpec) nic ∧
      (∀ model template, Host.interfaceTemplate model nic = .ret template →
        Builds nicSpec (f.OnOvn nicSpec) template) ∧
      ∀ vlan ∈ vlansOf nicSpec, vlan ∈ f.nics.flatMap vlansOf

/-- VLANs that the spec sets for such a NIC are in the entry that it takes over, and a NIC on a
bridge does not take over the entry of a network that the spec does not name. -/
def Fill.HasVlans (f : Fill) : Prop :=
  ∀ nicSpec ∈ f.vm.spec.networks, (nicSpec.name = none ∨ f.OnOvn nicSpec) →
    Sets nicSpec (f.OnOvn nicSpec) →
    (nicSpec.untaggedVlan.isSome = true →
      (f.takenOver nicSpec).bind (·.untaggedVlan) = nicSpec.untaggedVlan) ∧
    (nicSpec.taggedVlans.isSome = true →
      (f.takenOver nicSpec).bind (·.taggedVlans) = nicSpec.taggedVlans) ∧
    (nicSpec.name = none → ∀ e name, f.takenOver nicSpec = some e → e.name = some name →
      ∃ other ∈ f.vm.spec.networks, other.name = some name)

section Settings

variable [Crates] {σ : Type} {w : Worker} {view : σ → World}
  {exec : σ → (r : Request) → r.Answer → σ → Prop} {a b : σ} {k : Key} {f : Fill}
  {o : Outcome Error Unit} {nicSpec nic : NetworkAttachment} {i : Nat} {earlier : List Fill}

omit [Crates] in
theorem Builds.of_carries {ovn : Prop} {model : String} {template : NetworkInterfaceTemplate}
    (h : Carries nicSpec ovn nic) (ht : Host.interfaceTemplate model nic = .ret template) :
    Builds nicSpec ovn template := by
  obtain ⟨-, hmac, ht⟩ := Host.interfaceTemplate_ret ht
  rw [ht]
  refine ⟨fun mac hm => ?_, fun queues hq => ?_, h.untaggedVlan, h.taggedVlans, h.ovnId⟩
  · have := h.macAddress (Option.isSome_of_eq_some hm)
    rw [hm, hmac] at this
    exact Option.some.inj this
  · have := h.queues (Option.isSome_of_eq_some hq)
    show nic.queues.getD 1 = queues
    rw [this, hq]
    rfl

omit [Crates] in
theorem mem_vlansOf_of_carries {ovn : Prop} (h : Carries nicSpec ovn nic) {vlan : UInt16}
    (hv : vlan ∈ vlansOf nicSpec) : vlan ∈ vlansOf nic := by
  unfold vlansOf at hv ⊢
  rcases List.mem_append.mp hv with hv | hv
  · refine List.mem_append_left _ ?_
    rw [h.taggedVlans ?_]
    · exact hv
    · cases ht : nicSpec.taggedVlans with
      | none =>
        rw [ht] at hv
        cases hv
      | some l => rfl
  · refine List.mem_append_right _ ?_
    rw [h.untaggedVlan ?_]
    · exact hv
    · rw [Option.mem_toList] at hv
      exact Option.isSome_of_eq_some hv

omit [Crates] in
/-- The VLANs that a NIC starts from are those of the entry that it takes over. -/
theorem Fill.vlans_startOf : (f.startOf nicSpec).untaggedVlan = (f.takenOver nicSpec).bind (·.untaggedVlan) ∧
    (f.startOf nicSpec).taggedVlans = (f.takenOver nicSpec).bind (·.taggedVlans) := by
  cases ht : f.takenOver nicSpec with
  | none =>
    rw [Fill.startOf_none ht]
    exact ⟨rfl, rfl⟩
  | some e =>
    rw [Fill.startOf_some ht]
    exact ⟨rfl, rfl⟩

/-- The entry has what the spec sets, if the VLANs are there already. -/
theorem FilledAt.carries_iff (h : FilledAt f i nicSpec nic) (hkind : nicSpec.name = none ∨ f.OnOvn nicSpec) :
    Carries nicSpec (f.OnOvn nicSpec) nic ↔
      (nicSpec.untaggedVlan.isSome = true →
        (f.takenOver nicSpec).bind (·.untaggedVlan) = nicSpec.untaggedVlan) ∧
      (nicSpec.taggedVlans.isSome = true →
        (f.takenOver nicSpec).bind (·.taggedVlans) = nicSpec.taggedVlans) := by
  have hmac : nicSpec.macAddress.isSome = true → nic.macAddress = nicSpec.macAddress := by
    intro hs
    obtain ⟨mac, hm⟩ := Option.isSome_iff_exists.mp hs
    rw [h.macAddress.2, hm]
    rfl
  have hvlan : nic.untaggedVlan = (f.startOf nicSpec).untaggedVlan := by
    rcases hkind with hn | ⟨network, hn, ht⟩
    · exact (h.unmanaged hn).2.1
    · exact (h.ovn network hn ht).2.1
  have hid : f.OnOvn nicSpec → nicSpec.ovnId.isSome = true → nic.ovnId = nicSpec.ovnId := by
    rintro ⟨network, hn, ht⟩ hs
    obtain ⟨-, -, id, hid, hkept⟩ := h.ovn network hn ht
    obtain ⟨id', hs⟩ := Option.isSome_iff_exists.mp hs
    rw [hs] at hkept ⊢
    exact hid.trans (congrArg some hkept.symm)
  have hvlans : (f.startOf nicSpec).untaggedVlan = _ ∧ (f.startOf nicSpec).taggedVlans = _ :=
    Fill.vlans_startOf
  obtain ⟨huntagged, htagged⟩ := hvlans
  rw [← huntagged, ← htagged, ← hvlan, ← h.taggedVlans]
  exact ⟨fun h => ⟨h.untaggedVlan, h.taggedVlans⟩, fun hv => ⟨hmac, fun _ => h.queues, hv.1, hv.2, hid⟩⟩

/-- The entry of a NIC on a bridge is recorded unless it is that of a network which the spec does not
name. -/
theorem FillRun.mem_nics_unmanaged_iff (h : FillRun view exec k a f o b)
    (hspec : nicSpec ∈ f.vm.spec.networks) (hf : FilledAt f i nicSpec nic) (hn : nicSpec.name = none) :
    nic ∈ f.nics ↔ ∀ e name, f.takenOver nicSpec = some e → e.name = some name →
      ∃ other ∈ f.vm.spec.networks, other.name = some name := by
  obtain ⟨-, -, st, a₁, -, hc, -⟩ := h
  have hmem := List.mem_of_getElem? hf.entry
  have hnamed : ∀ name, nic.name = some name → (nic ∈ f.nics ↔
      ∃ other ∈ f.vm.spec.networks, other.name = some name) := by
    intro name hname
    rw [mem_retainNics_iff hc.retained, findMatchingNetwork_named hname]
    simp only [hmem, true_and, Except.ok.injEq]
    rw [← Option.isSome_iff_exists, List.find?_isSome]
    simp
  have hunnamed : nic.name = none → nic.bridge = nicSpec.bridge → nic ∈ f.nics := by
    intro hname hbridge
    obtain ⟨bridge, hb⟩ : ∃ bridge, nicSpec.bridge = some bridge := by
      have hfound := hf.found
      unfold findMatchingNetwork at hfound
      rw [hn] at hfound
      cases hb : nicSpec.bridge with
      | some bridge => exact ⟨bridge, rfl⟩
      | none =>
        rw [hb] at hfound
        cases hfound
    rw [mem_retainNics_iff hc.retained, findMatchingNetwork_bridge hname (hbridge.trans hb)]
    refine ⟨hmem, ?_⟩
    simp only [Except.ok.injEq]
    rw [← Option.isSome_iff_exists, List.find?_isSome]
    exact ⟨nicSpec, hspec, by simp [hb]⟩
  have hbridge := (hf.unmanaged hn).1
  cases he : f.takenOver nicSpec with
  | none =>
    have hname := hf.name
    rw [Fill.startOf_none he] at hname hbridge
    exact iff_of_true (hunnamed (hname.trans hn) hbridge) nofun
  | some e =>
    have hname := hf.name
    rw [Fill.startOf_some he] at hname hbridge
    cases hen : e.name with
    | none =>
      refine iff_of_true (hunnamed (hname.trans hen) (hbridge.trans ?_)) ?_
      · exact (mem_of_findMatchingNetwork (he ▸ hf.found)).2.2 hn
      · rintro e' name ⟨⟩ he'
        cases hen.symm.trans he'
    | some name =>
      rw [hnamed name (hname.trans hen)]
      refine ⟨fun h e' name' he' hn' => ?_, fun h => h e name rfl hen⟩
      cases he'
      cases hen.symm.trans hn'
      exact h

/-- In every history, everything that the spec sets for a NIC on a bridge or on an OVN network reaches
the domain after a run of `fill_nics` that gets through, if and only if the VLANs that it sets are
there already, and no NIC on a bridge takes over the entry of a network that the spec does not name. -/
theorem carried_iff {fills : List Fill} {s t : World} (h : NicHistory k s (f :: fills) t) :
    f.Carried ↔ f.HasVlans := by
  obtain ⟨a, o, b, -, hrun⟩ := h.last
  constructor
  · intro hc nicSpec hspec hkind hsets
    obtain ⟨i, hi⟩ := List.mem_iff_getElem?.mp hspec
    obtain ⟨nic, hnic, hentry, hcarries, -⟩ := hc i nicSpec hi hkind hsets
    obtain ⟨nic', hf⟩ := hrun.filledAt (watches_served _) hi
    obtain rfl : nic = nic' := Option.some.inj (hentry.symm.trans hf.entry)
    obtain ⟨huntagged, htagged⟩ := (hf.carries_iff hkind).mp hcarries
    exact ⟨huntagged, htagged, fun hn => (hrun.mem_nics_unmanaged_iff hspec hf hn).mp hnic⟩
  · intro hv i nicSpec hi hkind hsets
    have hspec := List.mem_of_getElem? hi
    obtain ⟨huntagged, htagged, hunmanaged⟩ := hv nicSpec hspec hkind hsets
    obtain ⟨nic, hf⟩ := hrun.filledAt (watches_served _) hi
    have hcarries := (hf.carries_iff hkind).mpr ⟨huntagged, htagged⟩
    have hnic : nic ∈ f.nics := by
      cases hn : nicSpec.name with
      | none => exact (hrun.mem_nics_unmanaged_iff hspec hf hn).mpr (hunmanaged hn)
      | some name => exact hrun.mem_nics hi hf (Option.isSome_of_eq_some hn)
    refine ⟨nic, hnic, hf.entry, hcarries, fun model template ht => .of_carries hcarries ht, ?_⟩
    exact fun vlan hvlan => List.mem_flatMap.mpr ⟨nic, hnic, mem_vlansOf_of_carries hcarries hvlan⟩

end Settings

attribute [local instance] plainCrates

/-- A NIC on a bridge with tagged VLANs. -/
def taggedNic : NetworkAttachment := { nicAt "br" with taggedVlans := some [5] }

/-- The tagged VLANs of the spec are not copied. -/
theorem tagged_vlans_dropped : ∃ (s t : World) (f : Fill), Serial Served anyDeed World.initial s ∧
    NicHistory vmKey s [f] t ∧ ¬ f.Carried := by
  have h : ((performAll anyRequest anyDeed World.initial (createdOn [taggedNic])).any fun s =>
      (s.vms.find? vmKey).any (fun v => v.spec.networks = [taggedNic]) &&
      (performFill vmKey s).any fun q => q.2.vms.revision ≠ s.vms.revision &&
        (q.2.vms.find? vmKey).any fun v =>
          (recordedNics v).all fun nic => nic.taggedVlans = none) = true := by
    decide +kernel
  simp only [Option.any_eq_true, Bool.and_eq_true, decide_eq_true_eq, List.all_eq_true] at h
  obtain ⟨s, hs, ⟨v, hv, hspec⟩, ⟨o, t⟩, hperf, hne, v', hv', hvlans⟩ := h
  obtain ⟨f, hfv, -, hrun⟩ := fillRun_of_perform hperf (.inr hne)
  cases hv.symm.trans hfv
  refine ⟨s, t, f, (serial_of_perform hs).mono (fun _ _ _ _ _ h => h.1) (fun _ _ h => h),
    .fill .start hrun, fun hc => ?_⟩
  obtain ⟨nic, hnic, -, hcarries, -⟩ := hc 0 taggedNic (by rw [hspec]; rfl) (.inl rfl)
    (.inr (.inr (.inr (.inl rfl))))
  have htagged := hcarries.taggedVlans rfl
  rw [hvlans nic (hrun.recorded (watches_served _) hv' ▸ hnic)] at htagged
  cases htagged

/-- A NIC on a bridge with an address and queues. -/
def addressedNic : NetworkAttachment :=
  { nicAt "br" with macAddress := some "52:54:00:1:2:3", queues := some 2 }

/-- An address and queues reach the domain. -/
theorem carried_iff_addressed : ∃ f : Fill, f.vm.spec.networks = [addressedNic] ∧ f.Carried := by
  have h : ((performAll anyRequest anyDeed World.initial (createdOn [addressedNic])).any fun s =>
      (s.vms.find? vmKey).any (fun v => v.spec.networks = [addressedNic] && recordedNics v = []) &&
      (performFill vmKey s).any fun q => q.2.vms.revision ≠ s.vms.revision) = true := by
    decide +kernel
  simp only [Option.any_eq_true, Bool.and_eq_true, decide_eq_true_eq] at h
  obtain ⟨s, -, ⟨v, hv, hspec, hrec⟩, ⟨o, t⟩, hperf, hne⟩ := h
  obtain ⟨f, hfv, -, hrun⟩ := fillRun_of_perform hperf (.inr hne)
  cases hv.symm.trans hfv
  refine ⟨f, hspec, (carried_iff (.fill .start hrun)).mpr fun nicSpec hnic _ _ => ?_⟩
  rw [hspec, List.mem_singleton] at hnic
  subst hnic
  refine ⟨by rintro ⟨⟩, by rintro ⟨⟩, fun _ e name he => ?_⟩
  cases he.symm.trans (Fill.takenOver_of_first hrec)

end ClusterController
