import ClusterController.CephActions
import ClusterController.Contracts
import ClusterController.SwitchPorts

/-!
# Removal

What the remove functions do when every call of theirs succeeds: from which states they
return `Ok` with the external object gone and the finalizer taken away.
-/

namespace ClusterController

open ApiServer (Key Resource Collection)
open Interaction (Program)
open Interaction.Program (Outcome After Ends ends_bind after_ret after_fail after_abort)
open Ovsdb (Row Database Consistent dropRefs modifyRow_eq_map)

/-! ## The connection to OVN -/

/-- The address that `Ovn::try_from_annotations` uses for a node of the OVN central. -/
def centralAddress (node : Node) : Option String :=
  if ovnCentralStatus node = .managed || ovnCentralStatus node = .unmanaged then
    (ovnCentralAnnotatedIp node).or (internalIp node)
  else none

/-- Some node of the OVN central has an address. -/
def HasCentral (s : World) : Prop :=
  ∃ node ∈ (s.kube .node).list none, (centralAddress node).isSome = true

section Connection

variable {ok : (r : Request) → r.Answer → Prop} {w : Worker} {s : World} {κ : Kind}

/-- The first node with an address is connected to. -/
theorem after_connectFirst (nodes : List Node) :
    After (answering ok w) (connectFirst nodes none) s fun o t => t = s ∧ ((o = .ok () ∧
        ∃ node ∈ nodes, ((ovnCentralAnnotatedIp node).or (internalIp node)).isSome = true) ∨
      ((∃ e, o = .err e) ∧
        ∀ node ∈ nodes, (ovnCentralAnnotatedIp node).or (internalIp node) = none)) := by
  intro o t h
  induction nodes with
  | nil =>
    obtain ⟨rfl, rfl⟩ := h
    exact ⟨rfl, .inr ⟨⟨_, rfl⟩, nofun⟩⟩
  | cons node nodes ih =>
    unfold connectFirst at h
    split at h
    · next address ha =>
      obtain ⟨a, s₁, ⟨⟨x, hx, hans⟩, -⟩, hk⟩ := h
      have hd : x.deliver none s (some (), s) = (a, s₁) := Option.some.inj hans
      unfold Choice.deliver at hd
      rw [hx] at hd
      cases hd
      obtain ⟨rfl, rfl⟩ := hk
      exact ⟨rfl, .inl ⟨rfl, node, List.mem_cons_self, by rw [ha]; rfl⟩⟩
    · next ha =>
      obtain ⟨rfl, ⟨ho, n, hn, hs⟩ | ⟨ho, hn⟩⟩ := ih h
      · exact ⟨rfl, .inl ⟨ho, n, List.mem_cons_of_mem _ hn, hs⟩⟩
      · exact ⟨rfl, .inr ⟨ho, List.forall_mem_cons.mpr ⟨ha, hn⟩⟩⟩

theorem after_ovnTry {α : Type} {f : Unit → Prog α} {post : Outcome Error α → World → Prop}
    (hok : HasCentral s → After (answering ok w) (f ()) s post)
    (herr : ∀ e, ¬HasCentral s → post (.err e) s) :
    After (answering ok w) (ovnTryFromAnnotations >>= f) s post := by
  have hlist : After (answering ok w) (kubeList .node none) s fun o t =>
      o = .ok ((s.kube .node).list none) ∧ t = s :=
    fun o t h => ends_kubeList (h.mono fun _ _ _ _ he => he.1)
  unfold ovnTryFromAnnotations
  rw [Program.bind_assoc']
  refine hlist.bind ?_ (fun e t h => nomatch h.1) fun m t h => nomatch h.1
  rintro _ _ ⟨ho, rfl⟩
  cases ho
  refine (after_connectFirst _).bind ?_ ?_ ?_
  · rintro _ _ ⟨rfl, ⟨-, n, hn, hs⟩ | ⟨⟨e, he⟩, -⟩⟩
    · obtain ⟨hn, hc⟩ := List.mem_filter.mp hn
      refine hok ⟨n, hn, ?_⟩
      unfold centralAddress
      rw [if_pos hc]
      exact hs
    · cases he
  · rintro e _ ⟨rfl, ⟨ho, -⟩ | ⟨-, hn⟩⟩
    · cases ho
    · refine herr e ?_
      rintro ⟨n, hmem, hs⟩
      unfold centralAddress at hs
      split at hs
      · next hc =>
        rw [hn n (List.mem_filter.mpr ⟨hmem, hc⟩)] at hs
        cases hs
      · cases hs
  · rintro m _ ⟨-, ⟨ho, -⟩ | ⟨⟨e, he⟩, -⟩⟩
    · cases ho
    · cases he

end Connection

/-! ## Finalizers -/

/-- The stored object does not have the finalizer. -/
def Unguarded (κ : Kind) (k : Key) (finalizer : String) (s : World) : Prop :=
  ∀ v, (s.kube κ).find? k = some v → hasFinalizer v (finalizerName finalizer) = false

section Finalizer

variable {w : Worker} {s : World} {κ : Kind} {v : Object κ} {finalizer : String}

/-- A finalizer is taken away from the stored object. -/
theorem after_removeFinalizer (hs : (s.kube κ).find? v.key = some v)
    (hf : hasFinalizer v (finalizerName finalizer) = true)
    {post : Outcome Error Unit → World → Prop}
    (h : ∀ c, Unguarded κ v.key finalizer (s.setKube κ c) → post (.ok ()) (s.setKube κ c)) :
    After (answering Succeeded w) (do let _ ← removeFinalizer v finalizer) s post := by
  have hsub : ∀ f ∈ (dropFinalizer v (finalizerName finalizer)).metadata.finalizers,
      f ∈ v.metadata.finalizers := fun f hf => (List.mem_filter.mp hf).1
  have hrep := Collection.replace_shrunk hs (n := dropFinalizer v (finalizerName finalizer)) rfl rfl
    rfl rfl rfl hsub
  have hcommit : After (answering Succeeded w) (commit (dropFinalizer v (finalizerName finalizer))
      (.removeFinalizer finalizer)) s fun o t => Written κ _ s o t :=
    fun o t he => ends_commit (he.mono fun _ _ _ _ h => h.1)
  unfold removeFinalizer
  rw [if_pos hf]
  dsimp only
  rw [Program.bind_assoc']
  refine hcommit.bind ?_ ?_ ?_
  · rintro u t (⟨r, c, hr, -, rfl⟩ | ⟨e, he, ho, -⟩)
    · obtain rfl : _ = c := congrArg Prod.snd (Except.ok.inj (hrep.symm.trans hr))
      refine after_ret (h _ fun v' hv' => ?_)
      rw [World.kube_setKube_self] at hv'
      have hfin := Collection.finalizers_of_settle hs (n := dropFinalizer v _) rfl hv'
      unfold hasFinalizer
      rw [hfin]
      simp [dropFinalizer]
    · cases ho
  · rintro e t (⟨r, c, -, ho, -⟩ | ⟨e', he, -, -⟩)
    · cases ho
    · rw [hrep] at he
      cases he
  · rintro m t (⟨r, c, -, ho, -⟩ | ⟨e', -, ho, -⟩)
    · cases ho
    · cases ho

end Finalizer

/-! ## Volumes and images -/

section Images

variable {w : Worker} {s : World}

theorem after_removeVolume {v : Volume} (hs : (s.kube .volume).find? v.key = some v)
    (hf : hasFinalizer v (finalizerName "ceph") = true) (hn : s.ceph.Named) :
    After (answering Succeeded w) (Volumes.removeVolume v) s fun o t => o = .ok () ∧
      t.ceph.find? poolVolumes (namePrefixedWithNamespace v.key) = none ∧
      Unguarded .volume v.key "ceph" t :=
  after_ensureRemoved hn fun c hc =>
    after_removeFinalizer (s := s.setCeph c) hs hf fun _ hu => ⟨rfl, hc, hu⟩

theorem after_removeImage {v : Image} (hs : (s.kube .image).find? v.key = some v)
    (hf : hasFinalizer v (finalizerName "ceph") = true) (hn : s.ceph.Named) :
    After (answering Succeeded w) (Images.removeImage v) s fun o t => o = .ok () ∧
      t.ceph.find? poolTemplates (namePrefixedWithNamespace v.key) = none ∧
      Unguarded .image v.key "ceph" t :=
  after_ensureRemoved hn fun c hc =>
    after_removeFinalizer (s := s.setCeph c) hs hf fun _ hu => ⟨rfl, hc, hu⟩

end Images

/-! ## Switches and routers -/

/-- At most one row of the table has the name. -/
def Sole (db : Database) (T name : String) : Prop :=
  ∀ r ∈ db T, ∀ r' ∈ db T, rowText r "name" = name → rowText r' "name" = name → r'.uuid = r.uuid

/-- Without a row of a name, no row of the name is left if there was no other. -/
theorem named_deleted {db : Database} {T name : String} {r : Row} (hT : northbound.isRoot T = true)
    (hr : named db T name = some r) :
    named ((db.modify T fun rows => rows.filter fun r' => r'.uuid ≠ r.uuid).sweep northbound) T name =
      none ↔ Sole db T name := by
  obtain ⟨hmem, hname⟩ := firstWith_some hr
  rw [firstWith_none, Ovsdb.sweep_root hT, Database.modify_self]
  constructor
  · intro h r₁ h₁ r₂ h₂ hn₁ hn₂
    have hall : ∀ r' ∈ db T, rowText r' "name" = name → r'.uuid = r.uuid := by
      intro r' hr' hn
      by_contra hne
      exact h r' (List.mem_filter.mpr ⟨hr', decide_eq_true hne⟩) hn
    rw [hall r₁ h₁ hn₁, hall r₂ h₂ hn₂]
  · intro h r' hr' hn
    obtain ⟨hr', hne⟩ := List.mem_filter.mp hr'
    exact of_decide_eq_true hne (h r hmem r' hr' hname hn)

section Switches

variable {w : Worker} {s : World}

/-- The network is one that `remove_network` can remove. -/
def NetworkRemovable (v : Network) (s : World) : Prop :=
  v.spec.networkType.getD .ovn = .ovn ∧ HasCentral s ∧
    Sole s.northbound typeLogicalSwitch (namePrefixedWithNamespace v.key)

theorem after_removeNetwork {v : Network} (hs : (s.kube .network).find? v.key = some v)
    (hf : hasFinalizer v (finalizerName "ovn") = true) (hc : Consistent northbound s.northbound) :
    After (answering Succeeded w) (removeNetwork v) s fun o t => (o = .ok () ∧
      named t.northbound typeLogicalSwitch (namePrefixedWithNamespace v.key) = none ∧
      Unguarded .network v.key "ovn" t) ↔ NetworkRemovable v s := by
  unfold removeNetwork
  split
  · next htype =>
    -- Nothing is done for other networks: the finalizer stays.
    refine after_ret (iff_of_false ?_ fun h => htype h.1)
    rintro ⟨-, -, hu⟩
    rw [hu v hs] at hf
    cases hf
  · next htype =>
    have htype := Classical.not_not.mp htype
    refine after_ovnTry (fun hcen => ?_) fun e hcen => iff_of_false nofun fun h => hcen h.2.1
    unfold deleteSwitch
    rw [Program.bind_assoc']
    refine (reads_getByName LogicalSwitch hc _).attempt.after (fun x hx => ?_) nofun
      fun o h => absurd h not_unanswered
    cases hx
    unfold foundByName
    cases hn : named s.northbound (OvnCommon.ovnType LogicalSwitch) _ with
    | some r =>
      refine after_ovnDelete LogicalSwitch (.inl rfl) hc (fun db hcons hdb => ?_)
        fun o h => absurd h not_unanswered
      refine after_removeFinalizer (s := s.setNorthbound db) hs hf fun c hu => ?_
      have hdel := named_deleted rfl hn
      subst hdb
      exact ⟨fun h => ⟨htype, hcen, hdel.mp h.2.1⟩, fun h => ⟨rfl, hdel.mpr h.2.2, hu⟩⟩
    | none =>
      refine after_removeFinalizer hs hf fun c hu => iff_of_true ⟨rfl, hn, hu⟩ ⟨htype, hcen, ?_⟩
      exact fun r hr _ _ hname _ => absurd hname (firstWith_none.mp hn r hr)

/-- The router is one that `remove_router` can remove. -/
def RouterRemovable (v : Router) (s : World) : Prop :=
  HasCentral s ∧ (named s.northbound typeLogicalRouter (namePrefixedWithNamespace v.key)).isSome = true ∧
    Sole s.northbound typeLogicalRouter (namePrefixedWithNamespace v.key)

theorem after_removeRouter {v : Router} (hs : (s.kube .router).find? v.key = some v)
    (hf : hasFinalizer v (finalizerName "ovn") = true) (hc : Consistent northbound s.northbound) :
    After (answering Succeeded w) (removeRouter v) s fun o t => (o = .ok () ∧
      named t.northbound typeLogicalRouter (namePrefixedWithNamespace v.key) = none ∧
      Unguarded .router v.key "ovn" t) ↔ RouterRemovable v s := by
  unfold removeRouter
  refine after_ovnTry (fun hcen => ?_) fun e hcen => iff_of_false nofun fun h => hcen h.1
  have hread : Reads Succeeded w s (getByName LogicalRouter _) _ :=
    reads_getByName LogicalRouter hc (namePrefixedWithNamespace v.key)
  unfold foundByName at hread
  cases hn : named s.northbound (OvnCommon.ovnType LogicalRouter) _ with
  | some r =>
    rw [hn] at hread
    refine hread.after (fun x hx => ?_) nofun fun o h => absurd h not_unanswered
    cases hx
    refine after_ovnDelete LogicalRouter (.inr rfl) hc (fun db hcons hdb => ?_)
      fun o h => absurd h not_unanswered
    refine after_removeFinalizer (s := s.setNorthbound db) hs hf fun c hu => ?_
    have hdel := named_deleted rfl hn
    subst hdb
    refine ⟨fun h => ⟨hcen, ?_, hdel.mp h.2.1⟩, fun h => ⟨rfl, hdel.mpr h.2.2, hu⟩⟩
    exact Option.isSome_of_eq_some hn
  | none =>
    rw [hn] at hread
    refine hread.after nofun (fun e _ => iff_of_false nofun fun h => ?_)
      fun o h => absurd h not_unanswered
    have hsome := h.2.1
    rw [show named s.northbound typeLogicalRouter _ = none from hn] at hsome
    cases hsome

end Switches

/-! ## Ports of virtual machines -/

/-- The removal of the NIC's port takes the port `v` from the switch `u`. -/
def Drops (db : Database) (ns : String) (nic : NetworkAttachment) (u v : String) : Prop :=
  ∃ network id, nic.name = some network ∧ nic.ovnId = some id ∧
    switchOf db (ns ++ "-" ++ network) = some u ∧ portOf db id = some v

/-- The database after the ports of some NICs have been removed from it. -/
structure Pruned (db : Database) (ns : String) (nics : List NetworkAttachment) (db' : Database) :
    Prop where
  consistent : Consistent northbound db'
  switches : ∀ name, switchOf db' name = switchOf db name
  ports : ∀ p, p ∈ db' typeLogicalSwitchPort ↔
    p ∈ db typeLogicalSwitchPort ∧ ∃ u, Holds db' u p.uuid
  holds : ∀ u v, Holds db' u v ↔ Holds db u v ∧ ∀ nic ∈ nics, ¬Drops db ns nic u v

/-- The NIC has a network name, and the switch of that name is there if the port still is on
some switch. -/
def Clearable (db : Database) (ns : String) (before : List NetworkAttachment)
    (nic : NetworkAttachment) : Prop :=
  ∃ network, nic.name = some network ∧ ∀ id u v, nic.ovnId = some id → portOf db id = some v →
    Holds db u v → (∀ e ∈ before, ¬Drops db ns e u v) →
    (switchOf db (ns ++ "-" ++ network)).isSome = true

/-- Every NIC of the list, after those before it. -/
def AllClearable (db : Database) (ns : String) (before nics : List NetworkAttachment) : Prop :=
  ∀ front nic back, nics = front ++ nic :: back → Clearable db ns (before ++ front) nic

theorem allClearable_cons {db : Database} {ns : String} {before nics : List NetworkAttachment}
    {nic : NetworkAttachment} : AllClearable db ns before (nic :: nics) ↔
      Clearable db ns before nic ∧ AllClearable db ns (before ++ [nic]) nics := by
  constructor
  · intro h
    refine ⟨by simpa using h [] nic nics rfl, fun front e back he => ?_⟩
    rw [List.append_assoc]
    exact h (nic :: front) e back (by rw [he]; rfl)
  · rintro ⟨hnic, h⟩ front e back he
    cases front with
    | nil =>
      cases he
      simpa using hnic
    | cons f front =>
      cases he
      have := h front e back rfl
      rwa [List.append_assoc] at this

section Ports

variable {w : Worker} {s : World} {db : Database} {vm : VirtualMachine} {nic : NetworkAttachment}
  {before nics : List NetworkAttachment} {id : String}

theorem Pruned.refl {ns : String} (hc : Consistent northbound db) : Pruned db ns [] db :=
  ⟨hc, fun _ => rfl, fun _ => ⟨fun h => ⟨h, exists_holds hc h⟩, fun h => h.1⟩,
    fun _ _ => ⟨fun h => ⟨h, nofun⟩, fun h => h.1⟩⟩

/-- A port is gone when no switch has it any more. -/
theorem Pruned.named_eq_none {ns : String} {db' : Database} (hc : Consistent northbound db)
    (h : Pruned db ns nics db') : named db' typeLogicalSwitchPort id = none ↔
      ∀ u v, portOf db id = some v → ¬Holds db' u v := by
  constructor
  · intro hn u v hv hu
    obtain ⟨p, hp, rfl⟩ := Option.map_eq_some_iff.mp hv
    obtain ⟨hp, hname⟩ := firstWith_some hp
    exact firstWith_none.mp hn p ((h.ports p).mpr ⟨hp, u, hu⟩) hname
  · intro hall
    cases hn : named db' typeLogicalSwitchPort id with
    | none => rfl
    | some p =>
      obtain ⟨hp, hname⟩ := firstWith_some hn
      obtain ⟨hp, u, hu⟩ := (h.ports p).mp hp
      refine absurd hu (hall u p.uuid ?_)
      unfold portOf uuidOf
      rw [(named_port_iff hc).mpr ⟨hp, hname⟩]
      rfl

/-- A port that is still there is the one that was there. -/
theorem Pruned.portOf_eq {ns : String} {db' : Database} {p : Row} (hc : Consistent northbound db)
    (h : Pruned db ns nics db') (hp : named db' typeLogicalSwitchPort id = some p) :
    portOf db id = some p.uuid := by
  obtain ⟨hp, hname⟩ := firstWith_some hp
  unfold portOf uuidOf
  rw [(named_port_iff hc).mpr ⟨((h.ports p).mp hp).1, hname⟩]
  rfl

/-- Nothing is left to do for a NIC whose port is gone. -/
theorem Pruned.skip {ns : String} {db' : Database} (hc : Consistent northbound db)
    (h : Pruned db ns before db') (hid : nic.ovnId = some id)
    (hn : named db' typeLogicalSwitchPort id = none) : Pruned db ns (before ++ [nic]) db' := by
  refine ⟨h.consistent, h.switches, h.ports, fun u v => ?_⟩
  rw [List.forall_mem_append, List.forall_mem_singleton, ← and_assoc, ← h.holds]
  refine ⟨fun hu => ⟨hu, ?_⟩, fun hu => hu.1⟩
  rintro ⟨network, id', -, hid', -, hv⟩
  cases hid.symm.trans hid'
  exact (h.named_eq_none hc).mp hn u v hv hu

/-- The port of a NIC is taken from the switch of its network. -/
theorem Pruned.drop {ns network u v : String} {db' : Database} (h : Pruned db ns before db')
    (hname : nic.name = some network) (hid : nic.ovnId = some id)
    (hu : switchOf db (ns ++ "-" ++ network) = some u) (hv : portOf db id = some v)
    (hcons : Consistent northbound
      ((db'.modifyRow typeLogicalSwitch u (dropRefs "ports" [v])).sweep northbound)) :
    Pruned db ns (before ++ [nic])
      ((db'.modifyRow typeLogicalSwitch u (dropRefs "ports" [v])).sweep northbound) := by
  have hdrops : ∀ u' v', Drops db ns nic u' v' ↔ u' = u ∧ v' = v := by
    intro u' v'
    constructor
    · rintro ⟨network', id', hn', hid', hu', hv'⟩
      cases hname.symm.trans hn'
      cases hid.symm.trans hid'
      cases hu.symm.trans hu'
      cases hv.symm.trans hv'
      exact ⟨rfl, rfl⟩
    · rintro ⟨rfl, rfl⟩
      exact ⟨network, id, hname, hid, hu, hv⟩
  refine ⟨hcons, fun name => switchOf_dropped.trans (h.switches name), fun p => ?_, fun u' v' => ?_⟩
  · rw [mem_ports_dropped hcons, h.ports]
    refine ⟨fun ⟨hp, hex⟩ => ⟨hp.1, hex⟩, fun ⟨hp, u', hex⟩ => ⟨⟨hp, u', ?_⟩, u', hex⟩⟩
    exact (holds_dropped.mp hex).1
  · rw [holds_dropped, h.holds, List.forall_mem_append, List.forall_mem_singleton, hdrops, and_assoc]

/-- One NIC: its port is gone afterwards, unless it is on a switch and the switch of its network
is not there, or the NIC has no network name. -/
theorem prunes_disconnectVmNic (hc : Consistent northbound db)
    (h : Pruned db vm.metadata.ns before s.northbound) (hid : nic.ovnId = some id) :
    After (answering Succeeded w) (disconnectVmNic vm nic) s fun o t => t.kube = s.kube ∧
      ((o = .ok () ∧ Clearable db vm.metadata.ns before nic ∧
          Pruned db vm.metadata.ns (before ++ [nic]) t.northbound) ∨
        (o ≠ .ok () ∧ ¬Clearable db vm.metadata.ns before nic)) := by
  cases hname : nic.name with
  | none =>
    unfold disconnectVmNic
    rw [hname]
    refine after_abort ⟨rfl, .inr ⟨nofun, ?_⟩⟩
    rintro ⟨network, hn, -⟩
    rw [hname] at hn
    cases hn
  | some network =>
    refine after_disconnectVmNic h.consistent hname hid (fun hp => ?_) (fun p e hp hs => ?_)
      (fun p r db' hp hs hcons hdb => ?_) fun o h => absurd h not_unanswered
    · refine ⟨rfl, .inl ⟨rfl, ⟨network, hname, fun id' u v hid' hv hu hb => ?_⟩, h.skip hc hid hp⟩⟩
      cases hid.symm.trans hid'
      exact absurd ((h.holds u v).mpr ⟨hu, hb⟩) ((h.named_eq_none hc).mp hp u v hv)
    · have hv := h.portOf_eq hc hp
      obtain ⟨u, hu⟩ := exists_holds h.consistent (firstWith_some hp).1
      refine ⟨rfl, .inr ⟨nofun, ?_⟩⟩
      rintro ⟨network', hn', hall⟩
      cases hname.symm.trans hn'
      obtain ⟨hu, hb⟩ := (h.holds u p.uuid).mp hu
      have hsome := hall id u p.uuid hid hv hu hb
      rw [← h.switches, switchOf, uuidOf, hs] at hsome
      cases hsome
    · have hr : switchOf db (vm.metadata.ns ++ "-" ++ network) = some r.uuid := by
        rw [← h.switches, switchOf, uuidOf, hs]
        rfl
      subst hdb
      refine ⟨rfl, .inl ⟨rfl, ⟨network, hname, fun _ _ _ _ _ _ _ => ?_⟩,
        h.drop hname hid hr (h.portOf_eq hc hp) hcons⟩⟩
      rw [hr]
      rfl

/-- All NICs. -/
theorem after_disconnectAll (hc : Consistent northbound db)
    (h : Pruned db vm.metadata.ns before s.northbound)
    (hids : ∀ nic ∈ nics, nic.ovnId.isSome = true) :
    After (answering Succeeded w) (Program.forEach nics (disconnectVmNic vm)) s fun o t =>
      t.kube = s.kube ∧ ((o = .ok () ∧ AllClearable db vm.metadata.ns before nics ∧
          Pruned db vm.metadata.ns (before ++ nics) t.northbound) ∨
        (o ≠ .ok () ∧ ¬AllClearable db vm.metadata.ns before nics)) := by
  induction nics generalizing s before with
  | nil =>
    refine after_ret ⟨rfl, .inl ⟨rfl, fun front nic back he => ?_, by rwa [List.append_nil]⟩⟩
    cases front <;> cases he
  | cons nic nics ih =>
    obtain ⟨id, hid⟩ := Option.isSome_iff_exists.mp (hids nic List.mem_cons_self)
    refine (prunes_disconnectVmNic hc h hid).bind ?_ ?_ ?_
    · rintro u t ⟨ht, ⟨-, hclear, hpruned⟩ | ⟨ho, -⟩⟩
      · refine (ih hpruned fun e he => hids e (List.mem_cons_of_mem _ he)).mono ?_
        rintro o t' ⟨ht', hres⟩
        rw [allClearable_cons, ← List.singleton_append (l := nics), ← List.append_assoc]
        refine ⟨ht'.trans ht, hres.imp ?_ ?_⟩
        · rintro ⟨ho, hall, hp⟩
          exact ⟨ho, ⟨hclear, hall⟩, hp⟩
        · rintro ⟨ho, hnot⟩
          exact ⟨ho, fun h => hnot h.2⟩
      · exact absurd rfl ho
    · rintro e t ⟨ht, ⟨ho, -⟩ | ⟨-, hnot⟩⟩
      · cases ho
      · exact ⟨ht, .inr ⟨nofun, fun h => hnot (allClearable_cons.mp h).1⟩⟩
    · rintro m t ⟨ht, ⟨ho, -⟩ | ⟨-, hnot⟩⟩
      · cases ho
      · exact ⟨ht, .inr ⟨nofun, fun h => hnot (allClearable_cons.mp h).1⟩⟩

/-- The ports of the VM are gone. -/
def PortsGone (v : VirtualMachine) (t : World) : Prop :=
  ∀ nic ∈ getVmOvnNics v, ∀ id, nic.ovnId = some id →
    named t.northbound typeLogicalSwitchPort id = none

/-- The VM is one that `remove_vm` can remove: every recorded NIC can be cleared in its turn, and
the switches that have its ports are those of recorded networks. -/
def PortsRemovable (v : VirtualMachine) (s : World) : Prop :=
  HasCentral s ∧ AllClearable s.northbound v.metadata.ns [] (getVmOvnNics v) ∧
    ∀ nic ∈ getVmOvnNics v, ∀ id, nic.ovnId = some id → ∀ u p, portOf s.northbound id = some p →
      Holds s.northbound u p → ∃ e ∈ getVmOvnNics v, Drops s.northbound v.metadata.ns e u p

theorem ovnId_of_mem {v : VirtualMachine} (h : nic ∈ getVmOvnNics v) : nic.ovnId.isSome = true := by
  unfold getVmOvnNics at h
  split at h
  · exact (List.mem_filter.mp h).2
  · cases h

theorem Pruned.portsGone_iff {db' : Database} (hc : Consistent northbound s.northbound)
    (h : Pruned s.northbound vm.metadata.ns (getVmOvnNics vm) db') {t : World}
    (ht : t.northbound = db') : PortsGone vm t ↔
      ∀ nic ∈ getVmOvnNics vm, ∀ id, nic.ovnId = some id → ∀ u p, portOf s.northbound id = some p →
        Holds s.northbound u p → ∃ e ∈ getVmOvnNics vm, Drops s.northbound vm.metadata.ns e u p := by
  unfold PortsGone
  rw [ht]
  refine forall₄_congr fun nic _ id _ => ?_
  rw [h.named_eq_none hc]
  refine forall₃_congr fun u p _ => ?_
  rw [h.holds, not_and]
  refine forall_congr' fun _ => ?_
  simp

theorem after_removeVm {v : VirtualMachine} (hs : (s.kube .virtualMachine).find? v.key = some v)
    (hf : hasFinalizer v (finalizerName "ovn") = true) (hc : Consistent northbound s.northbound) :
    After (answering Succeeded w) (removeVm v) s fun o t => (o = .ok () ∧ PortsGone v t ∧
      Unguarded .virtualMachine v.key "ovn" t) ↔ PortsRemovable v s := by
  unfold removeVm
  refine after_ovnTry (fun hcen => ?_) fun e hcen => iff_of_false nofun fun h => hcen h.1
  refine (after_disconnectAll hc (Pruned.refl hc) fun nic hn => ovnId_of_mem hn).bind ?_ ?_ ?_
  · rintro u t ⟨ht, ⟨-, hall, hp⟩ | ⟨ho, -⟩⟩
    · refine after_removeFinalizer (s := t) (by rw [ht]; exact hs) hf fun c hu => ?_
      rw [List.nil_append] at hp
      have hgone := hp.portsGone_iff hc (t := t.setKube .virtualMachine c) rfl
      exact ⟨fun h => ⟨hcen, hall, hgone.mp h.2.1⟩, fun h => ⟨rfl, hgone.mpr h.2.2, hu⟩⟩
    · exact absurd rfl ho
  · rintro e t ⟨ht, ⟨ho, -⟩ | ⟨-, hnot⟩⟩
    · cases ho
    · exact iff_of_false nofun fun h => hnot h.2.1
  · rintro m t ⟨ht, ⟨ho, -⟩ | ⟨-, hnot⟩⟩
    · cases ho
    · exact iff_of_false nofun fun h => hnot h.2.1

end Ports

/-! ## All controllers -/

namespace Worker

/-- The finalizer of the controllers that keep something in Ceph or OVN. -/
def finalizer : Worker → Option String
  | network _ => some "ovn"
  | router _ => some "ovn"
  | vmOvn _ => some "ovn"
  | volume _ => some "ceph"
  | image _ => some "ceph"
  | _ => none

/-- What the controller keeps for the object is not there. -/
def Removed (t : World) : (w : Worker) → Object w.kind → Prop
  | network k, _ => named t.northbound typeLogicalSwitch (namePrefixedWithNamespace k) = none
  | router k, _ => named t.northbound typeLogicalRouter (namePrefixedWithNamespace k) = none
  | vmOvn _, v => PortsGone v t
  | volume k, _ => t.ceph.find? poolVolumes (namePrefixedWithNamespace k) = none
  | image k, _ => t.ceph.find? poolTemplates (namePrefixedWithNamespace k) = none
  | _, _ => True

/-- The states from which the remove function comes to an end of its work. -/
def Removable (s : World) : (w : Worker) → Object w.kind → Prop
  | network _, v => NetworkRemovable v s
  | router _, v => RouterRemovable v s
  | vmOvn _, v => PortsRemovable v s
  | _, _ => True

end Worker

section Retry

variable [Crates] {w : Worker} {s t : World} {o : Outcome Error Unit} {v : Object w.kind}
  {finalizer : String}

/-- From any state, whatever earlier runs have left, a remove run all of whose calls succeed
returns `Ok` with the external object gone and the finalizer taken away if and only if the
object is removable there. -/
theorem removal_retried (hw : w.finalizer = some finalizer)
    (hs : (s.kube w.kind).find? w.key = some v) (hd : v.isDeleted = true)
    (hf : hasFinalizer v (finalizerName finalizer) = true) (hc : Consistent northbound s.northbound)
    (hn : s.ceph.Named) (h : Turn (answering Succeeded) w s o t) :
    (o = .ok () ∧ w.Removed t v ∧ Unguarded w.kind w.key finalizer t) ↔ w.Removable s v := by
  obtain ⟨v', hs', hends⟩ := h
  obtain rfl : v = v' := Option.some.inj (hs.symm.trans hs')
  have hk : v.key = w.key := Collection.key_of_find? hs
  rw [← hk] at hs ⊢
  cases w with
  | network k =>
    cases hw
    simp only [Worker.reconcile] at hends
    rw [if_pos hd] at hends
    have hres := after_removeNetwork (s := s.started (.network k) v.version) hs hf hc o t hends
    rw [hk] at hres ⊢
    exact hres
  | router k =>
    cases hw
    simp only [Worker.reconcile] at hends
    rw [if_pos hd] at hends
    have hres := after_removeRouter (s := s.started (.router k) v.version) hs hf hc o t hends
    rw [hk] at hres ⊢
    exact hres
  | vmOvn k =>
    cases hw
    simp only [Worker.reconcile] at hends
    rw [if_pos hd] at hends
    exact after_removeVm (s := s.started (.vmOvn k) v.version) hs hf hc o t hends
  | volume k =>
    cases hw
    simp only [Worker.reconcile] at hends
    rw [if_pos hd] at hends
    have hres := after_removeVolume (s := s.started (.volume k) v.version) hs hf hn o t hends
    rw [hk] at hres ⊢
    exact iff_of_true hres trivial
  | image k =>
    cases hw
    simp only [Worker.reconcile] at hends
    rw [if_pos hd] at hends
    have hres := after_removeImage (s := s.started (.image k) v.version) hs hf hn o t hends
    rw [hk] at hres ⊢
    exact iff_of_true hres trivial
  | vm k => cases hw
  | node name => cases hw
  | host node k => cases hw

/-- The request succeeds or not. -/
instance decidableSucceeded : (r : Request) → (a : r.Answer) → Decidable (Succeeded r a)
  | .kube _, .ok v => .isTrue ⟨v, rfl⟩
  | .kube _, .error _ => .isFalse nofun
  | .libvirt _ _, some v => .isTrue ⟨v, rfl⟩
  | .libvirt _ _, none => .isFalse nofun
  | .bridge _ _, some v => .isTrue ⟨v, rfl⟩
  | .bridge _ _, none => .isFalse nofun
  | .ceph _, .ok v => .isTrue ⟨v, rfl⟩
  | .ceph _, .error _ => .isFalse nofun
  | .ovnConnect _ _, some v => .isTrue ⟨v, rfl⟩
  | .ovnConnect _ _, none => .isFalse nofun
  | .transact _, some v => .isTrue ⟨v, rfl⟩
  | .transact _, none => .isFalse nofun
  | .lockSchedule, _ => .isTrue trivial
  | .unlockSchedule, _ => .isTrue trivial
  | .scheduleSpan _, _ => .isTrue trivial
  | .newV4, _ => .isTrue trivial
  | .choose _, _ => .isTrue trivial

/-- Answer a request with success, if that is possible. -/
def World.serveWell (w : Worker) (s : World) (r : Request) : Option (r.Answer × World) :=
  match World.answer w s r (plainChoice r) with
  | some (a, t) => if Succeeded r a then some (a, t) else none
  | none => none

omit [Crates] in
theorem ends_of_serveWell {α : Type} {p : Prog α} {o : Outcome Error α}
    (h : p.runWith (World.serveWell w) s = some (o, t)) : p.Ends (answering Succeeded w) s o t := by
  refine Program.ends_of_runWith (fun s r a t ha => ?_) h
  unfold World.serveWell at ha
  split at ha
  · next hans =>
    split at ha
    · next hsucc =>
      cases ha
      exact ⟨served_plain hans, hsucc⟩
    · cases ha
  · cases ha

theorem turn_of_runWith (hs : (s.kube w.kind).find? w.key = some v)
    (h : (w.reconcile v).runWith (World.serveWell w) (s.started w v.version) = some (o, t)) :
    Turn (answering Succeeded) w s o t := ⟨v, hs, ends_of_serveWell h⟩

/-- The state after a turn, if it returns `Ok`. -/
def Worker.finish (w : Worker) (s : World) : Option World :=
  ((s.kube w.kind).find? w.key).bind fun v =>
    ((w.reconcile v).runWith (World.serveWell w) (s.started w v.version)).bind fun q =>
      match q.1 with
      | .ok _ => some q.2
      | _ => none

theorem turn_of_finish (h : w.finish s = some t) : Turn (answering Succeeded) w s (.ok ()) t := by
  obtain ⟨v, hv, h⟩ := Option.bind_eq_some_iff.mp h
  obtain ⟨⟨o, u⟩, hrun, h⟩ := Option.bind_eq_some_iff.mp h
  cases o with
  | ok _ =>
    cases h
    exact turn_of_runWith hv hrun
  | err e => cases h
  | aborted m => cases h

end Retry

attribute [local instance] plainCrates

/-- The first reconcile of a router ends after it has registered the finalizer. Then a user
deletes the router. -/
def routerScript : List ClusterCommand :=
  [.world (.create .node ⟨"", "a"⟩ [(ovnCentralManagedLabel, "managed")]
      [( ovnCentralIpAnnotation, "10.0.0.1")] ()),
   .world (.create .router ⟨"n", "r"⟩ [] [] ⟨none, none⟩)] ++
  serveAll (.router ⟨"n", "r"⟩) 1 3 ++ [.world (.delete .router ⟨"n", "r"⟩ 0)]

/-- The router cannot be removed, although every call of the remove run succeeds. -/
theorem deleted_router_stays : ∃ (c : ClusterConfig) (v : Router) (e : Error) (t : World),
    cluster.Run anything ⟨World.initial, fun _ => none⟩ c ∧
    (c.state.kube .router).find? ⟨"n", "r"⟩ = some v ∧ v.isDeleted = true ∧
    hasFinalizer v (finalizerName "ovn") = true ∧
    Turn (answering Succeeded) (.router ⟨"n", "r"⟩) c.state (.err e) t := by
  obtain ⟨c, hr, hc⟩ := Interaction.Machine.play_reaches (M := cluster) anything
    ⟨World.initial, fun _ => none⟩ routerScript
    (fun c => ((c.state.kube .router).find? ⟨"n", "r"⟩).any fun v => v.isDeleted &&
      hasFinalizer v (finalizerName "ovn") &&
      ((Worker.reconcile (.router ⟨"n", "r"⟩) v).runWith (World.serveWell (.router ⟨"n", "r"⟩))
        (c.state.started (.router ⟨"n", "r"⟩) v.version)).any fun p =>
          match p.1 with
          | .err _ => true
          | _ => false) (by decide +kernel)
  simp only [Option.any_eq_true, Bool.and_eq_true] at hc
  obtain ⟨v, hv, ⟨hd, hf⟩, ⟨o, t⟩, hrun, ho⟩ := hc
  cases o with
  | err e => exact ⟨c, v, e, t, hr, hv, hd, hf, turn_of_runWith hv hrun⟩
  | ok u => cases ho
  | aborted m => cases ho

/-- An image is created, gets its finalizer and is deleted. -/
def imageDeeds : List Deed :=
  [.happen (.create .image ⟨"n", "i"⟩ [] [] ⟨"url"⟩), .turn (.image ⟨"n", "i"⟩),
   .happen (.delete .image ⟨"n", "i"⟩ 0)]

theorem removal_retried_image : ∃ (s t : World) (v : Image) (o : Outcome Error Unit),
    v.isDeleted = true ∧ ((o = .ok () ∧ Worker.Removed t (.image ⟨"n", "i"⟩) v ∧
      Unguarded .image ⟨"n", "i"⟩ "ceph" t) ↔ Worker.Removable s (.image ⟨"n", "i"⟩) v) := by
  have h : ((performAll anyRequest anyDeed World.initial imageDeeds).any fun s =>
      ((s.kube .image).find? ⟨"n", "i"⟩).any fun v => v.isDeleted &&
        hasFinalizer v (finalizerName "ceph") &&
        ((Worker.reconcile (.image ⟨"n", "i"⟩) v).runWith (World.serveWell (.image ⟨"n", "i"⟩))
          (s.started (.image ⟨"n", "i"⟩) v.version)).isSome) = true := by decide +kernel
  have hext : ∀ s, performAll anyRequest anyDeed World.initial imageDeeds = some s →
      s.northbound = World.initial.northbound ∧ s.ceph.pools = World.initial.ceph.pools := by
    intro s hs
    have hnb : (performAll anyRequest anyDeed World.initial imageDeeds).map (fun s => s.northbound) =
        some World.initial.northbound := rfl
    have hpools : (performAll anyRequest anyDeed World.initial imageDeeds).map
        (fun s => s.ceph.pools) = some World.initial.ceph.pools := rfl
    rw [hs] at hnb hpools
    exact ⟨Option.some.inj hnb, Option.some.inj hpools⟩
  simp only [Option.any_eq_true, Bool.and_eq_true, Option.isSome_iff_exists] at h
  obtain ⟨s, hs, v, hv, ⟨hd, hf⟩, ⟨o, t⟩, hrun⟩ := h
  obtain ⟨hnb, hpools⟩ := hext s hs
  refine ⟨s, t, v, o, hd, removal_retried rfl hv hd hf ?_ ?_ (turn_of_runWith hv hrun)⟩
  · rw [hnb]
    exact Ovsdb.consistent_empty
  · intro pool
    rw [hpools]
    simp [World.initial]

end ClusterController
