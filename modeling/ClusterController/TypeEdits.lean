import ClusterController.Attachments

/-!
# Deleting a network whose type was edited

The network controller decides by the type in the current spec whether a deleted network has
anything to clean up. When that leaves the switch or the finalizer behind, whatever the types
were while the network lived.
-/

namespace ClusterController

open ApiServer (Key Collection)
open Ovsdb (Database Row Consistent addRefs)
open Interaction (Program)
open Interaction.Program (Outcome After after_ret after_abort)

/-! ## The switch of a name -/

/-- At most one switch has the name. -/
structure SoleSwitch (name : String) (db : Database) : Prop where
  consistent : Consistent northbound db
  sole : Sole db typeLogicalSwitch name

section Rows

variable {name : String} {db db' : Database}

/-- The switches change, but not their names. -/
theorem SoleSwitch.change (h : SoleSwitch name db) (hc : Consistent northbound db') {g : Row → Row}
    (hdb : db' typeLogicalSwitch = (db typeLogicalSwitch).map g)
    (huuid : ∀ r ∈ db typeLogicalSwitch, (g r).uuid = r.uuid)
    (hname : ∀ r ∈ db typeLogicalSwitch, rowText (g r) "name" = rowText r "name") :
    SoleSwitch name db' := by
  refine ⟨hc, fun r hr r' hr' hn hn' => ?_⟩
  rw [hdb] at hr hr'
  obtain ⟨r₀, hr₀, rfl⟩ := List.mem_map.mp hr
  obtain ⟨r₁, hr₁, rfl⟩ := List.mem_map.mp hr'
  rw [huuid r₀ hr₀, huuid r₁ hr₁]
  exact h.sole r₀ hr₀ r₁ hr₁ ((hname r₀ hr₀).symm.trans hn) ((hname r₁ hr₁).symm.trans hn')

/-- Other tables change. -/
theorem SoleSwitch.keep (h : SoleSwitch name db) (hc : Consistent northbound db')
    (hdb : db' typeLogicalSwitch = db typeLogicalSwitch) : SoleSwitch name db' :=
  h.change hc (g := id) (by rw [hdb, List.map_id]) (fun _ _ => rfl) fun _ _ => rfl

/-- One switch changes in another column than its name. -/
theorem SoleSwitch.modify {u : String} {g : Row → Row} (h : SoleSwitch name db)
    (hc : Consistent northbound db')
    (hdb : db' typeLogicalSwitch = (db typeLogicalSwitch).map fun r => if r.uuid = u then g r else r)
    (huuid : ∀ r, (g r).uuid = r.uuid) (hname : ∀ r, rowText (g r) "name" = rowText r "name") :
    SoleSwitch name db' := by
  refine h.change hc hdb (fun r _ => ?_) fun r _ => ?_
  · split
    · exact huuid r
    · rfl
  · split
    · exact hname r
    · rfl

/-- A switch is made where there is none of the name. -/
theorem soleSwitch_created {u : String} (hc : Consistent northbound db')
    (hn : named db typeLogicalSwitch name = none)
    (hdb : db' typeLogicalSwitch = db typeLogicalSwitch ++ [namedRow typeLogicalSwitch u name]) :
    SoleSwitch name db' := by
  refine ⟨hc, fun r hr r' hr' hname hname' => ?_⟩
  have hnew : ∀ r ∈ db' typeLogicalSwitch, rowText r "name" = name →
      r = namedRow typeLogicalSwitch u name := by
    intro r hr hname
    rw [hdb] at hr
    rcases List.mem_append.mp hr with hr | hr
    · exact absurd hname (firstWith_none.mp hn r hr)
    · exact List.mem_singleton.mp hr
  rw [hnew r hr hname, hnew r' hr' hname']

/-- Switches are deleted. -/
theorem SoleSwitch.delete {p : Row → Bool} (h : SoleSwitch name db) (hc : Consistent northbound db')
    (hdb : db' typeLogicalSwitch = (db typeLogicalSwitch).filter p) : SoleSwitch name db' := by
  refine ⟨hc, fun r hr r' hr' hname hname' => ?_⟩
  rw [hdb] at hr hr'
  exact h.sole r (List.mem_filter.mp hr).1 r' (List.mem_filter.mp hr').1 hname hname'

end Rows

/-! ## Reconciles -/

section Reconciles

variable {ok : (r : Request) → r.Answer → Prop} {w : Worker} {s : World} {name : String}

/-- The result of a program with which at most one switch has the name. -/
abbrev Lonely (name : String) {α : Type} (_ : Outcome Error α) (t : World) : Prop :=
  SoleSwitch name t.northbound

theorem sole_linkBack {lrp : LogicalRouterPort} {ls : LogicalSwitch} {address lspName lrpName : String}
    (h : SoleSwitch name s.northbound)
    (hls : ls.uuid ∈ (s.northbound typeLogicalSwitch).map Row.uuid) :
    After (answering ok w) (do
        lrp.update address
        let _ ← LogicalSwitchPort.createIfMissing ls lspName
          [("type", .strings ["router"]), ("addresses", .strings ["router"]),
            ("options", .map [("router-port", lrpName)])]) s (Lonely name) := by
  refine after_lrpUpdate h.consistent (fun db hcons hdb => ?_) fun _ _ => h
  have hswitches : db typeLogicalSwitch = s.northbound typeLogicalSwitch := by
    rw [hdb]
    exact Database.modify_of_ne (by decide)
  have h₁ := h.keep hcons hswitches
  refine after_createLinkPort (s := s.setNorthbound db) (by rw [← hswitches] at hls; exact hls) hcons
    (fun _ _ => after_ret h₁) (fun u db' _ _ hcons' hdb' => ?_) fun _ _ => h₁
  have hne : "name" ≠ "ports" := by decide
  have h₂ : SoleSwitch name db' := by
    refine h₁.modify (u := ls.uuid) (g := addRefs "ports" [u]) hcons' ?_ (fun _ => rfl) fun r =>
      rowText_modify_of_ne hne
    rw [hdb', Database.modifyRow_self, Database.modify_of_ne (by decide)]
    rfl
  exact ⟨fun _ _ => h₂, after_ret h₂⟩

theorem sole_connectRouterToLs {lr : LogicalRouter} {ls : LogicalSwitch} {address : String}
    (h : SoleSwitch name s.northbound)
    (hlr : lr.uuid ∈ (s.northbound typeLogicalRouter).map Row.uuid)
    (hls : ls.uuid ∈ (s.northbound typeLogicalSwitch).map Row.uuid) :
    After (answering ok w) (connectRouterToLs lr ls address) s (Lonely name) := by
  unfold connectRouterToLs
  refine after_lrpCreateIfMissing hlr h.consistent (fun p _ => sole_linkBack h hls)
    (fun u db _ _ hcons hdb => ?_) fun _ _ => h
  have hswitches : db typeLogicalSwitch = s.northbound typeLogicalSwitch := by
    rw [hdb]
    unfold Database.modifyRow
    rw [Database.modify_of_ne (by decide), Database.modify_of_ne (by decide)]
  have h₁ := h.keep hcons hswitches
  exact ⟨fun _ _ => h₁, sole_linkBack (s := s.setNorthbound db) h₁ (by rw [← hswitches] at hls; exact hls)⟩

theorem sole_ensureRouterAttachment {network : Network} {attachment : RouterAttachment}
    (h : SoleSwitch name s.northbound) :
    After (answering ok w) (ensureRouterAttachment network attachment) s (Lonely name) := by
  unfold ensureRouterAttachment
  cases attachedRouter network.metadata.ns attachment.name with
  | error m => exact after_abort h
  | ok router =>
    show After _ (getByName LogicalRouter _ >>= _) s _
    have hread : Reads ok w s (getByName LogicalRouter _) _ :=
      reads_getByName LogicalRouter h.consistent (router.1 ++ "-" ++ router.2)
    unfold foundByName at hread
    refine hread.after (fun lr hlr => ?_) (fun _ _ => h) fun _ _ => h
    split at hlr
    · next R hR =>
      cases hlr
      have hreadL : Reads ok w s (getByName LogicalSwitch _) _ :=
        reads_getByName LogicalSwitch h.consistent (namePrefixedWithNamespace network.key)
      unfold foundByName at hreadL
      refine hreadL.after (fun ls hls => ?_) (fun _ _ => h) fun _ _ => h
      split at hls
      · next L hL =>
        cases hls
        exact sole_connectRouterToLs h (List.mem_map_of_mem (firstWith_some hR).1)
          (List.mem_map_of_mem (firstWith_some hL).1)
      · cases hls
    · cases hlr

theorem sole_ensureRouterAttachments {network : Network} {attachments : List RouterAttachment}
    (h : SoleSwitch name s.northbound) :
    After (answering ok w) (Program.forEach attachments (ensureRouterAttachment network)) s
      (Lonely name) :=
  (Program.after_forEach (I := fun t => SoleSwitch name t.northbound) h fun _ _ _ ht =>
    sole_ensureRouterAttachment ht).mono fun _ _ ht => ht

theorem sole_ensureDhcp [Crates] {switch : String} {dhcp : DhcpOptionsCrd}
    (h : SoleSwitch name s.northbound) :
    After (answering ok w) (ensureDhcp switch dhcp) s (Lonely name) := by
  have hset : ∀ (t : World) (opts : DhcpOptions), SoleSwitch name t.northbound →
      After (answering ok w) (do
          opts.setOptions dhcp
          let ls ← getByName LogicalSwitch switch
          ls.setCidr dhcp.cidr) t (Lonely name) := by
    intro t opts ht
    refine after_setOptions ht.consistent (fun hosts serverId db _ hcons hdb => ?_) (fun _ => ht) fun _ => ht
    have h₁ : SoleSwitch name db := ht.keep hcons (by rw [hdb]; exact Database.modify_of_ne (by decide))
    refine (reads_getByName (s := t.setNorthbound db) LogicalSwitch hcons switch).after (fun ls _ => ?_)
      (fun _ _ => h₁) fun _ _ => h₁
    rw [← Program.bind_ret (LogicalSwitch.setCidr _ _)]
    refine after_setCidr (s := t.setNorthbound db) hcons (fun db' hcons' hdb' => after_ret ?_) fun _ _ => h₁
    have hne : ∀ e ∈ ([("other_config", .map [("subnet", dhcp.cidr)])] : Ovsdb.Columns String),
        "name" ≠ e.1 := by simp
    refine h₁.modify (u := ls.uuid) hcons' ?_ (fun r => Row.uuid_write) fun r =>
      rowText_write_of_not_mem hne
    show db' typeLogicalSwitch = _
    rw [hdb']
    exact Database.modifyRow_self
  unfold ensureDhcp
  refine after_orCreateDhcp h.consistent (fun d _ => hset s _ h) (fun u db _ _ hcons hdb => ?_) fun _ _ => h
  have h₁ : SoleSwitch name db := h.keep hcons (by rw [hdb]; exact Database.modify_of_ne (by decide))
  exact ⟨fun _ _ => h₁, hset (s.setNorthbound db) _ h₁⟩

/-- A reconcile of the network makes its switch only where there is none. -/
theorem sole_updateNetwork [Crates] {v : Network}
    (h : SoleSwitch (namePrefixedWithNamespace v.key) s.northbound) :
    After (answering ok w) (updateNetwork v) s (Lonely (namePrefixedWithNamespace v.key)) := by
  unfold updateNetwork
  split
  · exact after_ret h
  · refine after_ovnTry (fun _ => ?_) fun _ _ => h
    refine after_aside_bind (aside_ensureFinalizer v "ovn") (fun v' t hv ht => ?_) fun _ t ht => by
      rw [Lonely, ht]
      exact h
    rw [← hv.1] at h ⊢
    rw [← ht] at h
    -- What follows the lookup of the switch makes no other.
    have hrest : ∀ u : World, SoleSwitch (namePrefixedWithNamespace v'.key) u.northbound →
        After (answering ok w) (do
            ifSome v'.spec.dhcp (ensureDhcp (namePrefixedWithNamespace v'.key))
            ifSome v'.spec.routers fun routers =>
              Program.forEach routers (ensureRouterAttachment v')
            setStatus v' (⟨true⟩ : NetworkStatus) .updateNetwork) u
          (Lonely (namePrefixedWithNamespace v'.key)) := by
      intro u hu
      have hdhcp : After (answering ok w)
          (ifSome v'.spec.dhcp (ensureDhcp (namePrefixedWithNamespace v'.key))) u
          (Lonely (namePrefixedWithNamespace v'.key)) := by
        cases v'.spec.dhcp with
        | none => exact after_ret hu
        | some dhcp => exact sole_ensureDhcp hu
      refine hdhcp.then (fun _ t₁ ht₁ => ?_) fun _ _ ht => ht
      have hrouters : After (answering ok w) (ifSome v'.spec.routers fun routers =>
          Program.forEach routers (ensureRouterAttachment v')) t₁
          (Lonely (namePrefixedWithNamespace v'.key)) := by
        cases v'.spec.routers with
        | none => exact after_ret ht₁
        | some routers => exact sole_ensureRouterAttachments ht₁
      refine hrouters.then (fun _ t₂ ht₂ => ?_) fun _ _ ht => ht
      refine (after_aside (aside_setStatus _ _ _)).mono fun o t₃ ht₃ => ?_
      rw [Lonely, ht₃.1]
      exact ht₂
    refine after_createIfMissing LogicalSwitch rfl ⟨_, .head _, .inl rfl⟩ (by decide) h.consistent
      (fun L _ => hrest t h) (fun u db hn _ hcons hdb => ?_) fun _ _ => h
    have h₁ : SoleSwitch (namePrefixedWithNamespace v'.key) db :=
      soleSwitch_created hcons hn (by rw [hdb]; exact Database.modify_self)
    exact ⟨fun _ _ => h₁, hrest (t.setNorthbound db) h₁⟩

theorem sole_removeNetwork {v : Network} (h : SoleSwitch name s.northbound) :
    After (answering ok w) (removeNetwork v) s (Lonely name) := by
  unfold removeNetwork
  split
  · exact after_ret h
  · refine after_ovnTry (fun _ => ?_) fun _ _ => h
    have hfinal : ∀ t : World, SoleSwitch name t.northbound →
        After (answering ok w) (do let _ ← removeFinalizer v "ovn") t (Lonely name) := by
      intro t ht
      refine after_aside_bind (aside_removeFinalizer v "ovn") (fun _ t' _ ht' => after_ret ?_) fun _ t' ht' => ?_
      · rw [Lonely, ht']
        exact ht
      · rw [Lonely, ht']
        exact ht
    unfold deleteSwitch
    rw [Program.bind_assoc']
    refine (reads_getByName LogicalSwitch h.consistent _).attempt.after (fun x hx => ?_)
      (fun _ hx => by cases hx) fun _ _ => h
    cases hx
    unfold foundByName
    cases named s.northbound (OvnCommon.ovnType LogicalSwitch) _ with
    | some f =>
      refine after_ovnDelete LogicalSwitch (.inl rfl) h.consistent (fun db hcons hdb => ?_) fun _ _ => h
      refine hfinal (s.setNorthbound db) (h.delete (p := fun r => r.uuid ≠ f.uuid) hcons ?_)
      show db typeLogicalSwitch = _
      rw [hdb, Ovsdb.sweep_root rfl]
      exact Database.modify_self
    | none => exact hfinal s h

end Reconciles

/-! ## Runs -/

section Runs

variable [Crates] {k : Key} {s t : World} {o : Outcome Error Unit} {v : Network}

/-- A reconcile keeps the switch the only one of its name. -/
theorem SoleSwitch.turn (h : SoleSwitch (namePrefixedWithNamespace k) s.northbound)
    (hturn : Turn Served (.network k) s o t) : SoleSwitch (namePrefixedWithNamespace k) t.northbound := by
  obtain ⟨v, hv, hends⟩ := hturn
  have hk : v.key = k := Collection.key_of_find? hv
  have hends : (Worker.reconcile (.network k) v).Ends (answering anyAnswer (.network k))
      (s.started (.network k) v.version) o t := hends.mono fun _ _ _ _ he => ⟨he, trivial⟩
  simp only [Worker.reconcile] at hends
  split at hends
  · exact sole_removeNetwork (s := s.started (.network k) v.version) h o t hends
  · rw [← hk] at h ⊢
    exact sole_updateNetwork (s := s.started (.network k) v.version) h o t hends

omit [Crates] in
theorem SoleSwitch.happen {name : String} {e : WorldEvent} (h : SoleSwitch name s.northbound)
    (he : s.happen e = some t) : SoleSwitch name t.northbound := by
  have hc := consistent_happen he h.consistent
  rcases northbound_happen he with ht | ⟨port, address, ht⟩
  · rw [ht]
    exact h
  · exact h.keep hc (by rw [ht]; exact Database.modify_of_ne (by decide))

/-- At most one switch has the name of the network after every run of its reconciles. -/
theorem SoleSwitch.run (h : SoleSwitch (namePrefixedWithNamespace k) s.northbound)
    (hrun : Serial Served (turnsOf (.network k)) s t) :
    SoleSwitch (namePrefixedWithNamespace k) t.northbound := by
  induction hrun with
  | refl => exact h
  | tail _ hstep ih =>
    obtain ⟨d, ha, hd⟩ := hstep
    cases d with
    | happen e => exact ih.happen hd
    | turn w =>
      obtain rfl : w = .network k := ha
      obtain ⟨o, hturn⟩ := hd
      exact ih.turn hturn

/-! ## The end -/

/-- A remove run in which all calls succeed leaves no switch of the network, and its finalizer is
not on the object any more. -/
def DeletionCompletes (k : Key) (s : World) : Prop :=
  ∀ o t, Turn (answering Succeeded) (.network k) s o t → o = .ok () ∧
    named t.northbound typeLogicalSwitch (namePrefixedWithNamespace k) = none ∧
    Unguarded .network k "ovn" t

omit [Crates] in
/-- Without the finalizer, a network of type `ovn` still loses its switch. -/
theorem after_removeNetwork_unguarded {w : Worker} (hs : (s.kube .network).find? v.key = some v)
    (hf : hasFinalizer v (finalizerName "ovn") = false) (htype : v.spec.networkType.getD .ovn = .ovn)
    (hcen : HasCentral s) (h : SoleSwitch (namePrefixedWithNamespace v.key) s.northbound) :
    After (answering Succeeded w) (removeNetwork v) s fun o t => o = .ok () ∧
      named t.northbound typeLogicalSwitch (namePrefixedWithNamespace v.key) = none ∧
      Unguarded .network v.key "ovn" t := by
  have hun : Unguarded .network v.key "ovn" s := by
    intro v' hv'
    rw [← Option.some.inj (hs.symm.trans hv')]
    exact hf
  have hkeep : removeFinalizer v "ovn" = .ret v := if_neg (by simp [hf])
  unfold removeNetwork
  rw [if_neg (not_not.mpr htype)]
  refine after_ovnTry (fun _ => ?_) fun e hno => absurd hcen hno
  unfold deleteSwitch
  rw [Program.bind_assoc', hkeep]
  refine (reads_getByName LogicalSwitch h.consistent _).attempt.after (fun x hx => ?_)
    (fun _ hx => by cases hx) fun o ho => absurd ho not_unanswered
  cases hx
  unfold foundByName
  cases hn : named s.northbound (OvnCommon.ovnType LogicalSwitch) _ with
  | some r =>
    refine after_ovnDelete LogicalSwitch (.inl rfl) h.consistent (fun db _ hdb => after_ret ?_)
      fun o ho => absurd ho not_unanswered
    refine ⟨rfl, ?_, hun⟩
    show named db _ _ = none
    rw [hdb]
    exact (named_deleted rfl hn).mpr h.sole
  | none => exact after_ret ⟨rfl, hn, hun⟩

/-- A network of another type is left as it is. -/
theorem reconcile_otherType (hd : v.isDeleted = true) (htype : v.spec.networkType.getD .ovn ≠ .ovn) :
    Worker.reconcile (.network k) v = .ret () := by
  simp only [Worker.reconcile]
  rw [if_pos hd]
  exact if_pos htype

/-- After every run of edits and reconciles, the deletion of the network completes exactly where its
type is `ovn` by then, or there is nothing to clean up. -/
theorem deletion_completes_iff (hc : Consistent northbound s.northbound)
    (hsole : Sole s.northbound typeLogicalSwitch (namePrefixedWithNamespace k))
    (hrun : Serial Served (turnsOf (.network k)) s t) (hv : (t.kube .network).find? k = some v)
    (hd : v.isDeleted = true) (hcen : HasCentral t) :
    DeletionCompletes k t ↔ v.spec.networkType.getD .ovn = .ovn ∨
      (hasFinalizer v (finalizerName "ovn") = false ∧
        named t.northbound typeLogicalSwitch (namePrefixedWithNamespace k) = none) := by
  have hk : v.key = k := Collection.key_of_find? hv
  have hone : SoleSwitch (namePrefixedWithNamespace k) t.northbound := SoleSwitch.run ⟨hc, hsole⟩ hrun
  by_cases htype : v.spec.networkType.getD .ovn = .ovn
  · refine iff_of_true (fun o u hturn => ?_) (.inl htype)
    obtain ⟨v', hv', hends⟩ := hturn
    obtain rfl : v = v' := Option.some.inj (hv.symm.trans hv')
    simp only [Worker.reconcile] at hends
    rw [if_pos hd] at hends
    rw [← hk] at hv hone ⊢
    cases hf : hasFinalizer v (finalizerName "ovn") with
    | true =>
      exact (after_removeNetwork (s := t.started (.network k) v.version) hv hf hone.consistent o u
        hends).mpr ⟨htype, hcen, hone.sole⟩
    | false =>
      exact after_removeNetwork_unguarded (s := t.started (.network k) v.version) hv hf htype hcen hone
        o u hends
  · have hreconcile := reconcile_otherType (k := k) hd htype
    constructor
    · intro h
      have hends : (Worker.reconcile (.network k) v).Ends (answering Succeeded (.network k))
          (t.started (.network k) v.version) (.ok ()) (t.started (.network k) v.version) := by
        rw [hreconcile]
        exact ⟨rfl, rfl⟩
      obtain ⟨-, hn, hu⟩ := h _ _ ⟨v, hv, hends⟩
      exact .inr ⟨hu v hv, hn⟩
    · rintro (htype' | ⟨hf, hn⟩)
      · exact absurd htype' htype
      · rintro o u ⟨v', hv', hends⟩
        obtain rfl : v = v' := Option.some.inj (hv.symm.trans hv')
        rw [hreconcile] at hends
        obtain ⟨rfl, rfl⟩ := hends
        refine ⟨rfl, hn, fun v' hv' => ?_⟩
        rw [← Option.some.inj (hv.symm.trans hv')]
        exact hf

end Runs

attribute [local instance] plainCrates

/-- The network is created without a type, reconciled twice, edited and deleted. -/
def typeDeeds (networkType : NetworkType) : List Deed :=
  [.happen (.create .node ⟨"", "a"⟩ [(ovnCentralManagedLabel, "managed")]
      [( ovnCentralIpAnnotation, "10.0.0.1")] ()),
   .happen (.create .network netKey [] [] ⟨none, none, none, none, none⟩),
   .turn (.network netKey), .turn (.network netKey),
   .happen (.edit .network netKey [] [] ⟨none, none, some networkType, none, none⟩),
   .happen (.delete .network netKey 0)]

/-- The state after the deletion is requested. -/
theorem exists_deleted (networkType : NetworkType)
    (h : ((performAll anyRequest (turnsOf (.network netKey)) World.initial (typeDeeds networkType)).any fun t =>
      ((t.kube .network).find? netKey).any (fun v => v.isDeleted && v.spec.networkType = some networkType &&
        hasFinalizer v (finalizerName "ovn")) &&
      ((t.kube .node).list none).any fun node => (centralAddress node).isSome) = true) :
    ∃ t v, Serial Served (turnsOf (.network netKey)) World.initial t ∧ (t.kube .network).find? netKey = some v ∧
      v.isDeleted = true ∧ v.spec.networkType = some networkType ∧
      hasFinalizer v (finalizerName "ovn") = true ∧ HasCentral t := by
  simp only [Option.any_eq_true, Bool.and_eq_true, decide_eq_true_eq, List.any_eq_true] at h
  obtain ⟨t, ht, ⟨v, hv, ⟨hd, htype⟩, hf⟩, node, hnode, hcen⟩ := h
  exact ⟨t, v, (serial_of_perform ht).mono (fun _ _ _ _ _ h => h.1) fun _ _ h => h, hv, hd, htype, hf,
    node, hnode, hcen⟩

/-- The type is set to the default. -/
theorem deletion_completes_ovn : ∃ (t : World) (v : Network),
    (t.kube .network).find? netKey = some v ∧ v.isDeleted = true ∧
      hasFinalizer v (finalizerName "ovn") = true ∧ DeletionCompletes netKey t := by
  obtain ⟨t, v, hrun, hv, hd, htype, hf, hcen⟩ := exists_deleted .ovn (by decide +kernel)
  refine ⟨t, v, hv, hd, hf, (deletion_completes_iff Ovsdb.consistent_empty ?_ hrun hv hd hcen).mpr (.inl ?_)⟩
  · intro r hr
    cases hr
  · rw [htype]
    rfl

/-- The type is set to `evpn`: the finalizer stays. -/
theorem deletion_stuck : ∃ (t : World) (v : Network),
    Serial Served (turnsOf (.network netKey)) World.initial t ∧
      (t.kube .network).find? netKey = some v ∧ v.isDeleted = true ∧ HasCentral t ∧
      ¬DeletionCompletes netKey t := by
  obtain ⟨t, v, hrun, hv, hd, htype, hf, hcen⟩ := exists_deleted .evpn (by decide +kernel)
  refine ⟨t, v, hrun, hv, hd, hcen, fun h => ?_⟩
  have hother : v.spec.networkType.getD .ovn ≠ .ovn := by
    rw [htype]
    decide
  have hends : (Worker.reconcile (.network netKey) v).Ends (answering Succeeded (.network netKey))
      (t.started (.network netKey) v.version) (.ok ()) (t.started (.network netKey) v.version) := by
    rw [reconcile_otherType hd hother]
    exact ⟨rfl, rfl⟩
  obtain ⟨-, -, hu⟩ := h _ _ ⟨v, hv, hends⟩
  have hno := hu v hv
  rw [hf] at hno
  cases hno

end ClusterController
