import ClusterController.Fitting
import ClusterController.Wiring

/-!
# Attachments over a history of edits

A reconcile of a network makes the links that its spec asks for, and undoes none. After a
history of edits the switch has what any of the specs has asked for, so it has what the last
one asks for only if the last one covers the others (`Covers`).
-/

namespace ClusterController

open ApiServer (Key Resource Collection)
open Interaction (Program)
open Interaction.Program (Outcome After Ends after_ret after_fail after_abort)
open Ovsdb (Row Database Columns Consistent Datum addRefs)

/-! ## What a spec asks for -/

/-- The routers of a list of attachments, by the names of their rows, and the addresses. -/
def linksOf (ns : String) (attachments : List RouterAttachment) : List (String × String) :=
  attachments.filterMap fun attachment =>
    match attachedRouter ns attachment.name with
    | .ok router => some (router.1 ++ "-" ++ router.2, attachment.address)
    | .error _ => none

namespace NetworkSpec

/-- The links that the spec asks for. -/
def links (ns : String) (spec : NetworkSpec) : List (String × String) :=
  linksOf ns (spec.routers.getD [])

/-- The routers that the spec names. -/
def linked (ns : String) (spec : NetworkSpec) : List String := (spec.links ns).map Prod.fst

/-- The subnet that the spec asks for. -/
def subnet (spec : NetworkSpec) : Option String := spec.dhcp.map DhcpOptionsCrd.cidr

end NetworkSpec

/-- The wiring after a reconcile. -/
def Wiring.update (w : Wiring) (ns : String) (spec : NetworkSpec) : Wiring :=
  (({ w with made := true } : Wiring).setSubnet spec.subnet).links (spec.links ns)

/-- The wiring may differ in what the spec is about. -/
abbrev Wiring.Touched (ns : String) (spec : NetworkSpec) (w w' : Wiring) : Prop :=
  w.Within (spec.linked ns) spec.dhcp.isSome w'

section Links

variable {ok : (r : Request) → r.Answer → Prop} {w : Worker} {s : World} {switch address : String}
  {R L p : Row}

/-- One link, possibly in part. -/
def Linking (switch router address : String) (s : World) (o : Outcome Error Unit) (t : World) : Prop :=
  Wired switch t.northbound ∧
    (wiring s.northbound switch).Within [router] false (wiring t.northbound switch) ∧
    (o = .ok () → wiring t.northbound switch = (wiring s.northbound switch).link router address)

/-- The port of the router is there; it gets the address, and the switch gets its port. -/
theorem after_linkBack {router : String} (h : Wired switch s.northbound)
    (hL : named s.northbound typeLogicalSwitch switch = some L)
    (hp : named s.northbound typeLogicalRouterPort (routerPortName router switch) = some p) :
    After (answering ok w) (do
        (OvnRow.ofRow p : LogicalRouterPort).update address
        let _ ← LogicalSwitchPort.createIfMissing (OvnRow.ofRow L) (switchPortName switch router)
          [("type", .strings ["router"]), ("addresses", .strings ["router"]),
            ("options", .map [("router-port", routerPortName router switch)])]) s
      (Linking switch router address s) := by
  have hstay : ∀ o : Outcome Error Unit, Unanswered ok o → Linking switch router address s o s := by
    rintro o ⟨-, m, rfl⟩
    exact ⟨h, .refl, nofun⟩
  refine after_lrpUpdate h.consistent (fun db hcons hdb => ?_) hstay
  have hpn : rowText p "name" = routerPortName router switch := (firstWith_some hp).2
  have hset : Wired switch db ∧
      wiring db switch = (wiring s.northbound switch).port router address :=
    h.setRouterPort hcons hp (hpn ▸ hdb)
  obtain ⟨h₁, hw₁⟩ := hset
  have hswitches : db typeLogicalSwitch = s.northbound typeLogicalSwitch := by
    rw [hdb]
    exact Database.modify_of_ne (by decide)
  have hL₁ : named db typeLogicalSwitch switch = some L := (named_congr hswitches).trans hL
  have hpart : (wiring s.northbound switch).Within [router] false (wiring db switch) := by
    rw [hw₁]
    exact Wiring.within_port
  have hpartly : ∀ o : Outcome Error Unit, Unanswered ok o →
      Linking switch router address s o (s.setNorthbound db) := by
    rintro o ⟨-, m, rfl⟩
    exact ⟨h₁, hpart, nofun⟩
  refine after_createLinkPort (s := s.setNorthbound db) ?_ hcons (fun q hq => after_ret ?_)
    (fun u db' hn hu hcons' hdb' => ?_) hpartly
  · exact List.mem_map_of_mem (firstWith_some hL₁).1
  · refine ⟨h₁, hpart, fun _ => ?_⟩
    have hjoined : (wiring db switch).joined router = true := Option.isSome_iff_exists.mpr ⟨q, hq⟩
    show wiring db switch = _
    rw [← Wiring.join_of_joined hjoined, hw₁]
    rfl
  · obtain ⟨h₂, hw₂⟩ := h₁.addSwitchPort hcons' hL₁ hn hu hdb'
    have hwhole : (wiring s.northbound switch).Within [router] false (wiring db' switch) := by
      rw [hw₂]
      exact hpart.trans Wiring.within_join
    refine ⟨fun o ho => ?_, after_ret ⟨h₂, hwhole, fun _ => ?_⟩⟩
    · obtain ⟨-, m, rfl⟩ := ho
      exact ⟨h₂, hwhole, nofun⟩
    · show wiring db' switch = _
      rw [hw₂, hw₁]
      rfl

/-- A link of the switch to a router. -/
theorem after_connectRouterToLs (h : Wired switch s.northbound)
    (hL : named s.northbound typeLogicalSwitch switch = some L)
    (hR : R ∈ s.northbound typeLogicalRouter) :
    After (answering ok w) (connectRouterToLs (OvnRow.ofRow R) (OvnRow.ofRow L) address) s
      (Linking switch (rowText R "name") address s) := by
  obtain ⟨hLmem, rfl⟩ := firstWith_some hL
  unfold connectRouterToLs
  refine after_lrpCreateIfMissing (List.mem_map_of_mem hR) h.consistent (fun p hp => ?_)
    (fun u db hn hu hcons hdb => ?_) fun o ho => ?_
  · exact after_linkBack h hL hp
  · obtain ⟨h₁, hw₁⟩ := h.addRouterPort hcons hR rfl hn hu hdb
    have hports : db typeLogicalRouterPort = _ :=
      (congrFun hdb _).trans ((Database.modify_of_ne (by decide)).trans Database.modify_self)
    have hswitches : db typeLogicalSwitch = s.northbound typeLogicalSwitch :=
      (congrFun hdb _).trans ((Database.modify_of_ne (by decide)).trans
        (Database.modify_of_ne (by decide)))
    have hname : rowText (newRow typeLogicalRouterPort u (routerPortColumns
        (routerPortName (rowText R "name") (rowText L "name")) address)) "name" =
          routerPortName (rowText R "name") (rowText L "name") :=
      rowText_of_get (get_write_self rfl (by simp))
    have hpart : (wiring s.northbound (rowText L "name")).Within [rowText R "name"] false
        (wiring db (rowText L "name")) := by
      rw [hw₁]
      exact Wiring.within_port
    refine ⟨fun o ho => ?_, ?_⟩
    · obtain ⟨-, m, rfl⟩ := ho
      exact ⟨h₁, hpart, nofun⟩
    · refine (after_linkBack (s := s.setNorthbound db) h₁ ((named_congr hswitches).trans hL)
        (firstWith_append hn hname hports)).mono fun o t ⟨h₂, hw₂, hok⟩ => ?_
      refine ⟨h₂, hpart.trans hw₂, fun ho => ?_⟩
      rw [hok ho]
      show (wiring db _).link _ _ = _
      rw [hw₁]
      exact Wiring.link_port
  · obtain ⟨-, m, rfl⟩ := ho
    exact ⟨h, .refl, nofun⟩

/-- Links one after another, possibly in part. -/
def LinkingAll (switch : String) (l : List (String × String)) (s : World) (o : Outcome Error Unit)
    (t : World) : Prop :=
  Wired switch t.northbound ∧
    (wiring s.northbound switch).Within (l.map Prod.fst) false (wiring t.northbound switch) ∧
    (o = .ok () → wiring t.northbound switch = (wiring s.northbound switch).links l)

theorem linking_ensureRouterAttachment {network : Network} {attachment : RouterAttachment}
    (h : Wired (namePrefixedWithNamespace network.key) s.northbound) :
    After (answering ok w) (ensureRouterAttachment network attachment) s
      (LinkingAll (namePrefixedWithNamespace network.key)
        (linksOf network.metadata.ns [attachment]) s) := by
  have hstay : ∀ o : Outcome Error Unit, o ≠ .ok () → LinkingAll (namePrefixedWithNamespace network.key)
      (linksOf network.metadata.ns [attachment]) s o s :=
    fun o ho => ⟨h, .refl, fun hok => absurd hok ho⟩
  have hunanswered : ∀ o : Outcome Error Unit, Unanswered ok o → o ≠ .ok () := by
    rintro o ⟨-, m, rfl⟩
    exact nofun
  unfold ensureRouterAttachment
  cases hrouter : attachedRouter network.metadata.ns attachment.name with
  | error m => exact after_abort (hstay _ nofun)
  | ok router =>
    show After _ (getByName LogicalRouter _ >>= _) s _
    have hread : Reads ok w s (getByName LogicalRouter _) _ :=
      reads_getByName LogicalRouter h.consistent (router.1 ++ "-" ++ router.2)
    unfold foundByName at hread
    refine hread.after (fun lr hlr => ?_) (fun e _ => hstay _ nofun) fun o ho => hstay o (hunanswered o ho)
    split at hlr
    · next R hR =>
      cases hlr
      obtain ⟨hRmem, hRname⟩ := firstWith_some hR
      have hreadL : Reads ok w s (getByName LogicalSwitch _) _ :=
        reads_getByName LogicalSwitch h.consistent (namePrefixedWithNamespace network.key)
      unfold foundByName at hreadL
      refine hreadL.after (fun ls hls => ?_) (fun e _ => hstay _ nofun)
        fun o ho => hstay o (hunanswered o ho)
      split at hls
      · next L hL =>
        cases hls
        have hlinks : linksOf network.metadata.ns [attachment] =
            [(rowText R "name", attachment.address)] := by
          unfold linksOf
          rw [List.filterMap_cons, hrouter, hRname]
          rfl
        rw [hlinks]
        exact after_connectRouterToLs h hL hRmem
      · cases hls
    · cases hlr

theorem linksOf_cons (ns : String) (attachment : RouterAttachment)
    (attachments : List RouterAttachment) : linksOf ns (attachment :: attachments) =
      linksOf ns [attachment] ++ linksOf ns attachments :=
  List.filterMap_append (l := [attachment])

theorem linking_ensureRouterAttachments {network : Network} {attachments : List RouterAttachment}
    (h : Wired (namePrefixedWithNamespace network.key) s.northbound) :
    After (answering ok w) (Program.forEach attachments (ensureRouterAttachment network)) s
      (LinkingAll (namePrefixedWithNamespace network.key)
        (linksOf network.metadata.ns attachments) s) := by
  induction attachments generalizing s with
  | nil => exact after_ret ⟨h, .refl, fun _ => rfl⟩
  | cons attachment attachments ih =>
    rw [linksOf_cons]
    have hfirst : ∀ {w' : Wiring}, (wiring s.northbound (namePrefixedWithNamespace network.key)).Within
        ((linksOf network.metadata.ns [attachment]).map Prod.fst) false w' →
        (wiring s.northbound (namePrefixedWithNamespace network.key)).Within
          ((linksOf network.metadata.ns [attachment] ++ linksOf network.metadata.ns attachments).map
            Prod.fst) false w' := fun hw => hw.mono (fun r hr => by simp [hr]) id
    refine (linking_ensureRouterAttachment h).bind (fun _ t ht => ?_)
      (fun e t ht => ⟨ht.1, hfirst ht.2.1, nofun⟩) fun m t ht => ⟨ht.1, hfirst ht.2.1, nofun⟩
    refine (ih ht.1).mono fun o u ⟨hu, hw, hok⟩ => ⟨hu, ?_, fun ho => ?_⟩
    · exact (hfirst ht.2.1).trans (hw.mono (fun r hr => by simp [hr]) id)
    · rw [hok ho, ht.2.2 rfl]
      unfold Wiring.links
      rw [List.foldl_append]

end Links

/-! ## A reconcile -/

section Update

variable [Crates] {ok : (r : Request) → r.Answer → Prop} {w : Worker} {s : World} {switch : String}

theorem setting_ensureDhcp {dhcp : DhcpOptionsCrd} (h : Wired switch s.northbound) :
    After (answering ok w) (ensureDhcp switch dhcp) s fun o t => Wired switch t.northbound ∧
      (wiring s.northbound switch).Within [] true (wiring t.northbound switch) ∧
      (o = .ok () → wiring t.northbound switch =
        (wiring s.northbound switch).setSubnet (some dhcp.cidr)) := by
  have hend : ∀ {t : World} {o : Outcome Error Unit}, Wired switch t.northbound →
      wiring t.northbound switch = wiring s.northbound switch → o ≠ .ok () → Wired switch t.northbound ∧
        (wiring s.northbound switch).Within [] true (wiring t.northbound switch) ∧
        (o = .ok () → wiring t.northbound switch =
          (wiring s.northbound switch).setSubnet (some dhcp.cidr)) := by
    intro t o ht hw ho
    rw [hw]
    exact ⟨ht, .refl, fun hok => absurd hok ho⟩
  have hunanswered : ∀ {o : Outcome Error Unit}, Unanswered ok o → o ≠ .ok () := by
    rintro o ⟨-, m, rfl⟩
    exact nofun
  -- Tables of other kinds do not matter.
  have hkeep : ∀ {t : World} {db : Database}, Wired switch t.northbound → Consistent northbound db →
      (∀ T, T ≠ typeDhcpOptions → db T = t.northbound T) →
      Wired switch db ∧ wiring db switch = wiring t.northbound switch := by
    intro t db ht hcons hother
    have hne : ∀ T ∈ [typeLogicalSwitch, typeLogicalRouter, typeLogicalRouterPort],
        T ≠ typeDhcpOptions := by decide
    refine ht.keep (g := id) hcons (fun T hT => hother T (hne T hT)) ?_ fun _ _ => ⟨rfl, fun _ _ => rfl⟩
    rw [List.map_id]
    exact hother _ (by decide)
  have hset : ∀ (t : World) (d : Row), Wired switch t.northbound →
      wiring t.northbound switch = wiring s.northbound switch →
      After (answering ok w) (do
          (OvnRow.ofRow d : DhcpOptions).setOptions dhcp
          let ls ← getByName LogicalSwitch switch
          ls.setCidr dhcp.cidr) t fun o t => Wired switch t.northbound ∧
        (wiring s.northbound switch).Within [] true (wiring t.northbound switch) ∧
        (o = .ok () → wiring t.northbound switch =
          (wiring s.northbound switch).setSubnet (some dhcp.cidr)) := by
    intro t d ht hw
    refine after_setOptions ht.consistent (fun hosts serverId db hhosts hcons hdb => ?_)
      (fun _ => hend ht hw nofun) fun _ => hend ht hw nofun
    obtain ⟨h₁, hw₁⟩ := hkeep ht hcons fun T hT => by rw [hdb]; exact Database.modify_of_ne hT
    have hw₁ := hw₁.trans hw
    have hread : Reads ok w (t.setNorthbound db) (getByName LogicalSwitch _) _ :=
      reads_getByName LogicalSwitch hcons switch
    unfold foundByName at hread
    refine hread.after (fun ls hls => ?_) (fun _ _ => hend h₁ hw₁ nofun)
      fun _ hu => hend h₁ hw₁ (hunanswered hu)
    split at hls
    · next L hL =>
      cases hls
      rw [← Program.bind_ret (LogicalSwitch.setCidr _ _)]
      refine after_setCidr hcons (fun db' hcons' hdb' => after_ret ?_)
        fun _ hu => hend h₁ hw₁ (hunanswered hu)
      obtain ⟨h₂, hw₂⟩ := h₁.setSubnet hcons' hL hdb'
      rw [hw₁] at hw₂
      refine ⟨h₂, ?_, fun _ => hw₂⟩
      show Wiring.Within _ _ _ (wiring db' switch)
      rw [hw₂]
      exact ⟨id, fun _ _ => rfl, fun _ _ => rfl, nofun⟩
    · cases hls
  unfold ensureDhcp
  refine after_orCreateDhcp h.consistent (fun d hd => hset s d h rfl) (fun u db _ _ hcons hdb => ?_)
    fun _ hu => hend h rfl (hunanswered hu)
  obtain ⟨h₁, hw₁⟩ := hkeep h hcons fun T hT => by rw [hdb]; exact Database.modify_of_ne hT
  exact ⟨fun _ hu => hend h₁ hw₁ (hunanswered hu), hset (s.setNorthbound db) _ h₁ hw₁⟩

/-- A reconcile, possibly in part: it changes only what its spec is about, and if it returns `Ok`
it has done all that the spec asks for. -/
def Updating (switch ns : String) (spec : NetworkSpec) (s : World) (o : Outcome Error Unit)
    (t : World) : Prop :=
  Wired switch t.northbound ∧
    (wiring s.northbound switch).Touched ns spec (wiring t.northbound switch) ∧
    (o = .ok () → wiring t.northbound switch = (wiring s.northbound switch).update ns spec)

theorem updating_updateNetwork {v : Network} (htype : v.spec.networkType.getD .ovn = .ovn)
    (h : Wired (namePrefixedWithNamespace v.key) s.northbound) :
    After (answering ok w) (updateNetwork v) s
      (Updating (namePrefixedWithNamespace v.key) v.metadata.ns v.spec s) := by
  have hstay : ∀ {o : Outcome Error Unit} {t : World}, t.northbound = s.northbound → o ≠ .ok () →
      Updating (namePrefixedWithNamespace v.key) v.metadata.ns v.spec s o t := by
    intro o t ht ho
    unfold Updating
    rw [ht]
    exact ⟨h, .refl, fun hok => absurd hok ho⟩
  unfold updateNetwork
  rw [if_neg (not_not.mpr htype)]
  refine after_ovnTry (fun _ => ?_) fun o ho => hstay rfl nofun
  refine (after_aside (aside_ensureFinalizer v "ovn")).bind (fun v' t ⟨ht, hv⟩ => ?_)
    (fun _ _ ht => hstay ht.1 nofun) fun _ _ ht => hstay ht.1 nofun
  obtain ⟨hkey, hspec⟩ := hv v' rfl
  have hns : v'.metadata.ns = v.metadata.ns := congrArg Key.ns hkey
  -- The switch is there; what follows are the subnet and the links.
  have hrest : ∀ u : World, Wired (namePrefixedWithNamespace v.key) u.northbound →
      wiring u.northbound (namePrefixedWithNamespace v.key) =
        { wiring s.northbound (namePrefixedWithNamespace v.key) with made := true } →
      After (answering ok w) (do
          ifSome v'.spec.dhcp (ensureDhcp (namePrefixedWithNamespace v.key))
          ifSome v'.spec.routers fun routers =>
            Program.forEach routers (ensureRouterAttachment v')
          setStatus v' (⟨true⟩ : NetworkStatus) .updateNetwork) u
        (Updating (namePrefixedWithNamespace v.key) v.metadata.ns v.spec s) := by
    intro u hu hwu
    have hmade : (wiring s.northbound (namePrefixedWithNamespace v.key)).Touched v.metadata.ns v.spec
        (wiring u.northbound (namePrefixedWithNamespace v.key)) := by
      rw [hwu]
      exact ⟨fun _ => rfl, fun _ _ => rfl, fun _ _ => rfl, fun _ => rfl⟩
    have hdhcp : After (answering ok w)
        (ifSome v'.spec.dhcp (ensureDhcp (namePrefixedWithNamespace v.key))) u fun o t =>
          Wired (namePrefixedWithNamespace v.key) t.northbound ∧
          (wiring u.northbound (namePrefixedWithNamespace v.key)).Touched v.metadata.ns v.spec
            (wiring t.northbound (namePrefixedWithNamespace v.key)) ∧
          (o = .ok () → wiring t.northbound (namePrefixedWithNamespace v.key) =
            (wiring u.northbound (namePrefixedWithNamespace v.key)).setSubnet v.spec.subnet) := by
      rw [hspec]
      unfold NetworkSpec.subnet
      cases hd : v.spec.dhcp with
      | none => exact after_ret ⟨hu, .refl, fun _ => rfl⟩
      | some dhcp =>
        refine (setting_ensureDhcp hu).mono fun o t ht => ⟨ht.1, ht.2.1.mono nofun ?_, ht.2.2⟩
        rw [hd]
        exact nofun
    refine hdhcp.bind (fun _ t₁ ht₁ => ?_) (fun _ _ ht => ⟨ht.1, hmade.trans ht.2.1, nofun⟩)
      fun _ _ ht => ⟨ht.1, hmade.trans ht.2.1, nofun⟩
    have hrouters : After (answering ok w) (ifSome v'.spec.routers fun routers =>
        Program.forEach routers (ensureRouterAttachment v')) t₁
        (LinkingAll (namePrefixedWithNamespace v.key) (v.spec.links v.metadata.ns) t₁) := by
      unfold NetworkSpec.links
      rw [hspec, ← hns, ← hkey]
      cases v.spec.routers with
      | none => exact after_ret ⟨hkey ▸ ht₁.1, .refl, fun _ => rfl⟩
      | some routers => exact linking_ensureRouterAttachments (hkey ▸ ht₁.1)
    have hwhole : ∀ {w' : Wiring}, (wiring t₁.northbound (namePrefixedWithNamespace v.key)).Within
        ((v.spec.links v.metadata.ns).map Prod.fst) false w' →
        (wiring s.northbound (namePrefixedWithNamespace v.key)).Touched v.metadata.ns v.spec w' :=
      fun hw => (hmade.trans ht₁.2.1).trans (hw.mono (fun _ hr => hr) fun _ => rfl)
    refine hrouters.bind (fun _ t₂ ht₂ => ?_) (fun _ _ ht => ⟨ht.1, hwhole ht.2.1, nofun⟩)
      fun _ _ ht => ⟨ht.1, hwhole ht.2.1, nofun⟩
    refine (after_aside (aside_setStatus _ _ _)).mono fun o t₃ ht₃ => ?_
    unfold Updating
    rw [ht₃.1]
    refine ⟨ht₂.1, hwhole ht₂.2.1, fun _ => ?_⟩
    rw [ht₂.2.2 rfl, ht₁.2.2 rfl, hwu]
    rfl
  have h₀ : Wired (namePrefixedWithNamespace v.key) t.northbound := by
    rw [ht]
    exact h
  refine after_createIfMissing LogicalSwitch rfl ⟨_, .head _, .inl rfl⟩ (by decide) h₀.consistent
    (fun L hL => hrest t h₀ ?_) (fun u db hn _ hcons hdb => ?_) ?_
  · have hmade : (wiring t.northbound (namePrefixedWithNamespace v.key)).made = true :=
      Option.isSome_iff_exists.mpr ⟨L, hL⟩
    rw [← ht, ← hmade]
  · obtain ⟨h₁, hw₁⟩ := h₀.addSwitch hcons hn hdb
    rw [ht] at hw₁
    refine ⟨fun o ho => ?_, hrest (t.setNorthbound db) h₁ hw₁⟩
    obtain ⟨-, m, rfl⟩ := ho
    refine ⟨h₁, ?_, nofun⟩
    show Wiring.Within _ _ _ (wiring db _)
    rw [hw₁]
    exact ⟨fun _ => rfl, fun _ _ => rfl, fun _ _ => rfl, fun _ => rfl⟩
  · rintro o ⟨-, m, rfl⟩
    exact hstay ht nofun

end Update

/-! ## Histories -/

/-- The network has the spec, of type `ovn`, and is not being deleted. -/
def Requested (k : Key) (spec : NetworkSpec) (s : World) : Prop :=
  ∃ v, (s.kube .network).find? k = some v ∧ v.isDeleted = false ∧ v.spec = spec ∧
    spec.networkType.getD .ovn = .ovn

/-- Reconciles of the network while it has the spec, and what happens besides. -/
def attemptsOf (k : Key) (spec : NetworkSpec) (s : World) : Deed → Prop
  | .turn w => w = .network k ∧ Requested k spec s
  | .happen _ => True

section Histories

variable [Crates]

/-- A history of edits of a network: after each one it is reconciled until a reconcile returns
`Ok`. The last spec comes first. -/
inductive History (k : Key) (s : World) : List NetworkSpec → World → Prop
  | start : History k s [] s
  | edit {specs : List NetworkSpec} {spec : NetworkSpec} {t u v : World} :
      History k s specs t → Serial Served (attemptsOf k spec) t u → Requested k spec u →
      Turn Served (.network k) u (.ok ()) v → History k s (spec :: specs) v

/-- The database has neither the switch nor ports of its links. -/
structure Unlinked (switch : String) (db : Database) : Prop where
  switches : ∀ L ∈ db typeLogicalSwitch, rowText L "name" ≠ switch
  routerPorts : ∀ p ∈ db typeLogicalRouterPort, ∀ x, rowText p "name" ≠ routerPortName x switch
  switchPorts : ∀ q ∈ db typeLogicalSwitchPort, ∀ x, rowText q "name" ≠ switchPortName switch x

/-- The switch of the network is attached to exactly the routers of the spec, each attachment
with its address, and has the subnet of the spec. -/
structure Matches (k : Key) (spec : NetworkSpec) (db : Database) : Prop where
  made : ∃ L ∈ db typeLogicalSwitch, rowText L "name" = namePrefixedWithNamespace k
  subnet : ∀ L ∈ db typeLogicalSwitch, rowText L "name" = namePrefixedWithNamespace k →
    (rowMap L "other_config").get "subnet" = spec.subnet
  attached : ∀ router address, Attached db (namePrefixedWithNamespace k) router address ↔
    (router, address) ∈ spec.links k.ns

/-- The spec names all routers that earlier specs have named, each with one address, and it has
DHCP options if one of them has. -/
structure Covers (ns : String) (specs : List NetworkSpec) (spec : NetworkSpec) : Prop where
  routers : ∀ old ∈ specs, ∀ router ∈ old.linked ns, router ∈ spec.linked ns
  addresses : ∀ router a b, (router, a) ∈ spec.links ns → (router, b) ∈ spec.links ns → a = b
  subnet : ∀ old ∈ specs, old.dhcp.isSome = true → spec.dhcp.isSome = true

variable {k : Key} {spec : NetworkSpec} {specs : List NetworkSpec} {s t : World} {db : Database}
  {switch : String}

omit [Crates] in
theorem Unlinked.wired (h : Unlinked switch db) (hc : Consistent northbound db) : Wired switch db where
  consistent := hc
  sole L hL hn := absurd hn (h.switches L hL)
  routers := ⟨fun p hp x hx => absurd hx (h.routerPorts p hp x),
    fun p hp x hx => absurd hx (h.routerPorts p hp x)⟩
  switches := ⟨fun q hq x hx => absurd hx (h.switchPorts q hq x),
    fun q hq x hx => absurd hx (h.switchPorts q hq x)⟩
  links L hL hn := absurd hn (h.switches L hL)

omit [Crates] in
theorem Unlinked.wiring_eq (h : Unlinked switch db) :
    wiring db switch = ⟨false, fun _ => none, fun _ => false, none⟩ := by
  have hL : named db typeLogicalSwitch switch = none := firstWith_none.mpr h.switches
  unfold wiring
  congr 1
  · rw [hL]
    rfl
  · funext x
    rw [show named db typeLogicalRouterPort (routerPortName x switch) = none from
      firstWith_none.mpr fun p hp => h.routerPorts p hp x]
    rfl
  · funext x
    rw [show named db typeLogicalSwitchPort (switchPortName switch x) = none from
      firstWith_none.mpr fun q hq => h.switchPorts q hq x]
    rfl
  · rw [hL]
    rfl

theorem updating_turn {o : Outcome Error Unit} (h : Wired (namePrefixedWithNamespace k) s.northbound)
    (hreq : Requested k spec s) (hturn : Turn Served (.network k) s o t) :
    Updating (namePrefixedWithNamespace k) k.ns spec s o t := by
  obtain ⟨v, hv, hd, rfl, htype⟩ := hreq
  obtain ⟨v', hv', hends⟩ := hturn
  obtain rfl : v = v' := Option.some.inj (hv.symm.trans hv')
  have hk : v.key = k := Collection.key_of_find? hv
  have hends : (Worker.reconcile (.network k) v).Ends (answering anyAnswer (.network k))
      (s.started (.network k) v.version) o t := hends.mono fun _ _ _ _ he => ⟨he, trivial⟩
  simp only [Worker.reconcile] at hends
  rw [if_neg (by simp [hd])] at hends
  have hns : v.metadata.ns = k.ns := congrArg Key.ns hk
  have hafter := updating_updateNetwork (s := s.started (.network k) v.version) htype (by rwa [hk]) o t hends
  rw [hk, hns] at hafter
  exact hafter

/-- Attempts change only what the spec is about. -/
theorem touched_attempts (h : Wired (namePrefixedWithNamespace k) s.northbound)
    (hrun : Serial Served (attemptsOf k spec) s t) : Wired (namePrefixedWithNamespace k) t.northbound ∧
      (wiring s.northbound (namePrefixedWithNamespace k)).Touched k.ns spec
        (wiring t.northbound (namePrefixedWithNamespace k)) := by
  induction hrun with
  | refl => exact ⟨h, .refl⟩
  | tail _ hstep ih =>
    obtain ⟨hu, hw⟩ := ih
    obtain ⟨d, ha, hd⟩ := hstep
    cases d with
    | happen e =>
      obtain ⟨ht, he⟩ := hu.happen hd
      exact ⟨ht, he ▸ hw⟩
    | turn w =>
      obtain ⟨rfl, hreq⟩ := ha
      obtain ⟨o, hturn⟩ := hd
      obtain ⟨ht, hw', -⟩ := updating_turn hu hreq hturn
      exact ⟨ht, hw.trans hw'⟩

/-- What the specs of a history leave: for each router the address of the last spec that names
it, and the subnet of the last spec that has one. -/
structure Remains (ns : String) (specs : List NetworkSpec) (w : Wiring) : Prop where
  made : specs ≠ [] → w.made = true
  address : ∀ router, w.address router =
    specs.findSome? fun spec => Wiring.lastAddress (spec.links ns) router
  joined : ∀ router, w.joined router = specs.any fun spec => decide (router ∈ spec.linked ns)
  subnet : w.subnet = specs.findSome? NetworkSpec.subnet

omit [Crates] in
theorem Remains.update {ns : String} {w w' : Wiring} (h : Remains ns specs w)
    (hw : w.Touched ns spec w') : Remains ns (spec :: specs) (w'.update ns spec) := by
  have hset : ∀ cidr : Option String, ({ w' with made := true } : Wiring).setSubnet cidr =
      { w' with made := true, subnet := cidr.or w'.subnet } := by
    intro cidr
    cases cidr <;> rfl
  unfold Wiring.update
  rw [hset]
  constructor
  · rintro -
    exact Wiring.made_links
  · intro router
    rw [Wiring.address_links, List.findSome?_cons]
    cases hlast : Wiring.lastAddress (spec.links ns) router with
    | some address => rfl
    | none =>
      have hnew : router ∉ spec.linked ns := fun hm => by
        have hsome := Wiring.lastAddress_isSome.mpr hm
        rw [hlast] at hsome
        cases hsome
      rw [Option.none_or]
      exact (hw.address router hnew).trans (h.address router)
  · intro router
    rw [Wiring.joined_links, List.any_cons]
    by_cases hm : router ∈ spec.linked ns
    · rw [decide_eq_true hm, Bool.true_or]
      exact Bool.or_eq_true_iff.mpr (.inl (decide_eq_true hm))
    · exact congrArg _ ((hw.joined router hm).trans (h.joined router))
  · rw [Wiring.subnet_links, List.findSome?_cons]
    unfold NetworkSpec.subnet
    cases hd : spec.dhcp with
    | some dhcp => rfl
    | none => exact (hw.subnet (by rw [hd]; rfl)).trans h.subnet

theorem remains_of_history (hc : Consistent northbound s.northbound)
    (hfresh : Unlinked (namePrefixedWithNamespace k) s.northbound) (h : History k s specs t) :
    Wired (namePrefixedWithNamespace k) t.northbound ∧
      Remains k.ns specs (wiring t.northbound (namePrefixedWithNamespace k)) := by
  induction h with
  | start =>
    rw [hfresh.wiring_eq]
    exact ⟨hfresh.wired hc, fun h => absurd rfl h, fun _ => rfl, fun _ => rfl, rfl⟩
  | edit _ hrun hreq hlast ih =>
    obtain ⟨ht, hrem⟩ := ih
    obtain ⟨hu, hw⟩ := touched_attempts ht hrun
    obtain ⟨hv, -, hok⟩ := updating_turn hu hreq hlast
    rw [hok rfl]
    exact ⟨hv, hrem.update hw⟩

omit [Crates] in
theorem mem_linked {ns : String} {router : String} :
    router ∈ spec.linked ns ↔ ∃ address, (router, address) ∈ spec.links ns := by
  unfold NetworkSpec.linked
  rw [List.mem_map]
  exact ⟨fun ⟨⟨_, address⟩, hm, rfl⟩ => ⟨address, hm⟩, fun ⟨address, hm⟩ => ⟨_, hm, rfl⟩⟩

omit [Crates] in
/-- The last spec covers the others if and only if the wiring is what it asks for. -/
theorem Remains.covers_iff {ns : String} {w : Wiring} (h : Remains ns (spec :: specs) w) :
    Covers ns specs spec ↔ w.subnet = spec.subnet ∧ ∀ router address,
      w.joined router = true ∧ w.address router = some address ↔ (router, address) ∈ spec.links ns := by
  constructor
  · intro hcov
    constructor
    · rw [h.subnet, List.findSome?_cons]
      cases hs : spec.subnet with
      | some cidr => rfl
      | none =>
        refine List.findSome?_eq_none_iff.mpr fun old hold => ?_
        cases hd : old.dhcp with
        | none =>
          unfold NetworkSpec.subnet
          rw [hd]
          rfl
        | some dhcp =>
          have hsome := hcov.subnet old hold (by rw [hd]; rfl)
          unfold NetworkSpec.subnet at hs
          rw [Option.map_eq_none_iff.mp hs] at hsome
          cases hsome
    · intro router address
      rw [h.address, List.findSome?_cons, h.joined, List.any_cons]
      constructor
      · rintro ⟨-, haddress⟩
        cases hlast : Wiring.lastAddress (spec.links ns) router with
        | some a =>
          rw [hlast] at haddress
          exact Wiring.mem_of_lastAddress (hlast.trans haddress)
        | none =>
          -- An earlier spec has named the router, so the last one does.
          rw [hlast] at haddress
          obtain ⟨_, old, _, hold, hadd, -⟩ := List.findSome?_eq_some_iff.mp haddress
          have hm := hcov.routers old (by rw [hold]; simp) router
            (mem_linked.mpr ⟨address, Wiring.mem_of_lastAddress hadd⟩)
          have hsome := Wiring.lastAddress_isSome.mpr hm
          rw [hlast] at hsome
          cases hsome
      · intro hm
        have hlinked := mem_linked.mpr ⟨address, hm⟩
        obtain ⟨a, ha⟩ := Option.isSome_iff_exists.mp (Wiring.lastAddress_isSome.mpr hlinked)
        rw [ha, hcov.addresses router address a hm (Wiring.mem_of_lastAddress ha)]
        exact ⟨Bool.or_eq_true_iff.mpr (.inl (decide_eq_true hlinked)), rfl⟩
  · rintro ⟨hsubnet, hlinks⟩
    constructor
    · intro old hold router hm
      have hjoined : w.joined router = true := by
        rw [h.joined, List.any_eq_true]
        exact ⟨old, List.mem_cons_of_mem _ hold, decide_eq_true hm⟩
      have haddress : (w.address router).isSome = true := by
        rw [h.address, List.isSome_findSome?, List.any_eq_true]
        exact ⟨old, List.mem_cons_of_mem _ hold, Wiring.lastAddress_isSome.mpr hm⟩
      obtain ⟨address, ha⟩ := Option.isSome_iff_exists.mp haddress
      exact mem_linked.mpr ⟨address, (hlinks router address).mp ⟨hjoined, ha⟩⟩
    · intro router a b ha hb
      exact Option.some.inj (((hlinks router a).mpr ha).2.symm.trans ((hlinks router b).mpr hb).2)
    · intro old hold hd
      have hsome : w.subnet.isSome = true := by
        rw [h.subnet, List.isSome_findSome?, List.any_eq_true]
        refine ⟨old, List.mem_cons_of_mem _ hold, ?_⟩
        unfold NetworkSpec.subnet
        rwa [Option.isSome_map]
      rw [hsubnet] at hsome
      unfold NetworkSpec.subnet at hsome
      rwa [Option.isSome_map] at hsome

omit [Crates] in
theorem matches_iff (h : Wired (namePrefixedWithNamespace k) db)
    (hmade : (wiring db (namePrefixedWithNamespace k)).made = true) :
    Matches k spec db ↔ (wiring db (namePrefixedWithNamespace k)).subnet = spec.subnet ∧
      ∀ router address, (wiring db (namePrefixedWithNamespace k)).joined router = true ∧
        (wiring db (namePrefixedWithNamespace k)).address router = some address ↔
          (router, address) ∈ spec.links k.ns := by
  obtain ⟨L, hL⟩ := Option.isSome_iff_exists.mp hmade
  obtain ⟨hLmem, hLn⟩ := firstWith_some hL
  have hsubnet : (wiring db (namePrefixedWithNamespace k)).subnet =
      (rowMap L "other_config").get "subnet" := by
    show (named db typeLogicalSwitch _).bind _ = _
    rw [show named db typeLogicalSwitch (namePrefixedWithNamespace k) = some L from hL]
    rfl
  rw [hsubnet]
  constructor
  · intro hm
    exact ⟨hm.subnet L hLmem hLn, fun router address =>
      (attached_iff h).symm.trans (hm.attached router address)⟩
  · rintro ⟨hsub, hlinks⟩
    refine ⟨⟨L, hLmem, hLn⟩, fun L' hL' hn' => ?_, fun router address =>
      (attached_iff h).trans (hlinks router address)⟩
    have hfirst := h.sole L' hL' hn'
    unfold switchOf uuidOf at hfirst
    rw [show named db typeLogicalSwitch (namePrefixedWithNamespace k) = some L from hL] at hfirst
    obtain rfl : L = L' := List.inj_on_of_nodup_map (h.consistent.conforms.unique _) hLmem hL'
      (Option.some.inj hfirst)
    exact hsub

/-- After every history of edits the switch is attached to exactly the routers of the last spec,
each attachment with its address, and has the subnet of the last spec, if and only if the last
spec names all routers that were named before, each with one address, and has DHCP options if
one before had. -/
theorem level_triggered (hc : Consistent northbound s.northbound)
    (hfresh : Unlinked (namePrefixedWithNamespace k) s.northbound)
    (h : History k s (spec :: specs) t) : Matches k spec t.northbound ↔ Covers k.ns specs spec := by
  obtain ⟨ht, hrem⟩ := remains_of_history hc hfresh h
  rw [matches_iff ht (hrem.made nofun), hrem.covers_iff]

end Histories

/-! ## Concrete histories -/

instance (k : Key) (spec : NetworkSpec) (s : World) : Decidable (Requested k spec s) :=
  decidable_of_iff (((s.kube .network).find? k).any (fun v =>
    !v.isDeleted && decide (v.spec = spec) && decide (spec.networkType.getD .ovn = .ovn)) = true) <| by
    unfold Requested
    simp only [Option.any_eq_true, Bool.and_eq_true, Bool.not_eq_true', decide_eq_true_eq, and_assoc]

instance (k : Key) (spec : NetworkSpec) (s : World) : (d : Deed) → Decidable (attemptsOf k spec s d)
  | .turn w => inferInstanceAs (Decidable (w = .network k ∧ Requested k spec s))
  | .happen _ => .isTrue trivial

section Perform

variable [Crates]

/-- A reconcile of the network that returns `Ok`. -/
def performOk (k : Key) (s : World) : Option World :=
  ((s.kube .network).find? k).bind fun v =>
    ((Worker.reconcile (.network k) v).runWith (World.serveWell (.network k))
      (s.started (.network k) v.version)).bind fun q =>
        match q.1 with
        | .ok _ => some q.2
        | _ => none

/-- Edits and attempts for one spec after another, with a reconcile that returns `Ok` after each. -/
def performEdits (k : Key) : World → List (NetworkSpec × List Deed) → Option World
  | s, [] => some s
  | s, (spec, deeds) :: edits =>
    match performAll anyRequest (attemptsOf k spec) s deeds with
    | some t => if Requested k spec t then (performOk k t).bind fun u => performEdits k u edits else none
    | none => none

theorem turn_of_performOk {k : Key} {s t : World} (h : performOk k s = some t) :
    Turn Served (.network k) s (.ok ()) t := by
  obtain ⟨v, hv, h⟩ := Option.bind_eq_some_iff.mp h
  obtain ⟨⟨o, u⟩, hrun, h⟩ := Option.bind_eq_some_iff.mp h
  cases o with
  | ok _ =>
    cases h
    obtain ⟨v', hv', hends⟩ := turn_of_runWith (w := .network k) hv hrun
    exact ⟨v', hv', hends.mono fun _ _ _ _ he => he.1⟩
  | err e => cases h
  | aborted m => cases h

theorem history_of_perform {k : Key} {s₀ s t : World} {specs : List NetworkSpec}
    {edits : List (NetworkSpec × List Deed)} (hs : History k s₀ specs s)
    (h : performEdits k s edits = some t) :
    History k s₀ ((edits.map Prod.fst).reverse ++ specs) t := by
  induction edits generalizing s specs with
  | nil =>
    cases h
    exact hs
  | cons edit edits ih =>
    obtain ⟨spec, deeds⟩ := edit
    simp only [performEdits] at h
    split at h
    · next u hu =>
      split at h
      · next hreq =>
        obtain ⟨v, hv, h⟩ := Option.bind_eq_some_iff.mp h
        have hrun : Serial Served (attemptsOf k spec) s u :=
          (serial_of_perform hu).mono (fun _ _ _ _ _ h => h.1) fun _ _ h => h
        have hall := ih (hs.edit hrun hreq (turn_of_performOk hv)) h
        rw [List.map_cons, List.reverse_cons, List.append_assoc]
        exact hall
      · cases h
    · cases h

end Perform

attribute [local instance] plainCrates

/-- A network. -/
def netKey : Key := ⟨"n", "net"⟩

/-- A spec with the given attachments. -/
def attachedTo (routers : List RouterAttachment) : NetworkSpec := ⟨none, some routers, none, none, none⟩

/-- The network is created with a spec, and the first reconcile sets its finalizer. -/
def createdWith (spec : NetworkSpec) : NetworkSpec × List Deed :=
  (spec, [.happen (.create .network netKey [] [] spec), .turn (.network netKey)])

/-- The network gets another spec. -/
def editedTo (spec : NetworkSpec) : NetworkSpec × List Deed :=
  (spec, [.happen (.edit .network netKey [] [] spec)])

/-- Edits that can be performed are histories, from a state with a router and no network. -/
theorem exists_histories (edits edits' : List (NetworkSpec × List Deed))
    (h : ((performAll anyRequest anyDeed World.initial routerDeeds).any fun s =>
      s.northbound typeLogicalSwitch = [] && s.northbound typeLogicalRouterPort = [] &&
      s.northbound typeLogicalSwitchPort = [] &&
      (performEdits netKey s edits).isSome && (performEdits netKey s edits').isSome) = true) :
    ∃ s t u : World, Consistent northbound s.northbound ∧ Unlinked (namePrefixedWithNamespace netKey) s.northbound ∧
      History netKey s (edits.map Prod.fst).reverse t ∧
      History netKey s (edits'.map Prod.fst).reverse u := by
  simp only [Option.any_eq_true, Bool.and_eq_true, decide_eq_true_eq] at h
  obtain ⟨s, hs, ⟨⟨⟨hL, hRP⟩, hLP⟩, hedits⟩, hedits'⟩ := h
  obtain ⟨t, ht⟩ := Option.isSome_iff_exists.mp hedits
  obtain ⟨u, hu⟩ := Option.isSome_iff_exists.mp hedits'
  refine ⟨s, t, u, consistent_serial (serial_of_perform hs) Ovsdb.consistent_empty, ⟨?_, ?_, ?_⟩, ?_, ?_⟩
  · rw [hL]
    simp
  · rw [hRP]
    simp
  · rw [hLP]
    simp
  · have hall := history_of_perform .start ht
    rwa [List.append_nil] at hall
  · have hall := history_of_perform .start hu
    rwa [List.append_nil] at hall

/-- Two histories end in the same spec, which names no router. After one of them the switch is
attached to a router, after the other it is not. -/
theorem attachment_stays : ∃ (s t u : World) (spec old : NetworkSpec),
    Consistent northbound s.northbound ∧ Unlinked (namePrefixedWithNamespace netKey) s.northbound ∧
    History netKey s [spec, old] t ∧ History netKey s [spec] u ∧
    ¬Matches netKey spec t.northbound ∧
    Attached t.northbound (namePrefixedWithNamespace netKey) "n-r" "10.0.0.1/24" ∧
    ¬Attached u.northbound (namePrefixedWithNamespace netKey) "n-r" "10.0.0.1/24" := by
  obtain ⟨s, t, u, hc, hfresh, ht, hu⟩ := exists_histories
    [createdWith (attachedTo [⟨"r", "10.0.0.1/24"⟩]), editedTo (attachedTo [])]
    [createdWith (attachedTo [])] (by decide +kernel)
  obtain ⟨hwt, hrt⟩ := remains_of_history hc hfresh ht
  obtain ⟨hwu, hru⟩ := remains_of_history hc hfresh hu
  have hatt : Attached t.northbound (namePrefixedWithNamespace netKey) "n-r" "10.0.0.1/24" :=
    (attached_iff hwt).mpr ⟨(hrt.joined "n-r").trans (by decide), (hrt.address "n-r").trans (by decide)⟩
  have hnot : ¬Attached u.northbound (namePrefixedWithNamespace netKey) "n-r" "10.0.0.1/24" := by
    intro h
    have hjoined := ((attached_iff hwu).mp h).1
    rw [hru.joined "n-r"] at hjoined
    revert hjoined
    decide
  refine ⟨s, t, u, _, _, hc, hfresh, ht, hu, fun hm => ?_, hatt, hnot⟩
  have hlinks := (hm.attached "n-r" "10.0.0.1/24").mp hatt
  revert hlinks
  decide

/-- The address of an attachment is edited. -/
theorem level_triggered_address : ∃ (s t : World) (spec old : NetworkSpec),
    History netKey s [spec, old] t ∧ Matches netKey spec t.northbound ∧
    Attached t.northbound (namePrefixedWithNamespace netKey) "n-r" "10.0.0.2/24" := by
  obtain ⟨s, t, -, hc, hfresh, ht, -⟩ := exists_histories
    [createdWith (attachedTo [⟨"r", "10.0.0.1/24"⟩]), editedTo (attachedTo [⟨"r", "10.0.0.2/24"⟩])]
    [] (by decide +kernel)
  have hcov : Covers "n" [attachedTo [⟨"r", "10.0.0.1/24"⟩]] (attachedTo [⟨"r", "10.0.0.2/24"⟩]) := by
    have hlinked : (attachedTo [⟨"r", "10.0.0.1/24"⟩]).linked "n" =
        (attachedTo [⟨"r", "10.0.0.2/24"⟩]).linked "n" := by decide
    have hlinks : (attachedTo [⟨"r", "10.0.0.2/24"⟩]).links "n" = [("n-r", "10.0.0.2/24")] := by decide
    constructor
    · intro old hold router hm
      rw [List.mem_singleton.mp hold, hlinked] at hm
      exact hm
    · intro router a b ha hb
      rw [hlinks, List.mem_singleton] at ha hb
      exact (Prod.mk.inj ha).2.trans (Prod.mk.inj hb).2.symm
    · intro old hold hd
      rw [List.mem_singleton.mp hold] at hd
      cases hd
  have hm := (level_triggered hc hfresh ht).mpr hcov
  exact ⟨s, t, _, _, ht, hm, (hm.attached _ _).mpr (by decide)⟩

end ClusterController
