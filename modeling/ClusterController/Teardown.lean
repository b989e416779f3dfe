import ClusterController.Removal

/-!
# Teardown

What the controllers for networks and routers leave in the northbound database once an
object has been removed. Rows of ports and routes go with the switch or router that refers
to them, so what counts is which rows of switches and routers refer to what.
-/

namespace ClusterController

open ApiServer (Key Resource Collection)
open Interaction (Program)
open Interaction.Program (Outcome After Ends ends_bind after_ret after_fail after_abort)
open Ovsdb (Row Database Columns Consistent addRefs)

/-! ## Rows that are one's own -/

/-- The tables of switches, routers, their ports and static routes. -/
def topologyTables : List String :=
  [typeLogicalSwitch, typeLogicalSwitchPort, typeLogicalRouter, typeLogicalRouterPort,
    typeLogicalRouterStaticRoute]

/-- The database has no switch, router, port or route that it did not have at the start. -/
def Restored (start db : Database) : Prop :=
  ∀ T ∈ topologyTables, ∀ r ∈ db T, r.uuid ∈ (start T).map Row.uuid

/-- One of the two tables of switches and routers, and the other. -/
inductive Sides : String → String → Prop
  | switches : Sides typeLogicalSwitch typeLogicalRouter
  | routers : Sides typeLogicalRouter typeLogicalSwitch

/-- The row refers to nothing that is not in the starting database. -/
def RefersTo (start : Database) (T : String) (r : Row) : Prop :=
  ∀ ref ∈ northbound.references, ref.strong = true → ref.table = T →
    ∀ v ∈ r.refs ref.column, v ∈ (start ref.target).map Row.uuid

/-- What an object of a name has brought into its table `T` since the start: at most one
row, the only one of the name, and whatever the first row of the name refers to. The other
table is as it was. -/
structure Tidy (start : Database) (T T' name : String) (db : Database) : Prop where
  consistent : Consistent northbound db
  own : ∀ r ∈ db T, r.uuid ∉ (start T).map Row.uuid →
    rowText r "name" = name ∧ ∀ r' ∈ db T, rowText r' "name" = name → r'.uuid = r.uuid
  rest : ∀ r ∈ db T, uuidOf db T name ≠ some r.uuid → RefersTo start T r
  other : db T' = start T'

section Tidy

variable {start db db' : Database} {T T' name u : String}

theorem refersTo_of_consistent (hc : Consistent northbound start) {r : Row} (hr : r ∈ start T) :
    RefersTo start T r := by
  rintro ref href hs rfl v hv
  have hint := hc.integral
  unfold Database.integral at hint
  rw [List.all_eq_true] at hint
  have h := hint ref href
  rw [hs] at h
  simp only [Bool.not_true, Bool.false_or, List.all_eq_true] at h
  exact Ovsdb.isSome_find?.mp (h r hr v hv)

theorem Tidy.refl (hc : Consistent northbound start) : Tidy start T T' name start :=
  ⟨hc, fun _ hr hne => absurd (List.mem_map_of_mem hr) hne,
    fun _ hr _ => refersTo_of_consistent hc hr, rfl⟩

/-- Rows change, but not their names, and references at most in the first row of the name. -/
theorem Tidy.change (h : Tidy start T T' name db) (hc : Consistent northbound db') {g : Row → Row}
    (hT : db' T = (db T).map g) (huuid : ∀ r ∈ db T, (g r).uuid = r.uuid)
    (hname : ∀ r ∈ db T, rowText (g r) "name" = rowText r "name")
    (hrefs : ∀ r ∈ db T, uuidOf db T name ≠ some r.uuid → ∀ ref ∈ northbound.references,
      ref.strong = true → ref.table = T → (g r).refs ref.column = r.refs ref.column)
    (hother : db' T' = db T') : Tidy start T T' name db' := by
  have hfirst : uuidOf db' T name = uuidOf db T name := uuidOf_map hT huuid hname
  constructor
  · exact hc
  · intro r hr hne
    rw [hT] at hr
    obtain ⟨r₀, hr₀, rfl⟩ := List.mem_map.mp hr
    rw [huuid r₀ hr₀] at hne
    obtain ⟨hn, hsole⟩ := h.own r₀ hr₀ hne
    refine ⟨(hname r₀ hr₀).trans hn, fun r' hr' hn' => ?_⟩
    rw [hT] at hr'
    obtain ⟨r₁, hr₁, rfl⟩ := List.mem_map.mp hr'
    rw [huuid r₁ hr₁, huuid r₀ hr₀]
    exact hsole r₁ hr₁ ((hname r₁ hr₁).symm.trans hn')
  · intro r hr hne ref href hs ht v hv
    rw [hT] at hr
    obtain ⟨r₀, hr₀, rfl⟩ := List.mem_map.mp hr
    rw [hfirst, huuid r₀ hr₀] at hne
    rw [hrefs r₀ hr₀ hne ref href hs ht] at hv
    exact h.rest r₀ hr₀ hne ref href hs ht v hv
  · exact hother.trans h.other

/-- Other tables change. -/
theorem Tidy.keep (h : Tidy start T T' name db) (hc : Consistent northbound db')
    (hT : db' T = db T) (hother : db' T' = db T') : Tidy start T T' name db' :=
  h.change (g := id) hc (by rw [hT, List.map_id]) (fun _ _ => rfl) (fun _ _ => rfl)
    (fun _ _ _ _ _ _ _ => rfl) hother

/-- The first row of the name is made. -/
theorem Tidy.create (h : Tidy start T T' name db) (hc : Consistent northbound db')
    (hcol : ("name", .strings [""]) ∈ northboundColumns T) (hn : named db T name = none)
    (hT : db' T = db T ++ [namedRow T u name]) (hother : db' T' = db T') :
    Tidy start T T' name db' := by
  have hnone := firstWith_none.mp hn
  have hnew : rowText (namedRow T u name) "name" = name := rowText_namedRow hcol
  have hfirst : uuidOf db' T name = some (namedRow T u name).uuid := by
    unfold uuidOf
    rw [show named db' T name = _ from firstWith_append hn hnew hT]
    rfl
  constructor
  · exact hc
  · intro r hr hne
    rw [hT] at hr
    rcases List.mem_append.mp hr with hr | hr
    · exact absurd (h.own r hr hne).1 (hnone r hr)
    · rw [List.mem_singleton.mp hr]
      refine ⟨hnew, fun r' hr' hn' => ?_⟩
      rw [hT] at hr'
      rcases List.mem_append.mp hr' with hr' | hr'
      · exact absurd hn' (hnone r' hr')
      · rw [List.mem_singleton.mp hr']
  · intro r hr hne
    rw [hT] at hr
    rcases List.mem_append.mp hr with hr | hr
    · refine h.rest r hr ?_
      unfold uuidOf
      rw [hn]
      exact nofun
    · rw [List.mem_singleton.mp hr] at hne
      exact absurd hfirst hne
  · exact hother.trans h.other

/-- What is left of the table was there at the start, with all that it refers to. -/
def Left (start : Database) (T : String) (db : Database) : Prop :=
  ∀ r ∈ db T, r.uuid ∈ (start T).map Row.uuid ∧ RefersTo start T r

/-- Without a row of the name nothing is one's own. -/
theorem Tidy.left_of_none (h : Tidy start T T' name db) (hn : named db T name = none) :
    Left start T db := by
  intro r hr
  refine ⟨?_, h.rest r hr ?_⟩
  · by_contra hnew
    exact firstWith_none.mp hn r hr (h.own r hr hnew).1
  · unfold uuidOf
    rw [hn]
    exact nofun

/-- The first row of the name is deleted. -/
theorem Tidy.delete (h : Tidy start T T' name db) {f : Row}
    (hf : named db T name = some f) (hT : db' T = (db T).filter fun r => r.uuid ≠ f.uuid) :
    Left start T db' := by
  obtain ⟨hmem, hname⟩ := firstWith_some hf
  intro r hr
  rw [hT] at hr
  obtain ⟨hr, hne⟩ := List.mem_filter.mp hr
  have hne : r.uuid ≠ f.uuid := of_decide_eq_true hne
  refine ⟨?_, h.rest r hr fun he => ?_⟩
  · by_contra hnew
    exact hne ((h.own r hr hnew).2 f hmem hname).symm
  · unfold uuidOf at he
    rw [hf] at he
    exact hne (Option.some.inj he).symm

/-- A table whose rows were there at the start is tidy. -/
theorem Tidy.of_left (hc : Consistent northbound db') (hleft : Left start T db')
    (hother : db' T' = start T') : Tidy start T T' name db' :=
  ⟨hc, fun r hr hne => absurd (hleft r hr).1 hne, fun r hr _ => (hleft r hr).2, hother⟩

/-- With only rows of the start in both tables there is nothing new to refer to. -/
theorem restored_of_left (hside : Sides T T') (hs : Consistent northbound start)
    (hc : Consistent northbound db') (hleft : Left start T db') (hother : db' T' = start T') :
    Restored start db' := by
  have hboth : ∀ P, P = typeLogicalSwitch ∨ P = typeLogicalRouter → Left start P db' := by
    have hrest : Left start T' db' := by
      unfold Left
      rw [hother]
      exact fun r hr => ⟨List.mem_map_of_mem hr, refersTo_of_consistent hs hr⟩
    cases hside with
    | switches =>
      rintro P (rfl | rfl)
      · exact hleft
      · exact hrest
    | routers =>
      rintro P (rfl | rfl)
      · exact hrest
      · exact hleft
  have htables : ∀ ref ∈ northbound.references, ref.strong = true →
      ref.table = typeLogicalSwitch ∨ ref.table = typeLogicalRouter := by decide
  intro P hP r hr
  cases hroot : northbound.isRoot P with
  | true =>
    have hdec : ∀ P ∈ topologyTables, northbound.isRoot P = true →
        P = typeLogicalSwitch ∨ P = typeLogicalRouter := by decide
    exact (hboth P (hdec P hP hroot) r hr).1
  | false =>
    -- A port or a route is still there because a switch or a router refers to it.
    have href := hc.referenced hroot hr
    unfold Database.referenced at href
    simp only [List.any_eq_true, Bool.and_eq_true, decide_eq_true_eq] at href
    obtain ⟨ref, href, ⟨hst, rfl⟩, r₁, hr₁, hv⟩ := href
    exact (hboth ref.table (htables ref href hst) r₁ hr₁).2 ref href hst rfl r.uuid
      (List.contains_iff_mem.mp hv)

end Tidy

/-! ## Names that stay -/

/-- Every name that the table has it keeps. -/
def Kept (T : String) (db db' : Database) : Prop :=
  ∀ name, (named db T name).isSome = true → (named db' T name).isSome = true

section Kept

variable {T : String} {db db' db'' : Database}

theorem isSome_named {name : String} :
    (named db T name).isSome = true ↔ ∃ r ∈ db T, rowText r "name" = name := by
  unfold named firstWith
  simp

theorem Kept.of_eq (h : db' T = db T) : Kept T db db' := by
  intro name hn
  rw [isSome_named] at hn ⊢
  rwa [h]

theorem Kept.trans (h : Kept T db db') (h' : Kept T db' db'') : Kept T db db'' :=
  fun name hn => h' name (h name hn)

theorem Kept.map {g : Row → Row} (h : db' T = (db T).map g)
    (hname : ∀ r ∈ db T, rowText (g r) "name" = rowText r "name") : Kept T db db' := by
  intro name hn
  rw [isSome_named] at hn ⊢
  obtain ⟨r, hr, hn⟩ := hn
  rw [h]
  exact ⟨g r, List.mem_map_of_mem hr, (hname r hr).trans hn⟩

end Kept

/-! ## Links between routers and switches -/

section Links

variable {ok : (r : Request) → r.Answer → Prop} {w : Worker} {s : World} {start : Database}
  {name address : String} {R L : Row}

/-- An update of a router port keeps its name. -/
theorem kept_lrpUpdate {db : Database} {p : Row} (hc : Consistent northbound db)
    (hp : p ∈ db typeLogicalRouterPort) (networks : String) :
    Kept typeLogicalRouterPort db (db.modifyRow typeLogicalRouterPort p.uuid fun r =>
      r.write (routerPortColumns (rowText p "name") networks)) := by
  refine .map (Database.modifyRow_self) fun r hr => ?_
  split
  · next hu =>
    obtain rfl : r = p := List.inj_on_of_nodup_map (hc.conforms.unique _) hr hp hu
    refine rowText_of_get (get_write_self ?_ (by simp))
    rw [get_of_text (c := "name") (hc.conforms.typed _ r hr) (by decide)]
    rfl
  · rfl

/-- A port is added to the first row of the name. -/
theorem Tidy.addPort {T T' P u c : String} {db db' : Database} {row : Row}
    (h : Tidy start T T' name db) (hc : Consistent northbound db') (hL : named db T name = some L)
    (hP : T ≠ P) (hP' : T' ≠ P) (hTT' : T' ≠ T) (hcol : c ≠ "name")
    (hdb : db' = (db.modify P fun rows => rows ++ [row]).modifyRow T L.uuid (addRefs c [u])) :
    Tidy start T T' name db' := by
  have hfirst : uuidOf db T name = some L.uuid := by
    unfold uuidOf
    rw [hL]
    rfl
  have hT : db' T = (db T).map fun r => if r.uuid = L.uuid then addRefs c [u] r else r := by
    rw [hdb, Database.modifyRow_self, Database.modify_of_ne hP]
  refine h.change hc hT (fun r _ => ?_) (fun r _ => ?_) (fun r _ hne ref _ _ _ => ?_) ?_
  · split <;> rfl
  · split
    · exact rowText_modify_of_ne hcol.symm
    · rfl
  · rw [if_neg]
    rintro hu
    exact hne (hfirst.trans (congrArg some hu.symm))
  · rw [hdb]
    unfold Database.modifyRow
    rw [Database.modify_of_ne hTT', Database.modify_of_ne hP']

/-- A link of the switch of the name to a router, when the router has the port of the link. -/
theorem after_linkSwitch (h : Tidy start typeLogicalSwitch typeLogicalRouter name s.northbound)
    (hL : named s.northbound typeLogicalSwitch name = some L)
    (hp : (named s.northbound typeLogicalRouterPort
      ("lr_" ++ rowText R "name" ++ "_ls_" ++ name)).isSome = true)
    (hR : R ∈ s.northbound typeLogicalRouter) :
    After (answering ok w) (connectRouterToLs (OvnRow.ofRow R) (OvnRow.ofRow L) address) s
      fun _ t => Tidy start typeLogicalSwitch typeLogicalRouter name t.northbound ∧
        Kept typeLogicalRouterPort s.northbound t.northbound := by
  have hLname : rowText L "name" = name := (firstWith_some hL).2
  rw [← hLname] at hp
  unfold connectRouterToLs
  refine after_lrpCreateIfMissing (List.mem_map_of_mem hR) h.consistent (fun p hp => ?_)
    (fun u db hn _ _ _ => ?_) fun _ _ => ⟨h, fun _ hn => hn⟩
  · have hmem := (firstWith_some hp).1
    refine after_lrpUpdate h.consistent (fun db hcons hdb => ?_) fun _ _ => ⟨h, fun _ hn => hn⟩
    have hkept : Kept typeLogicalRouterPort s.northbound db := by
      rw [hdb]
      exact kept_lrpUpdate h.consistent hmem address
    have hother : ∀ T, T ≠ typeLogicalRouterPort → db T = s.northbound T := by
      intro T hT
      rw [hdb]
      exact Database.modify_of_ne hT
    have hswitches := hother typeLogicalSwitch (by decide)
    have h₁ := h.keep hcons hswitches (hother _ (by decide))
    have hL₁ : named db typeLogicalSwitch name = some L := (firstWith_congr hswitches).trans hL
    refine after_createLinkPort (s := s.setNorthbound db) ?_ hcons
      (fun _ _ => after_ret ⟨h₁, hkept⟩) (fun u db' _ _ hcons' hdb' => ?_) fun _ _ => ⟨h₁, hkept⟩
    · exact List.mem_map_of_mem (firstWith_some hL₁).1
    · have h₂ : Tidy start typeLogicalSwitch typeLogicalRouter name db' :=
        h₁.addPort hcons' hL₁ (by decide) (by decide) (by decide) (by decide) hdb'
      have hkept' : Kept typeLogicalRouterPort db db' := by
        refine .of_eq ?_
        rw [hdb']
        unfold Database.modifyRow
        rw [Database.modify_of_ne (by decide), Database.modify_of_ne (by decide)]
        rfl
      exact ⟨fun _ _ => ⟨h₂, hkept.trans hkept'⟩, after_ret ⟨h₂, hkept.trans hkept'⟩⟩
  · obtain ⟨p, hp⟩ := Option.isSome_iff_exists.mp hp
    cases (hn.symm.trans hp : (none : Option Row) = some p)

end Links

/-! ## Networks -/

/-- The routers that a network names have the ports for its switch already, up to the first
that does not exist. -/
def linksReady (db : Database) (ns switch : String) : List RouterAttachment → Bool
  | [] => true
  | attachment :: attachments =>
    match attachedRouter ns attachment.name with
    | .ok (routerNs, routerName) =>
      let router := routerNs ++ "-" ++ routerName
      !(named db typeLogicalRouter router).isSome ||
        ((named db typeLogicalRouterPort ("lr_" ++ router ++ "_ls_" ++ switch)).isSome &&
          linksReady db ns switch attachments)
    | .error _ => true

theorem linksReady_mono {db db' : Database} {ns switch : String} {attachments : List RouterAttachment}
    (hrouters : db' typeLogicalRouter = db typeLogicalRouter) (hports : Kept typeLogicalRouterPort db db')
    (h : linksReady db ns switch attachments = true) : linksReady db' ns switch attachments = true := by
  induction attachments with
  | nil => rfl
  | cons attachment attachments ih =>
    unfold linksReady at h ⊢
    split
    · next router hrouter =>
      rw [hrouter] at h
      simp only [Bool.or_eq_true, Bool.not_eq_true', Bool.and_eq_true] at h ⊢
      rw [show named db' typeLogicalRouter _ = _ from firstWith_congr hrouters]
      exact h.imp id fun hp => ⟨hports _ hp.1, ih hp.2⟩
    · rfl

section Networks

variable {ok : (r : Request) → r.Answer → Prop} {w : Worker} {s : World} {start : Database}
  {network : Network} {attachment : RouterAttachment} {attachments : List RouterAttachment}

/-- The invariant of a network's reconcile. -/
abbrev TidySwitch (start : Database) (k : Key) (db : Database) : Prop :=
  Tidy start typeLogicalSwitch typeLogicalRouter (namePrefixedWithNamespace k) db

theorem after_ensureRouterAttachment (h : TidySwitch start network.key s.northbound)
    (hready : linksReady s.northbound network.metadata.ns (namePrefixedWithNamespace network.key)
      (attachment :: attachments) = true) :
    After (answering ok w) (ensureRouterAttachment network attachment) s fun o t =>
      TidySwitch start network.key t.northbound ∧ (o = .ok () → linksReady t.northbound
        network.metadata.ns (namePrefixedWithNamespace network.key) attachments = true) := by
  unfold ensureRouterAttachment
  unfold linksReady at hready
  cases hrouter : attachedRouter network.metadata.ns attachment.name with
  | error m => exact after_abort ⟨h, nofun⟩
  | ok router =>
    rw [hrouter] at hready
    show After _ (getByName LogicalRouter _ >>= _) s _
    have hread : Reads ok w s (getByName LogicalRouter _) _ :=
      reads_getByName LogicalRouter h.consistent (router.1 ++ "-" ++ router.2)
    unfold foundByName at hread
    have habort : ∀ (P : Prop) (o : Outcome Error Unit), Unanswered ok o →
        TidySwitch start network.key s.northbound ∧ (o = .ok () → P) := by
      rintro P o ⟨-, m, rfl⟩
      exact ⟨h, nofun⟩
    refine hread.after (fun lr hlr => ?_) (fun e _ => ⟨h, nofun⟩) (habort _)
    split at hlr
    · next R hR =>
      cases hlr
      obtain ⟨hRmem, hRname⟩ := firstWith_some hR
      simp only [Bool.or_eq_true, Bool.not_eq_true', Bool.and_eq_true] at hready
      obtain ⟨hp, hrest⟩ := hready.resolve_left (by
        rw [show named s.northbound typeLogicalRouter _ = some R from hR]
        exact nofun)
      have hreadL : Reads ok w s (getByName LogicalSwitch _) _ :=
        reads_getByName LogicalSwitch h.consistent (namePrefixedWithNamespace network.key)
      unfold foundByName at hreadL
      refine hreadL.after (fun ls hls => ?_) (fun e _ => ⟨h, nofun⟩) (habort _)
      split at hls
      · next L hL =>
        cases hls
        rw [← hRname] at hp
        refine (after_linkSwitch h hL hp hRmem).mono fun o t ht => ⟨ht.1, fun _ => ?_⟩
        exact linksReady_mono (ht.1.other.trans h.other.symm) ht.2 hrest
      · cases hls
    · cases hlr

theorem after_ensureRouterAttachments (h : TidySwitch start network.key s.northbound)
    (hready : linksReady s.northbound network.metadata.ns (namePrefixedWithNamespace network.key)
      attachments = true) :
    After (answering ok w) (Program.forEach attachments (ensureRouterAttachment network)) s
      fun _ t => TidySwitch start network.key t.northbound := by
  induction attachments generalizing s with
  | nil => exact after_ret h
  | cons attachment attachments ih =>
    refine (after_ensureRouterAttachment h hready).bind (fun _ t ht => ?_) (fun _ _ ht => ht.1)
      fun _ _ ht => ht.1
    exact ih ht.1 (ht.2 rfl)

/-- DHCP options are no concern of the tables of switches and routers, but for the subnet of
the switch. -/
theorem after_ensureDhcp [Crates] {dhcp : DhcpOptionsCrd} (h : TidySwitch start network.key s.northbound) :
    After (answering ok w) (ensureDhcp (namePrefixedWithNamespace network.key) dhcp) s fun o t =>
      TidySwitch start network.key t.northbound ∧ Kept typeLogicalRouterPort s.northbound t.northbound ∧
        (o = .ok () → ∃ serverId hosts, Crates.netHosts dhcp.cidr = some (serverId :: hosts)) := by
  have hend : ∀ {t : World} {o : Outcome Error Unit},
      TidySwitch start network.key t.northbound → Kept typeLogicalRouterPort s.northbound t.northbound →
      o ≠ .ok () → TidySwitch start network.key t.northbound ∧
        Kept typeLogicalRouterPort s.northbound t.northbound ∧
        (o = .ok () → ∃ serverId hosts, Crates.netHosts dhcp.cidr = some (serverId :: hosts)) :=
    fun ht hk ho => ⟨ht, hk, fun h => absurd h ho⟩
  have hunanswered : ∀ {o : Outcome Error Unit}, Unanswered ok o → o ≠ .ok () := by
    rintro o ⟨-, m, rfl⟩
    exact nofun
  -- The options are found or made; then they are set, and the switch gets the subnet.
  have hset : ∀ (t : World) (d : Row), TidySwitch start network.key t.northbound →
      Kept typeLogicalRouterPort s.northbound t.northbound → rowText d "cidr" = dhcp.cidr →
      After (answering ok w) (do
          (OvnRow.ofRow d : DhcpOptions).setOptions dhcp
          let ls ← getByName LogicalSwitch (namePrefixedWithNamespace network.key)
          ls.setCidr dhcp.cidr) t fun o t => TidySwitch start network.key t.northbound ∧
        Kept typeLogicalRouterPort s.northbound t.northbound ∧
        (o = .ok () → ∃ serverId hosts, Crates.netHosts dhcp.cidr = some (serverId :: hosts)) := by
    intro t d ht hk hd
    refine after_setOptions ht.consistent (fun hosts serverId db hhosts hcons hdb => ?_)
      (fun _ => hend ht hk nofun) fun _ => hend ht hk nofun
    have hhosts : Crates.netHosts dhcp.cidr = some (serverId :: hosts) := hd ▸ hhosts
    have hother : ∀ T, T ≠ typeDhcpOptions → db T = t.northbound T := by
      intro T hT
      rw [hdb]
      exact Database.modify_of_ne hT
    have h₁ := ht.keep hcons (hother _ (by decide)) (hother _ (by decide))
    have hk₁ := hk.trans (.of_eq (hother typeLogicalRouterPort (by decide)))
    have hread : Reads ok w (t.setNorthbound db) (getByName LogicalSwitch _) _ :=
      reads_getByName LogicalSwitch hcons (namePrefixedWithNamespace network.key)
    refine hread.after (fun ls hls => ?_) (fun _ _ => hend h₁ hk₁ nofun)
      fun _ hu => hend h₁ hk₁ (hunanswered hu)
    rw [← Program.bind_ret (LogicalSwitch.setCidr _ _)]
    refine after_setCidr hcons (fun db' hcons' hdb' => after_ret ?_)
      fun _ hu => hend h₁ hk₁ (hunanswered hu)
    have hT : db' typeLogicalSwitch = (db typeLogicalSwitch).map fun r => if r.uuid = ls.uuid then
        r.write [("other_config", .map [("subnet", dhcp.cidr)])] else r := by
      rw [hdb']
      exact Database.modifyRow_self
    have hother' : ∀ T, T ≠ typeLogicalSwitch → db' T = db T := by
      intro T hT
      rw [hdb']
      exact Database.modify_of_ne hT
    have hcolumn : ∀ ref ∈ northbound.references, ref.column ≠ "other_config" := by decide
    refine ⟨h₁.change hcons' hT (fun r _ => ?_) (fun r _ => ?_) (fun r _ _ ref href _ _ => ?_)
      (hother' _ (by decide)), hk₁.trans (.of_eq (hother' typeLogicalRouterPort (by decide))),
      fun _ => ⟨serverId, hosts, hhosts⟩⟩
    · split
      · exact Row.uuid_write
      · rfl
    · split
      · exact rowText_write_of_not_mem (by simp)
      · rfl
    · split
      · exact Row.refs_write_of_not_mem (by simpa using hcolumn ref href)
      · rfl
  unfold ensureDhcp
  refine after_orCreateDhcp h.consistent (fun d hd => ?_) (fun u db _ _ hcons hdb => ?_)
    fun _ hu => hend h (fun _ hn => hn) (hunanswered hu)
  · exact hset s d h (fun _ hn => hn) (firstWith_some hd).2
  · have hother : ∀ T, T ≠ typeDhcpOptions → db T = s.northbound T := by
      intro T hT
      rw [hdb]
      exact Database.modify_of_ne hT
    have h₁ := h.keep hcons (hother _ (by decide)) (hother _ (by decide))
    have hk₁ : Kept typeLogicalRouterPort s.northbound db := .of_eq (hother _ (by decide))
    refine ⟨fun _ hu => hend h₁ hk₁ (hunanswered hu), hset (s.setNorthbound db) _ h₁ hk₁ ?_⟩
    exact rowText_of_get (get_write_self rfl nofun)

/-- The reconcile of a network makes no port on a router: it does not come to its attachments,
or their router ports are all there. -/
def NetworkCareful [Crates] (v : Network) (s : World) : Prop :=
  v.spec.networkType.getD .ovn = .ovn → HasCentral s →
    (∀ dhcp, v.spec.dhcp = some dhcp → ∃ serverId hosts,
      Crates.netHosts dhcp.cidr = some (serverId :: hosts)) →
    linksReady s.northbound v.metadata.ns (namePrefixedWithNamespace v.key)
      (v.spec.routers.getD []) = true

/-- Nothing but the switch, its ports and DHCP options comes from a careful reconcile. -/
theorem after_updateNetwork [Crates] {v : Network} (h : TidySwitch start v.key s.northbound)
    (hcareful : NetworkCareful v s) :
    After (answering ok w) (updateNetwork v) s fun _ t => TidySwitch start v.key t.northbound := by
  unfold updateNetwork
  split
  · exact after_ret h
  · next htype =>
    have htype := Classical.not_not.mp htype
    refine after_ovnTry (fun hcen => ?_) fun _ _ => h
    refine after_aside_bind (aside_ensureFinalizer v "ovn") (fun v' t hv ht => ?_) fun _ t ht => ?_
    swap
    · rw [ht]
      exact h
    obtain ⟨hkey, hspec⟩ := hv
    have hns : v'.metadata.ns = v.metadata.ns := congrArg Key.ns hkey
    rw [← hkey] at h ⊢
    rw [← ht] at h
    -- The switch.
    have hattach : ∀ u : World, TidySwitch start v'.key u.northbound →
        Kept typeLogicalRouterPort t.northbound u.northbound →
        After (answering ok w) (do
            ifSome v'.spec.dhcp (ensureDhcp (namePrefixedWithNamespace v'.key))
            ifSome v'.spec.routers fun routers =>
              Program.forEach routers (ensureRouterAttachment v')
            setStatus v' (⟨true⟩ : NetworkStatus) .updateNetwork) u
          fun _ t => TidySwitch start v'.key t.northbound := by
      intro u hu hk
      have hdhcp : After (answering ok w)
          (ifSome v'.spec.dhcp (ensureDhcp (namePrefixedWithNamespace v'.key))) u fun o t' =>
            TidySwitch start v'.key t'.northbound ∧
              Kept typeLogicalRouterPort u.northbound t'.northbound ∧
              (o = .ok () → ∀ dhcp, v.spec.dhcp = some dhcp → ∃ serverId hosts,
                Crates.netHosts dhcp.cidr = some (serverId :: hosts)) := by
        rw [hspec]
        cases v.spec.dhcp with
        | none => exact after_ret ⟨hu, fun _ hn => hn, fun _ => nofun⟩
        | some dhcp =>
          refine (after_ensureDhcp hu).mono fun o t' ht' => ⟨ht'.1, ht'.2.1, fun ho dhcp' hd => ?_⟩
          cases hd
          exact ht'.2.2 ho
      refine hdhcp.bind (fun _ t' ht' => ?_) (fun _ _ ht' => ht'.1) fun _ _ ht' => ht'.1
      obtain ⟨ht', hk', hparsed⟩ := ht'
      have hready := hcareful htype hcen (hparsed rfl)
      rw [← ht, ← hkey, ← hns] at hready
      have hready' := linksReady_mono (ht'.other.trans h.other.symm) (hk.trans hk') hready
      have hrouters : After (answering ok w) (ifSome v'.spec.routers fun routers =>
          Program.forEach routers (ensureRouterAttachment v')) t' fun _ t' =>
            TidySwitch start v'.key t'.northbound := by
        rw [hspec]
        cases hr : v.spec.routers with
        | none => exact after_ret ht'
        | some routers =>
          rw [hr] at hready'
          exact after_ensureRouterAttachments ht' hready'
      refine hrouters.then (fun _ t'' ht'' => ?_) fun _ _ ht'' => ht''
      refine (after_aside (aside_setStatus _ _ _)).mono fun o t₃ ht₃ => ?_
      rw [ht₃.1]
      exact ht''
    refine after_createIfMissing LogicalSwitch rfl ⟨_, .head _, .inl rfl⟩ (by decide) h.consistent
      (fun L hL => ?_) (fun u db hn _ hcons hdb => ?_) fun _ _ => h
    · exact hattach t h fun _ hn => hn
    · have h₁ : TidySwitch start v'.key db := h.create hcons (by decide) hn
        (by rw [hdb]; exact Database.modify_self) (by rw [hdb]; exact Database.modify_of_ne (by decide))
      have hports : db typeLogicalRouterPort = t.northbound typeLogicalRouterPort := by
        rw [hdb]
        exact Database.modify_of_ne (by decide)
      exact ⟨fun _ _ => h₁, hattach (t.setNorthbound db) h₁ (.of_eq hports)⟩

/-- A removal keeps the invariant. When it returns `Ok`, nothing of the network is left. -/
theorem after_removeNetwork_tidy {v : Network} (h : TidySwitch start v.key s.northbound) :
    After (answering ok w) (removeNetwork v) s fun o t => TidySwitch start v.key t.northbound ∧
      (o = .ok () → v.spec.networkType.getD .ovn = .ovn →
        Left start typeLogicalSwitch t.northbound) := by
  unfold removeNetwork
  split
  · next htype => exact after_ret ⟨h, fun _ ht => absurd ht htype⟩
  · refine after_ovnTry (fun _ => ?_) fun _ _ => ⟨h, nofun⟩
    have habort : ∀ (P : Prop) (o : Outcome Error Unit), Unanswered ok o →
        TidySwitch start v.key s.northbound ∧ (o = .ok () → P) := by
      rintro P o ⟨-, m, rfl⟩
      exact ⟨h, nofun⟩
    have hfinal : ∀ t : World, TidySwitch start v.key t.northbound →
        Left start typeLogicalSwitch t.northbound →
        After (answering ok w) (do let _ ← removeFinalizer v "ovn") t fun o t =>
          TidySwitch start v.key t.northbound ∧ (o = .ok () → v.spec.networkType.getD .ovn = .ovn →
            Left start typeLogicalSwitch t.northbound) := by
      intro t ht hl
      refine after_aside_bind (aside_removeFinalizer v "ovn") (fun _ t' _ ht' => after_ret ?_)
        fun _ t' ht' => ?_
      · rw [ht']
        exact ⟨ht, fun _ _ => hl⟩
      · rw [ht']
        exact ⟨ht, fun _ _ => hl⟩
    unfold deleteSwitch
    rw [Program.bind_assoc']
    refine (reads_getByName LogicalSwitch h.consistent _).attempt.after (fun x hx => ?_) nofun (habort _)
    cases hx
    unfold foundByName
    cases hn : named s.northbound (OvnCommon.ovnType LogicalSwitch) _ with
    | some f =>
      refine after_ovnDelete LogicalSwitch (.inl rfl) h.consistent (fun db hcons hdb => ?_) (habort _)
      have hT : db typeLogicalSwitch = (s.northbound typeLogicalSwitch).filter
          fun r => r.uuid ≠ f.uuid := by
        rw [hdb, Ovsdb.sweep_root rfl]
        exact Database.modify_self
      have hother : db typeLogicalRouter = start typeLogicalRouter := by
        rw [hdb, Ovsdb.sweep_root rfl, ← h.other]
        exact Database.modify_of_ne (by decide)
      have hl := h.delete hn hT
      exact hfinal (s.setNorthbound db) (.of_left hcons hl hother) hl
    | none => exact hfinal s h (h.left_of_none hn)

end Networks

/-! ## Routers -/

section Routers

variable {ok : (r : Request) → r.Answer → Prop} {w : Worker} {s : World} {start : Database}

/-- The invariant of a router's reconcile. -/
abbrev TidyRouter (start : Database) (k : Key) (db : Database) : Prop :=
  Tidy start typeLogicalRouter typeLogicalSwitch (namePrefixedWithNamespace k) db

/-- The switch of the metadata service and its two ports are there already. -/
def mdsReady (db : Database) (router : String) : Bool :=
  (named db typeLogicalSwitch ("mds-" ++ router)).isSome &&
    (named db typeLogicalSwitchPort ("ls_" ++ ("mds-" ++ router) ++ "_lr_" ++ router)).isSome &&
    (named db typeLogicalSwitchPort ("mds-" ++ router)).isSome

/-- The reconcile of a router makes no switch and no switch port: the metadata service is not
enabled, or its switch and ports are there. -/
def RouterCareful (v : Router) (s : World) : Prop :=
  v.spec.metadataService = some true → HasCentral s →
    mdsReady s.northbound (namePrefixedWithNamespace v.key) = true

/-- A link of the router of the name to a switch, when the switch has the port of the link. -/
theorem after_linkRouter {name address : String} {R L : Row}
    (h : Tidy start typeLogicalRouter typeLogicalSwitch name s.northbound)
    (hR : named s.northbound typeLogicalRouter name = some R)
    (hL : L ∈ s.northbound typeLogicalSwitch)
    (hp : (named s.northbound typeLogicalSwitchPort
      ("ls_" ++ rowText L "name" ++ "_lr_" ++ rowText R "name")).isSome = true) :
    After (answering ok w) (connectRouterToLs (OvnRow.ofRow R) (OvnRow.ofRow L) address) s
      fun _ t => Tidy start typeLogicalRouter typeLogicalSwitch name t.northbound ∧
        Kept typeLogicalSwitchPort s.northbound t.northbound := by
  -- After the port of the router is there, nothing else is made.
  have hrest : ∀ (t : World) (p : LogicalRouterPort),
      Tidy start typeLogicalRouter typeLogicalSwitch name t.northbound →
      Kept typeLogicalSwitchPort s.northbound t.northbound →
      After (answering ok w) (do
          p.update address
          let _ ← LogicalSwitchPort.createIfMissing (OvnRow.ofRow L)
            ("ls_" ++ rowText L "name" ++ "_lr_" ++ rowText R "name")
            [("type", .strings ["router"]), ("addresses", .strings ["router"]),
              ("options", .map [("router-port", "lr_" ++ rowText R "name" ++ "_ls_" ++ rowText L "name")])])
        t fun _ t => Tidy start typeLogicalRouter typeLogicalSwitch name t.northbound ∧
          Kept typeLogicalSwitchPort s.northbound t.northbound := by
    intro t p ht hk
    refine after_lrpUpdate ht.consistent (fun db hcons hdb => ?_) fun _ _ => ⟨ht, hk⟩
    have hother : ∀ T, T ≠ typeLogicalRouterPort → db T = t.northbound T := by
      intro T hT
      rw [hdb]
      exact Database.modify_of_ne hT
    have h₁ := ht.keep hcons (hother _ (by decide)) (hother _ (by decide))
    have hk₁ := hk.trans (.of_eq (hother typeLogicalSwitchPort (by decide)))
    refine after_createLinkPort (s := t.setNorthbound db) ?_ hcons (fun _ _ => after_ret ⟨h₁, hk₁⟩)
      (fun u db' hn _ _ _ => ?_) fun _ _ => ⟨h₁, hk₁⟩
    · rw [northbound_setNorthbound, h₁.other, ← h.other]
      exact List.mem_map_of_mem hL
    · have hsome := hk₁ _ hp
      rw [show named db typeLogicalSwitchPort _ = none from hn] at hsome
      cases hsome
  unfold connectRouterToLs
  refine after_lrpCreateIfMissing (List.mem_map_of_mem (firstWith_some hR).1) h.consistent
    (fun p _ => hrest s _ h fun _ hn => hn) (fun u db _ _ hcons hdb => ?_)
    fun _ _ => ⟨h, fun _ hn => hn⟩
  have h₁ : Tidy start typeLogicalRouter typeLogicalSwitch name db :=
    h.addPort hcons hR (by decide) (by decide) (by decide) (by decide) hdb
  have hports : db typeLogicalSwitchPort = s.northbound typeLogicalSwitchPort := by
    rw [hdb]
    unfold Database.modifyRow
    rw [Database.modify_of_ne (by decide), Database.modify_of_ne (by decide)]
  exact ⟨fun _ _ => ⟨h₁, .of_eq hports⟩, hrest (s.setNorthbound db) _ h₁ (.of_eq hports)⟩

theorem after_connectMetadataservice {name : String} {R : Row}
    (h : Tidy start typeLogicalRouter typeLogicalSwitch name s.northbound)
    (hR : named s.northbound typeLogicalRouter name = some R) (hready : mdsReady s.northbound name = true) :
    After (answering ok w) (connectMetadataservice (OvnRow.ofRow R)) s fun _ t =>
      Tidy start typeLogicalRouter typeLogicalSwitch name t.northbound := by
  have hRname : rowText R "name" = name := (firstWith_some hR).2
  unfold mdsReady at hready
  simp only [Bool.and_eq_true] at hready
  obtain ⟨⟨hswitch, hlink⟩, hport⟩ := hready
  rw [← hRname] at hswitch hlink hport
  have habsent : ∀ {db : Database} {T x : String}, (named db T x).isSome = true →
      named db T x = none → False := by
    intro db T x hs hn
    rw [hn] at hs
    cases hs
  unfold connectMetadataservice
  refine after_createIfMissing LogicalSwitch rfl ⟨_, .head _, .inl rfl⟩ (by decide) h.consistent
    (fun L hL => ?_) (fun u db hn _ _ _ => (habsent hswitch hn).elim) fun _ _ => h
  obtain ⟨hLmem, hLname⟩ := firstWith_some hL
  have hLname : rowText L "name" = "mds-" ++ rowText R "name" := hLname
  rw [← hLname] at hlink
  refine (after_linkRouter h hR hLmem hlink).bind (fun _ t ht => ?_) (fun _ _ ht => ht.1)
    fun _ _ ht => ht.1
  obtain ⟨ht, hk⟩ := ht
  refine after_createPlainPort ?_ ht.consistent (fun p hp => ?_)
    (fun u db hn _ _ _ => (habsent (hk _ hport) hn).elim) fun _ _ => ht
  · rw [ht.other, ← h.other]
    exact List.mem_map_of_mem hLmem
  · rw [← Program.bind_ret (LogicalSwitchPort.setAddress _ _ _)]
    refine after_setAddress ht.consistent (after_ret ht) (fun db hcons hdb => after_ret ?_)
      (fun _ => ht) fun _ _ => ht
    have hother : ∀ T, T ≠ typeLogicalSwitchPort → db T = t.northbound T := by
      intro T hT
      rw [hdb]
      exact Database.modify_of_ne hT
    exact ht.keep hcons (hother _ (by decide)) (hother _ (by decide))

/-- The static routes of the router of the name are set. -/
theorem Tidy.routes {name : String} {db db' : Database} {R : Row} {g : Row → Row}
    (h : Tidy start typeLogicalRouter typeLogicalSwitch name db) (hc : Consistent northbound db')
    (hR : named db typeLogicalRouter name = some R)
    (hg : ∀ r ∈ db typeLogicalRouter, r.uuid = R.uuid → (g r).uuid = r.uuid ∧
      ∀ c', c' ≠ "static_routes" → (g r).get c' = r.get c')
    (hT : db' typeLogicalRouter = (db typeLogicalRouter).map fun r => if r.uuid = R.uuid then g r else r)
    (hother : db' typeLogicalSwitch = db typeLogicalSwitch) :
    Tidy start typeLogicalRouter typeLogicalSwitch name db' ∧
      ∃ R', named db' typeLogicalRouter name = some R' ∧ R'.uuid = R.uuid := by
  have huuid : ∀ r ∈ db typeLogicalRouter, (if r.uuid = R.uuid then g r else r).uuid = r.uuid := by
    intro r hr
    split
    · next hu => exact (hg r hr hu).1
    · rfl
  have hname : ∀ r ∈ db typeLogicalRouter,
      rowText (if r.uuid = R.uuid then g r else r) "name" = rowText r "name" := by
    intro r hr
    split
    · next hu =>
      unfold rowText
      rw [(hg r hr hu).2 "name" (by decide)]
    · rfl
  have hfirst : uuidOf db typeLogicalRouter name = some R.uuid := by
    unfold uuidOf
    rw [hR]
    rfl
  refine ⟨h.change hc hT huuid hname (fun r _ hne ref _ _ _ => ?_) hother, ?_⟩
  · rw [if_neg]
    exact fun hu => hne (hfirst.trans (congrArg some hu.symm))
  · exact Option.map_eq_some_iff.mp ((uuidOf_map hT huuid hname).trans hfirst)

/-- Only the uuid and the name of the router matter. -/
theorem connectMetadataservice_congr {lr lr' : LogicalRouter} (hu : lr.uuid = lr'.uuid)
    (hn : lr.name = lr'.name) : connectMetadataservice lr = connectMetadataservice lr' := by
  unfold connectMetadataservice connectRouterToLs LogicalRouterPort.createIfMissing
    LogicalRouterPort.create
  rw [hu, hn]

theorem mdsReady_congr {db db' : Database} {name : String}
    (hswitches : db' typeLogicalSwitch = db typeLogicalSwitch)
    (hports : db' typeLogicalSwitchPort = db typeLogicalSwitchPort) :
    mdsReady db' name = mdsReady db name := by
  unfold mdsReady named
  rw [firstWith_congr hswitches, firstWith_congr hports, firstWith_congr hports]

/-- Nothing but the router, its ports and its routes comes from a careful reconcile. -/
theorem after_updateRouter {v : Router} (h : TidyRouter start v.key s.northbound)
    (hcareful : RouterCareful v s) :
    After (answering ok w) (updateRouter v) s fun _ t => TidyRouter start v.key t.northbound := by
  unfold updateRouter
  refine after_ovnTry (fun hcen => ?_) fun _ _ => h
  dsimp only
  refine after_aside_bind (aside_ensureFinalizer v "ovn") (fun v' t hv ht => ?_) fun _ t ht => ?_
  swap
  · rw [ht]
    exact h
  obtain ⟨hkey, hspec⟩ := hv
  rw [← ht] at h
  -- The router is there, or it is made; then the routes, and the metadata service.
  have hrest : ∀ (u : World) (R : Row), TidyRouter start v.key u.northbound →
      named u.northbound typeLogicalRouter (namePrefixedWithNamespace v.key) = some R →
      u.northbound typeLogicalSwitch = t.northbound typeLogicalSwitch →
      u.northbound typeLogicalSwitchPort = t.northbound typeLogicalSwitchPort →
      After (answering ok w) (do
          let current ← getByName LogicalRouter (namePrefixedWithNamespace v.key)
          current.setRoutes (v'.spec.routes.getD [])
          onlyIf (v'.spec.metadataService = some true) do
            deployMds v'.metadata.ns v'.metadata.name
            connectMetadataservice (OvnRow.ofRow R)
          setStatus v' (⟨true⟩ : RouterStatus) .updateRouter) u
        fun _ t => TidyRouter start v.key t.northbound := by
    intro u R hu hR hswitches hports
    have hread : Reads ok w u (getByName LogicalRouter _) _ :=
      reads_getByName LogicalRouter hu.consistent (namePrefixedWithNamespace v.key)
    unfold foundByName at hread
    rw [show named u.northbound (OvnCommon.ovnType LogicalRouter) _ = some R from hR] at hread
    refine hread.after (fun lr hlr => ?_) nofun fun _ _ => hu
    cases hlr
    refine after_setRoutes hu.consistent (fun db hcons hT hother => ?_) fun _ => hu
    obtain ⟨g, hg, hT⟩ := hT
    obtain ⟨h₁, R', hR', huuid⟩ := hu.routes hcons hR hg hT (hother _ (by decide) (by decide))
    have hmds : After (answering ok w) (onlyIf (v'.spec.metadataService = some true) do
          deployMds v'.metadata.ns v'.metadata.name
          connectMetadataservice (OvnRow.ofRow R)) (u.setNorthbound db)
        fun _ t => TidyRouter start v.key t.northbound := by
      unfold onlyIf
      split
      · next henabled =>
        refine after_aside_bind (aside_deployMds _ _) (fun _ u' _ hu' => ?_) fun _ u' hu' => ?_
        · rw [northbound_setNorthbound] at hu'
          rw [hspec] at henabled
          have hready := hcareful henabled hcen
          have hsame : connectMetadataservice (OvnRow.ofRow R) = connectMetadataservice (OvnRow.ofRow R') :=
            connectMetadataservice_congr huuid.symm
              ((firstWith_some hR).2.trans (firstWith_some hR').2.symm)
          rw [hsame]
          refine after_connectMetadataservice (by rw [hu']; exact h₁) (by rw [hu']; exact hR') ?_
          rw [hu', mdsReady_congr (hother _ (by decide) (by decide)) (hother _ (by decide) (by decide)),
            mdsReady_congr hswitches hports, ht]
          exact hready
        · rw [hu']
          exact h₁
      · exact after_ret h₁
    refine hmds.then (fun _ u' hu' => ?_) fun _ _ hu' => hu'
    refine (after_aside (aside_setStatus _ _ _)).mono fun o u'' hu'' => ?_
    rw [hu''.1]
    exact hu'
  refine after_createIfMissing LogicalRouter rfl ⟨_, .tail _ (.head _), .inl rfl⟩ (by decide)
    h.consistent (fun R hR => hrest t R h hR rfl rfl) (fun u db hn _ hcons hdb => ?_) fun _ _ => h
  have hT : db typeLogicalRouter = t.northbound typeLogicalRouter ++
      [namedRow typeLogicalRouter u (namePrefixedWithNamespace v.key)] := by
    rw [hdb]
    exact Database.modify_self
  have hother : ∀ T, T ≠ typeLogicalRouter → db T = t.northbound T := by
    intro T hT
    rw [hdb]
    exact Database.modify_of_ne hT
  have h₁ : TidyRouter start v.key db := h.create hcons (by decide) hn hT (hother _ (by decide))
  exact ⟨fun _ _ => h₁, hrest (t.setNorthbound db) _ h₁
    (firstWith_append hn (rowText_namedRow (by decide)) hT) (hother _ (by decide))
    (hother _ (by decide))⟩

/-- A removal keeps the invariant. When it returns `Ok`, nothing of the router is left. -/
theorem after_removeRouter_tidy {v : Router} (h : TidyRouter start v.key s.northbound) :
    After (answering ok w) (removeRouter v) s fun o t => TidyRouter start v.key t.northbound ∧
      (o = .ok () → Left start typeLogicalRouter t.northbound) := by
  unfold removeRouter
  refine after_ovnTry (fun _ => ?_) fun _ _ => ⟨h, nofun⟩
  have habort : ∀ (P : Prop) (o : Outcome Error Unit), Unanswered ok o →
      TidyRouter start v.key s.northbound ∧ (o = .ok () → P) := by
    rintro P o ⟨-, m, rfl⟩
    exact ⟨h, nofun⟩
  have hread : Reads ok w s (getByName LogicalRouter _) _ :=
    reads_getByName LogicalRouter h.consistent (namePrefixedWithNamespace v.key)
  unfold foundByName at hread
  refine hread.after (fun lr hlr => ?_) (fun _ _ => ⟨h, nofun⟩) (habort _)
  split at hlr
  · next f hf =>
    cases hlr
    refine after_ovnDelete LogicalRouter (.inr rfl) h.consistent (fun db hcons hdb => ?_) (habort _)
    have hT : db typeLogicalRouter = (s.northbound typeLogicalRouter).filter
        fun r => r.uuid ≠ f.uuid := by
      rw [hdb, Ovsdb.sweep_root rfl]
      exact Database.modify_self
    have hother : db typeLogicalSwitch = start typeLogicalSwitch := by
      rw [hdb, Ovsdb.sweep_root rfl, ← h.other]
      exact Database.modify_of_ne (by decide)
    have hl := h.delete hf hT
    have h₁ : TidyRouter start v.key db := .of_left hcons hl hother
    refine after_aside_bind (aside_removeFinalizer v "ovn") (fun _ t' _ ht' => after_ret ?_)
      fun _ t' ht' => ?_
    · rw [ht']
      exact ⟨h₁, fun _ => hl⟩
    · rw [ht']
      exact ⟨h₁, fun _ => hl⟩
  · cases hlr

end Routers

/-! ## Runs -/

/-- What an event outside leaves. -/
theorem Tidy.happen {start : Database} {T T' name : String} {s t : World} {e : WorldEvent}
    (h : Tidy start T T' name s.northbound) (hT : T ≠ typeLogicalSwitchPort)
    (hT' : T' ≠ typeLogicalSwitchPort) (he : s.happen e = some t) :
    Tidy start T T' name t.northbound := by
  have hc := consistent_happen he h.consistent
  rcases northbound_happen he with ht | ⟨port, address, ht⟩
  · rw [ht]
    exact h
  · refine h.keep hc ?_ ?_
    · rw [ht]
      exact Database.modify_of_ne hT
    · rw [ht]
      exact Database.modify_of_ne hT'

namespace Worker

variable [Crates]

/-- A reconcile of a network or a router that makes nothing which its removal leaves behind. A
network is of type `ovn` when it is removed. -/
def Careful (s : World) : (w : Worker) → Object w.kind → Prop
  | network _, v =>
    if v.isDeleted then v.spec.networkType.getD .ovn = .ovn else NetworkCareful v s
  | router _, v => v.isDeleted = false → RouterCareful v s
  | _, _ => False

/-- Careful reconciles of one object, and what happens besides. -/
def carefulTurns (w : Worker) : World → Deed → Prop
  | s, .turn w' => w' = w ∧ ∀ v, (s.kube w.kind).find? w.key = some v → w.Careful s v
  | _, .happen _ => True

/-- What the object has brought into the database. -/
def Tidies (start db : Database) : Worker → Prop
  | network k => TidySwitch start k db
  | router k => TidyRouter start k db
  | _ => False

variable {w : Worker} {start : Database} {s t : World} {o : Outcome Error Unit} {v : Object w.kind}

/-- A careful turn keeps the invariant. If it was a removal that returned `Ok`, the database has
nothing that it did not have at the start. -/
theorem Tidies.turn (h : w.Tidies start s.northbound) (hstart : Consistent northbound start)
    (hs : (s.kube w.kind).find? w.key = some v) (hcareful : w.Careful s v)
    (hturn : Turn Served w s o t) : w.Tidies start t.northbound ∧
      (o = .ok () → v.isDeleted = true → Restored start t.northbound) := by
  obtain ⟨v', hs', hends⟩ := hturn
  obtain rfl : v = v' := Option.some.inj (hs.symm.trans hs')
  have hk : v.key = w.key := Collection.key_of_find? hs
  have hends : (w.reconcile v).Ends (answering anyAnswer w) (s.started w v.version) o t :=
    hends.mono fun _ _ _ _ he => ⟨he, trivial⟩
  cases w with
  | network k =>
    simp only [reconcile] at hends
    have h₀ : TidySwitch start v.key (s.started (.network k) v.version).northbound := by
      rw [hk]
      exact h
    have hgoal : TidySwitch start v.key t.northbound ∧
        (o = .ok () → v.isDeleted = true → Restored start t.northbound) := by
      cases hd : v.isDeleted with
      | true =>
        simp only [Careful] at hcareful
        rw [if_pos hd] at hends hcareful
        obtain ⟨ht, hleft⟩ := after_removeNetwork_tidy h₀ o t hends
        exact ⟨ht, fun ho _ => restored_of_left .switches hstart ht.consistent (hleft ho hcareful) ht.other⟩
      | false =>
        simp only [Careful] at hcareful
        rw [if_neg (by simp [hd])] at hends hcareful
        exact ⟨after_updateNetwork h₀ hcareful o t hends, by simp⟩
    rw [hk] at hgoal
    exact hgoal
  | router k =>
    simp only [reconcile] at hends
    have h₀ : TidyRouter start v.key (s.started (.router k) v.version).northbound := by
      rw [hk]
      exact h
    have hgoal : TidyRouter start v.key t.northbound ∧
        (o = .ok () → v.isDeleted = true → Restored start t.northbound) := by
      cases hd : v.isDeleted with
      | true =>
        rw [if_pos hd] at hends
        obtain ⟨ht, hleft⟩ := after_removeRouter_tidy h₀ o t hends
        exact ⟨ht, fun ho _ => restored_of_left .routers hstart ht.consistent (hleft ho) ht.other⟩
      | false =>
        rw [if_neg (by simp [hd])] at hends
        exact ⟨after_updateRouter h₀ (hcareful hd) o t hends, by simp⟩
    rw [hk] at hgoal
    exact hgoal
  | _ => exact h.elim

omit [Crates] in
theorem Tidies.happen {e : WorldEvent} (h : w.Tidies start s.northbound) (he : s.happen e = some t) :
    w.Tidies start t.northbound := by
  cases w with
  | network k => exact Tidy.happen h (by decide) (by decide) he
  | router k => exact Tidy.happen h (by decide) (by decide) he
  | _ => exact h.elim

theorem Tidies.run (h : w.Tidies start s.northbound) (hstart : Consistent northbound start)
    (hrun : Serial Served w.carefulTurns s t) : w.Tidies start t.northbound := by
  induction hrun with
  | refl => exact h
  | tail _ hstep ih =>
    obtain ⟨d, ha, hd⟩ := hstep
    cases d with
    | happen e => exact ih.happen hd
    | turn w' =>
      obtain ⟨rfl, hcareful⟩ := ha
      obtain ⟨o, v, hv, hends⟩ := hd
      exact (ih.turn hstart hv (hcareful v hv) ⟨v, hv, hends⟩).1

/-- The controllers for networks and for routers. -/
inductive KeepsTopology : Worker → Prop
  | network (k : Key) : KeepsTopology (.network k)
  | router (k : Key) : KeepsTopology (.router k)

omit [Crates] in
theorem KeepsTopology.tidies (h : KeepsTopology w) (hstart : Consistent northbound start) :
    w.Tidies start start := by
  cases h <;> exact Tidy.refl hstart

/-- In every run in which a network or a router is created, edited, deleted and reconciled any
number of times, each time carefully, and then removed with `Ok`, the database has in the end no
switch, router, port or static route that it did not have at the start. -/
theorem teardown_restores (hw : KeepsTopology w) (hc : Consistent northbound s.northbound)
    (hrun : Serial Served w.carefulTurns s t) {u : World} (hv : (t.kube w.kind).find? w.key = some v)
    (hd : v.isDeleted = true) (hcareful : w.Careful t v) (hlast : Turn Served w t (.ok ()) u) :
    Restored s.northbound u.northbound :=
  (((hw.tidies hc).run hc hrun).turn hc hv hcareful hlast).2 rfl hd

end Worker

attribute [local instance] plainCrates

/-- A router is set up. -/
def routerDeeds : List Deed :=
  [.happen (.create .node ⟨"", "a"⟩ [(ovnCentralManagedLabel, "managed")]
      [( ovnCentralIpAnnotation, "10.0.0.1")] ()),
   .happen (.create .router ⟨"n", "r"⟩ [] [] ⟨none, none⟩), .turn (.router ⟨"n", "r"⟩)]

/-- A network with the given attachments is created, reconciled twice and deleted. -/
def networkDeeds (routers : List RouterAttachment) : List Deed :=
  [.happen (.create .network ⟨"n", "net"⟩ [] [] ⟨none, some routers, none, none, none⟩),
   .turn (.network ⟨"n", "net"⟩), .turn (.network ⟨"n", "net"⟩),
   .happen (.delete .network ⟨"n", "net"⟩ 0)]

/-- Reconciles of one object, and what happens besides. -/
def turnsOf (w : Worker) (_ : World) : Deed → Prop
  | .turn w' => w' = w
  | .happen _ => True

instance (w : Worker) (s : World) : (d : Deed) → Decidable (turnsOf w s d)
  | .turn w' => inferInstanceAs (Decidable (w' = w))
  | .happen _ => .isTrue trivial

/-- Reconciles of a network that has type `ovn` and names no router. -/
def detachedTurns (k : Key) (s : World) : Deed → Prop
  | .turn w => w = .network k ∧ ((s.kube .network).find? k).all
      (fun v => v.spec.networkType = none && v.spec.routers = some []) = true
  | .happen _ => True

instance (k : Key) (s : World) : (d : Deed) → Decidable (detachedTurns k s d)
  | .turn _ => inferInstanceAs (Decidable (_ ∧ _))
  | .happen _ => .isTrue trivial

theorem careful_of_detached {k : Key} {s : World} {v : Network} (ht : v.spec.networkType = none)
    (hr : v.spec.routers = some []) : Worker.Careful s (.network k) v := by
  simp only [Worker.Careful]
  split
  · rw [ht]
    rfl
  · unfold NetworkCareful
    rw [hr]
    exact fun _ _ _ => rfl

/-- The last reconcile of the network returns `Ok`, and what it leaves meets the condition. -/
def removedWith (s t : World) (p : World → World → Bool) : Bool :=
  ((t.kube .network).find? ⟨"n", "net"⟩).any fun v => v.isDeleted &&
    ((Worker.reconcile (.network ⟨"n", "net"⟩) v).runWith (World.serveWell (.network ⟨"n", "net"⟩))
      (t.started (.network ⟨"n", "net"⟩) v.version)).any fun q =>
        match q.1 with
        | .ok _ => p s q.2
        | _ => false

theorem removedWith_iff {s t : World} {p : World → World → Bool} (h : removedWith s t p = true) :
    ∃ v u, (t.kube .network).find? ⟨"n", "net"⟩ = some v ∧ v.isDeleted = true ∧
      Turn Served (.network ⟨"n", "net"⟩) t (.ok ()) u ∧ p s u = true := by
  unfold removedWith at h
  simp only [Option.any_eq_true, Bool.and_eq_true] at h
  obtain ⟨v, hv, hd, ⟨o, u⟩, hrun, hp⟩ := h
  cases o with
  | ok _ =>
    obtain ⟨v', hv', hends⟩ := turn_of_runWith (w := .network ⟨"n", "net"⟩) hv hrun
    exact ⟨v, u, hv, hd, ⟨v', hv', hends.mono fun _ _ _ _ he => he.1⟩, hp⟩
  | err e => cases hp
  | aborted m => cases hp

/-- The removed network leaves a port on the router. -/
theorem router_port_stays : ∃ (s t u : World) (v : Network),
    Serial Served anyDeed World.initial s ∧ (s.kube .network).find? ⟨"n", "net"⟩ = none ∧
    Serial Served (turnsOf (.network ⟨"n", "net"⟩)) s t ∧
    (t.kube .network).find? ⟨"n", "net"⟩ = some v ∧ v.isDeleted = true ∧
    Turn Served (.network ⟨"n", "net"⟩) t (.ok ()) u ∧
    ∃ r ∈ u.northbound typeLogicalRouterPort,
      r.uuid ∉ (s.northbound typeLogicalRouterPort).map Row.uuid := by
  have h : ((performAll anyRequest anyDeed World.initial routerDeeds).any fun s =>
      ((s.kube .network).find? ⟨"n", "net"⟩).isNone &&
      (performAll anyRequest (turnsOf (.network ⟨"n", "net"⟩)) s
        (networkDeeds [⟨"r", "10.0.0.1/24"⟩])).any fun t => removedWith s t fun s u =>
          (u.northbound typeLogicalRouterPort).any fun r =>
            r.uuid ∉ (s.northbound typeLogicalRouterPort).map Row.uuid) = true := by
    decide +kernel
  simp only [Option.any_eq_true, Bool.and_eq_true, Option.isNone_iff_eq_none] at h
  obtain ⟨s, hs, hnone, t, ht, hrem⟩ := h
  obtain ⟨v, u, hv, hd, hlast, hp⟩ := removedWith_iff hrem
  simp only [List.any_eq_true, decide_eq_true_eq] at hp
  exact ⟨s, t, u, v, (serial_of_perform hs).mono (fun _ _ _ _ _ h => h.1) (fun _ _ h => h), hnone,
    (serial_of_perform ht).mono (fun _ _ _ _ _ h => h.1) (fun _ _ h => h), hv, hd, hlast, hp⟩

/-- A network without attachments leaves nothing. -/
theorem teardown_restores_detached : ∃ u : World,
    (u.kube .network).find? ⟨"n", "net"⟩ = none ∧ Restored World.initial.northbound u.northbound := by
  have h : ((performAll anyRequest (detachedTurns ⟨"n", "net"⟩) World.initial
      (routerDeeds.take 1 ++ networkDeeds [])).any fun t =>
        ((t.kube .network).find? ⟨"n", "net"⟩).all
          (fun v => v.spec.networkType = none && v.spec.routers = some []) &&
        removedWith World.initial t fun _ u => ((u.kube .network).find? ⟨"n", "net"⟩).isNone) = true := by
    decide +kernel
  simp only [Option.any_eq_true, Bool.and_eq_true] at h
  obtain ⟨t, ht, hall, hrem⟩ := h
  obtain ⟨v, u, hv, hd, hlast, hgone⟩ := removedWith_iff hrem
  have hrun : Serial Served (Worker.network ⟨"n", "net"⟩).carefulTurns World.initial t := by
    refine (serial_of_perform ht).mono (fun _ _ _ _ _ h => h.1) fun s d hd => ?_
    cases d with
    | happen e => trivial
    | turn w =>
      obtain ⟨rfl, hall⟩ := hd
      refine ⟨rfl, fun v' hv' => ?_⟩
      have hv' : (s.kube .network).find? ⟨"n", "net"⟩ = some v' := hv'
      rw [hv'] at hall
      simp only [Option.all_some, Bool.and_eq_true, decide_eq_true_eq] at hall
      exact careful_of_detached hall.1 hall.2
  rw [hv] at hall
  simp only [Option.all_some, Bool.and_eq_true, decide_eq_true_eq] at hall
  exact ⟨u, Option.isNone_iff_eq_none.mp hgone, Worker.teardown_restores (.network _)
    Ovsdb.consistent_empty hrun hv hd (careful_of_detached hall.1 hall.2) hlast⟩

end ClusterController
