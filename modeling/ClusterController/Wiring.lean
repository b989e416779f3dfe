import Mathlib
import ClusterController.Teardown

/-!
# How a switch is wired to routers

The attachments of a network, as its reconciles leave them: the routers that the switch is
attached to, the addresses of these attachments, and the subnet of the switch. `Wiring` is
the abstract state; `wiring` reads it off a database, and a reconcile acts on it like
`Wiring.update`.
-/

namespace ClusterController

open ApiServer (Key Resource Collection)
open Interaction (Program)
open Interaction.Program (Outcome After Ends after_ret after_fail after_abort)
open Ovsdb (Row Database Columns Consistent Datum addRefs)

/-! ## The abstract state -/

/-- What a switch has: the addresses of the router ports that lead to it, by router, the
routers for which it has a port itself, and its subnet. -/
structure Wiring where
  made : Bool
  address : String → Option String
  joined : String → Bool
  subnet : Option String

namespace Wiring

/-- The router has a port with the address. -/
def port (w : Wiring) (router address : String) : Wiring :=
  { w with address := Function.update w.address router (some address) }

/-- The switch has a port for the router. -/
def join (w : Wiring) (router : String) : Wiring :=
  { w with joined := Function.update w.joined router true }

/-- Both. -/
def link (w : Wiring) (router address : String) : Wiring := (w.port router address).join router

/-- Links one after another. -/
def links (w : Wiring) (l : List (String × String)) : Wiring :=
  l.foldl (fun w e => w.link e.1 e.2) w

/-- The subnet is set. -/
def setSubnet (w : Wiring) : Option String → Wiring
  | some cidr => { w with subnet := some cidr }
  | none => w

/-- The last address that the list has for the router. -/
def lastAddress (l : List (String × String)) (router : String) : Option String :=
  l.reverse.lookup router

/-- Nothing has changed but for the routers of the list, and for the subnet if it may. -/
structure Within (routers : List String) (subnetToo : Bool) (w w' : Wiring) : Prop where
  made : w.made = true → w'.made = true
  address : ∀ router, router ∉ routers → w'.address router = w.address router
  joined : ∀ router, router ∉ routers → w'.joined router = w.joined router
  subnet : subnetToo = false → w'.subnet = w.subnet

variable {w w' w'' : Wiring} {routers : List String} {b : Bool} {router address : String}
  {l : List (String × String)}

theorem Within.refl : Within routers b w w := ⟨id, fun _ _ => rfl, fun _ _ => rfl, fun _ => rfl⟩

theorem Within.trans (h : Within routers b w w') (h' : Within routers b w' w'') :
    Within routers b w w'' where
  made := h'.made ∘ h.made
  address r hr := (h'.address r hr).trans (h.address r hr)
  joined r hr := (h'.joined r hr).trans (h.joined r hr)
  subnet hb := (h'.subnet hb).trans (h.subnet hb)

theorem Within.mono {routers' : List String} {b' : Bool} (h : Within routers b w w')
    (hr : ∀ r ∈ routers, r ∈ routers') (hb : b' = false → b = false) : Within routers' b' w w' where
  made := h.made
  address r hn := h.address r fun hm => hn (hr r hm)
  joined r hn := h.joined r fun hm => hn (hr r hm)
  subnet hb' := h.subnet (hb hb')

theorem within_port : Within [router] false w (w.port router address) where
  made := id
  address _ hr := Function.update_of_ne (fun h => hr (List.mem_singleton.mpr h)) _ _
  joined _ _ := rfl
  subnet _ := rfl

theorem within_join : Within [router] false w (w.join router) where
  made := id
  address _ _ := rfl
  joined _ hr := Function.update_of_ne (fun h => hr (List.mem_singleton.mpr h)) _ _
  subnet _ := rfl

/-- An address is set again. -/
theorem link_port : (w.port router address).link router address = w.link router address := by
  unfold link port
  dsimp only
  rw [Function.update_idem]

/-- A port that is there need not be made. -/
theorem join_of_joined (h : w.joined router = true) : w.join router = w := by
  unfold join
  rw [← h, Function.update_eq_self]

theorem lastAddress_cons (e : String × String) :
    lastAddress (e :: l) router = (lastAddress l router).or (if router = e.1 then some e.2 else none) := by
  unfold lastAddress
  rw [List.reverse_cons, List.lookup_append, List.lookup_cons, List.lookup_nil]
  split
  · next h => rw [if_pos (beq_iff_eq.mp h)]
  · next h => rw [if_neg (by simpa using h)]

theorem lastAddress_isSome : (lastAddress l router).isSome = true ↔ router ∈ l.map Prod.fst := by
  induction l with
  | nil => simp [lastAddress]
  | cons e l ih =>
    rw [lastAddress_cons, Option.isSome_or, Bool.or_eq_true, ih, List.map_cons, List.mem_cons, or_comm]
    refine or_congr ?_ Iff.rfl
    split
    · next h => exact iff_of_true rfl h
    · next h => exact iff_of_false nofun h

theorem mem_of_lastAddress (h : lastAddress l router = some address) : (router, address) ∈ l := by
  induction l with
  | nil => simp [lastAddress] at h
  | cons e l ih =>
    rw [lastAddress_cons] at h
    rcases Option.or_eq_some_iff.mp h with h | ⟨-, h⟩
    · exact List.mem_cons_of_mem _ (ih h)
    · split at h
      · next hr =>
        cases h
        rw [hr]
        exact List.mem_cons_self
      · cases h

/-- The last link of a router counts. -/
theorem address_links : (w.links l).address router = (lastAddress l router).or (w.address router) := by
  induction l generalizing w with
  | nil => rfl
  | cons e l ih =>
    show ((w.link e.1 e.2).links l).address router = _
    rw [ih, lastAddress_cons, Option.or_assoc]
    congr 1
    show Function.update w.address e.1 (some e.2) router = _
    by_cases h : router = e.1
    · rw [h, Function.update_self, if_pos rfl, Option.some_or]
    · rw [Function.update_of_ne h, if_neg h, Option.none_or]

theorem joined_links : (w.links l).joined router = (decide (router ∈ l.map Prod.fst) || w.joined router) := by
  induction l generalizing w with
  | nil => simp [links]
  | cons e l ih =>
    show ((w.link e.1 e.2).links l).joined router = _
    rw [ih]
    show (_ || Function.update w.joined e.1 true router) = _
    rw [List.map_cons, Function.update_apply]
    by_cases h : router = e.1
    · simp only [h, if_true, Bool.or_true, List.mem_cons_self, decide_true, Bool.true_or]
    · simp only [h, if_false, List.mem_cons, false_or]

theorem made_links : (w.links l).made = w.made := by
  induction l generalizing w with
  | nil => rfl
  | cons e l ih => exact ih

theorem subnet_links : (w.links l).subnet = w.subnet := by
  induction l generalizing w with
  | nil => rfl
  | cons e l ih => exact ih

end Wiring

/-! ## What a database says -/

/-- The name of the port of a router that leads to a switch. -/
def routerPortName (router switch : String) : String := "lr_" ++ router ++ "_ls_" ++ switch

/-- The name of the port of a switch that leads to a router. -/
def switchPortName (switch router : String) : String := "ls_" ++ switch ++ "_lr_" ++ router

/-- The address of a router port, if it has exactly one. -/
def networkOf (p : Row) : Option String :=
  match p.get "networks" with
  | some (.strings [address]) => some address
  | _ => none

/-- What the database has for the switch of a name. -/
def wiring (db : Database) (switch : String) : Wiring where
  made := (named db typeLogicalSwitch switch).isSome
  address router :=
    (named db typeLogicalRouterPort (routerPortName router switch)).bind networkOf
  joined router := (named db typeLogicalSwitchPort (switchPortName switch router)).isSome
  subnet := (named db typeLogicalSwitch switch).bind fun L => (rowMap L "other_config").get "subnet"

/-- The switch is attached to the router with the address: it has a port of type `router` that
names a port of the router, and that one has the address. -/
def Attached (db : Database) (switch router address : String) : Prop :=
  ∃ L ∈ db typeLogicalSwitch, rowText L "name" = switch ∧
    ∃ q ∈ db typeLogicalSwitchPort, q.uuid ∈ L.refs "ports" ∧ rowText q "type" = "router" ∧
    ∃ R ∈ db typeLogicalRouter, rowText R "name" = router ∧
    ∃ p ∈ db typeLogicalRouterPort, p.uuid ∈ R.refs "ports" ∧
      (rowMap q "options").get "router-port" = some (rowText p "name") ∧
      p.get "networks" = some (.strings [address])

/-- The ports of table `T` that have the names of links belong to rows of table `P` of the
names of their owners, and to no others. -/
structure Side (T P : String) (port owner : String → String) (ready : String → Row → Prop)
    (db : Database) : Prop where
  owned : ∀ p ∈ db T, ∀ x, rowText p "name" = port x →
    ready x p ∧ ∃ r ∈ db P, rowText r "name" = owner x ∧ p.uuid ∈ r.refs "ports"
  only : ∀ p ∈ db T, ∀ x, rowText p "name" = port x → ∀ r ∈ db P, p.uuid ∈ r.refs "ports" →
    rowText r "name" = owner x

/-- What holds of the switch of a name at every step of its network's reconciles. -/
structure Wired (switch : String) (db : Database) : Prop where
  consistent : Consistent northbound db
  sole : ∀ L ∈ db typeLogicalSwitch, rowText L "name" = switch → switchOf db switch = some L.uuid
  routers : Side typeLogicalRouterPort typeLogicalRouter (fun x => routerPortName x switch) id
    (fun _ p => (networkOf p).isSome) db
  switches : Side typeLogicalSwitchPort typeLogicalSwitch (switchPortName switch) (fun _ => switch)
    (fun x q => rowText q "type" = "router" ∧
      (rowMap q "options").get "router-port" = some (routerPortName x switch)) db
  links : ∀ L ∈ db typeLogicalSwitch, rowText L "name" = switch →
    ∀ q ∈ db typeLogicalSwitchPort, q.uuid ∈ L.refs "ports" →
      ∃ x, rowText q "name" = switchPortName switch x

theorem routerPortName_inj {x y switch : String} (h : routerPortName x switch = routerPortName y switch) :
    x = y := by
  unfold routerPortName at h
  simpa [String.ext_iff] using h

theorem switchPortName_inj {x y switch : String} (h : switchPortName switch x = switchPortName switch y) :
    x = y := by
  unfold switchPortName at h
  simpa [String.ext_iff] using h

section Lookups

variable {db db' : Database} {T name : String} {r : Row}

theorem named_congr (h : db' T = db T) : named db' T name = named db T name := firstWith_congr h

theorem named_appended (h : db' T = db T ++ [r]) :
    named db' T name = (named db T name).or (if rowText r "name" = name then some r else none) := by
  unfold named firstWith
  rw [h, List.find?_append]
  congr 1
  rw [List.find?_cons]
  by_cases hr : rowText r "name" = name
  · simp [hr]
  · simp [hr]

theorem named_map {g : Row → Row} (h : db' T = (db T).map g)
    (hg : ∀ r ∈ db T, rowText (g r) "name" = rowText r "name") :
    named db' T name = (named db T name).map g := by
  unfold named firstWith
  rw [h, List.find?_map]
  congr 1
  refine List.find?_congr fun r hr => ?_
  rw [Function.comp_apply, hg r hr]

theorem uuidOf_congr (h : db' T = db T) : uuidOf db' T name = uuidOf db T name :=
  congrArg (Option.map Row.uuid) (named_congr h)

end Lookups

/-! ## Changes of one side -/

section Sides

variable {db db' : Database} {T P : String} {port owner : String → String}
  {ready : String → Row → Prop} {r p₀ r₀ : Row} {x₀ v : String} {us : List String}

theorem of_mem_refs_addRefs {c : String} (h : v ∈ (addRefs c us r).refs c) : v ∈ r.refs c ∨ v ∈ us := by
  unfold Row.refs addRefs at *
  rw [Ovsdb.Row.get_modify, if_pos rfl] at h
  cases hg : r.get c with
  | none =>
    rw [hg] at h
    cases h
  | some d =>
    rw [hg] at h
    exact (List.mem_append.mp h).imp id fun hv => (List.mem_filter.mp hv).1

/-- Ports keep their names, and owners their names and ports. -/
theorem Side.change (h : Side T P port owner ready db)
    (hT : ∀ p' ∈ db' T, ∃ p ∈ db T, p.uuid = p'.uuid ∧ rowText p "name" = rowText p' "name" ∧
      ∀ x, ready x p → ready x p')
    (hP : ∀ r ∈ db P, ∃ r' ∈ db' P, rowText r' "name" = rowText r "name" ∧
      ∀ v ∈ r.refs "ports", v ∈ r'.refs "ports")
    (hP' : ∀ r' ∈ db' P, ∀ v ∈ r'.refs "ports", ∃ r ∈ db P, rowText r "name" = rowText r' "name" ∧
      v ∈ r.refs "ports") : Side T P port owner ready db' := by
  constructor
  · intro p' hp' x hx
    obtain ⟨p, hp, hu, hn, hready⟩ := hT p' hp'
    obtain ⟨hr, r, hrmem, hrn, hv⟩ := h.owned p hp x (hn.trans hx)
    obtain ⟨r', hr', hn', hports⟩ := hP r hrmem
    exact ⟨hready x hr, r', hr', hn'.trans hrn, hu ▸ hports _ hv⟩
  · intro p' hp' x hx r' hr' hv
    obtain ⟨p, hp, hu, hn, -⟩ := hT p' hp'
    obtain ⟨r, hr, hrn, hv⟩ := hP' r' hr' _ hv
    exact hrn ▸ h.only p hp x (hn.trans hx) r hr (hu ▸ hv)

/-- Neither table changes. -/
theorem Side.keep (h : Side T P port owner ready db) (hT : db' T = db T) (hP : db' P = db P) :
    Side T P port owner ready db' := by
  refine h.change (fun p hp => ⟨p, hT ▸ hp, rfl, rfl, fun _ hr => hr⟩) (fun r hr => ?_) fun r hr v hv => ?_
  · exact ⟨r, by rwa [hP], rfl, fun _ hv => hv⟩
  · exact ⟨r, hP ▸ hr, rfl, hv⟩

/-- A port is made for its owner. -/
theorem Side.add (h : Side T P port owner ready db) (hc : Consistent northbound db)
    (href : ⟨P, "ports", T, true⟩ ∈ northbound.references)
    (hcol : ("ports", .refs []) ∈ northboundColumns P) (hinj : ∀ x y, port x = port y → x = y)
    (hT : db' T = db T ++ [p₀])
    (hP : db' P = (db P).map fun r => if r.uuid = r₀.uuid then addRefs "ports" [p₀.uuid] r else r)
    (hr₀ : r₀ ∈ db P) (hfresh : p₀.uuid ∉ (db T).map Row.uuid) (hname : rowText p₀ "name" = port x₀)
    (hready : ready x₀ p₀) (howner : rowText r₀ "name" = owner x₀) : Side T P port owner ready db' := by
  have hsame : ∀ r ∈ db P, r.uuid = r₀.uuid → r = r₀ := fun r hr hu =>
    List.inj_on_of_nodup_map (hc.conforms.unique P) hr hr₀ hu
  have hkept : ∀ r : Row, rowText (addRefs "ports" [p₀.uuid] r) "name" = rowText r "name" := fun r =>
    rowText_modify_of_ne (by decide)
  constructor
  · intro p hp x hx
    rw [hT] at hp
    rcases List.mem_append.mp hp with hp | hp
    · obtain ⟨hr, r, hrmem, hrn, hv⟩ := h.owned p hp x hx
      refine ⟨hr, _, by rw [hP]; exact List.mem_map_of_mem hrmem, ?_⟩
      split
      · exact ⟨(hkept r).trans hrn, mem_refs_addRefs hv⟩
      · exact ⟨hrn, hv⟩
    · rw [List.mem_singleton.mp hp] at hx ⊢
      obtain rfl := hinj _ _ (hname.symm.trans hx)
      refine ⟨hready, _, by rw [hP]; exact List.mem_map_of_mem hr₀, ?_⟩
      rw [if_pos rfl]
      have hports := get_of_refs (hc.conforms.typed P r₀ hr₀) hcol
      exact ⟨(hkept r₀).trans howner, mem_refs_addRefs_self hports List.mem_cons_self⟩
  · intro p hp x hx r' hr' hv
    rw [hP] at hr'
    obtain ⟨r, hr, rfl⟩ := List.mem_map.mp hr'
    rw [hT] at hp
    rcases List.mem_append.mp hp with hp | hp
    · split at hv
      · next hu =>
        rw [if_pos hu, hkept]
        refine h.only p hp x hx r hr ((of_mem_refs_addRefs hv).resolve_right fun hm => ?_)
        exact hfresh (List.mem_singleton.mp hm ▸ List.mem_map_of_mem hp)
      · next hu =>
        rw [if_neg hu]
        exact h.only p hp x hx r hr hv
    · rw [List.mem_singleton.mp hp] at hx hv
      obtain rfl := hinj _ _ (hname.symm.trans hx)
      split at hv
      · next hu => rw [if_pos hu, hkept, hsame r hr hu, howner]
      · -- No row refers to what is not there yet.
        exact absurd (refersTo_of_consistent hc hr _ href rfl rfl _ hv) hfresh

end Sides

/-! ## Changes of the wiring -/

section Changes

variable {db db' : Database} {switch router address u : String} {R L p : Row}

/-- Other tables change, or columns of switch ports that wiring does not look at. -/
theorem Wired.keep {g : Row → Row} (h : Wired switch db) (hc : Consistent northbound db')
    (hother : ∀ T ∈ [typeLogicalSwitch, typeLogicalRouter, typeLogicalRouterPort], db' T = db T)
    (hports : db' typeLogicalSwitchPort = (db typeLogicalSwitchPort).map g)
    (hg : ∀ q ∈ db typeLogicalSwitchPort, (g q).uuid = q.uuid ∧
      ∀ c, c ≠ "dynamic_addresses" → (g q).get c = q.get c) :
    Wired switch db' ∧ wiring db' switch = wiring db switch := by
  have hL := hother typeLogicalSwitch (by decide)
  have hR := hother typeLogicalRouter (by decide)
  have hRP := hother typeLogicalRouterPort (by decide)
  have htext : ∀ q ∈ db typeLogicalSwitchPort, ∀ c, c ≠ "dynamic_addresses" →
      rowText (g q) c = rowText q c := by
    intro q hq c hcol
    unfold rowText
    rw [(hg q hq).2 c hcol]
  constructor
  · constructor
    · exact hc
    · intro L hmem hn
      rw [hL] at hmem
      exact (uuidOf_congr hL).trans (h.sole L hmem hn)
    · exact h.routers.keep hRP hR
    · refine h.switches.change (fun q' hq' => ?_) (fun r hr => ⟨r, by rwa [hL], rfl, fun _ hv => hv⟩)
        fun r hr v hv => ⟨r, by rwa [hL] at hr, rfl, hv⟩
      rw [hports] at hq'
      obtain ⟨q, hq, rfl⟩ := List.mem_map.mp hq'
      refine ⟨q, hq, (hg q hq).1.symm, (htext q hq "name" (by decide)).symm, fun x hx => ?_⟩
      unfold rowMap at hx ⊢
      rw [htext q hq "type" (by decide), (hg q hq).2 "options" (by decide)]
      exact hx
    · intro L hmem hn q' hq' hv
      rw [hL] at hmem
      rw [hports] at hq'
      obtain ⟨q, hq, rfl⟩ := List.mem_map.mp hq'
      rw [htext q hq "name" (by decide)]
      exact h.links L hmem hn q hq ((hg q hq).1 ▸ hv)
  · unfold wiring
    congr 1
    · rw [named_congr hL]
    · funext x
      rw [named_congr hRP]
    · funext x
      rw [named_map hports fun q hq => htext q hq "name" (by decide), Option.isSome_map]
    · rw [named_congr hL]

theorem networkOf_write {r : Row} {name : String} (hr : (r.get "networks").isSome = true) :
    networkOf (r.write (routerPortColumns name address)) = some address := by
  have hname : "networks" ≠ "name" := by decide
  have hmac : "networks" ≠ "mac" := by decide
  have hget : (r.write (routerPortColumns name address)).get "networks" = some (.strings [address]) := by
    unfold routerPortColumns
    rw [Ovsdb.Row.write_cons, Ovsdb.Row.write_cons]
    refine get_write_self ?_ nofun
    rwa [Ovsdb.Row.get_modify_of_ne hmac, Ovsdb.Row.get_modify_of_ne hname]
  unfold networkOf
  rw [hget]

/-- A router port is made. -/
theorem Wired.addRouterPort (h : Wired switch db) (hc : Consistent northbound db')
    (hR : R ∈ db typeLogicalRouter) (hRn : rowText R "name" = router)
    (hn : named db typeLogicalRouterPort (routerPortName router switch) = none) (hu : Fresh db u)
    (hdb : db' = (db.modify typeLogicalRouterPort fun rows => rows ++ [newRow typeLogicalRouterPort u
      (routerPortColumns (routerPortName router switch) address)]).modifyRow typeLogicalRouter R.uuid
        (addRefs "ports" [u])) :
    Wired switch db' ∧ wiring db' switch = (wiring db switch).port router address := by
  have hports : db' typeLogicalRouterPort = db typeLogicalRouterPort ++ [newRow typeLogicalRouterPort u
      (routerPortColumns (routerPortName router switch) address)] := by
    rw [hdb]
    unfold Database.modifyRow
    rw [Database.modify_of_ne (by decide), Database.modify_self]
  have hrouters : db' typeLogicalRouter = (db typeLogicalRouter).map fun r =>
      if r.uuid = R.uuid then addRefs "ports" [u] r else r := by
    rw [hdb, Database.modifyRow_self, Database.modify_of_ne (by decide)]
  have hother : ∀ T ∈ [typeLogicalSwitch, typeLogicalSwitchPort], db' T = db T := by
    intro T hT
    have h₁ : ∀ T ∈ [typeLogicalSwitch, typeLogicalSwitchPort],
        T ≠ typeLogicalRouter ∧ T ≠ typeLogicalRouterPort := by decide
    rw [hdb]
    unfold Database.modifyRow
    rw [Database.modify_of_ne (h₁ T hT).1, Database.modify_of_ne (h₁ T hT).2]
  have hL := hother typeLogicalSwitch (by decide)
  have hLP := hother typeLogicalSwitchPort (by decide)
  have hname : rowText (newRow typeLogicalRouterPort u
      (routerPortColumns (routerPortName router switch) address)) "name" = routerPortName router switch :=
    rowText_of_get (get_write_self rfl (by simp))
  have hnet : networkOf (newRow typeLogicalRouterPort u
      (routerPortColumns (routerPortName router switch) address)) = some address := networkOf_write rfl
  constructor
  · constructor
    · exact hc
    · intro L hmem hLn
      rw [hL] at hmem
      exact (uuidOf_congr hL).trans (h.sole L hmem hLn)
    · refine h.routers.add h.consistent (.tail _ (.head _)) (by decide) (fun _ _ => routerPortName_inj)
        hports (by rw [hrouters, uuid_newRow]) hR ?_ hname ?_ hRn
      · rw [uuid_newRow]
        exact hu _ ⟨_, .tail _ (.head _), .inr rfl⟩
      · rw [hnet]
        rfl
    · exact h.switches.keep hLP hL
    · intro L hmem hLn q hq hv
      rw [hL] at hmem
      rw [hLP] at hq
      exact h.links L hmem hLn q hq hv
  · unfold wiring Wiring.port
    congr 1
    · rw [named_congr hL]
    · funext x
      rw [named_appended hports, hname]
      by_cases hx : x = router
      · rw [hx, hn, if_pos rfl, Option.none_or, Option.bind_some, hnet, Function.update_self]
      · rw [if_neg fun he => hx (routerPortName_inj he.symm), Option.or_none, Function.update_of_ne hx]
    · funext x
      rw [named_congr hLP]
    · rw [named_congr hL]

/-- A router port gets another address. -/
theorem Wired.setRouterPort (h : Wired switch db) (hc : Consistent northbound db')
    (hp : named db typeLogicalRouterPort (routerPortName router switch) = some p)
    (hdb : db' = db.modifyRow typeLogicalRouterPort p.uuid fun r =>
      r.write (routerPortColumns (routerPortName router switch) address)) :
    Wired switch db' ∧ wiring db' switch = (wiring db switch).port router address := by
  obtain ⟨hmem, hpn⟩ := firstWith_some hp
  have hsame : ∀ r ∈ db typeLogicalRouterPort, r.uuid = p.uuid → r = p := fun r hr hu =>
    List.inj_on_of_nodup_map (h.consistent.conforms.unique _) hr hmem hu
  have hports : db' typeLogicalRouterPort = (db typeLogicalRouterPort).map fun r =>
      if r.uuid = p.uuid then r.write (routerPortColumns (routerPortName router switch) address)
      else r := by
    rw [hdb]
    exact Database.modifyRow_self
  have hother : ∀ T, T ≠ typeLogicalRouterPort → db' T = db T := by
    intro T hT
    rw [hdb]
    exact Database.modify_of_ne hT
  have hL := hother typeLogicalSwitch (by decide)
  have hR := hother typeLogicalRouter (by decide)
  have hLP := hother typeLogicalSwitchPort (by decide)
  have hcol : ∀ {c d}, (c, d) ∈ northboundColumns typeLogicalRouterPort → (p.get c).isSome = true := by
    intro c d hd
    obtain ⟨d', hd', -⟩ := h.consistent.conforms.typed _ p hmem _ hd
    rw [hd']
    rfl
  have hname : rowText (p.write (routerPortColumns (routerPortName router switch) address)) "name" =
      routerPortName router switch :=
    rowText_of_get (get_write_self (hcol (c := "name") (d := .strings [""]) (by decide)) (by simp))
  have hnet : networkOf (p.write (routerPortColumns (routerPortName router switch) address)) =
      some address := networkOf_write (hcol (d := .strings []) (by decide))
  have hkept : ∀ r ∈ db typeLogicalRouterPort, rowText (if r.uuid = p.uuid then
      r.write (routerPortColumns (routerPortName router switch) address) else r) "name" =
        rowText r "name" := by
    intro r hr
    split
    · next hu => rw [hsame r hr hu, hname, hpn]
    · rfl
  constructor
  · constructor
    · exact hc
    · intro L hLmem hLn
      rw [hL] at hLmem
      exact (uuidOf_congr hL).trans (h.sole L hLmem hLn)
    · refine h.routers.change (fun p' hp' => ?_) (fun r hr => ⟨r, by rwa [hR], rfl, fun _ hv => hv⟩)
        fun r hr v hv => ⟨r, by rwa [hR] at hr, rfl, hv⟩
      rw [hports] at hp'
      obtain ⟨r, hr, rfl⟩ := List.mem_map.mp hp'
      refine ⟨r, hr, ?_, (hkept r hr).symm, fun _ hready => ?_⟩
      · split
        · exact Ovsdb.Row.uuid_write.symm
        · rfl
      · split
        · next hu =>
          rw [hsame r hr hu, hnet]
          rfl
        · exact hready
    · exact h.switches.keep hLP hL
    · intro L hLmem hLn q hq hv
      rw [hL] at hLmem
      rw [hLP] at hq
      exact h.links L hLmem hLn q hq hv
  · unfold wiring Wiring.port
    congr 1
    · rw [named_congr hL]
    · funext x
      rw [named_map hports hkept]
      by_cases hx : x = router
      · rw [hx, hp, Option.map_some, if_pos rfl, Option.bind_some, hnet, Function.update_self]
      · rw [Function.update_of_ne hx]
        show _ = (named db typeLogicalRouterPort (routerPortName x switch)).bind networkOf
        cases hf : named db typeLogicalRouterPort (routerPortName x switch) with
        | none => rfl
        | some r =>
          obtain ⟨hr, hrn⟩ := firstWith_some hf
          rw [Option.map_some, if_neg]
          rintro hu
          rw [hsame r hr hu, hpn] at hrn
          exact hx (routerPortName_inj hrn.symm)
    · funext x
      rw [named_congr hLP]
    · rw [named_congr hL]

/-- A port of the switch is made. -/
theorem Wired.addSwitchPort (h : Wired switch db) (hc : Consistent northbound db')
    (hL : named db typeLogicalSwitch switch = some L)
    (hn : named db typeLogicalSwitchPort (switchPortName switch router) = none) (hu : Fresh db u)
    (hdb : db' = (db.modify typeLogicalSwitchPort fun rows => rows ++ [newRow typeLogicalSwitchPort u
      (linkPortColumns (switchPortName switch router) (routerPortName router switch))]).modifyRow
        typeLogicalSwitch L.uuid (addRefs "ports" [u])) :
    Wired switch db' ∧ wiring db' switch = (wiring db switch).join router := by
  obtain ⟨hLmem, hLn⟩ := firstWith_some hL
  have hports : db' typeLogicalSwitchPort = db typeLogicalSwitchPort ++ [newRow typeLogicalSwitchPort u
      (linkPortColumns (switchPortName switch router) (routerPortName router switch))] := by
    rw [hdb]
    unfold Database.modifyRow
    rw [Database.modify_of_ne (by decide), Database.modify_self]
  have hswitches : db' typeLogicalSwitch = (db typeLogicalSwitch).map fun r =>
      if r.uuid = L.uuid then addRefs "ports" [u] r else r := by
    rw [hdb, Database.modifyRow_self, Database.modify_of_ne (by decide)]
  have hother : ∀ T ∈ [typeLogicalRouter, typeLogicalRouterPort], db' T = db T := by
    intro T hT
    have h₁ : ∀ T ∈ [typeLogicalRouter, typeLogicalRouterPort],
        T ≠ typeLogicalSwitch ∧ T ≠ typeLogicalSwitchPort := by decide
    rw [hdb]
    unfold Database.modifyRow
    rw [Database.modify_of_ne (h₁ T hT).1, Database.modify_of_ne (h₁ T hT).2]
  have hR := hother typeLogicalRouter (by decide)
  have hRP := hother typeLogicalRouterPort (by decide)
  have hkept : ∀ r : Row, ∀ c, c ≠ "ports" →
      (if r.uuid = L.uuid then addRefs "ports" [u] r else r).get c = r.get c := by
    intro r c hcol
    split
    · exact Ovsdb.Row.get_modify_of_ne hcol
    · rfl
  have hkeptName : ∀ r : Row, rowText (if r.uuid = L.uuid then addRefs "ports" [u] r else r) "name" =
      rowText r "name" := by
    intro r
    unfold rowText
    rw [hkept r "name" (by decide)]
  have hname : rowText (newRow typeLogicalSwitchPort u
      (linkPortColumns (switchPortName switch router) (routerPortName router switch))) "name" =
        switchPortName switch router := by
    unfold newRow linkPortColumns
    rw [Ovsdb.Row.write_cons, Ovsdb.Row.write_cons, Ovsdb.Row.write_cons]
    exact rowText_of_get (get_write_self rfl nofun)
  have htype : rowText (newRow typeLogicalSwitchPort u
      (linkPortColumns (switchPortName switch router) (routerPortName router switch))) "type" =
        "router" :=
    rowText_of_get (get_write_self rfl (by simp))
  have hoptions : rowMap (newRow typeLogicalSwitchPort u
      (linkPortColumns (switchPortName switch router) (routerPortName router switch))) "options" =
        [("router-port", routerPortName router switch)] := by
    unfold rowMap newRow linkPortColumns
    rw [Ovsdb.Row.write_cons, Ovsdb.Row.write_cons, get_write_self rfl (by simp)]
    rfl
  constructor
  · constructor
    · exact hc
    · intro L' hmem hn'
      rw [hswitches] at hmem
      obtain ⟨r, hr, rfl⟩ := List.mem_map.mp hmem
      refine (uuidOf_map hswitches (fun r _ => ?_) fun r _ => hkeptName r).trans
        ((h.sole r hr ((hkeptName r).symm.trans hn')).trans ?_)
      · split <;> rfl
      · split <;> rfl
    · exact h.routers.keep hRP hR
    · refine h.switches.add h.consistent (.head _) (by decide) (fun _ _ => switchPortName_inj)
        hports (by rw [hswitches, uuid_newRow]) hLmem ?_ hname ⟨htype, ?_⟩ hLn
      · rw [uuid_newRow]
        exact hu _ ⟨_, .head _, .inr rfl⟩
      · rw [hoptions]
        rfl
    · intro L' hmem hn' q hq hv
      rw [hswitches] at hmem
      obtain ⟨r, hr, rfl⟩ := List.mem_map.mp hmem
      rw [hkeptName] at hn'
      rw [hports] at hq
      rcases List.mem_append.mp hq with hq | hq
      · refine h.links r hr hn' q hq ?_
        split at hv
        · refine (of_mem_refs_addRefs hv).resolve_right fun hm => ?_
          exact hu _ ⟨_, .head _, .inr rfl⟩ (List.mem_singleton.mp hm ▸ List.mem_map_of_mem hq)
        · exact hv
      · rw [List.mem_singleton.mp hq]
        exact ⟨router, hname⟩
  · unfold wiring Wiring.join
    congr 1
    · rw [named_map hswitches fun r _ => hkeptName r, Option.isSome_map]
    · funext x
      rw [named_congr hRP]
    · funext x
      rw [named_appended hports, hname]
      by_cases hx : x = router
      · rw [hx, hn, if_pos rfl, Function.update_self]
        rfl
      · rw [if_neg fun he => hx (switchPortName_inj he.symm), Option.or_none, Function.update_of_ne hx]
    · rw [named_map hswitches fun r _ => hkeptName r, Option.bind_map]
      congr 1
      funext r
      unfold rowMap
      rw [Function.comp_apply, hkept r "other_config" (by decide)]

/-- The switch is made. -/
theorem Wired.addSwitch (h : Wired switch db) (hc : Consistent northbound db')
    (hn : named db typeLogicalSwitch switch = none)
    (hdb : db' = db.modify typeLogicalSwitch fun rows => rows ++ [namedRow typeLogicalSwitch u switch]) :
    Wired switch db' ∧ wiring db' switch = { wiring db switch with made := true } := by
  have hswitches : db' typeLogicalSwitch = db typeLogicalSwitch ++ [namedRow typeLogicalSwitch u switch] := by
    rw [hdb]
    exact Database.modify_self
  have hother : ∀ T, T ≠ typeLogicalSwitch → db' T = db T := by
    intro T hT
    rw [hdb]
    exact Database.modify_of_ne hT
  have hR := hother typeLogicalRouter (by decide)
  have hRP := hother typeLogicalRouterPort (by decide)
  have hLP := hother typeLogicalSwitchPort (by decide)
  have hname : rowText (namedRow typeLogicalSwitch u switch) "name" = switch :=
    rowText_namedRow (by decide)
  have hnone := firstWith_none.mp hn
  have hempty : ∀ v, v ∉ (namedRow typeLogicalSwitch u switch).refs "ports" := by
    intro v
    have hports : (namedRow typeLogicalSwitch u switch).refs "ports" = [] := rfl
    rw [hports]
    exact nofun
  have hfirst : named db' typeLogicalSwitch switch = some (namedRow typeLogicalSwitch u switch) := by
    rw [named_appended hswitches, hn, if_pos hname, Option.none_or]
  constructor
  · constructor
    · exact hc
    · intro L hmem hLn
      rw [hswitches] at hmem
      rcases List.mem_append.mp hmem with hmem | hmem
      · exact absurd hLn (hnone L hmem)
      · rw [List.mem_singleton.mp hmem]
        unfold switchOf uuidOf
        rw [hfirst]
        rfl
    · exact h.routers.keep hRP hR
    · refine h.switches.change (fun q hq => ⟨q, by rwa [hLP] at hq, rfl, rfl, fun _ hr => hr⟩)
        (fun r hr => ⟨r, ?_, rfl, fun _ hv => hv⟩) fun r hr v hv => ?_
      · rw [hswitches]
        exact List.mem_append_left _ hr
      · rw [hswitches] at hr
        rcases List.mem_append.mp hr with hr | hr
        · exact ⟨r, hr, rfl, hv⟩
        · rw [List.mem_singleton.mp hr] at hv
          exact absurd hv (hempty v)
    · intro L hmem hLn q hq hv
      rw [hswitches] at hmem
      rw [hLP] at hq
      rcases List.mem_append.mp hmem with hmem | hmem
      · exact h.links L hmem hLn q hq hv
      · rw [List.mem_singleton.mp hmem] at hv
        exact absurd hv (hempty _)
  · unfold wiring
    congr 1
    · rw [hfirst]
      rfl
    · funext x
      rw [named_congr hRP]
    · funext x
      rw [named_congr hLP]
    · have hconfig : rowMap (namedRow typeLogicalSwitch u switch) "other_config" = [] := rfl
      rw [hfirst, hn, Option.bind_some, hconfig]
      rfl

/-- The switch gets a subnet. -/
theorem Wired.setSubnet {cidr : String} (h : Wired switch db) (hc : Consistent northbound db')
    (hL : named db typeLogicalSwitch switch = some L)
    (hdb : db' = db.modifyRow typeLogicalSwitch L.uuid fun r =>
      r.write [("other_config", .map [("subnet", cidr)])]) :
    Wired switch db' ∧ wiring db' switch = (wiring db switch).setSubnet (some cidr) := by
  have hswitches : db' typeLogicalSwitch = (db typeLogicalSwitch).map fun r => if r.uuid = L.uuid then
      r.write [("other_config", .map [("subnet", cidr)])] else r := by
    rw [hdb]
    exact Database.modifyRow_self
  have hother : ∀ T, T ≠ typeLogicalSwitch → db' T = db T := by
    intro T hT
    rw [hdb]
    exact Database.modify_of_ne hT
  have hR := hother typeLogicalRouter (by decide)
  have hRP := hother typeLogicalRouterPort (by decide)
  have hLP := hother typeLogicalSwitchPort (by decide)
  have hkept : ∀ r : Row, ∀ c, c ≠ "other_config" → (if r.uuid = L.uuid then
      r.write [("other_config", .map [("subnet", cidr)])] else r).get c = r.get c := by
    intro r c hcol
    split
    · exact Ovsdb.Row.get_write_of_not_mem (by simpa using hcol)
    · rfl
  have hkeptName : ∀ r : Row, rowText (if r.uuid = L.uuid then
      r.write [("other_config", .map [("subnet", cidr)])] else r) "name" = rowText r "name" := by
    intro r
    unfold rowText
    rw [hkept r "name" (by decide)]
  have hkeptPorts : ∀ r : Row, (if r.uuid = L.uuid then
      r.write [("other_config", .map [("subnet", cidr)])] else r).refs "ports" = r.refs "ports" := by
    intro r
    unfold Ovsdb.Row.refs
    rw [hkept r "ports" (by decide)]
  have huuid : ∀ r : Row, (if r.uuid = L.uuid then
      r.write [("other_config", .map [("subnet", cidr)])] else r).uuid = r.uuid := by
    intro r
    split
    · exact Ovsdb.Row.uuid_write
    · rfl
  constructor
  · constructor
    · exact hc
    · intro L' hmem hn'
      rw [hswitches] at hmem
      obtain ⟨r, hr, rfl⟩ := List.mem_map.mp hmem
      rw [huuid]
      exact (uuidOf_map hswitches (fun r _ => huuid r) fun r _ => hkeptName r).trans
        (h.sole r hr ((hkeptName r).symm.trans hn'))
    · exact h.routers.keep hRP hR
    · refine h.switches.change (fun q hq => ⟨q, by rwa [hLP] at hq, rfl, rfl, fun _ hr => hr⟩)
        (fun r hr => ?_) fun r' hr' v hv => ?_
      · refine ⟨_, by rw [hswitches]; exact List.mem_map_of_mem hr, hkeptName r, fun v hv => ?_⟩
        rwa [hkeptPorts]
      · rw [hswitches] at hr'
        obtain ⟨r, hr, rfl⟩ := List.mem_map.mp hr'
        rw [hkeptPorts] at hv
        exact ⟨r, hr, (hkeptName r).symm, hv⟩
    · intro L' hmem hn' q hq hv
      rw [hswitches] at hmem
      obtain ⟨r, hr, rfl⟩ := List.mem_map.mp hmem
      rw [hkeptName] at hn'
      rw [hkeptPorts] at hv
      rw [hLP] at hq
      exact h.links r hr hn' q hq hv
  · have hsubnet : (rowMap (L.write [("other_config", .map [("subnet", cidr)])]) "other_config") =
        [("subnet", cidr)] := by
      obtain ⟨m, hm⟩ := get_of_map (c := "other_config")
        (h.consistent.conforms.typed _ L (firstWith_some hL).1) (by decide)
      have hget : (L.write [("other_config", .map [("subnet", cidr)])]).get "other_config" =
          some (.map [("subnet", cidr)]) := get_write_self (by rw [hm]; rfl) nofun
      unfold rowMap
      rw [hget]
      rfl
    unfold wiring Wiring.setSubnet
    dsimp only
    congr 1
    · rw [named_map hswitches fun r _ => hkeptName r, Option.isSome_map]
    · funext x
      rw [named_congr hRP]
    · funext x
      rw [named_congr hLP]
    · rw [named_map hswitches fun r _ => hkeptName r, hL, Option.map_some, if_pos rfl, Option.bind_some,
        hsubnet]
      rfl

/-- From outside only the dynamic addresses of ports change. -/
theorem Wired.happen {s t : World} {e : WorldEvent} (h : Wired switch s.northbound)
    (he : s.happen e = some t) :
    Wired switch t.northbound ∧ wiring t.northbound switch = wiring s.northbound switch := by
  have hc := consistent_happen he h.consistent
  rcases northbound_happen he with ht | ⟨port, dynamic, ht⟩
  · rw [ht]
    exact ⟨h, rfl⟩
  · refine h.keep hc (fun T hT => ?_) ((congrFun ht _).trans Database.modifyRow_self) fun q _ => ?_
    · have hne : ∀ T ∈ [typeLogicalSwitch, typeLogicalRouter, typeLogicalRouterPort],
          T ≠ typeLogicalSwitchPort := by decide
      rw [ht]
      exact Database.modify_of_ne (hne T hT)
    · split
      · exact ⟨rfl, fun c hcol => Ovsdb.Row.get_modify_of_ne hcol⟩
      · exact ⟨rfl, fun _ _ => rfl⟩

end Changes

theorem networkOf_eq {p : Row} {address : String} :
    networkOf p = some address ↔ p.get "networks" = some (.strings [address]) := by
  unfold networkOf
  split
  · next a h => rw [h]; simp
  · next hne =>
    refine iff_of_false nofun fun h => ?_
    exact hne address h

/-- The attachments of the switch are what its wiring says. -/
theorem attached_iff {switch router address : String} {db : Database} (h : Wired switch db) :
    Attached db switch router address ↔
      (wiring db switch).joined router = true ∧ (wiring db switch).address router = some address := by
  have hrouterPort : ∀ {x p}, named db typeLogicalRouterPort x = some p ↔
      p ∈ db typeLogicalRouterPort ∧ rowText p "name" = x :=
    named_iff (.tail _ (.head _)) (by decide) h.consistent
  constructor
  · rintro ⟨L, hL, hLn, q, hq, hqL, -, R, hR, hRn, p, hp, hpR, hpq, hnet⟩
    -- The switch has only ports that are named after the routers they lead to.
    obtain ⟨x, hqn⟩ := h.links L hL hLn q hq hqL
    obtain ⟨⟨-, hoptions⟩, -⟩ := h.switches.owned q hq x hqn
    rw [hoptions] at hpq
    have hpn : rowText p "name" = routerPortName x switch := (Option.some.inj hpq).symm
    obtain rfl : router = x := hRn.symm.trans (h.routers.only p hp x hpn R hR hpR)
    constructor
    · show (named db typeLogicalSwitchPort (switchPortName switch router)).isSome = true
      rw [(named_port_iff h.consistent).mpr ⟨hq, hqn⟩]
      rfl
    · show (named db typeLogicalRouterPort (routerPortName router switch)).bind networkOf = some address
      rw [hrouterPort.mpr ⟨hp, hpn⟩]
      exact networkOf_eq.mpr hnet
  · rintro ⟨hjoined, haddress⟩
    obtain ⟨q, hq⟩ := Option.isSome_iff_exists.mp hjoined
    obtain ⟨hqmem, hqn⟩ := firstWith_some hq
    obtain ⟨⟨htype, hoptions⟩, L, hL, hLn, hqL⟩ := h.switches.owned q hqmem router hqn
    obtain ⟨p, hp, hnet⟩ := Option.bind_eq_some_iff.mp haddress
    obtain ⟨hpmem, hpn⟩ := firstWith_some hp
    obtain ⟨-, R, hR, hRn, hpR⟩ := h.routers.owned p hpmem router hpn
    exact ⟨L, hL, hLn, q, hqmem, hqL, htype, R, hR, hRn, p, hpmem, hpR, hpn ▸ hoptions,
      networkOf_eq.mp hnet⟩

end ClusterController
