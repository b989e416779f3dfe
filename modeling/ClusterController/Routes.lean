import Std.Data.String.ToNat
import Mathlib
import ClusterController.OvnActions

/-!
# Setting the static routes of a router

`LogicalRouter::set_routes` compares the routes of a router with those that are wanted, and
makes one transaction of the difference: a named insert for each route that is missing, and
a mutation of the router that refers to the new rows and drops the obsolete ones.
-/

namespace ClusterController

open Interaction (Program)
open Interaction.Program (Outcome ends_bind)
open Ovsdb (Json Datum Row Columns Database Conforms Consistent Typed Operation Mutation Ref
  Transacted transacted FitColumns addRefs dropRefs insertedRows modifyRow_eq_map)

/-! ## The routes of a router -/

/-- The destination and the next hop of a stored route. -/
def hop (r : Row) : String × String := (rowText r "ip_prefix", rowText r "nexthop")

/-- The destination and the next hop of a wanted route. -/
def Route.hop (route : Route) : String × String := (route.cidr, route.nexthop)

/-- The rows of the static routes that a router refers to. -/
def routesOf (db : Database) (p : String) : List Row :=
  (db typeLogicalRouterStaticRoute).filter fun r => (db typeLogicalRouter).any fun router =>
    router.uuid = p && (router.refs "static_routes").contains r.uuid

theorem mem_routesOf {db : Database} {p : String} {r : Row} : r ∈ routesOf db p ↔
    r ∈ db typeLogicalRouterStaticRoute ∧ ∃ router ∈ db typeLogicalRouter,
      router.uuid = p ∧ r.uuid ∈ router.refs "static_routes" := by
  unfold routesOf
  rw [List.mem_filter, List.any_eq_true]
  simp only [Bool.and_eq_true, decide_eq_true_eq, List.contains_iff_mem]

/-- The wanted routes that the router does not have. -/
def lacking (db : Database) (p : String) (wanted : List Route) : List Route :=
  wanted.filter fun route => !((routesOf db p).map hop).contains route.hop

/-- The router has the wanted routes and no others: those it had before are the same rows, and
the other routers have the routes that they had. -/
structure Converged (db db' : Database) (p : String) (wanted : List Route) : Prop where
  hops : ∀ pair, pair ∈ (routesOf db' p).map hop ↔ pair ∈ wanted.map Route.hop
  kept : ∀ r ∈ routesOf db p, hop r ∈ wanted.map Route.hop → r ∈ routesOf db' p
  others : ∀ q, q ≠ p → ∀ r, r ∈ routesOf db' q ↔ r ∈ routesOf db q

/-! ## The inserts -/

/-- The name of the insert with a number. -/
def routeId (k : Nat) : String := "new_route_" ++ toString k

theorem routeId_injective : Function.Injective routeId := by
  intro k k' h
  have h : toString k = toString k' := String.append_right_inj _ |>.mp h
  exact Nat.repr_injective h

/-- The columns of a route to insert. -/
def routeColumns (ρ : Type) (route : Route) : Columns ρ :=
  [("ip_prefix", .strings [route.cidr]), ("nexthop", .strings [route.nexthop])]

theorem resolve_routeColumns (find : Ref → Option String) (route : Route) :
    Operation.resolveColumns find (routeColumns Ref route) = some (routeColumns String route) := rfl

/-- The counter of the inserts does not overflow. -/
theorem addRoutes_eq (routes : List Route) (i : UInt8) (h : i.toNat + routes.length ≤ 255) :
    LogicalRouter.addRoutes routes i =
      ((routes.zipIdx i.toNat).map fun e => .insert typeLogicalRouterStaticRoute
          (routeColumns Ref e.1) (some (routeId e.2)),
        ((routes.zipIdx i.toNat).map fun e => routeId e.2).map Ref.named) := by
  induction routes generalizing i with
  | nil => rfl
  | cons route routes ih =>
    rw [List.length_cons] at h
    have hi : (i + 1).toNat = i.toNat + 1 := by
      rw [UInt8.toNat_add]
      exact Nat.mod_eq_of_lt (by have : (1 : UInt8).toNat = 1 := rfl; omega)
    unfold LogicalRouter.addRoutes
    rw [ih (i + 1) (by omega), hi]
    rfl

theorem addRoutes_zero {routes : List Route} (h : routes.length ≤ 255) :
    LogicalRouter.addRoutes routes 0 =
      (routes.zipIdx.map fun e => .insert typeLogicalRouterStaticRoute
          (routeColumns Ref e.1) (some (routeId e.2)),
        (routes.zipIdx.map fun e => routeId e.2).map Ref.named) :=
  addRoutes_eq routes 0 (by simpa using h)

theorem nodup_routeIds (routes : List Route) (i : Nat) :
    ((routes.zipIdx i).map fun e => routeId e.2).Nodup := by
  have h : (routes.zipIdx i).map (fun e => routeId e.2) =
      ((routes.zipIdx i).map Prod.snd).map routeId := by
    rw [List.map_map]
    rfl
  rw [h, List.zipIdx_map_snd]
  exact (List.nodup_range').map routeId_injective

/-! ## The transaction -/

/-- The operations of `set_routes`. -/
def routeOperations (p : String) (missing : List Route) (removed : List String) : List Operation :=
  (LogicalRouter.addRoutes missing 0).1 ++ [.mutate typeLogicalRouter p
    [⟨"static_routes", true, (LogicalRouter.addRoutes missing 0).2⟩,
      ⟨"static_routes", false, removed.map Ref.uuid⟩]]

/-- The row of the router with the references to the new routes and without the obsolete ones. -/
def rerouted (us removed : List String) (r : Row) : Row :=
  dropRefs "static_routes" removed (addRefs "static_routes" us r)

/-- The rows of the new routes. -/
def routeRows (us : List String) (missing : List Route) : List Row :=
  insertedRows northbound typeLogicalRouterStaticRoute us (missing.map (routeColumns String))

/-- The database after the operations, before unreferenced routes go. -/
def withRoutes (db : Database) (p : String) (us : List String) (missing : List Route)
    (removed : List String) : Database :=
  (db.modify typeLogicalRouterStaticRoute fun rows => rows ++ routeRows us missing).modifyRow
    typeLogicalRouter p (rerouted us removed)

section Transaction

variable {db db' : Database} {p : String} {fresh us rest removed : List String}
  {missing : List Route} {answers : List Json}

theorem fits_routeOperations : ∀ op ∈ routeOperations p missing removed, op.Fits northbound := by
  intro op hop
  rcases List.mem_append.mp hop with hop | hop
  · exact (addRoutes_insert missing 0 op hop).2
  · rw [List.mem_singleton.mp hop]
    intro m hm e he hec
    have hm : m.column = "static_routes" := by
      rcases List.mem_cons.mp hm with rfl | hm
      · rfl
      · rw [List.mem_singleton.mp hm]
    refine ⟨[], ?_⟩
    have h₁ := Ovsdb.lookup_of_mem (flat_northbound.nodup _) he
    rw [hec, hm] at h₁
    exact Option.some.inj (h₁.symm.trans rfl)

/-- The names of the operations are those of the inserts. -/
theorem names_routeOperations (hfew : missing.length ≤ 255) (hlen : us.length = missing.length) :
    Database.names (routeOperations p missing removed) (us ++ rest) =
      (missing.zipIdx.map fun e => routeId e.2).zip us := by
  unfold routeOperations
  rw [addRoutes_zero hfew]
  dsimp only
  rw [Ovsdb.names_inserted (by rw [hlen, List.length_zipIdx])]
  unfold Database.names
  simp [Operation.inserted, Database.names]

/-- The router refers to the new rows afterwards. -/
theorem foldlM_routes (p : String) (rest removed : List String) (hfew : missing.length ≤ 255)
    (hlen : us.length = missing.length) (r : Row) :
    [(⟨"static_routes", true, (LogicalRouter.addRoutes missing 0).2⟩ : Mutation),
      ⟨"static_routes", false, removed.map Ref.uuid⟩].foldlM (Operation.applyMutation
        (Database.lookup (Database.names (routeOperations p missing removed) (us ++ rest)))) r =
      some (rerouted us removed r) := by
  rw [names_routeOperations hfew hlen, addRoutes_zero hfew]
  have hnodup := nodup_routeIds missing 0
  have hids : (missing.zipIdx.map fun e => routeId e.2).length = us.length := by
    rw [hlen, List.length_map, List.length_zipIdx]
  generalize missing.zipIdx.map (fun e => routeId e.2) = ids at hnodup hids ⊢
  have hnamed : (ids.map Ref.named).mapM (Database.lookup (ids.zip us ++ [])) = some us :=
    Ovsdb.mapM_named hnodup hids.symm
  rw [List.append_nil] at hnamed
  simp only [List.foldlM_cons, List.foldlM_nil, Operation.applyMutation, hnamed, Ovsdb.mapM_uuid,
    Option.bind_eq_bind, Option.bind_some, if_true]
  rfl

/-- What the operations make of the database. -/
theorem runAll_routeOperations (removed : List String) (hc : Consistent northbound db)
    (hp : p ∈ (db typeLogicalRouter).map Row.uuid) (hfew : missing.length ≤ 255)
    (hlen : us.length = missing.length) (hu : Ovsdb.Unused northbound db (us ++ rest)) :
    ∃ answers, Operation.runAll northbound
      (Database.lookup (Database.names (routeOperations p missing removed) (us ++ rest))) db (us ++ rest)
      (routeOperations p missing removed) = some (answers, withRoutes db p us missing removed) := by
  have hfold := foldlM_routes p rest removed hfew hlen
  generalize Database.lookup (Database.names (routeOperations p missing removed) (us ++ rest)) =
    find at hfold ⊢
  have hrows : missing.zipIdx.map (fun e => routeColumns String e.1) =
      missing.map (routeColumns String) := by
    have h : missing.zipIdx.map (fun e => routeColumns String e.1) =
        (missing.zipIdx.map Prod.fst).map (routeColumns String) := by
      rw [List.map_map]
      rfl
    rw [h, List.zipIdx_map_fst]
  have hinserts : ∀ ops, Operation.runAll northbound find db (us ++ rest)
      ((LogicalRouter.addRoutes missing 0).1 ++ ops) =
        (Operation.runAll northbound find (db.modify typeLogicalRouterStaticRoute
          fun rows => rows ++ routeRows us missing) rest ops).map fun p =>
            (us.map (fun u => .obj [("uuid", .arr [.str "uuid", .str u])]) ++ p.1, p.2) := by
    intro ops
    unfold routeRows
    rw [addRoutes_zero hfew, ← hrows]
    exact Ovsdb.runAll_inserted (fun e _ => resolve_routeColumns find e.1)
      (by rw [hlen, List.length_zipIdx])
  -- The inserts leave a database that conforms, so that the row of the router is one row.
  have hconf : Conforms northbound (db.modify typeLogicalRouterStaticRoute
      fun rows => rows ++ routeRows us missing) :=
    hc.conforms.runAll flat_northbound.nodup hu
      (fun op hop => (addRoutes_insert missing 0 op (by simpa using hop)).2) (hinserts [])
  obtain ⟨router, hrouter⟩ := Option.isSome_iff_exists.mp (Ovsdb.isSome_find?.mpr hp)
  have hrouter : (db.modify typeLogicalRouterStaticRoute
      fun rows => rows ++ routeRows us missing).find? typeLogicalRouter p = some router := by
    unfold Database.find? at hrouter ⊢
    rw [Database.modify_of_ne (by decide)]
    exact hrouter
  unfold routeOperations
  rw [hinserts]
  unfold Operation.runAll
  rw [Ovsdb.run_mutate_found hconf hfold hrouter]
  exact ⟨_, rfl⟩

theorem withRoutes_routers : withRoutes db p us missing removed typeLogicalRouter =
    (db typeLogicalRouter).map fun r => if r.uuid = p then rerouted us removed r else r := by
  unfold withRoutes
  rw [Database.modifyRow_self, Database.modify_of_ne (by decide)]

theorem withRoutes_routes : withRoutes db p us missing removed typeLogicalRouterStaticRoute =
    db typeLogicalRouterStaticRoute ++ routeRows us missing := by
  unfold withRoutes Database.modifyRow
  rw [Database.modify_of_ne (by decide), Database.modify_self]

theorem withRoutes_other {T : String} (h : T ≠ typeLogicalRouter)
    (h' : T ≠ typeLogicalRouterStaticRoute) : withRoutes db p us missing removed T = db T := by
  unfold withRoutes Database.modifyRow
  rw [Database.modify_of_ne h, Database.modify_of_ne h']

@[simp] theorem uuid_rerouted (r : Row) : (rerouted us removed r).uuid = r.uuid := rfl

theorem get_rerouted_of_ne {r : Row} {c : String} (h : c ≠ "static_routes") :
    (rerouted us removed r).get c = r.get c :=
  (Row.get_modify_of_ne h).trans (Row.get_modify_of_ne h)

/-- The references of the router afterwards. -/
theorem mem_refs_rerouted {r : Row} {v : String}
    (h : r.get "static_routes" = some (.refs (r.refs "static_routes"))) :
    v ∈ (rerouted us removed r).refs "static_routes" ↔
      (v ∈ r.refs "static_routes" ∨ v ∈ us) ∧ v ∉ removed := by
  have hadd : (addRefs "static_routes" us r).get "static_routes" =
      some (.refs ((addRefs "static_routes" us r).refs "static_routes")) := by
    rw [Ovsdb.refs_addRefs h]
    unfold addRefs
    rw [Row.get_modify, if_pos rfl, h]
    rfl
  unfold rerouted
  rw [Ovsdb.refs_dropRefs hadd, Ovsdb.refs_addRefs h, List.mem_filter, List.mem_append, List.mem_filter]
  simp only [Bool.not_eq_true', List.contains_eq_mem, decide_eq_false_iff_not]
  tauto

theorem get_router {r : Row} (hc : Consistent northbound db) (hr : r ∈ db typeLogicalRouter) :
    r.get "static_routes" = some (.refs (r.refs "static_routes")) :=
  get_of_refs (hc.conforms.typed _ r hr) (by decide)

theorem map_uuid_routeRows (hlen : us.length = missing.length) :
    (routeRows us missing).map Row.uuid = us := by
  unfold routeRows insertedRows
  rw [List.map_zipWith]
  simp only [Row.uuid_write]
  rw [← List.map_uncurry_zip_eq_zipWith]
  exact List.map_fst_zip (Nat.le_of_eq (by rw [hlen, List.length_map]))

theorem integral_withRoutes (hc : Consistent northbound db) (hlen : us.length = missing.length) :
    (withRoutes db p us missing removed).integral northbound = true := by
  have hports : ∀ r : Row, (if r.uuid = p then rerouted us removed r else r).refs "ports" =
      r.refs "ports" := by
    intro r
    split
    · unfold Row.refs
      rw [get_rerouted_of_ne (by decide)]
    · rfl
  unfold Database.integral
  rw [List.all_eq_true]
  intro ref href
  cases hs : ref.strong with
  | false => rfl
  | true =>
    rw [Bool.not_true, Bool.false_or]
    simp only [List.all_eq_true, Ovsdb.isSome_find?]
    intro r hr v hv
    have hold : ∀ r ∈ db ref.table, v ∈ r.refs ref.column → v ∈ (db ref.target).map Row.uuid :=
      fun r hr hv => hc.resolves href hs hr hv
    simp only [northbound, List.mem_cons, List.not_mem_nil, or_false] at href
    rcases href with rfl | rfl | rfl | rfl
    · rw [withRoutes_other (by decide) (by decide)] at hr ⊢
      exact hold r hr hv
    · dsimp only at hr hv hold ⊢
      rw [withRoutes_routers] at hr
      rw [withRoutes_other (by decide) (by decide)]
      obtain ⟨r₀, hr₀, rfl⟩ := List.mem_map.mp hr
      rw [hports] at hv
      exact hold r₀ hr₀ hv
    · dsimp only at hr hv hold ⊢
      rw [withRoutes_routers] at hr
      rw [withRoutes_routes, List.map_append, map_uuid_routeRows hlen, List.mem_append]
      obtain ⟨r₀, hr₀, rfl⟩ := List.mem_map.mp hr
      split at hv
      · exact ((mem_refs_rerouted (get_router hc hr₀)).mp hv).1.imp (hold r₀ hr₀) id
      · exact .inl (hold r₀ hr₀ hv)
    · cases hs

theorem distinct_withRoutes (hc : Consistent northbound db) :
    (withRoutes db p us missing removed).distinct northbound = true := by
  have hd := hc.distinct
  have hindexes : ∀ i ∈ northbound.indexes,
      i.1 ≠ typeLogicalRouter ∧ i.1 ≠ typeLogicalRouterStaticRoute := by decide
  unfold Database.distinct at hd ⊢
  rw [List.all_eq_true] at hd ⊢
  intro i hi
  rw [withRoutes_other (hindexes i hi).1 (hindexes i hi).2]
  exact hd i hi

/-- The transaction of `set_routes` goes through if the server has enough uuids for new rows. -/
theorem transact_routeOperations (hc : Consistent northbound db)
    (hp : p ∈ (db typeLogicalRouter).map Row.uuid) (hfew : missing.length ≤ 255)
    (hlen : us.length = missing.length) (hn : (us ++ rest).Nodup)
    (hu : db.unused northbound (us ++ rest) = true) :
    ∃ answers, db.transact northbound (us ++ rest) (routeOperations p missing removed) =
      some (answers, (withRoutes db p us missing removed).sweep northbound) ∧
      Consistent northbound ((withRoutes db p us missing removed).sweep northbound) := by
  obtain ⟨answers, hrun⟩ := runAll_routeOperations removed hc hp hfew hlen
    (Ovsdb.unused_of_check hn hu)
  have hnames : ((Database.names (routeOperations p missing removed) (us ++ rest)).map Prod.fst).Nodup := by
    rw [names_routeOperations hfew hlen, List.map_fst_zip]
    · exact nodup_routeIds missing 0
    · exact Nat.le_of_eq (by rw [hlen, List.length_map, List.length_zipIdx])
  have htr : db.transact northbound (us ++ rest) (routeOperations p missing removed) =
      some (answers, ((withRoutes db p us missing removed).sweep northbound).forget northbound) := by
    unfold Database.transact
    dsimp only
    rw [if_pos ⟨hnames, hn, hu⟩, hrun]
    dsimp only
    rw [if_pos]
    rw [Ovsdb.integral_sweep flat_northbound (integral_withRoutes hc hlen),
      Ovsdb.distinct_sweep (distinct_withRoutes hc)]
    rfl
  obtain ⟨mid, hmid⟩ := transacted htr
  have heq := hmid.run.symm.trans hrun
  cases heq
  have hswept := transacted_swept hc hmid (withRoutes_other (by decide) (by decide))
    (withRoutes_other (by decide) (by decide))
  have hcons := hmid.consistent flat_northbound hc fits_routeOperations
  rw [hswept] at htr hcons
  exact ⟨answers, htr, hcons⟩

/-! ### Whose routes are there -/

/-- The column of a router that refers to its routes. -/
def routeReference : Ovsdb.Reference :=
  ⟨typeLogicalRouter, "static_routes", typeLogicalRouterStaticRoute, true⟩

theorem mem_routeReference : routeReference ∈ northbound.references :=
  .tail _ (.tail _ (.head _))

theorem stores_routes : northbound.Stores typeLogicalRouterStaticRoute :=
  ⟨routeReference, mem_routeReference, .inr rfl⟩

/-- Routes of a router are not swept. -/
theorem mem_routesOf_sweep {mid : Database} {q : String} {r : Row} :
    r ∈ routesOf (mid.sweep northbound) q ↔ r ∈ routesOf mid q := by
  rw [mem_routesOf, mem_routesOf, Ovsdb.sweep_root (t := typeLogicalRouter) rfl]
  refine and_congr_left fun ⟨router, hrouter, _, hr⟩ => ?_
  unfold Database.sweep
  rw [if_neg (by decide), List.mem_filter, and_iff_left]
  unfold Database.referenced
  rw [List.any_eq_true]
  refine ⟨routeReference, mem_routeReference, ?_⟩
  rw [Bool.and_eq_true, List.any_eq_true]
  exact ⟨rfl, router, hrouter, List.contains_iff_mem.mpr hr⟩

/-- A route that a router of a consistent database refers to is no new one. -/
theorem not_mem_routeRows {router r : Row} (hc : Consistent northbound db)
    (hlen : us.length = missing.length) (hfresh : ∀ u ∈ us, Fresh db u)
    (hrouter : router ∈ db typeLogicalRouter) (hr : r.uuid ∈ router.refs "static_routes") :
    r ∉ routeRows us missing := by
  intro hin
  have hu : r.uuid ∈ us := by
    rw [← map_uuid_routeRows hlen]
    exact List.mem_map_of_mem hin
  exact hfresh _ hu _ stores_routes (hc.resolves mem_routeReference rfl hrouter hr)

/-- Other routers have the routes that they had. -/
theorem mem_routesOf_other {q : String} {r : Row} (hc : Consistent northbound db)
    (hlen : us.length = missing.length) (hfresh : ∀ u ∈ us, Fresh db u) (hq : q ≠ p) :
    r ∈ routesOf (withRoutes db p us missing removed) q ↔ r ∈ routesOf db q := by
  rw [mem_routesOf, mem_routesOf, withRoutes_routers, withRoutes_routes]
  constructor
  · rintro ⟨hr, router, hrouter, hu, href⟩
    obtain ⟨router, hold, rfl⟩ := List.mem_map.mp hrouter
    by_cases hp : router.uuid = p
    · rw [if_pos hp] at hu
      exact absurd (hu.symm.trans hp) hq
    · rw [if_neg hp] at hu href
      rcases List.mem_append.mp hr with hr | hr
      · exact ⟨hr, router, hold, hu, href⟩
      · exact absurd hr (not_mem_routeRows hc hlen hfresh hold href)
  · rintro ⟨hr, router, hrouter, hu, href⟩
    refine ⟨List.mem_append_left _ hr, router, List.mem_map.mpr ⟨router, hrouter, ?_⟩, hu, href⟩
    rw [if_neg]
    rintro rfl
    exact hq hu.symm

/-- The router has its old routes but the obsolete ones, and the new ones. -/
theorem mem_routesOf_self {r : Row} (hc : Consistent northbound db)
    (hp : p ∈ (db typeLogicalRouter).map Row.uuid) (hlen : us.length = missing.length)
    (hfresh : ∀ u ∈ us, Fresh db u) (hremoved : ∀ u ∈ us, u ∉ removed) :
    r ∈ routesOf (withRoutes db p us missing removed) p ↔
      (r ∈ routesOf db p ∧ r.uuid ∉ removed) ∨ r ∈ routeRows us missing := by
  have hnew : r ∈ routeRows us missing → r.uuid ∈ us := fun hin => by
    rw [← map_uuid_routeRows hlen]
    exact List.mem_map_of_mem hin
  rw [mem_routesOf, mem_routesOf, withRoutes_routers, withRoutes_routes]
  constructor
  · rintro ⟨hr, router, hrouter, hu, href⟩
    obtain ⟨router, hold, rfl⟩ := List.mem_map.mp hrouter
    have hrp : router.uuid = p := by
      by_cases h : router.uuid = p
      · exact h
      · rwa [if_neg h] at hu
    rw [if_pos hrp, mem_refs_rerouted (get_router hc hold)] at href
    rcases List.mem_append.mp hr with hr | hr
    · refine .inl ⟨⟨hr, router, hold, hrp, href.1.resolve_right fun hin => ?_⟩, href.2⟩
      exact hfresh _ hin _ stores_routes (List.mem_map_of_mem hr)
    · exact .inr hr
  · rintro (⟨⟨hr, router, hrouter, hu, href⟩, hnot⟩ | hr)
    · refine ⟨List.mem_append_left _ hr, _, List.mem_map_of_mem hrouter, ?_⟩
      rw [if_pos hu, mem_refs_rerouted (get_router hc hrouter)]
      exact ⟨hu, .inl href, hnot⟩
    · obtain ⟨router, hrouter, hu⟩ := List.mem_map.mp hp
      refine ⟨List.mem_append_right _ hr, _, List.mem_map_of_mem hrouter, ?_⟩
      rw [if_pos hu, mem_refs_rerouted (get_router hc hrouter)]
      exact ⟨hu, .inr (hnew hr), hremoved _ (hnew hr)⟩

/-- The new rows are the missing routes. -/
theorem mem_hop_routeRows (hlen : us.length = missing.length) (pair : String × String) :
    pair ∈ (routeRows us missing).map hop ↔ pair ∈ missing.map Route.hop := by
  have hmap : (routeRows us missing).map hop = missing.map Route.hop := by
    unfold routeRows insertedRows
    induction missing generalizing us with
    | nil =>
      obtain rfl := List.length_eq_zero_iff.mp hlen
      rfl
    | cons route routes ih =>
      obtain ⟨u, us, rfl⟩ := List.exists_cons_of_length_eq_add_one hlen
      rw [List.map_cons, List.zipWith_cons_cons, List.map_cons, List.map_cons, ih (Nat.succ.inj hlen)]
      rfl
  rw [hmap]

end Transaction

/-! ## Runs -/

/-- The server has enough uuids that are not in use for the rows that the operations insert. -/
structure Supply (db : Database) (fresh : List String) (operations : List Operation) : Prop where
  nodup : fresh.Nodup
  unused : db.unused northbound fresh = true
  enough : (operations.filter fun op => op.inserted.isSome).length ≤ fresh.length

/-- The request is served, and the rows that it inserts get uuids that are not in use. -/
def Supplied (w : Worker) (s : World) (r : Request) (a : r.Answer) (t : World) : Prop :=
  ∃ x : Choice, x.delivery = .served ∧
    (∀ operations, r = .transact operations → Supply s.northbound x.fresh operations) ∧
    World.answer w s r x = some (a, t)

/-- Run alone, the program always returns the value and changes nothing. -/
def Gives {α : Type} (w : Worker) (s : World) (p : Prog α) (a : α) : Prop :=
  ∀ o t, p.Ends (Supplied w) s o t ↔ o = .ok a ∧ t = s

section Runs

variable {w : Worker} {s t : World} {α β : Type} {operations : List Operation}

theorem gives_ret (a : α) : Gives w s (.ret a) a := fun _ _ => Iff.rfl

/-- What is read is passed on. -/
theorem Gives.ends_bind {p : Prog α} {f : α → Prog β} {a : α} (h : Gives w s p a)
    {o : Outcome Error β} :
    (p >>= f).Ends (Supplied w) s o t ↔ (f a).Ends (Supplied w) s o t := by
  rw [Program.ends_bind]
  constructor
  · rintro (⟨b, s₁, hb, hf⟩ | ⟨e, he, -⟩ | ⟨m, hm, -⟩)
    · obtain ⟨heq, rfl⟩ := (h _ _).mp hb
      cases heq
      exact hf
    · cases ((h _ _).mp he).1
    · cases ((h _ _).mp hm).1
  · exact fun hf => .inl ⟨a, s, (h _ _).mpr ⟨rfl, rfl⟩, hf⟩

theorem Gives.bind {p : Prog α} {f : α → Prog β} {a : α} {b : β} (h : Gives w s p a)
    (hf : Gives w s (f a) b) : Gives w s (p >>= f) b :=
  fun o t => h.ends_bind.trans (hf o t)

/-- A transaction that goes through. -/
theorem ends_transact_iff {o : Outcome Error (List Json)} :
    (transact operations).Ends (Supplied w) s o t ↔ ∃ fresh, Supply s.northbound fresh operations ∧
      match s.northbound.transact northbound fresh operations with
      | some (answers, db) => o = .ok answers ∧ t = s.setNorthbound db
      | none => o = .aborted "transaction failed" ∧ t = s := by
  constructor
  · rintro ⟨a, s₁, ⟨x, hx, hsupply, hans⟩, hk⟩
    refine ⟨x.fresh, hsupply operations rfl, ?_⟩
    have hd : x.deliver none s (s.serveTransact x operations) = (a, s₁) := Option.some.inj hans
    unfold Choice.deliver World.serveTransact at hd
    rw [hx] at hd
    cases htr : s.northbound.transact northbound x.fresh operations with
    | none =>
      rw [htr] at hd
      cases hd
      exact hk
    | some p =>
      rw [htr] at hd
      cases hd
      exact hk
  · rintro ⟨fresh, hsupply, h⟩
    have hstep : ∀ a t', s.serveTransact { fresh := fresh } operations = (a, t') →
        Supplied w s (.transact operations) a t' := by
      intro a t' ha
      refine ⟨{ fresh := fresh }, rfl, fun ops hops => ?_, congrArg some ha⟩
      cases hops
      exact hsupply
    unfold World.serveTransact at hstep
    cases htr : s.northbound.transact northbound fresh operations with
    | none =>
      rw [htr] at h hstep
      exact ⟨_, _, hstep none s rfl, h⟩
    | some p =>
      rw [htr] at h hstep
      exact ⟨_, _, hstep (some p.1) _ rfl, h⟩

/-! ### What is read -/

/-- A select of a consistent database goes through. -/
theorem transact_select {db : Database} (hc : Consistent northbound db) {fresh : List String}
    {T : String} {columns : List String} (hsupply : Supply db fresh [.select T columns]) :
    db.transact northbound fresh [.select T columns] =
      some ([.obj [("rows", .arr ((db T).map fun r => r.encode columns))]], db) := by
  unfold Database.transact
  dsimp only
  rw [if_pos ⟨List.nodup_nil, hsupply.nodup, hsupply.unused⟩]
  show (if (db.sweep northbound).integral northbound && (db.sweep northbound).distinct northbound then
    _ else none) = _
  rw [hc.swept, hc.integral, hc.distinct, hc.forgotten]
  rfl

theorem gives_listObjects (hc : Consistent northbound s.northbound) (T : String) :
    Gives w s (listObjects T) ((s.northbound T).map fun r => r.encode (listColumns T)) := by
  have htransact : Gives w s (transact [.select T (listColumns T)])
      [.obj [("rows", .arr ((s.northbound T).map fun r => r.encode (listColumns T)))]] := by
    intro o t
    rw [ends_transact_iff]
    constructor
    · rintro ⟨fresh, hsupply, h⟩
      rwa [transact_select hc hsupply] at h
    · rintro ⟨rfl, rfl⟩
      have hsupply : Supply t.northbound [] [.select T (listColumns T)] :=
        ⟨List.nodup_nil, List.all_eq_true.mpr fun _ _ => rfl, Nat.le_refl _⟩
      refine ⟨[], hsupply, ?_⟩
      rw [transact_select hc hsupply]
      exact ⟨rfl, rfl⟩
  exact htransact.bind (gives_ret _)

theorem gives_ovnList (τ : Type) [OvnCommon τ] [OvnRow τ]
    (hc : Consistent northbound s.northbound) : Gives w s (ovnList τ) (rowsOf τ s.northbound) := by
  refine (gives_listObjects hc _).bind ?_
  rw [collect_decode τ hc]
  exact gives_ret _

theorem gives_getByName (τ : Type) [OvnNamed τ] [OvnRow τ] [NamedRow τ]
    (hc : Consistent northbound s.northbound) {name : String} {r : Row}
    (hr : named s.northbound (OvnCommon.ovnType τ) name = some r) :
    Gives w s (getByName τ name) (OvnRow.ofRow r) := by
  refine (gives_ovnList τ hc).bind ?_
  rw [find?_rowsOf, hr]
  exact gives_ret _

/-! ### What is set -/

theorem exists_route {db : Database} (hc : Consistent northbound db) {router : Row}
    (hrouter : router ∈ db typeLogicalRouter) {u : String} (hu : u ∈ router.refs "static_routes") :
    ∃ r, db.find? typeLogicalRouterStaticRoute u = some r :=
  Option.isSome_iff_exists.mp
    (Ovsdb.isSome_find?.mpr (hc.resolves mem_routeReference rfl hrouter hu))

/-- The rows that a row of a router refers to. -/
def referredRoutes (db : Database) (router : Row) : List Row :=
  (router.refs "static_routes").map fun u => (db.find? typeLogicalRouterStaticRoute u).getD ⟨u, []⟩

theorem mem_referredRoutes {db : Database} (hc : Consistent northbound db) {router r : Row}
    (hrouter : router ∈ db typeLogicalRouter) :
    r ∈ referredRoutes db router ↔ r ∈ routesOf db router.uuid := by
  unfold referredRoutes
  rw [List.mem_map, mem_routesOf]
  constructor
  · rintro ⟨u, hu, rfl⟩
    obtain ⟨r, hr⟩ := exists_route hc hrouter hu
    obtain ⟨hmem, rfl⟩ := Database.find?_some hr
    rw [hr]
    exact ⟨hmem, router, hrouter, rfl, hu⟩
  · rintro ⟨hr, router', hrouter', hu, href⟩
    obtain rfl := List.inj_on_of_nodup_map (hc.conforms.unique _) hrouter' hrouter hu
    obtain ⟨r', hr'⟩ := exists_route hc hrouter href
    obtain ⟨hmem, hr'u⟩ := Database.find?_some hr'
    refine ⟨r.uuid, href, ?_⟩
    rw [hr']
    exact List.inj_on_of_nodup_map (hc.conforms.unique _) hmem hr hr'u

/-- The uuids of the routes of a router that are not wanted. -/
def obsoleteRoutes (db : Database) (router : Row) (wanted : List Route) : List String :=
  ((referredRoutes db router).filter fun r => !(wanted.map Route.hop).contains (hop r)).map Row.uuid

theorem gives_getRoutes (hc : Consistent northbound s.northbound) {router : Row}
    (hrouter : router ∈ s.northbound typeLogicalRouter) :
    Gives w s (LogicalRouter.getRoutes (OvnRow.ofRow router))
      ((referredRoutes s.northbound router).map OvnRow.ofRow) := by
  unfold LogicalRouter.getRoutes
  refine (gives_ovnList StaticRoute hc).bind ?_
  unfold referredRoutes
  rw [List.map_map, collect_ret (g := fun u => OvnRow.ofRow
    ((s.northbound.find? typeLogicalRouterStaticRoute u).getD ⟨u, []⟩))]
  · exact gives_ret _
  · intro u hu
    obtain ⟨r, hr⟩ := exists_route hc hrouter hu
    have hfind : (rowsOf StaticRoute s.northbound).find? (fun item => item.uuid = u) =
        (s.northbound.find? typeLogicalRouterStaticRoute u).map OvnRow.ofRow := by
      unfold rowsOf Database.find?
      rw [List.find?_map]
      rfl
    rw [hfind, hr]
    rfl

/-- `set_routes` makes one transaction of the missing and of the obsolete routes. -/
theorem ends_setRoutes_iff (hc : Consistent northbound s.northbound) {router : Row}
    (hrouter : router ∈ s.northbound typeLogicalRouter) {wanted : List Route} {o : Outcome Error Unit} :
    (LogicalRouter.setRoutes (OvnRow.ofRow router) wanted).Ends (Supplied w) s o t ↔
      (transact (routeOperations router.uuid (lacking s.northbound router.uuid wanted)
        (obsoleteRoutes s.northbound router wanted)) >>= fun _ => .ret ()).Ends (Supplied w) s o t := by
  have hmissing : (wanted.filter fun newRoute =>
      !((referredRoutes s.northbound router).map (OvnRow.ofRow : Row → StaticRoute)).any
        fun oldRoute => oldRoute.ipPrefix = newRoute.cidr && oldRoute.nexthop = newRoute.nexthop) =
      lacking s.northbound router.uuid wanted := by
    refine List.filter_congr fun route _ => ?_
    rw [Bool.not_inj_iff, Bool.eq_iff_iff, List.any_eq_true, List.contains_iff_mem, List.mem_map]
    simp only [List.mem_map, Bool.and_eq_true, decide_eq_true_eq]
    constructor
    · rintro ⟨-, ⟨r, hr, rfl⟩, hprefix, hnext⟩
      exact ⟨r, (mem_referredRoutes hc hrouter).mp hr, Prod.ext hprefix hnext⟩
    · rintro ⟨r, hr, heq⟩
      exact ⟨_, ⟨r, (mem_referredRoutes hc hrouter).mpr hr, rfl⟩,
        congrArg Prod.fst heq, congrArg Prod.snd heq⟩
  have hobsolete : ((((referredRoutes s.northbound router).map
      (OvnRow.ofRow : Row → StaticRoute)).filter fun oldRoute => !wanted.any fun newRoute =>
        newRoute.cidr = oldRoute.ipPrefix && newRoute.nexthop = oldRoute.nexthop).map
        fun oldRoute => Ref.uuid oldRoute.uuid) =
      (obsoleteRoutes s.northbound router wanted).map Ref.uuid := by
    unfold obsoleteRoutes
    rw [List.filter_map, List.map_map, List.map_map]
    refine congrArg₂ List.map rfl (List.filter_congr fun r _ => ?_)
    rw [Function.comp_apply, Bool.not_inj_iff, Bool.eq_iff_iff, List.any_eq_true,
      List.contains_iff_mem, List.mem_map]
    simp only [Bool.and_eq_true, decide_eq_true_eq]
    constructor
    · rintro ⟨route, hroute, hcidr, hnext⟩
      exact ⟨route, hroute, Prod.ext hcidr hnext⟩
    · rintro ⟨route, hroute, heq⟩
      exact ⟨route, hroute, congrArg Prod.fst heq, congrArg Prod.snd heq⟩
  unfold LogicalRouter.setRoutes
  rw [(gives_getRoutes hc hrouter).ends_bind]
  dsimp only
  rw [hmissing, hobsolete]
  rfl

end Runs

/-! ## The result -/

section Result

variable {w : Worker} {s t : World} {db : Database} {router : Row} {wanted : List Route}
  {us rest : List String}

theorem inserted_routeOperations {p : String} {missing : List Route} {removed : List String}
    (hfew : missing.length ≤ 255) :
    ((routeOperations p missing removed).filter fun op => op.inserted.isSome).length =
      missing.length := by
  unfold routeOperations
  rw [addRoutes_zero hfew, List.filter_append, List.length_append, List.filter_map, List.length_map]
  have hall : missing.zipIdx.filter ((fun op : Operation => op.inserted.isSome) ∘ fun e =>
      .insert typeLogicalRouterStaticRoute (routeColumns Ref e.1) (some (routeId e.2))) =
      missing.zipIdx := List.filter_eq_self.mpr fun _ _ => rfl
  rw [hall, List.length_zipIdx]
  rfl

/-- The database after `set_routes`, when the new routes have the given uuids. -/
def afterRoutes (db : Database) (router : Row) (wanted : List Route) (us : List String) : Database :=
  (withRoutes db router.uuid us (lacking db router.uuid wanted)
    (obsoleteRoutes db router wanted)).sweep northbound

theorem ends_setRoutes (hc : Consistent northbound s.northbound)
    (hrouter : router ∈ s.northbound typeLogicalRouter)
    (hfew : (lacking s.northbound router.uuid wanted).length ≤ 255) {o : Outcome Error Unit} :
    (LogicalRouter.setRoutes (OvnRow.ofRow router) wanted).Ends (Supplied w) s o t ↔
      ∃ us rest, us.length = (lacking s.northbound router.uuid wanted).length ∧ (us ++ rest).Nodup ∧
        s.northbound.unused northbound (us ++ rest) = true ∧ o = .ok () ∧
        t = s.setNorthbound (afterRoutes s.northbound router wanted us) := by
  have hp : router.uuid ∈ (s.northbound typeLogicalRouter).map Row.uuid := List.mem_map_of_mem hrouter
  have hgoes : ∀ us rest : List String, us.length = (lacking s.northbound router.uuid wanted).length →
      (us ++ rest).Nodup → s.northbound.unused northbound (us ++ rest) = true →
      ∃ answers, s.northbound.transact northbound (us ++ rest) (routeOperations router.uuid
        (lacking s.northbound router.uuid wanted) (obsoleteRoutes s.northbound router wanted)) =
        some (answers, afterRoutes s.northbound router wanted us) := fun us rest hlen hn hu =>
    (transact_routeOperations hc hp hfew hlen hn hu).imp fun _ h => h.1
  have hends : ∀ {o : Outcome Error (List Json)} {t : World}, (transact (routeOperations router.uuid
      (lacking s.northbound router.uuid wanted) (obsoleteRoutes s.northbound router wanted))).Ends
        (Supplied w) s o t ↔ ∃ us rest, us.length = (lacking s.northbound router.uuid wanted).length ∧
          (us ++ rest).Nodup ∧ s.northbound.unused northbound (us ++ rest) = true ∧
          (∃ answers, o = .ok answers ∧ s.northbound.transact northbound (us ++ rest)
            (routeOperations router.uuid (lacking s.northbound router.uuid wanted)
              (obsoleteRoutes s.northbound router wanted)) =
            some (answers, afterRoutes s.northbound router wanted us)) ∧
          t = s.setNorthbound (afterRoutes s.northbound router wanted us) := by
    intro o t
    rw [ends_transact_iff]
    constructor
    · rintro ⟨fresh, hsupply, h⟩
      have henough := hsupply.enough
      rw [inserted_routeOperations hfew] at henough
      obtain ⟨us, rest, rfl, hlen⟩ : ∃ us rest, fresh = us ++ rest ∧
          us.length = (lacking s.northbound router.uuid wanted).length :=
        ⟨_, _, (List.take_append_drop _ _).symm, List.length_take_of_le henough⟩
      obtain ⟨answers, htr⟩ := hgoes us rest hlen hsupply.nodup hsupply.unused
      rw [htr] at h
      exact ⟨us, rest, hlen, hsupply.nodup, hsupply.unused, ⟨answers, h.1, htr⟩, h.2⟩
    · rintro ⟨us, rest, hlen, hn, hu, ⟨answers, ho, htr⟩, ht⟩
      refine ⟨us ++ rest, ⟨hn, hu, ?_⟩, ?_⟩
      · rw [inserted_routeOperations hfew, ← hlen, List.length_append]
        exact Nat.le_add_right _ _
      · rw [htr]
        exact ⟨ho, ht⟩
  rw [ends_setRoutes_iff hc hrouter, Program.ends_bind]
  constructor
  · rintro (⟨answers, s₁, hans, hret⟩ | ⟨e, he, -⟩ | ⟨m, hm, -⟩)
    · obtain ⟨us, rest, hlen, hn, hu, -, rfl⟩ := hends.mp hans
      exact ⟨us, rest, hlen, hn, hu, hret.1, hret.2⟩
    · obtain ⟨us, rest, -, -, -, ⟨answers, ho, -⟩, -⟩ := hends.mp he
      cases ho
    · obtain ⟨us, rest, -, -, -, ⟨answers, ho, -⟩, -⟩ := hends.mp hm
      cases ho
  · rintro ⟨us, rest, hlen, hn, hu, rfl, rfl⟩
    obtain ⟨answers, htr⟩ := hgoes us rest hlen hn hu
    exact .inl ⟨answers, _, hends.mpr ⟨us, rest, hlen, hn, hu, ⟨answers, rfl, htr⟩, rfl⟩, rfl, rfl⟩

/-- The new routes have uuids that no row had. -/
theorem fresh_of_unused (hn : (us ++ rest).Nodup) (hu : db.unused northbound (us ++ rest) = true) :
    ∀ u ∈ us, Fresh db u := fun u hin T hT =>
  (Ovsdb.unused_of_check hn hu).unused T hT u (List.mem_append_left _ hin)

theorem mem_obsoleteRoutes (hc : Consistent northbound db) (hrouter : router ∈ db typeLogicalRouter)
    {r : Row} (hr : r ∈ routesOf db router.uuid) :
    r.uuid ∈ obsoleteRoutes db router wanted ↔ hop r ∉ wanted.map Route.hop := by
  unfold obsoleteRoutes
  rw [List.mem_map]
  simp only [List.mem_filter, Bool.not_eq_true', List.contains_eq_mem, decide_eq_false_iff_not]
  constructor
  · rintro ⟨r', ⟨hr', hnot⟩, hu⟩
    have hmem := (mem_routesOf.mp ((mem_referredRoutes hc hrouter).mp hr')).1
    obtain rfl := List.inj_on_of_nodup_map (hc.conforms.unique _) hmem (mem_routesOf.mp hr).1 hu
    exact hnot
  · exact fun hnot => ⟨r, ⟨(mem_referredRoutes hc hrouter).mpr hr, hnot⟩, rfl⟩

theorem not_mem_obsoleteRoutes (hc : Consistent northbound db)
    (hrouter : router ∈ db typeLogicalRouter) (hfresh : ∀ u ∈ us, Fresh db u) :
    ∀ u ∈ us, u ∉ obsoleteRoutes db router wanted := by
  intro u hu hin
  obtain ⟨r, hr, rfl⟩ := List.mem_map.mp hin
  have hr := (mem_referredRoutes hc hrouter).mp (List.mem_filter.mp hr).1
  exact hfresh _ hu _ stores_routes (List.mem_map_of_mem (mem_routesOf.mp hr).1)

/-- The routes of the router afterwards. -/
theorem mem_routesOf_afterRoutes (hc : Consistent northbound db)
    (hrouter : router ∈ db typeLogicalRouter)
    (hlen : us.length = (lacking db router.uuid wanted).length) (hfresh : ∀ u ∈ us, Fresh db u)
    {r : Row} : r ∈ routesOf (afterRoutes db router wanted us) router.uuid ↔
      (r ∈ routesOf db router.uuid ∧ hop r ∈ wanted.map Route.hop) ∨
        r ∈ routeRows us (lacking db router.uuid wanted) := by
  unfold afterRoutes
  rw [mem_routesOf_sweep, mem_routesOf_self hc (List.mem_map_of_mem hrouter) hlen hfresh
    (not_mem_obsoleteRoutes hc hrouter hfresh)]
  refine or_congr_left (and_congr_right fun hr => ?_)
  rw [mem_obsoleteRoutes hc hrouter hr, not_not]

theorem converged_afterRoutes (hc : Consistent northbound db)
    (hrouter : router ∈ db typeLogicalRouter)
    (hlen : us.length = (lacking db router.uuid wanted).length) (hfresh : ∀ u ∈ us, Fresh db u) :
    Converged db (afterRoutes db router wanted us) router.uuid wanted := by
  refine ⟨fun pair => ⟨fun h => ?_, fun h => ?_⟩, fun r hr hw => ?_, fun q hq r => ?_⟩
  · obtain ⟨r, hr, rfl⟩ := List.mem_map.mp h
    rcases (mem_routesOf_afterRoutes hc hrouter hlen hfresh).mp hr with ⟨-, hw⟩ | hnew
    · exact hw
    · obtain ⟨route, hroute, heq⟩ := List.mem_map.mp
        ((mem_hop_routeRows hlen (hop r)).mp (List.mem_map_of_mem hnew))
      exact List.mem_map.mpr ⟨route, (List.mem_filter.mp hroute).1, heq⟩
  · by_cases hold : pair ∈ (routesOf db router.uuid).map hop
    · obtain ⟨r, hr, rfl⟩ := List.mem_map.mp hold
      exact List.mem_map_of_mem
        ((mem_routesOf_afterRoutes hc hrouter hlen hfresh).mpr (.inl ⟨hr, h⟩))
    · obtain ⟨route, hroute, rfl⟩ := List.mem_map.mp h
      have hlacking : route ∈ lacking db router.uuid wanted := by
        refine List.mem_filter.mpr ⟨hroute, ?_⟩
        rw [Bool.not_eq_true', List.contains_eq_mem, decide_eq_false_iff_not]
        exact hold
      obtain ⟨r, hr, heq⟩ := List.mem_map.mp
        ((mem_hop_routeRows hlen route.hop).mpr (List.mem_map_of_mem hlacking))
      exact List.mem_map.mpr
        ⟨r, (mem_routesOf_afterRoutes hc hrouter hlen hfresh).mpr (.inr hr), heq⟩
  · exact (mem_routesOf_afterRoutes hc hrouter hlen hfresh).mpr (.inl ⟨hr, hw⟩)
  · unfold afterRoutes
    rw [mem_routesOf_sweep, mem_routesOf_other hc hlen hfresh hq]

/-- The row of the router afterwards. -/
def afterRouter (db : Database) (router : Row) (wanted : List Route) (us : List String) : Row :=
  rerouted us (obsoleteRoutes db router wanted) router

theorem afterRoutes_routers : afterRoutes db router wanted us typeLogicalRouter =
    (db typeLogicalRouter).map fun r => if r.uuid = router.uuid then
      rerouted us (obsoleteRoutes db router wanted) r else r := by
  unfold afterRoutes
  rw [Ovsdb.sweep_root rfl, withRoutes_routers]

theorem mem_afterRouter (hrouter : router ∈ db typeLogicalRouter) :
    afterRouter db router wanted us ∈ afterRoutes db router wanted us typeLogicalRouter := by
  rw [afterRoutes_routers]
  refine List.mem_map.mpr ⟨router, hrouter, ?_⟩
  rw [if_pos rfl]
  rfl

/-- The router is found by its name as before. -/
theorem named_afterRoutes {name : String}
    (hn : named db typeLogicalRouter name = some router) :
    named (afterRoutes db router wanted us) typeLogicalRouter name =
      some (afterRouter db router wanted us) := by
  have hname : ∀ r : Row, rowText (if r.uuid = router.uuid then
      rerouted us (obsoleteRoutes db router wanted) r else r) "name" = rowText r "name" := by
    intro r
    split
    · unfold rowText
      rw [get_rerouted_of_ne (by decide)]
    · rfl
  unfold named firstWith at hn ⊢
  rw [afterRoutes_routers, List.find?_map]
  simp only [Function.comp_def, hname]
  rw [hn, Option.map_some, if_pos rfl]
  rfl

/-- When the router has the wanted routes and no others, nothing is written. -/
theorem afterRoutes_eq_self (hc : Consistent northbound db) (hrouter : router ∈ db typeLogicalRouter)
    (hrefs : router.HoldsRefs "static_routes") (hnew : lacking db router.uuid wanted = [])
    (hold : obsoleteRoutes db router wanted = []) : afterRoutes db router wanted [] = db := by
  have hwith : withRoutes db router.uuid [] [] [] = db := by
    funext T
    by_cases hT : T = typeLogicalRouter
    · subst hT
      rw [withRoutes_routers]
      refine (List.map_congr_left fun r hr => ?_).trans (List.map_id _)
      split
      · next hu =>
        obtain rfl := List.inj_on_of_nodup_map (hc.conforms.unique _) hr hrouter hu
        unfold rerouted
        rw [Ovsdb.addRefs_nil hrefs, Ovsdb.dropRefs_nil hrefs]
        rfl
      · rfl
    · by_cases hT' : T = typeLogicalRouterStaticRoute
      · subst hT'
        rw [withRoutes_routes]
        exact List.append_nil _
      · exact withRoutes_other hT hT'
  unfold afterRoutes
  rw [hnew, hold, hwith, hc.swept]

theorem gives_setRoutes_self (hc : Consistent northbound s.northbound)
    (hrouter : router ∈ s.northbound typeLogicalRouter) (hrefs : router.HoldsRefs "static_routes")
    (hnew : lacking s.northbound router.uuid wanted = [])
    (hold : obsoleteRoutes s.northbound router wanted = []) :
    Gives w s (LogicalRouter.setRoutes (OvnRow.ofRow router) wanted) () := by
  have hself := afterRoutes_eq_self hc hrouter hrefs hnew hold
  intro o t
  rw [ends_setRoutes hc hrouter (by rw [hnew]; exact Nat.zero_le _), hnew]
  constructor
  · rintro ⟨us, rest, hlen, -, -, ho, rfl⟩
    obtain rfl := List.length_eq_zero_iff.mp hlen
    rw [hself]
    exact ⟨ho, rfl⟩
  · rintro ⟨ho, rfl⟩
    refine ⟨[], [], rfl, List.nodup_nil, List.all_eq_true.mpr fun _ _ => rfl, ho, ?_⟩
    rw [hself]
    rfl

/-- There are enough uuids that are not in use. -/
theorem exists_unused (db : Database) (n : Nat) :
    ∃ us : List String, us.length = n ∧ us.Nodup ∧ db.unused northbound us = true := by
  have hused : Set.Infinite {u : String | ∀ ref ∈ northbound.references,
      u ∉ (db ref.table).map Row.uuid ∧ u ∉ (db ref.target).map Row.uuid} := by
    refine ((northbound.references.flatMap fun ref : Ovsdb.Reference =>
      (db ref.table).map Row.uuid ++ (db ref.target).map Row.uuid).toFinset.finite_toSet.infinite_compl).mono ?_
    intro u hu ref href
    rw [Set.mem_compl_iff, Finset.mem_coe, List.mem_toFinset, List.mem_flatMap] at hu
    refine ⟨fun h => hu ⟨ref, href, List.mem_append_left _ h⟩,
      fun h => hu ⟨ref, href, List.mem_append_right _ h⟩⟩
  obtain ⟨us, hus, hcard⟩ := hused.exists_subset_card_eq n
  refine ⟨us.toList, by rw [Finset.length_toList, hcard], us.nodup_toList, ?_⟩
  unfold Database.unused
  simp only [List.all_eq_true, Bool.and_eq_true, Option.isNone_iff_eq_none, Database.find?_eq_none]
  exact fun ref href u hu => hus (Finset.mem_toList.mp hu) ref href

/-- What has been set needs not be set again. -/
theorem gives_setRoutes_again (hc : Consistent northbound db) (hc' : Consistent northbound t.northbound)
    (hrouter : router ∈ db typeLogicalRouter)
    (hlen : us.length = (lacking db router.uuid wanted).length) (hfresh : ∀ u ∈ us, Fresh db u)
    (ht : t.northbound = afterRoutes db router wanted us) :
    Gives w t (LogicalRouter.setRoutes (OvnRow.ofRow (afterRouter db router wanted us)) wanted) () := by
  have hconv := converged_afterRoutes hc hrouter hlen hfresh
  have hmem : afterRouter db router wanted us ∈ t.northbound typeLogicalRouter := by
    rw [ht]
    exact mem_afterRouter hrouter
  rw [← ht] at hconv
  refine gives_setRoutes_self hc' hmem (Ovsdb.holdsRefs_modify fun d => ⟨_, rfl⟩) ?_ ?_
  · refine List.filter_eq_nil_iff.mpr fun route hroute hnot => ?_
    rw [Bool.not_eq_true', List.contains_eq_mem, decide_eq_false_iff_not] at hnot
    exact hnot ((hconv.hops _).mpr (List.mem_map_of_mem hroute))
  · refine List.eq_nil_iff_forall_not_mem.mpr fun u hu => ?_
    obtain ⟨r, hr, rfl⟩ := List.mem_map.mp hu
    have hr := (mem_referredRoutes hc' hmem).mp (List.mem_filter.mp hr).1
    exact (mem_obsoleteRoutes hc' hmem hr).mp hu ((hconv.hops _).mp (List.mem_map_of_mem hr))

/-- `set_routes` returns, and afterwards the router has the wanted routes. When the router is read
again and the same routes are set, nothing changes. A database that the server has made is
consistent, so that the references of its routers resolve. -/
theorem setRoutes_converges (hc : Consistent northbound s.northbound)
    (hrouter : router ∈ s.northbound typeLogicalRouter)
    (hfew : (lacking s.northbound router.uuid wanted).length ≤ 255) :
    (∃ t, (LogicalRouter.setRoutes (OvnRow.ofRow router) wanted).Ends (Supplied w) s (.ok ()) t) ∧
      ∀ o t, (LogicalRouter.setRoutes (OvnRow.ofRow router) wanted).Ends (Supplied w) s o t →
        o = .ok () ∧ Converged s.northbound t.northbound router.uuid wanted ∧
          ∀ name, named s.northbound typeLogicalRouter name = some router → ∀ w',
            Gives w' t (getByName LogicalRouter name >>= fun current => current.setRoutes wanted) () := by
  constructor
  · obtain ⟨us, hlen, hn, hu⟩ :=
      exists_unused s.northbound (lacking s.northbound router.uuid wanted).length
    refine ⟨_, (ends_setRoutes hc hrouter hfew).mpr ⟨us, [], hlen, ?_, ?_, rfl, rfl⟩⟩
    · rwa [List.append_nil]
    · rwa [List.append_nil]
  · intro o t h
    obtain ⟨us, rest, hlen, hn, hu, rfl, rfl⟩ := (ends_setRoutes hc hrouter hfew).mp h
    have hfresh := fresh_of_unused hn hu
    have hc' : Consistent northbound (afterRoutes s.northbound router wanted us) :=
      (transact_routeOperations hc (List.mem_map_of_mem hrouter) hfew hlen hn hu).choose_spec.2
    refine ⟨rfl, converged_afterRoutes hc hrouter hlen hfresh, fun name hname w' => ?_⟩
    have hread : Gives w' (s.setNorthbound (afterRoutes s.northbound router wanted us))
        (getByName LogicalRouter name) (OvnRow.ofRow (afterRouter s.northbound router wanted us)) :=
      gives_getByName LogicalRouter hc' (named_afterRoutes hname)
    exact hread.bind (gives_setRoutes_again hc hc' hrouter hlen hfresh rfl)

end Result

/-! ### A route replaced -/

/-- Make a router with a route to be kept and a route to be replaced. -/
def edgeOperations : List Operation :=
  (LogicalRouter.addRoutes [⟨"10.0.0.0/8", "192.0.2.1"⟩, ⟨"0.0.0.0/0", "192.0.2.1"⟩] 0).1 ++
    [.insert typeLogicalRouter [("name", .strings ["default-edge"]),
      ("static_routes", .refs [.named "new_route_0", .named "new_route_1"])] none]

def edgeDatabase : Database :=
  ((Database.transact northbound (fun _ => []) ["r0", "r1", "lr"] edgeOperations).map Prod.snd).getD
    fun _ => []

def edgeRouter : Row := ⟨"lr", [("name", .strings ["default-edge"]), ("ports", .refs []),
  ("static_routes", .refs ["r0", "r1"])]⟩

/-- The default route is to go elsewhere. -/
def edgeRoutes : List Route := [⟨"0.0.0.0/0", "192.0.2.254"⟩, ⟨"10.0.0.0/8", "192.0.2.1"⟩]

theorem consistent_edgeDatabase : Consistent northbound edgeDatabase := by
  have hsome : (Database.transact northbound (fun _ => []) ["r0", "r1", "lr"]
      edgeOperations).isSome = true := by decide +kernel
  have hname : FitColumns (northboundColumns typeLogicalRouter)
      [("name", (.strings ["default-edge"] : Datum Ref))] :=
    fit_one _ (d := .strings [""]) (by decide) fun _ => rfl
  have hroutes : FitColumns (northboundColumns typeLogicalRouter)
      [("static_routes", .refs [Ref.named "new_route_0", Ref.named "new_route_1"])] :=
    fit_one _ (d := .refs []) (by decide) trivial
  obtain ⟨p, hp⟩ := Option.isSome_iff_exists.mp hsome
  obtain ⟨mid, htr⟩ := transacted hp
  have hcons := htr.consistent flat_northbound Ovsdb.consistent_empty fun op hop => by
    rcases List.mem_append.mp hop with hop | hop
    · exact (addRoutes_insert _ 0 op hop).2
    · rw [List.mem_singleton.mp hop]
      exact ⟨⟨routeReference, mem_routeReference, .inl rfl⟩, hname.cons hroutes⟩
  unfold edgeDatabase
  rw [hp]
  exact hcons

theorem setRoutes_converges_edge : ∃ t : World,
    (LogicalRouter.setRoutes (OvnRow.ofRow edgeRouter) edgeRoutes).Ends
      (Supplied (.router ⟨"default", "edge"⟩)) (World.initial.setNorthbound edgeDatabase) (.ok ()) t ∧
      Converged edgeDatabase t.northbound "lr" edgeRoutes := by
  have h : (∃ t, _) ∧ _ := setRoutes_converges (w := .router ⟨"default", "edge"⟩)
    (s := World.initial.setNorthbound edgeDatabase) consistent_edgeDatabase
    (show edgeRouter ∈ edgeDatabase typeLogicalRouter by decide +kernel)
    (show (lacking edgeDatabase "lr" edgeRoutes).length ≤ 255 by decide +kernel)
  obtain ⟨t, ht⟩ := h.1
  exact ⟨t, ht, (h.2 _ _ ht).2.1⟩

end ClusterController
