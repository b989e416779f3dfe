import ClusterController.Routes

/-!
# The names of new routes

`set_routes` numbers the routes that it inserts with a counter of eight bits. For which lists of
routes its transaction has a name of its own for every insert.
-/

namespace ClusterController

open Ovsdb (Operation Ref)
open Interaction (Program)

/-! ## Transactions with named inserts -/

/-- The name of an insert. -/
def uuidName : Operation → Option String
  | .insert _ _ name => name
  | _ => none

/-- The references that the mutations of an operation insert. -/
def insertedRefs : Operation → List Ref
  | .mutate _ _ mutations => (mutations.filter (·.insert)).flatMap (·.refs)
  | _ => []

/-- All inserts have names, no two the same, and each name is inserted once by the mutations. -/
structure WellNamed (operations : List Operation) : Prop where
  named : ∀ op ∈ operations, op.inserted.isSome = true → (uuidName op).isSome = true
  distinct : (operations.filterMap uuidName).Nodup
  once : ∀ name ∈ operations.filterMap uuidName,
    (operations.flatMap insertedRefs).count (.named name) = 1

/-! ## The counter -/

/-- No addition of the loop over the routes leaves the type of the counter. -/
def CounterFits : List Route → UInt8 → Prop
  | [], _ => True
  | _ :: routes, i => (i + 1).toNat = i.toNat + 1 ∧ CounterFits routes (i + 1)

theorem toNat_succ (i : UInt8) : (i + 1).toNat = (i.toNat + 1) % 256 := by
  rw [UInt8.toNat_add]
  rfl

theorem counterFits_iff (routes : List Route) (i : UInt8) :
    CounterFits routes i ↔ i.toNat + routes.length ≤ 255 := by
  induction routes generalizing i with
  | nil =>
    have hi := i.toNat_lt
    simp only [CounterFits, List.length_nil, true_iff]
    omega
  | cons route routes ih =>
    have hi := i.toNat_lt
    unfold CounterFits
    rw [ih, List.length_cons, toNat_succ]
    omega

/-- The names that the counter gives to a number of inserts. -/
def routeNames (n : Nat) (i : UInt8) : List String :=
  (List.range n).map fun k => routeId ((i.toNat + k) % 256)

theorem routeNames_succ (n : Nat) (i : UInt8) :
    routeNames (n + 1) i = routeId i.toNat :: routeNames n (i + 1) := by
  have hi : i.toNat < 256 := i.toNat_lt
  unfold routeNames
  rw [List.range_succ_eq_map, List.map_cons, List.map_map, Nat.add_zero, Nat.mod_eq_of_lt hi]
  refine congrArg _ (List.map_congr_left fun k _ => congrArg routeId ?_)
  rw [toNat_succ]
  omega

/-- The first 256 names are distinct, and then they come again. -/
theorem nodup_routeNames (n : Nat) : (routeNames n 0).Nodup ↔ n ≤ 256 := by
  unfold routeNames
  rw [List.nodup_map_iff_inj_on List.nodup_range]
  constructor
  · intro h
    by_contra hn
    have hsame := h 0 (List.mem_range.mpr (by omega)) 256 (List.mem_range.mpr (by omega)) rfl
    omega
  · intro hn k hk l hl hkl
    have hmod := routeId_injective hkl
    have hk := List.mem_range.mp hk
    have hl := List.mem_range.mp hl
    have hzero : (0 : UInt8).toNat = 0 := rfl
    omega

theorem names_addRoutes (routes : List Route) (i : UInt8) :
    (LogicalRouter.addRoutes routes i).1.filterMap uuidName = routeNames routes.length i := by
  induction routes generalizing i with
  | nil => rfl
  | cons route routes ih =>
    rw [List.length_cons, routeNames_succ, ← ih (i + 1)]
    rfl

theorem refs_addRoutes (routes : List Route) (i : UInt8) :
    (LogicalRouter.addRoutes routes i).2 = (routeNames routes.length i).map Ref.named := by
  induction routes generalizing i with
  | nil => rfl
  | cons route routes ih =>
    rw [List.length_cons, routeNames_succ, List.map_cons, ← ih (i + 1)]
    rfl

/-- Every operation of `addRoutes` is a named insert. -/
theorem named_addRoutes (routes : List Route) (i : UInt8) :
    ∀ op ∈ (LogicalRouter.addRoutes routes i).1,
      (uuidName op).isSome = true ∧ insertedRefs op = [] := by
  induction routes generalizing i with
  | nil =>
    intro op hop
    cases hop
  | cons route routes ih =>
    intro op hop
    rcases List.mem_cons.mp hop with rfl | hop
    · exact ⟨rfl, rfl⟩
    · exact ih (i + 1) op hop

/-! ## The transaction of `set_routes` -/

section Transaction

variable {p : String} {missing : List Route} {removed : List String}

theorem names_routeOperations_all :
    (routeOperations p missing removed).filterMap uuidName = routeNames missing.length 0 := by
  unfold routeOperations
  rw [List.filterMap_append, names_addRoutes]
  exact List.append_nil _

theorem refs_routeOperations :
    (routeOperations p missing removed).flatMap insertedRefs =
      (routeNames missing.length 0).map Ref.named := by
  have hnone : (LogicalRouter.addRoutes missing 0).1.flatMap insertedRefs = [] :=
    List.flatMap_eq_nil_iff.mpr fun op hop => (named_addRoutes missing 0 op hop).2
  unfold routeOperations
  rw [List.flatMap_append, hnone, List.nil_append, refs_addRoutes]
  simp [insertedRefs]

theorem wellNamed_iff : WellNamed (routeOperations p missing removed) ↔ missing.length ≤ 256 := by
  constructor
  · intro h
    have hdistinct := h.distinct
    rw [names_routeOperations_all] at hdistinct
    exact (nodup_routeNames missing.length).mp hdistinct
  · intro hlen
    have hnodup := (nodup_routeNames missing.length).mpr hlen
    refine ⟨?_, names_routeOperations_all ▸ hnodup, ?_⟩
    · intro op hop hinsert
      rcases List.mem_append.mp hop with hop | hop
      · exact (named_addRoutes missing 0 op hop).1
      · rw [List.mem_singleton.mp hop] at hinsert
        cases hinsert
    · intro name hname
      rw [names_routeOperations_all] at hname
      rw [refs_routeOperations, List.count_map_of_injective _ _ fun a b h => Ref.named.inj h]
      exact List.count_eq_one_of_mem hnodup hname

end Transaction

/-- The wanted routes that are not among the old ones, in their order and as often as they are
wanted. -/
def missingRoutes (oldRoutes : List StaticRoute) (newRoutes : List Route) : List Route :=
  newRoutes.filter fun newRoute => !oldRoutes.any fun oldRoute =>
    oldRoute.ipPrefix = newRoute.cidr && oldRoute.nexthop = newRoute.nexthop

/-- The uuids of the old routes that are not wanted. -/
def obsoleteUuids (oldRoutes : List StaticRoute) (newRoutes : List Route) : List String :=
  (oldRoutes.filter fun oldRoute => !newRoutes.any fun newRoute =>
    newRoute.cidr = oldRoute.ipPrefix && newRoute.nexthop = oldRoute.nexthop).map StaticRoute.uuid

/-- After the lookup of the old routes `set_routes` makes one transaction. Its inserts are well named
and the counter does not overflow exactly where at most 255 wanted routes are missing. -/
theorem setRoutes_wellNamed_iff (lr : LogicalRouter) (newRoutes : List Route) :
    (lr.setRoutes newRoutes = do
      let oldRoutes ← lr.getRoutes
      let _ ← transact (routeOperations lr.uuid (missingRoutes oldRoutes newRoutes)
        (obsoleteUuids oldRoutes newRoutes))) ∧
    ∀ oldRoutes, (WellNamed (routeOperations lr.uuid (missingRoutes oldRoutes newRoutes)
          (obsoleteUuids oldRoutes newRoutes)) ∧
        CounterFits (missingRoutes oldRoutes newRoutes) 0) ↔
      (missingRoutes oldRoutes newRoutes).length ≤ 255 := by
  constructor
  · unfold LogicalRouter.setRoutes routeOperations obsoleteUuids
    simp only [List.map_map]
    rfl
  · intro oldRoutes
    rw [wellNamed_iff, counterFits_iff]
    have hzero : (0 : UInt8).toNat = 0 := rfl
    omega

/-- Wanted routes to as many networks of a router without routes. -/
def manyRoutes (n : Nat) : List Route :=
  (List.range n).map fun k =>
    ⟨"10." ++ toString (k / 256) ++ "." ++ toString (k % 256) ++ ".0/24", "192.0.2.1"⟩

/-- The 257th insert has the name of the first. -/
theorem routes_named_twice : ¬WellNamed (routeOperations "lr" (missingRoutes [] (manyRoutes 257))
    (obsoleteUuids [] (manyRoutes 257))) := by
  have hall : missingRoutes [] (manyRoutes 257) = manyRoutes 257 :=
    List.filter_eq_self.mpr fun _ _ => rfl
  have hlen : (manyRoutes 257).length = 257 := by
    unfold manyRoutes
    rw [List.length_map, List.length_range]
  rw [wellNamed_iff, hall, hlen]
  decide

end ClusterController
