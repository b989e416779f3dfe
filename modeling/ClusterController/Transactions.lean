import ClusterController.Northbound

/-!
# What the transactions of the code do

The operations of `interfaces::ovn` one by one: what each leaves in a consistent database.
Rows of ports and routes go when nothing refers to them any more, and new rows have uuids
that no row has had so far.
-/

namespace ClusterController

open ApiServer (StringMap)
open Interaction (Program)
open Interaction.Program (Outcome After)
open Ovsdb (Json Datum Row Columns Database Conforms Consistent Typed Operation Mutation Ref
  Transacted transacted FitColumns addRefs dropRefs modifyRow_eq_map)

/-! ## Weak references -/

/-- The reference of a switch port to its DHCP options is to a row that exists. -/
def Linked (db : Database) (r : Row) : Prop :=
  r.modify "dhcpv4_options" (Datum.keep fun u => (db.find? typeDhcpOptions u).isSome) = r

section Linked

variable {db mid : Database} {r : Row} {T : String}

theorem forget_eq_of_linked (h : ∀ r ∈ db typeLogicalSwitchPort, Linked db r) :
    db.forget northbound = db := by
  refine Ovsdb.forget_eq_self fun T r hr => ?_
  rw [forgetRow_northbound]
  split
  · next hT => exact h r (hT ▸ hr)
  · rfl

theorem linked_of_consistent (hc : Consistent northbound db) (hr : r ∈ db typeLogicalSwitchPort) :
    Linked db r := by
  have h := hc.forgetRow_eq hr
  rwa [forgetRow_northbound, if_pos rfl] at h

theorem Datum.keep_mono {p q : String → Bool} {d : Datum String} (h : ∀ u, p u = true → q u = true)
    (hd : d.keep p = d) : d.keep q = d := by
  cases d with
  | refs l =>
    have hl := List.filter_eq_self.mp (Datum.refs.inj hd)
    exact congrArg Datum.refs (List.filter_eq_self.mpr fun u hu => h u (hl u hu))
  | strings l => rfl
  | map m => rfl

theorem Linked.mono (h : Linked db r)
    (hsub : ∀ u ∈ (db typeDhcpOptions).map Row.uuid, u ∈ (mid typeDhcpOptions).map Row.uuid) :
    Linked mid r := by
  unfold Linked at h ⊢
  rw [Row.modify_eq_self] at h ⊢
  intro e he hc
  refine Datum.keep_mono (fun u hu => ?_) (h e he hc)
  rw [Ovsdb.isSome_find?] at hu ⊢
  exact hsub u hu

theorem Linked.modify {c : String} {f : Datum String → Datum String} (h : Linked db r)
    (hc : c ≠ "dhcpv4_options") : Linked db (r.modify c f) := by
  unfold Linked at h ⊢
  rw [Row.modify_eq_self] at h ⊢
  intro e he hd
  obtain ⟨e₀, he₀, rfl⟩ := List.mem_map.mp he
  by_cases hc' : e₀.1 = c
  · rw [if_pos hc'] at hd
    exact absurd (hc'.symm.trans hd) hc
  · rw [if_neg hc'] at hd ⊢
    exact h e₀ he₀ hd

theorem Linked.write {row : Columns String} (h : Linked db r)
    (hc : ∀ e ∈ row, e.1 ≠ "dhcpv4_options") : Linked db (r.write row) := by
  induction row generalizing r with
  | nil => exact h
  | cons e es ih =>
    exact ih (h.modify (hc e List.mem_cons_self)) fun e' he => hc e' (List.mem_cons_of_mem _ he)

end Linked

/-! ## Transactions that add -/

/-- A new row. -/
def newRow (T u : String) (row : Columns String) : Row := Row.write ⟨u, northboundColumns T⟩ row

@[simp] theorem uuid_newRow (T u : String) (row : Columns String) : (newRow T u row).uuid = u :=
  Row.uuid_write

/-- The uuid is not in use in any table that the schema stores. -/
def Fresh (db : Database) (u : String) : Prop :=
  ∀ T, northbound.Stores T → u ∉ (db T).map Row.uuid

/-- The table and the column hold strong references. -/
def Binds (T c : String) : Prop :=
  ∃ ref ∈ northbound.references, ref.strong = true ∧ ref.table = T ∧ ref.column = c

section Add

variable {db db' mid : Database} {fresh : List String} {operations : List Operation}
  {answers : List Json} {T P p c u n : String} {row : Columns Ref} {row' : Columns String}

theorem names_insert_first {operation : Operation} {us : List String} (hop : operation.inserted = none) :
    Database.names [.insert T row (some n), operation] (u :: us) = [(n, u)] := by
  unfold Database.names
  simp only [Operation.inserted]
  unfold Database.names
  simp [hop, Database.names]

/-- Insert a row of a root table. -/
theorem transact_insert (hT : northbound.isRoot T = true) (hst : northbound.Stores T)
    (hrow : ∀ find, Operation.resolveColumns find row = some row')
    (hfit : FitColumns (northboundColumns T) row) (hc : Consistent northbound db)
    {name : Option String}
    (h : db.transact northbound fresh [.insert T row name] = some (answers, db')) :
    Consistent northbound db' ∧
      ∃ u, Fresh db u ∧ db' = db.modify T fun rows => rows ++ [newRow T u row'] := by
  obtain ⟨mid, htr⟩ := transacted h
  have hcons := htr.consistent flat_northbound hc fun op hop => by
    rw [List.mem_singleton.mp hop]
    exact ⟨hst, hfit⟩
  obtain ⟨a, fresh', hrun⟩ := Ovsdb.runAll_one htr.run
  obtain ⟨u, rfl, rfl⟩ := Ovsdb.run_insert (hrow _) hrun
  have hother : ∀ {T'}, T' ≠ T → (db.modify T fun rows => rows ++ [newRow T u row']) T' = db T' :=
    fun h => Database.modify_of_ne h
  refine ⟨hcons, u, fun T' hT' => htr.unused.unused T' hT' u List.mem_cons_self, ?_⟩
  refine htr.settled ?_ (forget_eq_of_linked fun r hr => ?_)
  · refine Ovsdb.sweep_of_adds (m := fun _ r => r)
      (e := fun T' => if T' = T then [newRow T u row'] else []) hc (fun T' => ?_)
      (fun _ _ => rfl) (fun _ _ _ _ _ h => h) fun T' hT' r hr => ?_
    · by_cases h : T' = T
      · subst h
        rw [if_pos rfl, Database.modify_self, List.map_id']
        rfl
      · rw [if_neg h, Database.modify_of_ne h, List.map_id', List.append_nil]
    · rw [if_neg] at hr
      · cases hr
      · rintro rfl
        rw [hT] at hT'
        cases hT'
  · have hne : typeLogicalSwitchPort ≠ T := by
      rintro rfl
      cases hT
    have hr : r ∈ db typeLogicalSwitchPort := hother hne ▸ hr
    refine (linked_of_consistent hc hr).mono fun v hv => ?_
    by_cases h : typeDhcpOptions = T
    · subst h
      rw [Database.modify_self, List.map_append]
      exact List.mem_append_left _ hv
    · rw [Database.modify_of_ne h]
      exact hv

/-- Overwrite columns of a row that hold no strong references. -/
theorem transact_update (hrow : ∀ names, Operation.resolveColumns (Database.lookup names) row = some row')
    (hfit : FitColumns (northboundColumns T) row) (hb : ∀ e ∈ row', ¬Binds T e.1)
    (hc : Consistent northbound db)
    (hl : T = typeLogicalSwitchPort → ∀ r ∈ db T, Linked db (r.write row'))
    (h : db.transact northbound fresh [.update T u row] = some (answers, db')) :
    Consistent northbound db' ∧ db' = db.modifyRow T u fun r => r.write row' := by
  obtain ⟨mid, htr⟩ := transacted h
  have hcons := htr.consistent flat_northbound hc fun op hop => by
    rw [List.mem_singleton.mp hop]
    exact hfit
  obtain ⟨a, fresh', hrun⟩ := Ovsdb.runAll_one htr.run
  obtain rfl := Ovsdb.run_update (hrow _) hrun
  refine ⟨hcons, htr.settled ?_ (forget_eq_of_linked fun r hr => ?_)⟩
  · refine Ovsdb.sweep_of_adds
      (m := fun T' r => if T' = T ∧ r.uuid = u then r.write row' else r) (e := fun _ => []) hc
      (fun T' => ?_) (fun T' r => ?_) (fun ref href hs r v hv => ?_) nofun
    · rw [modifyRow_eq_map, List.append_nil]
    · split
      · exact Row.uuid_write
      · rfl
    · split
      · next hcond =>
        rw [Row.refs_write_of_not_mem]
        · exact hv
        · intro e he hcol
          exact hb e he ⟨ref, href, hs, hcond.1, hcol⟩
      · exact hv
  · rw [modifyRow_eq_map] at hr
    obtain ⟨r₀, hr₀, rfl⟩ := List.mem_map.mp hr
    have huuid : (db.modifyRow T u (fun r => r.write row') typeDhcpOptions).map Row.uuid =
        (db typeDhcpOptions).map Row.uuid := by
      rw [modifyRow_eq_map, List.map_map]
      refine List.map_congr_left fun r _ => ?_
      rw [Function.comp_apply]
      split
      · exact Row.uuid_write
      · rfl
    have hlink : Linked db (if typeLogicalSwitchPort = T ∧ r₀.uuid = u then r₀.write row' else r₀) := by
      split
      · next hcond => exact hl hcond.1.symm r₀ (hcond.1 ▸ hr₀)
      · exact linked_of_consistent hc hr₀
    exact hlink.mono fun v hv => huuid ▸ hv

@[simp] theorem uuid_addRefs {us : List String} (r : Row) : (addRefs c us r).uuid = r.uuid := rfl

/-- No reference is lost. -/
theorem mem_refs_addRefs {us : List String} {r : Row} {c' v : String} (h : v ∈ r.refs c') :
    v ∈ (addRefs c us r).refs c' := by
  unfold Row.refs addRefs at *
  rw [Row.get_modify]
  split
  · cases hg : r.get c' with
    | none =>
      rw [hg] at h
      cases h
    | some d =>
      rw [hg] at h
      exact List.mem_append_left _ h
  · exact h

/-- The row has the references that were added. -/
theorem mem_refs_addRefs_self {us : List String} {r : Row} {d : Datum String} {v : String}
    (hd : r.get c = some d) (hv : v ∈ us) : v ∈ (addRefs c us r).refs c := by
  unfold Row.refs addRefs
  rw [Row.get_modify, if_pos rfl, hd]
  show v ∈ d.uuids ++ _
  by_cases hin : v ∈ d.uuids
  · exact List.mem_append_left _ hin
  · exact List.mem_append_right _ (by simp [hv, hin])

/-- A new row refers to no DHCP options. -/
theorem linked_newRow (hl : ∀ e ∈ row', e.1 ≠ "dhcpv4_options") : Linked mid (newRow T u row') := by
  refine Linked.write ?_ hl
  unfold Linked
  rw [Row.modify_eq_self]
  intro e he hec
  have hdef : ∀ e ∈ northboundColumns T, e.1 = "dhcpv4_options" → e.2 = .refs [] := by
    unfold northboundColumns
    split_ifs <;> decide
  rw [hdef e he hec]
  rfl

/-- Insert a row and a reference to it in one transaction. -/
theorem transact_add (href : ⟨P, c, T, true⟩ ∈ northbound.references)
    (hrow : ∀ find, Operation.resolveColumns find row = some row')
    (hfit : FitColumns (northboundColumns T) row) (hl : ∀ e ∈ row', e.1 ≠ "dhcpv4_options")
    (hT : northbound.isRoot T = false) (hcol : (c, .refs []) ∈ northboundColumns P)
    (hc : Consistent northbound db) (hp : p ∈ (db P).map Row.uuid)
    (h : db.transact northbound fresh
      [.insert T row (some n), .mutate P p [⟨c, true, [.named n]⟩]] = some (answers, db')) :
    Consistent northbound db' ∧ ∃ u, Fresh db u ∧
      db' = (db.modify T fun rows => rows ++ [newRow T u row']).modifyRow P p (addRefs c [u]) := by
  have hP : northbound.isRoot P = true := flat_northbound.strong _ href rfl
  have hPT : P ≠ T := by
    rintro rfl
    rw [hT] at hP
    cases hP
  have hstT : northbound.Stores T := ⟨_, href, .inr rfl⟩
  obtain ⟨mid, htr⟩ := transacted h
  have hcons := htr.consistent flat_northbound hc fun op hop => by
    rcases List.mem_cons.mp hop with rfl | hop
    · exact ⟨hstT, hfit⟩
    · rw [List.mem_singleton.mp hop]
      intro m hm e he hec
      obtain rfl := List.mem_singleton.mp hm
      refine ⟨[], ?_⟩
      have h₁ := Ovsdb.lookup_of_mem (flat_northbound.nodup P) he
      have h₂ := Ovsdb.lookup_of_mem (flat_northbound.nodup P) hcol
      rw [hec] at h₁
      exact Option.some.inj (h₁.symm.trans h₂)
  obtain ⟨a, db₁, fresh₁, as, hrun₁, hrun₂⟩ := Ovsdb.runAll_cons htr.run
  obtain ⟨u, rfl, rfl⟩ := Ovsdb.run_insert (hrow _) hrun₁
  obtain ⟨a', fresh₂, hrun₂⟩ := Ovsdb.runAll_one hrun₂
  have hfresh : Fresh db u := fun T' hT' => htr.unused.unused T' hT' u List.mem_cons_self
  have hunused := htr.unused.nodup
  -- The row has a conforming database before the reference to it is added.
  have hconf : Conforms northbound (db.modify T fun rows => rows ++ [newRow T u row']) :=
    (hc.conforms.run flat_northbound.nodup htr.unused
      (show Operation.Fits northbound (.insert T row (some n)) from ⟨hstT, hfit⟩) hrun₁).1
  have hnames : ∀ r : Row, [(⟨c, true, [.named n]⟩ : Mutation)].foldlM
      (Operation.applyMutation (Database.lookup (Database.names
        [.insert T row (some n), .mutate P p [⟨c, true, [.named n]⟩]] (u :: fresh₁)))) r =
      some (addRefs c [u] r) := by
    intro r
    rw [names_insert_first rfl]
    simp [Operation.applyMutation, Database.lookup, addRefs]
  obtain ⟨-, rfl⟩ := Ovsdb.run_mutate hconf hnames hrun₂
  refine ⟨hcons, u, hfresh, ?_⟩
  have huuid : ∀ r : Row, (addRefs c [u] r).uuid = r.uuid := fun r => rfl
  have heq : ∀ T', (db.modify T fun rows => rows ++ [newRow T u row']).modifyRow P p
      (addRefs c [u]) T' = (db T').map (fun r => if T' = P ∧ r.uuid = p then addRefs c [u] r else r) ++
        if T' = T then [newRow T u row'] else [] := by
    intro T'
    rw [modifyRow_eq_map]
    by_cases hT' : T' = T
    · subst hT'
      rw [Database.modify_self, if_pos rfl, List.map_append]
      simp [Ne.symm hPT, newRow]
    · rw [Database.modify_of_ne hT', if_neg hT', List.append_nil]
  refine htr.settled ?_ (forget_eq_of_linked fun r hr => ?_)
  · refine Ovsdb.sweep_of_adds
      (m := fun T' r => if T' = P ∧ r.uuid = p then addRefs c [u] r else r)
      (e := fun T' => if T' = T then [newRow T u row'] else []) hc heq (fun T' r => ?_)
      (fun ref _ _ r v hv => ?_) fun T' hT' r hr => ?_
    · split <;> rfl
    · split
      · exact mem_refs_addRefs hv
      · exact hv
    · split at hr
      · next hTT =>
        subst hTT
        rw [List.mem_singleton.mp hr, uuid_newRow]
        obtain ⟨r₀, hr₀, hru⟩ := List.mem_map.mp hp
        unfold Database.referenced
        rw [List.any_eq_true]
        refine ⟨_, href, ?_⟩
        rw [Bool.and_eq_true, Bool.and_eq_true, List.any_eq_true]
        refine ⟨⟨rfl, decide_eq_true rfl⟩, addRefs c [u] r₀, ?_, ?_⟩
        · show _ ∈ Database.modifyRow _ _ _ _ P
          rw [heq]
          refine List.mem_append_left _ (List.mem_map.mpr ⟨r₀, hr₀, ?_⟩)
          rw [if_pos ⟨rfl, hru⟩]
        · obtain ⟨d, hd, hlike⟩ := hc.conforms.typed P r₀ hr₀ _ hcol
          rw [List.contains_iff_mem]
          exact mem_refs_addRefs_self hd (List.mem_singleton_self u)
      · cases hr
  · have hdhcp : ∀ v ∈ (db typeDhcpOptions).map Row.uuid, v ∈ (((db.modify T fun rows =>
        rows ++ [newRow T u row']).modifyRow P p (addRefs c [u])) typeDhcpOptions).map Row.uuid := by
      intro v hv
      rw [heq, List.map_append, List.map_map]
      refine List.mem_append_left _ ?_
      obtain ⟨r₀, hr₀, rfl⟩ := List.mem_map.mp hv
      refine List.mem_map.mpr ⟨r₀, hr₀, ?_⟩
      rw [Function.comp_apply]
      split <;> rfl
    rw [heq, List.mem_append] at hr
    rcases hr with hr | hr
    · obtain ⟨r₀, hr₀, rfl⟩ := List.mem_map.mp hr
      have hne : typeLogicalSwitchPort ≠ P := by
        rintro rfl
        cases hP
      rw [if_neg fun h => hne h.1]
      exact (linked_of_consistent hc hr₀).mono hdhcp
    · split at hr
      · rw [List.mem_singleton.mp hr]
        exact linked_newRow hl
      · cases hr

end Add

/-! ## Transactions that remove -/

section Remove

variable {db db' mid : Database} {fresh : List String} {operations : List Operation}
  {answers : List Json} {T P p c u v : String}

/-- When operations have left the switch ports and the DHCP options as they are, what remains to
be done is to sweep. -/
theorem transacted_swept (hc : Consistent northbound db)
    (htr : Transacted northbound db fresh operations answers mid db')
    (hports : mid typeLogicalSwitchPort = db typeLogicalSwitchPort)
    (hdhcp : mid typeDhcpOptions = db typeDhcpOptions) : db' = mid.sweep northbound := by
  rw [htr.eq]
  refine forget_eq_of_linked fun r hr => ?_
  unfold Database.sweep at hr
  rw [if_neg (by decide), hports] at hr
  refine (linked_of_consistent hc (List.mem_filter.mp hr).1).mono fun v hv => ?_
  rw [Ovsdb.sweep_root (by decide), hdhcp]
  exact hv

/-- Delete a switch or a router. -/
theorem transact_delete (hT : T = typeLogicalSwitch ∨ T = typeLogicalRouter)
    (hc : Consistent northbound db)
    (h : db.transact northbound fresh [.delete T u] = some (answers, db')) :
    Consistent northbound db' ∧
      db' = (db.modify T fun rows => rows.filter fun r => r.uuid ≠ u).sweep northbound := by
  obtain ⟨mid, htr⟩ := transacted h
  have hcons := htr.consistent flat_northbound hc fun op hop => by
    rw [List.mem_singleton.mp hop]
    trivial
  obtain ⟨a, fresh', hrun⟩ := Ovsdb.runAll_one htr.run
  obtain rfl := Ovsdb.run_delete hrun
  refine ⟨hcons, transacted_swept hc htr (Database.modify_of_ne ?_) (Database.modify_of_ne ?_)⟩
  all_goals rcases hT with rfl | rfl <;> decide

/-- Remove a reference from a column of a switch or a router. -/
theorem transact_drop (hP : P = typeLogicalSwitch ∨ P = typeLogicalRouter)
    (hcol : (c, .refs []) ∈ northboundColumns P) (hc : Consistent northbound db)
    (h : db.transact northbound fresh [.mutate P p [⟨c, false, [.uuid v]⟩]] = some (answers, db')) :
    Consistent northbound db' ∧ db' = (db.modifyRow P p (dropRefs c [v])).sweep northbound := by
  obtain ⟨mid, htr⟩ := transacted h
  have hcons := htr.consistent flat_northbound hc fun op hop => by
    rw [List.mem_singleton.mp hop]
    intro m hm e he hec
    obtain rfl := List.mem_singleton.mp hm
    refine ⟨[], ?_⟩
    have h₁ := Ovsdb.lookup_of_mem (flat_northbound.nodup P) he
    have h₂ := Ovsdb.lookup_of_mem (flat_northbound.nodup P) hcol
    rw [hec] at h₁
    exact Option.some.inj (h₁.symm.trans h₂)
  obtain ⟨a, fresh', hrun⟩ := Ovsdb.runAll_one htr.run
  have hms : ∀ r : Row, [(⟨c, false, [.uuid v]⟩ : Mutation)].foldlM
      (Operation.applyMutation (Database.lookup (Database.names
        [.mutate P p [⟨c, false, [.uuid v]⟩]] fresh))) r = some (dropRefs c [v] r) := by
    intro r
    simp [Operation.applyMutation, Database.lookup, dropRefs]
  obtain ⟨-, rfl⟩ := Ovsdb.run_mutate hc.conforms hms hrun
  refine ⟨hcons, transacted_swept hc htr (Database.modify_of_ne ?_) (Database.modify_of_ne ?_)⟩
  all_goals rcases hP with rfl | rfl <;> decide

/-- Change the static routes of a router: routes are inserted, and one column of the router row
changes. -/
theorem transact_routes {mutations : List Mutation}
    (hins : ∀ op ∈ operations, ∃ row name, op = .insert typeLogicalRouterStaticRoute row name)
    (hfit : ∀ op ∈ operations, op.Fits northbound)
    (hms : ∀ m ∈ mutations, m.column = "static_routes") (hc : Consistent northbound db)
    (h : db.transact northbound fresh (operations ++ [.mutate typeLogicalRouter p mutations]) =
      some (answers, db')) :
    Consistent northbound db' ∧
      (∃ g : Row → Row, (∀ r ∈ db typeLogicalRouter, r.uuid = p → (g r).uuid = r.uuid ∧
          ∀ c', c' ≠ "static_routes" → (g r).get c' = r.get c') ∧
        db' typeLogicalRouter = (db typeLogicalRouter).map fun r => if r.uuid = p then g r else r) ∧
      ∀ T, T ≠ typeLogicalRouter → T ≠ typeLogicalRouterStaticRoute → db' T = db T := by
  obtain ⟨mid, htr⟩ := transacted h
  have hcols : ∀ e ∈ northbound.columns typeLogicalRouter, e.1 = "static_routes" →
      ∃ l, e.2 = .refs l := by
    intro e he hec
    refine ⟨[], ?_⟩
    have h₁ := Ovsdb.lookup_of_mem (flat_northbound.nodup _) he
    rw [hec] at h₁
    exact Option.some.inj (h₁.symm.trans rfl)
  have hcons := htr.consistent flat_northbound hc fun op hop => by
    rcases List.mem_append.mp hop with hop | hop
    · exact hfit op hop
    · rw [List.mem_singleton.mp hop]
      intro m hm e he hec
      exact hcols e he (hec.trans (hms m hm))
  obtain ⟨db₁, fresh₁, a, fresh₂, hsame, hrun⟩ := Ovsdb.runAll_inserts hins htr.run
  have hrouters : db₁ typeLogicalRouter = db typeLogicalRouter := hsame _ (by decide)
  obtain ⟨g, hg, rfl⟩ := Ovsdb.run_mutate_column
    (by rw [hrouters]; exact hc.conforms.unique typeLogicalRouter) hms hrun
  have hkept : ∀ T, T ≠ typeLogicalRouter → T ≠ typeLogicalRouterStaticRoute →
      (db₁.modifyRow typeLogicalRouter p g) T = db T := fun T h₁ h₂ =>
    (Database.modify_of_ne h₁).trans (hsame T h₂)
  have hswept := transacted_swept hc htr (hkept _ (by decide) (by decide))
    (hkept _ (by decide) (by decide))
  rw [hrouters] at hg
  refine ⟨hcons, ⟨g, hg, ?_⟩, fun T h₁ h₂ => ?_⟩
  · rw [hswept, Ovsdb.sweep_root rfl, Database.modifyRow_self, hrouters]
  · rw [hswept]
    unfold Database.sweep
    split
    · exact hkept T h₁ h₂
    · next hroot =>
      rw [hkept T h₁ h₂]
      refine List.filter_eq_self.mpr fun r hr => ?_
      have href := hc.referenced (Bool.not_eq_true _ ▸ hroot) hr
      unfold Database.referenced at href ⊢
      simp only [List.any_eq_true, Bool.and_eq_true, decide_eq_true_eq] at href ⊢
      obtain ⟨ref, href, ⟨hs, ht⟩, r₁, hr₁, hv⟩ := href
      refine ⟨ref, href, ⟨hs, ht⟩, ?_⟩
      -- The references to the row are in a table or in a column that has not changed.
      have hcol : ∀ ref ∈ northbound.references, ref.target ≠ typeLogicalRouterStaticRoute →
          ref.table ≠ typeLogicalRouterStaticRoute ∧ ref.column ≠ "static_routes" := by decide
      obtain ⟨hne, hcol⟩ := hcol ref href (ht ▸ h₂)
      by_cases htable : ref.table = typeLogicalRouter
      · rw [htable] at hr₁ ⊢
        rw [Database.modifyRow_self, hrouters]
        refine ⟨_, List.mem_map_of_mem hr₁, ?_⟩
        split
        · next hu =>
          unfold Row.refs at hv ⊢
          rwa [(hg r₁ hr₁ hu).2 _ hcol]
        · exact hv
      · rw [hkept _ htable hne]
        exact ⟨r₁, hr₁, hv⟩

end Remove

end ClusterController
