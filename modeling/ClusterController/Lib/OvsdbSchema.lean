import Mathlib
import ClusterController.Lib.Ovsdb

/-!
# Databases that follow a schema

The columns of a row keep the shape of their defaults, and no two rows of a table have one
uuid. Operations that fit the schema keep it so (`Conforms.runAll`).

In a flat schema strong references come from the tables of roots only, so one can say which
rows a transaction leaves (`Transacted.root`, `Transacted.mem`): those of the root tables as
the operations have made them, and those of the other tables that a root refers to.
-/

namespace Ovsdb

/-! ## Shapes -/

namespace Datum

variable {ρ ρ' : Type}

/-- The content has the shape of the default: one string if the default is one string, and
otherwise any set of strings, any references or any map. -/
def Like : Datum ρ → Datum ρ' → Prop
  | .strings d, .strings l => d.length = 1 → l.length = 1
  | .refs _, .refs _ => True
  | .map _, .map _ => True
  | _, _ => False

theorem Like.refl (d : Datum ρ) : d.Like d := by
  cases d with
  | strings l => exact id
  | refs l => trivial
  | map m => trivial

theorem like_refs_iff {d : Datum ρ} {l : List ρ'} :
    d.Like (.refs l : Datum ρ') ↔ ∃ m, d = .refs m := by
  cases d with
  | refs m => exact ⟨fun _ => ⟨m, rfl⟩, fun _ => trivial⟩
  | strings l => exact ⟨False.elim, nofun⟩
  | map m => exact ⟨False.elim, nofun⟩

theorem Like.resolve {d : Datum ρ} {e : Datum Ref} {e' : Datum String} {find : Ref → Option String}
    (h : d.Like e) (he : e.resolve find = some e') : d.Like e' := by
  cases e with
  | strings l =>
    cases he
    cases d <;> exact h
  | map m =>
    cases he
    cases d <;> exact h
  | refs l =>
    obtain ⟨l', -, rfl⟩ := Option.map_eq_some_iff.mp he
    exact like_refs_iff.mpr (like_refs_iff.mp h)

theorem Like.keep {d : Datum ρ} {e : Datum String} (h : d.Like e) (p : String → Bool) :
    d.Like (e.keep p) := by
  cases e with
  | refs l => exact like_refs_iff.mpr (like_refs_iff.mp h)
  | strings l => exact h
  | map m => exact h

end Datum

namespace Row

variable {r : Row} {c c' : String} {f : Datum String → Datum String} {cols : Columns String}

@[simp] theorem uuid_modify : (r.modify c f).uuid = r.uuid := rfl

theorem get_modify : (r.modify c f).get c' = if c' = c then (r.get c').map f else r.get c' := by
  obtain ⟨u, columns⟩ := r
  show List.lookup c' (columns.map fun e => if e.1 = c then (e.1, f e.2) else e) =
    if c' = c then (List.lookup c' columns).map f else List.lookup c' columns
  induction columns with
  | nil => simp
  | cons e es ih =>
    obtain ⟨k, d⟩ := e
    rw [List.map_cons]
    by_cases hk : k = c
    · subst hk
      rw [if_pos rfl, List.lookup_cons, List.lookup_cons]
      by_cases hc : c' = k
      · simp [hc]
      · rw [ih, if_neg hc, if_neg hc, beq_false_of_ne hc]
    · rw [if_neg hk, List.lookup_cons, List.lookup_cons, ih]
      by_cases hc : c' = c
      · subst hc
        simp [beq_false_of_ne (Ne.symm hk)]
      · simp [hc]

theorem get_modify_of_ne (h : c' ≠ c) : (r.modify c f).get c' = r.get c' := by
  rw [get_modify, if_neg h]

theorem refs_modify_of_ne (h : c' ≠ c) : (r.modify c f).refs c' = r.refs c' := by
  unfold refs
  rw [get_modify_of_ne h]

/-- Changes of two columns can be made in either order. -/
theorem modify_comm {g : Datum String → Datum String} (h : c' ≠ c) :
    (r.modify c f).modify c' g = (r.modify c' g).modify c f := by
  obtain ⟨u, columns⟩ := r
  unfold modify
  dsimp only
  rw [List.map_map, List.map_map]
  refine congrArg (Row.mk u) (List.map_congr_left fun e _ => ?_)
  simp only [Function.comp_apply]
  split_ifs <;> simp_all

theorem write_cons {e : String × Datum String} :
    r.write (e :: cols) = (r.modify e.1 fun _ => e.2).write cols := rfl

@[simp] theorem uuid_write : (r.write cols).uuid = r.uuid := by
  induction cols generalizing r with
  | nil => rfl
  | cons e es ih => rw [write_cons, ih, uuid_modify]

theorem get_write_of_not_mem (h : ∀ e ∈ cols, c ≠ e.1) : (r.write cols).get c = r.get c := by
  induction cols generalizing r with
  | nil => rfl
  | cons e es ih =>
    rw [write_cons, ih fun e' he' => h e' (List.mem_cons_of_mem _ he'),
      get_modify_of_ne (h e List.mem_cons_self)]

theorem get_write_of_mem {d : Datum String} (hn : (cols.map Prod.fst).Nodup) (hd : (c, d) ∈ cols)
    (h : (r.get c).isSome = true) : (r.write cols).get c = some d := by
  induction cols generalizing r with
  | nil => cases hd
  | cons e es ih =>
    rw [List.map_cons, List.nodup_cons] at hn
    rw [write_cons]
    rcases List.mem_cons.mp hd with rfl | hd
    · rw [get_write_of_not_mem fun e he hec => hn.1 (List.mem_map.mpr ⟨e, he, hec.symm⟩), get_modify,
        if_pos rfl]
      obtain ⟨d', hd'⟩ := Option.isSome_iff_exists.mp h
      rw [hd']
      rfl
    · refine ih hn.2 hd ?_
      rwa [get_modify_of_ne fun hec => hn.1 (List.mem_map.mpr ⟨_, hd, hec⟩)]

theorem refs_write_of_not_mem (h : ∀ e ∈ cols, c ≠ e.1) : (r.write cols).refs c = r.refs c := by
  unfold refs
  rw [get_write_of_not_mem h]

end Row

/-- The row has the columns of a table, with contents of the right shapes. -/
def Typed (cols : Columns String) (r : Row) : Prop :=
  ∀ e ∈ cols, ∃ d, r.get e.1 = some d ∧ e.2.Like d

/-- The contents to write have the right shapes. -/
def FitColumns {ρ : Type} (cols : Columns String) (row : Columns ρ) : Prop :=
  ∀ e ∈ row, ∀ e' ∈ cols, e'.1 = e.1 → e'.2.Like e.2

theorem FitColumns.cons {ρ : Type} {cols : Columns String} {e : String × Datum ρ} {es : Columns ρ}
    (h : FitColumns cols [e]) (hs : FitColumns cols es) : FitColumns cols (e :: es) := by
  intro e' he'
  rcases List.mem_cons.mp he' with rfl | he'
  · exact h e' (List.mem_singleton_self _)
  · exact hs e' he'

section Typed

variable {cols row : Columns String} {r : Row}

theorem Typed.modify {c : String} {f : Datum String → Datum String} (h : Typed cols r)
    (hf : ∀ e ∈ cols, e.1 = c → ∀ d, e.2.Like d → e.2.Like (f d)) : Typed cols (r.modify c f) := by
  intro e he
  obtain ⟨d, hd, hl⟩ := h e he
  rw [Row.get_modify, hd]
  split
  · next hc => exact ⟨f d, rfl, hf e he hc d hl⟩
  · exact ⟨d, rfl, hl⟩

theorem Typed.write (h : Typed cols r) (hf : FitColumns cols row) : Typed cols (r.write row) := by
  induction row generalizing r with
  | nil => exact h
  | cons e es ih =>
    refine ih (h.modify fun e' he' hc d _ => ?_) fun e' he' => hf e' (List.mem_cons_of_mem _ he')
    exact hf e List.mem_cons_self e' he' hc

end Typed

/-- The schema knows the table. -/
def Schema.Stores (S : Schema) (t : String) : Prop :=
  ∃ ref ∈ S.references, t = ref.table ∨ t = ref.target

theorem lookup_of_mem {cols : Columns String} (hn : (cols.map Prod.fst).Nodup)
    {e : String × Datum String} (he : e ∈ cols) : List.lookup e.1 cols = some e.2 := by
  induction cols with
  | nil => cases he
  | cons a as ih =>
    rw [List.map_cons, List.nodup_cons] at hn
    rw [List.lookup_cons]
    rcases List.mem_cons.mp he with rfl | he
    · simp
    · have hne : e.1 ≠ a.1 := fun h => hn.1 (h ▸ List.mem_map_of_mem he)
      rw [beq_false_of_ne hne]
      exact ih hn.2 he

/-- A new row follows the schema. -/
theorem typed_default {cols : Columns String} (hn : (cols.map Prod.fst).Nodup) (u : String) :
    Typed cols ⟨u, cols⟩ := fun e he => ⟨e.2, lookup_of_mem hn he, .refl e.2⟩

/-! ## Operations -/

theorem mapM_mem {α β : Type} {f : α → Option β} {l : List α} {l' : List β} {b : β}
    (h : l.mapM f = some l') (hb : b ∈ l') : ∃ a ∈ l, f a = some b := by
  induction l generalizing l' with
  | nil =>
    cases h
    cases hb
  | cons a as ih =>
    rw [List.mapM_cons] at h
    obtain ⟨b', hb', h⟩ := Option.bind_eq_some_iff.mp h
    obtain ⟨bs, hbs, h⟩ := Option.bind_eq_some_iff.mp h
    cases h
    rcases List.mem_cons.mp hb with rfl | hb
    · exact ⟨a, List.mem_cons_self, hb'⟩
    · obtain ⟨a', ha', he⟩ := ih hbs hb
      exact ⟨a', List.mem_cons_of_mem _ ha', he⟩

/-- The operation keeps the shapes of columns. -/
def Operation.Fits (S : Schema) : Operation → Prop
  | .insert t row _ => S.Stores t ∧ FitColumns (S.columns t) row
  | .update t _ row => FitColumns (S.columns t) row
  | .mutate t _ mutations => ∀ m ∈ mutations, ∀ e ∈ S.columns t, e.1 = m.column → ∃ l, e.2 = .refs l
  | .delete _ _ => True
  | .select _ _ => True

/-- All rows follow the schema. -/
structure Conforms (S : Schema) (db : Database) : Prop where
  typed : ∀ t, ∀ r ∈ db t, Typed (S.columns t) r
  unique : ∀ t, ((db t).map Row.uuid).Nodup

/-- The uuids are distinct and not in use. -/
structure Unused (S : Schema) (db : Database) (fresh : List String) : Prop where
  nodup : fresh.Nodup
  unused : ∀ t, S.Stores t → ∀ u ∈ fresh, u ∉ (db t).map Row.uuid

namespace Database

variable {db : Database} {t t' u : String} {f : List Row → List Row}

@[simp] theorem modify_self : db.modify t f t = f (db t) := Function.update_self _ _ _

theorem modify_of_ne (h : t' ≠ t) : db.modify t f t' = db t' := Function.update_of_ne h _ _

theorem modifyRow_self {g : Row → Row} :
    db.modifyRow t u g t = (db t).map fun r => if r.uuid = u then g r else r := modify_self

theorem find?_eq_none : db.find? t u = none ↔ u ∉ (db t).map Row.uuid := by
  unfold find?
  rw [List.find?_eq_none]
  simp only [decide_eq_true_eq, List.mem_map, not_exists, not_and]

theorem find?_some {r : Row} (h : db.find? t u = some r) : r ∈ db t ∧ r.uuid = u :=
  ⟨List.mem_of_find?_eq_some h, by simpa using List.find?_some h⟩

end Database

section Conforms

variable {S : Schema} {db db' : Database} {t : String} {fresh fresh' : List String}

theorem map_uuid_modifyRow {rows : List Row} {u : String} {g : Row → Row}
    (hg : ∀ r ∈ rows, r.uuid = u → (g r).uuid = u) :
    (rows.map fun r => if r.uuid = u then g r else r).map Row.uuid = rows.map Row.uuid := by
  rw [List.map_map]
  refine List.map_congr_left fun r hr => ?_
  show (if r.uuid = u then g r else r).uuid = r.uuid
  split
  · next h => exact (hg r hr h).trans h.symm
  · rfl

/-- A change of a table that keeps the shapes and adds no uuid. -/
theorem Conforms.of_table {f : List Row → List Row} (h : Conforms S db)
    (htyped : ∀ r ∈ f (db t), Typed (S.columns t) r)
    (hunique : ((f (db t)).map Row.uuid).Nodup) : Conforms S (db.modify t f) := by
  constructor
  · intro t' r hr
    by_cases ht : t' = t
    · subst ht
      rw [Database.modify_self] at hr
      exact htyped r hr
    · rw [Database.modify_of_ne ht] at hr
      exact h.typed t' r hr
  · intro t'
    by_cases ht : t' = t
    · subst ht
      rw [Database.modify_self]
      exact hunique
    · rw [Database.modify_of_ne ht]
      exact h.unique t'

theorem Unused.of_table {f : List Row → List Row} (h : Unused S db fresh)
    (hf : S.Stores t → ∀ u ∈ fresh, u ∈ (f (db t)).map Row.uuid → u ∈ (db t).map Row.uuid) :
    Unused S (db.modify t f) fresh := by
  refine ⟨h.nodup, fun t' ht' u hu hin => ?_⟩
  by_cases ht : t' = t
  · subst ht
    rw [Database.modify_self] at hin
    exact h.unused t' ht' u hu (hf ht' u hu hin)
  · rw [Database.modify_of_ne ht] at hin
    exact h.unused t' ht' u hu hin

/-- A change of one row that keeps its uuid and its shapes. -/
theorem Conforms.modifyRow {u : String} {g : Row → Row} (h : Conforms S db)
    (hg : ∀ r ∈ db t, r.uuid = u → Typed (S.columns t) (g r) ∧ (g r).uuid = u) :
    Conforms S (db.modifyRow t u g) := by
  refine h.of_table (fun r hr => ?_) ?_
  · obtain ⟨r', hr', rfl⟩ := List.mem_map.mp hr
    split
    · next he => exact (hg r' hr' he).1
    · exact h.typed t r' hr'
  · rw [map_uuid_modifyRow fun r hr he => (hg r hr he).2]
    exact h.unique t

theorem Unused.modifyRow {u : String} {g : Row → Row} (h : Unused S db fresh)
    (hg : ∀ r ∈ db t, r.uuid = u → (g r).uuid = u) : Unused S (db.modifyRow t u g) fresh := by
  refine h.of_table fun _ v _ hv => ?_
  rwa [map_uuid_modifyRow hg] at hv

/-! ### One operation -/

theorem fit_resolve {find : Ref → Option String} {cols : Columns String} {row : Columns Ref}
    {row' : Columns String} (h : FitColumns cols row)
    (hr : Operation.resolveColumns find row = some row') : FitColumns cols row' := by
  intro e he
  obtain ⟨e₀, he₀, hre⟩ := mapM_mem hr he
  obtain ⟨d, hd, rfl⟩ := Option.map_eq_some_iff.mp hre
  exact fun e' he' hc => (h e₀ he₀ e' he' hc).resolve hd

theorem applyMutation_eq {find : Ref → Option String} {r r' : Row} {m : Mutation}
    (h : Operation.applyMutation find r m = some r') : ∃ f : List String → List String,
      r' = r.modify m.column fun d => .refs (f d.uuids) := by
  unfold Operation.applyMutation at h
  obtain ⟨uuids, -, h⟩ := Option.bind_eq_some_iff.mp h
  split at h <;> cases h
  · exact ⟨fun l => l ++ uuids.filter (! l.contains ·), rfl⟩
  · exact ⟨fun l => l.filter (! uuids.contains ·), rfl⟩

theorem typed_mutations {find : Ref → Option String} {cols : Columns String} {r r' : Row}
    {ms : List Mutation} (ht : Typed cols r)
    (hf : ∀ m ∈ ms, ∀ e ∈ cols, e.1 = m.column → ∃ l, e.2 = .refs l)
    (h : ms.foldlM (Operation.applyMutation find) r = some r') :
    Typed cols r' ∧ r'.uuid = r.uuid := by
  induction ms generalizing r with
  | nil =>
    cases h
    exact ⟨ht, rfl⟩
  | cons m ms ih =>
    obtain ⟨r₁, h₁, h⟩ := Option.bind_eq_some_iff.mp h
    obtain ⟨f, rfl⟩ := applyMutation_eq h₁
    have ht₁ : Typed cols (r.modify m.column fun d => .refs (f d.uuids)) :=
      ht.modify fun e he hc d _ => Datum.like_refs_iff.mpr (hf m List.mem_cons_self e he hc)
    have ih := ih ht₁ (fun m' hm' => hf m' (List.mem_cons_of_mem _ hm')) h
    exact ih

theorem Conforms.run {op : Operation} {find : Ref → Option String} {answer : Json}
    (hn : ∀ t, ((S.columns t).map Prod.fst).Nodup) (h : Conforms S db) (hu : Unused S db fresh)
    (hf : op.Fits S) (hr : op.run S find db fresh = some (answer, db', fresh')) :
    Conforms S db' ∧ Unused S db' fresh' := by
  cases op with
  | insert t row name =>
    obtain ⟨cols, hc, hr⟩ := Option.bind_eq_some_iff.mp hr
    cases fresh with
    | nil => cases hr
    | cons u fresh =>
      cases hr
      have hnew : u ∉ (db t).map Row.uuid := hu.unused t hf.1 u List.mem_cons_self
      have hu' := hu.nodup
      rw [List.nodup_cons] at hu'
      constructor
      · refine h.of_table (fun r hr => ?_) ?_
        · rcases List.mem_append.mp hr with hr | hr
          · exact h.typed t r hr
          · rw [List.mem_singleton.mp hr]
            exact (typed_default (hn t) u).write (fit_resolve hf.2 hc)
        · rw [List.map_append, List.nodup_append]
          refine ⟨h.unique t, by simp, fun a ha b hb => ?_⟩
          rw [List.map_singleton, List.mem_singleton, Row.uuid_write] at hb
          rintro rfl
          have hb : a = u := hb
          exact hnew (hb ▸ ha)
      · refine ⟨hu'.2, fun t' ht' v hv hin => ?_⟩
        have hv' : v ∉ (db t').map Row.uuid := hu.unused t' ht' v (List.mem_cons_of_mem _ hv)
        by_cases ht : t' = t
        · subst ht
          rw [Database.modify_self, List.map_append, List.mem_append] at hin
          rcases hin with hin | hin
          · exact hv' hin
          · rw [List.map_singleton, List.mem_singleton, Row.uuid_write] at hin
            have hin : v = u := hin
            exact hu'.1 (hin ▸ hv)
        · rw [Database.modify_of_ne ht] at hin
          exact hv' hin
  | update t u row =>
    obtain ⟨cols, hc, hr⟩ := Option.bind_eq_some_iff.mp hr
    cases hr
    refine ⟨h.modifyRow fun r hr he => ⟨?_, Row.uuid_write.trans he⟩,
      hu.modifyRow fun r _ he => Row.uuid_write.trans he⟩
    exact (h.typed t r hr).write (fit_resolve hf hc)
  | mutate t u ms =>
    simp only [Operation.run] at hr
    cases hfind : db.find? t u with
    | none =>
      rw [hfind] at hr
      cases hr
      exact ⟨h, hu⟩
    | some r =>
      rw [hfind] at hr
      obtain ⟨r', hm, hr⟩ := Option.bind_eq_some_iff.mp hr
      cases hr
      obtain ⟨hmem, rfl⟩ := Database.find?_some hfind
      obtain ⟨htyped, huuid⟩ := typed_mutations (h.typed t r hmem) hf hm
      exact ⟨h.modifyRow fun _ _ _ => ⟨htyped, huuid⟩, hu.modifyRow fun _ _ _ => huuid⟩
  | delete t u =>
    cases hr
    refine ⟨h.of_table (fun r hr => h.typed t r (List.mem_filter.mp hr).1) ?_, hu.of_table ?_⟩
    · exact (h.unique t).sublist (List.filter_sublist.map _)
    · intro _ v _ hv
      obtain ⟨r, hr, rfl⟩ := List.mem_map.mp hv
      exact List.mem_map_of_mem (List.mem_filter.mp hr).1
  | select t cols =>
    cases hr
    exact ⟨h, hu⟩

/-! ### Transactions -/

theorem Conforms.runAll {ops : List Operation} {find : Ref → Option String} {answers : List Json}
    (hn : ∀ t, ((S.columns t).map Prod.fst).Nodup) (h : Conforms S db) (hu : Unused S db fresh)
    (hf : ∀ op ∈ ops, op.Fits S)
    (hr : Operation.runAll S find db fresh ops = some (answers, db')) : Conforms S db' := by
  induction ops generalizing db fresh answers with
  | nil =>
    cases hr
    exact h
  | cons op ops ih =>
    obtain ⟨⟨a, db₁, fresh₁⟩, h₁, hr⟩ := Option.bind_eq_some_iff.mp hr
    obtain ⟨⟨as, db₂⟩, h₂, hr⟩ := Option.bind_eq_some_iff.mp hr
    cases hr
    obtain ⟨hc, hu'⟩ := h.run hn hu (hf op List.mem_cons_self) h₁
    exact ih hc hu' (fun o ho => hf o (List.mem_cons_of_mem _ ho)) h₂

theorem Conforms.sweep (h : Conforms S db) : Conforms S (db.sweep S) := by
  have hsub : ∀ t, (db.sweep S t).Sublist (db t) := fun t => by
    unfold Database.sweep
    split
    · exact List.Sublist.refl _
    · exact List.filter_sublist
  exact ⟨fun t r hr => h.typed t r ((hsub t).subset hr),
    fun t => (h.unique t).sublist ((hsub t).map _)⟩

theorem Conforms.forget (h : Conforms S db) : Conforms S (db.forget S) := by
  -- Every reference of the schema maps the rows once.
  have hstep : ∀ (refs : List Reference) (t : String) (rows : List Row),
      (∀ r ∈ rows, Typed (S.columns t) r) → (rows.map Row.uuid).Nodup →
      let rows' := refs.foldl (fun rows ref =>
        if ref.table = t && !ref.strong then
          rows.map fun r => r.modify ref.column (Datum.keep fun u => (db.find? ref.target u).isSome)
        else rows) rows
      (∀ r ∈ rows', Typed (S.columns t) r) ∧ (rows'.map Row.uuid).Nodup := by
    intro refs t
    induction refs with
    | nil => exact fun rows ht hu => ⟨ht, hu⟩
    | cons ref refs ih =>
      intro rows ht hu
      refine ih _ ?_ ?_ <;> dsimp only
      · split
        · intro r hr
          obtain ⟨r', hr', rfl⟩ := List.mem_map.mp hr
          exact (ht r' hr').modify fun e _ _ d hl => hl.keep _
        · exact ht
      · split
        · rw [List.map_map]
          exact hu
        · exact hu
  exact ⟨fun t r hr => (hstep S.references t (db t) (h.typed t) (h.unique t)).1 r hr,
    fun t => (hstep S.references t (db t) (h.typed t) (h.unique t)).2⟩

theorem unused_of_check (hn : fresh.Nodup) (h : db.unused S fresh = true) : Unused S db fresh := by
  refine ⟨hn, fun t ht u hu => ?_⟩
  unfold Database.unused at h
  simp only [List.all_eq_true, Bool.and_eq_true, Option.isNone_iff_eq_none] at h
  obtain ⟨ref, href, rfl | rfl⟩ := ht
  · exact Database.find?_eq_none.mp (h ref href u hu).1
  · exact Database.find?_eq_none.mp (h ref href u hu).2

/-- What a transaction that succeeds has done. -/
structure Transacted (S : Schema) (db : Database) (fresh : List String) (ops : List Operation)
    (answers : List Json) (mid db' : Database) : Prop where
  unused : Unused S db fresh
  run : Operation.runAll S (Database.lookup (Database.names ops fresh)) db fresh ops =
    some (answers, mid)
  integral : (mid.sweep S).integral S = true
  distinct : (mid.sweep S).distinct S = true
  eq : db' = (mid.sweep S).forget S

theorem transacted {ops : List Operation} {answers : List Json}
    (h : db.transact S fresh ops = some (answers, db')) :
    ∃ mid, Transacted S db fresh ops answers mid db' := by
  unfold Database.transact at h
  dsimp only at h
  split at h
  · next hc =>
    split at h
    · cases h
    · next as mid hrun =>
      split at h
      · next hok =>
        rw [Bool.and_eq_true] at hok
        cases h
        exact ⟨mid, unused_of_check hc.2.1 hc.2.2, hrun, hok.1, hok.2, rfl⟩
      · cases h
  · cases h

end Conforms

/-! ## Flat schemas -/

/-- The column holds no weak references. -/
def Schema.Firm (S : Schema) (t c : String) : Prop :=
  ∀ ref ∈ S.references, ref.strong = false → ref.table = t → ref.column ≠ c

/-- Strong references come from root tables, weak ones from other tables and from columns
that are no indexes. -/
structure Schema.Flat (S : Schema) : Prop where
  nodup : ∀ t, ((S.columns t).map Prod.fst).Nodup
  strong : ∀ ref ∈ S.references, ref.strong = true → S.isRoot ref.table = true
  weak : ∀ ref ∈ S.references, ref.strong = false → S.isRoot ref.table = false
  firm : ∀ i ∈ S.indexes, S.Firm i.1 i.2

/-- The row without its weak references to rows that are gone. -/
def forgetRow (S : Schema) (db : Database) (t : String) (r : Row) : Row :=
  S.references.foldl (fun r ref =>
    if ref.table = t && !ref.strong then
      r.modify ref.column (Datum.keep fun u => (db.find? ref.target u).isSome)
    else r) r

section Flat

variable {S : Schema} {db db' mid : Database} {t c : String} {r : Row} {fresh : List String}
  {ops : List Operation} {answers : List Json}

theorem forget_eq (db : Database) (t : String) : db.forget S t = (db t).map (forgetRow S db t) := by
  unfold Database.forget forgetRow
  generalize db t = rows
  induction S.references generalizing rows with
  | nil => simp
  | cons ref refs ih =>
    rw [List.foldl_cons, ih]
    split
    · next h =>
      rw [List.map_map]
      refine List.map_congr_left fun r _ => ?_
      rw [Function.comp_apply, List.foldl_cons, if_pos h]
    · next h =>
      refine List.map_congr_left fun r _ => ?_
      rw [List.foldl_cons, if_neg h]

@[simp] theorem uuid_forgetRow : (forgetRow S db t r).uuid = r.uuid := by
  unfold forgetRow
  induction S.references generalizing r with
  | nil => rfl
  | cons ref refs ih =>
    rw [List.foldl_cons, ih]
    split <;> rfl

theorem get_forgetRow (hc : S.Firm t c) : (forgetRow S db t r).get c = r.get c := by
  unfold forgetRow
  unfold Schema.Firm at hc
  generalize S.references = refs at hc ⊢
  induction refs generalizing r with
  | nil => rfl
  | cons ref refs ih =>
    rw [List.foldl_cons, ih fun ref' h => hc ref' (List.mem_cons_of_mem _ h)]
    split
    · next h =>
      simp only [Bool.and_eq_true, decide_eq_true_eq, Bool.not_eq_true'] at h
      exact Row.get_modify_of_ne (hc ref List.mem_cons_self h.2 h.1).symm
    · rfl

theorem sweep_root (ht : S.isRoot t = true) : db.sweep S t = db t := if_pos ht

variable (hS : S.Flat)
include hS

theorem forget_root (ht : S.isRoot t = true) : db.forget S t = db t := by
  have hfirm : ∀ r, forgetRow S db t r = r := by
    intro r
    unfold forgetRow
    have hweak := hS.weak
    generalize S.references = refs at hweak ⊢
    induction refs with
    | nil => rfl
    | cons ref refs ih =>
      rw [List.foldl_cons, if_neg, ih fun ref' h => hweak ref' (List.mem_cons_of_mem _ h)]
      simp only [Bool.and_eq_true, decide_eq_true_eq, Bool.not_eq_true', not_and]
      rintro rfl hs
      rw [hweak ref List.mem_cons_self hs] at ht
      cases ht
  rw [forget_eq]
  exact (List.map_congr_left fun r _ => hfirm r).trans (List.map_id _)

/-- Whether a row is referenced is a matter of the root tables. -/
theorem referenced_congr {db₁ db₂ : Database} (h : ∀ t, S.isRoot t = true → db₁ t = db₂ t)
    (t u : String) : db₁.referenced S t u = db₂.referenced S t u := by
  unfold Database.referenced
  rw [Bool.eq_iff_iff]
  simp only [List.any_eq_true, Bool.and_eq_true]
  constructor
  · rintro ⟨ref, href, hst, r, hr⟩
    rw [h ref.table (hS.strong ref href hst.1)] at hr
    exact ⟨ref, href, hst, r, hr⟩
  · rintro ⟨ref, href, hst, r, hr⟩
    rw [← h ref.table (hS.strong ref href hst.1)] at hr
    exact ⟨ref, href, hst, r, hr⟩

/-- The rows of the root tables are as the operations have made them. -/
theorem Transacted.root (h : Transacted S db fresh ops answers mid db') (ht : S.isRoot t = true) :
    db' t = mid t := by
  rw [h.eq, forget_root hS ht, sweep_root ht]

omit hS in
/-- The rows of the other tables are those that are referenced. -/
theorem Transacted.rest (h : Transacted S db fresh ops answers mid db') (ht : S.isRoot t = false) :
    db' t = ((mid t).filter fun r => mid.referenced S t r.uuid).map (forgetRow S (mid.sweep S) t) := by
  rw [h.eq, forget_eq]
  unfold Database.sweep
  rw [if_neg (by simp [ht])]

end Flat

/-! ## Consistent databases -/

section Kept

variable {r : Row} {c c' : String} {p q : String → Bool}

theorem Datum.keep_comm (d : Datum String) : (d.keep p).keep q = (d.keep q).keep p := by
  cases d with
  | refs l => exact congrArg Datum.refs (List.filter_comm _ _ l)
  | strings l => rfl
  | map m => rfl

theorem Datum.keep_keep (d : Datum String) : (d.keep p).keep p = d.keep p := by
  cases d with
  | refs l => exact congrArg Datum.refs (by simp [List.filter_filter])
  | strings l => rfl
  | map m => rfl

theorem Row.modify_eq_self {f : Datum String → Datum String} :
    r.modify c f = r ↔ ∀ e ∈ r.columns, e.1 = c → f e.2 = e.2 := by
  obtain ⟨u, columns⟩ := r
  show (⟨u, _⟩ : Row) = ⟨u, columns⟩ ↔ _
  rw [Row.mk.injEq, and_iff_right rfl]
  constructor
  · intro h e he hc
    have hmap := List.map_inj_left.mp (h.trans (List.map_id columns).symm) e he
    rw [if_pos hc] at hmap
    exact congrArg Prod.snd hmap
  · intro h
    refine (List.map_congr_left fun e he => ?_).trans (List.map_id columns)
    split
    · next hc => exact Prod.ext rfl (h e he hc)
    · rfl

/-- What a column keeps it keeps when another filter is applied to the row. -/
theorem Row.kept_modify (h : r.modify c (Datum.keep p) = r) :
    (r.modify c' (Datum.keep q)).modify c (Datum.keep p) = r.modify c' (Datum.keep q) := by
  rw [modify_eq_self] at h ⊢
  intro e he hc
  obtain ⟨e₀, he₀, rfl⟩ := List.mem_map.mp he
  by_cases hc' : e₀.1 = c'
  · rw [if_pos hc'] at hc ⊢
    dsimp only
    rw [Datum.keep_comm, h e₀ he₀ hc]
  · rw [if_neg hc'] at hc ⊢
    exact h e₀ he₀ hc

theorem Row.kept_self : (r.modify c (Datum.keep p)).modify c (Datum.keep p) =
    r.modify c (Datum.keep p) := by
  rw [modify_eq_self]
  intro e he hc
  obtain ⟨e₀, -, rfl⟩ := List.mem_map.mp he
  by_cases hc' : e₀.1 = c
  · rw [if_pos hc']
    exact Datum.keep_keep _
  · rw [if_neg hc'] at hc
    exact absurd hc hc'

end Kept

/-- The database follows the schema, and it is as a transaction leaves it. -/
structure Consistent (S : Schema) (db : Database) : Prop where
  conforms : Conforms S db
  swept : db.sweep S = db
  forgotten : db.forget S = db
  integral : db.integral S = true
  distinct : db.distinct S = true

section Consistent

variable {S : Schema} {db db' mid : Database} {t : String} {r : Row} {fresh : List String}
  {ops : List Operation} {answers : List Json}

/-- A row that has been cleared of dangling references stays as it is. -/
theorem forgetRow_forgetRow : forgetRow S db t (forgetRow S db t r) = forgetRow S db t r := by
  -- Every filter of the schema has been applied, and later ones do not undo it.
  have hkeep : ∀ (refs : List Reference) (r : Row) (c : String) (p : String → Bool),
      r.modify c (Datum.keep p) = r →
      let r' := refs.foldl (fun r ref =>
        if ref.table = t && !ref.strong then
          r.modify ref.column (Datum.keep fun u => (db.find? ref.target u).isSome)
        else r) r
      r'.modify c (Datum.keep p) = r' := by
    intro refs
    induction refs with
    | nil => exact fun _ _ _ h => h
    | cons ref refs ih =>
      intro r c p h
      rw [List.foldl_cons]
      split
      · exact ih _ c p (Row.kept_modify h)
      · exact ih r c p h
  have hall : ∀ (refs : List Reference) (r : Row), ∀ ref ∈ refs,
      (ref.table = t && !ref.strong) = true →
      let r' := refs.foldl (fun r ref =>
        if ref.table = t && !ref.strong then
          r.modify ref.column (Datum.keep fun u => (db.find? ref.target u).isSome)
        else r) r
      r'.modify ref.column (Datum.keep fun u => (db.find? ref.target u).isSome) = r' := by
    intro refs
    induction refs with
    | nil => exact fun _ _ h => nomatch h
    | cons ref refs ih =>
      intro r ref' href' hc
      rw [List.foldl_cons]
      rcases List.mem_cons.mp href' with rfl | href'
      · rw [if_pos hc]
        exact hkeep refs _ _ _ Row.kept_self
      · exact ih _ ref' href' hc
  have hfix : ∀ (refs : List Reference) (r : Row), (∀ ref ∈ refs,
      (ref.table = t && !ref.strong) = true →
      r.modify ref.column (Datum.keep fun u => (db.find? ref.target u).isSome) = r) →
      refs.foldl (fun r ref =>
        if ref.table = t && !ref.strong then
          r.modify ref.column (Datum.keep fun u => (db.find? ref.target u).isSome)
        else r) r = r := by
    intro refs
    induction refs with
    | nil => exact fun _ _ => rfl
    | cons ref refs ih =>
      intro r h
      rw [List.foldl_cons]
      split
      · next hc =>
        rw [h ref List.mem_cons_self hc]
        exact ih r fun ref' h' => h ref' (List.mem_cons_of_mem _ h')
      · exact ih r fun ref' h' => h ref' (List.mem_cons_of_mem _ h')
  exact hfix S.references _ fun ref href hc => hall S.references r ref href hc

theorem forgetRow_congr {db₁ db₂ : Database}
    (h : ∀ t u, (db₁.find? t u).isSome = (db₂.find? t u).isSome) :
    forgetRow S db₁ t r = forgetRow S db₂ t r := by
  unfold forgetRow
  simp only [h]

theorem isSome_find? {db : Database} {t u : String} :
    (db.find? t u).isSome = true ↔ u ∈ (db t).map Row.uuid := by
  rw [← not_iff_not, ← Database.find?_eq_none, Bool.not_eq_true, Option.isSome_eq_false_iff,
    Option.isNone_iff_eq_none]

theorem isSome_find?_congr {db₁ db₂ : Database} {t : String}
    (h : (db₁ t).map Row.uuid = (db₂ t).map Row.uuid) (u : String) :
    (db₁.find? t u).isSome = (db₂.find? t u).isSome := by
  rw [Bool.eq_iff_iff, isSome_find?, isSome_find?, h]

theorem map_uuid_forget (db : Database) (t : String) :
    (db.forget S t).map Row.uuid = (db t).map Row.uuid := by
  rw [forget_eq, List.map_map]
  exact List.map_congr_left fun r _ => uuid_forgetRow

theorem sweep_eq_self (h : ∀ t, S.isRoot t = false → ∀ r ∈ db t, db.referenced S t r.uuid = true) :
    db.sweep S = db := by
  funext t
  unfold Database.sweep
  split
  · rfl
  · next ht => exact List.filter_eq_self.mpr (h t (by simpa using ht))

theorem forget_eq_self (h : ∀ t, ∀ r ∈ db t, forgetRow S db t r = r) : db.forget S = db := by
  funext t
  rw [forget_eq]
  exact (List.map_congr_left (h t)).trans (List.map_id _)

theorem Consistent.referenced (h : Consistent S db) (ht : S.isRoot t = false) (hr : r ∈ db t) :
    db.referenced S t r.uuid = true := by
  rw [← h.swept] at hr
  unfold Database.sweep at hr
  rw [if_neg (by simp [ht])] at hr
  exact (List.mem_filter.mp hr).2

theorem Consistent.forgetRow_eq (h : Consistent S db) (hr : r ∈ db t) : forgetRow S db t r = r := by
  have hmap : (db t).map (forgetRow S db t) = (db t).map id := by
    rw [← forget_eq, h.forgotten, List.map_id]
  exact List.map_inj_left.mp hmap r hr

/-- A list of all rows of a table leaves a consistent database as it is. -/
theorem Consistent.select (h : Consistent S db) {cols : List String}
    (ht : db.transact S fresh [.select t cols] = some (answers, db')) :
    db' = db ∧ answers = [.obj [("rows", .arr ((db t).map fun r => r.encode cols))]] := by
  obtain ⟨mid, htr⟩ := transacted ht
  have hrun := htr.run
  cases hrun
  refine ⟨?_, rfl⟩
  rw [htr.eq, h.swept, h.forgotten]

/-- If nothing has to be swept and forgotten, the operations say what the database is. -/
theorem Transacted.settled (h : Transacted S db fresh ops answers mid db')
    (hs : mid.sweep S = mid) (hf : mid.forget S = mid) : db' = mid := by
  rw [h.eq, hs, hf]

/-- A transaction of operations that fit leaves a consistent database. -/
theorem Transacted.consistent (hS : S.Flat) (h : Consistent S db) (hf : ∀ op ∈ ops, op.Fits S)
    (ht : Transacted S db fresh ops answers mid db') : Consistent S db' := by
  have hroot : ∀ t, S.isRoot t = true → db' t = mid t := fun t h => ht.root hS h
  have huuid : ∀ t, (db' t).map Row.uuid = (mid.sweep S t).map Row.uuid := fun t => by
    rw [ht.eq, map_uuid_forget]
  have hsome : ∀ t u, (db'.find? t u).isSome = ((mid.sweep S).find? t u).isSome :=
    fun t u => isSome_find?_congr (huuid t) u
  constructor
  · rw [ht.eq]
    exact (h.conforms.runAll hS.nodup ht.unused hf ht.run).sweep.forget
  · refine sweep_eq_self fun t hroot' r hr => ?_
    rw [ht.rest hroot'] at hr
    obtain ⟨r₀, hr₀, rfl⟩ := List.mem_map.mp hr
    rw [uuid_forgetRow, referenced_congr hS hroot]
    exact (List.mem_filter.mp hr₀).2
  · refine forget_eq_self fun t r hr => ?_
    rw [ht.eq, forget_eq] at hr
    obtain ⟨r₀, -, rfl⟩ := List.mem_map.mp hr
    rw [forgetRow_congr hsome, forgetRow_forgetRow]
  · have hi := ht.integral
    unfold Database.integral at hi ⊢
    rw [List.all_eq_true] at hi ⊢
    intro ref href
    have hi := hi ref href
    cases hst : ref.strong with
    | false => rfl
    | true =>
      have hr := hS.strong ref href hst
      rw [hst, sweep_root hr] at hi
      rw [hroot _ hr]
      simpa only [hsome] using hi
  · have hd := ht.distinct
    unfold Database.distinct at hd ⊢
    rw [List.all_eq_true] at hd ⊢
    intro i hi
    have hd := hd i hi
    rw [ht.eq, forget_eq, List.map_map]
    have hmap : (mid.sweep S i.1).map ((fun r => r.get i.2) ∘ forgetRow S (mid.sweep S) i.1) =
        (mid.sweep S i.1).map fun r => r.get i.2 :=
      List.map_congr_left fun r _ => get_forgetRow (hS.firm i hi)
    rw [hmap]
    exact hd

/-- Operations that only add rows and references leave nothing to sweep: `m` is what they
make of the rows, and `e` are the new rows, each of them referenced. -/
theorem sweep_of_adds {m : String → Row → Row} {e : String → List Row} (h : Consistent S db)
    (heq : ∀ t, mid t = (db t).map (m t) ++ e t) (huuid : ∀ t r, (m t r).uuid = r.uuid)
    (hrefs : ∀ ref ∈ S.references, ref.strong = true → ∀ r, ∀ u ∈ r.refs ref.column,
      u ∈ (m ref.table r).refs ref.column)
    (hnew : ∀ t, S.isRoot t = false → ∀ r ∈ e t, mid.referenced S t r.uuid = true) :
    mid.sweep S = mid := by
  refine sweep_eq_self fun t ht r hr => ?_
  rw [heq, List.mem_append] at hr
  rcases hr with hr | hr
  · -- An old row is referenced as before.
    obtain ⟨r₀, hr₀, rfl⟩ := List.mem_map.mp hr
    have hold := h.referenced ht hr₀
    rw [huuid]
    unfold Database.referenced at hold ⊢
    rw [List.any_eq_true] at hold ⊢
    obtain ⟨ref, href, hold⟩ := hold
    rw [Bool.and_eq_true, Bool.and_eq_true, List.any_eq_true] at hold
    obtain ⟨hst, r₁, hr₁, hin⟩ := hold
    refine ⟨ref, href, ?_⟩
    rw [Bool.and_eq_true, Bool.and_eq_true, List.any_eq_true]
    refine ⟨hst, m ref.table r₁, ?_, ?_⟩
    · rw [heq]
      exact List.mem_append_left _ (List.mem_map_of_mem hr₁)
    · rw [List.contains_iff_mem] at hin ⊢
      exact hrefs ref href hst.1 r₁ _ hin
  · exact hnew t ht r hr

/-- One row of the database changed, as a map over all tables. -/
theorem modifyRow_eq_map {u : String} {g : Row → Row} (t' : String) :
    db.modifyRow t u g t' = (db t').map fun r => if t' = t ∧ r.uuid = u then g r else r := by
  by_cases ht : t' = t
  · subst ht
    rw [Database.modifyRow_self]
    simp
  · unfold Database.modifyRow
    rw [Database.modify_of_ne ht]
    simp [ht]

/-- Only one row has the uuid, so the change may be given by that row alone. -/
theorem modifyRow_const (h : Conforms S db) {u : String} {g : Row → Row}
    (hf : db.find? t u = some r) : (db.modifyRow t u fun _ => g r) = db.modifyRow t u g := by
  have hg : ∀ r' ∈ db t, r'.uuid = u → r' = r := by
    intro r' hr' hu
    obtain ⟨hr, hru⟩ := Database.find?_some hf
    exact List.inj_on_of_nodup_map (h.unique t) hr' hr (hu.trans hru.symm)
  funext t'
  rw [modifyRow_eq_map, modifyRow_eq_map]
  refine List.map_congr_left fun r' hr' => ?_
  split
  · next hc => rw [hg r' (hc.1 ▸ hr') hc.2]
  · rfl

/-- The only operation of a transaction. -/
theorem runAll_one {op : Operation} {find : Ref → Option String}
    (h : Operation.runAll S find db fresh [op] = some (answers, mid)) :
    ∃ a fresh', op.run S find db fresh = some (a, mid, fresh') := by
  obtain ⟨⟨a, db₁, fresh₁⟩, h₁, h⟩ := Option.bind_eq_some_iff.mp h
  cases h
  exact ⟨a, fresh₁, h₁⟩

/-- The first of several operations of a transaction. -/
theorem runAll_cons {op : Operation} {find : Ref → Option String}
    (h : Operation.runAll S find db fresh (op :: ops) = some (answers, mid)) :
    ∃ a db₁ fresh₁ as, op.run S find db fresh = some (a, db₁, fresh₁) ∧
      Operation.runAll S find db₁ fresh₁ ops = some (as, mid) := by
  obtain ⟨⟨a, db₁, fresh₁⟩, h₁, h⟩ := Option.bind_eq_some_iff.mp h
  obtain ⟨⟨as, db₂⟩, h₂, h⟩ := Option.bind_eq_some_iff.mp h
  cases h
  exact ⟨a, db₁, fresh₁, as, h₁, h₂⟩

theorem run_insert {find : Ref → Option String} {row : Columns Ref} {row' : Columns String}
    {name : Option String} {a : Json} {fresh' : List String}
    (hrow : Operation.resolveColumns find row = some row')
    (h : (Operation.insert t row name).run S find db fresh = some (a, mid, fresh')) :
    ∃ u, fresh = u :: fresh' ∧
      mid = db.modify t fun rows => rows ++ [Row.write ⟨u, S.columns t⟩ row'] := by
  simp only [Operation.run, hrow, Option.bind_eq_bind, Option.bind_some] at h
  cases fresh with
  | nil => cases h
  | cons u fresh =>
    cases h
    exact ⟨u, rfl, rfl⟩

theorem run_update {find : Ref → Option String} {row : Columns Ref} {row' : Columns String}
    {u : String} {a : Json} {fresh' : List String}
    (hrow : Operation.resolveColumns find row = some row')
    (h : (Operation.update t u row).run S find db fresh = some (a, mid, fresh')) :
    mid = db.modifyRow t u fun r => r.write row' := by
  simp only [Operation.run, hrow, Option.bind_eq_bind, Option.bind_some] at h
  cases h
  rfl

theorem run_delete {find : Ref → Option String} {u : String} {a : Json} {fresh' : List String}
    (h : (Operation.delete t u).run S find db fresh = some (a, mid, fresh')) :
    mid = db.modify t fun rows => rows.filter fun r => r.uuid ≠ u := by
  cases h
  rfl

/-- Add references to a column. -/
def addRefs (c : String) (us : List String) (r : Row) : Row :=
  r.modify c fun d => .refs (d.uuids ++ us.filter (! d.uuids.contains ·))

/-- Remove references from a column. -/
def dropRefs (c : String) (us : List String) (r : Row) : Row :=
  r.modify c fun d => .refs (d.uuids.filter (! us.contains ·))

theorem run_mutate {find : Ref → Option String} {u : String} {ms : List Mutation} {a : Json}
    {fresh' : List String} {g : Row → Row} (hc : Conforms S db)
    (hg : ∀ r, ms.foldlM (Operation.applyMutation find) r = some (g r))
    (h : (Operation.mutate t u ms).run S find db fresh = some (a, mid, fresh')) :
    fresh' = fresh ∧ mid = db.modifyRow t u g := by
  simp only [Operation.run] at h
  cases hf : db.find? t u with
  | none =>
    rw [hf] at h
    cases h
    refine ⟨rfl, ?_⟩
    funext t'
    rw [modifyRow_eq_map]
    have hnone := Database.find?_eq_none.mp hf
    refine ((List.map_congr_left fun r hr => ?_).trans (List.map_id _)).symm
    rw [if_neg]
    · rfl
    · rintro ⟨rfl, rfl⟩
      exact hnone (List.mem_map_of_mem hr)
  | some r =>
    simp only [hf, hg r, Option.bind_eq_bind, Option.bind_some] at h
    cases h
    exact ⟨rfl, modifyRow_const hc hf⟩

/-- Mutations of one column leave the others. -/
theorem get_mutations {find : Ref → Option String} {r r' : Row} {ms : List Mutation}
    (h : ms.foldlM (Operation.applyMutation find) r = some r') :
    r'.uuid = r.uuid ∧ ∀ c, (∀ m ∈ ms, m.column ≠ c) → r'.get c = r.get c := by
  induction ms generalizing r with
  | nil =>
    cases h
    exact ⟨rfl, fun _ _ => rfl⟩
  | cons m ms ih =>
    obtain ⟨r₁, h₁, h⟩ := Option.bind_eq_some_iff.mp h
    obtain ⟨f, rfl⟩ := applyMutation_eq h₁
    obtain ⟨huuid, hget⟩ := ih h
    refine ⟨huuid, fun c hc => ?_⟩
    rw [hget c fun m' hm' => hc m' (List.mem_cons_of_mem _ hm')]
    exact Row.get_modify_of_ne (Ne.symm (hc m List.mem_cons_self))

/-- Mutations of one column of a row. -/
theorem run_mutate_column {find : Ref → Option String} {u c : String} {ms : List Mutation} {a : Json}
    {fresh' : List String} (hn : ((db t).map Row.uuid).Nodup) (hc : ∀ m ∈ ms, m.column = c)
    (h : (Operation.mutate t u ms).run S find db fresh = some (a, mid, fresh')) :
    ∃ g : Row → Row, (∀ r ∈ db t, r.uuid = u → (g r).uuid = r.uuid ∧
      ∀ c', c' ≠ c → (g r).get c' = r.get c') ∧ mid = db.modifyRow t u g := by
  simp only [Operation.run] at h
  cases hf : db.find? t u with
  | none =>
    rw [hf] at h
    cases h
    have hnone := Database.find?_eq_none.mp hf
    refine ⟨id, fun r _ _ => ⟨rfl, fun _ _ => rfl⟩, ?_⟩
    funext t'
    rw [modifyRow_eq_map]
    exact ((List.map_congr_left fun r _ => ite_self _).trans (List.map_id _)).symm
  | some r₀ =>
    rw [hf] at h
    obtain ⟨r', hm, h⟩ := Option.bind_eq_some_iff.mp h
    cases h
    obtain ⟨hmem, hu⟩ := Database.find?_some hf
    refine ⟨fun _ => r', fun r hr hru => ?_, rfl⟩
    obtain rfl : r = r₀ := List.inj_on_of_nodup_map hn hr hmem (hru.trans hu.symm)
    refine ⟨(get_mutations hm).1, fun c' hne => (get_mutations hm).2 c' fun m hmem => ?_⟩
    rw [hc m hmem]
    exact Ne.symm hne

/-- Inserts into one table, and a last operation. -/
theorem runAll_inserts {find : Ref → Option String} {last : Operation}
    (hins : ∀ op ∈ ops, ∃ row name, op = .insert t row name)
    (h : Operation.runAll S find db fresh (ops ++ [last]) = some (answers, mid)) :
    ∃ db₁ fresh₁ a fresh₂, (∀ t', t' ≠ t → db₁ t' = db t') ∧
      last.run S find db₁ fresh₁ = some (a, mid, fresh₂) := by
  induction ops generalizing db fresh answers with
  | nil =>
    obtain ⟨a, fresh', h⟩ := runAll_one h
    exact ⟨db, fresh, a, fresh', fun _ _ => rfl, h⟩
  | cons op ops ih =>
    obtain ⟨row, name, rfl⟩ := hins op List.mem_cons_self
    obtain ⟨a, db₁, fresh₁, as, h₁, h⟩ := runAll_cons h
    obtain ⟨db₂, fresh₂, a', fresh₃, hsame, hlast⟩ :=
      ih (fun op hop => hins op (List.mem_cons_of_mem _ hop)) h
    refine ⟨db₂, fresh₂, a', fresh₃, fun t' ht' => (hsame t' ht').trans ?_, hlast⟩
    obtain ⟨cols, hcols, h₁⟩ := Option.bind_eq_some_iff.mp h₁
    cases fresh with
    | nil => cases h₁
    | cons u fresh =>
      cases h₁
      exact Database.modify_of_ne ht'

/-- Clearing a row of dangling references has nothing to do with columns that hold none. -/
theorem forgetRow_modify {c : String} {f : Datum String → Datum String} (hc : S.Firm t c) :
    forgetRow S db t (r.modify c f) = (forgetRow S db t r).modify c f := by
  unfold forgetRow
  unfold Schema.Firm at hc
  generalize S.references = refs at hc
  induction refs generalizing r with
  | nil => rfl
  | cons ref refs ih =>
    have hrefs := fun ref' h => hc ref' (List.mem_cons_of_mem _ h)
    rw [List.foldl_cons, List.foldl_cons]
    split
    · next h =>
      simp only [Bool.and_eq_true, decide_eq_true_eq, Bool.not_eq_true'] at h
      rw [Row.modify_comm (hc ref List.mem_cons_self h.2 h.1)]
      exact ih hrefs
    · exact ih hrefs

/-- A column without references that is no index may be overwritten from outside. -/
theorem Consistent.modifyColumn {u c : String} {f : Datum String → Datum String}
    (h : Consistent S db) (hrefs : ∀ ref ∈ S.references, ref.table = t → ref.column ≠ c)
    (hindexes : ∀ i ∈ S.indexes, i.1 = t → i.2 ≠ c)
    (hf : ∀ e ∈ S.columns t, e.1 = c → ∀ d, e.2.Like d → e.2.Like (f d)) :
    Consistent S (db.modifyRow t u fun r => r.modify c f) := by
  let m := fun (t' : String) (r : Row) => if t' = t ∧ r.uuid = u then r.modify c f else r
  have heq : ∀ t', (db.modifyRow t u fun r => r.modify c f) t' = (db t').map (m t') :=
    modifyRow_eq_map
  have huuid : ∀ t' r, (m t' r).uuid = r.uuid := by
    intro t' r
    dsimp only [m]
    split <;> rfl
  have hsome : ∀ t' v, ((db.modifyRow t u fun r => r.modify c f).find? t' v).isSome =
      (db.find? t' v).isSome := by
    intro t' v
    refine isSome_find?_congr ?_ v
    rw [heq, List.map_map]
    exact List.map_congr_left fun r _ => huuid t' r
  have hsame : ∀ ref ∈ S.references, ∀ r, (m ref.table r).refs ref.column = r.refs ref.column := by
    intro ref href r
    dsimp only [m]
    split
    · next hr => exact Row.refs_modify_of_ne (hrefs ref href hr.1)
    · rfl
  constructor
  · exact h.conforms.modifyRow fun r hr hu => ⟨(h.conforms.typed t r hr).modify hf, hu⟩
  · refine sweep_of_adds (e := fun _ => []) h (fun t' => by rw [heq, List.append_nil]) huuid
      (fun ref href _ r v hv => ?_) nofun
    rw [hsame ref href]
    exact hv
  · refine forget_eq_self fun t' r hr => ?_
    rw [heq] at hr
    obtain ⟨r₀, hr₀, rfl⟩ := List.mem_map.mp hr
    rw [forgetRow_congr hsome]
    have h₀ := h.forgetRow_eq hr₀
    dsimp only [m]
    split
    · next hu =>
      rw [forgetRow_modify, h₀]
      exact fun ref href _ ht => hrefs ref href (ht.trans hu.1)
    · exact h₀
  · have hi := h.integral
    unfold Database.integral at hi ⊢
    simp only [List.all_eq_true, Bool.or_eq_true] at hi ⊢
    intro ref href
    refine (hi ref href).imp id fun hall r hr v hv => ?_
    rw [heq] at hr
    obtain ⟨r₀, hr₀, rfl⟩ := List.mem_map.mp hr
    rw [hsame ref href] at hv
    rw [hsome]
    exact hall r₀ hr₀ v hv
  · have hd := h.distinct
    unfold Database.distinct at hd ⊢
    rw [List.all_eq_true] at hd ⊢
    intro i hi
    have hmap : ((db.modifyRow t u fun r => r.modify c f) i.1).map (fun r => r.get i.2) =
        (db i.1).map fun r => r.get i.2 := by
      rw [heq, List.map_map]
      refine List.map_congr_left fun r _ => ?_
      rw [Function.comp_apply]
      dsimp only [m]
      split
      · next hu => exact Row.get_modify_of_ne (hindexes i hi hu.1)
      · rfl
    rw [hmap]
    exact hd i hi

/-- The database without rows is consistent. -/
theorem consistent_empty : Consistent S fun _ => [] := by
  refine ⟨⟨nofun, fun _ => List.nodup_nil⟩, ?_, ?_, ?_, ?_⟩
  · exact sweep_eq_self nofun
  · exact forget_eq_self nofun
  · simp [Database.integral]
  · simp [Database.distinct]

end Consistent

/-! ## Strong references -/

/-- The strong references of a consistent database resolve. -/
theorem Consistent.resolves {S : Schema} {db : Database} (h : Consistent S db) {ref : Reference}
    (href : ref ∈ S.references) (hs : ref.strong = true) {r : Row} (hr : r ∈ db ref.table)
    {u : String} (hu : u ∈ r.refs ref.column) : u ∈ (db ref.target).map Row.uuid := by
  have hi := h.integral
  unfold Database.integral at hi
  rw [List.all_eq_true] at hi
  have hi := hi ref href
  rw [hs, Bool.not_true, Bool.false_or] at hi
  simp only [List.all_eq_true] at hi
  exact isSome_find?.mp (hi r hr u hu)

section Sweep

variable {S : Schema} {db : Database}

/-- What is swept is not referred to. -/
theorem integral_sweep (hS : S.Flat) (h : db.integral S = true) : (db.sweep S).integral S = true := by
  unfold Database.integral at h ⊢
  rw [List.all_eq_true] at h ⊢
  intro ref href
  have hr := h ref href
  cases hst : ref.strong with
  | false => rfl
  | true =>
    rw [hst, Bool.not_true, Bool.false_or] at hr
    rw [Bool.not_true, Bool.false_or]
    rw [sweep_root (hS.strong ref href hst)]
    simp only [List.all_eq_true] at hr ⊢
    intro r hmem u hu
    have hsome := hr r hmem u hu
    rw [isSome_find?] at hsome ⊢
    obtain ⟨r', hr', rfl⟩ := List.mem_map.mp hsome
    refine List.mem_map_of_mem ?_
    unfold Database.sweep
    split
    · exact hr'
    · refine List.mem_filter.mpr ⟨hr', ?_⟩
      unfold Database.referenced
      rw [List.any_eq_true]
      refine ⟨ref, href, ?_⟩
      rw [hst, Bool.and_eq_true, List.any_eq_true]
      exact ⟨by simp, r, hmem, by simpa using hu⟩

theorem distinct_sweep (h : db.distinct S = true) : (db.sweep S).distinct S = true := by
  unfold Database.distinct at h ⊢
  rw [List.all_eq_true] at h ⊢
  intro i hi
  have hd := h i hi
  rw [decide_eq_true_eq] at hd ⊢
  refine hd.sublist (List.Sublist.map _ ?_)
  unfold Database.sweep
  split
  · exact List.Sublist.refl _
  · exact List.filter_sublist

end Sweep

/-! ## Named inserts -/

section NamedInserts

variable {S : Schema} {db mid : Database} {t : String} {fresh us rest : List String}
  {ops : List Operation} {answers : List Json} {find : Ref → Option String} {ι : Type}
  {l : List ι} {name : ι → String} {row : ι → Columns Ref} {row' : ι → Columns String}

/-- The rows of several inserts. -/
def insertedRows (S : Schema) (t : String) (us : List String) (l : List (Columns String)) : List Row :=
  List.zipWith (fun u columns => Row.write ⟨u, S.columns t⟩ columns) us l

theorem run_insert_cons {columns : Columns Ref} {columns' : Columns String} {n : Option String}
    {u : String} (hrow : Operation.resolveColumns find columns = some columns') :
    (Operation.insert t columns n).run S find db (u :: fresh) =
      some (.obj [("uuid", .arr [.str "uuid", .str u])],
        db.modify t fun rows => rows ++ [Row.write ⟨u, S.columns t⟩ columns'], fresh) := by
  simp only [Operation.run, hrow, Option.bind_eq_bind, Option.bind_some]

theorem modify_append (rows₁ rows₂ : List Row) :
    (db.modify t fun rows => rows ++ rows₁).modify t (fun rows => rows ++ rows₂) =
      db.modify t fun rows => rows ++ (rows₁ ++ rows₂) := by
  funext t'
  by_cases h : t' = t
  · subst h
    simp [Database.modify]
  · rw [Database.modify_of_ne h, Database.modify_of_ne h, Database.modify_of_ne h]

/-- Inserts take the fresh uuids in order. -/
theorem runAll_inserted (hrow : ∀ i ∈ l, Operation.resolveColumns find (row i) = some (row' i))
    (hlen : us.length = l.length) :
    Operation.runAll S find db (us ++ rest) (l.map (fun i => .insert t (row i) (some (name i))) ++ ops) =
      (Operation.runAll S find
        (db.modify t fun rows => rows ++ insertedRows S t us (l.map row')) rest ops).map
        fun p => (us.map (fun u => .obj [("uuid", .arr [.str "uuid", .str u])]) ++ p.1, p.2) := by
  induction l generalizing db us with
  | nil =>
    obtain rfl := List.length_eq_zero_iff.mp hlen
    have hdb : (db.modify t fun rows => rows ++ insertedRows S t [] (([] : List ι).map row')) = db := by
      funext t'
      by_cases h : t' = t
      · subst h
        simp [Database.modify, insertedRows]
      · exact Database.modify_of_ne h
    rw [hdb]
    simp
  | cons i is ih =>
    obtain ⟨u, us, rfl⟩ := List.exists_cons_of_length_eq_add_one hlen
    have ih := @ih (db.modify t fun rows => rows ++ [Row.write ⟨u, S.columns t⟩ (row' i)]) us
      (fun j hj => hrow j (List.mem_cons_of_mem _ hj)) (Nat.succ.inj hlen)
    have hrows : insertedRows S t (u :: us) ((i :: is).map row') =
        [Row.write ⟨u, S.columns t⟩ (row' i)] ++ insertedRows S t us (is.map row') := rfl
    rw [modify_append, ← hrows] at ih
    rw [List.map_cons, List.cons_append, List.cons_append]
    conv_lhs => unfold Operation.runAll
    rw [run_insert_cons (hrow i List.mem_cons_self), Option.bind_eq_bind, Option.bind_some]
    dsimp only
    rw [ih]
    cases Operation.runAll S find _ rest ops <;> rfl

/-- The names of the inserts stand for these uuids. -/
theorem names_inserted (hlen : us.length = l.length) :
    Database.names (l.map (fun i => .insert t (row i) (some (name i))) ++ ops) (us ++ rest) =
      (l.map name).zip us ++ Database.names ops rest := by
  induction l generalizing us with
  | nil =>
    obtain rfl := List.length_eq_zero_iff.mp hlen
    rfl
  | cons i is ih =>
    obtain ⟨u, us, rfl⟩ := List.exists_cons_of_length_eq_add_one hlen
    rw [List.map_cons, List.map_cons, List.cons_append, List.cons_append, List.zip_cons_cons,
      List.cons_append, ← ih (Nat.succ.inj hlen)]
    rfl

theorem lookup_zip_append {ks : List String} {k u : String} {more : List (String × String)}
    (h : (k, u) ∈ ks.zip us) (hn : ks.Nodup) : List.lookup k (ks.zip us ++ more) = some u := by
  induction ks generalizing us with
  | nil => cases h
  | cons k' ks ih =>
    cases us with
    | nil => cases h
    | cons u' us =>
      rw [List.zip_cons_cons, List.cons_append, List.lookup_cons]
      rcases List.mem_cons.mp h with heq | hin
      · cases heq
        simp
      · have hne : k ≠ k' := by
          rintro rfl
          exact (List.nodup_cons.mp hn).1 (List.of_mem_zip hin).1
        rw [beq_false_of_ne hne]
        exact ih hin (List.nodup_cons.mp hn).2

/-- References by the names of the inserts are to the new rows. -/
theorem mapM_named {ks : List String} {more : List (String × String)} (hn : ks.Nodup)
    (hlen : us.length = ks.length) :
    (ks.map Ref.named).mapM (Database.lookup (ks.zip us ++ more)) = some us := by
  have hall : ∀ (ks' us' : List String), us'.length = ks'.length →
      (∀ e ∈ ks'.zip us', List.lookup e.1 (ks.zip us ++ more) = some e.2) →
      (ks'.map Ref.named).mapM (Database.lookup (ks.zip us ++ more)) = some us' := by
    intro ks'
    induction ks' with
    | nil =>
      intro us' hlen' _
      obtain rfl := List.length_eq_zero_iff.mp hlen'
      rfl
    | cons k ks' ih =>
      intro us' hlen' h
      obtain ⟨u, us', rfl⟩ := List.exists_cons_of_length_eq_add_one hlen'
      have hk : Database.lookup (ks.zip us ++ more) (.named k) = some u := h (k, u) List.mem_cons_self
      rw [List.map_cons, List.mapM_cons, hk,
        ih us' (Nat.succ.inj hlen') fun e he => h e (List.mem_cons_of_mem _ he)]
      rfl
  exact hall ks us hlen fun e he => lookup_zip_append he hn

theorem mapM_uuid {names : List (String × String)} (l : List String) :
    (l.map Ref.uuid).mapM (Database.lookup names) = some l := by
  induction l with
  | nil => rfl
  | cons u us ih =>
    rw [List.map_cons, List.mapM_cons, ih]
    rfl

end NamedInserts

/-! ## Reference columns -/

section Refs

variable {S : Schema} {db : Database} {t c : String} {r : Row} {us : List String}

/-- Mutations of a row that is there. -/
theorem run_mutate_found {find : Ref → Option String} {fresh : List String} {u : String}
    {ms : List Mutation} {g : Row → Row} (hc : Conforms S db)
    (hg : ∀ r, ms.foldlM (Operation.applyMutation find) r = some (g r)) (hf : db.find? t u = some r) :
    (Operation.mutate t u ms).run S find db fresh =
      some (.obj [("count", .num 1)], db.modifyRow t u g, fresh) := by
  simp only [Operation.run, hf, hg r, Option.bind_eq_bind, Option.bind_some, modifyRow_const hc hf]

theorem refs_addRefs (h : r.get c = some (.refs (r.refs c))) :
    (addRefs c us r).refs c = r.refs c ++ us.filter (! (r.refs c).contains ·) := by
  unfold addRefs
  conv_lhs => unfold Row.refs
  rw [Row.get_modify, if_pos rfl, h]
  rfl

theorem refs_dropRefs (h : r.get c = some (.refs (r.refs c))) :
    (dropRefs c us r).refs c = (r.refs c).filter (! us.contains ·) := by
  unfold dropRefs
  conv_lhs => unfold Row.refs
  rw [Row.get_modify, if_pos rfl, h]
  rfl

/-- Whatever is in the column are references. -/
def Row.HoldsRefs (r : Row) (c : String) : Prop := ∀ e ∈ r.columns, e.1 = c → ∃ l, e.2 = .refs l

theorem holdsRefs_modify {f : Datum String → Datum String} (hf : ∀ d, ∃ l, f d = .refs l) :
    (r.modify c f).HoldsRefs c := by
  intro e he hec
  obtain ⟨e₀, -, rfl⟩ := List.mem_map.mp he
  by_cases h : e₀.1 = c
  · rw [if_pos h]
    exact hf e₀.2
  · rw [if_neg h] at hec
    exact absurd hec h

theorem addRefs_nil (h : r.HoldsRefs c) : addRefs c [] r = r := by
  refine Row.modify_eq_self.mpr fun e he hec => ?_
  obtain ⟨l, hl⟩ := h e he hec
  rw [hl]
  exact congrArg Datum.refs (List.append_nil l)

theorem dropRefs_nil (h : r.HoldsRefs c) : dropRefs c [] r = r := by
  refine Row.modify_eq_self.mpr fun e he hec => ?_
  obtain ⟨l, hl⟩ := h e he hec
  rw [hl]
  exact congrArg Datum.refs (List.filter_eq_self.mpr fun _ _ => rfl)

end Refs

/-! ## Operations that spare a column -/

section Spares

variable {S : Schema} {db db' mid : Database} {t c : String} {fresh fresh' : List String}

/-- The operation inserts no row into the table, and does not write the column in it. -/
def Operation.Spares (t c : String) : Operation → Prop
  | .insert t' _ _ => t' ≠ t
  | .update t' _ row => t' = t → ∀ e ∈ row, e.1 ≠ c
  | .mutate t' _ ms => t' = t → ∀ m ∈ ms, m.column ≠ c
  | .delete _ _ => True
  | .select _ _ => True

/-- Every row of the table was there before, with the same content of the column. -/
def Descends (t c : String) (db db' : Database) : Prop :=
  ∀ r ∈ db' t, ∃ r₀ ∈ db t, r₀.uuid = r.uuid ∧ r₀.get c = r.get c

theorem Descends.refl (db : Database) : Descends t c db db := fun r hr => ⟨r, hr, rfl, rfl⟩

theorem Descends.trans (h : Descends t c db mid) (h' : Descends t c mid db') : Descends t c db db' := by
  intro r hr
  obtain ⟨r₁, h₁, hu₁, hg₁⟩ := h' r hr
  obtain ⟨r₀, h₀, hu₀, hg₀⟩ := h r₁ h₁
  exact ⟨r₀, h₀, hu₀.trans hu₁, hg₀.trans hg₁⟩

theorem Descends.of_eq (h : db' t = db t) : Descends t c db db' :=
  fun r hr => ⟨r, h ▸ hr, rfl, rfl⟩

/-- One row changes, but not in the column. -/
theorem descends_modifyRow {t' u : String} {g : Row → Row}
    (hg : t' = t → ∀ r ∈ db t, r.uuid = u →
      ∃ r₀ ∈ db t, r₀.uuid = (g r).uuid ∧ r₀.get c = (g r).get c) :
    Descends t c db (db.modifyRow t' u g) := by
  intro r hr
  rw [modifyRow_eq_map] at hr
  obtain ⟨r₁, h₁, rfl⟩ := List.mem_map.mp hr
  split
  · next h => exact hg h.1.symm r₁ h₁ h.2
  · exact ⟨r₁, h₁, rfl, rfl⟩

theorem Operation.Spares.run {op : Operation} {find : Ref → Option String} {a : Json}
    (hop : op.Spares t c) (h : op.run S find db fresh = some (a, mid, fresh')) :
    Descends t c db mid := by
  cases op with
  | insert t' row name =>
    obtain ⟨columns, -, h⟩ := Option.bind_eq_some_iff.mp h
    cases fresh with
    | nil => cases h
    | cons u us =>
      cases h
      exact .of_eq (Database.modify_of_ne (Ne.symm hop))
  | update t' u row =>
    obtain ⟨columns, hcols, h⟩ := Option.bind_eq_some_iff.mp h
    cases h
    refine descends_modifyRow fun ht r hr _ => ⟨r, hr, Row.uuid_write.symm, ?_⟩
    refine (Row.get_write_of_not_mem fun e he => ?_).symm
    obtain ⟨e₀, he₀, hre⟩ := mapM_mem hcols he
    obtain ⟨d, -, rfl⟩ := Option.map_eq_some_iff.mp hre
    exact Ne.symm (hop ht e₀ he₀)
  | mutate t' u ms =>
    simp only [Operation.run] at h
    cases hf : db.find? t' u with
    | none =>
      rw [hf] at h
      cases h
      exact .refl db
    | some r₀ =>
      rw [hf] at h
      obtain ⟨r', hm, h⟩ := Option.bind_eq_some_iff.mp h
      cases h
      refine descends_modifyRow fun ht _ _ _ => ⟨r₀, ht ▸ (Database.find?_some hf).1, ?_, ?_⟩
      · exact (get_mutations hm).1.symm
      · exact ((get_mutations hm).2 c (hop ht)).symm
  | delete t' u =>
    cases h
    intro r hr
    refine ⟨r, ?_, rfl, rfl⟩
    by_cases ht : t = t'
    · subst ht
      rw [Database.modify_self] at hr
      exact (List.mem_filter.mp hr).1
    · rwa [Database.modify_of_ne ht] at hr
  | select t' columns =>
    cases h
    exact .refl db

theorem descends_runAll {ops : List Operation} {find : Ref → Option String} {answers : List Json}
    (hops : ∀ op ∈ ops, op.Spares t c)
    (h : Operation.runAll S find db fresh ops = some (answers, mid)) : Descends t c db mid := by
  induction ops generalizing db fresh answers with
  | nil =>
    cases h
    exact .refl _
  | cons op ops ih =>
    obtain ⟨a, db₁, fresh₁, as, hrun, hall⟩ := runAll_cons h
    exact ((hops op List.mem_cons_self).run hrun).trans
      (ih (fun op hmem => hops op (List.mem_cons_of_mem _ hmem)) hall)

/-- A transaction of such operations makes no row in a root table. -/
theorem descends_transact {ops : List Operation} {answers : List Json} (hS : S.Flat)
    (ht : S.isRoot t = true)
    (hops : ∀ op ∈ ops, op.Spares t c) (h : db.transact S fresh ops = some (answers, db')) :
    Descends t c db db' := by
  obtain ⟨mid, htr⟩ := transacted h
  exact (descends_runAll hops htr.run).trans (.of_eq (htr.root hS ht))

end Spares

/-! ## Properties of all rows -/

section AllRows

variable {S : Schema} {db db' mid : Database} {t c : String} {P : Row → Prop} {fresh fresh' : List String}
  {find : Ref → Option String} {a : Json}

/-- The property is not about weak references. -/
def Schema.Blind (S : Schema) (t : String) (P : Row → Prop) : Prop :=
  ∀ db r, P r → P (forgetRow S db t r)

theorem Schema.Blind.and {Q : Row → Prop} (hP : S.Blind t P) (hQ : S.Blind t Q) :
    S.Blind t fun r => P r ∧ Q r := fun db r hr => ⟨hP db r hr.1, hQ db r hr.2⟩

/-- The rows that the operation makes in the table have the property, if they get a uuid that the new
content may get, and the rows that it changes keep it. -/
def Operation.KeepsIf (may : String → Columns Ref → Prop) (S : Schema) (t : String) (P : Row → Prop) :
    Operation → Prop
  | .insert t' row _ => t' = t → ∀ find columns u, may u row → resolveColumns find row = some columns →
      P (Row.write ⟨u, S.columns t⟩ columns)
  | .update t' u row => t' = t → ∀ find columns r, resolveColumns find row = some columns →
      r.uuid = u → P r → P (r.write columns)
  | .mutate t' _ ms => t' = t → ∀ find r r', ms.foldlM (applyMutation find) r = some r' → P r → P r'
  | .delete _ _ => True
  | .select _ _ => True

/-- The same for any uuid. -/
abbrev Operation.Keeps (S : Schema) (t : String) (P : Row → Prop) : Operation → Prop :=
  Operation.KeepsIf (fun _ _ => True) S t P

/-- The rows that the operations insert: their tables, uuids and contents. -/
def newRows : List Operation → List String → List (String × String × Columns Ref)
  | .insert t row _ :: ops, u :: fresh => (t, u, row) :: newRows ops fresh
  | .insert _ _ _ :: _, [] => []
  | _ :: ops, fresh => newRows ops fresh
  | [], _ => []

theorem all_modifyRow {t' u : String} {g : Row → Row} (hdb : ∀ r ∈ db t, P r)
    (hg : t' = t → ∀ r ∈ db t, r.uuid = u → P (g r)) : ∀ r ∈ db.modifyRow t' u g t, P r := by
  intro r hr
  rw [modifyRow_eq_map] at hr
  obtain ⟨r₁, h₁, rfl⟩ := List.mem_map.mp hr
  split
  · next h => exact hg h.1.symm r₁ h₁ h.2
  · exact hdb r₁ h₁

theorem Operation.KeepsIf.run {may : String → Columns Ref → Prop} {op : Operation}
    (hop : op.KeepsIf may S t P) (hdb : ∀ r ∈ db t, P r)
    (h : op.run S find db fresh = some (a, mid, fresh'))
    (hmay : ∀ u row, (t, u, row) ∈ newRows [op] fresh → may u row) : ∀ r ∈ mid t, P r := by
  cases op with
  | insert t' row name =>
    obtain ⟨columns, hcols, h⟩ := Option.bind_eq_some_iff.mp h
    cases fresh with
    | nil => cases h
    | cons u us =>
      cases h
      intro r hr
      by_cases ht : t = t'
      · subst ht
        rw [Database.modify_self] at hr
        rcases List.mem_append.mp hr with hold | hnew
        · exact hdb r hold
        · rw [List.mem_singleton.mp hnew]
          exact hop rfl find columns u (hmay u row List.mem_cons_self) hcols
      · rw [Database.modify_of_ne ht] at hr
        exact hdb r hr
  | update t' u row =>
    obtain ⟨columns, hcols, h⟩ := Option.bind_eq_some_iff.mp h
    cases h
    exact all_modifyRow hdb fun ht r hr hu => hop ht find columns r hcols hu (hdb r hr)
  | mutate t' u ms =>
    simp only [Operation.run] at h
    cases hf : db.find? t' u with
    | none =>
      rw [hf] at h
      cases h
      exact hdb
    | some r₀ =>
      rw [hf] at h
      obtain ⟨r', hm, h⟩ := Option.bind_eq_some_iff.mp h
      cases h
      exact all_modifyRow hdb fun ht _ _ _ =>
        hop ht find r₀ r' hm (hdb r₀ (ht ▸ (Database.find?_some hf).1))
  | delete t' u =>
    cases h
    intro r hr
    by_cases ht : t = t'
    · subst ht
      rw [Database.modify_self] at hr
      exact hdb r (List.mem_filter.mp hr).1
    · rw [Database.modify_of_ne ht] at hr
      exact hdb r hr
  | select t' columns =>
    cases h
    exact hdb

/-- The first operation takes the uuid of its row, and the others take the rest. -/
theorem newRows_cons {op : Operation} {ops : List Operation}
    (h : op.run S find db fresh = some (a, mid, fresh')) :
    newRows (op :: ops) fresh = newRows [op] fresh ++ newRows ops fresh' := by
  cases op with
  | insert t' row name =>
    obtain ⟨columns, -, h⟩ := Option.bind_eq_some_iff.mp h
    cases fresh with
    | nil => cases h
    | cons u us =>
      cases h
      rfl
  | update t' u row =>
    obtain ⟨columns, -, h⟩ := Option.bind_eq_some_iff.mp h
    cases h
    rfl
  | mutate t' u ms =>
    simp only [Operation.run] at h
    cases hf : db.find? t' u with
    | none =>
      rw [hf] at h
      cases h
      rfl
    | some r₀ =>
      rw [hf] at h
      obtain ⟨r', -, h⟩ := Option.bind_eq_some_iff.mp h
      cases h
      rfl
  | delete t' u =>
    cases h
    rfl
  | select t' columns =>
    cases h
    rfl

theorem all_runAll {may : String → Columns Ref → Prop} {ops : List Operation} {answers : List Json}
    (hops : ∀ op ∈ ops, op.KeepsIf may S t P) (hdb : ∀ r ∈ db t, P r)
    (h : Operation.runAll S find db fresh ops = some (answers, mid))
    (hmay : ∀ u row, (t, u, row) ∈ newRows ops fresh → may u row) : ∀ r ∈ mid t, P r := by
  induction ops generalizing db fresh answers with
  | nil =>
    cases h
    exact hdb
  | cons op ops ih =>
    obtain ⟨a, db₁, fresh₁, as, hrun, hall⟩ := runAll_cons h
    rw [newRows_cons hrun] at hmay
    exact ih (fun op hmem => hops op (List.mem_cons_of_mem _ hmem))
      ((hops op List.mem_cons_self).run hdb hrun fun u row hmem => hmay u row (List.mem_append_left _ hmem))
      hall fun u row hmem => hmay u row (List.mem_append_right _ hmem)

/-- What the operations of a transaction keep of each row, the transaction keeps: it only removes rows
and weak references besides. -/
theorem all_transact_if {may : String → Columns Ref → Prop} {ops : List Operation} {answers : List Json}
    (hP : S.Blind t P) (hops : ∀ op ∈ ops, op.KeepsIf may S t P) (hdb : ∀ r ∈ db t, P r)
    (h : db.transact S fresh ops = some (answers, db'))
    (hmay : ∀ u row, (t, u, row) ∈ newRows ops fresh → may u row) : ∀ r ∈ db' t, P r := by
  obtain ⟨mid, htr⟩ := transacted h
  have hmid : ∀ r ∈ mid t, P r := all_runAll hops hdb htr.run hmay
  intro r hr
  rw [htr.eq, forget_eq] at hr
  obtain ⟨r₁, h₁, rfl⟩ := List.mem_map.mp hr
  refine hP _ r₁ (hmid r₁ ?_)
  unfold Database.sweep at h₁
  split at h₁
  · exact h₁
  · exact (List.mem_filter.mp h₁).1

theorem all_transact {ops : List Operation} {answers : List Json} (hP : S.Blind t P)
    (hops : ∀ op ∈ ops, op.Keeps S t P) (hdb : ∀ r ∈ db t, P r)
    (h : db.transact S fresh ops = some (answers, db')) : ∀ r ∈ db' t, P r :=
  all_transact_if hP hops hdb h fun _ _ _ => trivial

/-! ### Rows that stay -/

/-- The operation removes no row of the table and leaves the column of those that it holds. -/
def Operation.Retains (t c : String) : Operation → Prop
  | .insert _ _ _ => True
  | .update t' _ row => t' = t → ∀ e ∈ row, e.1 ≠ c
  | .mutate t' _ _ => t' ≠ t
  | .delete t' _ => t' ≠ t
  | .select _ _ => True

/-- Every row of the table is still there, with the same content of the column. -/
def Retained (t c : String) (db db' : Database) : Prop :=
  ∀ r ∈ db t, ∃ r' ∈ db' t, r'.uuid = r.uuid ∧ r'.get c = r.get c

theorem Retained.refl (db : Database) : Retained t c db db := fun r hr => ⟨r, hr, rfl, rfl⟩

theorem Retained.trans (h : Retained t c db mid) (h' : Retained t c mid db') : Retained t c db db' := by
  intro r hr
  obtain ⟨r₁, h₁, hu₁, hg₁⟩ := h r hr
  obtain ⟨r₂, h₂, hu₂, hg₂⟩ := h' r₁ h₁
  exact ⟨r₂, h₂, hu₂.trans hu₁, hg₂.trans hg₁⟩

theorem Retained.of_eq (h : db' t = db t) : Retained t c db db' :=
  fun r hr => ⟨r, h ▸ hr, rfl, rfl⟩

theorem Operation.Retains.run {op : Operation} (hop : op.Retains t c)
    (h : op.run S find db fresh = some (a, mid, fresh')) : Retained t c db mid := by
  cases op with
  | insert t' row name =>
    obtain ⟨columns, -, h⟩ := Option.bind_eq_some_iff.mp h
    cases fresh with
    | nil => cases h
    | cons u us =>
      cases h
      by_cases ht : t = t'
      · subst ht
        refine fun r hr => ⟨r, ?_, rfl, rfl⟩
        rw [Database.modify_self]
        exact List.mem_append_left _ hr
      · exact .of_eq (Database.modify_of_ne ht)
  | update t' u row =>
    obtain ⟨columns, hcols, h⟩ := Option.bind_eq_some_iff.mp h
    cases h
    intro r hr
    rw [modifyRow_eq_map]
    refine ⟨_, List.mem_map_of_mem hr, ?_⟩
    split
    · next ht =>
      refine ⟨Row.uuid_write, Row.get_write_of_not_mem fun e he => ?_⟩
      obtain ⟨e₀, he₀, hre⟩ := mapM_mem hcols he
      obtain ⟨d, -, rfl⟩ := Option.map_eq_some_iff.mp hre
      exact Ne.symm (hop ht.1.symm e₀ he₀)
    · exact ⟨rfl, rfl⟩
  | mutate t' u ms =>
    simp only [Operation.run] at h
    cases hf : db.find? t' u with
    | none =>
      rw [hf] at h
      cases h
      exact .refl db
    | some r₀ =>
      rw [hf] at h
      obtain ⟨r', -, h⟩ := Option.bind_eq_some_iff.mp h
      cases h
      exact .of_eq (Database.modify_of_ne (Ne.symm hop))
  | delete t' u =>
    cases h
    exact .of_eq (Database.modify_of_ne (Ne.symm hop))
  | select t' columns =>
    cases h
    exact .refl db

theorem retained_runAll {ops : List Operation} {answers : List Json} (hops : ∀ op ∈ ops, op.Retains t c)
    (h : Operation.runAll S find db fresh ops = some (answers, mid)) : Retained t c db mid := by
  induction ops generalizing db fresh answers with
  | nil =>
    cases h
    exact .refl _
  | cons op ops ih =>
    obtain ⟨a, db₁, fresh₁, as, hrun, hall⟩ := runAll_cons h
    exact ((hops op List.mem_cons_self).run hrun).trans
      (ih (fun op hmem => hops op (List.mem_cons_of_mem _ hmem)) hall)

/-- The rows of a root table stay through a transaction of such operations. -/
theorem retained_transact {ops : List Operation} {answers : List Json} (hS : S.Flat)
    (ht : S.isRoot t = true) (hops : ∀ op ∈ ops, op.Retains t c)
    (h : db.transact S fresh ops = some (answers, db')) : Retained t c db db' := by
  obtain ⟨mid, htr⟩ := transacted h
  exact (retained_runAll hops htr.run).trans (.of_eq (htr.root hS ht))

end AllRows

end Ovsdb
