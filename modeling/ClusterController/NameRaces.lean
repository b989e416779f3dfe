import ClusterController.OvnActions
import ClusterController.Lib.Interleaving

/-!
# Clients that create what is missing

`create_if_missing` looks a name up in one transaction and inserts it in another. Any number of
clients do so on one database, and their transactions interleave. Names of ports are an index of
the schema. Those of switches and routers are not, so that two clients can both find that a name
is missing.
-/

namespace ClusterController

open Interaction (Program Machine Terms Regime Contract)
open Interaction.Contract (wp_mono wp_bind wp_attempt wp_of_within)
open Ovsdb (Json Row Columns Database Conforms Consistent Operation Ref FitColumns Transacted transacted
  modifyRow_eq_map)

/-! ## Clients -/

/-- A call of one of the four `create_if_missing`. -/
inductive CreateCall : Type
  | switch (name : String)
  | router (name : String)
  | switchPort (ls : LogicalSwitch) (name : String) (extraParams : Columns Ref)
      (fit : FitColumns (northboundColumns typeLogicalSwitchPort)
        (extraParams ++ [("name", .strings [name])]))
  | routerPort (lr : LogicalRouter) (name networks : String)

/-- The program of a call. Its result does not matter here. -/
def CreateCall.program : CreateCall → Prog Unit
  | .switch name => do
    let _ ← createIfMissing LogicalSwitch name
  | .router name => do
    let _ ← createIfMissing LogicalRouter name
  | .switchPort ls name extraParams _ => do
    let _ ← LogicalSwitchPort.createIfMissing ls name extraParams
  | .routerPort lr name networks => do
    let _ ← LogicalRouterPort.createIfMissing lr name networks

/-- The database. Beside it stands, for each client, which switches and routers the others have
created since its last transaction. -/
structure Shared (C : Type) where
  db : Database
  news : C → List (String × String)

/-- The operations of a transaction. -/
def Request.operations : Request → Option (List Operation)
  | .transact operations => some operations
  | _ => none

/-- The table and the name of the row that a transaction of one insert creates. -/
def createdRow : List Operation → Option (String × String)
  | [.insert T [("name", .strings [name])] _] => some (T, name)
  | _ => none

/-- Whether the transaction of a client takes effect. -/
def TakesEffect (db : Database) (x : Choice) (operations : List Operation) : Prop :=
  x.delivery ≠ .failed ∧ (db.transact northbound x.fresh operations).isSome = true

section Clients

variable {C : Type} [DecidableEq C]

/-- The others learn what a client has created. -/
def Shared.tell (s : Shared C) (c : C) (created : Option (String × String)) :
    C → List (String × String) :=
  fun c' => if c' = c then [] else created.toList ++ s.news c'

/-- Carry out a transaction of a client. It may fail, or its answer may be lost. -/
def Shared.transact (s : Shared C) (c : C) (x : Choice) (operations : List Operation) :
    Option (List Json) × Shared C :=
  match x.delivery, s.db.transact northbound x.fresh operations with
  | .served, some (answers, db) => (some answers, ⟨db, s.tell c (createdRow operations)⟩)
  | .lost, some (_, db) => (none, ⟨db, s.tell c (createdRow operations)⟩)
  | _, _ => (none, { s with news := s.tell c none })

def Shared.answer (c : C) (s : Shared C) : (r : Request) → Choice → Option (r.Answer × Shared C)
  | .transact operations, x => some (s.transact c x operations)
  | _, _ => none

/-- The clients. Each makes one call after the other, and may give one up half way. -/
def clients (C : Type) [DecidableEq C] :
    Machine C Request Request.Answer Error Unit (Shared C) Choice CreateCall Empty where
  answer := Shared.answer
  launch _ s call := some (call.program, s)
  release _ s := s
  world _ e := e.elim

abbrev ClientEvent (C : Type) := Interaction.Event C Request Choice CreateCall Empty

abbrev ClientConfig (C : Type) := Interaction.Config C Request Request.Answer Error Unit (Shared C)

/-- The clients before their first call. -/
def ClientConfig.start (C : Type) (db : Database) : ClientConfig C :=
  ⟨⟨db, fun _ => []⟩, fun _ => none⟩

/-! ## Names -/

/-- The names in a table. -/
def namesOf (db : Database) (T : String) : List String := (db T).map fun r => rowText r "name"

def namedTables : List String :=
  [typeLogicalSwitch, typeLogicalRouter, typeLogicalSwitchPort, typeLogicalRouterPort]

/-- No table of switches, routers and their ports has two rows of one name. -/
def UniqueNames (db : Database) : Prop := ∀ T ∈ namedTables, (namesOf db T).Nodup

/-- The name of every row leads to that row. -/
def NamesDenote (db : Database) : Prop :=
  ∀ T ∈ namedTables, ∀ r ∈ db T, named db T (rowText r "name") = some r

/-- Names that are unique denote one row each. -/
theorem UniqueNames.denote {db : Database} (h : UniqueNames db) : NamesDenote db := by
  intro T hT r hr
  cases hf : named db T (rowText r "name") with
  | none => exact absurd rfl (firstWith_none.mp hf r hr)
  | some r' =>
    obtain ⟨hr', hname⟩ := firstWith_some hf
    rw [List.inj_on_of_nodup_map (h T hT) hr' hr hname]

/-- No insert of a switch or router takes effect when another client has created one of that
name since the lookup. -/
def Timely (s : Shared C) : ClientEvent C → Prop
  | .call c r x => ∀ operations ∈ r.operations, ∀ created ∈ createdRow operations,
      created ∈ s.news c → ¬TakesEffect s.db x operations
  | _ => True

instance (db : Database) (x : Choice) (operations : List Operation) :
    Decidable (TakesEffect db x operations) := inferInstanceAs (Decidable (_ ∧ _))

instance (s : Shared C) : (e : ClientEvent C) → Decidable (Timely s e)
  | .call c r x => inferInstanceAs (Decidable (∀ operations ∈ r.operations,
      ∀ created ∈ createdRow operations, created ∈ s.news c → ¬TakesEffect s.db x operations))
  | .start _ _ => .isTrue trivial
  | .stop _ => .isTrue trivial
  | .world _ => .isTrue trivial

end Clients

/-! ## What a transaction does to the names -/

/-- The table is one of those whose names are no index. -/
def Unindexed (T : String) : Prop := T = typeLogicalSwitch ∨ T = typeLogicalRouter

/-- The transactions that clients make. -/
inductive ClientOps : List Operation → Prop
  | select (T : String) (columns : List String) : ClientOps [.select T columns]
  | create {T : String} (hT : Unindexed T) (name : String) :
      ClientOps [.insert T [("name", .strings [name])] none]
  | port {P T : String} {row : Columns Ref}
      (hP : ⟨P, "ports", T, true⟩ ∈ northbound.references)
      (fit : FitColumns (northboundColumns T) row) (p name : String) :
      ClientOps [.insert T row (some name), .mutate P p [⟨"ports", true, [.named name]⟩]]

section Names

variable {db db' : Database} {T : String} {fresh : List String} {operations : List Operation}
  {answers : List Json}

theorem Unindexed.root (h : Unindexed T) : northbound.isRoot T = true := by
  rcases h with rfl | rfl <;> rfl

theorem Unindexed.name (h : Unindexed T) : ("name", .strings [""]) ∈ northboundColumns T := by
  rcases h with rfl | rfl <;> decide

theorem Unindexed.stores (h : Unindexed T) : northbound.Stores T := by
  rcases h with rfl | rfl
  · exact ⟨⟨typeLogicalSwitch, "ports", typeLogicalSwitchPort, true⟩, .head _, .inl rfl⟩
  · exact ⟨⟨typeLogicalRouter, "ports", typeLogicalRouterPort, true⟩, .tail _ (.head _), .inl rfl⟩

theorem ports_reference {P : String} (h : ⟨P, "ports", T, true⟩ ∈ northbound.references) :
    Unindexed P ∧ northbound.isRoot T = false ∧ ("ports", .refs []) ∈ northboundColumns P := by
  simp only [northbound, List.mem_cons, List.not_mem_nil, or_false] at h
  rcases h with h | h | h | h <;> obtain ⟨rfl, hc, rfl, -⟩ := Ovsdb.Reference.mk.inj h
  · exact ⟨.inl rfl, by decide, by decide⟩
  · exact ⟨.inr rfl, by decide, by decide⟩
  · exact absurd hc (by decide)
  · exact absurd hc (by decide)

/-- A port is created, and the names of switches and routers stay. -/
theorem namesOf_port {P p name : String} {row : Columns Ref}
    (hP : ⟨P, "ports", T, true⟩ ∈ northbound.references)
    (fit : FitColumns (northboundColumns T) row) (hc : Consistent northbound db)
    (h : db.transact northbound fresh [.insert T row (some name),
      .mutate P p [⟨"ports", true, [.named name]⟩]] = some (answers, db')) :
    Consistent northbound db' ∧ ∀ T', Unindexed T' → namesOf db' T' = namesOf db T' := by
  obtain ⟨hplain, hroot, hcol⟩ := ports_reference hP
  obtain ⟨mid, htr⟩ := transacted h
  have hne : ∀ T', Unindexed T' → T' ≠ T := by
    rintro T' hT' rfl
    rw [hT'.root] at hroot
    cases hroot
  have hcons := htr.consistent flat_northbound hc fun op hop => by
    rcases List.mem_cons.mp hop with rfl | hop
    · exact ⟨⟨_, hP, .inr rfl⟩, fit⟩
    · rw [List.mem_singleton.mp hop]
      intro m hm e he hec
      obtain rfl := List.mem_singleton.mp hm
      have h₁ := Ovsdb.lookup_of_mem (flat_northbound.nodup P) he
      rw [hec] at h₁
      exact ⟨[], Option.some.inj (h₁.symm.trans
        (Ovsdb.lookup_of_mem (flat_northbound.nodup P) hcol))⟩
  have hall : Operation.runAll northbound _ db fresh ([.insert T row (some name)] ++
      [.mutate P p [⟨"ports", true, [.named name]⟩]]) = some (answers, mid) := htr.run
  obtain ⟨db₁, fresh₁, a, fresh₂, hsame, hrun⟩ := Ovsdb.runAll_inserts
    (fun op hop => ⟨row, some name, List.mem_singleton.mp hop⟩) hall
  obtain ⟨g, hg, rfl⟩ := Ovsdb.run_mutate_column
    (by rw [hsame P (hne P hplain)]; exact hc.conforms.unique P)
    (c := "ports") (by simp) hrun
  refine ⟨hcons, fun T' hT' => ?_⟩
  unfold namesOf
  rw [htr.root flat_northbound hT'.root, modifyRow_eq_map, hsame T' (hne T' hT'), List.map_map]
  refine List.map_congr_left fun r hr => ?_
  rw [Function.comp_apply]
  split
  · next hu =>
    have hr₁ : r ∈ db₁ P := by
      rw [← hu.1, hsame T' (hne T' hT')]
      exact hr
    unfold rowText
    rw [(hg r hr₁ hu.2).2 "name" (by decide)]
  · rfl

/-- Among the names of switches and routers only that of a created row is new. -/
theorem namesOf_clientOps (hops : ClientOps operations) (hc : Consistent northbound db)
    (h : db.transact northbound fresh operations = some (answers, db')) :
    Consistent northbound db' ∧ ∀ T, Unindexed T → namesOf db' T =
      namesOf db T ++ ((createdRow operations).toList.filter fun e => e.1 = T).map Prod.snd := by
  cases hops with
  | select T columns =>
    obtain ⟨rfl, -⟩ := hc.select h
    exact ⟨hc, fun T _ => by simp [createdRow]⟩
  | @create T hT name =>
    obtain ⟨hcons, u, -, rfl⟩ := transact_insert hT.root hT.stores (resolve_text _ _)
      (fit_one (.strings [name]) hT.name fun _ => rfl) hc h
    refine ⟨hcons, fun T' _ => ?_⟩
    unfold namesOf
    by_cases hTT : T' = T
    · subst hTT
      rw [Database.modify_self, List.map_append]
      simp [createdRow, rowText_namedRow hT.name]
    · rw [Database.modify_of_ne hTT]
      simp [createdRow, Ne.symm hTT]
  | @port P T row hP fit p name =>
    obtain ⟨hcons, hnames⟩ := namesOf_port hP fit hc h
    exact ⟨hcons, fun T' hT' => by simp [hnames T' hT', createdRow]⟩

/-- The names of ports are an index. -/
theorem nodup_namesOf_ports (hc : Consistent northbound db)
    (hT : T = typeLogicalSwitchPort ∨ T = typeLogicalRouterPort) : (namesOf db T).Nodup := by
  have hindex : (T, "name") ∈ northbound.indexes := by
    rcases hT with rfl | rfl <;> decide
  have hcol : ("name", .strings [""]) ∈ northboundColumns T := by
    rcases hT with rfl | rfl <;> decide
  have hd := hc.distinct
  unfold Database.distinct at hd
  rw [List.all_eq_true] at hd
  have hd := of_decide_eq_true (hd _ hindex)
  have hget : (db T).map (fun r => r.get "name") =
      (namesOf db T).map fun name => some (.strings [name]) := by
    unfold namesOf
    rw [List.map_map]
    exact List.map_congr_left fun r hr => get_of_text (hc.conforms.typed T r hr) hcol
  dsimp only at hd
  rw [hget] at hd
  exact hd.of_map _

end Names

/-! ## Contracts of the clients -/

section Contracts

variable {C : Type} {c : C} {s t : Shared C}

/-- The names of switches and routers are unique. -/
structure NamesOnce (s : Shared C) : Prop where
  consistent : Consistent northbound s.db
  unique : ∀ T, Unindexed T → (namesOf s.db T).Nodup

/-- What is new among the names has been told. -/
def Told (c : C) (s t : Shared C) : Prop :=
  ∃ es, t.news c = es ++ s.news c ∧
    ∀ T name, Unindexed T → name ∈ namesOf t.db T → name ∈ namesOf s.db T ∨ (T, name) ∈ es

theorem told_refl (c : C) (s : Shared C) : Told c s s := ⟨[], rfl, fun _ _ _ h => .inl h⟩

theorem told_trans {u : Shared C} (h₁ : Told c s t) (h₂ : Told c t u) : Told c s u := by
  obtain ⟨es, hes, hnames⟩ := h₁
  obtain ⟨es', hes', hnames'⟩ := h₂
  refine ⟨es' ++ es, by rw [hes', hes, List.append_assoc], fun T name hT hn => ?_⟩
  rcases hnames' T name hT hn with hn | he
  · rcases hnames T name hT hn with hn | he
    · exact .inl hn
    · exact .inr (List.mem_append_right _ he)
  · exact .inr (List.mem_append_left _ he)

/-- A client makes its own transactions only, and creates no name that is there. -/
def CreatesNew (s : Shared C) (r : Request) (t : Shared C) : Prop :=
  ∃ operations, r = .transact operations ∧ ClientOps operations ∧
    ∀ T name, createdRow operations = some (T, name) → name ∈ namesOf s.db T → t.db = s.db

variable [DecidableEq C]

/-- A transaction takes effect, or it is not answered. -/
theorem shared_transact {x : Choice} {operations : List Operation} {a : Option (List Json)}
    (h : s.transact c x operations = (a, t)) :
    (∃ answers db, s.db.transact northbound x.fresh operations = some (answers, db) ∧
      TakesEffect s.db x operations ∧ t = ⟨db, s.tell c (createdRow operations)⟩ ∧
      ∀ as, a = some as → as = answers) ∨
      (t = { s with news := s.tell c none } ∧ a = none) := by
  unfold Shared.transact at h
  cases htr : s.db.transact northbound x.fresh operations with
  | none =>
    rw [htr] at h
    cases hx : x.delivery <;> (rw [hx] at h; cases h; exact .inr ⟨rfl, rfl⟩)
  | some p =>
    obtain ⟨answers, db⟩ := p
    have heff : x.delivery ≠ .failed → TakesEffect s.db x operations :=
      fun hx => ⟨hx, by rw [htr]; rfl⟩
    rw [htr] at h
    cases hx : x.delivery with
    | served =>
      rw [hx] at h
      cases h
      exact .inl ⟨answers, db, rfl, heff (by simp [hx]), rfl, fun as h => (Option.some.inj h).symm⟩
    | lost =>
      rw [hx] at h
      cases h
      exact .inl ⟨answers, db, rfl, heff (by simp [hx]), rfl, nofun⟩
    | failed =>
      rw [hx] at h
      cases h
      exact .inr ⟨rfl, rfl⟩

/-- A transaction that creates no name that is there keeps the names unique, and the others are
told what is new. -/
theorem namesOnce_transact {x : Choice} {operations : List Operation} {a : Option (List Json)}
    (hops : ClientOps operations) (hi : NamesOnce s) (h : s.transact c x operations = (a, t))
    (hnew : ∀ T name, createdRow operations = some (T, name) → name ∈ namesOf s.db T → t.db = s.db) :
    NamesOnce t ∧ ∀ c', c' ≠ c → Told c' s t := by
  rcases shared_transact h with ⟨answers, db, htr, -, rfl, -⟩ | ⟨rfl, -⟩
  · obtain ⟨hcons, hnames⟩ := namesOf_clientOps hops hi.consistent htr
    refine ⟨⟨hcons, fun T hT => ?_⟩, fun c' hc' => ?_⟩
    · change (namesOf db T).Nodup
      cases hcr : createdRow operations with
      | none => simpa [hnames T hT, hcr] using hi.unique T hT
      | some e =>
        obtain ⟨T', name⟩ := e
        by_cases hTT : T' = T
        · subst hTT
          have hdb := hnames T' hT
          rw [hcr] at hdb
          simp only [Option.toList_some, List.filter_cons, decide_true, if_true, List.filter_nil,
            List.map_cons, List.map_nil] at hdb
          have hnot : name ∉ namesOf s.db T' := by
            intro hn
            have hsame : db = s.db := hnew T' name hcr hn
            rw [hsame] at hdb
            simp at hdb
          rw [hdb]
          simpa using (hi.unique T' hT).concat hnot
        · simpa [hnames T hT, hcr, hTT] using hi.unique T hT
    · refine ⟨(createdRow operations).toList, by simp [Shared.tell, hc'], fun T name hT hn => ?_⟩
      have hn' : name ∈ namesOf db T := hn
      rw [hnames T hT, List.mem_append] at hn'
      rcases hn' with hn' | hn'
      · exact .inl hn'
      · obtain ⟨⟨T', name'⟩, he, rfl⟩ := List.mem_map.mp hn'
        obtain ⟨hcr, hT'⟩ := List.mem_filter.mp he
        obtain rfl : T' = T := by simpa using hT'
        exact .inr hcr
  · exact ⟨⟨hi.consistent, hi.unique⟩, fun c' hc' => ⟨[], by simp [Shared.tell, hc'],
      fun T name _ hn => .inl hn⟩⟩

/-! ## What a call does -/

/-- The terms of the clients. -/
def clientTerms (C : Type) : Terms C Request (Shared C) where
  inv := NamesOnce
  rely := Told
  guar _ := CreatesNew

abbrev clientContract (c : C) : Contract Request Request.Answer (Shared C) :=
  (clientTerms C).contract (clients C) Timely c

variable {α β : Type} {post : Except Error β → Shared C → Prop}

/-- A transaction of a client, from what it knew at its last one. -/
theorem wp_transact {operations : List Operation} {f : List Json → Prog β}
    (hops : ClientOps operations)
    (hnew : ∀ s₁ T name, Told c s s₁ → createdRow operations = some (T, name) →
      name ∈ namesOf s₁.db T → (T, name) ∈ s₁.news c)
    (hf : ∀ s₁ fresh answers db, NamesOnce s₁ →
      s₁.db.transact northbound fresh operations = some (answers, db) →
      (clientContract c).wp (f answers) post ⟨db, s₁.tell c (createdRow operations)⟩) :
    (clientContract c).wp (transact operations >>= f) post s := by
  intro s₁ hrely hi a t hexec
  obtain ⟨x, htimely, hx⟩ := hexec
  have htr : s₁.transact c x operations = (a, t) := Option.some.inj hx
  refine ⟨⟨operations, rfl, hops, fun T name hcr hn => ?_⟩, ?_⟩
  · rcases shared_transact htr with ⟨answers, db, -, heff, rfl, -⟩ | ⟨rfl, -⟩
    · exact absurd heff (htimely operations rfl (T, name) hcr (hnew s₁ T name hrely hcr hn))
    · rfl
  · rcases shared_transact htr with ⟨answers, db, hdb, -, rfl, ha⟩ | ⟨rfl, rfl⟩
    · cases a with
      | none => trivial
      | some as =>
        cases ha as rfl
        exact hf s₁ x.fresh _ db hi hdb
    · trivial

/-- A select, after which the client has heard of nothing. -/
theorem wp_select {T : String} {columns : List String} {f : List Json → Prog β}
    (hf : ∀ s₁ fresh answers, NamesOnce s₁ →
      s₁.db.transact northbound fresh [.select T columns] = some (answers, s₁.db) → s₁.news c = [] →
      (clientContract c).wp (f answers) post s₁) :
    (clientContract c).wp (transact [.select T columns] >>= f) post s := by
  refine wp_transact (.select T columns) nofun fun s₁ fresh answers db hi htr => ?_
  obtain ⟨rfl, -⟩ := hi.consistent.select htr
  exact hf _ fresh answers ⟨hi.consistent, hi.unique⟩ htr (by simp [Shared.tell])

/-- A lookup fails with the answer that the name is not there only if it is not. -/
theorem wp_getByName (τ : Type) [OvnNamed τ] [OvnRow τ] [NamedRow τ] (name : String) :
    (clientContract c).wp (getByName τ name) (fun x t => t.news c = [] ∧
      ∀ T n, x = .error (.ovnNotFound T n) → name ∉ namesOf t.db (OvnCommon.ovnType τ)) s := by
  unfold getByName ovnList listObjects
  rw [Program.bind_assoc', Program.bind_assoc']
  refine wp_select fun s₁ fresh answers hi htr hnews => ?_
  obtain ⟨-, rfl⟩ := hi.consistent.select htr
  change (clientContract c).wp (Program.collect ((s₁.db (OvnCommon.ovnType τ)).map fun r =>
    r.encode (listColumns (OvnCommon.ovnType τ))) (OvnCommon.deserialize (τ := τ)) >>= _) _ _
  rw [collect_decode τ hi.consistent, Program.ret_bind, find?_rowsOf]
  cases hn : named s₁.db (OvnCommon.ovnType τ) name with
  | some r => exact ⟨hnews, nofun⟩
  | none =>
    refine ⟨hnews, fun T n _ hmem => ?_⟩
    obtain ⟨r, hr, hrn⟩ := List.mem_map.mp hmem
    exact firstWith_none.mp hn r hr hrn

/-- A creation after a lookup. -/
theorem wp_orCreate (τ : Type) [OvnNamed τ] [OvnRow τ] [NamedRow τ] {name : String} {create : Prog τ}
    (h : ∀ t, t.news c = [] → name ∉ namesOf t.db (OvnCommon.ovnType τ) →
      (clientContract c).wp create (fun _ _ => True) t) :
    (clientContract c).wp (orCreate (getByName τ name) create) (fun _ _ => True) s := by
  refine wp_bind (wp_attempt (wp_mono (wp_getByName τ name) fun x t hx => ?_))
  cases x with
  | ok o => trivial
  | error e =>
    cases e with
    | ovnNotFound T n => exact h t hx.1 (hx.2 T n rfl)
    | _ => trivial

/-- A switch or router is created in time. -/
theorem wp_createIfMissing (τ : Type) [OvnNamed τ] [OvnRow τ] [NamedRow τ]
    (hT : Unindexed (OvnCommon.ovnType τ)) (name : String) :
    (clientContract c).wp (createIfMissing τ name) (fun _ _ => True) s := by
  refine wp_orCreate τ fun t hnews habsent => ?_
  unfold ovnCreate ovnInsert
  rw [Program.bind_assoc']
  refine wp_transact (.create hT name) (fun s₁ T n hrely hcr hn => ?_) fun _ _ _ _ _ _ =>
    wp_mono (wp_getByName τ name) fun _ _ _ => trivial
  obtain ⟨es, hes, hnames⟩ := hrely
  cases hcr
  rcases hnames _ name hT hn with hold | he
  · exact absurd hold habsent
  · rw [hes]
    exact List.mem_append_left _ he

/-- A port is created by one transaction. -/
theorem wp_port {P T p name : String} {row : Columns Ref} {f : List Json → Prog β}
    (hP : ⟨P, "ports", T, true⟩ ∈ northbound.references)
    (fit : FitColumns (northboundColumns T) row)
    (hf : ∀ answers t, (clientContract c).wp (f answers) post t) :
    (clientContract c).wp (transact [.insert T row (some name),
      .mutate P p [⟨"ports", true, [.named name]⟩]] >>= f) post s :=
  wp_transact (.port hP fit p name) (by simp [createdRow]) fun _ _ answers _ _ _ => hf answers _

/-- Every call keeps the contract. -/
theorem wp_program (call : CreateCall) :
    (clientContract c).wp call.program (fun _ _ => True) s := by
  cases call with
  | switch name => exact wp_bind (wp_mono (wp_createIfMissing LogicalSwitch (.inl rfl) name)
      fun x _ _ => by cases x <;> trivial)
  | router name => exact wp_bind (wp_mono (wp_createIfMissing LogicalRouter (.inr rfl) name)
      fun x _ _ => by cases x <;> trivial)
  | switchPort ls name extraParams fit =>
    refine wp_bind (wp_mono (wp_orCreate LogicalSwitchPort fun t _ _ => ?_)
      fun x _ _ => by cases x <;> trivial)
    exact wp_port (.head _) fit fun _ _ => wp_mono (wp_getByName LogicalSwitchPort name)
      fun _ _ _ => trivial
  | routerPort lr name networks =>
    refine wp_bind (wp_mono (wp_orCreate LogicalRouterPort fun t _ _ => ?_)
      fun x _ _ => by cases x <;> trivial)
    exact wp_port (.tail _ (.head _)) (fit_routerPort name networks) fun _ _ =>
      wp_mono (wp_getByName LogicalRouterPort name) fun _ _ _ => trivial

/-! ## Runs of the clients -/

/-- Clients whose creations are in time run together. -/
def timelyClients (C : Type) [DecidableEq C] : Regime (clients C) Timely where
  toTerms := clientTerms C
  rely_refl := told_refl
  rely_trans _ _ _ _ := told_trans
  call_keeps := by
    rintro c s r a t hi ⟨x, -, hx⟩ ⟨operations, rfl, hops, hnew⟩
    have htr : s.transact c x operations = (a, t) := Option.some.inj hx
    exact namesOnce_transact hops hi htr hnew
  start_keeps := by
    rintro c s call p t hi - hl
    cases hl
    exact ⟨hi, fun v _ => told_refl v s, wp_program call⟩
  stop_keeps c s hi _ := ⟨hi, fun v _ => told_refl v s⟩
  world_keeps s e := e.elim

/-- Where no insert of a switch or router takes effect after another client has created one of
that name since the lookup, names stay unique. -/
theorem names_unique {db : Database} (hc : Consistent northbound db) (hu : UniqueNames db)
    {d : ClientConfig C} (h : (clients C).Run Timely (ClientConfig.start C db) d) :
    UniqueNames d.state.db ∧ NamesDenote d.state.db := by
  have hstart : (timelyClients C).Holds (ClientConfig.start C db) := Regime.holds_idle
    ⟨hc, fun T hT => hu T (by rcases hT with rfl | rfl <;> simp [namedTables])⟩
  have hinv : NamesOnce d.state := Regime.run_inv hstart h
  have hunique : UniqueNames d.state.db := by
    intro T hT
    simp only [namedTables, List.mem_cons, List.not_mem_nil, or_false] at hT
    rcases hT with rfl | rfl | hT
    · exact hinv.unique _ (.inl rfl)
    · exact hinv.unique _ (.inr rfl)
    · exact nodup_namesOf_ports hinv.consistent hT
  exact ⟨hunique, hunique.denote⟩

end Contracts

/-- Between the lookup and the insert of one client another creates a router of that name. -/
def inTime : List (Interaction.Command Bool Choice CreateCall Empty) :=
  [.start true (.switch "net"), .call true {}, .start false (.router "net"), .call false {},
    .call false { fresh := ["r"] }, .call true { fresh := ["s"] }]

theorem names_unique_inTime : ∃ d : ClientConfig Bool,
    (namesOf d.state.db typeLogicalSwitch = ["net"] ∧
      namesOf d.state.db typeLogicalRouter = ["net"]) ∧
    UniqueNames d.state.db ∧ NamesDenote d.state.db := by
  obtain ⟨d, hr, hd⟩ := Interaction.Machine.play_reaches (M := clients Bool) Timely
    (ClientConfig.start Bool fun _ => []) inTime
    (fun d => namesOf d.state.db typeLogicalSwitch = ["net"] ∧
      namesOf d.state.db typeLogicalRouter = ["net"]) (by decide +kernel)
  exact ⟨d, of_decide_eq_true hd, names_unique Ovsdb.consistent_empty
    (fun _ _ => List.nodup_nil) hr⟩

/-- Two clients look a switch up before either has inserted it. -/
def bothMiss : List (Interaction.Command Bool Choice CreateCall Empty) :=
  [.start true (.switch "net"), .start false (.switch "net"), .call true {}, .call false {},
    .call true { fresh := ["a"] }, .call false { fresh := ["b"] }]

theorem names_duplicated : ¬∀ (db : Database) (d : ClientConfig Bool), Consistent northbound db →
    UniqueNames db → (clients Bool).Run (fun _ _ => True) (ClientConfig.start Bool db) d →
    UniqueNames d.state.db := by
  intro h
  obtain ⟨d, hr, hd⟩ := Interaction.Machine.play_reaches (M := clients Bool) (fun _ _ => True)
    (ClientConfig.start Bool fun _ => []) bothMiss
    (fun d => ¬(namesOf d.state.db typeLogicalSwitch).Nodup) (by decide +kernel)
  exact of_decide_eq_true hd (h _ d Ovsdb.consistent_empty (fun _ _ => List.nodup_nil) hr _ (.head _))

end ClusterController
