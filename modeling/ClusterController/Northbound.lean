import ClusterController.Alone
import ClusterController.WireForms
import ClusterController.Lib.OvsdbSchema

/-!
# Reading the northbound database

What the listings of `interfaces::ovn` return: one object for each row of the table, as
long as the database is consistent.
-/

namespace ClusterController

open ApiServer (StringMap)
open Interaction (Program)
open Interaction.Program (Outcome After ends_bind after_ret after_fail)
open Ovsdb (Json Datum Row Columns Database Conforms Consistent Typed Operation Ref)

/-! ## The schema -/

theorem flat_northbound : northbound.Flat := by
  refine ⟨fun t => ?_, by decide, by decide, ?_⟩
  · show ((northboundColumns t).map Prod.fst).Nodup
    unfold northboundColumns
    split_ifs <;> decide
  · intro i hi ref href hw ht
    revert ref
    revert i
    decide

/-- Only switch ports hold weak references. -/
theorem forgetRow_northbound (db : Database) (t : String) (r : Row) :
    Ovsdb.forgetRow northbound db t r = if t = typeLogicalSwitchPort then
      r.modify "dhcpv4_options" (Datum.keep fun u => (db.find? typeDhcpOptions u).isSome)
    else r := by
  by_cases h : t = typeLogicalSwitchPort
  · subst h
    rfl
  · simp [Ovsdb.forgetRow, northbound, h, Ne.symm h]

/-! ## Columns -/

/-- The one string of a column. -/
def textOf : Datum String → String
  | .strings [s] => s
  | _ => ""

/-- The text in a column of a row. -/
def rowText (r : Row) (column : String) : String := ((r.get column).map textOf).getD ""

/-- The entries of a map column. -/
def rowMap (r : Row) (column : String) : StringMap :=
  match r.get column with
  | some (.map m) => m.foldl (fun m e => m.insert e.1 e.2) []
  | _ => []

/-! ## Deserialization -/

section Deserialize

variable {fields : Fields} {f : String}

theorem deserializeString_encode {s : String}
    (h : fields.lookup f = some (Datum.strings [s]).encode) :
    deserializeString fields f = .ret s := by
  unfold deserializeString
  rw [h]
  rfl

theorem deserializeStringOrEmpty_encode {l : List String}
    (h : fields.lookup f = some (Datum.strings l).encode) :
    deserializeStringOrEmpty fields f = .ret (textOf (.strings l)) := by
  unfold deserializeStringOrEmpty deserializeString
  rw [h]
  match l with
  | [] => rfl
  | [s] => rfl
  | _ :: _ :: _ => rfl

/-- A set column is written in one of the wire forms. -/
theorem uuidSetForm_encode (l : List String) : UuidSetForm l (Datum.refs l).encode := by
  match l with
  | [] => exact .set []
  | [u] => exact .one u
  | u :: v :: us => exact .set (u :: v :: us)

theorem deserializeUuidSet_encode {l : List String}
    (h : fields.lookup f = some (Datum.refs l).encode) :
    deserializeUuidSet fields f = .ret l := deserializeUuidSet_form (uuidSetForm_encode l) h

theorem deserializeRouteSet_encode {l : List String}
    (h : fields.lookup "static_routes" = some (Datum.refs l).encode) :
    deserializeRouteSet fields = .ret l := deserializeRouteSet_form (uuidSetForm_encode l) h

theorem deserializeMap_encode {m : StringMap} (h : fields.lookup f = some (Datum.map m).encode) :
    deserializeMap fields f = .ret (m.foldl (fun m e => m.insert e.1 e.2) []) := deserializeMap_form h

end Deserialize

/-! ## Rows as objects -/

section Shapes

variable {cols : Columns String} {r : Row} {c : String}

theorem get_of_text (h : Typed cols r) (hc : (c, .strings [""]) ∈ cols) :
    r.get c = some (.strings [rowText r c]) := by
  obtain ⟨d, hd, hl⟩ := h _ hc
  cases d with
  | strings l =>
    obtain ⟨s, rfl⟩ := List.length_eq_one_iff.mp (hl rfl)
    unfold rowText
    rw [hd]
    rfl
  | refs l => exact hl.elim
  | map m => exact hl.elim

theorem get_of_strings (h : Typed cols r) (hc : (c, .strings []) ∈ cols) :
    ∃ l, r.get c = some (.strings l) := by
  obtain ⟨d, hd, hl⟩ := h _ hc
  cases d with
  | strings l => exact ⟨l, hd⟩
  | refs l => exact hl.elim
  | map m => exact hl.elim

theorem get_of_refs (h : Typed cols r) (hc : (c, .refs []) ∈ cols) :
    r.get c = some (.refs (r.refs c)) := by
  obtain ⟨d, hd, hl⟩ := h _ hc
  cases d with
  | refs l =>
    unfold Row.refs
    rw [hd]
    rfl
  | strings l => exact hl.elim
  | map m => exact hl.elim

theorem get_of_map (h : Typed cols r) (hc : (c, .map []) ∈ cols) :
    ∃ m, r.get c = some (.map m) := by
  obtain ⟨d, hd, hl⟩ := h _ hc
  cases d with
  | map m => exact ⟨m, hd⟩
  | refs l => exact hl.elim
  | strings l => exact hl.elim

end Shapes

/-- The fields of an encoded row. -/
def rowFields (r : Row) (columns : List String) : Fields := columns.filterMap fun c =>
  if c = "_uuid" then some ("_uuid", Json.arr [.str "uuid", .str r.uuid])
  else (r.get c).map fun d => (c, d.encode)

theorem lookup_rowFields {r : Row} {columns : List String} {c : String} {d : Datum String}
    (hc : c ∈ columns) (hu : c ≠ "_uuid") (hd : r.get c = some d) :
    (rowFields r columns).lookup c = some d.encode := by
  unfold rowFields
  induction columns with
  | nil => cases hc
  | cons a as ih =>
    rw [List.filterMap_cons]
    by_cases hca : c = a
    · subst hca
      rw [if_neg hu, hd]
      simp
    · have ih := ih ((List.mem_cons.mp hc).resolve_left hca)
      by_cases ha : a = "_uuid"
      · rw [if_pos ha]
        dsimp only
        rw [List.lookup_cons, beq_false_of_ne hu]
        exact ih
      · rw [if_neg ha]
        cases r.get a with
        | none => exact ih
        | some d' =>
          dsimp only [Option.map_some]
          rw [List.lookup_cons, beq_false_of_ne hca]
          exact ih

/-- What the rows of a table mean as objects. -/
class OvnRow (τ : Type) [OvnCommon τ] where
  ofRow : Row → τ
  uuid_ofRow : ∀ r, OvnCommon.uuid (ofRow r) = r.uuid
  decodes : ∀ r, Typed (northboundColumns (OvnCommon.ovnType τ)) r →
    OvnCommon.deserialize (r.encode (listColumns (OvnCommon.ovnType τ))) = .ret (ofRow r)

/-- The objects have the names of their rows. -/
class NamedRow (τ : Type) [OvnNamed τ] [OvnRow τ] : Prop where
  name_ofRow : ∀ r : Row, OvnNamed.name (OvnRow.ofRow r : τ) = rowText r "name"

instance : OvnRow LogicalSwitch where
  ofRow := fun r => ⟨r.uuid, rowText r "name", r.refs "ports", rowMap r "other_config"⟩
  uuid_ofRow := fun _ => rfl
  decodes := fun r h => by
    have hname := get_of_text (c := "name") h (by decide)
    have hports := get_of_refs (c := "ports") h (by decide)
    obtain ⟨m, hm⟩ := get_of_map (c := "other_config") h (by decide)
    let fields := rowFields r (listColumns typeLogicalSwitch)
    show (deserializeUuid fields >>= fun uuid => deserializeString fields "name" >>= fun name =>
      deserializeUuidSet fields "ports" >>= fun portIds =>
      deserializeMap fields "other_config" >>= fun otherConfig =>
      Program.ret (LogicalSwitch.mk uuid name portIds otherConfig)) = _
    rw [deserializeString_encode (lookup_rowFields (by decide) (by decide) hname),
      deserializeUuidSet_encode (lookup_rowFields (by decide) (by decide) hports),
      deserializeMap_encode (lookup_rowFields (by decide) (by decide) hm)]
    unfold rowMap
    rw [hm]
    rfl

instance : NamedRow LogicalSwitch := ⟨fun _ => rfl⟩

instance : OvnRow LogicalSwitchPort where
  ofRow := fun r => ⟨r.uuid, rowText r "name", rowText r "addresses", rowText r "dynamic_addresses"⟩
  uuid_ofRow := fun _ => rfl
  decodes := fun r h => by
    have hname := get_of_text (c := "name") h (by decide)
    obtain ⟨l, hl⟩ := get_of_strings (c := "addresses") h (by decide)
    obtain ⟨l', hl'⟩ := get_of_strings (c := "dynamic_addresses") h (by decide)
    let fields := rowFields r (listColumns typeLogicalSwitchPort)
    show (deserializeUuid fields >>= fun uuid => deserializeString fields "name" >>= fun name =>
      deserializeStringOrEmpty fields "addresses" >>= fun addresses =>
      deserializeStringOrEmpty fields "dynamic_addresses" >>= fun dynamicAddresses =>
      Program.ret (LogicalSwitchPort.mk uuid name addresses dynamicAddresses)) = _
    rw [deserializeString_encode (lookup_rowFields (by decide) (by decide) hname),
      deserializeStringOrEmpty_encode (lookup_rowFields (by decide) (by decide) hl),
      deserializeStringOrEmpty_encode (lookup_rowFields (by decide) (by decide) hl')]
    have htext : ∀ {c l}, r.get c = some (.strings l) → rowText r c = textOf (.strings l) := by
      intro c l h
      unfold rowText
      rw [h]
      rfl
    rw [htext hl, htext hl']
    rfl

instance : NamedRow LogicalSwitchPort := ⟨fun _ => rfl⟩

instance : OvnRow DhcpOptions where
  ofRow := fun r => ⟨r.uuid, rowText r "cidr"⟩
  uuid_ofRow := fun _ => rfl
  decodes := fun r h => by
    have hcidr := get_of_text (c := "cidr") h (by decide)
    let fields := rowFields r (listColumns typeDhcpOptions)
    show (deserializeUuid fields >>= fun uuid => deserializeString fields "cidr" >>= fun cidr =>
      Program.ret (DhcpOptions.mk uuid cidr)) = _
    rw [deserializeString_encode (lookup_rowFields (by decide) (by decide) hcidr)]
    rfl

instance : OvnRow StaticRoute where
  ofRow := fun r => ⟨r.uuid, rowText r "ip_prefix", rowText r "nexthop"⟩
  uuid_ofRow := fun _ => rfl
  decodes := fun r h => by
    have hprefix := get_of_text (c := "ip_prefix") h (by decide)
    have hnext := get_of_text (c := "nexthop") h (by decide)
    let fields := rowFields r (listColumns typeLogicalRouterStaticRoute)
    show (deserializeUuid fields >>= fun uuid => deserializeString fields "ip_prefix" >>=
      fun ipPrefix => deserializeString fields "nexthop" >>= fun nexthop =>
      Program.ret (StaticRoute.mk uuid ipPrefix nexthop)) = _
    rw [deserializeString_encode (lookup_rowFields (by decide) (by decide) hprefix),
      deserializeString_encode (lookup_rowFields (by decide) (by decide) hnext)]
    rfl

instance : OvnRow LogicalRouter where
  ofRow := fun r => ⟨r.uuid, rowText r "name", r.refs "static_routes"⟩
  uuid_ofRow := fun _ => rfl
  decodes := fun r h => by
    have hname := get_of_text (c := "name") h (by decide)
    have hroutes := get_of_refs (c := "static_routes") h (by decide)
    let fields := rowFields r (listColumns typeLogicalRouter)
    show (deserializeRouteSet fields >>= fun routeUuids => deserializeUuid fields >>= fun uuid =>
      deserializeString fields "name" >>= fun name =>
      Program.ret (LogicalRouter.mk uuid name routeUuids)) = _
    rw [deserializeString_encode (lookup_rowFields (by decide) (by decide) hname),
      deserializeRouteSet_encode (lookup_rowFields (by decide) (by decide) hroutes)]
    rfl

instance : NamedRow LogicalRouter := ⟨fun _ => rfl⟩

instance : OvnRow LogicalRouterPort where
  ofRow := fun r => ⟨r.uuid, rowText r "name"⟩
  uuid_ofRow := fun _ => rfl
  decodes := fun r h => by
    have hname := get_of_text (c := "name") h (by decide)
    let fields := rowFields r (listColumns typeLogicalRouterPort)
    show (deserializeUuid fields >>= fun uuid => deserializeString fields "name" >>= fun name =>
      Program.ret (LogicalRouterPort.mk uuid name)) = _
    rw [deserializeString_encode (lookup_rowFields (by decide) (by decide) hname)]
    rfl

instance : NamedRow LogicalRouterPort := ⟨fun _ => rfl⟩

/-! ## Executions -/

/-- Requests are served, and the answers meet a condition. -/
def answering (ok : (r : Request) → r.Answer → Prop) : Execution :=
  fun w s r a t => Served w s r a t ∧ ok r a

/-- Any answer. -/
abbrev anyAnswer : (r : Request) → r.Answer → Prop := fun _ _ => True

/-- The answer is no failure. -/
def Succeeded : (r : Request) → r.Answer → Prop
  | .kube _, a => ∃ v, a = .ok v
  | .libvirt _ _, a => ∃ v, a = some v
  | .bridge _ _, a => ∃ v, a = some v
  | .ceph _, a => ∃ v, a = .ok v
  | .ovnConnect _ _, a => ∃ v, a = some v
  | .transact _, a => ∃ v, a = some v
  | _, _ => True

/-- The program panics because a transaction is not answered, where that can be. -/
def Unanswered {α : Type} (ok : (r : Request) → r.Answer → Prop) (o : Outcome Error α) : Prop :=
  (∃ operations, ok (.transact operations) none) ∧ ∃ m, o = .aborted m

/-- The program only reads, and its result is a matter of the state. -/
def Reads {α : Type} (ok : (r : Request) → r.Answer → Prop) (w : Worker) (s : World) (p : Prog α)
    (result : Except Error α) : Prop :=
  ∀ o t, p.Ends (answering ok w) s o t → t = s ∧ (o = .of result ∨ Unanswered ok o)

section Reads

variable {ok : (r : Request) → r.Answer → Prop} {w : Worker} {s t : World} {α β : Type}
  {p : Prog α} {f : α → Prog β}

theorem not_unanswered {o : Outcome Error α} : ¬Unanswered Succeeded o := by
  rintro ⟨⟨operations, v, hv⟩, -⟩
  cases hv

theorem Unanswered.abort {o : Outcome Error α} (h : Unanswered ok o) (m : String) :
    Unanswered ok (.aborted m : Outcome Error β) := ⟨h.1, m, rfl⟩

theorem reads_ret (a : α) : Reads ok w s (.ret a) (.ok a) := by
  rintro o t ⟨rfl, rfl⟩
  exact ⟨rfl, .inl rfl⟩

theorem reads_fail (e : Error) : Reads ok w s (.fail e : Prog α) (.error e) := by
  rintro o t ⟨rfl, rfl⟩
  exact ⟨rfl, .inl rfl⟩

/-- A program that begins with a read. -/
theorem Reads.cases {result : Except Error α} (hp : Reads ok w s p result) {o : Outcome Error β}
    (h : (p >>= f).Ends (answering ok w) s o t) :
    (∃ a, result = .ok a ∧ (f a).Ends (answering ok w) s o t) ∨
      (∃ e, result = .error e ∧ o = .err e ∧ t = s) ∨ (Unanswered ok o ∧ t = s) := by
  rcases ends_bind.mp h with ⟨a, s₁, ha, hf⟩ | ⟨e, he, rfl⟩ | ⟨m, hm, rfl⟩
  · obtain ⟨rfl, ho | ⟨-, m, hm⟩⟩ := hp _ _ ha
    · cases result with
      | ok b =>
        cases ho
        exact .inl ⟨a, rfl, hf⟩
      | error e => cases ho
    · cases hm
  · obtain ⟨rfl, ho | ⟨-, m, hm⟩⟩ := hp _ _ he
    · cases result with
      | ok b => cases ho
      | error e' =>
        cases ho
        exact .inr (.inl ⟨e, rfl, rfl, rfl⟩)
    · cases hm
  · obtain ⟨rfl, ho | hu⟩ := hp _ _ hm
    · cases result <;> cases ho
    · exact .inr (.inr ⟨hu.abort m, rfl⟩)

theorem Reads.bind {a : α} {result : Except Error β} (hp : Reads ok w s p (.ok a))
    (hf : Reads ok w s (f a) result) : Reads ok w s (p >>= f) result := by
  intro o t h
  rcases hp.cases h with ⟨b, hb, hf'⟩ | ⟨e, he, -⟩ | ⟨hu, rfl⟩
  · cases hb
    exact hf _ _ hf'
  · cases he
  · exact ⟨rfl, .inr hu⟩

theorem Reads.attempt {result : Except Error α} (hp : Reads ok w s p result) :
    Reads ok w s p.attempt (.ok result) := by
  intro o t h
  rcases Program.ends_attempt.mp h with ⟨a, ha, rfl⟩ | ⟨e, he, rfl⟩ | ⟨m, hm, rfl⟩
  · obtain ⟨rfl, ho | ⟨-, m, hm⟩⟩ := hp _ _ ha
    · cases result <;> cases ho
      exact ⟨rfl, .inl rfl⟩
    · cases hm
  · obtain ⟨rfl, ho | ⟨-, m, hm⟩⟩ := hp _ _ he
    · cases result <;> cases ho
      exact ⟨rfl, .inl rfl⟩
    · cases hm
  · obtain ⟨rfl, ho | hu⟩ := hp _ _ hm
    · cases result <;> cases ho
    · exact ⟨rfl, .inr (hu.abort m)⟩

/-- The rest of a program starts from what was read. -/
theorem Reads.after {result : Except Error α} {post : Outcome Error β → World → Prop}
    (hp : Reads ok w s p result) (hok : ∀ a, result = .ok a → After (answering ok w) (f a) s post)
    (herr : ∀ e, result = .error e → post (.err e) s) (habort : ∀ o, Unanswered ok o → post o s) :
    After (answering ok w) (p >>= f) s post := by
  intro o t h
  rcases hp.cases h with ⟨a, ha, hf⟩ | ⟨e, he, rfl, rfl⟩ | ⟨hu, rfl⟩
  · exact hok a ha o t hf
  · exact herr e he
  · exact habort o hu

/-! ## Listings -/

/-- A transaction is carried out, or it is not answered. -/
theorem ends_transact {operations : List Operation} {o : Outcome Error (List Json)}
    (h : (transact operations).Ends (answering ok w) s o t) :
    (∃ fresh answers db, s.northbound.transact northbound fresh operations = some (answers, db) ∧
      o = .ok answers ∧ t = { s with northbound := db }) ∨ (t = s ∧ Unanswered ok o) := by
  obtain ⟨a, s₁, ⟨⟨x, hx, hans⟩, hok⟩, hk⟩ := h
  have hd : x.deliver none s (s.serveTransact x operations) = (a, s₁) := Option.some.inj hans
  unfold Choice.deliver World.serveTransact at hd
  rw [hx] at hd
  cases htr : s.northbound.transact northbound x.fresh operations with
  | none =>
    rw [htr] at hd
    cases hd
    obtain ⟨rfl, rfl⟩ := hk
    exact .inr ⟨rfl, ⟨operations, hok⟩, _, rfl⟩
  | some p =>
    rw [htr] at hd
    cases hd
    obtain ⟨rfl, rfl⟩ := hk
    exact .inl ⟨x.fresh, p.1, p.2, htr, rfl, rfl⟩

theorem after_transact {operations : List Operation} {f : List Json → Prog α}
    {post : Outcome Error α → World → Prop}
    (hok : ∀ fresh answers db, s.northbound.transact northbound fresh operations = some (answers, db) →
      After (answering ok w) (f answers) { s with northbound := db } post)
    (habort : ∀ o, Unanswered ok o → post o s) :
    After (answering ok w) (transact operations >>= f) s post := by
  have hp : After (answering ok w) (transact operations) s fun o t =>
      (∃ fresh answers db, s.northbound.transact northbound fresh operations = some (answers, db) ∧
        o = .ok answers ∧ t = { s with northbound := db }) ∨ (t = s ∧ Unanswered ok o) :=
    fun _ _ h => ends_transact h
  refine hp.bind ?_ ?_ ?_
  · rintro a t (⟨fresh, answers, db, htr, ho, rfl⟩ | ⟨-, -, m, hm⟩)
    · cases ho
      exact hok fresh _ db htr
    · cases hm
  · rintro e t (⟨fresh, answers, db, htr, ho, rfl⟩ | ⟨-, -, m, hm⟩)
    · cases ho
    · cases hm
  · rintro m t (⟨fresh, answers, db, htr, ho, rfl⟩ | ⟨rfl, hu⟩)
    · cases ho
    · exact habort _ (hu.abort m)

/-- Read all rows of a table. -/
theorem reads_listObjects (hc : Consistent northbound s.northbound) (T : String) :
    Reads ok w s (listObjects T) (.ok ((s.northbound T).map fun r => r.encode (listColumns T))) := by
  intro o t h
  rcases ends_bind.mp h with ⟨answers, s₁, ha, hf⟩ | ⟨e, he, rfl⟩ | ⟨m, hm, rfl⟩
  · rcases ends_transact ha with ⟨fresh, answers', db, htr, ho, rfl⟩ | ⟨-, -, m, hm⟩
    · cases ho
      obtain ⟨rfl, rfl⟩ := hc.select htr
      obtain ⟨rfl, rfl⟩ := hf
      exact ⟨rfl, .inl rfl⟩
    · cases hm
  · rcases ends_transact he with ⟨fresh, answers', db, htr, ho, rfl⟩ | ⟨-, -, m, hm⟩
    · cases ho
    · cases hm
  · rcases ends_transact hm with ⟨fresh, answers', db, htr, ho, rfl⟩ | ⟨rfl, hu⟩
    · cases ho
    · exact ⟨rfl, .inr (hu.abort m)⟩

/-- The objects of a table. -/
def rowsOf (τ : Type) [OvnCommon τ] [OvnRow τ] (db : Database) : List τ :=
  (db (OvnCommon.ovnType τ)).map OvnRow.ofRow

/-- All rows of a consistent database can be decoded. -/
theorem collect_decode (τ : Type) [OvnCommon τ] [OvnRow τ] {db : Database}
    (hc : Consistent northbound db) :
    Program.collect ((db (OvnCommon.ovnType τ)).map fun r =>
      r.encode (listColumns (OvnCommon.ovnType τ))) (OvnCommon.deserialize (τ := τ)) =
      .ret (rowsOf τ db) := by
  have htyped := hc.conforms.typed (OvnCommon.ovnType τ)
  unfold rowsOf
  generalize db (OvnCommon.ovnType τ) = rows at htyped
  induction rows with
  | nil => rfl
  | cons r rs ih =>
    rw [List.map_cons, List.map_cons]
    unfold Program.collect
    rw [OvnRow.decodes r (htyped r List.mem_cons_self),
      ih fun r' h => htyped r' (List.mem_cons_of_mem _ h)]
    rfl

theorem reads_ovnList (τ : Type) [OvnCommon τ] [OvnRow τ]
    (hc : Consistent northbound s.northbound) :
    Reads ok w s (ovnList τ) (.ok (rowsOf τ s.northbound)) := by
  refine (reads_listObjects hc _).bind ?_
  rw [collect_decode τ hc]
  exact reads_ret _

/-- The first row of a table with a text in a column. -/
def firstWith (db : Database) (T column text : String) : Option Row :=
  (db T).find? fun r => rowText r column = text

/-- The first row of a table with a name. -/
abbrev named (db : Database) (T name : String) : Option Row := firstWith db T "name" name

theorem firstWith_some {db : Database} {T column text : String} {r : Row}
    (h : firstWith db T column text = some r) : r ∈ db T ∧ rowText r column = text :=
  ⟨List.mem_of_find?_eq_some h, by simpa using List.find?_some h⟩

theorem firstWith_none {db : Database} {T column text : String} :
    firstWith db T column text = none ↔ ∀ r ∈ db T, rowText r column ≠ text := by
  unfold firstWith
  simp [List.find?_eq_none]

/-- The result of a lookup by name. -/
def foundByName (τ : Type) [OvnNamed τ] [OvnRow τ] (db : Database) (name : String) :
    Except Error τ :=
  match named db (OvnCommon.ovnType τ) name with
  | some r => .ok (OvnRow.ofRow r)
  | none => .error (.ovnNotFound (OvnCommon.ovnType τ) name)

/-- The object of a name is that of the first row of the name. -/
theorem find?_rowsOf (τ : Type) [OvnNamed τ] [OvnRow τ] [NamedRow τ] (db : Database) (name : String) :
    (rowsOf τ db).find? (fun o => OvnNamed.name o = name) =
      (named db (OvnCommon.ovnType τ) name).map OvnRow.ofRow := by
  unfold rowsOf named firstWith
  rw [List.find?_map]
  simp only [Function.comp_def, NamedRow.name_ofRow]

theorem reads_getByName (τ : Type) [OvnNamed τ] [OvnRow τ] [NamedRow τ]
    (hc : Consistent northbound s.northbound) (name : String) :
    Reads ok w s (getByName τ name) (foundByName τ s.northbound name) := by
  refine (reads_ovnList τ hc).bind ?_
  rw [find?_rowsOf]
  unfold foundByName
  cases named s.northbound (OvnCommon.ovnType τ) name with
  | some r => exact reads_ret _
  | none => exact reads_fail _

/-- The result of a lookup of DHCP options by their CIDR. -/
def foundByCidr (db : Database) (cidr : String) : Except Error DhcpOptions :=
  match firstWith db typeDhcpOptions "cidr" cidr with
  | some r => .ok (OvnRow.ofRow r)
  | none => .error (.ovnNotFound typeDhcpOptions cidr)

theorem reads_getByCidr (hc : Consistent northbound s.northbound) (cidr : String) :
    Reads ok w s (DhcpOptions.getByCidr cidr) (foundByCidr s.northbound cidr) := by
  refine (reads_ovnList DhcpOptions hc).bind ?_
  have hfind : (rowsOf DhcpOptions s.northbound).find? (fun o => o.cidr = cidr) =
      (firstWith s.northbound typeDhcpOptions "cidr" cidr).map OvnRow.ofRow := by
    unfold rowsOf firstWith
    rw [List.find?_map]
    rfl
  rw [hfind]
  unfold foundByCidr
  cases firstWith s.northbound typeDhcpOptions "cidr" cidr with
  | some r => exact reads_ret _
  | none => exact reads_fail _

end Reads

end ClusterController
