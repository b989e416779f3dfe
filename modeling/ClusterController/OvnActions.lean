import ClusterController.Transactions

/-!
# What the functions of `interfaces::ovn` do

One rule for each function: what its caller goes on with, on a consistent database, when
the function runs alone. A rule names the database that the function leaves.
-/

namespace ClusterController

open ApiServer (StringMap Key)
open Interaction (Program)
open Interaction.Program (Outcome After ends_bind after_ret after_fail after_abort)
open Ovsdb (Json Datum Row Columns Database Conforms Consistent Typed Operation Mutation Ref
  FitColumns addRefs dropRefs modifyRow_eq_map)

/-- The state with another northbound database. -/
def World.setNorthbound (s : World) (db : Database) : World := { s with northbound := db }

section Actions

variable {ok : (r : Request) → r.Answer → Prop} {w : Worker} {s : World} {α β : Type}
  {T P c u name text : String} {db : Database} {r : Row} {row : Columns String}

@[simp] theorem northbound_setNorthbound : (s.setNorthbound db).northbound = db := rfl
@[simp] theorem kube_setNorthbound : (s.setNorthbound db).kube = s.kube := rfl

@[simp] theorem setNorthbound_setNorthbound {db' : Database} :
    (s.setNorthbound db).setNorthbound db' = s.setNorthbound db' := rfl

/-! ## Other requests -/

/-- The request is not about the northbound database. -/
def Aside (r : Request) : Prop := ∀ operations, r ≠ .transact operations

/-- What makes no transaction leaves the database as it is. -/
theorem after_aside {p : Prog α} {done : α → Prop} (hp : p.Within Aside done) :
    After (answering ok w) p s fun o t => t.northbound = s.northbound ∧ ∀ a, o = .ok a → done a := by
  intro o t h
  refine hp.ends_invariant (I := fun t => t.northbound = s.northbound) ?_ rfl h
  rintro s₁ r a t₁ hr hs₁ ⟨⟨x, -, hans⟩, -⟩
  exact ((World.answer_frame hans).northbound hr).trans hs₁

theorem after_aside_bind {p : Prog α} {done : α → Prop} (hp : p.Within Aside done) {f : α → Prog β}
    {post : Outcome Error β → World → Prop}
    (hok : ∀ a t, done a → t.northbound = s.northbound → After (answering ok w) (f a) t post)
    (hend : ∀ o t, t.northbound = s.northbound → post o t) :
    After (answering ok w) (p >>= f) s post :=
  (after_aside hp).bind (fun a t h => hok a t (h.2 a rfl) h.1) (fun _ t h => hend _ t h.1)
    fun _ t h => hend _ t h.1

theorem after_kubeGet {κ : Kind} {k : Key} {f : Object κ → Prog β} {post : Outcome Error β → World → Prop}
    (hok : ∀ v, (s.kube κ).find? k = some v → After (answering ok w) (f v) s post)
    (herr : ∀ e, (s.kube κ).find? k = none → post (.err e) s) :
    After (answering ok w) (kubeGet κ k >>= f) s post := by
  have hget : After (answering ok w) (kubeGet κ k) s fun o t =>
      t = s ∧ ((∃ v, (s.kube κ).find? k = some v ∧ o = .ok v) ∨
        ((s.kube κ).find? k = none ∧ ∃ e, o = .err e)) :=
    fun _ _ h => ends_kubeGet (h.mono fun _ _ _ _ he => he.1)
  refine hget.bind ?_ ?_ ?_
  · rintro v t ⟨rfl, ⟨v', hv, ho⟩ | ⟨-, e, ho⟩⟩
    · cases ho
      exact hok v hv
    · cases ho
  · rintro e t ⟨rfl, ⟨v', -, ho⟩ | ⟨hn, e', ho⟩⟩
    · cases ho
    · exact herr e hn
  · rintro m t ⟨rfl, ⟨v', -, ho⟩ | ⟨-, e, ho⟩⟩
    · cases ho
    · cases ho

theorem aside_kubeCall (q : KubeRequest) : (kubeCall q).Within Aside fun _ => True := by
  refine ⟨nofun, fun x => ?_⟩
  cases x <;> trivial

theorem aside_connectFirst (nodes : List Node) (error : Option Error) :
    (connectFirst nodes error).Within Aside fun _ => True := by
  induction nodes generalizing error with
  | nil => cases error <;> exact trivial
  | cons node nodes ih =>
    unfold connectFirst
    split
    · refine ⟨nofun, fun a => ?_⟩
      cases a with
      | some u => exact trivial
      | none => exact ih _
    · exact ih _

theorem aside_ovnTry : ovnTryFromAnnotations.Within Aside fun _ => True :=
  .bind (aside_kubeCall _) fun _ _ => aside_connectFirst _ _

section Objects

variable {κ : Kind} (v : Object κ) (finalizer : String)

theorem aside_commit (writer : Writer) : (commit v writer).Within Aside fun _ => True :=
  .bind (aside_kubeCall _) fun _ _ => Program.within_ret.mpr trivial

theorem aside_setStatus (status : κ.Status) (writer : Writer) :
    (setStatus v status writer).Within Aside fun _ => True :=
  .bind (aside_kubeCall _) fun _ _ => Program.within_ret.mpr trivial

theorem aside_ensureFinalizer :
    (ensureFinalizer v finalizer).Within Aside fun v' => v'.key = v.key ∧ v'.spec = v.spec := by
  unfold ensureFinalizer
  split
  · exact .bind (aside_commit _ _) fun _ _ => ⟨rfl, rfl⟩
  · exact ⟨rfl, rfl⟩

theorem aside_removeFinalizer : (removeFinalizer v finalizer).Within Aside fun _ => True := by
  unfold removeFinalizer
  split
  · exact .bind (aside_commit _ _) fun _ _ => Program.within_ret.mpr trivial
  · exact trivial

end Objects

theorem aside_deployMds (ns router : String) : (deployMds ns router).Within Aside fun _ => True :=
  .bind (aside_kubeCall _) fun _ _ => .bind (aside_kubeCall _) fun _ _ =>
    .bind (aside_kubeCall _) fun _ _ => .bind (aside_kubeCall _) fun _ _ => aside_kubeCall _

/-! ## Lookups after a change -/

theorem firstWith_append (hn : firstWith db T c text = none) (hr : rowText r c = text)
    {db' : Database} (hdb : db' T = db T ++ [r]) : firstWith db' T c text = some r := by
  unfold firstWith at hn ⊢
  rw [hdb, List.find?_append, hn]
  simp [hr]

theorem firstWith_congr {db' : Database} (h : db' T = db T) :
    firstWith db' T c text = firstWith db T c text := by
  unfold firstWith
  rw [h]

theorem rowText_of_get {s : String} (h : r.get c = some (.strings [s])) : rowText r c = s := by
  unfold rowText
  rw [h]
  rfl

theorem get_write_self {d : Datum String} (h : (r.get c).isSome = true)
    (hn : ∀ e ∈ row, c ≠ e.1) : (r.write ((c, d) :: row)).get c = some d := by
  rw [Row.write_cons, Row.get_write_of_not_mem hn, Row.get_modify, if_pos rfl]
  obtain ⟨d', hd'⟩ := Option.isSome_iff_exists.mp h
  rw [hd']
  rfl

/-! ## Lookup, or creation -/

theorem after_orCreate {get create : Prog α} {f : α → Prog β} {result : Except Error α}
    {post : Outcome Error β → World → Prop} (hget : Reads ok w s get result)
    (hok : ∀ a, result = .ok a → After (answering ok w) (f a) s post)
    (hnew : ∀ T n, result = .error (.ovnNotFound T n) → After (answering ok w) (create >>= f) s post)
    (herr : ∀ e, result = .error e → (∀ T n, e ≠ .ovnNotFound T n) → post (.err e) s)
    (habort : ∀ o, Unanswered ok o → post o s) :
    After (answering ok w) (orCreate get create >>= f) s post := by
  unfold orCreate
  rw [Program.bind_assoc']
  refine hget.attempt.after (fun x hx => ?_) (fun e he => nomatch he) habort
  cases hx
  cases result with
  | ok a => exact hok a rfl
  | error e =>
    cases e with
    | ovnNotFound T n => exact hnew T n rfl
    | _ => exact after_fail (herr _ rfl nofun)

theorem after_namedOrCreate (τ : Type) [OvnNamed τ] [OvnRow τ] [NamedRow τ] {create : Prog τ}
    {f : τ → Prog β} {post : Outcome Error β → World → Prop}
    (hc : Consistent northbound s.northbound)
    (hfound : ∀ r, named s.northbound (OvnCommon.ovnType τ) name = some r →
      After (answering ok w) (f (OvnRow.ofRow r)) s post)
    (hnew : named s.northbound (OvnCommon.ovnType τ) name = none →
      After (answering ok w) (create >>= f) s post)
    (habort : ∀ o, Unanswered ok o → post o s) :
    After (answering ok w) (orCreate (getByName τ name) create >>= f) s post := by
  have hread : Reads ok w s (getByName τ name) (foundByName τ s.northbound name) :=
    reads_getByName τ hc name
  unfold foundByName at hread
  cases hn : named s.northbound (OvnCommon.ovnType τ) name with
  | some r =>
    rw [hn] at hread
    refine after_orCreate hread (fun a ha => ?_) nofun nofun habort
    cases ha
    exact hfound r hn
  | none =>
    rw [hn] at hread
    refine after_orCreate hread nofun (fun _ _ _ => hnew hn) (fun e he hne => ?_) habort
    cases he
    exact absurd rfl (hne _ _)

/-! ## Columns of new rows -/

theorem fit_one {ρ : Type} {d : Datum String} (e : Datum ρ) (hd : (c, d) ∈ northboundColumns T)
    (hl : d.Like e) : FitColumns (northboundColumns T) [(c, e)] := by
  intro e he e' he' hc
  obtain rfl := List.mem_singleton.mp he
  have h₁ := Ovsdb.lookup_of_mem (flat_northbound.nodup T) he'
  have h₂ := Ovsdb.lookup_of_mem (flat_northbound.nodup T) hd
  rw [hc] at h₁
  rw [Option.some.inj (h₁.symm.trans h₂)]
  exact hl

/-- Columns of texts and maps need not be resolved. -/
theorem resolve_text (c text : String) (find : Ref → Option String) :
    Operation.resolveColumns find [(c, .strings [text])] = some [(c, .strings [text])] := rfl

theorem get_default {d : Datum String} (hd : (c, d) ∈ northboundColumns T) :
    (⟨u, northboundColumns T⟩ : Row).get c = some d :=
  Ovsdb.lookup_of_mem (flat_northbound.nodup T) hd

/-! ## Switches and routers -/

/-- The row of a new switch or router. -/
abbrev namedRow (T u name : String) : Row := newRow T u [("name", .strings [name])]

theorem rowText_namedRow (hT : ("name", .strings [""]) ∈ northboundColumns T) :
    rowText (namedRow T u name) "name" = name := by
  refine rowText_of_get (get_write_self ?_ nofun)
  rw [get_default hT]
  rfl

theorem after_createIfMissing (τ : Type) [OvnNamed τ] [OvnRow τ] [NamedRow τ]
    (hroot : northbound.isRoot (OvnCommon.ovnType τ) = true)
    (hst : northbound.Stores (OvnCommon.ovnType τ))
    (hcol : ("name", .strings [""]) ∈ northboundColumns (OvnCommon.ovnType τ))
    {f : τ → Prog β} {post : Outcome Error β → World → Prop}
    (hc : Consistent northbound s.northbound)
    (hfound : ∀ r, named s.northbound (OvnCommon.ovnType τ) name = some r →
      After (answering ok w) (f (OvnRow.ofRow r)) s post)
    (hnew : ∀ u db, named s.northbound (OvnCommon.ovnType τ) name = none → Fresh s.northbound u →
      Consistent northbound db →
      db = s.northbound.modify (OvnCommon.ovnType τ)
        (fun rows => rows ++ [namedRow (OvnCommon.ovnType τ) u name]) →
      (∀ o, Unanswered ok o → post o (s.setNorthbound db)) ∧
      After (answering ok w) (f (OvnRow.ofRow (namedRow (OvnCommon.ovnType τ) u name)))
        (s.setNorthbound db) post)
    (habort : ∀ o, Unanswered ok o → post o s) :
    After (answering ok w) (createIfMissing τ name >>= f) s post := by
  refine after_namedOrCreate τ hc hfound (fun hnone => ?_) habort
  unfold ovnCreate ovnInsert
  rw [Program.bind_assoc', Program.bind_assoc']
  refine after_transact (fun fresh answers db htr => ?_) habort
  obtain ⟨hcons, u, hu, hdb⟩ := transact_insert hroot hst (resolve_text _ _)
    (fit_one (.strings [name]) hcol fun _ => rfl) hc htr
  obtain ⟨hab, hrest⟩ := hnew u db hnone hu hcons hdb
  have hfirst : foundByName τ db name =
      .ok (OvnRow.ofRow (namedRow (OvnCommon.ovnType τ) u name)) := by
    unfold foundByName named
    rw [firstWith_append hnone (rowText_namedRow hcol) (by rw [hdb, Database.modify_self])]
  have hread : Reads ok w (s.setNorthbound db) (getByName τ name) (foundByName τ db name) :=
    reads_getByName τ hcons name
  rw [hfirst] at hread
  refine hread.after (fun a ha => ?_) nofun hab
  cases ha
  exact hrest

/-! ## Ports -/

/-- Lookup of a port by its name, or creation with a reference to it in row `p` of table `P`. -/
theorem after_createPort (τ : Type) [OvnNamed τ] [OvnRow τ] [NamedRow τ] {n p : String}
    {cols : Columns Ref} (href : ⟨P, "ports", OvnCommon.ovnType τ, true⟩ ∈ northbound.references)
    (hleaf : northbound.isRoot (OvnCommon.ovnType τ) = false)
    (hcol : ("ports", .refs []) ∈ northboundColumns P)
    (hrow : ∀ find, Operation.resolveColumns find cols = some row)
    (hfit : FitColumns (northboundColumns (OvnCommon.ovnType τ)) cols)
    (hl : ∀ e ∈ row, e.1 ≠ "dhcpv4_options")
    (hname : ∀ u, rowText (newRow (OvnCommon.ovnType τ) u row) "name" = name)
    (hp : p ∈ (s.northbound P).map Row.uuid)
    {f : τ → Prog β} {post : Outcome Error β → World → Prop}
    (hc : Consistent northbound s.northbound)
    (hfound : ∀ r, named s.northbound (OvnCommon.ovnType τ) name = some r →
      After (answering ok w) (f (OvnRow.ofRow r)) s post)
    (hnew : ∀ u db, named s.northbound (OvnCommon.ovnType τ) name = none → Fresh s.northbound u →
      Consistent northbound db →
      db = (s.northbound.modify (OvnCommon.ovnType τ)
        fun rows => rows ++ [newRow (OvnCommon.ovnType τ) u row]).modifyRow P p (addRefs "ports" [u]) →
      (∀ o, Unanswered ok o → post o (s.setNorthbound db)) ∧
      After (answering ok w) (f (OvnRow.ofRow (newRow (OvnCommon.ovnType τ) u row)))
        (s.setNorthbound db) post)
    (habort : ∀ o, Unanswered ok o → post o s) :
    After (answering ok w) (orCreate (getByName τ name) (transact
      [.insert (OvnCommon.ovnType τ) cols (some n), .mutate P p [⟨"ports", true, [.named n]⟩]] >>=
        fun _ => getByName τ name) >>= f) s post := by
  refine after_namedOrCreate τ hc hfound (fun hnone => ?_) habort
  rw [Program.bind_assoc']
  refine after_transact (fun fresh answers db htr => ?_) habort
  obtain ⟨hcons, u, hu, hdb⟩ := transact_add href hrow hfit hl hleaf hcol hc hp htr
  obtain ⟨hab, hrest⟩ := hnew u db hnone hu hcons hdb
  have hne : OvnCommon.ovnType τ ≠ P := by
    intro h
    have hP := flat_northbound.strong _ href rfl
    rw [← h, hleaf] at hP
    cases hP
  have hfirst : foundByName τ db name = .ok (OvnRow.ofRow (newRow (OvnCommon.ovnType τ) u row)) := by
    unfold foundByName named
    rw [firstWith_append hnone (hname u)]
    unfold Database.modifyRow at hdb
    rw [hdb, Database.modify_of_ne hne, Database.modify_self]
  have hread : Reads ok w (s.setNorthbound db) (getByName τ name) (foundByName τ db name) :=
    reads_getByName τ hcons name
  rw [hfirst] at hread
  refine hread.after (fun a ha => ?_) nofun hab
  cases ha
  exact hrest

/-- The columns of a port that a router or a VM is not known for yet. -/
abbrev plainPort (name : String) : Columns String := [("name", .strings [name])]

/-- A switch port is looked up by its name alone. A new one goes to the given switch. -/
theorem after_lspCreateIfMissing {ls : LogicalSwitch} {params : Columns Ref}
    (hrow : ∀ find, Operation.resolveColumns find (params ++ [("name", .strings [name])]) = some row)
    (hfit : FitColumns (northboundColumns typeLogicalSwitchPort)
      (params ++ [("name", .strings [name])]))
    (hl : ∀ e ∈ row, e.1 ≠ "dhcpv4_options")
    (hname : ∀ u, rowText (newRow typeLogicalSwitchPort u row) "name" = name)
    (hls : ls.uuid ∈ (s.northbound typeLogicalSwitch).map Row.uuid)
    {f : LogicalSwitchPort → Prog β} {post : Outcome Error β → World → Prop}
    (hc : Consistent northbound s.northbound)
    (hfound : ∀ r, named s.northbound typeLogicalSwitchPort name = some r →
      After (answering ok w) (f (OvnRow.ofRow r)) s post)
    (hnew : ∀ u db, named s.northbound typeLogicalSwitchPort name = none → Fresh s.northbound u →
      Consistent northbound db →
      db = (s.northbound.modify typeLogicalSwitchPort
        fun rows => rows ++ [newRow typeLogicalSwitchPort u row]).modifyRow typeLogicalSwitch ls.uuid
          (addRefs "ports" [u]) →
      (∀ o, Unanswered ok o → post o (s.setNorthbound db)) ∧
      After (answering ok w) (f (OvnRow.ofRow (newRow typeLogicalSwitchPort u row)))
        (s.setNorthbound db) post)
    (habort : ∀ o, Unanswered ok o → post o s) :
    After (answering ok w) (LogicalSwitchPort.createIfMissing ls name params >>= f) s post :=
  after_createPort LogicalSwitchPort (.head _) (by decide) (by decide) hrow hfit hl hname hls hc
    hfound hnew habort

/-- A plain port on the switch. -/
theorem after_createPlainPort {ls : LogicalSwitch}
    (hls : ls.uuid ∈ (s.northbound typeLogicalSwitch).map Row.uuid)
    {f : LogicalSwitchPort → Prog β} {post : Outcome Error β → World → Prop}
    (hc : Consistent northbound s.northbound)
    (hfound : ∀ r, named s.northbound typeLogicalSwitchPort name = some r →
      After (answering ok w) (f (OvnRow.ofRow r)) s post)
    (hnew : ∀ u db, named s.northbound typeLogicalSwitchPort name = none → Fresh s.northbound u →
      Consistent northbound db →
      db = (s.northbound.modify typeLogicalSwitchPort fun rows =>
        rows ++ [newRow typeLogicalSwitchPort u (plainPort name)]).modifyRow typeLogicalSwitch ls.uuid
          (addRefs "ports" [u]) →
      (∀ o, Unanswered ok o → post o (s.setNorthbound db)) ∧
      After (answering ok w) (f (OvnRow.ofRow (newRow typeLogicalSwitchPort u (plainPort name))))
        (s.setNorthbound db) post)
    (habort : ∀ o, Unanswered ok o → post o s) :
    After (answering ok w) (LogicalSwitchPort.createIfMissing ls name [] >>= f) s post := by
  refine after_lspCreateIfMissing (resolve_text _ _) ?_ (by simp) (fun u => ?_) hls hc hfound hnew
    habort
  · exact fit_one (.strings [name]) (d := .strings [""]) (by decide) fun _ => rfl
  · exact rowText_of_get (get_write_self rfl nofun)

/-- The columns of a switch port that leads to a router port. -/
def linkPortColumns (name lrpName : String) : Columns String :=
  [("type", .strings ["router"]), ("addresses", .strings ["router"]),
    ("options", .map [("router-port", lrpName)]), ("name", .strings [name])]

theorem fit_linkPort (name lrpName : String) :
    FitColumns (northboundColumns typeLogicalSwitchPort)
      ([("type", .strings ["router"]), ("addresses", .strings ["router"]),
        ("options", .map [("router-port", lrpName)]), ("name", .strings [name])] : Columns Ref) :=
  .cons (fit_one (.strings ["router"]) (d := .strings [""]) (by decide) fun _ => rfl) <|
  .cons (fit_one (.strings ["router"]) (d := .strings []) (by decide) nofun) <|
  .cons (fit_one (.map [("router-port", lrpName)]) (d := .map []) (by decide) trivial) <|
  fit_one (.strings [name]) (d := .strings [""]) (by decide) fun _ => rfl

/-- A port on the switch that leads to a router port. -/
theorem after_createLinkPort {ls : LogicalSwitch} {lrpName : String}
    (hls : ls.uuid ∈ (s.northbound typeLogicalSwitch).map Row.uuid)
    {f : LogicalSwitchPort → Prog β} {post : Outcome Error β → World → Prop}
    (hc : Consistent northbound s.northbound)
    (hfound : ∀ r, named s.northbound typeLogicalSwitchPort name = some r →
      After (answering ok w) (f (OvnRow.ofRow r)) s post)
    (hnew : ∀ u db, named s.northbound typeLogicalSwitchPort name = none → Fresh s.northbound u →
      Consistent northbound db →
      db = (s.northbound.modify typeLogicalSwitchPort fun rows =>
        rows ++ [newRow typeLogicalSwitchPort u (linkPortColumns name lrpName)]).modifyRow
          typeLogicalSwitch ls.uuid (addRefs "ports" [u]) →
      (∀ o, Unanswered ok o → post o (s.setNorthbound db)) ∧
      After (answering ok w)
        (f (OvnRow.ofRow (newRow typeLogicalSwitchPort u (linkPortColumns name lrpName))))
        (s.setNorthbound db) post)
    (habort : ∀ o, Unanswered ok o → post o s) :
    After (answering ok w) (LogicalSwitchPort.createIfMissing ls name
      [("type", .strings ["router"]), ("addresses", .strings ["router"]),
        ("options", .map [("router-port", lrpName)])] >>= f) s post := by
  refine after_lspCreateIfMissing (fun _ => rfl) (fit_linkPort name lrpName) ?_ (fun u => ?_) hls hc
    hfound hnew habort
  · simp [linkPortColumns]
  · unfold newRow linkPortColumns
    rw [Row.write_cons, Row.write_cons, Row.write_cons]
    exact rowText_of_get (get_write_self rfl nofun)

/-- The columns of a router port. -/
def routerPortColumns (name networks : String) : Columns String :=
  [("name", .strings [name]), ("mac", .strings ["02:00:00:00:00:01"]),
    ("networks", .strings [networks])]

theorem resolve_routerPort (name networks : String) (find : Ref → Option String) :
    Operation.resolveColumns find ([("name", .strings [name]),
      ("mac", .strings ["02:00:00:00:00:01"]), ("networks", .strings [networks])] : Columns Ref) =
      some (routerPortColumns name networks) := rfl

theorem fit_routerPort (name networks : String) :
    FitColumns (northboundColumns typeLogicalRouterPort)
      ([("name", .strings [name]), ("mac", .strings ["02:00:00:00:00:01"]),
        ("networks", .strings [networks])] : Columns Ref) :=
  .cons (fit_one (.strings [name]) (d := .strings [""]) (by decide) fun _ => rfl) <|
  .cons (fit_one (.strings ["02:00:00:00:00:01"]) (d := .strings [""]) (by decide) fun _ => rfl) <|
  fit_one (.strings [networks]) (d := .strings []) (by decide) fun _ => rfl

theorem after_lrpCreateIfMissing {lr : LogicalRouter} {networks : String}
    (hlr : lr.uuid ∈ (s.northbound typeLogicalRouter).map Row.uuid)
    {f : LogicalRouterPort → Prog β} {post : Outcome Error β → World → Prop}
    (hc : Consistent northbound s.northbound)
    (hfound : ∀ r, named s.northbound typeLogicalRouterPort name = some r →
      After (answering ok w) (f (OvnRow.ofRow r)) s post)
    (hnew : ∀ u db, named s.northbound typeLogicalRouterPort name = none → Fresh s.northbound u →
      Consistent northbound db →
      db = (s.northbound.modify typeLogicalRouterPort fun rows =>
        rows ++ [newRow typeLogicalRouterPort u (routerPortColumns name networks)]).modifyRow
          typeLogicalRouter lr.uuid (addRefs "ports" [u]) →
      (∀ o, Unanswered ok o → post o (s.setNorthbound db)) ∧
      After (answering ok w)
        (f (OvnRow.ofRow (newRow typeLogicalRouterPort u (routerPortColumns name networks))))
        (s.setNorthbound db) post)
    (habort : ∀ o, Unanswered ok o → post o s) :
    After (answering ok w) (LogicalRouterPort.createIfMissing lr name networks >>= f) s post := by
  refine after_createPort LogicalRouterPort 
    (.tail _ (.head _)) (by decide) (by decide) (fun _ => rfl) (fit_routerPort name networks) ?_ (fun u => ?_) hlr hc
    hfound hnew habort
  · simp [routerPortColumns]
  · refine rowText_of_get (get_write_self ?_ (by simp))
    rfl

/-! ## Updates -/

/-- Overwrite columns of a row that hold no strong references. -/
theorem after_update {cols : Columns Ref} {f : List Json → Prog β}
    {post : Outcome Error β → World → Prop} (hc : Consistent northbound s.northbound)
    (hrow : ∀ names, Operation.resolveColumns (Database.lookup names) cols = some row)
    (hfit : FitColumns (northboundColumns T) cols) (hb : ∀ e ∈ row, ¬Binds T e.1)
    (hl : T = typeLogicalSwitchPort → ∀ r ∈ s.northbound T, Linked s.northbound (r.write row))
    (hok : ∀ db, Consistent northbound db → db = s.northbound.modifyRow T u (fun r => r.write row) →
      ∀ answers, After (answering ok w) (f answers) (s.setNorthbound db) post)
    (habort : ∀ o, Unanswered ok o → post o s) :
    After (answering ok w) (transact [.update T u cols] >>= f) s post := by
  refine after_transact (fun fresh answers db htr => ?_) habort
  obtain ⟨hcons, hdb⟩ := transact_update hrow hfit hb hc hl htr
  exact hok db hcons hdb answers

/-- The columns of strong references. -/
theorem binds_iff : Binds T c ↔ (T = typeLogicalSwitch ∧ c = "ports") ∨
    (T = typeLogicalRouter ∧ (c = "ports" ∨ c = "static_routes")) := by
  constructor
  · rintro ⟨ref, href, hs, rfl, rfl⟩
    revert ref
    decide
  · rintro (⟨rfl, rfl⟩ | ⟨rfl, rfl | rfl⟩)
    · exact ⟨_, .head _, rfl, rfl, rfl⟩
    · exact ⟨_, .tail _ (.head _), rfl, rfl, rfl⟩
    · exact ⟨_, .tail _ (.tail _ (.head _)), rfl, rfl, rfl⟩

theorem after_setCidr {ls : LogicalSwitch} {cidr : String} {f : Unit → Prog β}
    {post : Outcome Error β → World → Prop} (hc : Consistent northbound s.northbound)
    (hok : ∀ db, Consistent northbound db →
      db = s.northbound.modifyRow typeLogicalSwitch ls.uuid
        (fun r => r.write [("other_config", .map [("subnet", cidr)])]) →
      After (answering ok w) (f ()) (s.setNorthbound db) post)
    (habort : ∀ o, Unanswered ok o → post o s) :
    After (answering ok w) (ls.setCidr cidr >>= f) s post := by
  unfold LogicalSwitch.setCidr
  rw [Program.bind_assoc']
  refine after_update hc (fun _ => rfl) (fit_one _ (d := .map []) (by decide) trivial) ?_ ?_
    (fun db hcons hdb _ => hok db hcons hdb) habort
  · simp [binds_iff, typeLogicalSwitch, typeLogicalRouter]
  · exact nofun

theorem after_setOptions [Crates] {dhcp : DhcpOptions} {crd : DhcpOptionsCrd} {f : Unit → Prog β}
    {post : Outcome Error β → World → Prop} (hc : Consistent northbound s.northbound)
    (hok : ∀ hosts serverId db, Crates.netHosts dhcp.cidr = some (serverId :: hosts) →
      Consistent northbound db →
      db = s.northbound.modifyRow typeDhcpOptions dhcp.uuid
        (fun r => r.write [("options", .map (DhcpOptions.options serverId crd))]) →
      After (answering ok w) (f ()) (s.setNorthbound db) post)
    (herr : ∀ e, post (.err e) s) (hpanic : ∀ m, post (.aborted m) s) :
    After (answering ok w) (dhcp.setOptions crd >>= f) s post := by
  unfold DhcpOptions.setOptions
  split
  · exact after_fail (herr _)
  · next hosts hhosts =>
    cases hosts with
    | nil => exact after_abort (hpanic _)
    | cons serverId hosts =>
      show After _ ((transact _ >>= fun _ => Program.ret ()) >>= f) s post
      rw [Program.bind_assoc']
      refine after_update hc (fun _ => rfl) (fit_one _ (d := .map []) (by decide) trivial) ?_ ?_
        (fun db hcons hdb _ => hok hosts serverId db hhosts hcons hdb) ?_
      · simp [binds_iff, typeDhcpOptions, typeLogicalSwitch, typeLogicalRouter]
      · exact nofun
      · rintro o ⟨-, m, rfl⟩
        exact hpanic m

theorem after_lrpUpdate {lrp : LogicalRouterPort} {networks : String} {f : Unit → Prog β}
    {post : Outcome Error β → World → Prop} (hc : Consistent northbound s.northbound)
    (hok : ∀ db, Consistent northbound db →
      db = s.northbound.modifyRow typeLogicalRouterPort lrp.uuid
        (fun r => r.write (routerPortColumns lrp.name networks)) →
      After (answering ok w) (f ()) (s.setNorthbound db) post)
    (habort : ∀ o, Unanswered ok o → post o s) :
    After (answering ok w) (lrp.update networks >>= f) s post := by
  unfold LogicalRouterPort.update
  rw [Program.bind_assoc']
  refine after_update hc (fun _ => resolve_routerPort _ _ _) (fit_routerPort _ _) ?_ ?_ (fun db hcons hdb _ => hok db hcons hdb) habort
  · simp [binds_iff, typeLogicalRouterPort, typeLogicalSwitch, typeLogicalRouter]
  · exact nofun

/-! ## Addresses and DHCP options of switch ports -/

/-- The result of a lookup of a port by its MAC address. -/
def foundByMac (db : Database) (ls : LogicalSwitch) (mac : String) : Except Error LogicalSwitchPort :=
  match ((rowsOf LogicalSwitchPort db).filter fun lsp => ls.portIds.contains lsp.uuid).find?
    fun lsp => containsStr lsp.addresses mac with
  | some lsp => .ok lsp
  | none => .error (.ovnNotFound typeLogicalSwitchPort mac)

theorem reads_getByMac (hc : Consistent northbound s.northbound) (ls : LogicalSwitch) (mac : String) :
    Reads ok w s (LogicalSwitchPort.getByMac ls mac) (foundByMac s.northbound ls mac) := by
  refine (reads_ovnList LogicalSwitchPort hc).bind ?_
  unfold foundByMac
  dsimp only
  cases ((rowsOf LogicalSwitchPort s.northbound).filter fun lsp =>
      ls.portIds.contains lsp.uuid).find? fun lsp => containsStr lsp.addresses mac with
  | some lsp => exact reads_ret _
  | none => exact reads_fail _

/-- The port has an address already, or it gets one, or it is left as it is. -/
theorem after_setAddress {lsp : LogicalSwitchPort} {mac : String} {ip : IpConfiguration}
    {f : Unit → Prog β} {post : Outcome Error β → World → Prop}
    (hc : Consistent northbound s.northbound)
    (hkept : After (answering ok w) (f ()) s post)
    (hset : ∀ db, Consistent northbound db →
      db = s.northbound.modifyRow typeLogicalSwitchPort lsp.uuid
        (fun r => r.write [("addresses", .strings [LogicalSwitchPort.addressString mac ip])]) →
      After (answering ok w) (f ()) (s.setNorthbound db) post)
    (herr : ∀ e, post (.err e) s) (habort : ∀ o, Unanswered ok o → post o s) :
    After (answering ok w) (lsp.setAddress mac ip >>= f) s post := by
  unfold LogicalSwitchPort.setAddress
  split
  · exact hkept
  · rw [Program.bind_assoc']
    unfold LogicalSwitch.findLspOwner
    rw [Program.bind_assoc']
    refine (reads_ovnList LogicalSwitch hc).after (fun switches hsw => ?_) nofun habort
    cases hsw
    split
    · next ls hls =>
      show After _ (((LogicalSwitchPort.getByMac ls mac).attempt >>= _) >>= f) s post
      rw [Program.bind_assoc']
      refine (reads_getByMac hc ls mac).attempt.after (fun x _ => ?_) nofun habort
      cases x with
      | ok _ => exact after_fail (herr _)
      | error _ =>
        show After _ ((transact _ >>= fun _ => Program.ret ()) >>= f) s post
        rw [Program.bind_assoc']
        refine after_update hc (fun _ => rfl) (fit_one _ (d := .strings []) (by decide) nofun) ?_ ?_
          (fun db hcons hdb _ => hset db hcons hdb) habort
        · simp [binds_iff, typeLogicalSwitchPort, typeLogicalSwitch, typeLogicalRouter]
        · rintro - r hr
          exact (linked_of_consistent hc hr).write (by simp)
    · exact after_fail (herr _)

/-- A port may be given DHCP options that there are. -/
theorem linked_write_dhcp {d : Row} (hd : d ∈ db typeDhcpOptions) :
    Linked db (r.write [("dhcpv4_options", .refs [d.uuid])]) := by
  unfold Linked
  have hdin : d.uuid ∈ (db typeDhcpOptions).map Row.uuid := List.mem_map_of_mem hd
  rw [Row.modify_eq_self]
  intro e he hec
  -- The column holds the reference that was just written.
  obtain ⟨e₀, he₀, rfl⟩ := List.mem_map.mp he
  by_cases h₀ : e₀.1 = "dhcpv4_options"
  · rw [if_pos h₀]
    refine congrArg Datum.refs (List.filter_eq_self.mpr fun v hv => ?_)
    rw [List.mem_singleton.mp hv]
    exact Ovsdb.isSome_find?.mpr hdin
  · rw [if_neg h₀] at hec
    exact absurd hec h₀

theorem after_setDhcpOptions {lsp : LogicalSwitchPort} {cidr : String}
    {f : Unit → Prog β} {post : Outcome Error β → World → Prop}
    (hc : Consistent northbound s.northbound)
    (hset : ∀ d db, firstWith s.northbound typeDhcpOptions "cidr" cidr = some d →
      Consistent northbound db →
      db = s.northbound.modifyRow typeLogicalSwitchPort lsp.uuid
        (fun r => r.write [("dhcpv4_options", .refs [d.uuid])]) →
      After (answering ok w) (f ()) (s.setNorthbound db) post)
    (herr : ∀ e, post (.err e) s) (habort : ∀ o, Unanswered ok o → post o s) :
    After (answering ok w) (lsp.setDhcpOptions cidr >>= f) s post := by
  unfold LogicalSwitchPort.setDhcpOptions
  rw [Program.bind_assoc']
  refine (reads_getByCidr hc cidr).after (fun a ha => ?_) (fun e _ => herr e) habort
  unfold foundByCidr at ha
  split at ha
  · next d hd =>
    cases ha
    rw [Program.bind_assoc']
    refine after_update hc (fun _ => rfl) (fit_one _ (d := .refs []) (by decide) trivial) ?_ ?_
      (fun db hcons hdb _ => hset d db hd hcons hdb) habort
    · simp [binds_iff, typeLogicalSwitchPort, typeLogicalSwitch, typeLogicalRouter]
    · exact fun _ _ _ => linked_write_dhcp (firstWith_some hd).1
  · cases ha

/-! ## DHCP options and static routes -/

/-- Lookup of DHCP options by their CIDR, or creation. -/
theorem after_orCreateDhcp {cidr : String} {f : DhcpOptions → Prog β}
    {post : Outcome Error β → World → Prop} (hc : Consistent northbound s.northbound)
    (hfound : ∀ r, firstWith s.northbound typeDhcpOptions "cidr" cidr = some r →
      After (answering ok w) (f (OvnRow.ofRow r)) s post)
    (hnew : ∀ u db, firstWith s.northbound typeDhcpOptions "cidr" cidr = none →
      Fresh s.northbound u → Consistent northbound db →
      db = s.northbound.modify typeDhcpOptions
        (fun rows => rows ++ [newRow typeDhcpOptions u [("cidr", .strings [cidr])]]) →
      (∀ o, Unanswered ok o → post o (s.setNorthbound db)) ∧
      After (answering ok w) (f (OvnRow.ofRow (newRow typeDhcpOptions u [("cidr", .strings [cidr])])))
        (s.setNorthbound db) post)
    (habort : ∀ o, Unanswered ok o → post o s) :
    After (answering ok w)
      (orCreate (DhcpOptions.getByCidr cidr) (DhcpOptions.create cidr) >>= f) s post := by
  have hread : Reads ok w s (DhcpOptions.getByCidr cidr) _ := reads_getByCidr hc cidr
  unfold foundByCidr at hread
  cases hn : firstWith s.northbound typeDhcpOptions "cidr" cidr with
  | some r =>
    rw [hn] at hread
    refine after_orCreate hread (fun a ha => ?_) nofun nofun habort
    cases ha
    exact hfound r hn
  | none =>
    rw [hn] at hread
    refine after_orCreate hread nofun (fun _ _ _ => ?_) (fun e he hne => ?_) habort
    · unfold DhcpOptions.create
      rw [Program.bind_assoc']
      refine after_transact (fun fresh answers db htr => ?_) habort
      obtain ⟨hcons, u, hu, hdb⟩ := transact_insert rfl ⟨_, .tail _ (.tail _ (.tail _ (.head _))), .inr rfl⟩
        (resolve_text _ _) (fit_one (.strings [cidr]) (d := .strings [""]) (by decide) fun _ => rfl) hc htr
      obtain ⟨hab, hrest⟩ := hnew u db hn hu hcons hdb
      have hread' : Reads ok w (s.setNorthbound db) (DhcpOptions.getByCidr cidr) _ :=
        reads_getByCidr hcons cidr
      unfold foundByCidr at hread'
      have htext : rowText (newRow typeDhcpOptions u [("cidr", .strings [cidr])]) "cidr" = cidr := by
        refine rowText_of_get (get_write_self ?_ nofun)
        rfl
      rw [northbound_setNorthbound,
        firstWith_append hn htext (by rw [hdb, Database.modify_self])] at hread'
      refine hread'.after (fun a ha => ?_) nofun hab
      cases ha
      exact hrest
    · cases he
      exact absurd rfl (hne _ _)

/-- A loop of lookups that have to succeed returns or panics. -/
theorem collect_expect {ι : Type} (get : ι → Option α) (msg : ι → String) (l : List ι) :
    (∃ as, Program.collect l (fun i => expect (get i) (msg i)) = (.ret as : Prog (List α))) ∨
      ∃ m, Program.collect l (fun i => expect (get i) (msg i)) = (.abort m : Prog (List α)) := by
  induction l with
  | nil => exact .inl ⟨[], rfl⟩
  | cons i is ih =>
    unfold Program.collect
    beta_reduce
    cases get i with
    | none => exact .inr ⟨msg i, rfl⟩
    | some a =>
      rcases ih with ⟨as, has⟩ | ⟨m, hm⟩
      · rw [has]
        exact .inl ⟨a :: as, rfl⟩
      · rw [hm]
        exact .inr ⟨m, rfl⟩

theorem addRoutes_insert (routes : List Route) (i : UInt8) :
    ∀ op ∈ (LogicalRouter.addRoutes routes i).1, (∃ row name,
      op = .insert typeLogicalRouterStaticRoute row name) ∧ op.Fits northbound := by
  induction routes generalizing i with
  | nil => exact nofun
  | cons route routes ih =>
    intro op hop
    rcases List.mem_cons.mp hop with rfl | hop
    · refine ⟨⟨_, _, rfl⟩, ⟨_, .tail _ (.tail _ (.head _)), .inr rfl⟩, ?_⟩
      have hprefix : FitColumns (northboundColumns typeLogicalRouterStaticRoute)
          [("ip_prefix", (.strings [route.cidr] : Datum Ref))] :=
        fit_one _ (d := .strings [""]) (by decide) fun _ => rfl
      have hnexthop : FitColumns (northboundColumns typeLogicalRouterStaticRoute)
          [("nexthop", (.strings [route.nexthop] : Datum Ref))] :=
        fit_one _ (d := .strings [""]) (by decide) fun _ => rfl
      exact hprefix.cons hnexthop
    · exact ih (i + 1) op hop

/-- Routes are inserted and referenced in the row of the router alone. -/
theorem after_setRoutes {lr : LogicalRouter} {routes : List Route} {f : Unit → Prog β}
    {post : Outcome Error β → World → Prop} (hc : Consistent northbound s.northbound)
    (hok : ∀ db, Consistent northbound db →
      (∃ g : Row → Row, (∀ r ∈ s.northbound typeLogicalRouter, r.uuid = lr.uuid →
          (g r).uuid = r.uuid ∧ ∀ c', c' ≠ "static_routes" → (g r).get c' = r.get c') ∧
        db typeLogicalRouter = (s.northbound typeLogicalRouter).map
          fun r => if r.uuid = lr.uuid then g r else r) →
      (∀ T, T ≠ typeLogicalRouter → T ≠ typeLogicalRouterStaticRoute → db T = s.northbound T) →
      After (answering ok w) (f ()) (s.setNorthbound db) post)
    (hpanic : ∀ m, post (.aborted m) s) :
    After (answering ok w) (lr.setRoutes routes >>= f) s post := by
  have habort : ∀ o : Outcome Error β, Unanswered ok o → post o s := by
    rintro o ⟨-, m, rfl⟩
    exact hpanic m
  unfold LogicalRouter.setRoutes LogicalRouter.getRoutes
  rw [Program.bind_assoc', Program.bind_assoc']
  refine (reads_ovnList StaticRoute hc).after (fun all _ => ?_) nofun habort
  rcases collect_expect (fun uuid => all.find? fun item => item.uuid = uuid)
    (fun uuid => "Unable to find static route " ++ uuid ++ " for " ++ lr.name)
    lr.staticRouteUuids with ⟨l, hl⟩ | ⟨m, hm⟩
  · rw [hl]
    dsimp only [Program.ret_bind]
    rw [Program.bind_assoc']
    refine after_transact (fun fresh answers db htr => ?_) habort
    obtain ⟨hcons, hrouters, hsame⟩ := transact_routes
      (fun op hop => (addRoutes_insert _ 0 op hop).1) (fun op hop => (addRoutes_insert _ 0 op hop).2)
      (by simp) hc htr
    exact hok db hcons hrouters hsame
  · rw [hm]
    exact after_abort (hpanic m)

/-! ## Deletion -/

theorem after_ovnDelete (τ : Type) [OvnCommon τ] {o : τ}
    (hT : OvnCommon.ovnType τ = typeLogicalSwitch ∨ OvnCommon.ovnType τ = typeLogicalRouter)
    {f : Unit → Prog β} {post : Outcome Error β → World → Prop}
    (hc : Consistent northbound s.northbound)
    (hok : ∀ db, Consistent northbound db →
      db = (s.northbound.modify (OvnCommon.ovnType τ)
        fun rows => rows.filter fun r => r.uuid ≠ OvnCommon.uuid o).sweep northbound →
      After (answering ok w) (f ()) (s.setNorthbound db) post)
    (habort : ∀ o, Unanswered ok o → post o s) :
    After (answering ok w) (ovnDelete o >>= f) s post := by
  unfold ovnDelete deleteByUuid
  rw [Program.bind_assoc']
  refine after_transact (fun fresh answers db htr => ?_) habort
  obtain ⟨hcons, hdb⟩ := transact_delete hT hc htr
  exact hok db hcons hdb

/-- The port goes from the given switch, if it is there. -/
theorem after_delLsp {ls : LogicalSwitch} {lspId : String}
    {f : Unit → Prog β} {post : Outcome Error β → World → Prop}
    (hc : Consistent northbound s.northbound)
    (hok : ∀ p db, named s.northbound typeLogicalSwitchPort lspId = some p →
      Consistent northbound db →
      db = (s.northbound.modifyRow typeLogicalSwitch ls.uuid (dropRefs "ports" [p.uuid])).sweep
        northbound →
      After (answering ok w) (f ()) (s.setNorthbound db) post)
    (herr : ∀ e, named s.northbound typeLogicalSwitchPort lspId = none → post (.err e) s)
    (habort : ∀ o, Unanswered ok o → post o s) :
    After (answering ok w) (ls.delLsp lspId >>= f) s post := by
  unfold LogicalSwitch.delLsp
  rw [Program.bind_assoc']
  refine (reads_getByName LogicalSwitchPort hc lspId).after (fun a ha => ?_) (fun e he => ?_) habort
  · unfold foundByName at ha
    split at ha
    · next p hp =>
      cases ha
      rw [Program.bind_assoc']
      refine after_transact (fun fresh answers db htr => ?_) habort
      obtain ⟨hcons, hdb⟩ := transact_drop (.inl rfl) (by decide) hc htr
      exact hok p db hp hcons hdb
    · cases ha
  · unfold foundByName at he
    split at he
    · cases he
    · next hn => exact herr e hn

/-- The port of a NIC is not there, or it goes from the switch of the NIC's network. -/
theorem after_disconnectVmNic {vm : VirtualMachine} {nic : NetworkAttachment} {network id : String}
    {post : Outcome Error Unit → World → Prop} (hc : Consistent northbound s.northbound)
    (hname : nic.name = some network) (hid : nic.ovnId = some id)
    (hgone : named s.northbound typeLogicalSwitchPort id = none → post (.ok ()) s)
    (hmissing : ∀ p e, named s.northbound typeLogicalSwitchPort id = some p →
      named s.northbound typeLogicalSwitch (vm.metadata.ns ++ "-" ++ network) = none → post (.err e) s)
    (hdrop : ∀ p r db, named s.northbound typeLogicalSwitchPort id = some p →
      named s.northbound typeLogicalSwitch (vm.metadata.ns ++ "-" ++ network) = some r →
      Consistent northbound db →
      db = (s.northbound.modifyRow typeLogicalSwitch r.uuid (dropRefs "ports" [p.uuid])).sweep
        northbound → post (.ok ()) (s.setNorthbound db))
    (habort : ∀ o, Unanswered ok o → post o s) :
    After (answering ok w) (disconnectVmNic vm nic) s post := by
  unfold disconnectVmNic
  rw [hname, hid]
  show After _ ((getByName LogicalSwitchPort id).attempt >>= _) s _
  refine (reads_getByName LogicalSwitchPort hc id).attempt.after (fun x hx => ?_) nofun habort
  cases hx
  unfold foundByName
  cases hp : named s.northbound (OvnCommon.ovnType LogicalSwitchPort) id with
  | none => exact after_ret (hgone hp)
  | some p =>
    have hsw : Reads ok w s (getByName LogicalSwitch (vm.metadata.ns ++ "-" ++ network)) _ :=
      reads_getByName LogicalSwitch hc _
    unfold foundByName at hsw
    cases hr : named s.northbound (OvnCommon.ovnType LogicalSwitch)
        (vm.metadata.ns ++ "-" ++ network) with
    | none =>
      rw [hr] at hsw
      exact hsw.after nofun (fun e _ => hmissing p e hp hr) habort
    | some r =>
      rw [hr] at hsw
      refine hsw.after (fun ls hls => ?_) nofun habort
      cases hls
      rw [← Program.bind_ret (LogicalSwitch.delLsp _ _)]
      refine after_delLsp hc (fun p' db hp' hcons hdb => ?_) (fun e hn => ?_) habort
      · cases hp.symm.trans hp'
        exact after_ret (hdrop p r db hp hr hcons hdb)
      · cases hp.symm.trans hn

end Actions

/-! ## What happens besides -/

/-- From outside only the dynamic addresses of a port change. -/
theorem northbound_happen {s t : World} {e : WorldEvent} (h : s.happen e = some t) :
    t.northbound = s.northbound ∨ ∃ port address,
      t.northbound = s.northbound.modifyRow typeLogicalSwitchPort port fun r =>
        r.modify "dynamic_addresses" fun _ => .strings [address] := by
  cases e with
  | create κ k labels annotations spec =>
    obtain ⟨c, -, rfl⟩ := Option.map_eq_some_iff.mp h
    exact .inl rfl
  | edit κ k labels annotations spec =>
    obtain ⟨c, -, rfl⟩ := Option.map_eq_some_iff.mp h
    exact .inl rfl
  | delete κ k time =>
    obtain ⟨c, -, rfl⟩ := Option.map_eq_some_iff.mp h
    exact .inl rfl
  | assignAddress port address =>
    cases h
    exact .inr ⟨port, address, rfl⟩
  | _ =>
    simp only [World.happen] at h
    split at h <;> cases h
    exact .inl rfl

theorem consistent_assign {db : Database} {port address : String} (hc : Consistent northbound db) :
    Consistent northbound (db.modifyRow typeLogicalSwitchPort port fun r =>
      r.modify "dynamic_addresses" fun _ => .strings [address]) := by
  refine hc.modifyColumn (by decide) (by decide) fun e he hec d hd => ?_
  have h₁ := Ovsdb.lookup_of_mem (flat_northbound.nodup _) he
  rw [hec] at h₁
  rw [← Option.some.inj h₁]
  exact fun _ => rfl

theorem consistent_happen {s t : World} {e : WorldEvent} (h : s.happen e = some t)
    (hc : Consistent northbound s.northbound) : Consistent northbound t.northbound := by
  rcases northbound_happen h with he | ⟨port, address, he⟩
  · rw [he]
    exact hc
  · rw [he]
    exact consistent_assign hc

end ClusterController
