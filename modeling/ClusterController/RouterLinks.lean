import ClusterController.Wiring
import ClusterController.NicConnections

/-!
# Links between routers and switches

What a sequence of calls of `connect_router_to_ls` makes of a database: `linkedDatabase` is the
database with a list of links, and a call acts on it like `connect` on the list.
-/

namespace ClusterController

open Interaction (Program)
open Interaction.Program (Outcome After after_ret)
open Ovsdb (Row Database Columns Consistent Datum Operation Ref FitColumns addRefs)

/-! ## Names -/

/-- The name has no underscore. -/
def Unscored (name : String) : Prop := '_' ∉ name.toList

instance (name : String) : Decidable (Unscored name) := inferInstanceAs (Decidable ('_' ∉ name.toList))

/-- Two lists are cut at the first of a separator. -/
theorem append_separator_inj {α : Type} {a : α} {l l' t t' : List α} (hl : a ∉ l) (hl' : a ∉ l')
    (h : l ++ a :: t = l' ++ a :: t') : l = l' ∧ t = t' := by
  induction l generalizing l' with
  | nil =>
    cases l' with
    | nil => exact ⟨rfl, (List.cons.inj h).2⟩
    | cons b l' => exact absurd ((List.cons.inj h).1 ▸ List.mem_cons_self) hl'
  | cons b l ih =>
    cases l' with
    | nil => exact absurd ((List.cons.inj h).1 ▸ List.mem_cons_self) hl
    | cons b' l' =>
      obtain ⟨hb, hrest⟩ := List.cons.inj h
      obtain ⟨rfl, ht⟩ := ih (fun hin => hl (List.mem_cons_of_mem _ hin))
        (fun hin => hl' (List.mem_cons_of_mem _ hin)) hrest
      exact ⟨congrArg (· :: l) hb, ht⟩

/-- Two names after a text, with an underscore between them. -/
theorem names_separated (start middle : String) {a b a' b' : String} (ha : Unscored a) (ha' : Unscored a')
    (h : start ++ a ++ ("_" ++ middle) ++ b = start ++ a' ++ ("_" ++ middle) ++ b') :
    a = a' ∧ b = b' := by
  have hlist := congrArg String.toList h
  simp only [String.toList_append, List.append_assoc] at hlist
  obtain ⟨hn, hrest⟩ := append_separator_inj ha ha' (List.append_cancel_left hlist)
  exact ⟨String.ext hn, String.ext (List.append_cancel_left hrest)⟩

theorem routerPortName_pair {a b a' b' : String} (ha : Unscored a) (ha' : Unscored a') :
    routerPortName a b = routerPortName a' b' ↔ a = a' ∧ b = b' := by
  constructor
  · exact names_separated "lr_" "ls_" ha ha'
  · rintro ⟨rfl, rfl⟩
    rfl

theorem switchPortName_pair {a b a' b' : String} (ha : Unscored a) (ha' : Unscored a') :
    switchPortName a b = switchPortName a' b' ↔ a = a' ∧ b = b' := by
  constructor
  · exact names_separated "ls_" "lr_" ha ha'
  · rintro ⟨rfl, rfl⟩
    rfl

/-! ## Databases with links -/

/-- A call of `connect_router_to_ls`. -/
structure Connection where
  router : LogicalRouter
  switch : LogicalSwitch
  address : String

namespace Connection

/-- The names by which the routers and switches are told apart. -/
def pair (c : Connection) : String × String := (c.router.name, c.switch.name)

/-- The name of the port of the router. -/
def portName (c : Connection) : String := routerPortName c.router.name c.switch.name

/-- The name of the port of the switch. -/
def backName (c : Connection) : String := switchPortName c.switch.name c.router.name

def run (c : Connection) : Prog Unit := connectRouterToLs c.router c.switch c.address

end Connection

/-- A link: the last call that was about it, and the uuids of its ports. -/
structure Link where
  connection : Connection
  port : String
  back : String

namespace Link

/-- The port of the router. -/
def routerPort (l : Link) : Row :=
  newRow typeLogicalRouterPort l.port (routerPortColumns l.connection.portName l.connection.address)

/-- The port of the switch. -/
def switchPort (l : Link) : Row :=
  newRow typeLogicalSwitchPort l.back (linkPortColumns l.connection.backName l.connection.portName)

def router (l : Link) : String := l.connection.router.uuid

def switch (l : Link) : String := l.connection.switch.uuid

variable (l : Link)

@[simp] theorem uuid_routerPort : l.routerPort.uuid = l.port := uuid_newRow _ _ _

@[simp] theorem uuid_switchPort : l.switchPort.uuid = l.back := uuid_newRow _ _ _

@[simp] theorem name_routerPort : rowText l.routerPort "name" = l.connection.portName :=
  rowText_of_get (get_write_self rfl (by simp))

@[simp] theorem name_switchPort : rowText l.switchPort "name" = l.connection.backName := by
  unfold switchPort newRow linkPortColumns
  rw [Row.write_cons, Row.write_cons, Row.write_cons]
  exact rowText_of_get (get_write_self rfl (by simp))

/-- The port is updated as a whole. -/
theorem write_routerPort (u name name' address address' : String) :
    (newRow typeLogicalRouterPort u (routerPortColumns name address)).write
      (routerPortColumns name' address') =
        newRow typeLogicalRouterPort u (routerPortColumns name' address') := rfl

end Link

/-- The row of an owner with the ports of its links. -/
def grow (owner port : Link → String) (links : List Link) (r : Row) : Row :=
  links.foldl (fun r l => if r.uuid = owner l then addRefs "ports" [port l] r else r) r

/-- The database with links. -/
def linkedDatabase (db : Database) (links : List Link) : Database := fun T =>
  if T = typeLogicalRouterPort then db T ++ links.map Link.routerPort
  else if T = typeLogicalSwitchPort then db T ++ links.map Link.switchPort
  else if T = typeLogicalRouter then (db T).map (grow Link.router Link.port links)
  else if T = typeLogicalSwitch then (db T).map (grow Link.switch Link.back links)
  else db T

section Grow

variable {owner port : Link → String} {links : List Link} {r : Row} {l : Link} {v c : String}

@[simp] theorem grow_nil : grow owner port [] r = r := rfl

@[simp] theorem uuid_grow : (grow owner port links r).uuid = r.uuid := by
  unfold grow
  induction links generalizing r with
  | nil => rfl
  | cons l links ih =>
    rw [List.foldl_cons, ih]
    split <;> rfl

theorem grow_append : grow owner port (links ++ [l]) r =
    if r.uuid = owner l then addRefs "ports" [port l] (grow owner port links r)
    else grow owner port links r := by
  have hu : (grow owner port links r).uuid = r.uuid := uuid_grow
  unfold grow at hu ⊢
  rw [List.foldl_append, List.foldl_cons, List.foldl_nil, hu]

theorem get_grow_of_ne (hc : c ≠ "ports") : (grow owner port links r).get c = r.get c := by
  induction links using List.reverseRecOn with
  | nil => rfl
  | append_singleton links l ih =>
    rw [grow_append]
    split
    · exact (Row.get_modify_of_ne hc).trans ih
    · exact ih

/-- A row without links is as it was. -/
theorem grow_eq_self (h : ∀ l ∈ links, owner l ≠ r.uuid) : grow owner port links r = r := by
  induction links using List.reverseRecOn with
  | nil => rfl
  | append_singleton links l ih =>
    rw [grow_append, if_neg (Ne.symm (h l (by simp)))]
    exact ih fun l' hl' => h l' (List.mem_append_left _ hl')

theorem grow_map {f : Link → Link} (hf : ∀ l ∈ links, owner (f l) = owner l ∧ port (f l) = port l) :
    grow owner port (links.map f) r = grow owner port links r := by
  induction links using List.reverseRecOn with
  | nil => rfl
  | append_singleton links l ih =>
    obtain ⟨howner, hport⟩ := hf l (by simp)
    rw [List.map_append, List.map_singleton, grow_append, grow_append, howner, hport,
      ih fun l' hl' => hf l' (List.mem_append_left _ hl')]

theorem mem_refs_addRefs_iff {us : List String} (hr : r.get c = some (.refs (r.refs c))) :
    v ∈ (addRefs c us r).refs c ↔ v ∈ r.refs c ∨ v ∈ us :=
  ⟨of_mem_refs_addRefs, fun h => h.elim mem_refs_addRefs fun hv => mem_refs_addRefs_self hr hv⟩

/-- The column still holds references. -/
theorem get_grow (hr : r.get "ports" = some (.refs (r.refs "ports"))) :
    (grow owner port links r).get "ports" = some (.refs ((grow owner port links r).refs "ports")) := by
  induction links using List.reverseRecOn with
  | nil => exact hr
  | append_singleton links l ih =>
    rw [grow_append]
    split
    · rw [Ovsdb.refs_addRefs ih]
      unfold addRefs
      rw [Row.get_modify, if_pos rfl, ih]
      rfl
    · exact ih

/-- The references are those that the row had and those to the ports of its links. -/
theorem mem_refs_grow (hr : r.get "ports" = some (.refs (r.refs "ports"))) :
    v ∈ (grow owner port links r).refs "ports" ↔
      v ∈ r.refs "ports" ∨ ∃ l ∈ links, owner l = r.uuid ∧ port l = v := by
  induction links using List.reverseRecOn with
  | nil => simp
  | append_singleton links l ih =>
    have hlast : (∃ l' ∈ links ++ [l], owner l' = r.uuid ∧ port l' = v) ↔
        (∃ l' ∈ links, owner l' = r.uuid ∧ port l' = v) ∨ (owner l = r.uuid ∧ port l = v) := by
      simp only [List.mem_append, List.mem_singleton, or_and_right, exists_or, exists_eq_left]
    rw [hlast, ← or_assoc, ← ih, grow_append]
    split
    · next howner =>
      rw [mem_refs_addRefs_iff (get_grow hr), List.mem_singleton]
      refine or_congr_right ⟨fun hv => ⟨howner.symm, hv.symm⟩, fun hv => hv.2.symm⟩
    · next howner =>
      rw [or_iff_left fun hv => howner hv.1.symm]

end Grow

section Tables

variable {db db' : Database} {links : List Link} {l : Link} {c : Connection}

theorem linked_routerPorts : linkedDatabase db links typeLogicalRouterPort =
    db typeLogicalRouterPort ++ links.map Link.routerPort := rfl

theorem linked_switchPorts : linkedDatabase db links typeLogicalSwitchPort =
    db typeLogicalSwitchPort ++ links.map Link.switchPort := rfl

theorem linked_routers : linkedDatabase db links typeLogicalRouter =
    (db typeLogicalRouter).map (grow Link.router Link.port links) := rfl

theorem linked_switches : linkedDatabase db links typeLogicalSwitch =
    (db typeLogicalSwitch).map (grow Link.switch Link.back links) := rfl

theorem linked_other {T : String} (h₁ : T ≠ typeLogicalRouterPort) (h₂ : T ≠ typeLogicalSwitchPort)
    (h₃ : T ≠ typeLogicalRouter) (h₄ : T ≠ typeLogicalSwitch) : linkedDatabase db links T = db T := by
  unfold linkedDatabase
  rw [if_neg h₁, if_neg h₂, if_neg h₃, if_neg h₄]

/-- A database is one with links if its tables are. -/
theorem eq_linkedDatabase (h₁ : db' typeLogicalRouterPort = linkedDatabase db links typeLogicalRouterPort)
    (h₂ : db' typeLogicalSwitchPort = linkedDatabase db links typeLogicalSwitchPort)
    (h₃ : db' typeLogicalRouter = linkedDatabase db links typeLogicalRouter)
    (h₄ : db' typeLogicalSwitch = linkedDatabase db links typeLogicalSwitch)
    (h : ∀ T, T ≠ typeLogicalRouterPort → T ≠ typeLogicalSwitchPort → T ≠ typeLogicalRouter →
      T ≠ typeLogicalSwitch → db' T = db T) : db' = linkedDatabase db links := by
  funext T
  by_cases hT₁ : T = typeLogicalRouterPort
  · rw [hT₁]
    exact h₁
  by_cases hT₂ : T = typeLogicalSwitchPort
  · rw [hT₂]
    exact h₂
  by_cases hT₃ : T = typeLogicalRouter
  · rw [hT₃]
    exact h₃
  by_cases hT₄ : T = typeLogicalSwitch
  · rw [hT₄]
    exact h₄
  rw [linked_other hT₁ hT₂ hT₃ hT₄]
  exact h T hT₁ hT₂ hT₃ hT₄

/-- The database without links. -/
theorem linkedDatabase_nil : linkedDatabase db [] = db := by
  refine (eq_linkedDatabase ?_ ?_ ?_ ?_ fun _ _ _ _ _ => rfl).symm
  · rw [linked_routerPorts, List.map_nil, List.append_nil]
  · rw [linked_switchPorts, List.map_nil, List.append_nil]
  · rw [linked_routers]
    exact (List.map_id _).symm
  · rw [linked_switches]
    exact (List.map_id _).symm

/-- The table of the owners with one more link. -/
theorem map_grow_append {owner port : Link → String} (rows : List Row) :
    rows.map (grow owner port (links ++ [l])) = (rows.map (grow owner port links)).map fun r =>
      if r.uuid = owner l then addRefs "ports" [port l] r else r := by
  rw [List.map_map]
  refine List.map_congr_left fun r _ => ?_
  rw [grow_append, Function.comp_apply, uuid_grow]

/-- The two transactions that make a link. -/
theorem linkedDatabase_append : linkedDatabase db (links ++ [l]) =
    ((((linkedDatabase db links).modify typeLogicalRouterPort
        fun rows => rows ++ [l.routerPort]).modifyRow typeLogicalRouter l.router
          (addRefs "ports" [l.port])).modify typeLogicalSwitchPort
        fun rows => rows ++ [l.switchPort]).modifyRow typeLogicalSwitch l.switch
          (addRefs "ports" [l.back]) := by
  refine (eq_linkedDatabase ?_ ?_ ?_ ?_ fun T h₁ h₂ h₃ h₄ => ?_).symm
  · rw [linked_routerPorts, List.map_append, ← List.append_assoc, ← linked_routerPorts]
    unfold Database.modifyRow
    rw [Database.modify_of_ne (by decide), Database.modify_of_ne (by decide),
      Database.modify_of_ne (by decide), Database.modify_self]
    rfl
  · rw [linked_switchPorts, List.map_append, ← List.append_assoc, ← linked_switchPorts]
    unfold Database.modifyRow
    rw [Database.modify_of_ne (by decide), Database.modify_self, Database.modify_of_ne (by decide),
      Database.modify_of_ne (by decide)]
    rfl
  · rw [linked_routers, map_grow_append, ← linked_routers]
    unfold Database.modifyRow
    rw [Database.modify_of_ne (by decide), Database.modify_of_ne (by decide), Database.modify_self,
      Database.modify_of_ne (by decide)]
  · rw [linked_switches, map_grow_append, ← linked_switches]
    unfold Database.modifyRow
    rw [Database.modify_self, Database.modify_of_ne (by decide), Database.modify_of_ne (by decide),
      Database.modify_of_ne (by decide)]
  · unfold Database.modifyRow
    rw [Database.modify_of_ne h₄, Database.modify_of_ne h₂, Database.modify_of_ne h₃,
      Database.modify_of_ne h₁]
    exact linked_other h₁ h₂ h₃ h₄

/-- The links, where a call was the last about one of them. -/
def relink (links : List Link) (c : Connection) : List Link :=
  links.map fun l => if l.connection.pair = c.pair then { l with connection := c } else l

end Tables

/-! ## What a sequence of calls has made -/

/-- The last call about a pair. -/
def lastCall (calls : List Connection) (pair : String × String) : Option Connection :=
  calls.reverse.find? fun c => c.pair = pair

/-- The call is about a router and a switch of the database, and their names have no underscore. -/
structure Existing (db : Database) (c : Connection) : Prop where
  router : ∃ R ∈ db typeLogicalRouter, R.uuid = c.router.uuid ∧ rowText R "name" = c.router.name
  switch : ∃ L ∈ db typeLogicalSwitch, L.uuid = c.switch.uuid ∧ rowText L "name" = c.switch.name
  unscoredRouter : Unscored c.router.name
  unscoredSwitch : Unscored c.switch.name

/-- No ports have the names of links between routers and switches of the database. -/
def Bare (db : Database) : Prop :=
  ∀ R ∈ db typeLogicalRouter, ∀ L ∈ db typeLogicalSwitch,
    Unscored (rowText R "name") → Unscored (rowText L "name") →
    (∀ p ∈ db typeLogicalRouterPort,
      rowText p "name" ≠ routerPortName (rowText R "name") (rowText L "name")) ∧
    ∀ q ∈ db typeLogicalSwitchPort,
      rowText q "name" ≠ switchPortName (rowText L "name") (rowText R "name")

/-- The router and the switch of the call are the only ones of their names. -/
structure ToldApart (db : Database) (c : Connection) : Prop where
  router : ∀ R ∈ db typeLogicalRouter, rowText R "name" = c.router.name → R.uuid = c.router.uuid
  switch : ∀ L ∈ db typeLogicalSwitch, rowText L "name" = c.switch.name → L.uuid = c.switch.uuid

/-- What calls have made of the ports of table `T` and of their owners in table `P`. Each call has
one port, which its owner has and nobody else, and all else is as it was. -/
structure SideExact (T P : String) (name owner : Connection → String) (made : Connection → Row → Prop)
    (db₀ db : Database) (calls : List Connection) : Prop where
  port : ∀ c ∈ calls, ∃ p ∈ db T, (∀ p' ∈ db T, rowText p' "name" = name c ↔ p' = p) ∧
    (∀ r ∈ db P, p.uuid ∈ r.refs "ports" ↔ r.uuid = owner c) ∧ made c p
  others : ∀ p, p ∈ db₀ T ↔ p ∈ db T ∧ ∀ c ∈ calls, rowText p "name" ≠ name c
  owners : List.Forall₂ (fun r₀ r => r.uuid = r₀.uuid ∧ (∀ c, c ≠ "ports" → r.get c = r₀.get c) ∧
    ((∀ c ∈ calls, owner c ≠ r₀.uuid) → r = r₀) ∧
    ∀ v, v ∈ r.refs "ports" ↔ v ∈ r₀.refs "ports" ∨
      ∃ c ∈ calls, owner c = r₀.uuid ∧ ∃ p ∈ db T, rowText p "name" = name c ∧ p.uuid = v) (db₀ P) (db P)

/-- What calls of `connect_router_to_ls` have made of a database. Each pair that they connected has
one port on each side, the others have none, and other rows are as they were. -/
structure LinksExact (db₀ db : Database) (calls : List Connection) : Prop where
  routers : SideExact typeLogicalRouterPort typeLogicalRouter Connection.portName
    (fun c => c.router.uuid) (fun c p => ∃ last, lastCall calls c.pair = some last ∧
      p.get "networks" = some (.strings [last.address])) db₀ db calls
  switches : SideExact typeLogicalSwitchPort typeLogicalSwitch Connection.backName
    (fun c => c.switch.uuid) (fun c q => rowText q "type" = "router" ∧
      rowMap q "options" = [("router-port", c.portName)]) db₀ db calls
  unconnected : ∀ R ∈ db₀ typeLogicalRouter, ∀ L ∈ db₀ typeLogicalSwitch,
    Unscored (rowText R "name") → Unscored (rowText L "name") →
    (∀ c ∈ calls, ¬(c.router.uuid = R.uuid ∧ c.switch.uuid = L.uuid)) →
    (∀ p ∈ db typeLogicalRouterPort,
      rowText p "name" ≠ routerPortName (rowText R "name") (rowText L "name")) ∧
    ∀ q ∈ db typeLogicalSwitchPort,
      rowText q "name" ≠ switchPortName (rowText L "name") (rowText R "name")
  tables : ∀ T, T ≠ typeLogicalRouterPort → T ≠ typeLogicalSwitchPort → T ≠ typeLogicalRouter →
    T ≠ typeLogicalSwitch → db T = db₀ T

/-- The database is the first one with the links of the calls, each with its last call. -/
structure Represents (db₀ db : Database) (calls : List Connection) (links : List Link) : Prop where
  consistent : Consistent northbound db
  eq : db = linkedDatabase db₀ links
  nodup : (links.map fun l => l.connection.pair).Nodup
  last : ∀ l ∈ links, lastCall calls l.connection.pair = some l.connection
  all : ∀ c ∈ calls, c.pair ∈ links.map fun l => l.connection.pair
  existing : ∀ l ∈ links, Existing db₀ l.connection

section Calls

variable {calls : List Connection} {c c' : Connection} {pair : String × String} {links : List Link}
  {l l' : Link} {db₀ db db' : Database}

theorem lastCall_append : lastCall (calls ++ [c]) pair =
    if c.pair = pair then some c else lastCall calls pair := by
  unfold lastCall
  rw [List.reverse_append, List.reverse_singleton, List.singleton_append, List.find?_cons]
  by_cases h : c.pair = pair
  · rw [if_pos h, decide_eq_true h]
  · rw [if_neg h, decide_eq_false h]

theorem portName_eq_iff (h : Unscored c.router.name) (h' : Unscored c'.router.name) :
    c.portName = c'.portName ↔ c.pair = c'.pair := by
  unfold Connection.portName Connection.pair
  rw [routerPortName_pair h h', Prod.mk.injEq]

theorem backName_eq_iff (h : Unscored c.switch.name) (h' : Unscored c'.switch.name) :
    c.backName = c'.backName ↔ c.pair = c'.pair := by
  unfold Connection.backName Connection.pair
  rw [switchPortName_pair h h', Prod.mk.injEq, and_comm]

/-- The database has no ports of the names that a call uses. -/
theorem Bare.connection (h : Bare db₀) (hc : Existing db₀ c) :
    (∀ p ∈ db₀ typeLogicalRouterPort, rowText p "name" ≠ c.portName) ∧
      ∀ q ∈ db₀ typeLogicalSwitchPort, rowText q "name" ≠ c.backName := by
  obtain ⟨R, hR, -, hRname⟩ := hc.router
  obtain ⟨L, hL, -, hLname⟩ := hc.switch
  have hports := h R hR L hL (hRname ▸ hc.unscoredRouter) (hLname ▸ hc.unscoredSwitch)
  rw [hRname, hLname] at hports
  exact hports

/-- The same names are the same routers and switches. -/
theorem ToldApart.owners (h : ToldApart db₀ c) (hc' : Existing db₀ c') (hpair : c'.pair = c.pair) :
    c'.router.uuid = c.router.uuid ∧ c'.switch.uuid = c.switch.uuid := by
  obtain ⟨R, hR, hRu, hRname⟩ := hc'.router
  obtain ⟨L, hL, hLu, hLname⟩ := hc'.switch
  have hnames : c'.router.name = c.router.name ∧ c'.switch.name = c.switch.name := Prod.ext_iff.mp hpair
  rw [← hRu, ← hLu]
  exact ⟨h.router R hR (hRname.trans hnames.1), h.switch L hL (hLname.trans hnames.2)⟩

/-- The port of the router is found by its name. -/
theorem named_routerPort (hbare : Bare db₀) (hc : Existing db₀ c)
    (hlinks : ∀ l ∈ links, Existing db₀ l.connection) :
    named (linkedDatabase db₀ links) typeLogicalRouterPort c.portName =
      (links.find? fun l => l.connection.pair = c.pair).map Link.routerPort := by
  unfold named firstWith
  rw [linked_routerPorts, List.find?_append, List.find?_eq_none.mpr, Option.none_or, List.find?_map]
  · refine congrArg (Option.map Link.routerPort) (List.find?_congr fun l hl => ?_)
    rw [Function.comp_apply, Link.name_routerPort, Bool.eq_iff_iff, decide_eq_true_eq, decide_eq_true_eq]
    exact portName_eq_iff (hlinks l hl).unscoredRouter hc.unscoredRouter
  · intro p hp
    rw [decide_eq_true_eq]
    exact (hbare.connection hc).1 p hp

/-- The port of the switch is found by its name. -/
theorem named_switchPort (hbare : Bare db₀) (hc : Existing db₀ c)
    (hlinks : ∀ l ∈ links, Existing db₀ l.connection) :
    named (linkedDatabase db₀ links) typeLogicalSwitchPort c.backName =
      (links.find? fun l => l.connection.pair = c.pair).map Link.switchPort := by
  unfold named firstWith
  rw [linked_switchPorts, List.find?_append, List.find?_eq_none.mpr, Option.none_or, List.find?_map]
  · refine congrArg (Option.map Link.switchPort) (List.find?_congr fun l hl => ?_)
    rw [Function.comp_apply, Link.name_switchPort, Bool.eq_iff_iff, decide_eq_true_eq, decide_eq_true_eq]
    exact backName_eq_iff (hlinks l hl).unscoredSwitch hc.unscoredSwitch
  · intro q hq
    rw [decide_eq_true_eq]
    exact (hbare.connection hc).2 q hq

/-! ### A pair that has a link -/

theorem pair_relink : (relink links c).map (fun l => l.connection.pair) =
    links.map fun l => l.connection.pair := by
  unfold relink
  rw [List.map_map]
  refine List.map_congr_left fun l _ => ?_
  rw [Function.comp_apply]
  split
  · next h => exact h.symm
  · rfl

theorem find?_relink (hl : links.find? (fun l => l.connection.pair = c.pair) = some l) :
    (relink links c).find? (fun l => l.connection.pair = c.pair) = some { l with connection := c } := by
  have hpair : l.connection.pair = c.pair := by simpa using List.find?_some hl
  unfold relink
  rw [List.find?_map]
  have hsame : ((fun l : Link => decide (l.connection.pair = c.pair)) ∘ fun l : Link =>
      if l.connection.pair = c.pair then { l with connection := c } else l) =
        fun l : Link => decide (l.connection.pair = c.pair) := by
    funext l
    rw [Function.comp_apply]
    split
    · next h => rw [decide_eq_true h, decide_eq_true rfl]
    · rfl
  rw [hsame, hl, Option.map_some, if_pos hpair]

/-- The port of the router has its uuid for itself. -/
theorem Represents.eq_of_port (h : Represents db₀ db calls links) (hl : l ∈ links) {p : Row}
    (hp : p ∈ db typeLogicalRouterPort) (hu : p.uuid = l.port) : p = l.routerPort := by
  refine List.inj_on_of_nodup_map (h.consistent.conforms.unique typeLogicalRouterPort) hp ?_ ?_
  · rw [h.eq, linked_routerPorts]
    exact List.mem_append_right _ (List.mem_map_of_mem hl)
  · rw [hu, Link.uuid_routerPort]

/-- The update of the port of the router. -/
theorem Represents.modify (h : Represents db₀ db calls links) (hbare : Bare db₀)
    (htold : ToldApart db₀ c) (hl : l ∈ links) (hpair : l.connection.pair = c.pair) :
    db.modifyRow typeLogicalRouterPort l.port (fun r =>
      r.write (routerPortColumns l.connection.portName c.address)) = linkedDatabase db₀ (relink links c) := by
  have howners : ∀ l' ∈ links, ∀ owner ∈ [Link.router, Link.switch],
      owner (if l'.connection.pair = c.pair then { l' with connection := c } else l') = owner l' := by
    intro l' hl' owner howner
    split
    · next hp =>
      have hsame := htold.owners (h.existing l' hl') hp
      rcases List.mem_cons.mp howner with rfl | howner
      · exact hsame.1.symm
      · rw [List.mem_singleton.mp howner]
        exact hsame.2.symm
    · rfl
  have hname : ∀ l' : Link, l'.connection.pair = c.pair →
      l'.connection.portName = c.portName ∧ l'.connection.backName = c.backName := by
    intro l' hp
    have hnames : l'.connection.router.name = c.router.name ∧
        l'.connection.switch.name = c.switch.name := Prod.ext_iff.mp hp
    unfold Connection.portName Connection.backName
    rw [hnames.1, hnames.2]
    exact ⟨rfl, rfl⟩
  refine eq_linkedDatabase ?_ ?_ ?_ ?_ fun T h₁ h₂ h₃ h₄ => ?_
  · rw [Database.modifyRow_self, linked_routerPorts]
    conv_lhs => rw [h.eq, linked_routerPorts]
    rw [List.map_append]
    congr 1
    · refine (List.map_congr_left fun p hp => if_neg fun hu => ?_).trans (List.map_id _)
      have hin : p ∈ db typeLogicalRouterPort := by
        rw [h.eq, linked_routerPorts]
        exact List.mem_append_left _ hp
      refine (hbare.connection (h.existing l hl)).1 p hp ?_
      rw [h.eq_of_port hl hin hu, Link.name_routerPort]
    · unfold relink
      rw [List.map_map, List.map_map]
      refine List.map_congr_left fun l' hl' => ?_
      rw [Function.comp_apply, Function.comp_apply, Link.uuid_routerPort]
      by_cases hp : l'.connection.pair = c.pair
      · obtain rfl := List.inj_on_of_nodup_map h.nodup hl' hl (hp.trans hpair.symm)
        rw [if_pos rfl, if_pos hp]
        unfold Link.routerPort
        rw [Link.write_routerPort, (hname l' hp).1]
      · rw [if_neg hp, if_neg]
        intro hu
        have hin : l'.routerPort ∈ db typeLogicalRouterPort := by
          rw [h.eq, linked_routerPorts]
          exact List.mem_append_right _ (List.mem_map_of_mem hl')
        have hsame := congrArg (rowText · "name") (h.eq_of_port hl hin (by rw [Link.uuid_routerPort, hu]))
        rw [Link.name_routerPort, Link.name_routerPort, portName_eq_iff (h.existing l' hl').unscoredRouter
          (h.existing l hl).unscoredRouter] at hsame
        exact hp (hsame.trans hpair)
  · unfold Database.modifyRow
    rw [Database.modify_of_ne (by decide), h.eq, linked_switchPorts, linked_switchPorts]
    congr 1
    unfold relink
    rw [List.map_map]
    refine List.map_congr_left fun l' hl' => ?_
    rw [Function.comp_apply]
    split
    · next hp =>
      unfold Link.switchPort
      rw [(hname l' hp).1, (hname l' hp).2]
    · rfl
  · unfold Database.modifyRow
    rw [Database.modify_of_ne (by decide), h.eq, linked_routers, linked_routers]
    refine List.map_congr_left fun r _ => (grow_map fun l' hl' => ⟨?_, ?_⟩).symm
    · exact howners l' hl' _ (.head _)
    · split <;> rfl
  · unfold Database.modifyRow
    rw [Database.modify_of_ne (by decide), h.eq, linked_switches, linked_switches]
    refine List.map_congr_left fun r _ => (grow_map fun l' hl' => ⟨?_, ?_⟩).symm
    · exact howners l' hl' _ (.tail _ (.head _))
    · split <;> rfl
  · unfold Database.modifyRow
    rw [Database.modify_of_ne h₁, h.eq]
    exact linked_other h₁ h₂ h₃ h₄

/-! ### A call -/

/-- A row that is overwritten with what it holds. -/
theorem modifyRow_of_fixed {T u : String} {f : Row → Row} (h : ∀ r ∈ db T, r.uuid = u → f r = r) :
    db.modifyRow T u f = db := by
  funext T'
  by_cases hT : T' = T
  · rw [hT, Database.modifyRow_self]
    refine (List.map_congr_left fun r hr => ?_).trans (List.map_id _)
    split
    · next hu => exact h r hr hu
    · rfl
  · exact Database.modify_of_ne hT

/-- The first call about a pair. -/
theorem Represents.add {u v : String} (h : Represents db₀ db calls links)
    (hnone : links.find? (fun l => l.connection.pair = c.pair) = none) (hc : Existing db₀ c)
    (hcons : Consistent northbound db') (hdb : db' = linkedDatabase db₀ (links ++ [⟨c, u, v⟩])) :
    Represents db₀ db' (calls ++ [c]) (links ++ [⟨c, u, v⟩]) := by
  have hne : ∀ l ∈ links, l.connection.pair ≠ c.pair := by simpa using hnone
  refine ⟨hcons, hdb, ?_, fun l hl => ?_, fun c' hc' => ?_, fun l hl => ?_⟩
  · rw [List.map_append, List.map_singleton, List.nodup_append]
    refine ⟨h.nodup, List.nodup_singleton _, fun pair hpair pair' hpair' heq => ?_⟩
    obtain ⟨l, hl, rfl⟩ := List.mem_map.mp hpair
    exact hne l hl (heq.trans (List.mem_singleton.mp hpair'))
  · rw [lastCall_append]
    rcases List.mem_append.mp hl with hl | hl
    · rw [if_neg (Ne.symm (hne l hl))]
      exact h.last l hl
    · rw [List.mem_singleton.mp hl, if_pos rfl]
  · rw [List.map_append, List.mem_append]
    rcases List.mem_append.mp hc' with hc' | hc'
    · exact .inl (h.all c' hc')
    · rw [List.mem_singleton.mp hc']
      exact .inr List.mem_cons_self
  · rcases List.mem_append.mp hl with hl | hl
    · exact h.existing l hl
    · rw [List.mem_singleton.mp hl]
      exact hc

/-- Another call about a pair. -/
theorem Represents.again (h : Represents db₀ db calls links) (hl : l ∈ links)
    (hpair : l.connection.pair = c.pair) (hc : Existing db₀ c) (hcons : Consistent northbound db')
    (hdb : db' = linkedDatabase db₀ (relink links c)) :
    Represents db₀ db' (calls ++ [c]) (relink links c) := by
  have hmem : ∀ l' ∈ relink links c, l'.connection = c ∨
      (l' ∈ links ∧ l'.connection.pair ≠ c.pair) := by
    intro l' hl'
    obtain ⟨l₀, hl₀, rfl⟩ := List.mem_map.mp hl'
    split
    · exact .inl rfl
    · next hne => exact .inr ⟨hl₀, hne⟩
  refine ⟨hcons, hdb, ?_, fun l' hl' => ?_, fun c' hc' => ?_, fun l' hl' => ?_⟩
  · rw [pair_relink]
    exact h.nodup
  · rw [lastCall_append]
    rcases hmem l' hl' with hl' | ⟨hl', hne⟩
    · rw [hl', if_pos rfl]
    · rw [if_neg (Ne.symm hne)]
      exact h.last l' hl'
  · rw [pair_relink]
    rcases List.mem_append.mp hc' with hc' | hc'
    · exact h.all c' hc'
    · rw [List.mem_singleton.mp hc', ← hpair]
      exact List.mem_map_of_mem hl
  · rcases hmem l' hl' with hl' | ⟨hl', -⟩
    · rw [hl']
      exact hc
    · exact h.existing l' hl'

variable {ok : (r : Request) → r.Answer → Prop} {w : Worker} {s : World}

/-- The owners are still there. -/
theorem Represents.owners (h : Represents db₀ db calls links) (hc : Existing db₀ c) :
    c.router.uuid ∈ (db typeLogicalRouter).map Row.uuid ∧
      c.switch.uuid ∈ (db typeLogicalSwitch).map Row.uuid := by
  obtain ⟨R, hR, hRu, -⟩ := hc.router
  obtain ⟨L, hL, hLu, -⟩ := hc.switch
  rw [h.eq, linked_routers, linked_switches, ← hRu, ← hLu]
  exact ⟨List.mem_map.mpr ⟨_, List.mem_map_of_mem hR, uuid_grow⟩,
    List.mem_map.mpr ⟨_, List.mem_map_of_mem hL, uuid_grow⟩⟩

/-- The first call about a pair makes a link. -/
theorem after_run_new (h : Represents db₀ s.northbound calls links) (hbare : Bare db₀)
    (hc : Existing db₀ c) (hnone : links.find? (fun l => l.connection.pair = c.pair) = none) :
    After (answering ok w) c.run s fun o t => Unanswered ok o ∨
      (o = .ok () ∧ ∃ links', Represents db₀ t.northbound (calls ++ [c]) links') := by
  have hports : named s.northbound typeLogicalRouterPort c.portName = none := by
    rw [h.eq, named_routerPort hbare hc h.existing, hnone]
    rfl
  have hbacks : named s.northbound typeLogicalSwitchPort c.backName = none := by
    rw [h.eq, named_switchPort hbare hc h.existing, hnone]
    rfl
  obtain ⟨hrouter, hswitch⟩ := h.owners hc
  refine after_lrpCreateIfMissing hrouter h.consistent (fun p hp => ?_)
    (fun u db₁ _ hu hcons₁ hdb₁ => ⟨fun _ => .inl, ?_⟩) fun _ => .inl
  · cases hp.symm.trans hports
  refine after_lrpUpdate hcons₁ (fun db₂ hcons₂ hdb₂ => ?_) fun _ => .inl
  -- The new port is overwritten with what it holds.
  have hsame : db₂ = db₁ := by
    refine hdb₂.trans (modifyRow_of_fixed fun r hr hru => ?_)
    have hnew : newRow typeLogicalRouterPort u (routerPortColumns c.portName c.address) ∈
        db₁ typeLogicalRouterPort := by
      rw [hdb₁]
      unfold Database.modifyRow
      rw [Database.modify_of_ne (by decide), Database.modify_self]
      exact List.mem_append_right _ List.mem_cons_self
    obtain rfl := List.inj_on_of_nodup_map (hcons₁.conforms.unique _) hr hnew hru
    rfl
  subst hsame
  have hother : ∀ T ∈ [typeLogicalSwitchPort, typeLogicalSwitch], db₂ T = s.northbound T := by
    intro T hT
    have hne : ∀ T ∈ [typeLogicalSwitchPort, typeLogicalSwitch],
        T ≠ typeLogicalRouterPort ∧ T ≠ typeLogicalRouter := by decide
    rw [hdb₁]
    exact (Database.modify_of_ne (hne T hT).2).trans (Database.modify_of_ne (hne T hT).1)
  refine after_createLinkPort (s := s.setNorthbound db₂) ?_ hcons₂ (fun q hq => ?_)
    (fun v db₃ _ _ hcons₃ hdb₃ => ⟨fun _ => .inl, after_ret (.inr ⟨rfl, links ++ [⟨c, u, v⟩], ?_⟩)⟩)
    fun _ => .inl
  · rwa [northbound_setNorthbound, hother typeLogicalSwitch (.tail _ (.head _))]
  · cases hq.symm.trans ((named_congr (hother _ (.head _))).trans hbacks)
  · refine h.add hnone hc hcons₃ ?_
    rw [linkedDatabase_append, ← h.eq]
    exact hdb₃.trans (by rw [northbound_setNorthbound, hdb₁]; rfl)

/-- Another call about a pair updates the port of the router, if it comes to it. -/
theorem after_run_again (h : Represents db₀ s.northbound calls links) (hbare : Bare db₀)
    (hc : Existing db₀ c) (htold : ToldApart db₀ c)
    (hl : links.find? (fun l => l.connection.pair = c.pair) = some l) :
    After (answering ok w) c.run s fun o t =>
      (t = s ∨ t = s.setNorthbound (linkedDatabase db₀ (relink links c))) ∧ (Unanswered ok o ∨
        (o = .ok () ∧ Represents db₀ t.northbound (calls ++ [c]) (relink links c))) := by
  have hpair : l.connection.pair = c.pair := by simpa using List.find?_some hl
  have hlin : l ∈ links := List.mem_of_find?_eq_some hl
  have hports : named s.northbound typeLogicalRouterPort c.portName = some l.routerPort := by
    rw [h.eq, named_routerPort hbare hc h.existing, hl]
    rfl
  obtain ⟨hrouter, hswitch⟩ := h.owners hc
  refine after_lrpCreateIfMissing hrouter h.consistent (fun p hp => ?_)
    (fun u db₁ hn _ _ _ => ?_) fun _ ho => ⟨.inl rfl, .inl ho⟩
  · obtain rfl := Option.some.inj (hports.symm.trans hp)
    refine after_lrpUpdate h.consistent (fun db hcons hdb => ?_) fun _ ho => ⟨.inl rfl, .inl ho⟩
    have hname : (OvnRow.ofRow l.routerPort : LogicalRouterPort).name = l.connection.portName :=
      Link.name_routerPort l
    rw [hname] at hdb
    have hdb : db = linkedDatabase db₀ (relink links c) := hdb.trans (h.modify hbare htold hlin hpair)
    have hagain : Represents db₀ db (calls ++ [c]) (relink links c) :=
      h.again hlin hpair hc hcons hdb
    have hset : s.setNorthbound db = s.setNorthbound (linkedDatabase db₀ (relink links c)) := by
      rw [hdb]
    refine after_createLinkPort (s := s.setNorthbound db) (hagain.owners hc).2 hcons
      (fun q hq => after_ret ⟨.inr hset, .inr ⟨rfl, hagain⟩⟩) (fun v db₃ hn _ _ _ => ?_)
      fun _ ho => ⟨.inr hset, .inl ho⟩
    have hback : named db typeLogicalSwitchPort c.backName = some ({ l with connection := c }).switchPort := by
      rw [hdb, named_switchPort hbare hc hagain.existing, find?_relink hl]
      rfl
    cases hback.symm.trans hn
  · cases hports.symm.trans hn

/-- What a call leaves, unless a transaction of it is not answered. -/
theorem after_run (h : Represents db₀ s.northbound calls links) (hbare : Bare db₀)
    (hc : Existing db₀ c) (htold : ToldApart db₀ c) :
    After (answering ok w) c.run s fun o t => Unanswered ok o ∨
      (o = .ok () ∧ ∃ links', Represents db₀ t.northbound (calls ++ [c]) links') := by
  cases hl : links.find? (fun l => l.connection.pair = c.pair) with
  | none => exact after_run_new h hbare hc hl
  | some l =>
    refine (after_run_again h hbare hc htold hl).mono fun o t ht => ht.2.imp id fun hend => ?_
    exact ⟨hend.1, _, hend.2⟩

/-- What a sequence of calls leaves. -/
theorem after_calls {more : List Connection} (h : Represents db₀ s.northbound calls links)
    (hbare : Bare db₀) (hmore : ∀ c ∈ more, Existing db₀ c ∧ ToldApart db₀ c) :
    After (answering ok w) (Program.forEach more Connection.run) s fun o t => Unanswered ok o ∨
      (o = .ok () ∧ ∃ links', Represents db₀ t.northbound (calls ++ more) links') := by
  induction more generalizing s calls links with
  | nil =>
    refine after_ret (.inr ⟨rfl, links, ?_⟩)
    rwa [List.append_nil]
  | cons c more ih =>
    obtain ⟨hc, htold⟩ := hmore c List.mem_cons_self
    refine (after_run h hbare hc htold).bind (fun _ t ht => ?_) (fun e t ht => ?_) fun m t ht => ?_
    · rcases ht with ⟨-, m, hm⟩ | ⟨-, links', ht⟩
      · cases hm
      · rw [List.append_cons]
        exact ih ht fun c' hc' => hmore c' (List.mem_cons_of_mem _ hc')
    · rcases ht with ⟨-, m, hm⟩ | ⟨he, -⟩
      · cases hm
      · cases he
    · rcases ht with ht | ⟨hm, -⟩
      · exact .inl (ht.abort m)
      · cases hm

/-! ### Links are exact -/

/-- One side of the links. -/
theorem sideExact {T P : String} {name owner : Connection → String} {made : Connection → Row → Prop}
    {mk : Link → Row} {port : Link → String} (hc₀ : Consistent northbound db₀)
    (hc : Consistent northbound db) (href : ⟨P, "ports", T, true⟩ ∈ northbound.references)
    (hindex : (T, "name") ∈ northbound.indexes) (hcol : ("name", .strings [""]) ∈ northboundColumns T)
    (hports : ("ports", .refs []) ∈ northboundColumns P) (hT : db T = db₀ T ++ links.map mk)
    (hP : db P = (db₀ P).map (grow (fun l => owner l.connection) port links))
    (huuid : ∀ l, (mk l).uuid = port l) (hname : ∀ l, rowText (mk l) "name" = name l.connection)
    (hlinks : ∀ l ∈ links, l.connection ∈ calls)
    (hcalls : ∀ c ∈ calls, ∃ l ∈ links, name l.connection = name c ∧
      owner l.connection = owner c ∧ made c (mk l))
    (hbare : ∀ p ∈ db₀ T, ∀ c ∈ calls, rowText p "name" ≠ name c) :
    SideExact T P name owner made db₀ db calls := by
  have hmk : ∀ l ∈ links, mk l ∈ db T := by
    intro l hl
    rw [hT]
    exact List.mem_append_right _ (List.mem_map_of_mem hl)
  have hsole : ∀ l ∈ links, ∀ c, name l.connection = name c → ∀ p' ∈ db T,
      rowText p' "name" = name c ↔ p' = mk l := by
    intro l hl c hn p' hp'
    have hfirst : named db T (name c) = some (mk l) :=
      (named_iff hindex hcol hc).mpr ⟨hmk l hl, (hname l).trans hn⟩
    constructor
    · intro hp'n
      have hfirst' : named db T (name c) = some p' := (named_iff hindex hcol hc).mpr ⟨hp', hp'n⟩
      exact Option.some.inj (hfirst'.symm.trans hfirst)
    · rintro rfl
      exact (hname l).trans hn
  -- The uuids of the new ports are not those of old ones, and each is that of one port only.
  have hnodup : ((db₀ T).map Row.uuid ++ links.map port).Nodup := by
    have hunique := hc.conforms.unique T
    have hmap : (links.map mk).map Row.uuid = links.map port := by
      rw [List.map_map]
      exact List.map_congr_left fun l _ => huuid l
    rwa [hT, List.map_append, hmap] at hunique
  have hnew : ∀ l ∈ links, ∀ r ∈ db₀ P, port l ∉ r.refs "ports" := by
    intro l hl r hr hv
    have hold : port l ∈ (db₀ T).map Row.uuid := hc₀.resolves href rfl hr hv
    exact (List.nodup_append.mp hnodup).2.2 _ hold _ (List.mem_map_of_mem hl) rfl
  have hgrown : ∀ r ∈ db₀ P, ∀ v, v ∈ (grow (fun l => owner l.connection) port links r).refs "ports" ↔
      v ∈ r.refs "ports" ∨ ∃ l ∈ links, owner l.connection = r.uuid ∧ port l = v := fun r hr v =>
    mem_refs_grow (get_of_refs (hc₀.conforms.typed P r hr) hports)
  refine ⟨fun c hcin => ?_, fun p => ?_, ?_⟩
  · obtain ⟨l, hl, hn, ho, hmade⟩ := hcalls c hcin
    refine ⟨mk l, hmk l hl, hsole l hl c hn, fun r hr => ?_, hmade⟩
    rw [hP] at hr
    obtain ⟨r₀, hr₀, rfl⟩ := List.mem_map.mp hr
    rw [huuid, hgrown r₀ hr₀, uuid_grow, or_iff_right (hnew l hl r₀ hr₀), ← ho]
    constructor
    · rintro ⟨l', hl', howner, hport⟩
      obtain rfl := List.inj_on_of_nodup_map (List.nodup_append.mp hnodup).2.1 hl' hl hport
      exact howner.symm
    · exact fun hr => ⟨l, hl, hr.symm, rfl⟩
  · rw [hT, List.mem_append]
    constructor
    · exact fun hp => ⟨.inl hp, hbare p hp⟩
    · rintro ⟨hp | hp, hne⟩
      · exact hp
      · obtain ⟨l, hl, rfl⟩ := List.mem_map.mp hp
        exact absurd (hname l) (hne _ (hlinks l hl))
  · rw [hP, List.forall₂_map_right_iff, List.forall₂_same]
    intro r hr
    refine ⟨uuid_grow, fun c hne => get_grow_of_ne hne, fun hnone => ?_, fun v => ?_⟩
    · exact grow_eq_self fun l hl => hnone _ (hlinks l hl)
    · rw [hgrown r hr]
      refine or_congr_right ⟨?_, ?_⟩
      · rintro ⟨l, hl, howner, hv⟩
        exact ⟨_, hlinks l hl, howner, mk l, hmk l hl, hname l, (huuid l).trans hv⟩
      · rintro ⟨c, hcin, howner, p, hp, hpn, hv⟩
        obtain ⟨l, hl, hn, ho, -⟩ := hcalls c hcin
        obtain rfl := (hsole l hl c hn p hp).mp hpn
        exact ⟨l, hl, ho.trans howner, (huuid l).symm.trans hv⟩

/-- A link stands for a call. -/
theorem Represents.call (h : Represents db₀ db calls links) (hl : l ∈ links) : l.connection ∈ calls :=
  List.mem_reverse.mp (List.mem_of_find?_eq_some (h.last l hl))

/-- A call has a link. -/
theorem Represents.link (h : Represents db₀ db calls links) (hc : c ∈ calls) :
    ∃ l ∈ links, l.connection.pair = c.pair ∧ lastCall calls c.pair = some l.connection := by
  obtain ⟨l, hl, hpair⟩ := List.mem_map.mp (h.all c hc)
  exact ⟨l, hl, hpair, hpair ▸ h.last l hl⟩

/-- Where a database represents calls, their links are exact. -/
theorem Represents.exact (h : Represents db₀ db calls links) (hc₀ : Consistent northbound db₀)
    (hbare : Bare db₀) (hcalls : ∀ c ∈ calls, Existing db₀ c ∧ ToldApart db₀ c) :
    LinksExact db₀ db calls := by
  have hlink : ∀ c ∈ calls, ∃ l ∈ links, l.connection.portName = c.portName ∧
      l.connection.backName = c.backName ∧ l.connection.router.uuid = c.router.uuid ∧
      l.connection.switch.uuid = c.switch.uuid ∧ lastCall calls c.pair = some l.connection := by
    intro c hc
    obtain ⟨l, hl, hpair, hlast⟩ := h.link hc
    have howners := (hcalls c hc).2.owners (h.existing l hl) hpair
    exact ⟨l, hl, (portName_eq_iff (h.existing l hl).unscoredRouter (hcalls c hc).1.unscoredRouter).mpr hpair,
      (backName_eq_iff (h.existing l hl).unscoredSwitch (hcalls c hc).1.unscoredSwitch).mpr hpair,
      howners.1, howners.2, hlast⟩
  have hrouters : SideExact typeLogicalRouterPort typeLogicalRouter Connection.portName
      (fun c => c.router.uuid) (fun c p => ∃ last, lastCall calls c.pair = some last ∧
        p.get "networks" = some (.strings [last.address])) db₀ db calls := by
    refine sideExact hc₀ h.consistent (.tail _ (.head _)) (.tail _ (.head _)) (by decide) (by decide)
      (h.eq ▸ linked_routerPorts) (h.eq ▸ linked_routers) Link.uuid_routerPort Link.name_routerPort
      (fun l hl => h.call hl) (fun c hc => ?_) fun p hp c hc => (hbare.connection (hcalls c hc).1).1 p hp
    obtain ⟨l, hl, hport, -, hrouter, -, hlast⟩ := hlink c hc
    exact ⟨l, hl, hport, hrouter, l.connection, hlast, get_write_self rfl (by simp)⟩
  have hswitches : SideExact typeLogicalSwitchPort typeLogicalSwitch Connection.backName
      (fun c => c.switch.uuid) (fun c q => rowText q "type" = "router" ∧
        rowMap q "options" = [("router-port", c.portName)]) db₀ db calls := by
    refine sideExact hc₀ h.consistent (.head _) (.head _) (by decide) (by decide)
      (h.eq ▸ linked_switchPorts) (h.eq ▸ linked_switches) Link.uuid_switchPort Link.name_switchPort
      (fun l hl => h.call hl) (fun c hc => ?_) fun q hq c hc => (hbare.connection (hcalls c hc).1).2 q hq
    obtain ⟨l, hl, hport, hback, -, hswitch, -⟩ := hlink c hc
    refine ⟨l, hl, hback, hswitch, rowText_of_get (get_write_self rfl (by simp)), ?_⟩
    unfold rowMap Link.switchPort newRow linkPortColumns
    rw [Row.write_cons, Row.write_cons, get_write_self rfl (by simp), hport]
    rfl
  refine ⟨hrouters, hswitches, fun R hR L hL hscoreR hscoreL hnot => ?_, fun T h₁ h₂ h₃ h₄ => ?_⟩
  · have hold := hbare R hR L hL hscoreR hscoreL
    have hnone : ∀ c ∈ calls, ¬(rowText R "name" = c.router.name ∧ rowText L "name" = c.switch.name) := by
      rintro c hc ⟨hRn, hLn⟩
      obtain ⟨-, htold⟩ := hcalls c hc
      exact hnot c hc ⟨(htold.router R hR hRn).symm, (htold.switch L hL hLn).symm⟩
    constructor
    · intro p hp hpn
      refine hold.1 p ((hrouters.others p).mpr ⟨hp, fun c hc hcn => hnone c hc ?_⟩) hpn
      exact (routerPortName_pair hscoreR (hcalls c hc).1.unscoredRouter).mp (hpn.symm.trans hcn)
    · intro q hq hqn
      refine hold.2 q ((hswitches.others q).mpr ⟨hq, fun c hc hcn => hnone c hc ?_⟩) hqn
      exact ((switchPortName_pair hscoreL (hcalls c hc).1.unscoredSwitch).mp (hqn.symm.trans hcn)).symm
  · rw [h.eq]
    exact linked_other h₁ h₂ h₃ h₄

/-- The call that was the last about its pair changes nothing. -/
theorem after_run_repeated (h : Represents db₀ s.northbound calls links) (hbare : Bare db₀)
    (hc : Existing db₀ c) (htold : ToldApart db₀ c) (hlast : lastCall calls c.pair = some c) :
    After (answering ok w) c.run s fun o t => t = s ∧ (Unanswered ok o ∨ o = .ok ()) := by
  have hcin : c ∈ calls := List.mem_reverse.mp (List.mem_of_find?_eq_some hlast)
  have hrelinked : relink links c = links := by
    refine (List.map_congr_left fun l hl => ?_).trans (List.map_id _)
    split
    · next hp =>
      have hsame := h.last l hl
      rw [hp, hlast] at hsame
      rw [Option.some.inj hsame]
      rfl
    · rfl
  cases hl : links.find? (fun l => l.connection.pair = c.pair) with
  | none =>
    obtain ⟨l, hl', hpair, -⟩ := h.link hcin
    exact absurd hpair (by simpa using List.find?_eq_none.mp hl l hl')
  | some l =>
    refine (after_run_again h hbare hc htold hl).mono fun o t ht => ?_
    rw [hrelinked, ← h.eq] at ht
    exact ⟨ht.1.elim id id, ht.2.imp id And.left⟩

/-- Links between routers and switches are exact, however often they are made. -/
theorem links_exact (hc₀ : Consistent northbound s.northbound) (hbare : Bare s.northbound)
    (hcalls : ∀ c ∈ calls, Existing s.northbound c ∧ ToldApart s.northbound c) :
    After (answering ok w) (Program.forEach calls Connection.run) s fun o t => Unanswered ok o ∨
      (o = .ok () ∧ LinksExact s.northbound t.northbound calls ∧
        ∀ c, calls.getLast? = some c → After (answering ok w) c.run t fun o u =>
          u = t ∧ (Unanswered ok o ∨ o = .ok ())) := by
  have hstart : Represents s.northbound s.northbound [] [] :=
    ⟨hc₀, linkedDatabase_nil.symm, List.nodup_nil, by simp, by simp, by simp⟩
  refine (after_calls hstart hbare hcalls).mono fun o t ht => ht.imp id ?_
  rintro ⟨ho, links, h⟩
  rw [List.nil_append] at h
  refine ⟨ho, h.exact hc₀ hbare hcalls, fun c hc => ?_⟩
  obtain ⟨front, rfl⟩ := List.getLast?_eq_some_iff.mp hc
  obtain ⟨hexisting, htold⟩ := hcalls c (by simp)
  refine after_run_repeated h hbare hexisting htold ?_
  rw [lastCall_append, if_pos rfl]

end Calls

/-! ### Routers of one name -/

/-- Two routers, one of them with the name `edge`, and a switch. -/
def twinOperations (second : String) : List Operation :=
  [.insert typeLogicalRouter [("name", .strings ["edge"])] none,
    .insert typeLogicalRouter [("name", .strings [second])] none,
    .insert typeLogicalSwitch [("name", .strings ["net"])] none]

def twinDatabase (second : String) : Database :=
  ((Database.transact northbound (fun _ => []) ["r1", "r2", "sw"] (twinOperations second)).map
    Prod.snd).getD fun _ => []

/-- A call about a router and the switch. -/
def twinCall (u name address : String) : Connection :=
  ⟨⟨u, name, []⟩, ⟨"sw", "net", [], []⟩, address⟩

theorem consistent_twinDatabase {second : String} (hsome : (Database.transact northbound (fun _ => [])
    ["r1", "r2", "sw"] (twinOperations second)).isSome = true) :
    Consistent northbound (twinDatabase second) := by
  have hname : ∀ T ∈ [typeLogicalRouter, typeLogicalSwitch], ∀ name,
      northbound.Stores T ∧ FitColumns (northboundColumns T) [("name", (.strings [name] : Datum Ref))] := by
    intro T hT name
    have htext : ("name", .strings [""]) ∈ northboundColumns T := by
      revert T
      decide
    refine ⟨?_, fit_one _ htext fun _ => rfl⟩
    rcases List.mem_cons.mp hT with rfl | hT
    · exact ⟨_, .tail _ (.head _), .inl rfl⟩
    · rw [List.mem_singleton.mp hT]
      exact ⟨_, .head _, .inl rfl⟩
  obtain ⟨p, hp⟩ := Option.isSome_iff_exists.mp hsome
  obtain ⟨mid, htr⟩ := Ovsdb.transacted hp
  have hcons := htr.consistent flat_northbound Ovsdb.consistent_empty fun op hop => by
    rcases List.mem_cons.mp hop with rfl | hop
    · exact hname _ (.head _) _
    · rcases List.mem_cons.mp hop with rfl | hop
      · exact hname _ (.head _) _
      · rw [List.mem_singleton.mp hop]
        exact hname _ (.tail _ (.head _)) _
  unfold twinDatabase
  rw [hp]
  exact hcons

attribute [local instance] plainCrates

/-- The calls return one after another, and what they leave meets the condition. -/
def twinLeaves (second : String) (calls : List Connection) (p : World → Bool) : Bool :=
  ((Program.forEach calls Connection.run).runWith (World.serveWell (.network ⟨"n", "net"⟩))
    (World.initial.setNorthbound (twinDatabase second))).any fun q =>
      match q.1 with
      | .ok _ => p q.2
      | _ => false

theorem twinLeaves_iff {second : String} {calls : List Connection} {p : World → Bool}
    (h : twinLeaves second calls p = true) : ∃ t, (Program.forEach calls Connection.run).Ends
      (answering anyAnswer (.network ⟨"n", "net"⟩)) (World.initial.setNorthbound (twinDatabase second))
        (.ok ()) t ∧ p t = true := by
  unfold twinLeaves at h
  rw [Option.any_eq_true] at h
  obtain ⟨⟨o, t⟩, hrun, hp⟩ := h
  cases o with
  | ok _ => exact ⟨t, (ends_of_serveWell hrun).mono fun _ _ _ _ he => ⟨he.1, trivial⟩, hp⟩
  | err e => cases hp
  | aborted m => cases hp

theorem existing_twin {second u name address : String} (hscore : Unscored name)
    (hrouter : ∃ R ∈ twinDatabase second typeLogicalRouter, R.uuid = u ∧ rowText R "name" = name)
    (hswitch : ∃ L ∈ twinDatabase second typeLogicalSwitch, L.uuid = "sw" ∧ rowText L "name" = "net") :
    Existing (twinDatabase second) (twinCall u name address) := by
  have hnet : Unscored "net" := by decide
  exact ⟨hrouter, hswitch, hscore, hnet⟩

/-- There are no ports yet. -/
theorem bare_twin {second : String} (hrouters : twinDatabase second typeLogicalRouterPort = [])
    (hswitches : twinDatabase second typeLogicalSwitchPort = []) : Bare (twinDatabase second) := by
  unfold Bare
  rw [hrouters, hswitches]
  intro R _ L _ _ _
  simp

/-- A router is linked to a switch by two calls. -/
theorem links_exact_twice : ∃ t, (Program.forEach [twinCall "r1" "edge" "10.0.0.1/24",
      twinCall "r1" "edge" "10.0.0.2/24"] Connection.run).Ends
        (answering anyAnswer (.network ⟨"n", "net"⟩))
        (World.initial.setNorthbound (twinDatabase "core")) (.ok ()) t ∧
    LinksExact (twinDatabase "core") t.northbound
      [twinCall "r1" "edge" "10.0.0.1/24", twinCall "r1" "edge" "10.0.0.2/24"] := by
  have hcons : Consistent northbound (twinDatabase "core") := consistent_twinDatabase (by decide +kernel)
  have hbare : Bare (twinDatabase "core") := bare_twin (by decide +kernel) (by decide +kernel)
  have hleaves : twinLeaves "core" [twinCall "r1" "edge" "10.0.0.1/24",
      twinCall "r1" "edge" "10.0.0.2/24"] (fun _ => true) = true := by decide +kernel
  have hrouter : ∃ R ∈ twinDatabase "core" typeLogicalRouter, R.uuid = "r1" ∧ rowText R "name" = "edge" := by
    decide +kernel
  have hswitch : ∃ L ∈ twinDatabase "core" typeLogicalSwitch, L.uuid = "sw" ∧ rowText L "name" = "net" := by
    decide +kernel
  have hrouters : ∀ R ∈ twinDatabase "core" typeLogicalRouter, rowText R "name" = "edge" → R.uuid = "r1" := by
    decide +kernel
  have hswitches : ∀ L ∈ twinDatabase "core" typeLogicalSwitch, rowText L "name" = "net" → L.uuid = "sw" := by
    decide +kernel
  obtain ⟨t, hrun, -⟩ := twinLeaves_iff hleaves
  have hexact := links_exact (s := World.initial.setNorthbound (twinDatabase "core")) hcons hbare
    (fun c hc => by
      rcases List.mem_cons.mp hc with rfl | hc
      · exact ⟨existing_twin (by decide) hrouter hswitch, hrouters, hswitches⟩
      · rw [List.mem_singleton.mp hc]
        exact ⟨existing_twin (by decide) hrouter hswitch, hrouters, hswitches⟩) _ _ hrun
  rcases hexact with ⟨-, m, hm⟩ | ⟨-, hexact, -⟩
  · cases hm
  · exact ⟨t, hrun, hexact⟩

/-- Of two routers of one name the second gets no port, as the port of the first is found. -/
theorem router_of_same_name_unlinked : Consistent northbound (twinDatabase "edge") ∧
    Bare (twinDatabase "edge") ∧
    (∀ c ∈ [twinCall "r1" "edge" "10.0.0.1/24", twinCall "r2" "edge" "10.0.0.2/24"],
      Existing (twinDatabase "edge") c) ∧
    ∃ t, (Program.forEach [twinCall "r1" "edge" "10.0.0.1/24", twinCall "r2" "edge" "10.0.0.2/24"]
        Connection.run).Ends (answering anyAnswer (.network ⟨"n", "net"⟩))
          (World.initial.setNorthbound (twinDatabase "edge")) (.ok ()) t ∧
      (∃ r ∈ t.northbound typeLogicalRouter, r.uuid = "r2" ∧ r.refs "ports" = []) ∧
      ¬LinksExact (twinDatabase "edge") t.northbound
        [twinCall "r1" "edge" "10.0.0.1/24", twinCall "r2" "edge" "10.0.0.2/24"] := by
  have hleaves : twinLeaves "edge" [twinCall "r1" "edge" "10.0.0.1/24",
      twinCall "r2" "edge" "10.0.0.2/24"] (fun t => (t.northbound typeLogicalRouter).any fun r =>
        r.uuid = "r2" && r.refs "ports" = []) = true := by decide +kernel
  have hswitch : ∃ L ∈ twinDatabase "edge" typeLogicalSwitch, L.uuid = "sw" ∧ rowText L "name" = "net" := by
    decide +kernel
  have hrouters : ∀ u ∈ ["r1", "r2"], ∃ R ∈ twinDatabase "edge" typeLogicalRouter,
      R.uuid = u ∧ rowText R "name" = "edge" := by decide +kernel
  refine ⟨consistent_twinDatabase (by decide +kernel), bare_twin (by decide +kernel) (by decide +kernel),
    fun c hc => ?_, ?_⟩
  · rcases List.mem_cons.mp hc with rfl | hc
    · exact existing_twin (by decide) (hrouters _ (.head _)) hswitch
    · rw [List.mem_singleton.mp hc]
      exact existing_twin (by decide) (hrouters _ (.tail _ (.head _))) hswitch
  · obtain ⟨t, hrun, hp⟩ := twinLeaves_iff hleaves
    simp only [List.any_eq_true, Bool.and_eq_true, decide_eq_true_eq] at hp
    obtain ⟨r, hr, hu, hports⟩ := hp
    refine ⟨t, hrun, ⟨r, hr, hu, hports⟩, fun hexact => ?_⟩
    obtain ⟨p, -, -, hin, -⟩ := hexact.routers.port (twinCall "r2" "edge" "10.0.0.2/24")
      (.tail _ (.head _))
    have hp := (hin r hr).mpr hu
    rw [hports] at hp
    cases hp

end ClusterController
