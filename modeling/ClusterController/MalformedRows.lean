import ClusterController.WireForms

/-!
# Malformed rows

Which JSON values the decoders of `interfaces::ovn` accept, which they refuse with an error, and
when that is as it should be: a legal column is accepted, and anything else is an error.
-/

namespace ClusterController

open ApiServer (StringMap)
open Interaction (Program)
open Interaction.Program (bind_eq_ret bind_eq_fail exists_collect_eq_ret)
open Ovsdb (Json)

/-! ## Decoders -/

section Decoders

variable {α β ι : Type} {p : Prog α} {f : α → Prog β} {e : Error} {m : String}

/-- The decoder accepts what is legal, and anything else is an error. -/
def Exact (p : Prog α) (legal : Prop) : Prop :=
  (legal ∧ ∃ a, p = .ret a) ∨ (¬legal ∧ p = .fail .ovnDeserializationFailed)

theorem exact_iff {legal : Prop} (h : legal → ∃ a, p = .ret a) :
    Exact p legal ↔ legal ∨ p = .fail .ovnDeserializationFailed := by
  constructor
  · rintro (⟨hl, -⟩ | ⟨-, hp⟩)
    · exact .inl hl
    · exact .inr hp
  · rintro (hl | hp)
    · exact .inl ⟨hl, h hl⟩
    · refine .inr ⟨fun hl => ?_, hp⟩
      obtain ⟨a, ha⟩ := h hl
      cases ha.symm.trans hp

/-- The decoder returns or panics, but has no error. -/
def ErrorFree (p : Prog α) : Prop := (∃ a, p = .ret a) ∨ ∃ m, p = .abort m

theorem ErrorFree.ne_fail (h : ErrorFree p) : p ≠ .fail e := by
  rintro rfl
  rcases h with ⟨_, h⟩ | ⟨_, h⟩ <;> cases h

theorem ErrorFree.bind (h : ErrorFree p) (hf : ∀ a, ErrorFree (f a)) : ErrorFree (p >>= f) := by
  rcases h with ⟨a, rfl⟩ | ⟨m, rfl⟩
  · exact hf a
  · exact .inr ⟨m, rfl⟩

theorem errorFree_ret (a : α) : ErrorFree (.ret a : Prog α) := .inl ⟨a, rfl⟩

theorem errorFree_abort : ErrorFree (.abort m : Prog α) := .inr ⟨m, rfl⟩

theorem errorFree_expect (o : Option α) : ErrorFree (expect o m) := by
  cases o with
  | some a => exact errorFree_ret a
  | none => exact errorFree_abort

theorem errorFree_collect {l : List ι} {f : ι → Prog α} (h : ∀ i, ErrorFree (f i)) :
    ErrorFree (Program.collect l f) := by
  induction l with
  | nil => exact errorFree_ret []
  | cons i is ih => exact (h i).bind fun _ => ih.bind fun _ => errorFree_ret _

theorem expect_eq_ret {o : Option α} {a : α} : expect o m = .ret a ↔ o = some a := by
  unfold expect
  cases o <;> simp

theorem orDeserializationFailed_eq_ret {o : Option α} {a : α} :
    orDeserializationFailed o = .ret a ↔ o = some a := by
  unfold orDeserializationFailed
  cases o <;> simp

theorem orDeserializationFailed_eq_fail {o : Option α} :
    orDeserializationFailed o = .fail .ovnDeserializationFailed ↔ o = none := by
  unfold orDeserializationFailed
  cases o <;> simp

end Decoders

/-! ## Columns -/

/-- The column holds a map of texts. -/
def MapColumn (object : Fields) (field : String) : Prop :=
  ∃ entries, object.lookup field = some (mapForm entries)

/-- The column holds a set of uuids. -/
def SetColumn (object : Fields) (field : String) : Prop :=
  ∃ l value, UuidSetForm l value ∧ object.lookup field = some value

/-- There is no column, or it is no array. -/
def NoArray (object : Fields) (field : String) : Prop :=
  (object.lookup field).bind Json.asArray = none

/-- What the column holds after its tag. -/
def second (object : Fields) (field : String) : Option Json :=
  ((object.lookup field).bind Json.asArray).bind (·[1]?)

/-- The value is a row of a router with all its columns. -/
def RouterRow (value : Json) : Prop :=
  ∃ object, value.asObject = some object ∧ SetColumn object "static_routes" ∧
    (∃ u, object.lookup "_uuid" = some (uuidForm u)) ∧ ∃ name, object.lookup "name" = some (.str name)

/-! ## Where the decoders are right -/

/-- A legal map, no array at all, or the tag of a map with something else than an array. -/
def MapHandled (object : Fields) (field : String) : Prop :=
  MapColumn object field ∨ NoArray object field ∨
    ∃ x, object.lookup field = some (.arr [.str "map", x]) ∧ x.asArray = none

/-- A legal set, or no array at all. -/
def SetHandled (object : Fields) (field : String) : Prop := SetColumn object field ∨ NoArray object field

/-- What follows the tag is a text, or an array of arrays whose second element is a text. -/
def RoutesRead (object : Fields) : Prop :=
  ∃ x, second object "static_routes" = some x ∧ ((∃ u, x = .str u) ∨
    ∃ items, x = .arr items ∧ ∀ item ∈ items, ∃ row u, item = .arr row ∧ row[1]? = some (.str u))

/-- A legal row, or no object at all, or one without routes, or one whose routes are read but whose
uuid or name is not. -/
def RouterHandled (value : Json) : Prop :=
  RouterRow value ∨ value.asObject = none ∨ ∃ object, value.asObject = some object ∧
    (second object "static_routes" = none ∨ (RoutesRead object ∧
      ((second object "_uuid").bind Json.asStr = none ∨ (object.lookup "name").bind Json.asStr = none)))

section Columns

variable {object : Fields} {field : String} {value : Json}

theorem errorFree_deserializeEntry (entry : Json) : ErrorFree (deserializeEntry entry) := by
  refine (errorFree_expect _).bind fun kvArray => ?_
  split
  · exact (errorFree_expect _).bind fun _ => (errorFree_expect _).bind fun _ => errorFree_ret _
  · exact errorFree_abort

theorem errorFree_deserializeSetElement (uuid : Json) : ErrorFree (deserializeSetElement uuid) := by
  refine (errorFree_expect _).bind fun array => (errorFree_expect _).bind fun tag => ?_
  split
  · exact (errorFree_expect _).bind fun _ => errorFree_expect _
  · exact errorFree_abort

/-- A map is refused if there is no array, or none after its tag. -/
theorem deserializeMap_eq_fail : deserializeMap object field = .fail .ovnDeserializationFailed ↔
    NoArray object field ∨ ∃ x, object.lookup field = some (.arr [.str "map", x]) ∧ x.asArray = none := by
  unfold deserializeMap
  rw [bind_eq_fail, orDeserializationFailed_eq_fail]
  refine or_congr Iff.rfl ⟨?_, ?_⟩
  · rintro ⟨a, ha, h⟩
    obtain ⟨v, hv, hl⟩ := Option.bind_eq_some_iff.mp (orDeserializationFailed_eq_ret.mp ha)
    obtain rfl : v = .arr a := by
      cases v <;> cases hl
      rfl
    split at h
    · next tag entries =>
      split at h
      · next htag =>
        obtain rfl : tag = .str "map" := by
          cases tag <;> cases htag
          rfl
        rcases bind_eq_fail.mp h with h | ⟨l, -, h⟩
        · exact ⟨entries, hv, orDeserializationFailed_eq_fail.mp h⟩
        · exact absurd h ((errorFree_collect errorFree_deserializeEntry).bind fun _ => errorFree_ret _).ne_fail
      · cases h
    · cases h
  · rintro ⟨x, hx, harr⟩
    refine ⟨[.str "map", x], orDeserializationFailed_eq_ret.mpr (by rw [hx]; rfl), ?_⟩
    show (orDeserializationFailed x.asArray >>= _) = _
    rw [harr]
    rfl

/-- A set is refused if there is no array. -/
theorem deserializeUuidSet_eq_fail :
    deserializeUuidSet object field = .fail .ovnDeserializationFailed ↔ NoArray object field := by
  unfold deserializeUuidSet
  rw [bind_eq_fail, orDeserializationFailed_eq_fail]
  refine or_iff_left ?_
  rintro ⟨a, -, h⟩
  refine ErrorFree.ne_fail ?_ h
  dsimp only
  split
  · exact (errorFree_expect _).bind fun _ => (errorFree_expect _).bind fun _ => errorFree_ret _
  · split
    · exact (errorFree_expect _).bind fun _ => (errorFree_expect _).bind fun _ =>
        errorFree_collect errorFree_deserializeSetElement
    · exact errorFree_abort

theorem second_eq : second object field = (do
    let a ← object.lookup field
    let a ← a.asArray
    a[1]?) := Option.bind_assoc _ _ _

/-- One element of a set of routes. -/
def routeElement (item : Json) : Prog String := do
  let row ← expect item.asArray "Row was not an array like ['uuid', uuid]"
  let u ← expect row[1]? "index out of bounds"
  expect u.asStr "UUID was not a string"

/-- The uuids of routes, from what follows the tag. -/
def routeUuids : Json → Prog (List String)
  | .str uuid => return [uuid]
  | .arr uuidsArrays => Program.collect uuidsArrays routeElement
  | _ => .abort "Unexpected data type"

theorem deserializeRouteSet_eq : deserializeRouteSet object =
    orDeserializationFailed (second object "static_routes") >>= routeUuids := by
  rw [second_eq]
  unfold deserializeRouteSet
  congr 1

theorem errorFree_routeElement (item : Json) : ErrorFree (routeElement item) :=
  (errorFree_expect _).bind fun _ => (errorFree_expect _).bind fun _ => errorFree_expect _

theorem errorFree_routeUuids (x : Json) : ErrorFree (routeUuids x) := by
  unfold routeUuids
  split
  · exact errorFree_ret _
  · exact errorFree_collect errorFree_routeElement
  · exact errorFree_abort

theorem asStr_eq_some {x : Json} {u : String} : x.asStr = some u ↔ x = .str u := by
  unfold Json.asStr
  cases x <;> simp

theorem asArray_eq_some {x : Json} {l : List Json} : x.asArray = some l ↔ x = .arr l := by
  unfold Json.asArray
  cases x <;> simp

theorem routeElement_eq_ret {item : Json} :
    (∃ u, routeElement item = .ret u) ↔ ∃ row u, item = .arr row ∧ row[1]? = some (.str u) := by
  constructor
  · rintro ⟨u, h⟩
    obtain ⟨row, hrow, h⟩ := bind_eq_ret.mp h
    obtain ⟨x, hx, h⟩ := bind_eq_ret.mp h
    exact ⟨row, u, asArray_eq_some.mp (expect_eq_ret.mp hrow),
      (expect_eq_ret.mp hx).trans (congrArg some (asStr_eq_some.mp (expect_eq_ret.mp h)))⟩
  · rintro ⟨row, u, rfl, hu⟩
    exact ⟨u, bind_eq_ret.mpr ⟨row, rfl, bind_eq_ret.mpr ⟨.str u, expect_eq_ret.mpr hu, rfl⟩⟩⟩

/-- Routes are refused if nothing follows the tag. -/
theorem deserializeRouteSet_eq_fail :
    deserializeRouteSet object = .fail .ovnDeserializationFailed ↔ second object "static_routes" = none := by
  rw [deserializeRouteSet_eq, bind_eq_fail, orDeserializationFailed_eq_fail]
  refine or_iff_left ?_
  rintro ⟨x, -, h⟩
  exact (errorFree_routeUuids x).ne_fail h

theorem deserializeRouteSet_eq_ret : (∃ l, deserializeRouteSet object = .ret l) ↔ RoutesRead object := by
  have hread : ∀ x, (∃ l, routeUuids x = .ret l) ↔ ((∃ u, x = .str u) ∨
      ∃ items, x = .arr items ∧ ∀ item ∈ items, ∃ row u, item = .arr row ∧ row[1]? = some (.str u)) := by
    intro x
    cases x with
    | str u => exact ⟨fun _ => .inl ⟨u, rfl⟩, fun _ => ⟨[u], rfl⟩⟩
    | arr items =>
      show (∃ l, Program.collect items routeElement = .ret l) ↔ _
      rw [exists_collect_eq_ret]
      simp only [routeElement_eq_ret, reduceCtorEq, exists_false, false_or, Json.arr.injEq,
        exists_eq_left']
    | _ => simp [routeUuids]
  rw [deserializeRouteSet_eq]
  unfold RoutesRead
  simp only [← hread, bind_eq_ret, orDeserializationFailed_eq_ret]
  constructor
  · rintro ⟨l, x, hx, hl⟩
    exact ⟨x, hx, l, hl⟩
  · rintro ⟨x, hx, l, hl⟩
    exact ⟨l, x, hx, hl⟩

theorem deserializeUuid_eq : deserializeUuid object =
    orDeserializationFailed ((second object "_uuid").bind Json.asStr) := by
  rw [second_eq]
  refine congrArg orDeserializationFailed ?_
  simp only [Option.bind_eq_bind, Option.bind_assoc]

/-- The rest of a router is refused if its uuid or its name is no text. -/
theorem deserializeNamed_eq_fail {α : Type} {f : String → String → α} :
    (deserializeUuid object >>= fun uuid => deserializeString object "name" >>= fun name =>
      (.ret (f uuid name) : Prog α)) = .fail .ovnDeserializationFailed ↔
        (second object "_uuid").bind Json.asStr = none ∨ (object.lookup "name").bind Json.asStr = none := by
  rw [deserializeUuid_eq]
  cases (second object "_uuid").bind Json.asStr with
  | none => exact iff_of_true rfl (.inl rfl)
  | some uuid =>
    show (orDeserializationFailed ((object.lookup "name").bind Json.asStr) >>= _) = _ ↔ _
    cases (object.lookup "name").bind Json.asStr with
    | none => exact iff_of_true rfl (.inr rfl)
    | some name => simp [orDeserializationFailed]

/-- A router is refused if its routes are, or if they are read but the uuid or the name is not. -/
theorem deserializeRouter_eq_fail :
    (OvnCommon.deserialize value : Prog LogicalRouter) = .fail .ovnDeserializationFailed ↔
      value.asObject = none ∨ ∃ object, value.asObject = some object ∧
        (second object "static_routes" = none ∨ (RoutesRead object ∧
          ((second object "_uuid").bind Json.asStr = none ∨
            (object.lookup "name").bind Json.asStr = none))) := by
  show (deserializeObject value >>= fun object => deserializeRouteSet object >>= fun routeUuids =>
    deserializeUuid object >>= fun uuid => deserializeString object "name" >>= fun name =>
      Program.ret (LogicalRouter.mk uuid name routeUuids)) = _ ↔ _
  unfold deserializeObject
  rw [bind_eq_fail, orDeserializationFailed_eq_fail]
  refine or_congr Iff.rfl (exists_congr fun object => and_congr orDeserializationFailed_eq_ret ?_)
  rw [bind_eq_fail, deserializeRouteSet_eq_fail, ← deserializeRouteSet_eq_ret]
  simp only [deserializeNamed_eq_fail, exists_and_right]

/-- A router with all its columns is read. -/
theorem deserializeRouter_row (h : RouterRow value) :
    ∃ router, (OvnCommon.deserialize value : Prog LogicalRouter) = .ret router := by
  obtain ⟨object, hobject, ⟨l, x, hform, hx⟩, ⟨u, hu⟩, name, hname⟩ := h
  show ∃ router, (deserializeObject value >>= fun object => deserializeRouteSet object >>=
    fun routeUuids => deserializeUuid object >>= fun uuid => deserializeString object "name" >>=
      fun name => Program.ret (LogicalRouter.mk uuid name routeUuids)) = Program.ret router
  unfold deserializeObject deserializeUuid deserializeString
  rw [hobject]
  refine ⟨⟨u, name, l⟩, ?_⟩
  show (deserializeRouteSet object >>= _) = _
  rw [deserializeRouteSet_form hform hx, hu, hname]
  rfl

end Columns

/-- Where a legal column is accepted and anything else is an error, and nothing panics. -/
theorem malformed_rows_iff (object : Fields) (field : String) (value : Json) :
    (Exact (deserializeMap object field) (MapColumn object field) ↔ MapHandled object field) ∧
    (Exact (deserializeUuidSet object field) (SetColumn object field) ↔ SetHandled object field) ∧
    (Exact (OvnCommon.deserialize value : Prog LogicalRouter) (RouterRow value) ↔
      RouterHandled value) := by
  refine ⟨?_, ?_, ?_⟩
  · rw [exact_iff, deserializeMap_eq_fail]
    · rfl
    · rintro ⟨entries, h⟩
      exact ⟨_, deserializeMap_form h⟩
  · rw [exact_iff, deserializeUuidSet_eq_fail]
    · rfl
    · rintro ⟨l, x, hform, h⟩
      exact ⟨l, deserializeUuidSet_form hform h⟩
  · rw [exact_iff deserializeRouter_row, deserializeRouter_eq_fail]
    rfl

/-- A legal set has two parts, of which the first is a tag. -/
theorem UuidSetForm.parts {l : List String} {value : Json} (h : UuidSetForm l value) :
    ∃ tag x, value = .arr [.str tag, x] := by
  cases h with
  | set => exact ⟨_, _, rfl⟩
  | one u => exact ⟨_, _, rfl⟩

/-- A column that holds a set where a map is expected is a panic, a set with a third element is
accepted, and so is a router whose routes have no tag. -/
theorem malformed_rows_mishandled :
    ¬Exact (deserializeMap [("other_config", .arr [.str "set", .arr []])] "other_config")
      (MapColumn [("other_config", .arr [.str "set", .arr []])] "other_config") ∧
    ¬Exact (deserializeUuidSet [("ports", .arr [.str "uuid", .str "a", .null])] "ports")
      (SetColumn [("ports", .arr [.str "uuid", .str "a", .null])] "ports") ∧
    ¬Exact (OvnCommon.deserialize (.obj [("_uuid", uuidForm "r"), ("name", .str "edge"),
        ("static_routes", .arr [.null, .str "a"])]) : Prog LogicalRouter)
      (RouterRow (.obj [("_uuid", uuidForm "r"), ("name", .str "edge"),
        ("static_routes", .arr [.null, .str "a"])])) := by
  refine ⟨?_, ?_, ?_⟩
  · rintro (⟨-, m, hm⟩ | ⟨-, h⟩)
    · cases hm
    · cases h
  · rintro (⟨⟨l, x, hform, hx⟩, -⟩ | ⟨-, h⟩)
    · obtain ⟨tag, y, rfl⟩ := hform.parts
      cases Option.some.inj hx
    · cases h
  · rintro (⟨⟨object, hobject, ⟨l, x, hform, hx⟩, -⟩, -⟩ | ⟨-, h⟩)
    · obtain ⟨tag, y, rfl⟩ := hform.parts
      cases Option.some.inj hobject
      cases Option.some.inj hx
    · cases h

end ClusterController
