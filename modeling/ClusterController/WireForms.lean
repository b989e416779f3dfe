import ClusterController.Ovn

/-!
# The wire forms of OVSDB

A set of uuids is written as a list of `["uuid", u]`. A set of one may also be written as that
element alone. A map is written as a list of its entries, in any order.
-/

namespace ClusterController

open ApiServer (StringMap)
open Interaction (Program)
open Ovsdb (Json)

/-! ## Forms -/

/-- `["uuid", u]` -/
def uuidForm (u : String) : Json := .arr [.str "uuid", .str u]

/-- The ways to write a set of uuids. -/
inductive UuidSetForm : List String → Json → Prop
  | set (l : List String) : UuidSetForm l (.arr [.str "set", .arr (l.map uuidForm)])
  | one (u : String) : UuidSetForm [u] (uuidForm u)

/-- `["map", [[k, v], ...]]` -/
def mapForm (entries : List (String × String)) : Json :=
  .arr [.str "map", .arr (entries.map fun e => .arr [.str e.1, .str e.2])]

/-! ## Sets -/

section Decoding

variable {fields : Fields} {column : String} {l : List String} {value : Json}

theorem collect_ret {ι α : Type} {l : List ι} {f : ι → Prog α} {g : ι → α}
    (h : ∀ i ∈ l, f i = .ret (g i)) : Program.collect l f = .ret (l.map g) := by
  induction l with
  | nil => rfl
  | cons i is ih =>
    unfold Program.collect
    rw [h i List.mem_cons_self, ih fun j hj => h j (List.mem_cons_of_mem _ hj)]
    rfl

/-- Elements that are decoded one by one come back in order. -/
theorem collect_forms {ι α : Type} {l : List α} {form : α → ι} {f : ι → Prog α}
    (h : ∀ a, f (form a) = .ret a) : Program.collect (l.map form) f = .ret l := by
  induction l with
  | nil => rfl
  | cons a as ih =>
    rw [List.map_cons]
    unfold Program.collect
    rw [h a, ih]
    rfl

theorem deserializeUuidSet_form (hform : UuidSetForm l value) (h : fields.lookup column = some value) :
    deserializeUuidSet fields column = .ret l := by
  unfold deserializeUuidSet
  rw [h]
  cases hform with
  | set =>
    have helements : Program.collect (l.map uuidForm) deserializeSetElement = .ret l :=
      collect_forms fun _ => rfl
    exact helements
  | one u => rfl

theorem deserializeRouteSet_form (hform : UuidSetForm l value)
    (h : fields.lookup "static_routes" = some value) : deserializeRouteSet fields = .ret l := by
  unfold deserializeRouteSet
  rw [h]
  cases hform with
  | set => exact collect_forms fun _ => rfl
  | one u => rfl

/-! ## Maps -/

theorem deserializeMap_form {entries : List (String × String)}
    (h : fields.lookup column = some (mapForm entries)) :
    deserializeMap fields column = .ret (entries.foldl (fun m e => m.insert e.1 e.2) []) := by
  have helements : Program.collect (entries.map fun e => Json.arr [.str e.1, .str e.2])
      deserializeEntry = (.ret entries : Prog StringMap) := collect_forms fun _ => rfl
  unfold deserializeMap
  rw [h]
  show (Program.collect (entries.map _) deserializeEntry >>= fun entries => Program.ret _) = _
  rw [helements]
  rfl

theorem insert_of_not_mem {m : StringMap} {k v : String} (h : k ∉ m.map Prod.fst) :
    m.insert k v = m ++ [(k, v)] := by
  induction m with
  | nil => rfl
  | cons e m ih =>
    rw [List.map_cons, List.mem_cons, not_or] at h
    unfold StringMap.insert
    rw [if_neg (Ne.symm h.1), ih h.2]
    rfl

/-- Entries with different keys make the map of these entries. -/
theorem foldl_insert {entries m : StringMap} (h : ((m ++ entries).map Prod.fst).Nodup) :
    entries.foldl (fun m e => m.insert e.1 e.2) m = m ++ entries := by
  induction entries generalizing m with
  | nil => rw [List.foldl_nil, List.append_nil]
  | cons e es ih =>
    have hnew : e.1 ∉ m.map Prod.fst := by
      rw [List.map_append, List.map_cons] at h
      exact fun hm => (List.nodup_append.mp h).2.2 _ hm _ List.mem_cons_self rfl
    rw [List.foldl_cons, insert_of_not_mem hnew, ih (by rwa [List.append_assoc, List.singleton_append]),
      List.append_assoc, List.singleton_append]

/-- The value of a key does not depend on the order of the entries. -/
theorem get_of_perm {m m' : StringMap} (hm : (m.map Prod.fst).Nodup) (hp : m'.Perm m) (k : String) :
    m'.get k = m.get k := by
  induction hp with
  | nil => rfl
  | cons e _ ih =>
    rw [List.map_cons, List.nodup_cons] at hm
    rw [StringMap.get_cons, StringMap.get_cons, ih hm.2]
  | swap e e' l =>
    rw [List.map_cons, List.map_cons, List.nodup_cons, List.mem_cons, not_or] at hm
    have hne : e.1 ≠ e'.1 := hm.1.1
    rw [StringMap.get_cons, StringMap.get_cons, StringMap.get_cons, StringMap.get_cons]
    split_ifs with h h'
    · exact absurd (h'.trans h.symm) (by tauto)
    all_goals rfl
  | trans hp₁ hp₂ ih₁ ih₂ =>
    have hmid := (hp₂.map Prod.fst).nodup_iff.mpr hm
    rw [ih₁ hmid, ih₂ hm]

/-- Each decoder returns what was written, in all wire forms: the uuids in their order, and the
map whatever the order of its entries. -/
theorem decoding_undoes_encoding (fields : Fields) :
    (∀ column l value, UuidSetForm l value → fields.lookup column = some value →
      deserializeUuidSet fields column = .ret l) ∧
    (∀ l value, UuidSetForm l value → fields.lookup "static_routes" = some value →
      deserializeRouteSet fields = .ret l) ∧
    ∀ column (m : StringMap) entries, (m.map Prod.fst).Nodup → entries.Perm m →
      fields.lookup column = some (mapForm entries) →
      ∃ m', deserializeMap fields column = .ret m' ∧ m'.Perm m ∧ ∀ k, m'.get k = m.get k := by
  refine ⟨fun _ _ _ hform h => deserializeUuidSet_form hform h,
    fun _ _ hform h => deserializeRouteSet_form hform h, fun column m entries hm hp h => ?_⟩
  have hentries : (([] ++ entries).map Prod.fst).Nodup := (hp.map Prod.fst).nodup_iff.mpr hm
  refine ⟨entries, ?_, hp, get_of_perm hm hp⟩
  rw [deserializeMap_form h, foldl_insert hentries, List.nil_append]

end Decoding

/-- A row with a set of two, a set of one in the short form, and a map. -/
def writtenRow : Fields :=
  [("ports", .arr [.str "set", .arr [uuidForm "a", uuidForm "b"]]), ("static_routes", uuidForm "c"),
    ("options", mapForm [("mtu", "1500"), ("lease_time", "3600")])]

theorem decoding_undoes_encoding_row :
    deserializeUuidSet writtenRow "ports" = .ret ["a", "b"] ∧
    deserializeRouteSet writtenRow = .ret ["c"] ∧
    ∃ m', deserializeMap writtenRow "options" = .ret m' ∧
      m'.Perm [("lease_time", "3600"), ("mtu", "1500")] ∧
      ∀ k, m'.get k = StringMap.get [("lease_time", "3600"), ("mtu", "1500")] k := by
  obtain ⟨hset, hroutes, hmap⟩ := decoding_undoes_encoding writtenRow
  exact ⟨hset "ports" _ _ (.set ["a", "b"]) rfl, hroutes _ _ (.one "c") rfl,
    hmap "options" _ _ (by decide) (.swap _ _ []) rfl⟩

end ClusterController
