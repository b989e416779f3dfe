import ClusterController.OvnActions

/-!
# Switches and the ports on them

Which switch has which port. In a consistent database a port is on some switch, and no
two ports have the same name.
-/

namespace ClusterController

open Ovsdb (Row Columns Database Datum Consistent dropRefs addRefs modifyRow_eq_map)

/-- The switch has the port. -/
def Holds (db : Database) (u v : String) : Prop :=
  ∃ r ∈ db typeLogicalSwitch, r.uuid = u ∧ v ∈ r.refs "ports"

/-- The uuid of the first row of a name. -/
def uuidOf (db : Database) (T name : String) : Option String := (named db T name).map Row.uuid

/-- The first switch of a name, by its uuid. -/
abbrev switchOf (db : Database) (name : String) : Option String := uuidOf db typeLogicalSwitch name

/-- The port of a name, by its uuid. -/
abbrev portOf (db : Database) (name : String) : Option String :=
  uuidOf db typeLogicalSwitchPort name

/-- A change of rows that keeps names and uuids. -/
theorem uuidOf_map {db db' : Database} {T name : String} {g : Row → Row}
    (h : db' T = (db T).map g) (huuid : ∀ r ∈ db T, (g r).uuid = r.uuid)
    (hname : ∀ r ∈ db T, rowText (g r) "name" = rowText r "name") :
    uuidOf db' T name = uuidOf db T name := by
  unfold uuidOf named firstWith
  rw [h, List.find?_map]
  generalize db T = rows at huuid hname
  induction rows with
  | nil => rfl
  | cons r rs ih =>
    have ih := ih (fun r hr => huuid r (List.mem_cons_of_mem _ hr))
      fun r hr => hname r (List.mem_cons_of_mem _ hr)
    rw [List.find?_cons, List.find?_cons, Function.comp_apply, hname r List.mem_cons_self]
    split
    · exact congrArg some (huuid r List.mem_cons_self)
    · exact ih

section Rows

variable {r : Row} {c c' : String} {f : Datum String → Datum String}

theorem rowText_modify_of_ne (h : c' ≠ c) : rowText (r.modify c f) c' = rowText r c' := by
  unfold rowText
  rw [Row.get_modify_of_ne h]

theorem rowText_write_of_not_mem {row : Columns String} (h : ∀ e ∈ row, c ≠ e.1) :
    rowText (r.write row) c = rowText r c := by
  unfold rowText
  rw [Row.get_write_of_not_mem h]

theorem mem_refs_dropRefs {us : List String} {v : String} :
    v ∈ (dropRefs c us r).refs c ↔ v ∈ r.refs c ∧ v ∉ us := by
  unfold Row.refs dropRefs
  rw [Row.get_modify, if_pos rfl]
  cases r.get c with
  | none => simp
  | some d => simp [Datum.uuids]

end Rows

section Ports

variable {db : Database} {p : Row} {u v name : String}

theorem exists_holds (hc : Consistent northbound db) (hp : p ∈ db typeLogicalSwitchPort) :
    ∃ u, Holds db u p.uuid := by
  have hone : ∀ ref ∈ northbound.references, ref.strong = true →
      ref.target = typeLogicalSwitchPort → ref.table = typeLogicalSwitch ∧ ref.column = "ports" := by
    decide
  have h := hc.referenced (t := typeLogicalSwitchPort) rfl hp
  unfold Database.referenced at h
  simp only [List.any_eq_true, Bool.and_eq_true, decide_eq_true_eq] at h
  obtain ⟨ref, href, ⟨hs, ht⟩, r, hr, hv⟩ := h
  obtain ⟨htable, hcolumn⟩ := hone ref href hs ht
  rw [htable] at hr
  rw [hcolumn] at hv
  exact ⟨r.uuid, r, hr, rfl, List.contains_iff_mem.mp hv⟩

/-- A switch has only ports that exist. -/
theorem exists_port (hc : Consistent northbound db) (h : Holds db u v) :
    ∃ p ∈ db typeLogicalSwitchPort, p.uuid = v := by
  obtain ⟨r, hr, -, hv⟩ := h
  have hint := hc.integral
  unfold Database.integral at hint
  rw [List.all_eq_true] at hint
  have href := hint ⟨typeLogicalSwitch, "ports", typeLogicalSwitchPort, true⟩ (.head _)
  simp only [Bool.not_true, Bool.false_or, List.all_eq_true] at href
  obtain ⟨p, hp⟩ := Option.isSome_iff_exists.mp (href r hr v hv)
  exact ⟨p, Database.find?_some hp⟩

/-- Where names are an index, no two rows have the same name. -/
theorem named_iff {T : String} (hi : (T, "name") ∈ northbound.indexes)
    (hcol : ("name", .strings [""]) ∈ northboundColumns T) (hc : Consistent northbound db) :
    named db T name = some p ↔ p ∈ db T ∧ rowText p "name" = name := by
  refine ⟨firstWith_some, fun ⟨hp, hn⟩ => ?_⟩
  cases hf : named db T name with
  | none => exact absurd hn (firstWith_none.mp hf p hp)
  | some p' =>
    obtain ⟨hp', hn'⟩ := firstWith_some hf
    have hd := hc.distinct
    unfold Database.distinct at hd
    rw [List.all_eq_true] at hd
    have hnodup := of_decide_eq_true (hd (T, "name") hi)
    have ht := hc.conforms.typed T
    refine congrArg some (List.inj_on_of_nodup_map hnodup hp' hp ?_)
    rw [get_of_text (c := "name") (ht p' hp') hcol, get_of_text (c := "name") (ht p hp) hcol, hn, hn']

theorem named_port_iff (hc : Consistent northbound db) :
    named db typeLogicalSwitchPort name = some p ↔
      p ∈ db typeLogicalSwitchPort ∧ rowText p "name" = name :=
  named_iff (.head _) (by decide) hc

end Ports

/-! ## A port taken from a switch -/

section Drop

variable {db : Database} {u v u' v' name : String}

theorem switches_dropped : ((db.modifyRow typeLogicalSwitch u (dropRefs "ports" [v])).sweep northbound)
    typeLogicalSwitch = (db typeLogicalSwitch).map
      fun r => if r.uuid = u then dropRefs "ports" [v] r else r := by
  rw [Ovsdb.sweep_root rfl, Database.modifyRow_self]

theorem holds_dropped :
    Holds ((db.modifyRow typeLogicalSwitch u (dropRefs "ports" [v])).sweep northbound) u' v' ↔
      Holds db u' v' ∧ ¬(u' = u ∧ v' = v) := by
  unfold Holds
  rw [switches_dropped]
  constructor
  · rintro ⟨r, hr, rfl, hv⟩
    obtain ⟨r₀, hr₀, rfl⟩ := List.mem_map.mp hr
    split at hv
    · next hu =>
      obtain ⟨hv, hne⟩ := mem_refs_dropRefs.mp hv
      rw [if_pos hu]
      exact ⟨⟨r₀, hr₀, rfl, hv⟩, fun h => hne (List.mem_singleton.mpr h.2)⟩
    · next hu =>
      rw [if_neg hu]
      exact ⟨⟨r₀, hr₀, rfl, hv⟩, fun h => hu h.1⟩
  · rintro ⟨⟨r, hr, rfl, hv⟩, hne⟩
    refine ⟨_, List.mem_map_of_mem hr, ?_⟩
    split
    · next hu => exact ⟨rfl, mem_refs_dropRefs.mpr ⟨hv, fun h => hne ⟨hu, List.mem_singleton.mp h⟩⟩⟩
    · exact ⟨rfl, hv⟩

/-- The ports that remain are those that are still on a switch. -/
theorem mem_ports_dropped (hc : Consistent northbound
      ((db.modifyRow typeLogicalSwitch u (dropRefs "ports" [v])).sweep northbound)) {p : Row} :
    p ∈ ((db.modifyRow typeLogicalSwitch u (dropRefs "ports" [v])).sweep northbound)
        typeLogicalSwitchPort ↔ p ∈ db typeLogicalSwitchPort ∧
      ∃ u', Holds ((db.modifyRow typeLogicalSwitch u (dropRefs "ports" [v])).sweep northbound) u' p.uuid := by
  have hports : (db.modifyRow typeLogicalSwitch u (dropRefs "ports" [v])) typeLogicalSwitchPort =
      db typeLogicalSwitchPort := Database.modify_of_ne (by decide)
  constructor
  · intro hp
    refine ⟨?_, exists_holds hc hp⟩
    unfold Database.sweep at hp
    rw [if_neg (by decide), hports] at hp
    exact (List.mem_filter.mp hp).1
  · rintro ⟨hp, u', r, hr, -, hv⟩
    unfold Database.sweep
    rw [if_neg (by decide), hports]
    refine List.mem_filter.mpr ⟨hp, ?_⟩
    unfold Database.referenced
    rw [List.any_eq_true]
    refine ⟨⟨typeLogicalSwitch, "ports", typeLogicalSwitchPort, true⟩, .head _, ?_⟩
    rw [Ovsdb.sweep_root rfl] at hr
    rw [Bool.and_eq_true, List.any_eq_true]
    exact ⟨rfl, r, hr, List.contains_iff_mem.mpr hv⟩

theorem switchOf_dropped :
    switchOf ((db.modifyRow typeLogicalSwitch u (dropRefs "ports" [v])).sweep northbound) name =
      switchOf db name := by
  refine uuidOf_map switches_dropped (fun r _ => ?_) fun r _ => ?_
  · split <;> rfl
  · split
    · exact rowText_modify_of_ne (by decide)
    · rfl

end Drop

end ClusterController
