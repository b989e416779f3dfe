import ClusterController.Routes
import ClusterController.SwitchPorts

/-!
# Setting the address of a switch port

`LogicalSwitchPort::set_address` looks for a MAC address in the text of the addresses: of the
port first, and then of the ports on its switch. When that finds what it is meant to find.
-/

namespace ClusterController

open Interaction (Program)
open Interaction.Program (Outcome)
open Ovsdb (Json Datum Row Columns Database Consistent Operation Ref FitColumns modifyRow_eq_map)

/-! ## Addresses and neighbours -/

/-- The strings in the `addresses` column of a port. -/
def addressesOf (r : Row) : List String :=
  match r.get "addresses" with
  | some (.strings l) => l
  | _ => []

/-- The first word of the address is the MAC address. -/
def StartsWithMac (mac address : String) : Prop :=
  address = mac ∨ (mac ++ " ").toList <+: address.toList

instance (mac address : String) : Decidable (StartsWithMac mac address) :=
  inferInstanceAs (Decidable (_ ∨ _))

/-- One of the addresses of the port starts with the MAC address. -/
def HasMac (r : Row) (mac : String) : Prop := ∃ address ∈ addressesOf r, StartsWithMac mac address

instance (r : Row) (mac : String) : Decidable (HasMac r mac) :=
  inferInstanceAs (Decidable (∃ address ∈ addressesOf r, StartsWithMac mac address))

/-- No port is on two switches. -/
def OnOneSwitch (db : Database) : Prop := ∀ u u' v, Holds db u v → Holds db u' v → u = u'

/-- Another port on the same switch. -/
def Neighbour (db : Database) (v : String) (q : Row) : Prop :=
  q ∈ db typeLogicalSwitchPort ∧ q.uuid ≠ v ∧ ∃ u, Holds db u v ∧ Holds db u q.uuid

/-- Another port on the switch has the MAC address. -/
def MacTaken (db : Database) (v mac : String) : Prop := ∃ q, Neighbour db v q ∧ HasMac q mac

/-- The text of the MAC address is in the address of another port on the switch, where that port
has one address. -/
def TextTaken (db : Database) (v mac : String) : Prop :=
  ∃ q, Neighbour db v q ∧ containsStr (rowText q "addresses") mac = true

/-- What a run of `set_address` for a port comes to. If it returns, the port has exactly the address
and no other port on its switch has the MAC address. It fails by a conflict exactly where another
port has the MAC address, and then it changes nothing. -/
structure AddressSet (db : Database) (v mac : String) (ip : IpConfiguration) (o : Outcome Error Unit)
    (db' : Database) : Prop where
  exact : o = .ok () → (∃ r, db'.find? typeLogicalSwitchPort v = some r ∧
    addressesOf r = [LogicalSwitchPort.addressString mac ip]) ∧ ¬MacTaken db' v mac
  conflict : o = .err (.ovnConflict mac) ↔ MacTaken db v mac
  unchanged : o = .err (.ovnConflict mac) → db' = db

/-- When the text of the MAC address is in the address of the port, the port has the address already
and no other port has the MAC address. When it is not, the text is in the address of another
port exactly where another port has the MAC address. -/
structure TextTells (db : Database) (r : Row) (mac : String) (ip : IpConfiguration) : Prop where
  own : containsStr (rowText r "addresses") mac = true →
    addressesOf r = [LogicalSwitchPort.addressString mac ip] ∧ ¬MacTaken db r.uuid mac
  others : containsStr (rowText r "addresses") mac = false →
    (TextTaken db r.uuid mac ↔ MacTaken db r.uuid mac)

/-! ## Updates -/

/-- Columns of a row that are no indexes and hold no strong references may be overwritten. -/
theorem consistent_write {db : Database} {T u : String} {row : Columns String}
    (hfit : FitColumns (northboundColumns T) row) (hb : ∀ e ∈ row, ¬Binds T e.1)
    (hi : ∀ e ∈ row, (T, e.1) ∉ northbound.indexes) (hc : Consistent northbound db)
    (hl : T = typeLogicalSwitchPort → ∀ r ∈ db T, Linked db (r.write row)) :
    Consistent northbound (db.modifyRow T u fun r => r.write row) := by
  let m := fun (T' : String) (r : Row) => if T' = T ∧ r.uuid = u then r.write row else r
  have heq : ∀ T', (db.modifyRow T u fun r => r.write row) T' = (db T').map (m T') := modifyRow_eq_map
  have huuid : ∀ T' r, (m T' r).uuid = r.uuid := by
    intro T' r
    dsimp only [m]
    split
    · exact Row.uuid_write
    · rfl
  have huuids : ∀ T', ((db.modifyRow T u fun r => r.write row) T').map Row.uuid =
      (db T').map Row.uuid := by
    intro T'
    rw [heq, List.map_map]
    exact List.map_congr_left fun r _ => huuid T' r
  have hsame : ∀ ref ∈ northbound.references, ref.strong = true → ∀ r,
      (m ref.table r).refs ref.column = r.refs ref.column := by
    intro ref href hs r
    dsimp only [m]
    split
    · next hr => exact Row.refs_write_of_not_mem fun e he hec => hb e he ⟨ref, href, hs, hr.1, hec⟩
    · rfl
  constructor
  · exact hc.conforms.modifyRow fun r hr hu =>
      ⟨(hc.conforms.typed T r hr).write hfit, Row.uuid_write.trans hu⟩
  · refine Ovsdb.sweep_of_adds (e := fun _ => []) hc (fun T' => by rw [heq, List.append_nil]) huuid
      (fun ref href hs r v hv => ?_) fun T' _ r hr => by cases hr
    rw [hsame ref href hs]
    exact hv
  · refine forget_eq_of_linked fun r hr => ?_
    rw [heq] at hr
    obtain ⟨r₀, hr₀, rfl⟩ := List.mem_map.mp hr
    have hlink : Linked db (m typeLogicalSwitchPort r₀) := by
      dsimp only [m]
      split
      · next hcond => exact hl hcond.1.symm r₀ (hcond.1 ▸ hr₀)
      · exact linked_of_consistent hc hr₀
    exact hlink.mono fun v hv => (huuids typeDhcpOptions).symm ▸ hv
  · have hint := hc.integral
    unfold Database.integral at hint ⊢
    simp only [List.all_eq_true, Bool.or_eq_true] at hint ⊢
    intro ref href
    cases hs : ref.strong with
    | false => exact .inl rfl
    | true =>
      refine .inr fun r hr v hv => ?_
      rw [heq] at hr
      obtain ⟨r₀, hr₀, rfl⟩ := List.mem_map.mp hr
      rw [hsame ref href hs] at hv
      rw [Ovsdb.isSome_find?_congr (huuids ref.target)]
      refine (hint ref href).elim (fun hno => ?_) fun hall => hall r₀ hr₀ v hv
      rw [hs] at hno
      cases hno
  · have hd := hc.distinct
    unfold Database.distinct at hd ⊢
    rw [List.all_eq_true] at hd ⊢
    intro i hindex
    have hmap : ((db.modifyRow T u fun r => r.write row) i.1).map (fun r => r.get i.2) =
        (db i.1).map fun r => r.get i.2 := by
      rw [heq, List.map_map]
      refine List.map_congr_left fun r _ => ?_
      rw [Function.comp_apply]
      dsimp only [m]
      split
      · next hcond =>
        refine Row.get_write_of_not_mem fun e he hec => hi e he ?_
        rw [← hcond.1, ← hec]
        exact hindex
      · rfl
    rw [hmap]
    exact hd i hindex

/-- A row is found by its uuid. -/
theorem find?_row {db : Database} {T : String} {r : Row} (hc : Consistent northbound db)
    (hr : r ∈ db T) : db.find? T r.uuid = some r := by
  obtain ⟨r', hr'⟩ := Option.isSome_iff_exists.mp (Ovsdb.isSome_find?.mpr
    (List.mem_map_of_mem (f := Row.uuid) hr))
  obtain ⟨hin, hu⟩ := Database.find?_some hr'
  rw [hr', List.inj_on_of_nodup_map (hc.conforms.unique _) hin hr hu]

section Update

variable {w : Worker} {s t : World} {T u : String} {cols : Columns Ref} {row : Columns String} {α : Type}

/-- An update goes through if it leaves a consistent database. -/
theorem ends_update (hrow : ∀ names, Operation.resolveColumns (Database.lookup names) cols = some row)
    (hcons : Consistent northbound (s.northbound.modifyRow T u fun r => r.write row))
    (f : List Json → Prog α) : ∃ answers, ∀ o, (transact [.update T u cols] >>= f).Ends (Supplied w) s o t ↔
      (f answers).Ends (Supplied w)
        (s.setNorthbound (s.northbound.modifyRow T u fun r => r.write row)) o t := by
  obtain ⟨answers, htr⟩ : ∃ answers, ∀ fresh, Supply s.northbound fresh [.update T u cols] →
      s.northbound.transact northbound fresh [.update T u cols] =
        some (answers, s.northbound.modifyRow T u fun r => r.write row) := by
    refine ⟨[.obj [("count", .num (if (s.northbound.find? T u).isSome then 1 else 0))]],
      fun fresh hsupply => ?_⟩
    have hrun : Operation.runAll northbound (Database.lookup (Database.names [.update T u cols] fresh))
        s.northbound fresh [.update T u cols] =
        some ([.obj [("count", .num (if (s.northbound.find? T u).isSome then 1 else 0))]],
          s.northbound.modifyRow T u fun r => r.write row) := by
      unfold Operation.runAll Operation.run
      dsimp only
      rw [hrow]
      rfl
    unfold Database.transact
    dsimp only
    rw [if_pos ⟨List.nodup_nil, hsupply.nodup, hsupply.unused⟩, hrun]
    dsimp only
    rw [hcons.swept, hcons.integral, hcons.distinct, hcons.forgotten]
    rfl
  have hends : ∀ o t', (transact [.update T u cols]).Ends (Supplied w) s o t' ↔ o = .ok answers ∧
      t' = s.setNorthbound (s.northbound.modifyRow T u fun r => r.write row) := by
    intro o t'
    rw [ends_transact_iff]
    constructor
    · rintro ⟨fresh, hsupply, h⟩
      rwa [htr fresh hsupply] at h
    · intro h
      have hsupply : Supply s.northbound [] [.update T u cols] :=
        ⟨List.nodup_nil, List.all_eq_true.mpr fun _ _ => rfl, Nat.le_refl _⟩
      refine ⟨[], hsupply, ?_⟩
      rw [htr [] hsupply]
      exact h
  refine ⟨answers, fun o => ?_⟩
  rw [Program.ends_bind]
  constructor
  · rintro (⟨a, s₁, ha, hf⟩ | ⟨e, he, -⟩ | ⟨m, hm, -⟩)
    · obtain ⟨ho, rfl⟩ := (hends _ _).mp ha
      cases ho
      exact hf
    · cases ((hends _ _).mp he).1
    · cases ((hends _ _).mp hm).1
  · exact fun hf => .inl ⟨answers, _, (hends _ _).mpr ⟨rfl, rfl⟩, hf⟩

end Update

/-! ## Lookups -/

section Lookups

variable {w : Worker} {s t : World} {r : Row} {mac : String} {ip : IpConfiguration}

/-- The switch of a port is found. -/
theorem exists_lspOwner {db : Database} (hc : Consistent northbound db)
    (hr : r ∈ db typeLogicalSwitchPort) : ∃ ls ∈ db typeLogicalSwitch, r.uuid ∈ ls.refs "ports" ∧
      (rowsOf LogicalSwitch db).find? (fun switch => switch.portIds.contains r.uuid) =
        some (OvnRow.ofRow ls) := by
  have hfind : (rowsOf LogicalSwitch db).find? (fun switch => switch.portIds.contains r.uuid) =
      ((db typeLogicalSwitch).find? fun ls => (ls.refs "ports").contains r.uuid).map OvnRow.ofRow := by
    unfold rowsOf
    rw [List.find?_map]
    rfl
  cases hls : (db typeLogicalSwitch).find? fun ls => (ls.refs "ports").contains r.uuid with
  | none =>
    obtain ⟨u, ls, hls', -, hv⟩ := exists_holds hc hr
    exact absurd (List.contains_iff_mem.mpr hv) (by simpa using List.find?_eq_none.mp hls ls hls')
  | some ls =>
    refine ⟨ls, List.mem_of_find?_eq_some hls,
      List.contains_iff_mem.mp (by simpa using List.find?_some hls), ?_⟩
    rw [hfind, hls]
    rfl

theorem gives_findLspOwner {ls : Row} (hc : Consistent northbound s.northbound)
    (hls : (rowsOf LogicalSwitch s.northbound).find? (fun switch => switch.portIds.contains r.uuid) =
      some (OvnRow.ofRow ls)) :
    Gives w s (LogicalSwitch.findLspOwner (OvnRow.ofRow r)) (OvnRow.ofRow ls) := by
  unfold LogicalSwitch.findLspOwner
  refine (gives_ovnList LogicalSwitch hc).bind ?_
  have hls' : (rowsOf LogicalSwitch s.northbound).find? (fun switch =>
      switch.portIds.contains (OvnRow.ofRow r : LogicalSwitchPort).uuid) = some (OvnRow.ofRow ls) := hls
  rw [hls']
  exact gives_ret _

/-- A lookup by MAC address that is to be tried. -/
theorem gives_getByMac_attempt (hc : Consistent northbound s.northbound) (ls : LogicalSwitch)
    (mac : String) :
    Gives w s (LogicalSwitchPort.getByMac ls mac).attempt (foundByMac s.northbound ls mac) := by
  have hends : ∀ o t, (LogicalSwitchPort.getByMac ls mac).Ends (Supplied w) s o t ↔
      o = .of (foundByMac s.northbound ls mac) ∧ t = s := by
    intro o t
    unfold LogicalSwitchPort.getByMac
    rw [(gives_ovnList LogicalSwitchPort hc).ends_bind]
    unfold foundByMac
    dsimp only
    cases ((rowsOf LogicalSwitchPort s.northbound).filter fun lsp =>
        ls.portIds.contains lsp.uuid).find? fun lsp => containsStr lsp.addresses mac with
    | some lsp => exact Iff.rfl
    | none => exact Iff.rfl
  intro o t
  rw [Program.ends_attempt]
  simp only [hends]
  cases foundByMac s.northbound ls mac with
  | ok lsp =>
    constructor
    · rintro (⟨a, ⟨ha, rfl⟩, rfl⟩ | ⟨e, ⟨he, -⟩, -⟩ | ⟨m, ⟨hm, -⟩, -⟩)
      · cases ha
        exact ⟨rfl, rfl⟩
      · cases he
      · cases hm
    · rintro ⟨rfl, rfl⟩
      exact .inl ⟨lsp, ⟨rfl, rfl⟩, rfl⟩
  | error e =>
    constructor
    · rintro (⟨a, ⟨ha, -⟩, -⟩ | ⟨e', ⟨he, rfl⟩, rfl⟩ | ⟨m, ⟨hm, -⟩, -⟩)
      · cases ha
      · cases he
        exact ⟨rfl, rfl⟩
      · cases hm
    · rintro ⟨rfl, rfl⟩
      exact .inr (.inl ⟨e, ⟨rfl, rfl⟩, rfl⟩)

/-- A port whose address has not the text is found exactly if it is another port. -/
theorem foundByMac_ok_iff (hone : OnOneSwitch s.northbound) {ls : Row}
    (hls : ls ∈ s.northbound typeLogicalSwitch) (hv : r.uuid ∈ ls.refs "ports")
    (hr : r ∈ s.northbound typeLogicalSwitchPort) (hc : Consistent northbound s.northbound)
    (htext : containsStr (rowText r "addresses") mac = false) :
    (∃ lsp, foundByMac s.northbound (OvnRow.ofRow ls) mac = .ok lsp) ↔
      TextTaken s.northbound r.uuid mac := by
  have hmem : (∃ lsp, foundByMac s.northbound (OvnRow.ofRow ls) mac = .ok lsp) ↔
      ∃ q ∈ s.northbound typeLogicalSwitchPort, q.uuid ∈ ls.refs "ports" ∧
        containsStr (rowText q "addresses") mac = true := by
    unfold foundByMac
    cases hf : ((rowsOf LogicalSwitchPort s.northbound).filter fun lsp =>
        (OvnRow.ofRow ls : LogicalSwitch).portIds.contains lsp.uuid).find?
          fun lsp => containsStr lsp.addresses mac with
    | some lsp =>
      obtain ⟨hin, hport⟩ := List.mem_filter.mp (List.mem_of_find?_eq_some hf)
      obtain ⟨q, hq, rfl⟩ := List.mem_map.mp hin
      have htq := List.find?_some hf
      exact ⟨fun _ => ⟨q, hq, List.contains_iff_mem.mp hport, htq⟩, fun _ => ⟨_, rfl⟩⟩
    | none =>
      constructor
      · rintro ⟨lsp, h⟩
        cases h
      · rintro ⟨q, hq, hport, htq⟩
        have hnot := List.find?_eq_none.mp hf (OvnRow.ofRow q) (List.mem_filter.mpr
          ⟨List.mem_map_of_mem hq, List.contains_iff_mem.mpr hport⟩)
        exact absurd htq hnot
  rw [hmem]
  constructor
  · rintro ⟨q, hq, hport, htq⟩
    refine ⟨q, ⟨hq, fun hu => ?_, ls.uuid, ⟨ls, hls, rfl, hv⟩, ⟨ls, hls, rfl, hport⟩⟩, htq⟩
    obtain rfl := List.inj_on_of_nodup_map (hc.conforms.unique _) hq hr hu
    rw [htext] at htq
    cases htq
  · rintro ⟨q, ⟨hq, -, u, hu, ls', hls', hu', hport⟩, htq⟩
    obtain rfl := hone u ls.uuid r.uuid hu ⟨ls, hls, rfl, hv⟩
    obtain rfl := List.inj_on_of_nodup_map (hc.conforms.unique _) hls' hls hu'
    exact ⟨q, hq, hport, htq⟩

end Lookups

/-! ## Runs -/

/-- The database with another address of a port. -/
def addressed (db : Database) (v address : String) : Database :=
  db.modifyRow typeLogicalSwitchPort v fun r => r.write [("addresses", .strings [address])]

section Addressed

variable {db : Database} {v address : String}

theorem consistent_addressed (hc : Consistent northbound db) :
    Consistent northbound (addressed db v address) := by
  refine consistent_write (fit_one (.strings [address]) (d := .strings []) (by decide) fun h => ?_) ?_
    (by simp [northbound]) hc fun _ r hr => (linked_of_consistent hc hr).write (by simp)
  · cases h
  · simp [binds_iff, typeLogicalSwitchPort, typeLogicalSwitch, typeLogicalRouter]

theorem addressed_ports : addressed db v address typeLogicalSwitchPort =
    (db typeLogicalSwitchPort).map
      fun r => if r.uuid = v then r.write [("addresses", .strings [address])] else r :=
  Database.modifyRow_self

theorem holds_addressed {u v' : String} : Holds (addressed db v address) u v' ↔ Holds db u v' := by
  unfold Holds addressed Database.modifyRow
  rw [Database.modify_of_ne (by decide)]

/-- The other ports are the same. -/
theorem neighbour_addressed {q : Row} : Neighbour (addressed db v address) v q ↔ Neighbour db v q := by
  unfold Neighbour
  simp only [holds_addressed]
  refine and_congr_left fun ⟨hne, _⟩ => ?_
  rw [addressed_ports, List.mem_map]
  constructor
  · rintro ⟨q₀, hq₀, rfl⟩
    by_cases hu : q₀.uuid = v
    · rw [if_pos hu, Row.uuid_write] at hne
      exact absurd hu hne
    · rwa [if_neg hu]
  · exact fun hq => ⟨q, hq, if_neg hne⟩

theorem macTaken_addressed {mac : String} :
    MacTaken (addressed db v address) v mac ↔ MacTaken db v mac := by
  unfold MacTaken
  simp only [neighbour_addressed]

/-- The port has the address. -/
theorem find?_addressed (hc : Consistent northbound db) {r : Row}
    (hr : r ∈ db typeLogicalSwitchPort) : ∃ r', (addressed db r.uuid address).find?
      typeLogicalSwitchPort r.uuid = some r' ∧ addressesOf r' = [address] := by
  obtain ⟨l, hl⟩ := get_of_strings (c := "addresses") (hc.conforms.typed _ r hr) (by decide)
  refine ⟨r.write [("addresses", .strings [address])], ?_, ?_⟩
  · have hc' : Consistent northbound (addressed db r.uuid address) := consistent_addressed hc
    have hmem : r.write [("addresses", .strings [address])] ∈
        addressed db r.uuid address typeLogicalSwitchPort := by
      rw [addressed_ports]
      exact List.mem_map.mpr ⟨r, hr, if_pos rfl⟩
    rw [← find?_row hc' hmem, Row.uuid_write]
  · unfold addressesOf
    rw [get_write_self (by rw [hl]; rfl) (by simp)]

end Addressed

section Result

variable {w : Worker} {s t : World} {r : Row} {mac : String} {ip : IpConfiguration}
  {o : Outcome Error Unit}

/-- The text is in the address of the port. -/
theorem ends_setAddress_kept (htext : containsStr (rowText r "addresses") mac = true) :
    (LogicalSwitchPort.setAddress (OvnRow.ofRow r) mac ip).Ends (Supplied w) s o t ↔
      o = .ok () ∧ t = s := by
  have htext : containsStr (OvnRow.ofRow r : LogicalSwitchPort).addresses mac = true := htext
  unfold LogicalSwitchPort.setAddress
  rw [if_pos htext]
  exact Iff.rfl

/-- The text is in the address of another port. -/
theorem ends_setAddress_taken (hc : Consistent northbound s.northbound)
    (hone : OnOneSwitch s.northbound) (hr : r ∈ s.northbound typeLogicalSwitchPort)
    (htext : containsStr (rowText r "addresses") mac = false)
    (htaken : TextTaken s.northbound r.uuid mac) :
    (LogicalSwitchPort.setAddress (OvnRow.ofRow r) mac ip).Ends (Supplied w) s o t ↔
      o = .err (.ovnConflict mac) ∧ t = s := by
  obtain ⟨ls, hls, hv, hfind⟩ := exists_lspOwner hc hr
  have howner := gives_findLspOwner (w := w) hc hfind
  obtain ⟨lsp, hlsp⟩ := (foundByMac_ok_iff hone hls hv hr hc htext).mpr htaken
  have hmac := gives_getByMac_attempt (w := w) hc (OvnRow.ofRow ls) mac
  rw [hlsp] at hmac
  have htext : ¬containsStr (OvnRow.ofRow r : LogicalSwitchPort).addresses mac = true :=
    Bool.not_eq_true _ ▸ htext
  unfold LogicalSwitchPort.setAddress
  rw [if_neg htext, howner.ends_bind, hmac.ends_bind]
  exact Iff.rfl

/-- The text is in no address. -/
theorem ends_setAddress_free (hc : Consistent northbound s.northbound)
    (hone : OnOneSwitch s.northbound) (hr : r ∈ s.northbound typeLogicalSwitchPort)
    (htext : containsStr (rowText r "addresses") mac = false)
    (hfree : ¬TextTaken s.northbound r.uuid mac) :
    (LogicalSwitchPort.setAddress (OvnRow.ofRow r) mac ip).Ends (Supplied w) s o t ↔
      o = .ok () ∧ t = s.setNorthbound
        (addressed s.northbound r.uuid (LogicalSwitchPort.addressString mac ip)) := by
  obtain ⟨ls, hls, hv, hfind⟩ := exists_lspOwner hc hr
  have howner := gives_findLspOwner (w := w) hc hfind
  have hmac := gives_getByMac_attempt (w := w) hc (OvnRow.ofRow ls) mac
  have hnone := mt (foundByMac_ok_iff hone hls hv hr hc htext).mp hfree
  cases hfound : foundByMac s.northbound (OvnRow.ofRow ls) mac with
  | ok lsp => exact absurd ⟨lsp, hfound⟩ hnone
  | error e =>
    rw [hfound] at hmac
    obtain ⟨answers, hupdate⟩ := ends_update (w := w) (t := t) (T := typeLogicalSwitchPort) (u := r.uuid)
      (fun names => resolve_text "addresses" (LogicalSwitchPort.addressString mac ip)
        (Database.lookup names)) (consistent_addressed hc) fun _ => .ret ()
    have htext : ¬containsStr (OvnRow.ofRow r : LogicalSwitchPort).addresses mac = true :=
      Bool.not_eq_true _ ▸ htext
    unfold LogicalSwitchPort.setAddress
    rw [if_neg htext, howner.ends_bind, hmac.ends_bind]
    exact hupdate o

/-- `set_address` does what it is meant to do exactly where the text of the addresses tells which
port has the MAC address. -/
theorem setAddress_exact_iff (hc : Consistent northbound s.northbound)
    (hone : OnOneSwitch s.northbound) (hr : r ∈ s.northbound typeLogicalSwitchPort) :
    (∀ o t, (LogicalSwitchPort.setAddress (OvnRow.ofRow r) mac ip).Ends (Supplied w) s o t →
      AddressSet s.northbound r.uuid mac ip o t.northbound) ↔
      TextTells s.northbound r mac ip := by
  have hfind : s.northbound.find? typeLogicalSwitchPort r.uuid = some r := find?_row hc hr
  cases htext : containsStr (rowText r "addresses") mac with
  | true =>
    simp only [ends_setAddress_kept htext]
    constructor
    · intro h
      have hset := h (.ok ()) s ⟨rfl, rfl⟩
      obtain ⟨⟨r', hr', haddresses⟩, hfree⟩ := hset.exact rfl
      obtain rfl := Option.some.inj (hfind.symm.trans hr')
      exact ⟨fun _ => ⟨haddresses, hfree⟩, fun hno => by rw [htext] at hno; cases hno⟩
    · rintro hok o t ⟨rfl, rfl⟩
      obtain ⟨haddresses, hfree⟩ := hok.own htext
      refine ⟨fun _ => ⟨⟨r, hfind, haddresses⟩, hfree⟩, ⟨fun h => ?_, fun h => absurd h hfree⟩, fun _ => rfl⟩
      cases h
  | false =>
    have hown : ∀ P : Prop, containsStr (rowText r "addresses") mac = true → P := by
      intro P h
      rw [htext] at h
      cases h
    by_cases htaken : TextTaken s.northbound r.uuid mac
    · simp only [ends_setAddress_taken hc hone hr htext htaken]
      constructor
      · intro h
        have hset := h _ s ⟨rfl, rfl⟩
        exact ⟨hown _, fun _ => ⟨fun _ => hset.conflict.mp rfl, fun _ => htaken⟩⟩
      · rintro hok o t ⟨rfl, rfl⟩
        refine ⟨fun h => ?_, ⟨fun _ => (hok.others htext).mp htaken, fun _ => rfl⟩, fun _ => rfl⟩
        cases h
    · simp only [ends_setAddress_free hc hone hr htext htaken]
      constructor
      · intro h
        have hset := h _ _ ⟨rfl, rfl⟩
        have hfree := (hset.exact rfl).2
        rw [northbound_setNorthbound, macTaken_addressed] at hfree
        exact ⟨hown _, fun _ => ⟨fun h => absurd h htaken, fun h => absurd h hfree⟩⟩
      · rintro hok o t ⟨rfl, rfl⟩
        have hfree := mt (hok.others htext).mpr htaken
        refine ⟨fun _ => ⟨find?_addressed hc hr, ?_⟩, ⟨fun h => ?_, fun h => absurd h hfree⟩, fun h => ?_⟩
        · rw [northbound_setNorthbound, macTaken_addressed]
          exact hfree
        · cases h
        · cases h

end Result

/-! ### Two ports on a switch -/

/-- Make a switch with a port that has an address and a port that has none. -/
def lanOperations : List Operation :=
  [.insert typeLogicalSwitchPort [("name", .strings ["vm-1"]),
      ("addresses", .strings ["52:54:00:1:2:34 dynamic"])] (some "first"),
    .insert typeLogicalSwitchPort [("name", .strings ["vm-2"])] (some "second"),
    .insert typeLogicalSwitch [("name", .strings ["default-lan"]),
      ("ports", .refs [.named "first", .named "second"])] none]

def lanDatabase : Database :=
  ((Database.transact northbound (fun _ => []) ["p1", "p2", "ls"] lanOperations).map Prod.snd).getD
    fun _ => []

/-- The columns of a port of the switch. -/
def lanPort (u name : String) (addresses : List String) : Row :=
  ⟨u, [("name", .strings [name]), ("type", .strings [""]), ("addresses", .strings addresses),
    ("dynamic_addresses", .strings []), ("options", .map []), ("dhcpv4_options", .refs [])]⟩

def firstLanPort : Row := lanPort "p1" "vm-1" ["52:54:00:1:2:34 dynamic"]

def secondLanPort : Row := lanPort "p2" "vm-2" []

theorem consistent_lanDatabase : Consistent northbound lanDatabase := by
  have hsome : (Database.transact northbound (fun _ => []) ["p1", "p2", "ls"]
      lanOperations).isSome = true := by decide +kernel
  have hname : ∀ name, FitColumns (northboundColumns typeLogicalSwitchPort)
      [("name", (.strings [name] : Datum Ref))] := fun name =>
    fit_one _ (d := .strings [""]) (by decide) fun _ => rfl
  have haddresses : FitColumns (northboundColumns typeLogicalSwitchPort)
      [("addresses", (.strings ["52:54:00:1:2:34 dynamic"] : Datum Ref))] :=
    fit_one _ (d := .strings []) (by decide) fun h => by cases h
  have hswitch : FitColumns (northboundColumns typeLogicalSwitch)
      [("name", (.strings ["default-lan"] : Datum Ref))] :=
    fit_one _ (d := .strings [""]) (by decide) fun _ => rfl
  have hports : FitColumns (northboundColumns typeLogicalSwitch)
      [("ports", .refs [Ref.named "first", Ref.named "second"])] :=
    fit_one _ (d := .refs []) (by decide) trivial
  obtain ⟨p, hp⟩ := Option.isSome_iff_exists.mp hsome
  obtain ⟨mid, htr⟩ := Ovsdb.transacted hp
  have hport : northbound.Stores typeLogicalSwitchPort := ⟨_, .head _, .inr rfl⟩
  have hcons := htr.consistent flat_northbound Ovsdb.consistent_empty fun op hop => by
    rcases List.mem_cons.mp hop with rfl | hop
    · exact ⟨hport, (hname _).cons haddresses⟩
    · rcases List.mem_cons.mp hop with rfl | hop
      · exact ⟨hport, hname _⟩
      · rw [List.mem_singleton.mp hop]
        exact ⟨⟨_, .head _, .inl rfl⟩, hswitch.cons hports⟩
  unfold lanDatabase
  rw [hp]
  exact hcons

theorem lanDatabase_ports :
    lanDatabase typeLogicalSwitchPort = [firstLanPort, secondLanPort] := by decide +kernel

theorem lanDatabase_switches : (lanDatabase typeLogicalSwitch).map Row.uuid = ["ls"] := by decide +kernel

theorem onOneSwitch_lanDatabase : OnOneSwitch lanDatabase := by
  have hls : ∀ u v, Holds lanDatabase u v → u = "ls" := by
    rintro u v ⟨r, hr, rfl, -⟩
    have hin := List.mem_map_of_mem (f := Row.uuid) hr
    rw [lanDatabase_switches] at hin
    exact List.mem_singleton.mp hin
  exact fun u u' v hu hu' => (hls u v hu).trans (hls u' v hu').symm

theorem neighbour_lanDatabase {q : Row} (h : Neighbour lanDatabase "p2" q) : q = firstLanPort := by
  obtain ⟨hq, hne, -⟩ := h
  rw [lanDatabase_ports] at hq
  rcases List.mem_cons.mp hq with rfl | hq
  · rfl
  · rw [List.mem_singleton.mp hq] at hne
    exact absurd rfl hne

theorem mem_lanDatabase_second : secondLanPort ∈ lanDatabase typeLogicalSwitchPort := by
  rw [lanDatabase_ports]
  exact .tail _ (.head _)

/-- A MAC address whose text is nowhere is set. -/
theorem setAddress_exact_lan : ∃ t : World,
    (LogicalSwitchPort.setAddress (OvnRow.ofRow secondLanPort) "52:54:00:a1:b2:c3" .dynamic).Ends
      (Supplied (.vmOvn ⟨"default", "vm-2"⟩)) (World.initial.setNorthbound lanDatabase) (.ok ()) t ∧
        AddressSet lanDatabase "p2" "52:54:00:a1:b2:c3" .dynamic (.ok ()) t.northbound := by
  have htext : containsStr (rowText secondLanPort "addresses") "52:54:00:a1:b2:c3" = false := by
    decide +kernel
  have hfree : ¬TextTaken lanDatabase "p2" "52:54:00:a1:b2:c3" := by
    rintro ⟨q, hq, hin⟩
    rw [neighbour_lanDatabase hq] at hin
    revert hin
    decide +kernel
  have hmac : ¬MacTaken lanDatabase "p2" "52:54:00:a1:b2:c3" := by
    rintro ⟨q, hq, hin⟩
    rw [neighbour_lanDatabase hq] at hin
    revert hin
    decide +kernel
  have htells : TextTells lanDatabase secondLanPort "52:54:00:a1:b2:c3" .dynamic := by
    refine ⟨fun h => ?_, fun _ => iff_of_false hfree hmac⟩
    rw [htext] at h
    cases h
  let t := (World.initial.setNorthbound lanDatabase).setNorthbound
    (addressed lanDatabase "p2" (LogicalSwitchPort.addressString "52:54:00:a1:b2:c3" .dynamic))
  have hends : (LogicalSwitchPort.setAddress (OvnRow.ofRow secondLanPort) "52:54:00:a1:b2:c3"
      .dynamic).Ends (Supplied (.vmOvn ⟨"default", "vm-2"⟩))
        (World.initial.setNorthbound lanDatabase) (.ok ()) t :=
    (ends_setAddress_free consistent_lanDatabase onOneSwitch_lanDatabase mem_lanDatabase_second htext
      hfree).mpr ⟨rfl, rfl⟩
  exact ⟨t, hends, (setAddress_exact_iff consistent_lanDatabase onOneSwitch_lanDatabase
    mem_lanDatabase_second).mpr htells _ _ hends⟩

/-- Where the text of the MAC address is the beginning of another MAC address, there is a conflict
though no port has it. -/
theorem address_conflict_imagined : ¬∀ o t,
    (LogicalSwitchPort.setAddress (OvnRow.ofRow secondLanPort) "52:54:00:1:2:3" .dynamic).Ends
      (Supplied (.vmOvn ⟨"default", "vm-2"⟩)) (World.initial.setNorthbound lanDatabase) o t →
        AddressSet lanDatabase "p2" "52:54:00:1:2:3" .dynamic o t.northbound := by
  have htext : containsStr (rowText secondLanPort "addresses") "52:54:00:1:2:3" = false := by decide +kernel
  have hholds : ∀ v ∈ ["p1", "p2"], Holds lanDatabase "ls" v := by
    unfold Holds
    decide +kernel
  have htaken : TextTaken lanDatabase "p2" "52:54:00:1:2:3" := by
    refine ⟨firstLanPort, ⟨?_, by decide, "ls", hholds _ (.tail _ (.head _)), hholds _ (.head _)⟩,
      by decide +kernel⟩
    rw [lanDatabase_ports]
    exact .head _
  intro h
  have hset := h _ (World.initial.setNorthbound lanDatabase)
    ((ends_setAddress_taken consistent_lanDatabase onOneSwitch_lanDatabase
      mem_lanDatabase_second htext htaken).mpr
      ⟨rfl, rfl⟩)
  obtain ⟨q, hq, hmac⟩ := hset.conflict.mp rfl
  rw [neighbour_lanDatabase hq] at hmac
  revert hmac
  decide +kernel

end ClusterController
