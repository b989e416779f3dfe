import ClusterController.CephActions

/-!
# Objects that end the process

Which virtual machines and networks make the functions that interpret them panic, while
the systems around the controller work as they should (`Proper`). Integers are those of a
build with overflow checks, and the crate that passes the XML of a domain on may panic on a NUL in it:
`Host.createDomainChecked` differs from `Host.createDomain` in these two only.
-/

namespace ClusterController

open ApiServer (StringMap Key KubeError Resource)
open Interaction (Program)
open Interaction.Program (Sturdy CanReturn sturdy_bind canReturn_bind sturdy_collect
  mem_of_canReturn_collect exists_canReturn_collect)
open Ovsdb (Json Database Consistent Operation)

/-! ## Answers of working systems -/

/-- The northbound database answers from a consistent state, whatever others have made of it
since the last transaction. Any answer of the other systems will do. -/
def Proper : (r : Request) → r.Answer → Prop
  | .transact operations, a => ∃ db fresh results db', Consistent northbound db ∧
      db.transact northbound fresh operations = some (results, db') ∧ a = some results
  | _, _ => True

section Calls

variable {α β : Type}

theorem sturdy_orPanic {x : Except String α} :
    (orPanic x).Sturdy Proper ↔ ∃ a, x = .ok a := by
  cases x with
  | ok a => exact ⟨fun _ => ⟨a, rfl⟩, fun _ => trivial⟩
  | error m => exact ⟨False.elim, nofun⟩

theorem canReturn_orPanic {x : Except String α} {a : α} :
    (orPanic x).CanReturn Proper a ↔ x = .ok a := by
  cases x with
  | ok b => exact ⟨congrArg _, Except.ok.inj⟩
  | error m => exact ⟨False.elim, nofun⟩

theorem sturdy_expect {o : Option α} {msg : String} :
    (expect o msg).Sturdy Proper ↔ o.isSome = true := by
  cases o with
  | some a => exact ⟨fun _ => rfl, fun _ => trivial⟩
  | none => exact ⟨False.elim, nofun⟩

theorem sturdy_cStringNew {text msg : String} : (cStringNew text msg).Sturdy Proper ↔ NulFree text := by
  unfold cStringNew
  split
  · next h => exact ⟨fun _ => h, fun _ => trivial⟩
  · next h => exact ⟨False.elim, fun h' => h h'⟩

theorem sturdy_ofExcept (x : Except Error α) :
    (Program.ofExcept x).Sturdy Proper := by
  cases x <;> trivial

theorem canReturn_ofExcept {x : Except Error α} {a : α} :
    (Program.ofExcept x).CanReturn Proper a ↔ x = .ok a := by
  cases x with
  | ok b => exact ⟨congrArg _, Except.ok.inj⟩
  | error m => exact ⟨False.elim, nofun⟩

theorem sturdy_onlyIf {c : Prop} [Decidable c] {p : Prog Unit} (h : p.Sturdy Proper) :
    (onlyIf c p).Sturdy Proper := by
  unfold onlyIf
  split
  · exact h
  · trivial

theorem sturdy_kubeCall (r : KubeRequest) : (kubeCall r).Sturdy Proper := by
  intro x _
  cases x <;> trivial

theorem sturdy_commit {κ : Kind} (o : Object κ) (writer : Writer) :
    (commit o writer).Sturdy Proper := (sturdy_kubeCall _).bind fun _ => trivial

theorem sturdy_setStatus {κ : Kind} (o : Object κ) (status : κ.Status) (writer : Writer) :
    (setStatus o status writer).Sturdy Proper := (sturdy_kubeCall _).bind fun _ => trivial

theorem sturdy_libvirtCall (host : String) (r : LibvirtRequest) :
    (libvirtCall host r).Sturdy Proper := by
  intro x _
  cases x <;> trivial

theorem sturdy_cephCall (operation : String) (r : CephRequest) :
    (cephCall operation r).Sturdy Proper := by
  intro x _
  cases x <;> trivial

theorem canReturn_cephCall {operation : String} {r : CephRequest} (a : r.Answer) :
    (cephCall operation r).CanReturn Proper a := ⟨.ok a, trivial, rfl⟩

/-! ## The northbound database -/

theorem sturdy_transact (operations : List Operation) : (transact operations).Sturdy Proper := by
  rintro x ⟨db, fresh, results, db', -, -, rfl⟩
  trivial

/-- A listing returns the rows of some consistent database. -/
theorem listObjects_proper (T : String) : (listObjects T).Sturdy Proper ∧
    ∀ rows, (listObjects T).CanReturn Proper rows → ∃ db, Consistent northbound db ∧
      rows = (db T).map fun r => r.encode (listColumns T) := by
  constructor
  · rintro x ⟨db, fresh, results, db', hc, htr, rfl⟩
    obtain ⟨-, rfl⟩ := hc.select htr
    trivial
  · rintro rows ⟨x, ⟨db, fresh, results, db', hc, htr, rfl⟩, hr⟩
    obtain ⟨-, rfl⟩ := hc.select htr
    exact ⟨db, hc, hr.symm⟩

theorem sturdy_ovnList (τ : Type) [OvnCommon τ] [OvnRow τ] : (ovnList τ).Sturdy Proper := by
  obtain ⟨hlist, hrows⟩ := listObjects_proper (OvnCommon.ovnType τ)
  refine sturdy_bind.mpr ⟨hlist, fun rows hr => ?_⟩
  obtain ⟨db, hc, rfl⟩ := hrows rows hr
  rw [collect_decode τ hc]
  trivial

theorem sturdy_getByName (τ : Type) [OvnNamed τ] [OvnRow τ] (name : String) :
    (getByName τ name).Sturdy Proper := by
  refine (sturdy_ovnList τ).bind fun objects => ?_
  split <;> trivial

theorem sturdy_orCreate {get create : Prog α} (hg : get.Sturdy Proper) (hc : create.Sturdy Proper) :
    (orCreate get create).Sturdy Proper := by
  refine hg.attempt.bind fun x => ?_
  split
  · trivial
  · exact hc
  · trivial

theorem sturdy_lrpCreateIfMissing (lr : LogicalRouter) (name networks : String) :
    (LogicalRouterPort.createIfMissing lr name networks).Sturdy Proper :=
  sturdy_orCreate (sturdy_getByName _ _)
    ((sturdy_transact _).bind fun _ => sturdy_getByName _ _)

theorem sturdy_lspCreateIfMissing (ls : LogicalSwitch) (name : String)
    (params : Ovsdb.Columns Ovsdb.Ref) :
    (LogicalSwitchPort.createIfMissing ls name params).Sturdy Proper :=
  sturdy_orCreate (sturdy_getByName _ _)
    ((sturdy_transact _).bind fun _ => sturdy_getByName _ _)

theorem sturdy_lrpUpdate (lrp : LogicalRouterPort) (networks : String) :
    (lrp.update networks).Sturdy Proper := (sturdy_transact _).bind fun _ => trivial

theorem sturdy_connectRouterToLs (lr : LogicalRouter) (ls : LogicalSwitch) (address : String) :
    (connectRouterToLs lr ls address).Sturdy Proper := by
  refine (sturdy_lrpCreateIfMissing _ _ _).bind fun lrp => ?_
  refine (sturdy_lrpUpdate _ _).bind fun _ => ?_
  exact (sturdy_lspCreateIfMissing _ _ _).bind fun _ => trivial

end Calls

/-- The first element of a list that lacks a property. -/
theorem exists_first {ι : Type} {P : ι → Prop} {l : List ι} (h : ¬∀ i ∈ l, P i) :
    ∃ before i after, l = before ++ i :: after ∧ (∀ j ∈ before, P j) ∧ ¬P i := by
  induction l with
  | nil => exact absurd nofun h
  | cons j js ih =>
    by_cases hj : P j
    · obtain ⟨before, i, after, rfl, hb, hi⟩ := ih fun hall => h (List.forall_mem_cons.mpr ⟨hj, hall⟩)
      exact ⟨j :: before, i, after, rfl, List.forall_mem_cons.mpr ⟨hj, hb⟩, hi⟩
    · exact ⟨[], j, js, rfl, nofun, hj⟩

theorem collect_congr {ι α : Type} {l : List ι} {f g : ι → Prog α} (h : ∀ i ∈ l, f i = g i) :
    Program.collect l f = Program.collect l g := by
  induction l with
  | nil => rfl
  | cons i is ih =>
    unfold Program.collect
    rw [h i List.mem_cons_self, ih fun j hj => h j (List.mem_cons_of_mem _ hj)]

/-- Rounds that return at once, with what is said about their results. -/
theorem collect_returns {ι α : Type} {l : List ι} {f : ι → Prog α} {P : ι → Prop} {Q : α → Prop}
    (h : ∀ i ∈ l, ∃ a, f i = .ret a ∧ (Q a ↔ P i)) :
    ∃ as, Program.collect l f = .ret as ∧ ((∀ a ∈ as, Q a) ↔ ∀ i ∈ l, P i) := by
  induction l with
  | nil => exact ⟨[], rfl, iff_of_true nofun nofun⟩
  | cons i is ih =>
    obtain ⟨a, ha, hQ⟩ := h i List.mem_cons_self
    obtain ⟨as, has, hall⟩ := ih fun j hj => h j (List.mem_cons_of_mem _ hj)
    refine ⟨a :: as, ?_, ?_⟩
    · unfold Program.collect
      rw [ha, has]
      rfl
    · rw [List.forall_mem_cons, List.forall_mem_cons, hQ, hall]

/-! ## NICs -/

/-- The NIC names a network or a bridge. -/
def HasTarget (nic : NetworkAttachment) : Prop := nic.name.isSome = true ∨ nic.bridge.isSome = true

section Nics

variable {nic : NetworkAttachment} {list : List NetworkAttachment}

theorem findMatchingNetwork_isOk (list : List NetworkAttachment) : (∃ o, findMatchingNetwork list nic = .ok o) ↔ HasTarget nic := by
  unfold findMatchingNetwork HasTarget
  split
  · next h => exact ⟨fun _ => .inl h, fun _ => ⟨_, rfl⟩⟩
  · next h =>
    split
    · next h' => exact ⟨fun _ => .inr h', fun _ => ⟨_, rfl⟩⟩
    · next h' => exact ⟨nofun, fun ht => (ht.elim h h').elim⟩

/-- A matching entry has the target of the NIC. -/
theorem found_target {found : NetworkAttachment} (h : findMatchingNetwork list nic = .ok (some found)) :
    (nic.name.isSome = true ∧ found.name = nic.name) ∨
      (nic.name = none ∧ nic.bridge.isSome = true ∧ found.bridge = nic.bridge) := by
  unfold findMatchingNetwork at h
  split at h
  · next hn => exact .inl ⟨hn, by simpa using List.find?_some (Except.ok.inj h)⟩
  · next hn =>
    split at h
    · next hb => exact .inr ⟨by simpa using hn, hb, by simpa using List.find?_some (Except.ok.inj h)⟩
    · cases h

/-- The entry that a NIC starts from has its target. -/
theorem startNic_target {found : Option NetworkAttachment} (hf : findMatchingNetwork list nic = .ok found) :
    (nic.name.isSome = true ∧ (startNic nic found).name = nic.name) ∨
      (nic.name = none ∧ nic.bridge.isSome = true ∧ (startNic nic found).bridge = nic.bridge) := by
  cases found with
  | some entry => exact found_target hf
  | none =>
    by_cases hn : nic.name.isSome = true
    · exact .inl ⟨hn, rfl⟩
    · rcases (findMatchingNetwork_isOk _).mp ⟨_, hf⟩ with h | h
      · exact absurd h hn
      · exact .inr ⟨by simpa using hn, h, rfl⟩

theorem retain_isOk {α : Type} {p : α → Except String Bool} {l : List α}
    (h : ∀ a ∈ l, ∃ b, p a = .ok b) : ∃ l', retain p l = .ok l' := by
  induction l with
  | nil => exact ⟨[], rfl⟩
  | cons a as ih =>
    obtain ⟨b, hb⟩ := h a List.mem_cons_self
    obtain ⟨l', hl'⟩ := ih fun a' ha' => h a' (List.mem_cons_of_mem _ ha')
    refine ⟨if b then a :: l' else l', ?_⟩
    unfold retain
    rw [hb, hl']
    rfl

variable [Crates]

theorem fillMac_isOk (vmName : String) (index : Nat) (entry : NetworkAttachment) (h : HasTarget nic) :
    ∃ entry', fillMac vmName index nic entry = .ok entry' ∧ entry'.name = entry.name ∧
      entry'.bridge = entry.bridge := by
  unfold fillMac
  split
  · exact ⟨_, rfl, rfl, rfl⟩
  · split
    · unfold generateMacAddress
      cases ht : nic.name.or nic.bridge with
      | some target => exact ⟨_, rfl, rfl, rfl⟩
      | none =>
        rw [Option.or_eq_none_iff] at ht
        rcases h with h | h
        · rw [ht.1] at h
          cases h
        · rw [ht.2] at h
          cases h
    · exact ⟨_, rfl, rfl, rfl⟩

variable {ns vmName : String} {index : Nat}

/-- What one round of the NIC loop does with a NIC that has a target. -/
theorem fillNic_of_target (h : HasTarget nic) :
    (fillNic ns vmName list nic index).Sturdy Proper ∧
      (∃ entry, (fillNic ns vmName list nic index).CanReturn Proper entry) ∧
      ∀ entry, (fillNic ns vmName list nic index).CanReturn Proper entry → HasTarget entry := by
  obtain ⟨found, hf⟩ := (findMatchingNetwork_isOk list).mpr h
  obtain ⟨entry, he, hname, hbridge⟩ := fillMac_isOk vmName index
    { startNic nic found with queues := nic.queues } h
  have htarget := startNic_target hf
  unfold fillNic
  rw [hf]
  simp only [orPanic, Program.ret_bind, he]
  cases hn : nic.name with
  | none =>
    refine ⟨trivial, ⟨entry, rfl⟩, ?_⟩
    rintro _ rfl
    rcases htarget with ⟨h₁, -⟩ | ⟨-, hb, hb'⟩
    · rw [hn] at h₁
      cases h₁
    · refine .inr ?_
      rw [hbridge]
      show (startNic nic found).bridge.isSome = true
      rw [hb']
      exact hb
  | some name =>
    have hnamed : entry.name.isSome = true := by
      rcases htarget with ⟨h₁, h₂⟩ | ⟨h₁, -⟩
      · rw [hname]
        show (startNic nic found).name.isSome = true
        rw [h₂]
        exact h₁
      · rw [hn] at h₁
        cases h₁
    -- Whatever the network is like, the entry keeps its name.
    have hovn : (fillOvnId nic entry).Sturdy Proper ∧
        (∃ e, (fillOvnId nic entry).CanReturn Proper e) ∧
        ∀ e, (fillOvnId nic entry).CanReturn Proper e → HasTarget e := by
      unfold fillOvnId
      split
      · refine ⟨trivial, ⟨_, rfl⟩, ?_⟩
        rintro _ rfl
        exact .inl hnamed
      · split
        · refine ⟨fun _ _ => trivial, ⟨_, "", trivial, rfl⟩, ?_⟩
          rintro _ ⟨id, -, rfl⟩
          exact .inl hnamed
        · refine ⟨trivial, ⟨_, rfl⟩, ?_⟩
          rintro _ rfl
          exact .inl hnamed
    dsimp only
    refine ⟨(sturdy_kubeCall _).bind fun network => ?_, ?_, fun e he => ?_⟩
    · split
      · exact hovn.1
      · exact hovn.1
      · trivial
    · let network : Network :=
        { metadata := ⟨"", "", 0, 0, [], [], [], none⟩
          spec := ⟨none, none, none, none, none⟩
          status := none }
      obtain ⟨e, he⟩ := hovn.2.1
      exact ⟨e, canReturn_bind.mpr ⟨network, ⟨.ok network, trivial, rfl⟩, he⟩⟩
    · obtain ⟨network, -, he⟩ := canReturn_bind.mp he
      split at he
      · exact hovn.2.2 e he
      · exact hovn.2.2 e he
      · obtain rfl := he
        exact .inl hnamed

theorem fillNic_of_no_target (h : ¬HasTarget nic) :
    ¬(fillNic ns vmName list nic index).Sturdy Proper := by
  intro hs
  obtain ⟨o, ho⟩ := sturdy_orPanic.mp (sturdy_bind.mp hs).1
  exact h ((findMatchingNetwork_isOk _).mp ⟨o, ho⟩)

/-- `fill_nics` panics exactly on a NIC without a name and without a bridge. -/
theorem fillNics_sturdy (vm : VirtualMachine) : (fillNics vm).Sturdy Proper ↔
    vm.status = none ∨ ∀ nic ∈ vm.spec.networks, HasTarget nic := by
  unfold fillNics tryStatus
  cases hst : vm.status with
  | none => exact ⟨fun _ => .inl rfl, fun _ => trivial⟩
  | some st =>
    show (Program.collect _ _ >>= _).Sturdy Proper ↔ _
    rw [sturdy_bind, sturdy_collect]
    constructor
    · rintro ⟨hloop, -⟩
      refine .inr ?_
      by_contra hbad
      -- The first NIC without a target is reached, since the rounds before it can return.
      obtain ⟨before, nic, after, hl, hb, hnic⟩ := exists_first hbad
      refine fillNic_of_no_target hnic (hloop before.zipIdx (nic, before.length)
        (after.zipIdx (before.length + 1)) ?_ fun j hj => ?_)
      · rw [hl, List.zipIdx_append, List.zipIdx_cons, Nat.zero_add]
      · exact (fillNic_of_target (hb j.1 (List.fst_mem_of_mem_zipIdx hj))).2.1
    · rintro (h | hall)
      · cases h
      have htarget : ∀ j ∈ vm.spec.networks.zipIdx, HasTarget j.1 := fun j hj =>
        hall j.1 (List.fst_mem_of_mem_zipIdx hj)
      refine ⟨fun before i after hl _ => ?_, fun entries he => ?_⟩
      · exact (fillNic_of_target (htarget i (hl ▸ by simp))).1
      · have hentries : ∀ entry ∈ entries, HasTarget entry := by
          intro entry hentry
          obtain ⟨j, hj, hr⟩ := mem_of_canReturn_collect he hentry
          exact (fillNic_of_target (htarget j hj)).2.2 entry hr
        have hretain : ∃ kept, retainNics vm.spec.networks entries = .ok kept := by
          refine retain_isOk fun entry hentry => ?_
          obtain ⟨o, ho⟩ := (findMatchingNetwork_isOk _).mpr (hentries entry hentry)
          exact ⟨o.isSome, by rw [ho]; rfl⟩
        refine (sturdy_orPanic.mpr hretain).bind fun kept => ?_
        exact (sturdy_onlyIf (sturdy_setStatus _ _ _)).bind fun _ => sturdy_commit _ _

end Nics

/-! ## Router attachments -/

theorem length_splitOn (c : Char) (l : List Char) : (l.splitOn c).length = l.count c + 1 := by
  induction l with
  | nil => rfl
  | cons a as ih =>
    rw [List.splitOn_cons_eq_if_modifyHead, List.count_cons]
    split
    · rw [List.length_cons, ih]
    · rw [List.length_modifyHead, ih]

theorem attachedRouter_isOk (ns name : String) :
    (∃ router, attachedRouter ns name = .ok router) ↔ name.toList.count '/' ≤ 1 := by
  have hlen : (splitChar '/' name).length = name.toList.count '/' + 1 := by
    unfold splitChar
    rw [List.length_map, length_splitOn]
  unfold attachedRouter
  match h : splitChar '/' name with
  | [] =>
    rw [h] at hlen
    cases hlen
  | [_] =>
    rw [h] at hlen
    have hlen : 1 = name.toList.count '/' + 1 := hlen
    exact ⟨fun _ => by omega, fun _ => ⟨_, rfl⟩⟩
  | [_, _] =>
    rw [h] at hlen
    have hlen : 2 = name.toList.count '/' + 1 := hlen
    exact ⟨fun _ => by omega, fun _ => ⟨_, rfl⟩⟩
  | _ :: _ :: _ :: rest =>
    rw [h] at hlen
    have hlen : rest.length + 3 = name.toList.count '/' + 1 := hlen
    exact ⟨nofun, fun hle => by omega⟩

/-- `ensure_router_attachment` panics exactly on a name with more than one slash. -/
theorem ensureRouterAttachment_sturdy (network : Network) (attachment : RouterAttachment) :
    (ensureRouterAttachment network attachment).Sturdy Proper ↔
      attachment.name.toList.count '/' ≤ 1 := by
  rw [← attachedRouter_isOk network.metadata.ns]
  constructor
  · exact fun h => sturdy_orPanic.mp (sturdy_bind.mp h).1
  · intro h
    refine (sturdy_orPanic.mpr h).bind fun router => ?_
    refine (sturdy_getByName LogicalRouter _).bind fun lr => ?_
    exact (sturdy_getByName LogicalSwitch _).bind fun ls => sturdy_connectRouterToLs _ _ _

namespace Host

/-! ## Memory -/

/-- The value of decimal digits. -/
def digitsValue (digits : List Char) : Nat :=
  digits.foldl (fun n c => 10 * n + (c.toNat - '0'.toNat)) 0

/-- The text contains digits and a unit, the digits are those of ASCII, and the number that
they mean fits in 64 bits. -/
def IsMemory (text : String) : Prop :=
  ∃ digits unit, captureMemory text.toList = some (digits, unit) ∧
    (∀ c ∈ digits, '0' ≤ c ∧ c ≤ '9') ∧ digitsValue digits < 2 ^ 64

/-- `parse_memory` panics exactly on a text that is not an amount of memory. -/
theorem parseMemory_isOk (text : String) : (∃ r, parseMemory text = .ok r) ↔ IsMemory text := by
  have hall : ∀ digits : List Char, (digits.all fun c => '0' ≤ c && c ≤ '9') = true ↔
      ∀ c ∈ digits, '0' ≤ c ∧ c ≤ '9' := by
    intro digits
    simp
  unfold parseMemory IsMemory
  cases hc : captureMemory text.toList with
  | none => exact ⟨nofun, nofun⟩
  | some m =>
    obtain ⟨digits, unit⟩ := m
    unfold parseUsize
    constructor
    · rintro ⟨r, hr⟩
      refine ⟨digits, unit, rfl, ?_⟩
      dsimp only at hr
      split at hr
      · cases hr
      · next amount ha =>
        split at ha
        · next hd =>
          split at ha
          · next hlt => exact ⟨(hall digits).mp hd, hlt⟩
          · cases ha
        · cases ha
    · rintro ⟨_, _, he, hd, hlt⟩
      cases he
      have hlt : digits.foldl (fun n c => 10 * n + (c.toNat - '0'.toNat)) 0 < 2 ^ 64 := hlt
      dsimp only
      rw [if_pos ((hall digits).mpr hd), if_pos hlt]
      exact ⟨_, rfl⟩

/-! ## Domains -/

/-- `b'a' + drive_index` -/
def checkedLetter (driveIndex : UInt8) : Except String String :=
  if 97 + driveIndex.toNat < 256 then .ok (driveLetter driveIndex)
  else .error "attempt to add with overflow"

/-- `storageTemplates` with overflow checks -/
def storageTemplatesChecked (vm : VirtualMachine) (deviceLetters bus : String) :
    Prog (List StorageTemplate) :=
  Program.collect vm.spec.volumes.zipIdx fun volume => do
    if 256 ≤ volume.2 then .abort "Volume index overflows u8"
    else
      let source ← toStorageSource volume.1 vm.metadata.ns
      let letter ← orPanic (checkedLetter (UInt8.ofNat volume.2))
      return { source := source
               device := deviceLetters ++ letter
               bootdevice := volume.2 = 0
               bus := bus }

/-- The texts that the XML of a storage device is rendered from. -/
def storageTexts (template : StorageTemplate) : List String :=
  (match template.source with
  | .ceph source => ["network", source.pool, source.image]
  | .filesystem source => ["file", source.format, source.location]) ++ [template.device, template.bus]

/-- The texts that the XML of a network interface is rendered from. -/
def interfaceTexts (template : NetworkInterfaceTemplate) : List String :=
  [template.bridge, template.mac, template.model] ++ template.ovnId.toList

/-- The texts that the XML of a domain is rendered from, besides numbers and what is fixed. -/
def domainTexts (template : DomainTemplate) : List String :=
  [template.name, template.uuid, template.machineType, template.cpu, template.memoryUnit] ++
    template.networkInterfaces.flatMap interfaceTexts ++ template.storageDevices.flatMap storageTexts

/-- `virt::domain::Domain::create_xml`, which has to make a C string of the XML. Whether the crate panics
where it can not, or returns an error, is a parameter. -/
def createXml (nulPanics : Bool) (host : String) (template : DomainTemplate) : Prog Unit :=
  if nulPanics = true ∧ ∃ text ∈ domainTexts template, ¬NulFree text then
    .abort "called `Result::unwrap()` on an `Err` value"
  else libvirtCall host (.createXml template)

/-- `createDomain` with overflow checks -/
def createDomainChecked (nulPanics : Bool) (host : String) (vm : VirtualMachine) (cluster : Cluster) :
    Prog Unit := do
  let compatible := vm.spec.compatibilityMode.getD false
  let volumes ← storageTemplatesChecked vm (if compatible then "sd" else "vd")
    (if compatible then "sata" else "virtio")
  if (← volumesLocked volumes) then .fail .volumelocked
  else
    let template ← domainTemplate vm cluster volumes (if compatible then "e1000" else "virtio")
    createXml nulPanics host template

/-- The location of the volume can be parsed. -/
def Located (volume : VolumeAttachment) : Prop :=
  ∃ location, parseStorageLocation volume.name = .ok location

/-- The recorded NIC has a MAC address, and a port or a bridge. -/
def Wired (nic : NetworkAttachment) : Prop :=
  (nic.ovnId.isSome = true ∨ nic.bridge.isSome = true) ∧ nic.macAddress.isSome = true

/-- What the template of a domain needs. -/
def Renderable (vm : VirtualMachine) : Prop :=
  ∀ st, vm.status = some st → (∀ nic ∈ st.networks, Wired nic) ∧ IsMemory vm.spec.memory ∧
    vm.spec.uuid.isSome = true

/-- The name of the image can be passed to librbd, if the volume is in Ceph. -/
def ImagePlain (ns : String) (volume : VolumeAttachment) : Prop :=
  ∀ location, parseStorageLocation volume.name = .ok (.ceph, location) → NulFree (ns ++ "-" ++ volume.name)

/-- The path of the file has no NUL, if the volume is one. -/
def FilePlain (volume : VolumeAttachment) : Prop :=
  ∀ location, parseStorageLocation volume.name = .ok (.filesystem, location) → NulFree location

/-- No text that the XML of the NIC is rendered from has a NUL. -/
structure NicPlain (nic : NetworkAttachment) : Prop where
  mac : ∀ mac ∈ nic.macAddress, NulFree mac
  port : ∀ id ∈ nic.ovnId, NulFree id
  bridge : nic.ovnId = none → ∀ bridge ∈ nic.bridge, NulFree bridge

/-- No text that the XML of the domain is rendered from has a NUL, besides the names of Ceph images. -/
structure TextsPlain (vm : VirtualMachine) (cluster : Cluster) (status : VirtualMachineStatus) : Prop where
  name : NulFree status.domainName
  uuid : ∀ uuid ∈ vm.spec.uuid, NulFree uuid
  machineType : NulFree (vm.spec.machineType.getD cluster.spec.machineType)
  cpu : NulFree (vm.spec.cpuModel.getD cluster.spec.cpu)
  nics : ∀ nic ∈ status.networks, NicPlain nic
  files : ∀ volume ∈ vm.spec.volumes, FilePlain volume

section Domains

variable {vm : VirtualMachine} {cluster : Cluster} {volume : VolumeAttachment} {ns : String}

theorem toStorageSource_isOk (volume : VolumeAttachment) (ns : String) :
    (∃ source, toStorageSource volume ns = .ok source) ↔ Located volume := by
  unfold toStorageSource Located
  cases parseStorageLocation volume.name with
  | error e => exact ⟨nofun, nofun⟩
  | ok p =>
    obtain ⟨schema, location⟩ := p
    refine ⟨fun _ => ⟨_, rfl⟩, fun _ => ?_⟩
    cases schema <;> exact ⟨_, rfl⟩

/-- One round of the volume loop. -/
def volumeRound (ns deviceLetters bus : String) (volume : VolumeAttachment × Nat) :
    Prog StorageTemplate := do
  if 256 ≤ volume.2 then .abort "Volume index overflows u8"
  else
    let source ← toStorageSource volume.1 ns
    let letter ← orPanic (checkedLetter (UInt8.ofNat volume.2))
    return { source := source
             device := deviceLetters ++ letter
             bootdevice := volume.2 = 0
             bus := bus }

theorem checkedLetter_eq {i : Nat} (h : i < 256) : checkedLetter (UInt8.ofNat i) =
    if i < 159 then .ok (driveLetter (UInt8.ofNat i)) else .error "attempt to add with overflow" := by
  have hi : (UInt8.ofNat i).toNat = i := by
    rw [UInt8.toNat_ofNat']
    exact Nat.mod_eq_of_lt h
  unfold checkedLetter
  rw [hi]
  exact if_congr ⟨fun h => by omega, fun h => by omega⟩ rfl rfl

theorem checkedLetter_isOk {i : Nat} (h : i < 256) :
    (∃ letter, checkedLetter (UInt8.ofNat i) = .ok letter) ↔ i < 159 := by
  rw [checkedLetter_eq h]
  split
  · next hi => exact iff_of_true ⟨_, rfl⟩ hi
  · next hi => exact iff_of_false nofun hi

theorem volumeRound_returns {deviceLetters bus : String} {i : Nat} :
    (∃ t, (volumeRound ns deviceLetters bus (volume, i)).CanReturn Proper t) ↔
      Located volume ∧ i < 159 := by
  unfold volumeRound
  dsimp only
  split
  · exact ⟨nofun, fun h => by omega⟩
  · next hlt =>
    rw [← toStorageSource_isOk volume ns, ← checkedLetter_isOk (by omega)]
    constructor
    · rintro ⟨t, ht⟩
      obtain ⟨source, hs, ht⟩ := canReturn_bind.mp ht
      obtain ⟨letter, hl, -⟩ := canReturn_bind.mp ht
      exact ⟨⟨source, canReturn_ofExcept.mp hs⟩, letter, canReturn_orPanic.mp hl⟩
    · rintro ⟨⟨source, hs⟩, letter, hl⟩
      exact ⟨_, canReturn_bind.mpr ⟨source, canReturn_ofExcept.mpr hs,
        canReturn_bind.mpr ⟨letter, canReturn_orPanic.mpr hl, rfl⟩⟩⟩

theorem volumeRound_sturdy {deviceLetters bus : String} {i : Nat} (h : i < 256) :
    (volumeRound ns deviceLetters bus (volume, i)).Sturdy Proper ↔ (Located volume → i < 159) := by
  unfold volumeRound
  dsimp only
  rw [if_neg (by omega), ← toStorageSource_isOk volume ns, ← checkedLetter_isOk h]
  constructor
  · rintro hs ⟨source, hsource⟩
    exact sturdy_orPanic.mp (sturdy_bind.mp ((sturdy_bind.mp hs).2 source
      (canReturn_ofExcept.mpr hsource))).1
  · intro himp
    refine sturdy_bind.mpr ⟨sturdy_ofExcept _, fun source hs => ?_⟩
    exact (sturdy_orPanic.mpr (himp ⟨source, canReturn_ofExcept.mp hs⟩)).bind fun _ => trivial

/-- The volume loop reaches its first overflow at the 160th volume. -/
theorem storageTemplatesChecked_sturdy (letters bus : String) :
    (storageTemplatesChecked vm letters bus).Sturdy Proper ↔
      (∃ v ∈ vm.spec.volumes.take 160, ¬Located v) ∨ vm.spec.volumes.length < 160 := by
  show (Program.collect vm.spec.volumes.zipIdx (volumeRound vm.metadata.ns letters bus)).Sturdy Proper ↔ _
  rw [sturdy_collect]
  constructor
  · intro h
    by_contra hbad
    obtain ⟨hnone, hlong⟩ := not_or.mp hbad
    have hloc : ∀ v ∈ vm.spec.volumes.take 160, Located v := fun v hv =>
      Classical.byContradiction fun hn => hnone ⟨v, hv, hn⟩
    have hlen : 160 ≤ vm.spec.volumes.length := Nat.not_lt.mp hlong
    have hsplit : vm.spec.volumes.zipIdx = (vm.spec.volumes.take 159).zipIdx ++
        (vm.spec.volumes[159], 159) :: (vm.spec.volumes.drop 160).zipIdx 160 := by
      have h₁ : vm.spec.volumes = vm.spec.volumes.take 159 ++
          vm.spec.volumes[159] :: vm.spec.volumes.drop 160 := by
        rw [← List.drop_eq_getElem_cons, List.take_append_drop]
      conv_lhs => rw [h₁]
      rw [List.zipIdx_append, List.zipIdx_cons, List.length_take, Nat.min_eq_left (by omega)]
    have hround := h _ _ _ hsplit fun j hj => ?_
    · rw [volumeRound_sturdy (by omega)] at hround
      refine absurd (hround (hloc _ ?_)) (by omega)
      rw [List.mem_take_iff_getElem]
      exact ⟨159, by omega, rfl⟩
    · obtain ⟨v, i⟩ := j
      have hi : i < 159 := by
        have := List.snd_lt_of_mem_zipIdx hj
        rw [List.length_take] at this
        omega
      refine volumeRound_returns.mpr ⟨hloc v ?_, hi⟩
      exact List.take_subset_take_left _ (by omega) (List.fst_mem_of_mem_zipIdx hj)
  · intro hcond before j after hl hr
    obtain ⟨l₁, l₂, hv, rfl, hl₂⟩ := List.zipIdx_eq_append_iff.mp hl
    cases l₂ with
    | nil => cases hl₂
    | cons v vs =>
      rw [List.zipIdx_cons] at hl₂
      obtain ⟨rfl, -⟩ := List.cons.inj hl₂
      have hprev : ∀ v' ∈ l₁, Located v' := by
        intro v' hv'
        obtain ⟨i, hi, rfl⟩ := List.getElem_of_mem hv'
        exact (volumeRound_returns.mp (hr (l₁[i], i) (by
          rw [List.mem_zipIdx_iff_getElem?]
          exact List.getElem?_eq_getElem hi))).1
      have hlen : l₁.length < 160 := by
        by_contra hge
        obtain ⟨-, hlt⟩ := volumeRound_returns.mp (hr (l₁[159], 159) (by
          rw [List.mem_zipIdx_iff_getElem?]
          exact List.getElem?_eq_getElem (by omega)))
        omega
      rw [Nat.zero_add, volumeRound_sturdy (by omega)]
      intro hloc
      rcases hcond with ⟨v', hv', hbad⟩ | hshort
      · -- A volume that is not located comes later, and not among the first 160.
        by_contra hge
        have h159 : l₁.length = 159 := by omega
        refine hbad ?_
        rw [hv, List.take_append, h159] at hv'
        rcases List.mem_append.mp hv' with hv' | hv'
        · exact hprev v' (List.mem_of_mem_take hv')
        · simp only [Nat.reduceSub, List.take_succ_cons, List.take_zero, List.mem_singleton] at hv'
          rw [hv']
          exact hloc
      · rw [hv, List.length_append, List.length_cons] at hshort
        omega

theorem storageTemplatesChecked_returns (letters bus : String) :
    (∃ ts, (storageTemplatesChecked vm letters bus).CanReturn Proper ts) ↔
      (∀ v ∈ vm.spec.volumes, Located v) ∧ vm.spec.volumes.length < 160 := by
  show (∃ ts, (Program.collect vm.spec.volumes.zipIdx
    (volumeRound vm.metadata.ns letters bus)).CanReturn Proper ts) ↔ _
  rw [exists_canReturn_collect]
  constructor
  · intro h
    have hround : ∀ i, ∀ hi : i < vm.spec.volumes.length, Located vm.spec.volumes[i] ∧ i < 159 := by
      intro i hi
      refine volumeRound_returns.mp (h (vm.spec.volumes[i], i) ?_)
      rw [List.mem_zipIdx_iff_getElem?]
      exact List.getElem?_eq_getElem hi
    refine ⟨fun v hv => ?_, ?_⟩
    · obtain ⟨i, hi, rfl⟩ := List.getElem_of_mem hv
      exact (hround i hi).1
    · by_contra hge
      have := (hround 159 (by omega)).2
      omega
  · rintro ⟨hloc, hlen⟩ ⟨v, i⟩ hv
    have hi := List.snd_lt_of_mem_zipIdx hv
    exact volumeRound_returns.mpr ⟨hloc v (List.fst_mem_of_mem_zipIdx hv), by omega⟩

theorem hasLocks_proper (pool image : String) : ((Ceph.hasLocks pool image).Sturdy Proper ↔ NulFree image) ∧
    (NulFree image → (Ceph.hasLocks pool image).CanReturn Proper false) := by
  have hconnect : Ceph.connect.Sturdy Proper ∧ ∃ cluster, Ceph.connect.CanReturn Proper cluster :=
    ⟨(sturdy_cephCall _ _).bind fun c => (sturdy_cephCall _ _).bind fun _ =>
      (sturdy_cephCall _ _).bind fun _ => (sturdy_cephCall _ _).bind fun _ => trivial,
      0, .ok 0, trivial, .ok (), trivial, .ok (), trivial, .ok (), trivial, rfl⟩
  obtain ⟨hsturdy, cluster, hcluster⟩ := hconnect
  have hpool : (Ceph.getPool cluster pool).CanReturn Proper 0 :=
    canReturn_cephCall (r := .radosIoctxCreate cluster pool) (0 : Nat)
  have hlockers : ∀ i, ((do
      let lockers ← cephCall "rbd_list_lockers" (.rbdListLockers i)
      if lockers.code = 0 then return false
      else if lockers.code = Ceph.negErange then
        return 0 < lockers.clientsLen || 0 < lockers.cookiesLen || 0 < lockers.addrsLen
      else .fail (.rados "rbd_list_lockers" lockers.code) : Prog Bool)).Sturdy Proper := by
    refine fun i => (sturdy_cephCall _ _).bind fun lockers => ?_
    split
    · trivial
    · split <;> trivial
  refine ⟨⟨fun h => ?_, fun h => hsturdy.bind fun c => (sturdy_cephCall _ _).bind fun p => ?_⟩, fun h => ?_⟩
  · -- The image is opened where the calls before it succeed.
    have hpool := (sturdy_bind.mp ((sturdy_bind.mp h).2 cluster hcluster)).2 0 hpool
    exact sturdy_cStringNew.mp (sturdy_bind.mp (sturdy_bind.mp hpool).1).1
  · exact (sturdy_bind.mpr ⟨sturdy_cStringNew.mpr h, fun _ _ => sturdy_cephCall _ _⟩).bind hlockers
  · refine canReturn_bind.mpr ⟨cluster, hcluster, canReturn_bind.mpr ⟨0, hpool, ?_⟩⟩
    unfold Ceph.hasLocksInPool Ceph.openImage
    rw [cStringNew_of_nulFree h, Program.ret_bind]
    -- Ceph answers that nobody holds a lock.
    exact ⟨.ok 0, trivial, .ok ⟨0, 0, 0, 0⟩, trivial, rfl⟩

/-- The names of all Ceph images of the devices can be passed to librbd. -/
def ImagesPlain (volumes : List StorageTemplate) : Prop :=
  ∀ volume ∈ volumes, ∀ source, volume.source = .ceph source → NulFree source.image

theorem volumesLocked_proper (volumes : List StorageTemplate) :
    ((volumesLocked volumes).Sturdy Proper ↔ ImagesPlain volumes) ∧
      (ImagesPlain volumes → (volumesLocked volumes).CanReturn Proper false) := by
  induction volumes with
  | nil => exact ⟨iff_of_true trivial nofun, fun _ => rfl⟩
  | cons volume volumes ih =>
    have hcons : ImagesPlain (volume :: volumes) ↔
        (∀ source, volume.source = .ceph source → NulFree source.image) ∧ ImagesPlain volumes :=
      List.forall_mem_cons
    rw [hcons]
    unfold volumesLocked
    split
    · next source hsource =>
      obtain ⟨hs, hr⟩ := hasLocks_proper source.pool source.image
      have himage : (∀ source', volume.source = .ceph source' → NulFree source'.image) ↔ NulFree source.image := by
        rw [hsource]
        exact ⟨fun h => h source rfl, fun h _ heq => StorageSource.ceph.inj heq ▸ h⟩
      rw [himage]
      refine ⟨⟨fun h => ?_, fun h => (hs.mpr h.1).bind fun locked => ?_⟩, fun h =>
        canReturn_bind.mpr ⟨false, hr h.1, ih.2 h.2⟩⟩
      · obtain ⟨hlocks, hrest⟩ := sturdy_bind.mp h
        have hplain := hs.mp hlocks
        exact ⟨hplain, ih.1.mp (hrest false (hr hplain))⟩
      · split
        · trivial
        · exact ih.1.mpr h.2
    · next file hsource =>
      have hnone : ∀ source, volume.source = .ceph source → NulFree source.image := by
        rw [hsource]
        nofun
      exact ⟨ih.1.trans (iff_and_self.mpr fun _ => hnone), fun h => ih.2 h.2⟩

theorem interfaceTemplate_sturdy (model : String) (nic : NetworkAttachment) :
    ((interfaceTemplate model nic).Sturdy Proper ↔ Wired nic) ∧
      (Wired nic → ∃ t, (interfaceTemplate model nic).CanReturn Proper t) := by
  unfold interfaceTemplate bridgeOf Wired
  cases nic.ovnId with
  | some id =>
    cases nic.macAddress with
    | some mac => exact ⟨⟨fun _ => ⟨.inl rfl, rfl⟩, fun _ => trivial⟩, fun _ => ⟨_, rfl⟩⟩
    | none => exact ⟨⟨False.elim, fun h => nomatch h.2⟩, fun h => nomatch h.2⟩
  | none =>
    cases nic.bridge with
    | none => exact ⟨⟨False.elim, fun h => by simp at h⟩, fun h => by simp at h⟩
    | some bridge =>
      cases nic.macAddress with
      | some mac => exact ⟨⟨fun _ => ⟨.inr rfl, rfl⟩, fun _ => trivial⟩, fun _ => ⟨_, rfl⟩⟩
      | none => exact ⟨⟨False.elim, fun h => nomatch h.2⟩, fun h => nomatch h.2⟩

theorem domainTemplate_sturdy (volumes : List StorageTemplate) (model : String) :
    (domainTemplate vm cluster volumes model).Sturdy Proper ↔ Renderable vm := by
  unfold domainTemplate tryStatus Renderable getDomainName
  cases hst : vm.status with
  | none => exact ⟨fun _ => nofun, fun _ => trivial⟩
  | some st =>
    show (Program.collect st.networks (interfaceTemplate model) >>= _).Sturdy Proper ↔ _
    have hloop : (Program.collect st.networks (interfaceTemplate model)).Sturdy Proper ↔
        ∀ nic ∈ st.networks, Wired nic := by
      rw [sturdy_collect]
      constructor
      · intro h
        by_contra hbad
        obtain ⟨before, nic, after, hl, hb, hnic⟩ := exists_first hbad
        refine hnic ((interfaceTemplate_sturdy model nic).1.mp (h before nic after hl fun j hj => ?_))
        exact (interfaceTemplate_sturdy model j).2 (hb j hj)
      · intro h before nic after hl _
        exact (interfaceTemplate_sturdy model nic).1.mpr (h nic (hl ▸ by simp))
    rw [sturdy_bind, hloop]
    constructor
    · rintro ⟨hnics, hrest⟩ _ he
      cases he
      obtain ⟨nics, hn⟩ := exists_canReturn_collect.mpr fun nic hnic =>
        (interfaceTemplate_sturdy model nic).2 (hnics nic hnic)
      obtain ⟨hmem, hrest⟩ := sturdy_bind.mp (hrest nics hn)
      obtain ⟨memory, hmemory⟩ := sturdy_orPanic.mp hmem
      have hname := (sturdy_bind.mp (hrest memory (canReturn_orPanic.mpr hmemory))).2 st.domainName rfl
      have huuid := sturdy_expect.mp (sturdy_bind.mp hname).1
      exact ⟨hnics, (parseMemory_isOk _).mp ⟨memory, hmemory⟩, huuid⟩
    · intro h
      obtain ⟨hnics, hmem, huuid⟩ := h st rfl
      refine ⟨hnics, fun nics _ => ?_⟩
      refine (sturdy_orPanic.mpr ((parseMemory_isOk _).mpr hmem)).bind fun memory => ?_
      exact (sturdy_expect.mpr huuid).bind fun uuid => trivial

/-! ### Texts -/

theorem captureMemory_letters {text digits unit : List Char} (h : captureMemory text = some (digits, unit)) :
    ∀ c ∈ unit, isLetter c = true := by
  induction text with
  | nil => cases h
  | cons c cs ih =>
    unfold captureMemory at h
    dsimp only at h
    split at h
    · cases h
      exact fun c hc => List.mem_takeWhile_imp hc
    · exact ih h

/-- A unit has letters only. -/
theorem parseMemory_unit {text unit : String} {amount : UInt64} (h : parseMemory text = .ok (amount, unit)) :
    NulFree unit := by
  unfold parseMemory at h
  split at h
  · cases h
  · next digits letters hcapture =>
    split at h
    · cases h
    · cases h
      rw [nulFree_iff, String.toList_ofList]
      intro hnul
      exact absurd (captureMemory_letters hcapture _ hnul) (by decide)

theorem nulFree_driveLetter {i : Nat} (h : i < 159) : NulFree (driveLetter (UInt8.ofNat i)) := by
  have hall : ∀ i < 159, '\x00' ∉ (driveLetter (UInt8.ofNat i)).toList := by decide +kernel
  exact nulFree_iff.mpr (hall i h)

theorem storageSource_plain {source : StorageSource} (h : toStorageSource volume ns = .ok source) :
    ((∀ ceph, source = .ceph ceph → NulFree ceph.image) ↔ ImagePlain ns volume) ∧
      ((∀ text ∈ (match source with
        | .ceph source => ["network", source.pool, source.image]
        | .filesystem source => ["file", source.format, source.location]), NulFree text) ↔
        ImagePlain ns volume ∧ FilePlain volume) := by
  unfold toStorageSource at h
  unfold ImagePlain FilePlain
  cases hparse : parseStorageLocation volume.name with
  | error e =>
    rw [hparse] at h
    cases h
  | ok parsed =>
    obtain ⟨schema, location⟩ := parsed
    rw [hparse] at h
    cases schema with
    | ceph =>
      cases h
      have hconst : NulFree "network" ∧ NulFree "volumes" := by decide +kernel
      constructor
      · exact ⟨fun h _ _ => h _ rfl, fun h _ heq => StorageSource.ceph.inj heq ▸ h location rfl⟩
      · simp only [List.forall_mem_cons, List.not_mem_nil, false_imp_iff, implies_true, and_true]
        exact ⟨fun h => ⟨fun _ _ => h.2.2, fun _ heq => nomatch heq⟩, fun h => ⟨hconst.1, hconst.2, h.1 location rfl⟩⟩
    | filesystem =>
      cases h
      have hconst : NulFree "file" ∧ NulFree "qcow2" ∧ NulFree "raw" := by decide +kernel
      have hformat : NulFree (if endsWith location ".qcow2" then "qcow2" else "raw") := by
        split
        · exact hconst.2.1
        · exact hconst.2.2
      constructor
      · exact iff_of_true (fun _ heq => nomatch heq) fun _ heq => nomatch heq
      · simp only [List.forall_mem_cons, List.not_mem_nil, false_imp_iff, implies_true, and_true]
        refine ⟨fun h => ⟨fun _ heq => (nomatch heq), fun _ heq => ?_⟩, fun h => ⟨hconst.1, hformat, h.2 location rfl⟩⟩
        cases heq
        exact h.2.2

/-- A round that the volume loop gets through. -/
theorem volumeRound_texts (ns : String) {deviceLetters bus : String} {i : Nat} (hletters : NulFree deviceLetters)
    (hbus : NulFree bus) (hloc : Located volume) (hi : i < 159) :
    ∃ t, volumeRound ns deviceLetters bus (volume, i) = .ret t ∧
      ((∀ source, t.source = .ceph source → NulFree source.image) ↔ ImagePlain ns volume) ∧
      ((∀ text ∈ storageTexts t, NulFree text) ↔ ImagePlain ns volume ∧ FilePlain volume) := by
  obtain ⟨source, hsource⟩ := (toStorageSource_isOk volume ns).mpr hloc
  have hletter : checkedLetter (UInt8.ofNat i) = .ok (driveLetter (UInt8.ofNat i)) :=
    (checkedLetter_eq (by omega)).trans (if_pos hi)
  obtain ⟨himage, htexts⟩ := storageSource_plain hsource
  refine ⟨⟨source, deviceLetters ++ driveLetter (UInt8.ofNat i), i = 0, bus⟩, ?_, himage, ?_⟩
  · unfold volumeRound
    dsimp only
    rw [if_neg (by omega), hsource, hletter]
    rfl
  · have hdevice : NulFree (deviceLetters ++ driveLetter (UInt8.ofNat i)) :=
      nulFree_append.mpr ⟨hletters, nulFree_driveLetter hi⟩
    unfold storageTexts
    rw [List.forall_mem_append, htexts]
    simp only [List.forall_mem_cons, List.not_mem_nil, false_imp_iff, implies_true, and_true, hdevice, hbus]

/-- The devices of volumes that are all found. -/
theorem storageTemplatesChecked_texts {letters bus : String} (hletters : NulFree letters) (hbus : NulFree bus)
    (hloc : ∀ v ∈ vm.spec.volumes, Located v) (hlen : vm.spec.volumes.length < 160) :
    ∃ ts, storageTemplatesChecked vm letters bus = .ret ts ∧
      (ImagesPlain ts ↔ ∀ v ∈ vm.spec.volumes, ImagePlain vm.metadata.ns v) ∧
      ((∀ t ∈ ts, ∀ text ∈ storageTexts t, NulFree text) ↔
        ∀ v ∈ vm.spec.volumes, ImagePlain vm.metadata.ns v ∧ FilePlain v) := by
  have hround : ∀ volume ∈ vm.spec.volumes.zipIdx, Located volume.1 ∧ volume.2 < 159 := by
    rintro ⟨v, i⟩ hv
    have hi := List.snd_lt_of_mem_zipIdx hv
    exact ⟨hloc v (List.fst_mem_of_mem_zipIdx hv), by omega⟩
  have hzip : ∀ P : VolumeAttachment → Prop, (∀ volume ∈ vm.spec.volumes.zipIdx, P volume.1) ↔
      ∀ v ∈ vm.spec.volumes, P v := by
    intro P
    rw [← List.forall_mem_map (P := P) (f := Prod.fst), List.zipIdx_map_fst]
  obtain ⟨ts, hts, himages⟩ := collect_returns (f := volumeRound vm.metadata.ns letters bus)
    (Q := fun t => ∀ source, t.source = .ceph source → NulFree source.image)
    (P := fun volume => ImagePlain vm.metadata.ns volume.1) fun volume hv => by
      obtain ⟨hlocated, hi⟩ := hround volume hv
      obtain ⟨t, ht, himage, -⟩ := volumeRound_texts vm.metadata.ns hletters hbus hlocated hi
      exact ⟨t, ht, himage⟩
  obtain ⟨ts', hts', htexts⟩ := collect_returns (f := volumeRound vm.metadata.ns letters bus)
    (Q := fun t => ∀ text ∈ storageTexts t, NulFree text)
    (P := fun volume => ImagePlain vm.metadata.ns volume.1 ∧ FilePlain volume.1) fun volume hv => by
      obtain ⟨hlocated, hi⟩ := hround volume hv
      obtain ⟨t, ht, -, htexts⟩ := volumeRound_texts vm.metadata.ns hletters hbus hlocated hi
      exact ⟨t, ht, htexts⟩
  obtain rfl : ts = ts' := Program.ret.inj (hts.symm.trans hts')
  exact ⟨ts, hts, himages.trans (hzip _), htexts.trans (hzip fun v => ImagePlain vm.metadata.ns v ∧ FilePlain v)⟩

theorem interfaceTemplate_texts {model : String} {nic : NetworkAttachment} (hmodel : NulFree model)
    (h : Wired nic) : ∃ t, interfaceTemplate model nic = .ret t ∧
      ((∀ text ∈ interfaceTexts t, NulFree text) ↔ NicPlain nic) := by
  obtain ⟨hport, hmac⟩ := h
  obtain ⟨mac, hmac⟩ := Option.isSome_iff_exists.mp hmac
  unfold interfaceTemplate bridgeOf
  rw [hmac]
  cases hid : nic.ovnId with
  | some id =>
    have hbridge : NulFree "br-int" := by decide +kernel
    refine ⟨_, rfl, ?_⟩
    simp only [interfaceTexts, Option.toList_some, List.forall_mem_append, List.forall_mem_cons,
      List.not_mem_nil, false_imp_iff, implies_true, and_true, hbridge, hmodel, true_and]
    refine ⟨fun h => ⟨fun m hm => ?_, fun i hi => ?_, fun hnone => (nomatch hid.symm.trans hnone)⟩, fun h =>
      ⟨h.mac mac hmac, h.port id hid⟩⟩
    · obtain rfl := Option.some.inj (hmac.symm.trans hm)
      exact h.1
    · obtain rfl := Option.some.inj (hid.symm.trans hi)
      exact h.2
  | none =>
    obtain ⟨bridge, hb⟩ := Option.isSome_iff_exists.mp (hport.resolve_left (by rw [hid]; simp))
    rw [hb]
    refine ⟨_, rfl, ?_⟩
    simp only [interfaceTexts, Option.toList_none, List.append_nil, List.forall_mem_cons,
      List.not_mem_nil, false_imp_iff, implies_true, and_true, hmodel]
    refine ⟨fun h => ⟨fun m hm => ?_, fun i hi => (nomatch hid.symm.trans hi), fun _ b hb' => ?_⟩, fun h =>
      ⟨h.bridge hid bridge hb, h.mac mac hmac⟩⟩
    · obtain rfl := Option.some.inj (hmac.symm.trans hm)
      exact h.2
    · obtain rfl := Option.some.inj (hb.symm.trans hb')
      exact h.1

/-- A template that has all that it needs. -/
theorem domainTemplate_texts (cluster : Cluster) {volumes : List StorageTemplate} {model : String}
    {st : VirtualMachineStatus} (hst : vm.status = some st) (hmodel : NulFree model) (h : Renderable vm)
    (hvolumes : (∀ t ∈ volumes, ∀ text ∈ storageTexts t, NulFree text) ↔ ∀ v ∈ vm.spec.volumes, FilePlain v) :
    ∃ t, domainTemplate vm cluster volumes model = .ret t ∧
      ((∀ text ∈ domainTexts t, NulFree text) ↔ TextsPlain vm cluster st) := by
  obtain ⟨hnics, hmemory, huuid⟩ := h st hst
  obtain ⟨uuid, huuid⟩ := Option.isSome_iff_exists.mp huuid
  obtain ⟨⟨amount, unit⟩, hparse⟩ := (parseMemory_isOk _).mpr hmemory
  obtain ⟨nics, hn, htexts⟩ := collect_returns (f := interfaceTemplate model) fun nic hnic =>
    interfaceTemplate_texts hmodel (hnics nic hnic)
  have hunit := parseMemory_unit hparse
  unfold domainTemplate tryStatus getDomainName
  rw [hst]
  show ∃ t, (Program.collect st.networks (interfaceTemplate model) >>= _) = Program.ret t ∧ _
  rw [hn, hparse, huuid]
  refine ⟨_, rfl, ?_⟩
  simp only [domainTexts, List.forall_mem_append, List.forall_mem_flatMap, List.forall_mem_cons, List.not_mem_nil,
    false_imp_iff, implies_true, and_true, hunit, htexts, hvolumes]
  constructor
  · rintro ⟨⟨⟨hname, hid, hmachine, hcpu⟩, hnics⟩, hfiles⟩
    exact ⟨hname, fun _ he => Option.some.inj (huuid.symm.trans he) ▸ hid, hmachine, hcpu, hnics, hfiles⟩
  · intro h
    exact ⟨⟨⟨h.name, h.uuid uuid huuid, h.machineType, h.cpu⟩, h.nics⟩, h.files⟩

theorem createXml_sturdy {nulPanics : Bool} {host : String} {t : DomainTemplate} :
    (createXml nulPanics host t).Sturdy Proper ↔ (nulPanics = true → ∀ text ∈ domainTexts t, NulFree text) := by
  unfold createXml
  split
  · next h =>
    obtain ⟨hpanics, text, htext, hnul⟩ := h
    exact ⟨False.elim, fun hall => hnul (hall hpanics text htext)⟩
  · next h =>
    refine iff_of_true (sturdy_libvirtCall _ _) fun hpanics text htext => ?_
    exact Classical.byContradiction fun hnul => h ⟨hpanics, text, htext, hnul⟩

/-- `create_domain` panics exactly if the 160th volume is reached, or if all volumes are found and the name
of a Ceph image has a NUL, or the template lacks something, or the crate panics on a NUL in its texts. -/
theorem createDomainChecked_sturdy (nulPanics : Bool) (host : String) (vm : VirtualMachine) (cluster : Cluster) :
    (createDomainChecked nulPanics host vm cluster).Sturdy Proper ↔
      (∃ v ∈ vm.spec.volumes.take 160, ¬Located v) ∨
        (vm.spec.volumes.length < 160 ∧ (∀ v ∈ vm.spec.volumes, ImagePlain vm.metadata.ns v) ∧ Renderable vm ∧
          (nulPanics = true → ∀ st, vm.status = some st → TextsPlain vm cluster st)) := by
  have hletters : NulFree (if vm.spec.compatibilityMode.getD false then "sd" else "vd") := by
    split <;> decide +kernel
  have hbus : NulFree (if vm.spec.compatibilityMode.getD false then "sata" else "virtio") := by
    split <;> decide +kernel
  have hmodel : NulFree (if vm.spec.compatibilityMode.getD false then "e1000" else "virtio") := by
    split <;> decide +kernel
  by_cases hbad : ∃ v ∈ vm.spec.volumes.take 160, ¬Located v
  · -- The loop ends with an error.
    refine iff_of_true (sturdy_bind.mpr ⟨(storageTemplatesChecked_sturdy _ _).mpr (.inl hbad), fun ts hts => ?_⟩)
      (.inl hbad)
    obtain ⟨v, hv, hn⟩ := hbad
    exact absurd (((storageTemplatesChecked_returns _ _).mp ⟨ts, hts⟩).1 v (List.mem_of_mem_take hv)) hn
  rw [or_iff_right hbad]
  by_cases hlen : vm.spec.volumes.length < 160
  swap
  · refine iff_of_false (fun h => ?_) fun h => hlen h.1
    exact hlen (((storageTemplatesChecked_sturdy _ _).mp (sturdy_bind.mp h).1).resolve_left hbad)
  have hloc : ∀ v ∈ vm.spec.volumes, Located v := by
    rw [List.take_of_length_le (by omega)] at hbad
    exact fun v hv => Classical.byContradiction fun hn => hbad ⟨v, hv, hn⟩
  obtain ⟨ts, hts, himages, htexts⟩ := storageTemplatesChecked_texts hletters hbus hloc hlen
  obtain ⟨hlocked, hfree⟩ := volumesLocked_proper ts
  unfold createDomainChecked
  dsimp only
  rw [hts, Program.ret_bind, sturdy_bind, hlocked, himages, and_iff_right hlen]
  refine and_congr_right fun hplain => ?_
  have hfiles : (∀ t ∈ ts, ∀ text ∈ storageTexts t, NulFree text) ↔ ∀ v ∈ vm.spec.volumes, FilePlain v :=
    htexts.trans ⟨fun h v hv => (h v hv).2, fun h v hv => ⟨hplain v hv, h v hv⟩⟩
  constructor
  · intro h
    obtain ⟨htemplate, hxml⟩ := sturdy_bind.mp (h false (hfree (himages.mpr hplain)))
    have hrender := (domainTemplate_sturdy _ _).mp htemplate
    refine ⟨hrender, fun hpanics st hst => ?_⟩
    obtain ⟨t, ht, hplain⟩ := domainTemplate_texts cluster hst hmodel hrender hfiles
    exact hplain.mp (createXml_sturdy.mp (hxml t (by rw [ht]; rfl)) hpanics)
  · rintro ⟨hrender, htextsPlain⟩ locked -
    split
    · trivial
    refine sturdy_bind.mpr ⟨(domainTemplate_sturdy _ _).mpr hrender, fun t ht => ?_⟩
    refine createXml_sturdy.mpr fun hpanics => ?_
    cases hst : vm.status with
    | none =>
      unfold domainTemplate tryStatus at ht
      rw [hst] at ht
      exact ht.elim
    | some st =>
      obtain ⟨t', ht', hplain⟩ := domainTemplate_texts cluster hst hmodel hrender hfiles
      rw [ht'] at ht
      obtain rfl : t' = t := ht
      exact hplain.mpr (htextsPlain hpanics st hst)

/-- Without an overflow and without a panic of the crate the two builds do the same. -/
theorem createDomainChecked_eq (host : String) (cluster : Cluster)
    (h : vm.spec.volumes.length < 160) :
    createDomainChecked false host vm cluster = createDomain host vm cluster := by
  have hround : ∀ letters bus, storageTemplatesChecked vm letters bus = storageTemplates vm letters bus := by
    intro letters bus
    refine collect_congr fun volume hvolume => ?_
    have hi := List.snd_lt_of_mem_zipIdx hvolume
    have hletter : checkedLetter (UInt8.ofNat volume.2) = .ok (driveLetter (UInt8.ofNat volume.2)) :=
      (checkedLetter_eq (by omega)).trans (if_pos (by omega))
    rw [hletter]
    rfl
  have hxml : ∀ template, createXml false host template = libvirtCall host (.createXml template) :=
    fun template => if_neg fun h => nomatch h.1
  unfold createDomainChecked createDomain
  simp only [hround, hxml]

end Domains

end Host

/-! ## All of them -/

attribute [local instance] plainCrates

/-- A VM with one NIC that is left empty, and with memory in bytes. -/
def emptyNicVm : VirtualMachine where
  metadata := ⟨"n", "x", 1, 1, [], [], [], none⟩
  spec := { plainSpec with networks := [.default], memory := "4294967296" }
  status := some (initialStatus "n-x")

end ClusterController
