import ClusterController.Panics

/-!
# The names of the disks

`create_domain` names the disks of a domain by letters, which it computes from the index of the
volume in bytes. The loop is that of the source: what it has pushed decides which disk is booted
from. A release build wraps the addition around, one with overflow checks panics.
-/

namespace ClusterController

open Interaction (Program)
open Interaction.Program (bind_eq_ret bind_eq_fail collect_eq_ret exists_collect_eq_ret
  collect_eq_fail)

namespace Host

/-- The builds of the controller. -/
inductive Build : Type
  | release
  | checked

namespace Build

/-- `(b'a' + drive_index) as char` -/
def letter : Build → UInt8 → Except String String
  | .release, driveIndex => .ok (driveLetter driveIndex)
  | .checked, driveIndex => checkedLetter driveIndex

/-- How many volumes have their location read, at most. -/
def reach : Build → Nat
  | .release => 256
  | .checked => 160

end Build

/-- The loop of `create_domain` over the volumes. The last argument is what it has pushed. -/
def pushTemplates (build : Build) (ns storageDevicePrefix storageBus : String) :
    List (VolumeAttachment × Nat) → List StorageTemplate → Prog (List StorageTemplate)
  | [], volumes => return volumes
  | (volume, index) :: rest, volumes => do
    if 256 ≤ index then .abort "Volume index overflows u8"
    else
      let source ← toStorageSource volume ns
      let letter ← orPanic (build.letter (UInt8.ofNat index))
      pushTemplates build ns storageDevicePrefix storageBus rest (volumes ++
        [{ source := source
           device := storageDevicePrefix ++ letter
           bootdevice := volumes.isEmpty
           bus := storageBus }])

/-- The storage templates of a domain. -/
def domainStorage (build : Build) (vm : VirtualMachine) : Prog (List StorageTemplate) :=
  if vm.spec.compatibilityMode.getD false then
    pushTemplates build vm.metadata.ns "sd" "sata" vm.spec.volumes.zipIdx []
  else pushTemplates build vm.metadata.ns "vd" "virtio" vm.spec.volumes.zipIdx []

/-- How the names of a bus start. -/
def busLetters (vm : VirtualMachine) : String :=
  if vm.spec.compatibilityMode.getD false then "sd" else "vd"

/-- The devices of the volumes of a VM can be used: they are in the order of the volumes, their
names differ and increase, each is the start of its bus and lower-case letters, the first
one alone is booted from, and no index was too large for its byte. -/
structure UsableDevices (vm : VirtualMachine) (templates : List StorageTemplate) : Prop where
  sources : List.Forall₂ (fun volume template =>
    toStorageSource volume vm.metadata.ns = .ok template.source) vm.spec.volumes templates
  distinct : (templates.map StorageTemplate.device).Nodup
  increasing : (templates.map StorageTemplate.device).Pairwise (· < ·)
  named : ∀ template ∈ templates, ∃ letters : String, template.device = busLetters vm ++ letters ∧
    letters ≠ "" ∧ ∀ c ∈ letters.toList, 'a' ≤ c ∧ c ≤ 'z'
  boot : ∀ i, ∀ hi : i < templates.length, templates[i].bootdevice = true ↔ i = 0
  fits : ∀ i < templates.length, 'a'.toNat + i < 2 ^ 8

/-- The volumes get devices that can be used, or an error. -/
def DevicesUsable (vm : VirtualMachine) (p : Prog (List StorageTemplate)) : Prop :=
  (∃ templates, p = .ret templates ∧ UsableDevices vm templates) ∨ ∃ e, p = .fail e

section Loop

variable {build : Build} {vm : VirtualMachine} {volume : VolumeAttachment} {ns letters bus : String}
  {index : Nat}

/-! ## One round -/

/-- The device of a volume. -/
def templateAt (letters bus : String) (source : StorageSource) (index : Nat) : StorageTemplate where
  source := source
  device := letters ++ driveLetter (UInt8.ofNat index)
  bootdevice := index = 0
  bus := bus

/-- The round of the loop for one volume. -/
def templateRound (build : Build) (ns letters bus : String) (volume : VolumeAttachment × Nat) :
    Prog StorageTemplate := do
  if 256 ≤ volume.2 then .abort "Volume index overflows u8"
  else
    let source ← toStorageSource volume.1 ns
    let letter ← orPanic (build.letter (UInt8.ofNat volume.2))
    return { source := source
             device := letters ++ letter
             bootdevice := volume.2 = 0
             bus := bus }

/-- What has been pushed counts the rounds. -/
theorem pushTemplates_eq (volumes : List VolumeAttachment) (pushed : List StorageTemplate) :
    pushTemplates build ns letters bus (volumes.zipIdx pushed.length) pushed =
      Program.collect (volumes.zipIdx pushed.length) (templateRound build ns letters bus) >>=
        fun templates => .ret (pushed ++ templates) := by
  induction volumes generalizing pushed with
  | nil =>
    show Program.ret pushed = .ret (pushed ++ [])
    rw [List.append_nil]
  | cons volume volumes ih =>
    have hempty : pushed.isEmpty = decide (pushed.length = 0) := by
      cases pushed <;> simp
    rw [List.zipIdx_cons, pushTemplates, Program.collect, templateRound]
    dsimp only
    split
    · rfl
    · cases toStorageSource volume ns with
      | error e => rfl
      | ok source =>
        cases build.letter (UInt8.ofNat pushed.length) with
        | error m => rfl
        | ok letter =>
          have hstep := ih (pushed ++ [⟨source, letters ++ letter, pushed.isEmpty, bus⟩])
          rw [List.length_append, List.length_singleton] at hstep
          refine hstep.trans ?_
          rw [hempty]
          show _ = (Program.collect _ _ >>= fun as => .ret (_ :: as)) >>= _
          rw [Program.bind_assoc']
          simp only [List.append_assoc, List.singleton_append]
          rfl

theorem pushTemplates_nil (volumes : List VolumeAttachment) :
    pushTemplates build ns letters bus volumes.zipIdx [] =
      Program.collect volumes.zipIdx (templateRound build ns letters bus) :=
  (pushTemplates_eq volumes []).trans (Program.bind_ret _)

theorem Build.letter_of_lt (h : index + 1 < build.reach) :
    build.letter (UInt8.ofNat index) = .ok (driveLetter (UInt8.ofNat index)) := by
  cases build with
  | release => rfl
  | checked =>
    have h : index + 1 < 160 := h
    show checkedLetter _ = _
    unfold checkedLetter
    rw [UInt8.toNat_ofNat', if_pos (by omega)]

theorem Build.letter_eq_ok {driveIndex : UInt8} {letter : String}
    (h : build.letter driveIndex = .ok letter) : letter = driveLetter driveIndex := by
  cases build with
  | release => exact (Except.ok.inj h).symm
  | checked =>
    replace h : checkedLetter driveIndex = .ok letter := h
    unfold checkedLetter at h
    split at h
    · exact (Except.ok.inj h).symm
    · cases h

/-- No build gets a byte that it cannot reach. -/
theorem Build.lt_reach {letter : String} (hi : index < 256)
    (h : build.letter (UInt8.ofNat (build.reach - 1)) = .ok letter) : index < build.reach := by
  cases build with
  | release => exact hi
  | checked => cases h

theorem Build.reach_le (build : Build) : 27 < build.reach ∧ build.reach ≤ 256 := by
  cases build <;> decide

theorem ofExcept_eq_ret {α : Type} {x : Except Error α} {a : α} :
    (Program.ofExcept x : Prog α) = .ret a ↔ x = .ok a := by
  cases x with
  | ok b => exact ⟨fun h => congrArg _ (Program.ret.inj h), fun h => congrArg _ (Except.ok.inj h)⟩
  | error e => simp

theorem orPanic_eq_ret {α : Type} {x : Except String α} {a : α} :
    orPanic x = .ret a ↔ x = .ok a := by
  cases x with
  | ok b => exact ⟨fun h => congrArg _ (Program.ret.inj h), fun h => congrArg _ (Except.ok.inj h)⟩
  | error m => simp [orPanic]

theorem templateRound_eq_ret {template : StorageTemplate} :
    templateRound build ns letters bus (volume, index) = .ret template ↔ index < 256 ∧
      ∃ source letter, toStorageSource volume ns = .ok source ∧
        build.letter (UInt8.ofNat index) = .ok letter ∧
        template = templateAt letters bus source index := by
  unfold templateRound
  dsimp only
  split
  · next h =>
    constructor
    · intro hr
      cases hr
    · rintro ⟨hlt, -⟩
      omega
  · next h =>
    rw [bind_eq_ret]
    constructor
    · rintro ⟨source, hsource, hr⟩
      obtain ⟨letter, hletter, hr⟩ := bind_eq_ret.mp hr
      have hletter := orPanic_eq_ret.mp hletter
      cases hr
      refine ⟨by omega, source, letter, ofExcept_eq_ret.mp hsource, hletter, ?_⟩
      rw [Build.letter_eq_ok hletter]
      rfl
    · rintro ⟨-, source, letter, hsource, hletter, rfl⟩
      refine ⟨source, ofExcept_eq_ret.mpr hsource, ?_⟩
      rw [hletter, Build.letter_eq_ok hletter]
      rfl

theorem templateRound_eq_fail : (∃ e, templateRound build ns letters bus (volume, index) = .fail e) ↔
    index < 256 ∧ ¬Located volume := by
  rw [← toStorageSource_isOk volume ns]
  unfold templateRound
  dsimp only
  split
  · next h =>
    refine ⟨?_, fun hr => absurd hr.1 (by omega)⟩
    rintro ⟨e, he⟩
    cases he
  · next h =>
    cases hs : toStorageSource volume ns with
    | error e =>
      refine ⟨fun _ => ⟨by omega, ?_⟩, fun _ => ⟨e, rfl⟩⟩
      rintro ⟨source, hsource⟩
      cases hsource
    | ok source =>
      refine ⟨?_, fun hr => absurd ⟨source, rfl⟩ hr.2⟩
      rintro ⟨e, he⟩
      cases hl : build.letter (UInt8.ofNat index) <;> rw [hl] at he <;> cases he

/-! ## The letters -/

theorem toList_driveLetter (h : index < 159) :
    (driveLetter (UInt8.ofNat index)).toList = [Char.ofNat ('a'.toNat + index)] := by
  have hbyte : (97 + UInt8.ofNat index).toNat = 97 + index := by
    rw [UInt8.toNat_add, UInt8.toNat_ofNat']
    show (97 + index % 2 ^ 8) % 2 ^ 8 = 97 + index
    omega
  unfold driveLetter
  rw [hbyte, String.toList_singleton]
  rfl

theorem toNat_ofNat_letter (h : index < 159) :
    (Char.ofNat ('a'.toNat + index)).toNat = 97 + index := by
  have hvalid : ('a'.toNat + index).isValidChar := .inl (by show 97 + index < 0xd800; omega)
  rw [Char.toNat_ofNat, if_pos hvalid]
  rfl

theorem device_lt {i j : Nat} (hij : i < j) (hj : j < 159) (letters : String) :
    letters ++ driveLetter (UInt8.ofNat i) < letters ++ driveLetter (UInt8.ofNat j) := by
  rw [String.lt_iff, String.toList_append, String.toList_append]
  refine List.append_left_lt ?_
  rw [toList_driveLetter (by omega), toList_driveLetter hj, List.cons_lt_cons_iff]
  refine .inl ?_
  rw [Char.lt_def, UInt32.lt_iff_toNat_lt]
  show (Char.ofNat _).toNat < (Char.ofNat _).toNat
  rw [toNat_ofNat_letter (by omega), toNat_ofNat_letter hj]
  omega

/-- The byte of an index is a lower-case letter exactly for the first 26. -/
theorem letter_iff (h : index < 159) :
    ('a' ≤ Char.ofNat ('a'.toNat + index) ∧ Char.ofNat ('a'.toNat + index) ≤ 'z') ↔ index < 26 := by
  rw [Char.le_def, Char.le_def, UInt32.le_iff_toNat_le, UInt32.le_iff_toNat_le]
  show (97 ≤ (Char.ofNat _).toNat ∧ (Char.ofNat _).toNat ≤ 122) ↔ _
  rw [toNat_ofNat_letter h]
  omega

/-! ## The whole loop -/

/-- What the loop returns has one device for each volume. -/
theorem templates_of_push {volumes : List VolumeAttachment} {templates : List StorageTemplate}
    (h : pushTemplates build ns letters bus volumes.zipIdx [] = .ret templates) :
    templates.length = volumes.length ∧
      ∀ i, ∀ hi : i < volumes.length, ∀ hi' : i < templates.length, i < 256 ∧ ∃ source,
        toStorageSource volumes[i] ns = .ok source ∧ templates[i] = templateAt letters bus source i := by
  rw [pushTemplates_nil] at h
  obtain ⟨hlen, hall⟩ := List.forall₂_iff_get.mp (collect_eq_ret.mp h)
  rw [List.length_zipIdx] at hlen
  refine ⟨hlen.symm, fun i hi hi' => ?_⟩
  have hround := hall i (by rwa [List.length_zipIdx]) hi'
  rw [List.get_eq_getElem, List.get_eq_getElem, List.getElem_zipIdx] at hround
  obtain ⟨hlt, source, letter, hsource, -, heq⟩ := templateRound_eq_ret.mp hround
  rw [Nat.zero_add] at hlt heq
  exact ⟨hlt, source, hsource, heq⟩

/-- The first 26 devices can be used. -/
theorem usable_of_push {templates : List StorageTemplate} (hlen : vm.spec.volumes.length ≤ 26)
    (h : pushTemplates build vm.metadata.ns (busLetters vm) bus vm.spec.volumes.zipIdx [] =
      .ret templates) : UsableDevices vm templates := by
  obtain ⟨hlength, hall⟩ := templates_of_push h
  have hdevice : ∀ i, ∀ hi : i < templates.length, ∃ source,
      templates[i] = templateAt (busLetters vm) bus source i := by
    intro i hi
    obtain ⟨-, source, -, heq⟩ := hall i (by omega) hi
    exact ⟨source, heq⟩
  have hincreasing : (templates.map StorageTemplate.device).Pairwise (· < ·) := by
    rw [List.pairwise_iff_getElem]
    intro i j hi hj hij
    rw [List.length_map] at hi hj
    obtain ⟨source, hsource⟩ := hdevice i hi
    obtain ⟨source', hsource'⟩ := hdevice j hj
    rw [List.getElem_map, List.getElem_map, hsource, hsource']
    exact device_lt hij (by omega) _
  refine ⟨?_, hincreasing.imp ne_of_lt, hincreasing, ?_, ?_, ?_⟩
  · rw [List.forall₂_iff_get]
    refine ⟨hlength.symm, fun i hi hi' => ?_⟩
    obtain ⟨-, source, hsource, heq⟩ := hall i hi hi'
    rw [List.get_eq_getElem, List.get_eq_getElem, heq]
    exact hsource
  · intro template htemplate
    obtain ⟨i, hi, rfl⟩ := List.getElem_of_mem htemplate
    obtain ⟨source, hsource⟩ := hdevice i hi
    have hletters : (driveLetter (UInt8.ofNat i)).toList = [Char.ofNat ('a'.toNat + i)] :=
      toList_driveLetter (by omega)
    refine ⟨driveLetter (UInt8.ofNat i), by rw [hsource]; rfl, ?_, ?_⟩
    · intro he
      rw [he] at hletters
      cases hletters
    · rw [hletters]
      intro c hc
      rw [List.mem_singleton.mp hc]
      exact (letter_iff (by omega)).mpr (by omega)
  · intro i hi
    obtain ⟨source, hsource⟩ := hdevice i hi
    rw [hsource]
    exact decide_eq_true_iff
  · intro i hi
    show 97 + i < 256
    omega

/-- The 27th device has no letter. -/
theorem not_usable_of_push {templates : List StorageTemplate} (hlen : 26 < vm.spec.volumes.length)
    (h : pushTemplates build vm.metadata.ns (busLetters vm) bus vm.spec.volumes.zipIdx [] =
      .ret templates) : ¬UsableDevices vm templates := by
  intro husable
  obtain ⟨hlength, hall⟩ := templates_of_push h
  have hi : 26 < templates.length := by omega
  obtain ⟨-, source, -, heq⟩ := hall 26 hlen hi
  obtain ⟨letters, hdevice, -, hletters⟩ := husable.named templates[26] (List.getElem_mem hi)
  rw [heq] at hdevice
  have hlist : letters.toList = ['\x7b'] := by
    have hsame : busLetters vm ++ driveLetter (UInt8.ofNat 26) = busLetters vm ++ letters := hdevice
    rw [← String.toList_inj, String.toList_append, String.toList_append] at hsame
    rw [← List.append_cancel_left hsame]
    exact toList_driveLetter (by decide)
  rw [hlist] at hletters
  exact absurd (hletters _ List.mem_cons_self) (by decide)

theorem split_zipIdx {ι : Type} {l : List ι} {before after : List (ι × Nat)} {a : ι} {i : Nat}
    (h : l.zipIdx = before ++ (a, i) :: after) :
    ∃ l₁ l₂, l = l₁ ++ a :: l₂ ∧ before = l₁.zipIdx ∧ i = l₁.length := by
  obtain ⟨l₁, l₂, rfl, rfl, hl₂⟩ := List.zipIdx_eq_append_iff.mp h
  cases l₂ with
  | nil => cases hl₂
  | cons b l₂ =>
    rw [List.zipIdx_cons] at hl₂
    cases hl₂
    exact ⟨l₁, l₂, rfl, rfl, Nat.zero_add _⟩

theorem returns_of_located (hi : index + 1 < build.reach) (h : Located volume) :
    ∃ template, templateRound build ns letters bus (volume, index) = .ret template := by
  obtain ⟨source, hsource⟩ := (toStorageSource_isOk volume ns).mpr h
  have hbytes := build.reach_le.2
  exact ⟨_, templateRound_eq_ret.mpr ⟨by omega, source, _, hsource, Build.letter_of_lt hi, rfl⟩⟩

theorem push_returns {volumes : List VolumeAttachment} (hloc : ∀ v ∈ volumes, Located v)
    (hlen : volumes.length < build.reach) :
    ∃ templates, pushTemplates build ns letters bus volumes.zipIdx [] = .ret templates := by
  rw [pushTemplates_nil, exists_collect_eq_ret]
  rintro ⟨v, i⟩ hv
  have hi := List.snd_lt_of_mem_zipIdx hv
  exact returns_of_located (by omega) (hloc v (List.fst_mem_of_mem_zipIdx hv))

/-- The first volume whose location cannot be parsed ends the loop, if a build gets there. -/
theorem fails_of_unlocated {before after : List VolumeAttachment}
    (hbefore : ∀ v ∈ before, Located v) (hbad : ¬Located volume) (hlen : before.length < build.reach) :
    ∃ e, pushTemplates build ns letters bus (before ++ volume :: after).zipIdx [] = .fail e := by
  have hbytes := build.reach_le.2
  obtain ⟨e, he⟩ : ∃ e, templateRound build ns letters bus (volume, before.length) = .fail e :=
    templateRound_eq_fail.mpr ⟨by omega, hbad⟩
  refine ⟨e, ?_⟩
  rw [pushTemplates_nil, collect_eq_fail]
  refine ⟨before.zipIdx, (volume, before.length), after.zipIdx (before.length + 1), ?_, ?_, he⟩
  · rw [List.zipIdx_append, List.zipIdx_cons, Nat.zero_add]
  · rintro ⟨v, i⟩ hv
    have hi := List.snd_lt_of_mem_zipIdx hv
    exact returns_of_located (by omega) (hbefore v (List.fst_mem_of_mem_zipIdx hv))

/-- The volume that ends the loop with an error is one that the build gets to. -/
theorem unlocated_of_fail {volumes : List VolumeAttachment} {e : Error}
    (h : pushTemplates build ns letters bus volumes.zipIdx [] = .fail e) :
    ∃ v ∈ volumes.take build.reach, ¬Located v := by
  rw [pushTemplates_nil] at h
  obtain ⟨before, ⟨volume, i⟩, after, hl, hbefore, hfail⟩ := collect_eq_fail.mp h
  obtain ⟨hi, hbad⟩ := templateRound_eq_fail.mp ⟨e, hfail⟩
  obtain ⟨l₁, l₂, rfl, rfl, rfl⟩ := split_zipIdx hl
  have hreach : l₁.length < build.reach := by
    by_contra hge
    have hpos := build.reach_le.1
    obtain ⟨template, hr⟩ := hbefore (l₁[build.reach - 1], build.reach - 1) (by
      rw [List.mem_zipIdx_iff_getElem?]
      exact List.getElem?_eq_getElem (by omega))
    obtain ⟨-, source, letter, -, hletter, -⟩ := templateRound_eq_ret.mp hr
    exact hge (Build.lt_reach hi hletter)
  refine ⟨volume, ?_, hbad⟩
  rw [List.mem_take_iff_getElem]
  exact ⟨l₁.length, by simp; omega, by simp⟩

theorem domainStorage_eq (build : Build) (vm : VirtualMachine) : ∃ bus, domainStorage build vm =
    pushTemplates build vm.metadata.ns (busLetters vm) bus vm.spec.volumes.zipIdx [] := by
  unfold domainStorage busLetters
  split
  · exact ⟨_, rfl⟩
  · exact ⟨_, rfl⟩

/-- Exactly which lists of volumes get usable devices or an error: up to 26 volumes, or one whose
location is read and cannot be parsed. -/
theorem device_names_usable_iff (build : Build) (vm : VirtualMachine) :
    DevicesUsable vm (domainStorage build vm) ↔
      vm.spec.volumes.length ≤ 26 ∨ ∃ v ∈ vm.spec.volumes.take build.reach, ¬Located v := by
  obtain ⟨bus, hp⟩ := domainStorage_eq build vm
  obtain ⟨hreach, hbytes⟩ := build.reach_le
  rw [hp]
  constructor
  · rintro (⟨templates, hr, husable⟩ | ⟨e, he⟩)
    · by_contra hcond
      exact not_usable_of_push (Nat.not_le.mp (not_or.mp hcond).1) hr husable
    · exact .inr (unlocated_of_fail he)
  · intro hcond
    by_cases hloc : ∀ v ∈ vm.spec.volumes.take build.reach, Located v
    · have hlen : vm.spec.volumes.length ≤ 26 := hcond.resolve_right fun ⟨v, hv, hbad⟩ => hbad (hloc v hv)
      rw [List.take_of_length_le (by omega)] at hloc
      obtain ⟨templates, hr⟩ := push_returns hloc (show _ < build.reach by omega)
      exact .inl ⟨templates, hr, usable_of_push hlen hr⟩
    · obtain ⟨before, v, after, htake, hbefore, hbad⟩ := exists_first hloc
      have hlen : before.length < build.reach := by
        have h := congrArg List.length htake
        rw [List.length_take, List.length_append, List.length_cons] at h
        omega
      refine .inr ?_
      rw [← List.take_append_drop build.reach vm.spec.volumes, htake, List.append_assoc, List.cons_append]
      exact fails_of_unlocated hbefore hbad hlen

end Loop

/-! ## Both builds in their places -/

theorem domainStorage_release (vm : VirtualMachine) : domainStorage .release vm =
    storageTemplates vm (busLetters vm) (if vm.spec.compatibilityMode.getD false then "sata" else "virtio") := by
  unfold domainStorage busLetters
  split
  · exact pushTemplates_nil _
  · exact pushTemplates_nil _

theorem domainStorage_checked (vm : VirtualMachine) : domainStorage .checked vm =
    storageTemplatesChecked vm (busLetters vm)
      (if vm.spec.compatibilityMode.getD false then "sata" else "virtio") := by
  unfold domainStorage busLetters
  split
  · exact pushTemplates_nil _
  · exact pushTemplates_nil _

/-- The devices are those of the domain that the controller creates. -/
theorem createDomain_storage (nulPanics : Bool) (host : String) (vm : VirtualMachine) (cluster : Cluster) :
    createDomain host vm cluster = (do
      let volumes ← domainStorage .release vm
      if (← volumesLocked volumes) then .fail .volumelocked
      else
        let template ← domainTemplate vm cluster volumes
          (if vm.spec.compatibilityMode.getD false then "e1000" else "virtio")
        libvirtCall host (.createXml template)) ∧
    createDomainChecked nulPanics host vm cluster = (do
      let volumes ← domainStorage .checked vm
      if (← volumesLocked volumes) then .fail .volumelocked
      else
        let template ← domainTemplate vm cluster volumes
          (if vm.spec.compatibilityMode.getD false then "e1000" else "virtio")
        createXml nulPanics host template) := by
  rw [domainStorage_release, domainStorage_checked]
  exact ⟨rfl, rfl⟩

/-- A VM with 27 volumes. -/
def manyVolumesVm : VirtualMachine where
  metadata := ⟨"n", "x", 1, 1, [], [], [], none⟩
  spec := { plainSpec with volumes := (List.range 27).map fun i => ⟨"v" ++ toString i⟩ }
  status := some (initialStatus "n-x")

theorem manyVolumesVm_located : ∀ v ∈ manyVolumesVm.spec.volumes, Located v := by
  have hok : ∀ v ∈ manyVolumesVm.spec.volumes, (parseStorageLocation v.name).isOk = true := by
    decide +kernel
  intro v hv
  have hv := hok v hv
  unfold Located
  cases hp : parseStorageLocation v.name with
  | ok location => exact ⟨location, rfl⟩
  | error e =>
    rw [hp] at hv
    cases hv

theorem manyVolumesVm_devices (build : Build) :
    (∃ templates, domainStorage build manyVolumesVm = .ret templates ∧
      (templates.map StorageTemplate.device)[26]? = some "vd\x7b") ∧
    ¬DevicesUsable manyVolumesVm (domainStorage build manyVolumesVm) := by
  have hlen : manyVolumesVm.spec.volumes.length = 27 := by decide
  obtain ⟨bus, hp⟩ := domainStorage_eq build manyVolumesVm
  obtain ⟨templates, hr⟩ := push_returns manyVolumesVm_located (by rw [hlen]; exact build.reach_le.1)
  rw [hp, hr]
  obtain ⟨hlength, hall⟩ := templates_of_push hr
  obtain ⟨-, source, -, heq⟩ := hall 26 (by omega) (by omega)
  refine ⟨⟨templates, rfl, ?_⟩, ?_⟩
  · have hname : busLetters manyVolumesVm ++ driveLetter (UInt8.ofNat 26) = "vd\x7b" := by decide
    rw [List.getElem?_map, List.getElem?_eq_getElem (by omega), heq]
    exact congrArg some hname
  · rintro (⟨_, he, husable⟩ | ⟨e, he⟩)
    · cases he
      exact not_usable_of_push (by rw [hlen]; decide) hr husable
    · cases he

/-- The 27th volume of a VM gets a device without a letter, in each build. -/
theorem twenty_seventh_disk : (∃ templates, domainStorage .release manyVolumesVm = .ret templates ∧
      (templates.map StorageTemplate.device)[26]? = some "vd\x7b") ∧
    ¬DevicesUsable manyVolumesVm (domainStorage .release manyVolumesVm) ∧
    ¬DevicesUsable manyVolumesVm (domainStorage .checked manyVolumesVm) :=
  ⟨(manyVolumesVm_devices .release).1, (manyVolumesVm_devices .release).2,
    (manyVolumesVm_devices .checked).2⟩

end Host
end ClusterController
