import ClusterController.Startup

/-!
# Progress of a startup

A startup that nothing disturbs: every request is served, and nobody else writes. Whatever startups before it
have left behind, it comes to the start of the controllers, unless there is a virtual machine to migrate that
has no status: the API server refuses the patch of its networks, and no CRD after it is created.
-/

namespace ClusterController

open ApiServer (Key KubeError)
open Interaction (Program)
open Interaction.Program (Outcome)
open StartupServer (Sound Later Kept Struck Moved Latest Upgraded)

/-- The API server serves the request, and nobody else does anything. -/
def ServedAlone (s : StartupServer) (r : StartupRequest) (a : Except KubeError r.Answer) (t : StartupServer) : Prop :=
  s.serve [] r = (a, t)

/-- A startup from the state. -/
def StartupServer.run (s : StartupServer) : Option (Outcome StartupError Unit × StartupServer) :=
  controllersRun.runWith (fun s r => some (s.serve [] r)) s

/-- No VM without a status has still to be migrated. -/
def StartupServer.Movable (s : StartupServer) : Prop := s.Struck ∨ ∀ vm ∈ s.vms, vm.status.isSome = true

section Undisturbed

variable {α β : Type} {w : Nat} {s t u : StartupServer} {p : StartupProg α} {f : α → StartupProg β}
  {crd : CustomResourceDefinition}

/-- What a program keeps to whatever others do, it keeps to when they do nothing. -/
theorem ends_of_wp {post : Except StartupError α → StartupServer → Prop} {o : Outcome StartupError α}
    (h : (startupTerms.contract startups (fun _ _ => True) w).wp p post s) (hs : s.Sound)
    (he : p.Ends ServedAlone s o t) : t.Sound ∧ ∀ x, o = Outcome.of x → post x t := by
  induction p generalizing s with
  | ret a =>
    obtain ⟨rfl, rfl⟩ := he
    refine ⟨hs, fun x hx => ?_⟩
    cases x <;> cases hx
    exact h
  | fail e =>
    obtain ⟨rfl, rfl⟩ := he
    refine ⟨hs, fun x hx => ?_⟩
    cases x <;> cases hx
    exact h
  | abort m =>
    obtain ⟨rfl, rfl⟩ := he
    refine ⟨hs, fun x hx => ?_⟩
    cases x <;> cases hx
  | call r k ih =>
    obtain ⟨a, s₁, hserved, hk⟩ := he
    have hanswer : startups.answer w s r {} = some (a, s₁) := by
      refine congrArg some (Eq.trans ?_ hserved)
      cases r <;> rfl
    obtain ⟨hg, hrest⟩ := h s (.refl s) hs a s₁ ⟨{}, trivial, hanswer⟩
    exact ih a hrest hg.1.sound hk

theorem always_call {r : StartupRequest} {a : Except KubeError r.Answer}
    {post : Outcome StartupError r.Answer → StartupServer → Prop} (hs : s.Sound) (hserve : s.serve [] r = (a, t))
    (ht : t.Sound) (hok : ∀ v, a = .ok v → post (.ok v) t)
    (herr : ∀ e, a = .error e → post (.err (.other (.kube e))) t) :
    (startupCall r).Always ServedAlone Sound post s := by
  refine ⟨hs, fun x u hx => ?_⟩
  obtain ⟨rfl, rfl⟩ := Prod.mk.inj (hserve.symm.trans hx)
  cases a with
  | ok v => exact ⟨ht, hok v rfl⟩
  | error e => exact ⟨ht, herr e rfl⟩

/-- A request that is served, and the rest of the program. -/
theorem always_then {r : StartupRequest} {v : r.Answer} {f : r.Answer → StartupProg β}
    {post : Outcome StartupError β → StartupServer → Prop} (hs : s.Sound) (hserve : s.serve [] r = (.ok v, t))
    (hf : (f v).Always ServedAlone Sound post t) : (startupCall r >>= f).Always ServedAlone Sound post s := by
  refine ⟨hs, fun x u hx => ?_⟩
  obtain ⟨rfl, rfl⟩ := Prod.mk.inj (hserve.symm.trans hx)
  exact hf

/-- A part that ends well is followed by the rest; any other end of it is an end of the whole. -/
theorem always_seq {p : StartupProg Unit} {f : Unit → StartupProg Unit}
    {pre post : Outcome StartupError Unit → StartupServer → Prop} (hp : p.Always ServedAlone Sound pre s)
    (hok : ∀ t, pre (.ok ()) t → (f ()).Always ServedAlone Sound post t)
    (hend : ∀ o t, o ≠ .ok () → pre o t → post o t) : (p >>= f).Always ServedAlone Sound post s :=
  hp.bind (fun _ => hok) (fun e t h => hend (.err e) t nofun h) fun m t h => hend (.aborted m) t nofun h

theorem always_getCrd {name : String} {f : Except StartupError CustomResourceDefinition → StartupProg β}
    {post : Outcome StartupError β → StartupServer → Prop} (hs : s.Sound)
    (hok : ∀ crd, s.crds name = some crd → (f (.ok crd)).Always ServedAlone Sound post s)
    (herr : s.crds name = none → ∀ e, (f (.error e)).Always ServedAlone Sound post s) :
    ((startupCall (.getCrd name)).attempt >>= f).Always ServedAlone Sound post s := by
  refine ⟨hs, fun x u hx => ?_⟩
  cases hcrd : s.crds name with
  | none =>
    have hserve : s.serve [] (.getCrd name) = (.error .notFound, s) := by
      simp only [StartupServer.serve, hcrd]
    obtain ⟨rfl, rfl⟩ := Prod.mk.inj (hserve.symm.trans hx)
    exact herr hcrd _
  | some crd =>
    have hserve : s.serve [] (.getCrd name) = (.ok crd, s) := by
      simp only [StartupServer.serve, hcrd]
    obtain ⟨rfl, rfl⟩ := Prod.mk.inj (hserve.symm.trans hx)
    exact hok crd hcrd

theorem always_waitCrdReady {name : String} {post : Outcome StartupError Unit → StartupServer → Prop}
    (hs : s.Sound) (hcrd : (s.crds name).isSome = true) (hpost : post (.ok ()) s) :
    (waitCrdReady name).Always ServedAlone Sound post s := by
  refine always_getCrd hs (fun crd _ => ⟨hs, hpost⟩) fun hnone => ?_
  rw [hnone] at hcrd
  cases hcrd

theorem always_waitThen {name : String} {f : Unit → StartupProg Unit}
    {post : Outcome StartupError Unit → StartupServer → Prop} (hs : s.Sound) (hcrd : (s.crds name).isSome = true)
    (hf : (f ()).Always ServedAlone Sound post s) : (waitCrdReady name >>= f).Always ServedAlone Sound post s := by
  have hwait : (waitCrdReady name).Always ServedAlone Sound (fun o t => o = .ok () ∧ t = s) s :=
    always_waitCrdReady hs hcrd ⟨rfl, rfl⟩
  refine always_seq hwait (fun t h => ?_) fun o t hne h => absurd h.1 hne
  obtain ⟨-, rfl⟩ := h
  exact hf

/-! ### Applies -/

/-- The CRD of the VMs and the VMs stay as far as the migration is concerned. -/
structure SameVms (s t : StartupServer) : Prop where
  struck : t.Struck ↔ s.Struck
  vms : t.vms = s.vms

theorem SameVms.movable (h : SameVms s t) : t.Movable ↔ s.Movable := by
  unfold StartupServer.Movable
  rw [h.struck, h.vms]

/-- An apply is served unless it drops a version that is listed as stored. -/
theorem applyCrd_ok {name storage : String} {versions : List String} (hstorage : storage ∈ versions)
    (h : ∀ crd, s.crds name = some crd → ∀ v ∈ crd.stored, v ∈ versions) :
    (s.applyCrd name versions storage).1 = .ok () ∧ (s.applyCrd name versions storage).2.vms = s.vms := by
  unfold StartupServer.applyCrd
  cases hcrd : s.crds name with
  | none => exact ⟨rfl, rfl⟩
  | some crd =>
    have hstatus : (StartupServer.applied crd versions storage).status =
        some ⟨some (StartupServer.applied crd versions storage).stored⟩ := rfl
    have hvalid : (StartupServer.applied crd versions storage).valid = true := by
      refine (StartupServer.valid_iff hstatus).mpr
        ⟨StartupServer.mem_stored_applied.mpr (.inr rfl), fun v hv => ?_⟩
      rcases StartupServer.mem_stored_applied.mp hv with hv | rfl
      · exact h crd hcrd v hv
      · exact hstorage
    dsimp only
    rw [if_pos hvalid]
    exact ⟨rfl, rfl⟩

theorem always_applyCrd {versions : List String} {f : Unit → StartupProg β}
    {post : Outcome StartupError β → StartupServer → Prop} (hs : s.Sound) (hv : "v1beta3" ∈ versions)
    (h : s.Struck ∨ "v1beta2" ∈ versions)
    (hf : ∀ t, t.Sound → t.Latest → SameVms s t → ("v1beta2" ∉ versions → t.Struck) →
      (f ()).Always ServedAlone Sound post t) :
    (startupCall (.applyCrd crdName versions "v1beta3") >>= f).Always ServedAlone Sound post s := by
  obtain ⟨hok, hvms⟩ := applyCrd_ok hv fun crd (hcrd : s.crds crdName = some crd) v hmem => by
    rcases (hs.crd crd hcrd).known v hmem with rfl | rfl
    · exact h.resolve_left fun hstruck => hstruck crd hcrd hmem
    · exact hv
  obtain ⟨hkept, hdone⟩ := StartupServer.kept_applyCrd hs hv
  obtain ⟨hlatest, hstruck⟩ := hdone hok
  refine always_then hs (Prod.ext hok rfl) (hf _ hkept.sound hlatest ⟨⟨fun h => ?_, hkept.later.struck⟩, hvms⟩
    hstruck)
  -- an apply strikes no version from the list
  intro crd hcrd hmem
  have h' : (s.applyCrd crdName versions "v1beta3").2.Struck := h
  unfold StartupServer.applyCrd at h'
  rw [hcrd] at h'
  dsimp only at h'
  split at h'
  · exact h' _ (StartupServer.crds_setCrd _ _ _) (StartupServer.mem_stored_applied.mpr (.inl hmem))
  · exact h' crd hcrd hmem

/-- Another CRD is applied. -/
theorem always_applyCrd_simple {name version : String} {f : Unit → StartupProg β}
    {post : Outcome StartupError β → StartupServer → Prop} (hs : s.Sound) (hp : (name, version) ∈ simpleCrds)
    (hf : ∀ t, t.Sound → (t.crds name).isSome = true → SameVms s t → (f ()).Always ServedAlone Sound post t) :
    (startupCall (.applyCrd name [version] version) >>= f).Always ServedAlone Sound post s := by
  obtain ⟨hok, hvms⟩ := applyCrd_ok (List.mem_singleton_self version)
    fun crd (hcrd : s.crds name = some crd) v hv => List.mem_singleton.mpr (hs.others _ hp crd hcrd v hv)
  obtain ⟨hkept, hdone⟩ := StartupServer.kept_applyCrd_simple hs hp
  refine always_then hs (Prod.ext hok rfl) (hf _ hkept.sound (hdone hok)
    ⟨⟨fun h crd hcrd => ?_, hkept.later.struck⟩, hvms⟩)
  have hget : (s.applyCrd name [version] version).2.crds crdName = s.crds crdName := by
    have hne : crdName ≠ name := Ne.symm (StartupServer.crdName_not_simple _ hp)
    unfold StartupServer.applyCrd
    split
    · exact StartupServer.crds_setCrd_of_ne hne
    · split
      · exact StartupServer.crds_setCrd_of_ne hne
      · rfl
  exact h crd (hget.trans hcrd)

/-! ### Migrations -/

/-- What is left of a VM when its content does not matter. -/
def StoredVm.outline (vm : StoredVm) : Key × Bool := (vm.key, vm.status.isSome)

/-- The VMs are worked on, and nothing else changes. -/
structure Still (s t : StartupServer) : Prop where
  crds : t.crds = s.crds
  namespaces : t.namespaces = s.namespaces
  written : t.written = s.written
  outline : t.vms.map StoredVm.outline = s.vms.map StoredVm.outline
  later : s.Later t

theorem Still.refl (s : StartupServer) : Still s s := ⟨rfl, rfl, rfl, rfl, .refl s⟩

theorem Still.trans (h : Still s t) (h' : Still t u) : Still s u :=
  ⟨h'.crds.trans h.crds, h'.namespaces.trans h.namespaces, h'.written.trans h.written,
    h'.outline.trans h.outline, h.later.trans h'.later⟩

theorem Still.latest (h : Still s t) (hlatest : s.Latest) : t.Latest := h.later.latest hlatest

/-- Each VM was there before, with a status or without one. -/
theorem Still.before {vm : StoredVm} (h : Still s t) (hvm : vm ∈ t.vms) :
    ∃ vm₀ ∈ s.vms, vm₀.key = vm.key ∧ vm₀.status.isSome = vm.status.isSome := by
  have hmem : vm.outline ∈ s.vms.map StoredVm.outline := h.outline ▸ List.mem_map_of_mem hvm
  obtain ⟨vm₀, hvm₀, heq⟩ := List.mem_map.mp hmem
  exact ⟨vm₀, hvm₀, Prod.mk.inj heq⟩

theorem Still.after {vm : StoredVm} (h : Still s t) (hvm : vm ∈ s.vms) :
    ∃ vm' ∈ t.vms, vm'.key = vm.key ∧ vm'.status.isSome = vm.status.isSome := by
  have hmem : vm.outline ∈ t.vms.map StoredVm.outline := h.outline ▸ List.mem_map_of_mem hvm
  obtain ⟨vm', hvm', heq⟩ := List.mem_map.mp hmem
  exact ⟨vm', hvm', Prod.mk.inj heq⟩

/-- The VMs of certain keys have a status and can be read at the newer version. -/
def InPlace (S : Key → Prop) (s : StartupServer) : Prop :=
  s.Latest ∧ ∀ vm ∈ s.vms, S vm.key → vm.Ready ∧ vm.status.isSome = true

theorem InPlace.still {S : Key → Prop} (h : InPlace S s) (hst : Still s t) : InPlace S t := by
  refine ⟨hst.latest h.1, fun vm hvm hS => ?_⟩
  obtain ⟨vm₀, hvm₀, hkey, hstatus⟩ := hst.before hvm
  refine ⟨hst.later.moved h.1 vm.key (fun vm' hvm' hk => ?_) vm hvm rfl, ?_⟩
  · exact (h.2 vm' hvm' (hk ▸ hS)).1
  · exact hstatus ▸ (h.2 vm₀ hvm₀ (hkey ▸ hS)).2

theorem StartupServer.Touches.outline (h : s.Touches t) :
    t.vms.map StoredVm.outline = s.vms.map StoredVm.outline := by
  rcases h with h | ⟨k, spec, -, hst, h⟩
  · rw [h]
  · rw [h, List.map_map]
    refine List.map_congr_left fun vm hvm => ?_
    dsimp only [Function.comp_apply]
    split
    · next hk =>
      obtain ⟨status, hs⟩ := Option.isSome_iff_exists.mp (hst vm hvm hk)
      simp [StoredVm.outline, StoredVm.carry, hs]
    · rfl

theorem still_patchVmStatus (hs : s.Sound) {k : Key} {spec : VirtualMachineSpec} (hw : (k, spec) ∈ s.written) :
    Still s (s.serveMigration (.patchVmStatus k spec.networks)).2 := by
  have hkept := (StartupServer.kept_patchVmStatus hs hw).1
  cases hcrd : s.crds crdName with
  | none =>
    rw [StartupServer.serveMigration_none hcrd]
    exact .refl s
  | some crd =>
    have hsame : ((s.view crd).serve (.patchVmStatus k spec.networks)).2.crd = crd ∧
        ((s.view crd).serve (.patchVmStatus k spec.networks)).2.namespaces = s.namespaces := by
      rcases StartupServer.patchVmStatus_cases (s.view crd) k spec.networks with ⟨e, h⟩ | ⟨vm, -, -, -, -, h⟩ <;>
        rw [h] <;> exact ⟨rfl, rfl⟩
    refine ⟨?_, ?_, ?_, hkept.touches.outline, hkept.later⟩ <;> rw [StartupServer.serveMigration_some hcrd]
    · show (s.setCrd crdName ((s.view crd).serve (.patchVmStatus k spec.networks)).2.crd).crds = s.crds
      rw [hsame.1, StartupServer.setCrd_self hcrd]
    · exact hsame.2
    · rfl

theorem patchVmStatus_found {v : CrdServer} {k : Key} {vm : StoredVm} (networks : List NetworkAttachment)
    (hfind : v.vms.find? (fun vm => vm.key = k) = some vm) (hv : "v1beta3" ∈ v.crd.versions) :
    (v.serve (.patchVmStatus k networks)).1 =
      match (v.patched networks vm).asV1beta3 with
      | some _ => .ok ()
      | none => .error .invalid := by
  simp only [CrdServer.serve]
  rw [hfind]
  dsimp only
  rw [if_pos (List.contains_iff_mem.mpr hv)]
  cases (v.patched networks vm).asV1beta3 <;> rfl

/-- A patch of a VM is accepted if and only if the VM has a status. -/
theorem serve_patchVmStatus_of (hs : s.Sound) (hcrd : s.crds crdName = some crd) (hv : "v1beta3" ∈ crd.versions)
    {vm : StoredVm} (hvm : vm ∈ s.vms) (networks : List NetworkAttachment) :
    (vm.status.isSome = true → (s.serveMigration (.patchVmStatus vm.key networks)).1 = .ok ()) ∧
      (vm.status = none → (s.serveMigration (.patchVmStatus vm.key networks)).1 = .error .invalid) := by
  have hfind : (s.view crd).vms.find? (fun v => v.key = vm.key) = some vm := by
    obtain ⟨vm', hvm'⟩ : ∃ vm', s.vms.find? (fun v => v.key = vm.key) = some vm' :=
      Option.isSome_iff_exists.mp (List.find?_isSome.mpr ⟨vm, hvm, decide_eq_true rfl⟩)
    have hkey : vm'.key = vm.key := by simpa using List.find?_some hvm'
    obtain rfl := List.inj_on_of_nodup_map hs.unique (List.mem_of_find?_eq_some hvm') hvm hkey
    exact hvm'
  have hserve := patchVmStatus_found networks hfind hv
  rw [StartupServer.serveMigration_some hcrd]
  refine ⟨fun hst => ?_, fun hst => ?_⟩
  · have hread := (StoredVm.carry_read (hs.readable vm hvm) networks).2
    rw [← StartupServer.patched_eq_carry (s := s) ((hs.crd crd hcrd).newer hv) hst] at hread
    obtain ⟨v, hread⟩ := Option.isSome_iff_exists.mp hread
    rw [hread] at hserve
    exact hserve
  · have hread : ((s.view crd).patched networks vm).asV1beta3 = none := by
      simp only [CrdServer.patched, hst, StoredVm.asV1beta3]
      rfl
    rw [hread] at hserve
    exact hserve

theorem always_crdThen {r : CrdRequest} {v : r.Answer} {f : r.Answer → CrdProg β}
    {post : Outcome StartupError β → StartupServer → Prop} (hs : s.Sound)
    (hserve : s.serveMigration r = (.ok v, t)) (hf : (f v).embed.Always ServedAlone Sound post t) :
    (CrdProg.embed (crdCall r >>= f)).Always ServedAlone Sound post s := by
  rw [embed_bind, embed_crdCall]
  exact always_then hs hserve hf

/-- How a loop of the migrations ends: a VM without a status ends it. -/
def Migrating (s : StartupServer) (P : StartupServer → Prop) (o : Outcome StartupError Unit) (t : StartupServer) :
    Prop :=
  t.Sound ∧ Still s t ∧ ((o = .ok () ∧ P t) ∨ (o ≠ .ok () ∧ ¬∀ vm ∈ s.vms, vm.status.isSome = true))

/-- The list of the VMs of a namespace while the older version is served. -/
theorem serve_listVms_of (hs : s.Sound) (hcrd : s.crds crdName = some crd) (hv : "v1beta2" ∈ crd.versions)
    (ns : String) : ∃ vms : List V1beta2.VirtualMachine, s.serveMigration (.listVms ns) = (.ok vms, s) := by
  obtain ⟨vms, hvms, -, -⟩ := exists_mapM_asV1beta2
    (l := s.vms.filter fun vm => vm.key.ns = ns) fun vm hvm => hs.readable vm (List.mem_filter.mp hvm).1
  have hserve : (s.view crd).serve (.listVms ns) = (.ok vms, s.view crd) := by
    simp only [CrdServer.serve, StartupServer.view, hvms, if_pos (List.contains_iff_mem.mpr hv)]
  refine ⟨vms, ?_⟩
  rw [StartupServer.serveMigration_same hcrd (congrArg Prod.snd hserve), hserve]

theorem always_embed_forEach {ι : Type} {l : List ι} {f : ι → CrdProg Unit}
    {post : Outcome StartupError Unit → StartupServer → Prop}
    (h : (Program.forEach l fun i => (f i).embed).Always ServedAlone Sound post s) :
    (CrdProg.embed (Program.forEach l f)).Always ServedAlone Sound post s := by
  rw [embed_forEach]
  exact h

theorem served_patchVmStatus (hs : s.Sound) (hlatest : s.Latest) (hcrd : s.crds crdName = some crd)
    (hv : "v1beta3" ∈ crd.versions) {vm : StoredVm} (hvm : vm ∈ s.vms) {spec : VirtualMachineSpec}
    (hw : (vm.key, spec) ∈ s.written) :
    (crdCall (.patchVmStatus vm.key spec.networks)).embed.Always ServedAlone Sound
      (fun o t => t.Sound ∧ Still s t ∧
        ((o = .ok () ∧ InPlace (fun k => k = vm.key) t) ∨ (o ≠ .ok () ∧ vm.status = none))) s := by
  obtain ⟨hok, hnone⟩ := serve_patchVmStatus_of hs hcrd hv hvm spec.networks
  obtain ⟨hkept, hmoved⟩ := StartupServer.kept_patchVmStatus hs hw
  have hstill := still_patchVmStatus hs hw
  rw [embed_crdCall]
  cases hst : vm.status with
  | none =>
    refine always_call hs (Prod.ext (hnone hst) rfl) hkept.sound (fun _ h => nomatch h) fun e _ => ?_
    exact ⟨hkept.sound, hstill, .inr ⟨nofun, rfl⟩⟩
  | some status =>
    have hsome : vm.status.isSome = true := by rw [hst]; rfl
    refine always_call hs (Prod.ext (hok hsome) rfl) hkept.sound (fun _ _ => ?_) fun _ h => nomatch h
    refine ⟨hkept.sound, hstill, .inl ⟨rfl, hstill.latest hlatest, fun vm' hvm' hkey => ?_⟩⟩
    obtain ⟨vm₀, hvm₀, hkey₀, hstatus₀⟩ := hstill.before hvm'
    -- the key tells the VM
    obtain rfl := List.inj_on_of_nodup_map hs.unique hvm₀ hvm (hkey₀.trans hkey)
    exact ⟨hmoved () (hok hsome) vm' hvm' hkey, hstatus₀ ▸ hsome⟩

theorem served_upgradeNamespace (hs : s.Sound) (hlatest : s.Latest) (hcrd : s.crds crdName = some crd)
    (hv : "v1beta2" ∈ crd.versions) (hv' : "v1beta3" ∈ crd.versions) (ns : String) :
    (upgradeNamespace ns).embed.Always ServedAlone Sound (Migrating s (InPlace fun k => k.ns = ns)) s := by
  obtain ⟨vms, hserve⟩ := serve_listVms_of hs hcrd hv ns
  obtain ⟨hfrom, hto⟩ := (StartupServer.serve_listVms hs ns).2 vms (congrArg Prod.fst hserve)
  refine always_crdThen hs hserve ?_
  have hround : ∀ v ∈ vms, ∀ t, t.Sound → Still s t →
      (crdCall (.patchVmStatus v.key v.spec.networks)).embed.Always ServedAlone Sound
        (fun o u => u.Sound ∧ Still t u ∧ ((o = .ok () ∧ InPlace (fun k => k = v.key) u) ∨
          (o ≠ .ok () ∧ ¬∀ vm ∈ s.vms, vm.status.isSome = true))) t := by
    intro v hv t ht hst
    obtain ⟨vm, hvm, hkey, hnetworks⟩ := hfrom v hv
    obtain ⟨vm', hvm', hkey', hstatus⟩ := hst.after hvm
    have hw : (vm'.key, vm.spec) ∈ t.written := by
      rw [hst.written, hkey']
      exact hs.written vm hvm
    rw [hnetworks, hkey.trans hkey'.symm]
    refine (served_patchVmStatus ht (hst.latest hlatest) (by rwa [hst.crds]) hv' hvm' hw).mono fun o u h =>
      ⟨h.1, h.2.1, h.2.2.imp id fun h => ⟨h.1, fun hall => ?_⟩⟩
    have hsome := hall vm hvm
    rw [← hstatus, h.2] at hsome
    cases hsome
  have hloop := Program.always_forEach (I := Sound)
    (fun (v : V1beta2.VirtualMachine) t => InPlace (fun k => k = v.key) t) Still
    (¬∀ vm ∈ s.vms, vm.status.isSome = true) .refl (fun _ _ _ => Still.trans) (fun _ _ _ h hst => h.still hst)
    hs hround
  -- the list names every VM of the namespace
  refine always_embed_forEach (hloop.mono fun o t h =>
    ⟨h.1, h.2.1, h.2.2.imp (fun h' => ⟨h'.1, h.2.1.latest hlatest, fun vm hvm hns => ?_⟩) id⟩)
  obtain ⟨vm₀, hvm₀, hkey, -⟩ := h.2.1.before hvm
  obtain ⟨v, hv, hvkey⟩ := hto vm₀ hvm₀ (hkey ▸ hns)
  exact (h'.2 v hv).2 vm hvm (hkey.symm.trans hvkey.symm)

theorem serve_getCrd_of (hs : s.Sound) (hcrd : s.crds crdName = some crd) :
    s.serveMigration (.getCrd crdName) = (.ok crd, s) := by
  have hserve : (s.view crd).serve (.getCrd crdName) = (.ok crd, s.view crd) := if_pos (hs.crd crd hcrd).name.symm
  rw [StartupServer.serveMigration_same hcrd (congrArg Prod.snd hserve), hserve]

/-- The older version is struck from the list. -/
theorem serve_patchCrdStatus_of (hs : s.Sound) (hcrd : s.crds crdName = some crd)
    (hlatest : crd.storage = "v1beta3") :
    s.serveMigration (.patchCrdStatus crdName (crd.stored.filter (· ≠ "v1beta2"))) =
      (.ok (), s.setCrd crdName { crd with
        status := some ⟨some (crd.stored.filter (· ≠ "v1beta2"))⟩
        resourceVersion := crd.resourceVersion + 1 }) := by
  have hsane := hs.crd crd hcrd
  have hstatus : ({ crd with status := some ⟨some (crd.stored.filter (· ≠ "v1beta2"))⟩ } :
      CustomResourceDefinition).status = some ⟨some (crd.stored.filter (· ≠ "v1beta2"))⟩ := rfl
  have hvalid : ({ crd with status := some ⟨some (crd.stored.filter (· ≠ "v1beta2"))⟩ } :
      CustomResourceDefinition).valid = true := by
    refine (StartupServer.valid_iff hstatus).mpr ⟨List.mem_filter.mpr ⟨hsane.storage, ?_⟩, fun v hv => ?_⟩
    · rw [show crd.storage = "v1beta3" from hlatest]
      decide
    · exact hsane.served v (List.mem_filter.mp hv).1
  have hserve : (s.view crd).serve (.patchCrdStatus crdName (crd.stored.filter (· ≠ "v1beta2"))) =
      (.ok (), { s.view crd with crd := { crd with
        status := some ⟨some (crd.stored.filter (· ≠ "v1beta2"))⟩
        resourceVersion := crd.resourceVersion + 1 } }) :=
    (if_pos hsane.name.symm).trans (if_pos hvalid)
  rw [StartupServer.serveMigration_some hcrd, hserve]
  rfl

/-- A version that is not listed as stored is removed. -/
theorem serve_replaceCrd_of (hs : s.Sound) (hcrd : s.crds crdName = some crd) (hgone : "v1beta2" ∉ crd.stored) :
    (s.serveMigration (.replaceCrd crdName { crd with versions := crd.versions.filter (· ≠ "v1beta2") })).1 =
      .ok () := by
  have hsane := hs.crd crd hcrd
  have hvalid : ({ crd with versions := crd.versions.filter (· ≠ "v1beta2") } :
      CustomResourceDefinition).valid = true := by
    have hstatus : ({ crd with versions := crd.versions.filter (· ≠ "v1beta2") } :
      CustomResourceDefinition).status = some ⟨some crd.stored⟩ := hsane.status
    refine (StartupServer.valid_iff hstatus).mpr ⟨hsane.storage, fun v hv => ?_⟩
    refine List.mem_filter.mpr ⟨hsane.served v hv, decide_eq_true fun he => hgone (he ▸ hv)⟩
  rw [StartupServer.serveMigration_some hcrd]
  exact congrArg Prod.fst ((if_pos hsane.name.symm).trans ((if_pos rfl).trans (if_pos hvalid)))

theorem served_removeCrdVersion (hs : s.Sound) (hlatest : s.Latest) (hmoved : ∀ k, s.Moved k) :
    (removeCrdVersion crdName "v1beta2").embed.Always ServedAlone Sound
      (fun o t => t.Sound ∧ o = .ok () ∧ t.Struck) s := by
  obtain ⟨crd, hcrd, hstorage⟩ := id hlatest
  have hsane := hs.crd crd hcrd
  refine always_crdThen hs (serve_getCrd_of hs hcrd) ?_
  rw [hsane.status]
  have hserve := serve_patchCrdStatus_of hs hcrd hstorage
  have hkept : s.Kept (s.serveMigration (.patchCrdStatus crdName (crd.stored.filter (· ≠ "v1beta2")))).2 :=
    StartupServer.kept_patchCrdStatus hs hlatest hmoved
      (fun v hv => (hsane.known v (List.mem_filter.mp hv).1).resolve_left
        (of_decide_eq_true (List.mem_filter.mp hv).2)) (hsane.distinct.filter _)
  refine always_crdThen hs hserve ?_
  rw [hserve] at hkept
  obtain ⟨crd', hcrd'⟩ : ∃ crd' : CustomResourceDefinition, crd' = { crd with
      status := some ⟨some (crd.stored.filter (· ≠ "v1beta2"))⟩
      resourceVersion := crd.resourceVersion + 1 } := ⟨_, rfl⟩
  have hgone : "v1beta2" ∉ crd'.stored := by
    rw [hcrd']
    exact fun h => absurd rfl (of_decide_eq_true (List.mem_filter.mp h).2)
  have hstorage' : crd'.storage = "v1beta3" := by rw [hcrd', ← hstorage]
  rw [← hcrd'] at hkept ⊢
  have hget : (s.setCrd crdName crd').crds crdName = some crd' := StartupServer.crds_setCrd s crd' crdName
  -- the replacement is checked against the list that has just been patched
  have hstruck : (s.setCrd crdName crd').Struck := fun crd'' h => Option.some.inj (hget.symm.trans h) ▸ hgone
  refine always_crdThen hkept.sound (serve_getCrd_of hkept.sound hget) ?_
  have hreplaced := StartupServer.kept_replaceCrd hkept.sound
    (show ({ crd' with versions := crd'.versions.filter (· ≠ "v1beta2") } : CustomResourceDefinition).storage =
      "v1beta3" from hstorage')
  refine always_crdThen hkept.sound (Prod.ext (serve_replaceCrd_of hkept.sound hget hgone) rfl) ?_
  exact ⟨hreplaced.sound, hreplaced.sound, rfl, hreplaced.later.struck hstruck⟩

/-- How the migrations end: a VM without a status ends them, if there are VMs to migrate. -/
def MigrationEnds (s : StartupServer) (o : Outcome StartupError Unit) (t : StartupServer) : Prop :=
  t.Sound ∧ ((o = .ok () ∧ t.Struck ∧ s.Movable) ∨ (o ≠ .ok () ∧ ¬s.Movable))

theorem served_upgradeVersion (hs : s.Sound) (hlatest : s.Latest) (hcrd : s.crds crdName = some crd)
    (hstored : "v1beta2" ∈ crd.stored) :
    (upgradeVersion "v1beta2").embed.Always ServedAlone Sound (MigrationEnds s) s := by
  have hsane := hs.crd crd hcrd
  have hv' : "v1beta3" ∈ crd.versions := hlatest.storage hcrd ▸ hsane.served _ hsane.storage
  have hmovable : s.Movable ↔ ∀ vm ∈ s.vms, vm.status.isSome = true :=
    ⟨fun h => h.resolve_left fun hstruck => hstruck crd hcrd hstored, .inr⟩
  have hround : ∀ ns ∈ s.namespaces, ∀ t, t.Sound → Still s t →
      (upgradeNamespace ns).embed.Always ServedAlone Sound
        (fun o u => u.Sound ∧ Still t u ∧ ((o = .ok () ∧ InPlace (fun k => k.ns = ns) u) ∨
          (o ≠ .ok () ∧ ¬∀ vm ∈ s.vms, vm.status.isSome = true))) t := by
    intro ns _ t ht hst
    have hcrd' : t.crds crdName = some crd := hst.crds ▸ hcrd
    refine (served_upgradeNamespace ht (hst.latest hlatest) hcrd' (hsane.served _ hstored) hv' ns).mono
      fun o u h => ⟨h.1, h.2.1, h.2.2.imp id fun h' => ⟨h'.1, fun hall => h'.2 fun vm hvm => ?_⟩⟩
    obtain ⟨vm₀, hvm₀, -, hstatus⟩ := hst.before hvm
    exact hstatus ▸ hall vm₀ hvm₀
  have hloop := Program.always_forEach (I := Sound) (fun ns t => InPlace (fun k => k.ns = ns) t) Still
    (¬∀ vm ∈ s.vms, vm.status.isSome = true) .refl (fun _ _ _ => Still.trans) (fun _ _ _ h hst => h.still hst)
    hs hround
  show (CrdProg.embed (crdCall .listNamespaces >>= fun namespaces =>
    Program.forEach namespaces upgradeNamespace >>= fun _ => removeCrdVersion crdName "v1beta2")).Always
      ServedAlone Sound (MigrationEnds s) s
  refine always_crdThen hs StartupServer.serve_listNamespaces ?_
  rw [embed_bind]
  refine always_seq (always_embed_forEach hloop) (fun t h => ?_) fun o t hne h => ?_
  · obtain ⟨ht, hst, ⟨-, hall⟩ | ⟨hne, -⟩⟩ := h
    · have hready : ∀ vm ∈ t.vms, vm.Ready ∧ vm.status.isSome = true := by
        intro vm hvm
        refine (hall vm.key.ns ?_).2 vm hvm rfl
        rw [← hst.namespaces]
        exact ht.namespaces vm hvm
      refine (served_removeCrdVersion ht (hst.latest hlatest) fun k vm hvm _ => (hready vm hvm).1).mono
        fun o u h => ⟨h.1, .inl ⟨h.2.1, h.2.2, hmovable.mpr fun vm hvm => ?_⟩⟩
      obtain ⟨vm', hvm', -, hstatus⟩ := hst.after hvm
      exact hstatus ▸ (hready vm' hvm').2
    · exact absurd rfl hne
  · obtain ⟨-, hbad⟩ := h.2.2.resolve_left fun hdone => hne hdone.1
    exact ⟨h.1, .inr ⟨hne, fun hmov => hbad (hmovable.mp hmov)⟩⟩

theorem served_runMigrations (hs : s.Sound) (hlatest : s.Latest) :
    runMigrations.embed.Always ServedAlone Sound (MigrationEnds s) s := by
  obtain ⟨crd, hcrd, -⟩ := id hlatest
  have hsane := hs.crd crd hcrd
  refine always_crdThen hs (serve_getCrd_of hs hcrd) ?_
  rw [hsane.status]
  show (CrdProg.embed (Program.forEach crd.stored upgradeVersion)).Always ServedAlone Sound _ s
  -- only the older version has anything to migrate
  rw [forEach_upgradeVersion hsane.distinct]
  split
  · next h => exact served_upgradeVersion hs hlatest hcrd h
  · next h =>
    have hstruck : s.Struck := fun crd' h' => Option.some.inj (hcrd.symm.trans h') ▸ h
    exact ⟨hs, hs, .inl ⟨rfl, hstruck, .inl hstruck⟩⟩

/-! ### The whole startup -/

theorem always_createVersioned {name latest : String} {versions : List String} {migrate : StartupProg Unit}
    {post : Outcome StartupError Unit → StartupServer → Prop} (hs : s.Sound)
    (hlatest : ∀ crd, s.crds name = some crd → crd.versions = [latest] →
      (startupCall (.applyCrd name [latest] latest)).Always ServedAlone Sound post s)
    (hupgrade : (createVersioned.upgrade name versions latest migrate).Always ServedAlone Sound post s) :
    (createVersioned name versions latest migrate).Always ServedAlone Sound post s := by
  refine always_getCrd hs (fun crd hcrd => ?_) fun _ _ => hupgrade
  have hboth : ∀ inst : Decidable (crd.versions = [latest]),
      (@ite _ (crd.versions = [latest]) inst (startupCall (.applyCrd name [latest] latest))
        (createVersioned.upgrade name versions latest migrate)).Always ServedAlone Sound post s := by
    intro inst
    cases inst with
    -- already at the latest version: the CRD is applied once more
    | isTrue h => exact hlatest crd hcrd h
    | isFalse h => exact hupgrade
  exact hboth _

theorem served_createLibvirtnode (hs : s.Sound) :
    createLibvirtnode.Always ServedAlone Sound (fun o t => t.Sound ∧ o = .ok () ∧ SameVms s t) s := by
  have hp : (libvirtnodeCrd, "v1beta1") ∈ simpleCrds := List.mem_cons_self
  refine always_createVersioned hs (fun _ _ _ => ?_) ?_
  · rw [← Program.bind_ret (startupCall _)]
    exact always_applyCrd_simple hs hp fun t ht _ hst => ⟨ht, ht, rfl, hst⟩
  · change (startupCall (.applyCrd libvirtnodeCrd ["v1beta1"] "v1beta1") >>= fun _ => waitCrdReady libvirtnodeCrd >>=
      fun _ => startupCall (.applyCrd libvirtnodeCrd ["v1beta1"] "v1beta1")).Always ServedAlone Sound _ s
    refine always_applyCrd_simple hs hp fun t ht hcrd hst => ?_
    refine always_waitThen ht hcrd ?_
    rw [← Program.bind_ret (startupCall _)]
    exact always_applyCrd_simple ht hp fun v hv _ huv =>
      ⟨hv, hv, rfl, huv.struck.trans hst.struck, huv.vms.trans hst.vms⟩

theorem served_createVirtualmachine (hs : s.Sound) : createVirtualmachine.Always ServedAlone Sound
    (fun o t => t.Sound ∧ ((o = .ok () ∧ s.Movable) ∨ (o ≠ .ok () ∧ ¬s.Movable))) s := by
  refine always_createVersioned hs (fun crd hcrd hversions => ?_) ?_
  · have hstruck : s.Struck := by
      intro crd' hcrd' hmem
      obtain rfl := Option.some.inj (hcrd.symm.trans hcrd')
      have hserved := (hs.crd crd hcrd).served _ hmem
      rw [hversions] at hserved
      exact absurd (List.mem_singleton.mp hserved) (by decide)
    rw [← Program.bind_ret (startupCall _)]
    exact always_applyCrd hs (List.mem_singleton_self _) (.inl hstruck) fun t ht _ _ _ =>
      ⟨ht, ht, .inl ⟨rfl, .inl hstruck⟩⟩
  · change (startupCall (.applyCrd crdName ["v1beta3", "v1beta2"] "v1beta3") >>= fun _ => waitCrdReady crdName >>=
      fun _ => runMigrations.embed >>= fun _ => startupCall (.applyCrd crdName ["v1beta3"] "v1beta3")).Always
        ServedAlone Sound _ s
    refine always_applyCrd hs List.mem_cons_self (.inr (by decide)) fun t ht hlatest hst _ => ?_
    have hinstalled : (t.crds crdName).isSome = true := by
      obtain ⟨crd, hcrd, -⟩ := hlatest
      rw [hcrd]
      rfl
    refine always_waitThen ht hinstalled ?_
    refine always_seq (served_runMigrations ht hlatest) (fun u h => ?_) fun o u hne h => ?_
    · obtain ⟨hu, ⟨-, hstruck, hmovable⟩ | ⟨hne, -⟩⟩ := h
      · rw [← Program.bind_ret (startupCall _)]
        exact always_applyCrd hu (List.mem_singleton_self _) (.inl hstruck) fun v hv _ _ _ =>
          ⟨hv, hv, .inl ⟨rfl, hst.movable.mp hmovable⟩⟩
      · exact absurd rfl hne
    · obtain ⟨-, hbad⟩ := h.2.resolve_left fun hdone => hne hdone.1
      exact ⟨h.1, .inr ⟨hne, fun hmovable => hbad (hst.movable.mpr hmovable)⟩⟩

/-- A part that is always served, and the rest. -/
theorem always_part {p : StartupProg Unit} {f : Unit → StartupProg Unit}
    {post : Outcome StartupError Unit → StartupServer → Prop}
    (hp : p.Always ServedAlone Sound (fun o t => t.Sound ∧ o = .ok ()) s)
    (hf : ∀ t, t.Sound → (f ()).Always ServedAlone Sound post t) : (p >>= f).Always ServedAlone Sound post s :=
  always_seq hp (fun t h => hf t h.1) fun _ _ hne h => absurd h.2 hne

theorem always_simple {name version : String} (hs : s.Sound) (hp : (name, version) ∈ simpleCrds) :
    (createSimple name version).Always ServedAlone Sound (fun o t => t.Sound ∧ o = .ok ()) s :=
  always_applyCrd_simple hs hp fun _ ht hcrd _ => always_waitCrdReady ht hcrd ⟨ht, rfl⟩

theorem served_controllersRun (hs : s.Sound) : controllersRun.Always ServedAlone Sound
    (fun o _ => (o = .ok () ∧ s.Movable) ∨ (o ≠ .ok () ∧ ¬s.Movable)) s := by
  refine always_seq (served_createLibvirtnode hs) (fun t h => ?_) fun _ _ hne h => absurd h.2.1 hne
  obtain ⟨ht, -, hst⟩ := h
  refine always_seq (served_createVirtualmachine ht) (fun u h => ?_) fun o u hne h => ?_
  · obtain ⟨hu, ⟨-, hmovable⟩ | ⟨hne, -⟩⟩ := h
    · -- the CRDs of the volumes, the networks and the routers have one version each
      refine always_part (always_part (always_simple hu (by decide)) fun _ h => always_simple h (by decide))
        fun _ h => always_part (always_simple h (by decide)) fun _ h =>
          always_part (always_simple h (by decide)) fun v hv => ?_
      exact always_call hv (t := v) rfl hv (fun _ _ => .inl ⟨rfl, hst.movable.mp hmovable⟩) fun _ h => nomatch h
    · exact absurd rfl hne
  · obtain ⟨-, hbad⟩ := h.2.resolve_left fun hdone => hne hdone.1
    exact .inr ⟨hne, fun hmovable => hbad (hst.movable.mpr hmovable)⟩

end Undisturbed

end ClusterController
