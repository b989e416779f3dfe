import ClusterController.Contracts

/-!
# Every reconcile keeps its contract

One lemma for each function that writes a virtual machine or acts on a domain, in the
order of the calls, and from them the regime under which all workers run together.
-/

namespace ClusterController

open ApiServer (StringMap Key KubeError Resource Collection)
open Interaction (Program Contract Terms Regime)
open Interaction.Program (Within)
open Interaction.Contract (wp_mono wp_bind wp_attempt wp_forEach)

variable {w : Worker} {s t : World} {vm : VirtualMachine}

/-- Read the status of the copy, or fail. -/
theorem wp_tryStatus_bind {σ : Type} {C : Contract Request Request.Answer σ} {s : σ} {β : Type}
    {f : VirtualMachineStatus → Prog β} {post : Except Error β → σ → Prop}
    (herr : ∀ e, post (.error e) s)
    (hok : ∀ st, vm.status = some st → C.wp (f st) post s) :
    C.wp (Program.ofExcept (tryStatus vm) >>= f) post s := by
  unfold tryStatus
  cases h : vm.status with
  | none => exact herr _
  | some st => exact hok st h

/-- Unwrap an option that is known. -/
theorem wp_expect_bind {σ : Type} {C : Contract Request Request.Answer σ} {s : σ} {α β : Type}
    {o : Option α} {a : α} {message : String} {f : α → Prog β} {post : Except Error β → σ → Prop}
    (ho : o = some a) (h : C.wp (f a) post s) : C.wp (expect o message >>= f) post s := by
  subst ho
  exact h

theorem wp_onlyIf {σ : Type} {C : Contract Request Request.Answer σ} {s : σ} {c : Prop}
    [Decidable c] {p : Prog Unit} {post : Except Error Unit → σ → Prop} (hp : c → C.wp p post s)
    (hn : ¬ c → post (.ok ()) s) : C.wp (onlyIf c p) post s := by
  unfold onlyIf
  split
  · next h => exact hp h
  · next h => exact hn h

theorem ScheduledTo.domainName {host : String} (h : ScheduledTo vm host) :
    ∃ name, Host.getDomainName vm = some name := by
  obtain ⟨st, hst, _⟩ := h
  exact ⟨st.domainName, congrArg (Option.map _) hst⟩

/-- A node object has no namespace. -/
theorem node_name_eq {node : Node} {name : String} (h : node.key = ⟨"", name⟩) :
    name = node.metadata.name := congrArg Key.name h.symm

theorem amends_addFinalizer (vm : VirtualMachine) (f : String) : Amends (addFinalizer vm f) vm :=
  ⟨rfl, rfl, rfl, rfl, rfl⟩

theorem amends_dropFinalizer (vm : VirtualMachine) (f : String) : Amends (dropFinalizer vm f) vm :=
  ⟨rfl, rfl, rfl, rfl, rfl⟩

namespace Host

/-- What an event says about the copy that it was classified from. -/
def Event.Means (host : String) (vm : VirtualMachine) : Event → Prop
  | .added => Settled vm host ∧ vm.isDeleted = false
  | .deleted => Settled vm host ∧ vm.isDeleted = true
  | .inboundMigration => Awaited vm host
  | .outboundMigration => ∃ destination, ScheduledTo vm destination ∧ destination ≠ host
  | _ => True

theorem classify_means {host target : String} {vm : VirtualMachine} {st : VirtualMachineStatus}
    (hst : vm.status = some st) (hs : st.scheduled = true) (hn : st.node = some target)
    (runsOnUs : Bool) :
    (classify runsOnUs (target = host) st.migrationPending vm.isDeleted).Means host vm := by
  unfold classify
  by_cases ht : target = host
  · subst ht
    cases hp : st.migrationPending with
    | true =>
      simp only [decide_true, Bool.and_self, if_true]
      exact ⟨st, hst, hs, hn, hp⟩
    | false =>
      have hset : Settled vm target := ⟨st, hst, hs, hn, hp⟩
      cases hd : vm.isDeleted <;> cases runsOnUs <;> simp [Event.Means, hset, hd]
  · cases runsOnUs
    · simp [ht, Event.Means]
    · simp only [ht, decide_false, Bool.false_and, Bool.not_false, if_true, if_false,
        Bool.false_eq_true]
      exact ⟨target, ⟨st, hst, hs, hn⟩, ht⟩

theorem getEventType_means (host : String) (vm : VirtualMachine) :
    (getEventType host vm).Within Quiet fun e => e.Means host vm := by
  unfold getEventType
  split
  · exact trivial
  · have hstatus : (Program.ofExcept (tryStatus vm) : Prog VirtualMachineStatus).Within Quiet
        fun st => vm.status = some st := by
      unfold tryStatus
      cases h : vm.status with
      | none => exact trivial
      | some st => exact rfl
    refine Within.bind hstatus fun st hst => ?_
    split
    · exact trivial
    · next hs =>
      split
      · exact trivial
      · next target hn =>
        exact Within.bind (quiet_hasDomain _ _) fun runs _ =>
          classify_means hst (by simpa using hs) hn runs

/-- A host works from the snapshot of its worker. -/
theorem works {host name : String} (hs : Snapshot w s vm) (hw : w = .host host vm.key)
    (hn : getDomainName vm = some name) : Works w s host name vm := ⟨hw, hs.logged, hs.seen, hn⟩

end Host

variable [Crates]

/-- Run a part that keeps the contract, then the rest with the copy as it was. -/
theorem wp_then {α β : Type} {p : Prog α} {f : α → Prog β}
    {post : Except Error β → World → Prop}
    (hp : (agreement w).wp p (fun _ t => Keeps w s t) s)
    (herr : ∀ e t, Keeps w s t → post (.error e) t)
    (hok : ∀ a t, Keeps w s t → (agreement w).wp (f a) post t) :
    (agreement w).wp (p >>= f) post s := by
  refine wp_bind (wp_mono hp fun x t ht => ?_)
  cases x with
  | ok a => exact hok a t ht
  | error e => exact herr e t ht

theorem wp_keeps_of {α : Type} {p : Prog α} {u : World} (h : Keeps w s u)
    (hp : (agreement w).wp p (fun _ t => Keeps w u t) u) :
    (agreement w).wp p (fun _ t => Keeps w s t) u :=
  wp_mono hp fun _ _ ht => h.trans ht

/-! ## Finalizers -/

/-- A registered finalizer is in a logged version of the same object. -/
theorem wp_ensureFinalizer {f : String} (ht : s.vms.Tracks vm)
    (he : ∀ s₁, Keeps w s s₁ →
      Effect w s₁ vm (addFinalizer vm (finalizerName f)) (.ensureFinalizer f)) :
    (agreement w).wp (ensureFinalizer vm f)
      (fun x t => Keeps w s t ∧ ∀ n, x = .ok n →
        (n = vm ∧ finalizerName f ∈ vm.metadata.finalizers ∨
          n = addFinalizer vm (finalizerName f) ∧ Recorded t n) ∧ t.vms.Tracks n) s := by
  unfold ensureFinalizer
  split
  · refine wp_bind (wp_mono (wp_commit ht (amends_addFinalizer vm _) fun s₁ h _ => he s₁ h)
      fun x t hx => ?_)
    cases x with
    | ok u =>
      obtain ⟨htr, hrec⟩ := hx.2 u rfl
      refine ⟨hx.1, fun n hn => ?_⟩
      cases hn
      exact ⟨.inr ⟨rfl, hrec⟩, htr⟩
    | error e => exact ⟨hx.1, fun n hn => nomatch hn⟩
  · next h =>
    refine ⟨Keeps.refl w s, fun n hn => ?_⟩
    cases hn
    refine ⟨.inl ⟨rfl, ?_⟩, ht⟩
    simpa [hasFinalizer] using h

theorem wp_removeFinalizer {f : String} (ht : s.vms.Tracks vm)
    (he : ∀ s₁, Keeps w s s₁ →
      Effect w s₁ vm (dropFinalizer vm (finalizerName f)) (.removeFinalizer f)) :
    (agreement w).wp (removeFinalizer vm f) (fun _ t => Keeps w s t) s := by
  unfold removeFinalizer
  split
  · refine wp_bind (wp_mono (wp_commit ht (amends_dropFinalizer vm _) fun s₁ h _ => he s₁ h)
      fun x t hx => ?_)
    cases x with
    | ok u => exact hx.1
    | error e => exact hx.1
  · exact Keeps.refl w s

/-! ## The VM controller -/

section VmController

variable (hc : Copy w s vm) (hw : w = .vm vm.key)
include hc hw

theorem wp_initializeStatus :
    (agreement w).wp (initializeStatus vm (namePrefixedWithNamespace vm.key))
      (fun _ t => Keeps w s t) s :=
  wp_onlyIf (fun h => wp_setStatus hc.tracks fun _ _ => ⟨hw, h, rfl⟩) fun _ => Keeps.refl w s

theorem wp_fillNics : (agreement w).wp (fillNics vm) (fun _ t => Keeps w s t) s := by
  refine wp_tryStatus_bind (fun _ => Keeps.refl w s) fun st hst => ?_
  refine wp_quiet_bind (quiet_collect fun _ => quiet_fillNic _ _ _ _ _) (fun _ _ h => h)
    fun nics t₁ _ h₁ => ?_
  refine wp_quiet_bind (quiet_orPanic _) (fun _ _ h => h₁.trans h) fun kept t₂ _ h₂ => ?_
  have hk : Keeps w s t₂ := h₁.trans h₂
  have hc₂ : Copy w t₂ vm := hc.keep hk
  refine wp_keeps_of hk (wp_then ?_ (fun _ _ h => h) fun _ t₃ h₃ => ?_)
  · exact wp_onlyIf (fun _ => wp_setStatus hc₂.tracks fun _ _ => ⟨hw, st, kept, hst, rfl⟩)
      fun _ => Keeps.refl w t₂
  · -- The copy is unchanged, so this commit cannot change anything.
    refine wp_mono (wp_commit (hc₂.keep h₃).tracks ⟨rfl, rfl, rfl, rfl, rfl⟩
      fun _ _ hne => absurd rfl hne) fun _ _ hx => h₃.trans hx.1

theorem wp_fillUuid :
    (agreement w).wp (fillUuid vm) (fun x t => Keeps w s t ∧ ∀ n, x = .ok n →
      Copy w t n ∧ n.key = vm.key ∧ n.isDeleted = vm.isDeleted) s := by
  unfold fillUuid
  split
  · next h =>
    refine wp_quiet_bind (quiet_ask trivial) (fun _ _ h => ⟨h, fun _ hn => nomatch hn⟩)
      fun id t₁ _ h₁ => ?_
    have hc₁ : Copy w t₁ vm := hc.keep h₁
    refine wp_bind (wp_mono (wp_commit hc₁.tracks ⟨rfl, rfl, rfl, rfl, rfl⟩ fun _ _ _ =>
      ⟨hw, Option.isNone_iff_eq_none.mp h, id, rfl⟩) fun x t hx => ?_)
    cases x with
    | error e => exact ⟨h₁.trans hx.1, fun _ hn => nomatch hn⟩
    | ok u =>
      refine ⟨h₁.trans hx.1, fun n hn => ?_⟩
      cases hn
      exact ⟨⟨(hx.2 u rfl).1, hc.key, (hc₁.keep hx.1).seen⟩, rfl, rfl⟩
  · refine ⟨Keeps.refl w s, fun n hn => ?_⟩
    cases hn
    exact ⟨hc, rfl, rfl⟩

theorem wp_clearSuccessfulMigration :
    (agreement w).wp (clearSuccessfulMigration vm) (fun _ t => Keeps w s t) s := by
  unfold clearSuccessfulMigration
  split
  · refine wp_onlyIf (fun _ => ?_) fun _ => Keeps.refl w s
    exact wp_mono (wp_commit hc.tracks ⟨rfl, rfl, rfl, rfl, rfl⟩ fun _ _ _ => ⟨hw, rfl⟩)
      fun _ _ hx => hx.1
  · exact Keeps.refl w s

variable (hd : vm.isDeleted = false)
include hd

theorem wp_placeVm {st : VirtualMachineStatus} (hst : vm.status = some st) :
    (agreement w).wp (placeVm vm st (migrationRequested vm)) (fun _ t => Keeps w s t) s := by
  refine wp_quiet_bind (scheduleOrBypass_pinned _ _) (fun _ _ h => h) fun node t₁ hp h₁ => ?_
  exact wp_keeps_of h₁ (wp_setStatus (hc.keep h₁).tracks fun _ h₂ =>
    ⟨hw, (hc.keep (h₁.trans h₂)).seen, hd, st, node, hst, rfl, hp⟩)

theorem wp_schedulingAndMigrations :
    (agreement w).wp (schedulingAndMigrations vm) (fun _ t => Keeps w s t) s := by
  refine wp_tryStatus_bind (fun _ => Keeps.refl w s) fun st hst => ?_
  refine wp_quiet_bind (quiet_isUncompliant _) (fun _ _ h => h) fun uncompliant t₁ _ h₁ => ?_
  refine wp_keeps_of h₁ (wp_then (wp_onlyIf (fun _ => ?_) fun _ => Keeps.refl w t₁)
    (fun _ _ h => h) fun _ t₂ h₂ => ?_)
  · refine wp_quiet_bind (quiet_ask trivial) (fun _ _ h => h) fun _ t₂ _ h₂ => ?_
    refine wp_keeps_of h₂ (wp_bind (wp_attempt (wp_mono
      (wp_placeVm (hc.keep (h₁.trans h₂)) hw hd hst) fun x t₃ h₃ => ?_)))
    refine wp_quiet_bind (quiet_ask trivial) (fun _ _ h => h₃.trans h) fun _ t₄ _ h₄ => ?_
    exact Contract.wp_ofExcept (h₃.trans h₄)
  · exact wp_keeps_of h₂ (wp_clearSuccessfulMigration (hc.keep (h₁.trans h₂)) hw)

theorem wp_createVm : (agreement w).wp (createVm vm) (fun _ t => Keeps w s t) s := by
  refine wp_then (wp_initializeStatus hc hw) (fun _ _ h => h) fun _ t₁ h₁ => ?_
  refine wp_keeps_of h₁ (wp_then (wp_fillNics (hc.keep h₁) hw) (fun _ _ h => h) fun _ t₂ h₂ => ?_)
  have hc₂ : Copy w t₂ vm := (hc.keep h₁).keep h₂
  refine wp_keeps_of h₂ (wp_bind (wp_mono (wp_fillUuid hc₂ hw) fun x t₃ hx => ?_))
  cases x with
  | error e => exact hx.1
  | ok n =>
    obtain ⟨hcn, hk, hdn⟩ := hx.2 n rfl
    exact wp_keeps_of hx.1 (wp_schedulingAndMigrations hcn (hk ▸ hw) (hdn.trans hd))

end VmController

/-! ## The ports of virtual machines -/

section VmOvnController

variable (hc : Copy w s vm) (hw : w = .vmOvn vm.key)
include hc hw

theorem wp_updateVm : (agreement w).wp (updateVm vm) (fun _ t => Keeps w s t) s := by
  refine wp_quiet_bind quiet_ovnTryFromAnnotations (fun _ _ h => h) fun _ t₁ _ h₁ => ?_
  refine wp_keeps_of h₁ (wp_bind (wp_mono (wp_ensureFinalizer (hc.keep h₁).tracks fun _ _ =>
    ⟨rfl, .inl ⟨hw, rfl⟩⟩) fun x t₂ hx => ?_))
  cases x with
  | error e => exact hx.1
  | ok n =>
    obtain ⟨hn, htr⟩ := hx.2 n rfl
    have hkn : n.key = vm.key := by
      rcases hn with ⟨rfl, _⟩ | ⟨rfl, _⟩ <;> rfl
    refine wp_quiet_bind (quiet_collect fun _ => quiet_updateVmNic _ _) (fun _ _ h => hx.1.trans h)
      fun ips t₃ _ h₃ => ?_
    dsimp only
    split
    · next st hst =>
      exact wp_keeps_of (hx.1.trans h₃) (wp_setStatus (htr.grow (h₃.1 .virtualMachine)) fun _ _ =>
        ⟨hkn ▸ hw, st, _, hst, rfl⟩)
    · exact hx.1.trans h₃

theorem wp_removeVm : (agreement w).wp (removeVm vm) (fun _ t => Keeps w s t) s := by
  refine wp_quiet_bind quiet_ovnTryFromAnnotations (fun _ _ h => h) fun _ t₁ _ h₁ => ?_
  refine wp_quiet_bind (quiet_forEach fun _ => quiet_disconnectVmNic _ _) (fun _ _ h => h₁.trans h)
    fun _ t₂ _ h₂ => ?_
  have hk : Keeps w s t₂ := h₁.trans h₂
  refine wp_keeps_of hk (wp_then (wp_removeFinalizer (hc.keep hk).tracks fun _ _ =>
    ⟨rfl, .inl ⟨hw, rfl⟩⟩) (fun _ _ h => h) fun _ t₃ h₃ => h₃)

end VmOvnController

/-! ## The node controller -/

/-- A list call answers with stored objects. -/
theorem wp_listVms_attempt :
    (agreement w).wp (kubeList .virtualMachine none).attempt
      (fun x t => Keeps w s t ∧ ∀ l, x = .ok (.ok l) → ∀ vm ∈ l, vm ∈ t.vms.history) s := by
  refine wp_attempt (wp_step fun s₁ x a t hk ha hkt => ⟨trivial, ?_⟩)
  have hd := Option.some.inj ha
  cases a with
  | error e => exact ⟨hkt, fun l hl => nomatch hl⟩
  | ok l =>
    refine ⟨hkt, fun l' hl vm hvm => ?_⟩
    cases hl
    rcases Choice.deliver_cases x (.error .unreachable) s₁
      (s₁.serveKube x (.list .virtualMachine none)) with h | h | h <;> rw [h] at hd <;> cases hd
    exact s₁.vms.stored_logged vm hvm

theorem wp_updateNode {node : Node} (hw : w = .node node.metadata.name) :
    (agreement w).wp (updateNode node) (fun _ t => Keeps w s t) s := by
  refine wp_onlyIf (fun _ => ?_) fun _ => Keeps.refl w s
  refine wp_bind (wp_mono wp_listVms_attempt fun x t₁ hx => ?_)
  cases x with
  | error e => exact hx.1
  | ok r =>
    cases r with
    | error e => exact hx.1
    | ok l =>
      refine wp_keeps_of hx.1 (wp_forEach (K := Keeps w) (fun _ _ _ => Keeps.trans) (Keeps.refl w t₁)
        fun vm hvm t₂ h₂ => ?_)
      have htr : t₂.vms.Tracks vm := .inl (h₂.1 .virtualMachine vm (hx.2 l rfl vm hvm))
      refine wp_tryStatus_bind (fun _ => Keeps.refl w t₂) fun st hst => ?_
      refine wp_onlyIf (fun hn => ?_) fun _ => Keeps.refl w t₂
      refine wp_mono (wp_commit htr ⟨rfl, rfl, rfl, rfl, rfl⟩ fun _ _ _ =>
        ⟨node.metadata.name, hw, ?_, rfl⟩) fun _ _ hx => hx.1
      unfold getVmNode
      rw [hst]
      exact hn

/-! ## The host controller -/

namespace Host

/-- Ask libvirt for something that the contract speaks about. -/
theorem wp_libvirtCall {host : String} {r : LibvirtRequest}
    (hg : ∀ s₁ t, Keeps w s s₁ → Guarantee w s₁ (.libvirt host r) t) :
    (agreement w).wp (libvirtCall host r) (fun _ t => Keeps w s t) s := by
  refine wp_step fun s₁ x a t hk ha hkt => ⟨hg s₁ t hk, ?_⟩
  cases a with
  | some a => exact hkt
  | none => exact hkt

section Handlers

variable {host name : String} (hs : Snapshot w s vm) (hw : w = .host host vm.key)
include hs hw

theorem wp_destroyDomain (hn : getDomainName vm = some name) (hset : Settled vm host)
    (hd : vm.isDeleted = true) :
    (agreement w).wp (destroyDomain host name) (fun _ t => Keeps w s t) s := by
  refine wp_quiet_bind (quiet_lookupByName _ _).attempt (fun _ _ h => h) fun r t₁ _ h₁ => ?_
  split
  · exact wp_keeps_of h₁ (wp_libvirtCall fun s₂ _ h₂ =>
      ⟨vm, works (hs.keep (h₁.trans h₂)) hw hn, hset, hd⟩)
  · exact h₁

theorem wp_handleDelete (hset : Settled vm host) (hd : vm.isDeleted = true) :
    (agreement w).wp (handleDelete host vm) (fun _ t => Keeps w s t) s := by
  obtain ⟨name, hn⟩ := hset.scheduledTo.domainName
  refine wp_expect_bind hn ?_
  refine wp_then (wp_destroyDomain hs hw hn hset hd) (fun _ _ h => h) fun _ t₁ h₁ => ?_
  refine wp_keeps_of h₁ (wp_then (wp_removeFinalizer (hs.keep h₁).copy.tracks fun s₂ h₂ =>
    ⟨rfl, .inr ⟨host, hw, rfl, hset, hd, (hs.keep (h₁.trans h₂)).seen⟩⟩) (fun _ _ h => h)
    fun _ t₂ h₂ => h₂)

theorem wp_createDomain {n : VirtualMachine} {cluster : Cluster}
    (hname : getDomainName n = getDomainName vm) (hset : Settled vm host)
    (hd : vm.isDeleted = false)
    (hg : ∃ v ∈ s.vms.history, v.key = vm.key ∧ v.uid = vm.uid ∧ Guarded v) :
    (agreement w).wp (createDomain host n cluster) (fun _ t => Keeps w s t) s := by
  refine wp_quiet_bind (quiet_storageTemplates _ _ _) (fun _ _ h => h) fun volumes t₁ _ h₁ => ?_
  refine wp_quiet_bind (quiet_volumesLocked _) (fun _ _ h => h₁.trans h) fun locked t₂ _ h₂ => ?_
  split
  · exact h₁.trans h₂
  · refine wp_quiet_bind (domainTemplate_name _ _ _ _) (fun _ _ h => (h₁.trans h₂).trans h)
      fun template t₃ ht h₃ => ?_
    have hk : Keeps w s t₃ := (h₁.trans h₂).trans h₃
    refine wp_keeps_of hk (wp_libvirtCall fun s₄ _ h₄ => ?_)
    obtain ⟨v, hv, hvk, hvu, hvg⟩ := hg
    exact ⟨vm, works (hs.keep (hk.trans h₄)) hw (hname ▸ ht), hset, hd, v,
      (hk.trans h₄).1 .virtualMachine v hv, hvk, hvu, hvg⟩

theorem wp_handleAdd (hset : Settled vm host) (hd : vm.isDeleted = false) :
    (agreement w).wp (handleAdd host vm) (fun _ t => Keeps w s t) s := by
  refine wp_quiet_bind (quiet_ensureVniMapping _ _) (fun _ _ h => h) fun _ t₁ _ h₁ => ?_
  refine wp_quiet_bind (quiet_expect _ _) (fun _ _ h => h₁.trans h) fun _ t₂ _ h₂ => ?_
  have hk₂ : Keeps w s t₂ := h₁.trans h₂
  refine wp_keeps_of hk₂ (wp_bind (wp_mono (wp_ensureFinalizer (hs.keep hk₂).copy.tracks
    fun _ _ => ⟨rfl, .inr ⟨host, hw, rfl, hset, hd⟩⟩) fun x t₃ hx => ?_))
  cases x with
  | error e => exact hx.1
  | ok n =>
    obtain ⟨hn, htr⟩ := hx.2 n rfl
    have hs₃ : Snapshot w t₃ vm := (hs.keep hk₂).keep hx.1
    have hnk : n.key = vm.key ∧ n.status = vm.status := by
      rcases hn with ⟨rfl, _⟩ | ⟨rfl, _⟩ <;> exact ⟨rfl, rfl⟩
    have hg : ∃ v ∈ t₃.vms.history, v.key = vm.key ∧ v.uid = vm.uid ∧ Guarded v := by
      rcases hn with ⟨_, hf⟩ | ⟨rfl, v, hv, hvk, hvu, hvf⟩
      · exact ⟨vm, hs₃.logged, rfl, rfl, hf⟩
      · refine ⟨v, hv, hvk, hvu, ?_⟩
        unfold Guarded
        rw [hvf]
        exact List.mem_append_right _ List.mem_cons_self
    dsimp only
    split
    · exact hx.1
    · refine wp_quiet_bind quiet_getCluster (fun _ _ h => hx.1.trans h) fun cluster t₄ _ h₄ => ?_
      refine wp_keeps_of (hx.1.trans h₄) (wp_then (wp_createDomain (hs₃.keep h₄) hw
        (congrArg (Option.map _) hnk.2) hset hd ?_) (fun _ _ h => h) fun _ t₅ h₅ => ?_)
      · obtain ⟨v, hv, hrest⟩ := hg
        exact ⟨v, h₄.1 .virtualMachine v hv, hrest⟩
      · cases hst : n.status with
        | none => exact trivial
        | some st =>
          refine wp_keeps_of h₅ (wp_setStatus (htr.grow ((h₄.trans h₅).1 .virtualMachine))
            fun _ _ => ⟨host, st, ?_, hst, rfl⟩)
          rw [hnk.1]
          exact hw

theorem wp_handleOutboundMigration {destination : String} (hsch : ScheduledTo vm destination)
    (hne : destination ≠ host) :
    (agreement w).wp (handleOutboundMigration host vm) (fun _ t => Keeps w s t) s := by
  obtain ⟨name, hn⟩ := hsch.domainName
  obtain ⟨st, hst, hsc, hnode⟩ := hsch
  refine wp_expect_bind hn ?_
  refine wp_quiet_bind (quiet_lookupByName _ _).attempt (fun _ _ h => h) fun r t₁ _ h₁ => ?_
  split
  · exact trivial
  · refine wp_tryStatus_bind (fun _ => h₁) fun st' hst' => ?_
    have hst'' : st' = st := Option.some.inj (hst'.symm.trans hst)
    subst hst''
    refine wp_expect_bind hnode ?_
    refine wp_keeps_of h₁ (wp_then (wp_libvirtCall fun s₂ _ h₂ =>
      ⟨vm, works (hs.keep (h₁.trans h₂)) hw hn, ⟨st', hst, hsc, hnode⟩, hne⟩) (fun _ _ h => h)
      fun _ t₂ h₂ => ?_)
    exact wp_keeps_of h₂ (wp_libvirtCall fun _ _ _ => trivial)

theorem wp_handleInboundMigration (haw : Awaited vm host) :
    (agreement w).wp (handleInboundMigration host vm) (fun _ t => Keeps w s t) s := by
  obtain ⟨name, hn⟩ := haw.scheduledTo.domainName
  refine wp_quiet_bind (quiet_ensureVniMapping _ _) (fun _ _ h => h) fun _ t₁ _ h₁ => ?_
  refine wp_expect_bind hn ?_
  refine wp_quiet_bind (quiet_hasDomain _ _) (fun _ _ h => h₁.trans h) fun has t₂ _ h₂ => ?_
  split
  · exact h₁.trans h₂
  · refine wp_quiet_bind (quiet_lookupByName _ _).attempt (fun _ _ h => (h₁.trans h₂).trans h)
      fun r t₃ _ h₃ => ?_
    have hk : Keeps w s t₃ := (h₁.trans h₂).trans h₃
    split
    · exact trivial
    · refine wp_keeps_of hk (wp_then (wp_libvirtCall fun s₄ _ h₄ =>
        ⟨vm, works (hs.keep (hk.trans h₄)) hw hn, haw⟩) (fun _ _ h => h)
        fun active t₄ h₄ => ?_)
      split
      · exact h₄
      · refine wp_tryStatus_bind (fun _ => h₄) fun st' hst' => ?_
        have hs₄ : Snapshot w t₄ vm := (hs.keep hk).keep h₄
        exact wp_keeps_of h₄ (wp_setStatus hs₄.copy.tracks fun s₅ h₅ =>
          ⟨host, st', hw, haw, (hs₄.keep h₅).seen, hst', rfl⟩)

theorem wp_reconcile : (agreement w).wp (reconcile host vm) (fun _ t => Keeps w s t) s := by
  refine wp_quiet_bind (getEventType_means host vm) (fun _ _ h => h) fun e t₁ he h₁ => ?_
  have hs₁ : Snapshot w t₁ vm := hs.keep h₁
  cases e with
  | deleted => exact wp_keeps_of h₁ (wp_handleDelete hs₁ hw he.1 he.2)
  | added => exact wp_keeps_of h₁ (wp_handleAdd hs₁ hw he.1 he.2)
  | outboundMigration =>
    obtain ⟨destination, hsch, hne⟩ := he
    exact wp_keeps_of h₁ (wp_handleOutboundMigration hs₁ hw hsch hne)
  | inboundMigration => exact wp_keeps_of h₁ (wp_handleInboundMigration hs₁ hw he)
  | missingDomainName => exact h₁
  | unscheduled => exact h₁
  | noNode => exact h₁
  | notOurs => exact h₁
  | updated => exact h₁

end Handlers

end Host

/-! ## All workers together -/

theorem wp_of_isQuiet {p : Prog Unit} (h : IsQuiet p) (s : World) :
    (agreement w).wp p (fun _ _ => True) s := wp_mono (wp_quiet h s) fun _ _ _ => trivial

/-- A reconcile that starts from a logged version keeps the contract of its worker. -/
theorem wp_launch {n : Nat} {p : Prog Unit} (h : World.launch w s n = some (p, t)) :
    (agreement w).wp p (fun _ _ => True) t := by
  obtain ⟨o, ho, hk, hv, rfl, rfl⟩ := World.launch_some h
  have hseen : Function.update s.seen w n w = o.version := by
    rw [Function.update_self, hv]
  cases w with
  | vm k =>
    have hs : Copy (.vm k) { s with seen := Function.update s.seen (.vm k) n } o :=
      ⟨.inl ho, hk, hseen⟩
    have hw : Worker.vm k = .vm o.key := congrArg Worker.vm hk.symm
    show (agreement (.vm k)).wp (if o.isDeleted then .ret () else createVm o) _ _
    split
    · trivial
    · next hd => exact wp_mono (wp_createVm hs hw (by simpa using hd)) fun _ _ _ => trivial
  | vmOvn k =>
    have hs : Copy (.vmOvn k) { s with seen := Function.update s.seen (.vmOvn k) n } o :=
      ⟨.inl ho, hk, hseen⟩
    have hw : Worker.vmOvn k = .vmOvn o.key := congrArg Worker.vmOvn hk.symm
    show (agreement (.vmOvn k)).wp (if o.isDeleted then removeVm o else updateVm o) _ _
    split
    · exact wp_mono (wp_removeVm hs hw) fun _ _ _ => trivial
    · exact wp_mono (wp_updateVm hs hw) fun _ _ _ => trivial
  | node name =>
    show (agreement (.node name)).wp (if o.isDeleted then .ret () else updateNode o) _ _
    split
    · trivial
    · have hw : Worker.node name = .node o.metadata.name := congrArg Worker.node (node_name_eq hk)
      exact wp_mono (wp_updateNode hw) fun _ _ _ => trivial
  | host node k =>
    have hs : Snapshot (.host node k) { s with seen := Function.update s.seen (.host node k) n } o :=
      ⟨ho, hk, hseen⟩
    have hw : Worker.host node k = .host node o.key := congrArg (Worker.host node) hk.symm
    exact wp_mono (Host.wp_reconcile hs hw) fun _ _ _ => trivial
  | network k =>
    refine wp_of_isQuiet ?_ _
    show IsQuiet (if o.isDeleted then removeNetwork o else updateNetwork o)
    split
    · exact quiet_removeNetwork o
    · exact quiet_updateNetwork o
  | router k =>
    refine wp_of_isQuiet ?_ _
    show IsQuiet (if o.isDeleted then removeRouter o else updateRouter o)
    split
    · exact quiet_removeRouter o
    · exact quiet_updateRouter o
  | volume k =>
    refine wp_of_isQuiet ?_ _
    show IsQuiet (if o.isDeleted then Volumes.removeVolume o else Volumes.updateVolume o)
    split
    · exact quiet_removeVolume o
    · exact quiet_updateVolume o
  | image k =>
    refine wp_of_isQuiet ?_ _
    show IsQuiet (if o.isDeleted then Images.removeImage o else Images.updateImage o)
    split
    · exact quiet_removeImage o
    · exact quiet_updateImage o

/-- All reconciles run together on the terms, in any interleaving and among any acts of
users and surroundings. -/
def regime : Regime cluster anything where
  toTerms := terms
  rely_refl := Keeps.refl
  rely_trans := fun _ _ _ _ => Keeps.trans
  call_keeps := by
    rintro w s r a t - ⟨x, -, hx⟩ -
    exact ⟨trivial, fun v _ => keeps_of_answer hx v⟩
  start_keeps := by
    intro w s n p t _ _ hl
    refine ⟨trivial, fun v hv => ?_, wp_launch hl⟩
    obtain ⟨o, -, -, -, -, rfl⟩ := World.launch_some hl
    exact ⟨.of_eq rfl, Function.update_of_ne hv _ _⟩
  stop_keeps := fun w s _ _ => ⟨trivial, fun v _ => ⟨World.grows_release w s, by
    show (World.release w s).seen v = s.seen v
    rw [World.seen_release]⟩⟩
  world_keeps := fun s e t _ _ ht => ⟨trivial, fun v => ⟨World.grows_happen ht, by
    rw [World.seen_happen ht]⟩⟩

/-- Every request of a reachable state keeps the guarantee of its worker. -/
theorem guarantee_of_run {s : World} {c d : ClusterConfig} {r : Request} {x : Choice}
    (hr : cluster.Run anything ⟨s, fun _ => none⟩ c) (hs : cluster.Step c (.call w r x) d) :
    Guarantee w c.state r d.state := by
  have hc : regime.Holds c := Regime.run_holds (Regime.holds_idle trivial) hr
  exact Regime.step_guar hc trivial hs

end ClusterController
