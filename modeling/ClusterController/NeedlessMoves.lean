import ClusterController.AntiAffinity
import ClusterController.MigrationCompletion
import ClusterController.Placement

/-!
# Moves that nobody needs

A reconcile checks whether its VM shares its node with its group before it waits for
`SCHEDULE_MUTEX`, and moves the VM without looking again. The other member may have moved
away by then. What the check has found holds at the write if nothing has taken the last
other member away in between.
-/

namespace ClusterController

open ApiServer (Key KubeError Resource Collection)
open Interaction (Program Contract Terms Regime Machine recent)
open Interaction.Program (Within)
open Interaction.Contract (wp_mono wp_bind wp_attempt wp_project wp_of_within)

/-- Configurations of the cluster with its log. -/
abbrev LoggedConfig := Interaction.Config Worker Request Request.Answer Error Unit LoggedWorld

/-! ## Steps that disturb a reconcile -/

/-- A step leads from one state to another. -/
def World.Leads (s : World) : ClusterEvent → World → Prop
  | .call w r x, t => ∃ a, World.answer w s r x = some (a, t)
  | .start w version, t => t = s.started w version
  | .stop w, t => t = World.release w s
  | .world e, t => s.happen e = some t

/-- The VM is scheduled, and not asked to leave its node. -/
structure AtHome (vm : VirtualMachine) : Prop where
  scheduled : ∃ st, vm.status = some st ∧ st.scheduled = true
  wanted : migrationRequested vm = false

/-- Since it started, the reconcile of the VM has been answered a list of the group with
another VM on the same node. -/
def SawCompanion (s : LoggedWorld) (vm : VirtualMachine) : Prop :=
  ∃ u group l other, antiAffinityGroup vm = some group ∧
    .call (.vm vm.key) u (.kube (.list .virtualMachine (some (antiAffinityLabel, group)))) (.ok l) ∈
      recent (.vm vm.key) s.2 ∧
    other ∈ l ∧ other.key ≠ vm.key ∧ getVmNode other = getVmNode vm

/-- The step takes the last other member of its group from the node of no VM whose
reconcile has started from the stored version and has seen that member there. -/
def Undisturbed (s : LoggedWorld) (e : ClusterEvent) : Prop :=
  ∀ t, s.1.Leads e t → ∀ vm node, s.1.vms.find? vm.key = some vm → t.vms.find? vm.key = some vm →
    s.1.seen (.vm vm.key) = vm.version → AtHome vm → SawCompanion s vm →
    getVmNode vm = some node → HostsOther s.1 vm node → HostsOther t vm node

/-! ## Stored versions -/

/-- How the virtual machines change in one step. -/
inductive VmsStep (s t : World) : Prop
  | same : t.vms = s.vms → VmsStep s t
  | create {o : VirtualMachine} :
      s.vms.find? o.key = none → t.vms = s.vms.record o → VmsStep s t
  | change {old new : VirtualMachine} : s.vms.Changes t.vms old new → VmsStep s t

section Versions

variable {s t : World} {vm : VirtualMachine} {w : Worker}

theorem version_le_of_tracks {c : Collection VirtualMachineSpec VirtualMachineStatus}
    (h : c.Tracks vm) : vm.version ≤ c.revision := by
  rcases h with h | ⟨v, hv, -, hlt⟩
  · exact (c.logged_le vm h).2
  · exact Nat.le_of_lt (Nat.lt_of_lt_of_le hlt (c.logged_le v hv).2)

/-- A version that is stored after a step, and is not new, was stored before. -/
theorem VmsStep.stored_before (h : VmsStep s t) (hv : vm.version ≤ s.vms.revision)
    (ht : t.vms.find? vm.key = some vm) : s.vms.find? vm.key = some vm := by
  have hnew : ∀ n : VirtualMachine, n.version = s.vms.revision + 1 → n ≠ vm := by
    rintro n hn rfl
    omega
  cases h with
  | same he => rwa [he] at ht
  | @create o hnone he =>
    rw [he] at ht
    by_cases hk : vm.key = o.key
    · rw [hk, Collection.find?_record_self rfl] at ht
      exact absurd (Option.some.inj ht) (hnew _ rfl)
    · rwa [Collection.find?_record_of_ne hk] at ht
  | @change old new hc =>
    by_cases hk : vm.key = old.key
    · rw [hk] at ht
      rcases hc.find?_new with hn | hn
      · rw [hn] at ht
        exact absurd (Option.some.inj ht) (hnew _ hc.version_eq)
      · rw [hn.1] at ht
        cases ht
    · rwa [hc.find?_of_ne hk] at ht

/-- The versions of a key before and after a step are one, or one replaces the other. -/
theorem VmsStep.stored {old new : VirtualMachine} (h : VmsStep s t)
    (ho : s.vms.find? old.key = some old) (hn : t.vms.find? old.key = some new) :
    new = old ∨ s.vms.Changes t.vms old new := by
  cases h with
  | same he =>
    rw [he, ho] at hn
    exact .inl (Option.some.inj hn).symm
  | @create o hnone he =>
    have hk : old.key ≠ o.key := by
      intro hk
      rw [← hk, ho] at hnone
      cases hnone
    rw [he, Collection.find?_record_of_ne hk, ho] at hn
    exact .inl (Option.some.inj hn).symm
  | @change old' new' hc =>
    by_cases hk : old.key = old'.key
    · have hold : s.vms.find? old'.key = some old' := hc.key_eq ▸ hc.find?_old
      rw [← hk, ho] at hold
      cases hold
      rcases hc.find?_new with h | ⟨h, -, -⟩
      · rw [hn] at h
        cases h
        exact .inr hc
      · rw [hn] at h
        cases h
    · rw [hc.find?_of_ne hk, ho] at hn
      exact .inl (Option.some.inj hn).symm

theorem vmsStep_of_happen {e : WorldEvent} (h : s.happen e = some t) : VmsStep s t := by
  rcases World.happen_vms h with he | ⟨k, labels, annotations, spec, -, hn, he⟩ | ⟨old, n, -, hc⟩
  · exact .same he
  · refine .create ?_ he
    exact hn
  · exact .change hc

theorem vmsStep_of_guarantee {r : Request} {x : Choice} {a : r.Answer}
    (hx : World.answer w s r x = some (a, t)) (hg : Guarantee w s r t) : VmsStep s t := by
  cases hr : r.writerOfVm with
  | none => exact .same (World.answer_vms hr hx)
  | some writer =>
    rcases hg.wrote hr with he | ⟨old, n, -, hc, -⟩
    · exact .same he
    · exact .change hc

end Versions

/-! ## Terms -/

/-- The last other member stays, as long as the VM is stored. -/
def Spares (w : Worker) (s t : LoggedWorld) : Prop :=
  ∀ vm, w = .vm vm.key → Copy w s.1 vm → t.1.vms.find? vm.key = some vm →
    s.1.vms.find? vm.key = some vm ∧ (AtHome vm → SawCompanion s vm →
      ∀ node, getVmNode vm = some node → HostsOther s.1 vm node → HostsOther t.1 vm node)

/-- The terms of all workers, and of moves of VMs that have not been asked to leave. -/
def companyTerms : Terms Worker Request LoggedWorld where
  inv := fun _ => True
  rely := fun w s t => Keeps w s.1 t.1 ∧ recent w t.2 = recent w s.2 ∧ Spares w s t
  guar := fun w s r t => Guarantee w s.1 r t.1 ∧
    (r.writerOfVm = some .schedulingAndMigrations → ∀ old new,
      s.1.vms.Changes t.1.vms old new → AtHome old →
        ∃ node, getVmNode old = some node ∧ HostsOther s.1 old node)

section Rely

variable {w : Worker} {s t u : LoggedWorld} {vm : VirtualMachine}

theorem SawCompanion.of_recent (h : SawCompanion s vm)
    (hr : recent (.vm vm.key) t.2 = recent (.vm vm.key) s.2) : SawCompanion t vm := by
  obtain ⟨v, group, l, other, hg, hin, ho⟩ := h
  exact ⟨v, group, l, other, hg, hr ▸ hin, ho⟩

theorem company_rely_refl (w : Worker) (s : LoggedWorld) : companyTerms.rely w s s :=
  ⟨Keeps.refl w s.1, rfl, fun _ _ _ h => ⟨h, fun _ _ _ _ h => h⟩⟩

theorem company_rely_trans (h : companyTerms.rely w s t) (h' : companyTerms.rely w t u) :
    companyTerms.rely w s u := by
  obtain ⟨hk, hrec, hsp⟩ := h
  obtain ⟨hk', hrec', hsp'⟩ := h'
  refine ⟨hk.trans hk', hrec'.trans hrec, fun vm hw hc hu => ?_⟩
  obtain ⟨ht, hkeep'⟩ := hsp' vm hw (hc.keep hk) hu
  obtain ⟨hs, hkeep⟩ := hsp vm hw hc ht
  refine ⟨hs, fun hhome hsaw node hn hhosts => ?_⟩
  exact hkeep' hhome (hsaw.of_recent (hw ▸ hrec)) node hn (hkeep hhome hsaw node hn hhosts)

/-- A step that is undisturbed spares every other reconcile. -/
theorem spares_of_step {e : ClusterEvent} (ha : Undisturbed s e) (hlead : s.1.Leads e t.1)
    (hstep : VmsStep s.1 t.1) (w : Worker) : Spares w s t := by
  intro vm hw hc ht
  have hs := hstep.stored_before (version_le_of_tracks hc.tracks) ht
  exact ⟨hs, fun hhome hsaw node hn hhosts =>
    ha t.1 hlead vm node hs ht (hw ▸ hc.seen) hhome hsaw hn hhosts⟩

end Rely

/-! ## From the check to the write -/

section Stays

variable {s t : LoggedWorld} {vm : VirtualMachine}

/-- If the copy is still stored, its reconcile has seen another member of the group on its
node, and one is there. -/
def Crowded (vm : VirtualMachine) (s : LoggedWorld) : Prop :=
  s.1.vms.find? vm.key = some vm → SawCompanion s vm ∧
    ∃ node, getVmNode vm = some node ∧ HostsOther s.1 vm node

/-- What a reconcile keeps while it places no VM. -/
def Stays (vm : VirtualMachine) (s t : LoggedWorld) : Prop :=
  Keeps (.vm vm.key) s.1 t.1 ∧
    (Copy (.vm vm.key) s.1 vm → AtHome vm → Crowded vm s → Crowded vm t)

theorem Stays.refl (vm : VirtualMachine) (s : LoggedWorld) : Stays vm s s :=
  ⟨Keeps.refl _ _, fun _ _ h => h⟩

theorem Stays.trans {u : LoggedWorld} (h : Stays vm s t) (h' : Stays vm t u) : Stays vm s u :=
  ⟨h.1.trans h'.1, fun hc ha hs => h'.2 (hc.keep h.1) ha (h.2 hc ha hs)⟩

theorem stays_of_rely (h : companyTerms.rely (.vm vm.key) s t) : Stays vm s t := by
  obtain ⟨hk, hrec, hsp⟩ := h
  refine ⟨hk, fun hc ha hs ht => ?_⟩
  obtain ⟨hstored, hkeep⟩ := hsp vm rfl hc ht
  obtain ⟨hsaw, node, hn, hhosts⟩ := hs hstored
  exact ⟨hsaw.of_recent hrec, node, hn, hkeep ha hsaw node hn hhosts⟩

/-- A request of the reconcile itself that writes no VM. -/
theorem stays_of_answer {r : Request} {x : Choice} {a : r.Answer} (hr : r.writerOfVm = none)
    (hx : World.answer (.vm vm.key) s.1 r x = some (a, t.1))
    (hlog : t.2 = .call (.vm vm.key) s.1 r a :: s.2) : Stays vm s t := by
  have hvms : t.1.vms = s.1.vms := World.answer_vms hr hx
  refine ⟨keeps_of_answer hx _, fun _ _ hs ht => ?_⟩
  rw [hvms] at ht
  obtain ⟨⟨u, group, l, other, hg, hin, ho⟩, node, hn, hhosts⟩ := hs ht
  refine ⟨⟨u, group, l, other, hg, ?_, ho⟩, node, hn, ?_⟩
  · rw [hlog, Interaction.recent_call_self]
    exact List.mem_cons_of_mem _ hin
  · unfold HostsOther at hhosts ⊢
    rwa [hvms]

end Stays

section Workers

variable [Crates]

abbrev companyAgreement (w : Worker) : Contract Request Request.Answer LoggedWorld :=
  companyTerms.contract cluster.logged Undisturbed w

variable {w : Worker} {s t : LoggedWorld} {vm : VirtualMachine}

theorem exec_undisturbed {r : Request} {a : r.Answer}
    (h : cluster.logged.Exec Undisturbed w s r a t) :
    ∃ x, Undisturbed s (.call w r x) ∧ World.answer w s.1 r x = some (a, t.1) ∧
      t.2 = .call w s.1 r a :: s.2 := by
  obtain ⟨x, ha, hx⟩ := h
  obtain ⟨⟨b, u⟩, hu, he⟩ := Option.map_eq_some_iff.mp hx
  cases he
  exact ⟨x, ha, hu, rfl⟩

/-- What a program keeps that places no VM. -/
theorem wp_unplaced {α : Type} {p : Prog α} {done : α → Prop}
    {post : Except Error α → World → Prop} (hp : p.Within Unplacing done)
    (h : (agreement w).wp p post s.1) :
    (companyAgreement w).wp p (fun x t => post x t.1) s := by
  have hrely : ∀ s t, (companyAgreement w).rely s t → (agreement w).rely s.1 t.1 :=
    fun _ _ hr => hr.1
  refine wp_project Prod.fst hp (fun _ _ _ _ h => ?_) (fun _ _ => trivial) hrely ?_ h
  · obtain ⟨x, -, hx, -⟩ := exec_undisturbed h
    exact ⟨x, trivial, hx⟩
  · exact fun s r a t hr _ _ hg => ⟨hg, fun hw => absurd hw hr⟩

/-- A worker that is not the VM controller places none. -/
theorem wp_company_of_not_vm {p : Prog Unit} {post : Except Error Unit → World → Prop}
    (hw : ∀ k, w ≠ .vm k) (h : (agreement w).wp p post s.1) :
    (companyAgreement w).wp p (fun x t => post x t.1) s := by
  have hrely : ∀ s t, (companyAgreement w).rely s t → (agreement w).rely s.1 t.1 :=
    fun _ _ hr => hr.1
  refine wp_project Prod.fst p.within_any (fun _ _ _ _ h => ?_) (fun _ _ => trivial) hrely ?_ h
  · obtain ⟨x, -, hx, -⟩ := exec_undisturbed h
    exact ⟨x, trivial, hx⟩
  · refine fun s r a t _ _ _ hg => ⟨hg, fun hwr old new hc => ?_⟩
    rcases hg.wrote hwr with hvms | ⟨old', n, -, -, he⟩
    · exact absurd hvms hc.ne
    · exact absurd he.1 (hw old'.key)

theorem wp_stays {α : Type} {p : Prog α} {done : α → Prop} (h : p.Within Quiet done)
    (s : LoggedWorld) :
    (companyAgreement (.vm vm.key)).wp p
      (fun x t => Stays vm s t ∧ ∀ a, x = .ok a → done a) s := by
  refine wp_of_within (Stays.refl vm) (fun _ _ _ => Stays.trans) (fun _ _ h => stays_of_rely h) ?_ h s
  intro s₁ r a t hq _ he
  obtain ⟨x, -, hx, hlog⟩ := exec_undisturbed he
  have hr : r.writerOfVm = none := writerOfVm_of_quiet hq
  refine ⟨⟨guarantee_of_quiet hq, fun hw => ?_⟩, stays_of_answer hr hx hlog⟩
  rw [hr] at hw
  cases hw

section Reconcile

variable {st : VirtualMachineStatus}

/-- What the compliance check has found holds when it returns. -/
theorem wp_isUncompliant_company (hst : vm.status = some st) :
    (companyAgreement (.vm vm.key)).wp (isUncompliant vm)
      (fun x t => Keeps (.vm vm.key) s.1 t.1 ∧ (x = .ok true → Crowded vm t)) s := by
  unfold isUncompliant
  rw [tryStatus_of_some hst]
  change (companyAgreement (.vm vm.key)).wp (if st.scheduled = true then _ else _ : Prog Bool) _ s
  split
  · unfold getOthersInAffinityGroup
    cases hg : vm.metadata.labels.get antiAffinityLabel with
    | none => exact ⟨Keeps.refl _ _, fun h => nomatch h⟩
    | some group =>
      rintro s₁ hr - a t he
      obtain ⟨x, -, hx, hlog⟩ := exec_undisturbed he
      have hk : Keeps (.vm vm.key) s.1 t.1 := hr.1.trans (keeps_of_answer hx _)
      refine ⟨⟨trivial, fun hw => nomatch hw⟩, ?_⟩
      cases a with
      | error e => exact ⟨hk, fun h => nomatch h⟩
      | ok l =>
        obtain ⟨hl, ht⟩ : l = s₁.1.vms.list (some (antiAffinityLabel, group)) ∧ t.1 = s₁.1 := by
          have hd := Option.some.inj hx
          rcases x.deliver_cases (.error .unreachable) s₁.1 (s₁.1.serveKube x
            (.list .virtualMachine (some (antiAffinityLabel, group)))) with h | h | h <;>
            rw [h] at hd
          · exact ⟨(Except.ok.inj (Prod.mk.inj hd).1).symm, (Prod.mk.inj hd).2.symm⟩
          · cases (Prod.mk.inj hd).1
          · cases (Prod.mk.inj hd).1
        refine ⟨hk, fun hany ht' => ?_⟩
        have hany := Except.ok.inj hany
        simp only [List.any_filter, List.any_eq_true, Bool.and_eq_true, decide_eq_true_eq] at hany
        obtain ⟨other, hmem, hne, hsome, hsame⟩ := hany
        obtain ⟨node, hn⟩ := Option.isSome_iff_exists.mp hsome
        have hkey : other.key ≠ vm.key := fun h => hne (by rw [h])
        refine ⟨⟨s₁.1, group, l, other, hg, ?_, hmem, hkey, hsame.symm⟩, node, hn, ?_⟩
        · rw [hlog, Interaction.recent_call_self]
          exact List.mem_cons_self
        · rw [hl] at hmem
          obtain ⟨ho, hlabel⟩ := List.mem_filter.mp hmem
          refine ⟨group, hg, other, ?_, hkey, of_decide_eq_true hlabel, hsame.symm.trans hn⟩
          rw [ht]
          exact ho
  · exact ⟨Keeps.refl _ _, fun h => nomatch h⟩

variable (hc : Copy (.vm vm.key) s.1 vm) (hd : vm.isDeleted = false) (hst : vm.status = some st)
include hc hd hst

/-- A placement of a VM that is at home is only written while its group is on its node. -/
theorem wp_placeVm_company (hcrowded : AtHome vm → Crowded vm s) :
    (companyAgreement (.vm vm.key)).wp (placeVm vm st (migrationRequested vm))
      (fun _ t => Keeps (.vm vm.key) s.1 t.1) s := by
  refine wp_bind (wp_mono (wp_stays (scheduleOrBypass_pinned vm (migrationRequested vm)) s)
    fun x t₁ h₁ => ?_)
  cases x with
  | error e => exact h₁.1.1
  | ok node =>
    rintro s₂ hr - a t he
    obtain ⟨x, -, hx, hlog⟩ := exec_undisturbed he
    have hstays : Stays vm s s₂ := h₁.1.trans (stays_of_rely hr)
    have hc₂ : Copy (.vm vm.key) s₂.1 vm := hc.keep hstays.1
    have heff : Effect (.vm vm.key) s₂.1 vm
        { vm with status := some (scheduledStatus st node (migrationRequested vm)) }
        .schedulingAndMigrations :=
      ⟨rfl, hc₂.seen, hd, st, node, hst, rfl, h₁.2 node rfl⟩
    have hwrote := replaceStatus_wrote hc₂.tracks heff hx
    refine ⟨⟨hwrote, fun _ old new hch hhome => ?_⟩, ?_⟩
    · have hold : old = vm := by
        rcases answer_write (Option.some.inj hx) with ⟨ht, -⟩ | ⟨o, c, hok, ht, -⟩
        · exact absurd (congrArg World.vms ht) hch.ne
        · have hvms : t.1.vms = c := by rw [ht]; exact World.kube_setKube_self
          rcases Collection.replaceStatus_tracks hc₂.tracks hok with ⟨hsame, -, -⟩ | hch'
          · exact absurd (hvms.trans hsame) hch.ne
          · exact (hch.unique (hvms.symm ▸ hch')).1.symm
      subst hold
      have hstored : s₂.1.vms.find? old.key = some old := hch.key_eq ▸ hch.find?_old
      exact (hstays.2 hc hhome (hcrowded hhome) hstored).2
    · have hk : Keeps (.vm vm.key) s.1 t.1 := hstays.1.trans (keeps_of_answer hx _)
      cases a <;> exact hk

/-- The mutex is waited for between the check and the placement. -/
theorem wp_placeVm_company_locked (hcrowded : AtHome vm → Crowded vm s) :
    (companyAgreement (.vm vm.key)).wp (Program.bracket (ask .lockSchedule)
      (placeVm vm st (migrationRequested vm)) (ask .unlockSchedule))
      (fun _ t => Keeps (.vm vm.key) s.1 t.1) s := by
  have hlock : IsQuiet (ask .lockSchedule) := quiet_ask trivial
  have hunlock : IsQuiet (ask .unlockSchedule) := quiet_ask trivial
  refine wp_bind (wp_mono (wp_stays hlock s) fun x t₁ h₁ => ?_)
  cases x with
  | error e => exact h₁.1.1
  | ok _ =>
    have hk₁ : Keeps (.vm vm.key) s.1 t₁.1 := h₁.1.1
    refine wp_bind (wp_attempt (wp_mono (wp_placeVm_company (hc.keep hk₁) hd hst
      fun hhome => h₁.1.2 hc hhome (hcrowded hhome)) fun y t₂ h₂ => ?_))
    refine wp_bind (wp_mono (wp_stays hunlock t₂) fun z t₃ h₃ => ?_)
    have hk : Keeps (.vm vm.key) s.1 t₃.1 := hk₁.trans (h₂.trans h₃.1.1)
    cases z with
    | error e => exact hk
    | ok _ => exact Contract.wp_ofExcept hk

omit hst in
theorem wp_schedulingAndMigrations_company :
    (companyAgreement (.vm vm.key)).wp (schedulingAndMigrations vm)
      (fun _ t => Keeps (.vm vm.key) s.1 t.1) s := by
  refine wp_tryStatus_bind (fun _ => Keeps.refl _ _) fun st hst => ?_
  refine wp_bind (wp_mono (wp_isUncompliant_company hst) fun x t₁ h₁ => ?_)
  cases x with
  | error e => exact h₁.1
  | ok uncompliant =>
    have hplace : (!st.scheduled || migrationRequested vm || uncompliant) = true →
        AtHome vm → Crowded vm t₁ := by
      rintro hwhy ⟨⟨st', hst', hsch⟩, hwanted⟩
      cases hst.symm.trans hst'
      refine h₁.2 (congrArg Except.ok ?_)
      simpa [hsch, hwanted] using hwhy
    refine wp_bind (wp_mono (wp_onlyIf (fun hwhy => wp_placeVm_company_locked (hc.keep h₁.1) hd hst
      (hplace hwhy)) fun _ => Keeps.refl _ _) fun y t₂ h₂ => ?_)
    have hk : Keeps (.vm vm.key) s.1 t₂.1 := h₁.1.trans h₂
    cases y with
    | error e => exact hk
    | ok _ =>
      exact wp_mono (wp_unplaced unplacing_clearSuccessfulMigration
        (wp_clearSuccessfulMigration (hc.keep hk) rfl)) fun _ _ h => hk.trans h

omit hst in
theorem wp_createVm_company :
    (companyAgreement (.vm vm.key)).wp (createVm vm) (fun _ _ => True) s := by
  refine wp_bind (wp_mono (wp_unplaced (unplacing_onlyIf (unplacing_setStatus (by decide)))
    (wp_initializeStatus hc rfl)) fun x t₁ h₁ => ?_)
  cases x with
  | error e => trivial
  | ok _ =>
    refine wp_bind (wp_mono (wp_unplaced unplacing_fillNics (wp_fillNics (hc.keep h₁) rfl))
      fun x t₂ h₂ => ?_)
    have hk₂ : Keeps (.vm vm.key) s.1 t₂.1 := h₁.trans h₂
    cases x with
    | error e => trivial
    | ok _ =>
      refine wp_bind (wp_mono (wp_unplaced unplacing_fillUuid (wp_fillUuid (hc.keep hk₂) rfl))
        fun x t₃ h₃ => ?_)
      cases x with
      | error e => trivial
      | ok n =>
        obtain ⟨hcn, hkey, hdn⟩ := h₃.2 n rfl
        rw [← hkey] at hcn ⊢
        exact wp_mono (wp_schedulingAndMigrations_company hcn (hdn.trans hd)) fun _ _ _ => trivial

end Reconcile

theorem wp_createVm_of (hw : w = .vm vm.key) (hc : Copy w s.1 vm) (hd : vm.isDeleted = false) :
    (companyAgreement w).wp (createVm vm) (fun _ _ => True) s := by
  subst hw
  exact wp_createVm_company hc hd

/-! ## All workers together -/

theorem wp_launch_company {n : Nat} {p : Prog Unit}
    (h : cluster.logged.launch w s n = some (p, t)) :
    (companyAgreement w).wp p (fun _ _ => True) t := by
  obtain ⟨⟨q, u⟩, hu, he⟩ := Option.map_eq_some_iff.mp h
  cases he
  by_cases hw : ∃ k, w = .vm k
  · obtain ⟨k, rfl⟩ := hw
    obtain ⟨o, ho, hk, hv, rfl, rfl⟩ := World.launch_some hu
    have hc : Copy (.vm k) { s.1 with seen := Function.update s.1.seen (.vm k) n } o := by
      refine ⟨.inl ho, hk, ?_⟩
      rw [hv]
      exact Function.update_self _ _ _
    show (companyAgreement (.vm k)).wp (if o.isDeleted then .ret () else createVm o) _ _
    split
    · trivial
    · next hd => exact wp_createVm_of (congrArg Worker.vm hk.symm) hc (by simpa using hd)
  · have hl : World.launch w s.1 n = some (q, u) := hu
    exact wp_company_of_not_vm (fun k hk => hw ⟨k, hk⟩) (wp_launch hl)

/-- All reconciles run together on these terms. -/
def companyRegime : Regime cluster.logged Undisturbed where
  toTerms := companyTerms
  rely_refl := company_rely_refl
  rely_trans := fun _ _ _ _ => company_rely_trans
  call_keeps := by
    intro w s r a t _ hexec hg
    obtain ⟨x, ha, hx, hlog⟩ := exec_undisturbed hexec
    refine ⟨trivial, fun v hv => ⟨keeps_of_answer hx v, ?_, ?_⟩⟩
    · rw [hlog]
      exact Interaction.recent_call_of_ne (Ne.symm hv)
    · exact spares_of_step ha ⟨a, hx⟩ (vmsStep_of_guarantee hx hg.1) v
  start_keeps := by
    intro w s n p t _ ha hl
    refine ⟨trivial, fun v hv => ?_, wp_launch_company hl⟩
    obtain ⟨⟨q, u⟩, hu, he⟩ := Option.map_eq_some_iff.mp hl
    cases he
    obtain ⟨-, hrely, -⟩ := regime.start_keeps w s.1 n _ u trivial trivial hu
    obtain ⟨o, -, -, -, -, rfl⟩ := World.launch_some hu
    exact ⟨hrely v hv, Interaction.recent_start_of_ne (Ne.symm hv),
      spares_of_step (t := (s.1.started w n, .start w :: s.2)) ha rfl (.same rfl) v⟩
  stop_keeps := fun w s _ ha =>
    ⟨trivial, fun v hv => ⟨(regime.stop_keeps w s.1 trivial trivial).2 v hv, rfl,
      spares_of_step (t := (World.release w s.1, s.2)) ha rfl (.same (World.release_vms w s.1)) v⟩⟩
  world_keeps := by
    intro s e t _ ha ht
    obtain ⟨u, hu, he⟩ := Option.map_eq_some_iff.mp ht
    cases he
    exact ⟨trivial, fun v => ⟨(regime.world_keeps s.1 e u trivial trivial hu).2 v, rfl,
      spares_of_step (t := (u, s.2)) ha hu (vmsStep_of_happen hu) v⟩⟩

/-- Who changes the node of a VM in an undisturbed run. -/
theorem placed_of_step {c d : LoggedConfig} {e : ClusterEvent} {old new : VirtualMachine}
    (hh : companyRegime.Holds c) (ha : Undisturbed c.state e) (hs : cluster.logged.Step c e d)
    (ho : c.state.1.vms.find? old.key = some old) (hn : d.state.1.vms.find? old.key = some new)
    (hmoved : getVmNode new ≠ getVmNode old) :
    c.state.1.vms.Changes d.state.1.vms old new ∧
      ∃ w r x, e = .call w r x ∧ r.writerOfVm = some .schedulingAndMigrations := by
  have hne : new ≠ old := fun h => hmoved (by rw [h])
  have hchange : VmsStep c.state.1 d.state.1 → c.state.1.vms.Changes d.state.1.vms old new :=
    fun h => (h.stored ho hn).resolve_left hne
  have hsame : d.state.1.vms ≠ c.state.1.vms := fun h => (hchange (.same h)).ne h
  have hg : ∀ w r x, e = .call w r x → companyTerms.guar w c.state r d.state := by
    rintro w r x rfl
    exact Regime.step_guar hh ha hs
  obtain ⟨hplain, -⟩ := hs.plain
  have hd : d.plain.state = d.state.1 := rfl
  generalize d.plain = d' at hplain hd
  cases hplain with
  | @call w r k x a t hw hx =>
    have ht : t = d.state.1 := hd
    subst ht
    obtain ⟨hguar, -⟩ := hg w r x rfl
    have hc := hchange (vmsStep_of_guarantee hx hguar)
    refine ⟨hc, w, r, x, rfl, ?_⟩
    cases hr : r.writerOfVm with
    | none => exact absurd (World.answer_vms hr hx) hsame
    | some writer =>
      rcases hguar.wrote hr with hvms | ⟨old', n, -, hc', heff⟩
      · exact absurd hvms hsame
      · obtain ⟨rfl, rfl⟩ := hc.unique hc'
        by_contra hwriter
        exact hmoved (heff.getVmNode_eq fun h => hwriter (congrArg some h))
  | start hw hl =>
    obtain ⟨o, -, -, -, -, rfl⟩ := World.launch_some hl
    exact absurd (congrArg World.vms hd).symm hsame
  | @stop w p hw =>
    have hvms := World.release_vms w c.plain.state
    exact absurd ((congrArg World.vms hd).symm.trans hvms) hsame
  | @world e t ht =>
    have hd : t = d.state.1 := hd
    subst hd
    have hc := hchange (vmsStep_of_happen ht)
    rcases World.happen_vms ht with hvms | ⟨k, labels, annotations, spec, -, hnone, hvms⟩ |
      ⟨old', n, htouch, hc'⟩
    · exact absurd hvms hsame
    · -- A version that is created replaces none.
      have hlog := hc.history_eq
      rw [hvms] at hlog
      have hfind := hc.find?_old
      rw [← (List.cons.inj hlog).1] at hfind
      exact absurd (hnone.symm.trans hfind) nofun
    · obtain ⟨rfl, rfl⟩ := hc.unique hc'
      refine absurd ?_ hmoved
      unfold getVmNode
      exact congrArg (Option.bind · VirtualMachineStatus.node) htouch.status

/-- In every undisturbed run, a VM that is at home is only moved while another member of
its group is on its node. -/
theorem no_needless_move {s : World} {c d : LoggedConfig} {e : ClusterEvent}
    {old new : VirtualMachine} (hr : cluster.logged.Run Undisturbed ⟨(s, []), fun _ => none⟩ c)
    (ha : Undisturbed c.state e) (hs : cluster.logged.Step c e d)
    (ho : c.state.1.vms.find? old.key = some old) (hn : d.state.1.vms.find? old.key = some new)
    (hhome : AtHome old) (hmoved : getVmNode new ≠ getVmNode old) :
    ∃ node, getVmNode old = some node ∧ HostsOther c.state.1 old node := by
  have hh : companyRegime.Holds c := Regime.run_holds (Regime.holds_idle trivial) hr
  obtain ⟨hc, w, r, x, rfl, hw⟩ := placed_of_step hh ha hs ho hn hmoved
  have hg : companyTerms.guar w c.state r d.state := Regime.step_guar hh ha hs
  exact hg.2 hw old new hc hhome

end Workers

/-! ## Two reconciles -/

section Scripts

attribute [local instance] plainCrates

/-- The VMs `x` and `y` are on one node when they are put into one group, and two more nodes
are there. -/
def sharedNodeScript : List ClusterCommand :=
  [.world (.create .node ⟨"", "a"⟩ [] [] ()),
   .world (.create .virtualMachine ⟨"n", "x"⟩ [] [] plainSpec),
   .world (.create .virtualMachine ⟨"n", "y"⟩ [] [] plainSpec)] ++
  serveAll (.vm ⟨"n", "x"⟩) 1 1 ++ serveAll (.vm ⟨"n", "y"⟩) 2 1 ++
  serveAll (.vm ⟨"n", "x"⟩) 3 7 ++ serveAll (.vm ⟨"n", "y"⟩) 4 7 ++
  [.world (.create .node ⟨"", "b"⟩ [] [] ()), .world (.create .node ⟨"", "c"⟩ [] [] ()),
   .world (.edit .virtualMachine ⟨"n", "x"⟩ [(antiAffinityLabel, "g")] [] plainSpec),
   .world (.edit .virtualMachine ⟨"n", "y"⟩ [(antiAffinityLabel, "g")] [] plainSpec)]

/-- Both reconciles have made their check, `x` has moved, and `y` is about to. -/
def bothMoveScript : List ClusterCommand :=
  sharedNodeScript ++ serve (.vm ⟨"n", "x"⟩) 7 2 ++ serve (.vm ⟨"n", "y"⟩) 8 2 ++
  List.replicate 7 (.call (.vm ⟨"n", "x"⟩) {}) ++ List.replicate 5 (.call (.vm ⟨"n", "y"⟩) {})

/-- The second VM is moved although it is alone on its node. -/
theorem needless_move : ∃ (c d : ClusterConfig) (e : ClusterEvent) (old new : VirtualMachine),
    cluster.Run anything ⟨World.initial, fun _ => none⟩ c ∧ cluster.Step c e d ∧
      c.state.vms.find? old.key = some old ∧ d.state.vms.find? old.key = some new ∧
      AtHome old ∧ getVmNode new ≠ getVmNode old ∧
      ¬∃ node, getVmNode old = some node ∧ HostsOther c.state old node := by
  obtain ⟨c, hr, hc⟩ := Interaction.Machine.play_reaches (M := cluster) anything
    ⟨World.initial, fun _ => none⟩ bothMoveScript
    (fun c => (c.state.vms.find? ⟨"n", "y"⟩).any fun old =>
      (old.status.any fun st => st.scheduled) && !migrationRequested old &&
      c.state.vms.objects.all (fun o => o.key = old.key || getVmNode o ≠ getVmNode old) &&
      (cluster.obey anything c (.call (.vm ⟨"n", "y"⟩) {})).any fun d =>
        (d.state.vms.find? ⟨"n", "y"⟩).any fun new => getVmNode new ≠ getVmNode old)
    (by decide +kernel)
  simp only [Option.any_eq_true, Bool.and_eq_true, Bool.not_eq_true', List.all_eq_true,
    Bool.or_eq_true, decide_eq_true_eq] at hc
  obtain ⟨old, hold, ⟨⟨⟨st, hst, hsch⟩, hwanted⟩, halone⟩, d, hd, new, hnew, hmoved⟩ := hc
  obtain ⟨r, -, -, hs⟩ := Interaction.Machine.obey_call hd
  have hk : old.key = ⟨"n", "y"⟩ := Collection.key_of_find? hold
  refine ⟨c, d, _, old, new, hr, hs, hk ▸ hold, hk ▸ hnew, ⟨⟨st, hst, hsch⟩, hwanted⟩, hmoved, ?_⟩
  rintro ⟨node, hn, group, -, other, ho, hne, -, hon⟩
  rcases halone other ho with h | h
  · exact hne h
  · exact h (hon.trans hn.symm)

/-- The request is a list of virtual machines. -/
def listsVms : Request → Bool
  | .kube (.list .virtualMachine _) => true
  | _ => false

/-- The workers that have listed virtual machines. -/
def listers (log : Interaction.Log Worker Request Request.Answer World) : List Worker :=
  log.filterMap fun
    | .call w _ r _ => if listsVms r then some w else none
    | .start _ => none

/-- Nobody has listed virtual machines yet, or the step changes none. -/
def harmless (s : LoggedWorld) (e : ClusterEvent) : Bool :=
  listers s.2 = [] || match e with
    | .call _ r _ => r.writerOfVm = none
    | .world _ => false
    | _ => true

theorem SawCompanion.mem_listers {s : LoggedWorld} {vm : VirtualMachine} (h : SawCompanion s vm) :
    .vm vm.key ∈ listers s.2 := by
  obtain ⟨u, group, l, other, -, hin, -⟩ := h
  refine List.mem_filterMap.mpr ⟨_, Interaction.mem_of_recent hin, ?_⟩
  rfl

theorem undisturbed_of_harmless {s : LoggedWorld} {e : ClusterEvent} (h : harmless s e = true) :
    Undisturbed s e := by
  intro t ht vm node _ _ _ _ hsaw _ hhosts
  rcases Bool.or_eq_true_iff.mp h with hnone | hquiet
  · have hmem := hsaw.mem_listers
    rw [of_decide_eq_true hnone] at hmem
    cases hmem
  · have hvms : t.vms = s.1.vms := by
      cases e with
      | call w r x =>
        obtain ⟨a, hx⟩ := ht
        exact World.answer_vms (of_decide_eq_true hquiet) hx
      | start w version =>
        have ht : t = s.1.started w version := ht
        rw [ht]
        rfl
      | stop w => exact (congrArg World.vms ht).trans (World.release_vms w s.1)
      | world e => cases hquiet
    unfold HostsOther at hhosts ⊢
    rwa [hvms]

/-- The VM `x` has made its check and chosen another node. -/
def oneMovesScript : List ClusterCommand :=
  sharedNodeScript ++ serve (.vm ⟨"n", "x"⟩) 7 2 ++ List.replicate 5 (.call (.vm ⟨"n", "x"⟩) {})

theorem no_needless_move_pair : ∃ (c d : LoggedConfig) (old new : VirtualMachine),
    c.state.1.vms.find? old.key = some old ∧ d.state.1.vms.find? old.key = some new ∧
      getVmNode new ≠ getVmNode old ∧
      ∃ node, getVmNode old = some node ∧ HostsOther c.state.1 old node := by
  obtain ⟨c, hr, hc⟩ := Interaction.Machine.play_reaches (M := cluster.logged)
    (fun s e => harmless s e = true) ⟨(World.initial, []), fun _ => none⟩ oneMovesScript
    (fun c => (c.state.1.vms.find? ⟨"n", "x"⟩).any fun old =>
      (old.status.any fun st => st.scheduled) && !migrationRequested old &&
      (listers c.state.2).all (fun w => w = .vm old.key) &&
      (cluster.logged.obey (fun _ _ => True) c (.call (.vm ⟨"n", "x"⟩) {})).any fun d =>
        (d.state.1.vms.find? ⟨"n", "x"⟩).any fun new => getVmNode new ≠ getVmNode old)
    (by decide +kernel)
  simp only [Option.any_eq_true, Bool.and_eq_true, Bool.not_eq_true', List.all_eq_true,
    decide_eq_true_eq] at hc
  obtain ⟨old, hold, ⟨⟨⟨st, hst, hsch⟩, hwanted⟩, halone⟩, d, hd, new, hnew, hmoved⟩ := hc
  obtain ⟨r, -, -, hs⟩ := Interaction.Machine.obey_call hd
  have hk : old.key = ⟨"n", "x"⟩ := Collection.key_of_find? hold
  have ha : Undisturbed c.state (.call (.vm ⟨"n", "x"⟩) r {}) := by
    rintro t ⟨a, ht⟩ vm node hbefore hafter - - hsaw - -
    -- Only the reconcile of `x` has made a list, and `x` changes.
    have hvm : vm.key = old.key := Worker.vm.inj (halone _ hsaw.mem_listers)
    rw [hvm, hk, hold] at hbefore
    cases hbefore
    obtain ⟨a', ha'⟩ := hs.answered
    obtain ⟨⟨b, u⟩, hu, he⟩ := Option.map_eq_some_iff.mp ha'
    have hd : u = d.state.1 := congrArg (fun p => p.2.1) he
    cases ht.symm.trans hu
    rw [hk, hd, hnew] at hafter
    cases hafter
    exact absurd rfl hmoved
  refine ⟨c, d, old, new, hk ▸ hold, hk ▸ hnew, hmoved, ?_⟩
  exact no_needless_move (hr.mono fun _ _ => undisturbed_of_harmless) ha hs (hk ▸ hold) (hk ▸ hnew)
    ⟨⟨st, hst, hsch⟩, hwanted⟩ hmoved

end Scripts

end ClusterController
