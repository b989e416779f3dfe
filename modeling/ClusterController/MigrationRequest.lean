import ClusterController.Alone
import ClusterController.Contracts

/-!
# Migration requests are one-shot

Once a VM has left the node that its migration annotation names, the annotation is cleared
by the last step of `scheduling_and_migrations`. That step is not reached when the VM has
to be rescheduled and no node is found, and the annotation can be the reason for this: the
node it names is no candidate. `canClear` says when the annotation goes away.
-/

namespace ClusterController

open ApiServer (StringMap Key KubeError Resource Collection)
open Interaction (Program)
open Interaction.Program (Outcome Within ends_bind ends_bind_of_reads ends_attempt exists_ends_bind)

/-! ## What the scheduler reads -/

/-- The annotation names another node than the one the VM is on. -/
def leftNode (vm : VirtualMachine) : Bool :=
  match migrationRequestedFrom vm with
  | some nodeToLeave => getVmNode vm ≠ some nodeToLeave
  | none => false

namespace World

/-- The nodes that are not in maintenance. -/
def openNodes (s : World) : List Node := removeNodesInMaintenance ((s.kube .node).list none)

/-- The anti-affinity group of the VM. -/
def group (s : World) (vm : VirtualMachine) : List VirtualMachine :=
  match vm.metadata.labels.get antiAffinityLabel with
  | some group => s.vms.list (some (antiAffinityLabel, group))
  | none => []

/-- The VM is on the node of another member of its group. -/
def crowded (s : World) (vm : VirtualMachine) : Bool :=
  (s.group vm).any fun other =>
    namePrefixedWithNamespace other.key ≠ namePrefixedWithNamespace vm.key &&
      ((getVmNode vm).isSome && getVmNode vm = getVmNode other)

/-- The nodes that anti-affinity excludes. -/
def blocked (s : World) (vm : VirtualMachine) (ignoreAffinity : Bool) : List String :=
  if ignoreAffinity then [] else (s.group vm).filterMap getVmNode

/-- The candidates for a VM that its spec does not pin. -/
def eligible (s : World) (vm : VirtualMachine) (ignoreAffinity : Bool) : List Node :=
  removeCandidateNodes (openCandidates vm s.openNodes) (s.blocked vm ignoreAffinity)

/-- The open node of a name. -/
def openNode (s : World) (name : String) : Option Node :=
  s.openNodes.find? fun c => c.metadata.name = name

/-- What a search for a node comes to. -/
def Finds (s : World) (vm : VirtualMachine) (ignoreAffinity : Bool) (o : Outcome Error Node) :
    Prop :=
  match vm.spec.node with
  | some name => (∃ node, s.openNode name = some node ∧ o = .ok node) ∨
      (s.openNode name = none ∧ ∃ e, o = .err e)
  | none => (∃ node ∈ s.eligible vm ignoreAffinity, o = .ok node) ∨
      (s.eligible vm ignoreAffinity = [] ∧ ∃ e, o = .err e)

section Finds

variable {s : World} {vm : VirtualMachine} {ignoreAffinity : Bool} {name : String} {node : Node}
  {e : Error}

theorem not_finds_aborted {m : String} : ¬ s.Finds vm ignoreAffinity (.aborted m) := by
  unfold Finds
  split
  · rintro (⟨node, -, h⟩ | ⟨-, e, h⟩) <;> cases h
  · rintro (⟨node, -, h⟩ | ⟨-, e, h⟩) <;> cases h

theorem Finds.pinned (h : s.Finds vm ignoreAffinity (.ok node)) (hp : vm.spec.node = some name) :
    s.openNode name = some node := by
  unfold Finds at h
  rw [hp] at h
  rcases h with ⟨node', hn, ho⟩ | ⟨-, e, ho⟩ <;> cases ho
  exact hn

theorem Finds.eligible (h : s.Finds vm ignoreAffinity (.ok node)) (hp : vm.spec.node = none) :
    node ∈ s.eligible vm ignoreAffinity := by
  unfold Finds at h
  rw [hp] at h
  rcases h with ⟨node', hn, ho⟩ | ⟨-, e, ho⟩ <;> cases ho
  exact hn

theorem Finds.not_pinned (h : s.Finds vm ignoreAffinity (.err e)) (hp : vm.spec.node = some name) :
    s.openNode name = none := by
  unfold Finds at h
  rw [hp] at h
  rcases h with ⟨node', -, ho⟩ | ⟨hn, -⟩
  · cases ho
  · exact hn

theorem Finds.not_eligible (h : s.Finds vm ignoreAffinity (.err e)) (hp : vm.spec.node = none) :
    s.eligible vm ignoreAffinity = [] := by
  unfold Finds at h
  rw [hp] at h
  rcases h with ⟨node', -, ho⟩ | ⟨hn, -⟩
  · cases ho
  · exact hn

end Finds

end World

/-- The VM has to be placed: it has no node yet, it has to leave its node, or another
member of its group is on it. -/
def mustPlace (s : World) (vm : VirtualMachine) (st : VirtualMachineStatus) : Bool :=
  !st.scheduled || migrationRequested vm || (st.scheduled && s.crowded vm)

/-! ## The steps of the scheduler -/

section Steps

variable {w : Worker} {s t : World} {vm : VirtualMachine} {st : VirtualMachineStatus}

theorem tryStatus_of_some (hst : vm.status = some st) : tryStatus vm = .ok st := by
  unfold tryStatus
  rw [hst]

theorem ends_getOthersInAffinityGroup {o : Outcome Error (List VirtualMachine)}
    (h : (getOthersInAffinityGroup vm).Ends (Served w) s o t) :
    o = .ok ((s.group vm).filter fun other =>
      namePrefixedWithNamespace other.key ≠ namePrefixedWithNamespace vm.key) ∧ t = s := by
  unfold getOthersInAffinityGroup at h
  unfold World.group
  cases hg : vm.metadata.labels.get antiAffinityLabel with
  | none =>
    rw [hg] at h
    exact h
  | some group =>
    rw [hg] at h
    exact ends_bind_of_reads (fun _ _ => ends_kubeList) h

theorem ends_isUncompliant {o : Outcome Error Bool} (hst : vm.status = some st)
    (h : (isUncompliant vm).Ends (Served w) s o t) :
    o = .ok (st.scheduled && s.crowded vm) ∧ t = s := by
  unfold isUncompliant at h
  rw [tryStatus_of_some hst] at h
  change (if st.scheduled = true then _ else _ : Prog Bool).Ends (Served w) s o t at h
  cases hsch : st.scheduled with
  | false =>
    rw [if_neg (by simp [hsch])] at h
    exact h
  | true =>
    rw [if_pos hsch] at h
    have h := ends_bind_of_reads (fun _ _ => ends_getOthersInAffinityGroup) h
    rw [Bool.true_and, World.crowded, ← List.any_filter]
    exact h

theorem ends_blockedNodes {ignoreAffinity : Bool} {o : Outcome Error (List String)}
    (h : (blockedNodes vm ignoreAffinity).Ends (Served w) s o t) :
    o = .ok (s.blocked vm ignoreAffinity) ∧ t = s := by
  cases ignoreAffinity with
  | true => exact h
  | false =>
    change (match vm.metadata.labels.get antiAffinityLabel with
      | some group => getNodesWithLabelScheduled antiAffinityLabel group
      | none => .ret [] : Prog (List String)).Ends (Served w) s o t at h
    show o = .ok ((s.group vm).filterMap getVmNode) ∧ t = s
    unfold World.group
    cases hg : vm.metadata.labels.get antiAffinityLabel with
    | none =>
      rw [hg] at h
      exact h
    | some group =>
      rw [hg] at h
      exact ends_bind_of_reads (fun _ _ => ends_kubeList) h

theorem ends_scheduleSpan {b : Bool} {o : Outcome Error Unit}
    (h : (ask (.scheduleSpan b)).Ends (Served w) s o t) : o = .ok () ∧ t = s := by
  obtain ⟨a, ⟨x, -, hx⟩, ho⟩ := ends_ask h
  cases hx
  exact ⟨ho, rfl⟩

theorem ends_schedule {ignoreAffinity : Bool} {o : Outcome Error Node}
    (h : (schedule vm ignoreAffinity).Ends (Served w) s o t) :
    s.Finds vm ignoreAffinity o ∧ t = s := by
  have h := ends_bind_of_reads (fun _ _ => ends_scheduleSpan) h
  have h := ends_bind_of_reads (fun _ _ => ends_kubeList) h
  unfold World.Finds
  cases hp : vm.spec.node with
  | some name =>
    rw [hp] at h
    dsimp only at h
    cases hn : s.openNode name with
    | some node =>
      simp only [World.openNode, World.openNodes] at hn
      rw [hn] at h
      exact ⟨.inl ⟨node, hn, h.1⟩, h.2⟩
    | none =>
      simp only [World.openNode, World.openNodes] at hn
      rw [hn] at h
      exact ⟨.inr ⟨hn, _, h.1⟩, h.2⟩
  | none =>
    rw [hp] at h
    have h := ends_bind_of_reads (fun _ _ => ends_blockedNodes) h
    rcases ends_bind.mp h with ⟨node, s₃, hc, h⟩ | ⟨e, he, -⟩ | ⟨m, hm, -⟩
    · obtain ⟨rfl, ⟨hnil, hnode⟩ | ⟨node', hmem, hnode⟩⟩ := ends_choose hc
      · cases hnode
        exact ⟨.inr ⟨hnil, _, h.1⟩, h.2⟩
      · cases hnode
        exact ⟨.inl ⟨node', hmem, h.1⟩, h.2⟩
    · obtain ⟨-, ⟨-, ho⟩ | ⟨node', -, ho⟩⟩ := ends_choose he <;> cases ho
    · obtain ⟨-, ⟨-, ho⟩ | ⟨node', -, ho⟩⟩ := ends_choose hm <;> cases ho

/-- Where no migration is required, the node is found without bypassing anti-affinity. -/
theorem ends_scheduleOrBypass {migrationRequired : Bool} {o : Outcome Error Node}
    (h : (scheduleOrBypass vm migrationRequired).Ends (Served w) s o t) :
    (∃ ignoreAffinity, (migrationRequired = false → ignoreAffinity = false) ∧
      s.Finds vm ignoreAffinity o) ∧ t = s := by
  rcases ends_bind.mp h with ⟨x, s₁, hx, hk⟩ | ⟨e, he, -⟩ | ⟨m, hm, rfl⟩
  · rcases ends_attempt.mp hx with ⟨node, hn, ho⟩ | ⟨e, he, ho⟩ | ⟨m, -, ho⟩
    · cases ho
      obtain ⟨hf, rfl⟩ := ends_schedule hn
      obtain ⟨rfl, rfl⟩ := hk
      exact ⟨⟨false, fun _ => rfl, hf⟩, rfl⟩
    · cases ho
      obtain ⟨hf, rfl⟩ := ends_schedule he
      cases migrationRequired with
      | false =>
        obtain ⟨rfl, rfl⟩ := hk
        exact ⟨⟨false, fun _ => rfl, hf⟩, rfl⟩
      | true =>
        obtain ⟨hf, rfl⟩ := ends_schedule hk
        exact ⟨⟨true, (fun h => nomatch h), hf⟩, rfl⟩
    · cases ho
  · rcases ends_attempt.mp he with ⟨node, -, ho⟩ | ⟨e, -, ho⟩ | ⟨m, -, ho⟩ <;> cases ho
  · rcases ends_attempt.mp hm with ⟨node, -, ho⟩ | ⟨e, -, ho⟩ | ⟨m, hm, ho⟩
    · cases ho
    · cases ho
    · cases ho
      exact absurd (ends_schedule hm).1 World.not_finds_aborted

theorem ends_placeVm {migrationRequired : Bool} {o : Outcome Error Unit}
    (h : (placeVm vm st migrationRequired).Ends (Served w) s o t) :
    (∃ e, o = .err e ∧ t = s ∧ (migrationRequired = false → s.Finds vm false (.err e))) ∨
    ∃ node, (migrationRequired = false → s.Finds vm false (.ok node)) ∧
      Written .virtualMachine (s.vms.replaceStatus vm.key vm.version
        (scheduledStatus st node migrationRequired)) s o t := by
  rcases ends_bind.mp h with ⟨node, s₁, hn, hk⟩ | ⟨e, he, rfl⟩ | ⟨m, hm, -⟩
  · obtain ⟨⟨b, hb, hf⟩, rfl⟩ := ends_scheduleOrBypass hn
    refine .inr ⟨node, fun hr => ?_, ends_setStatus hk⟩
    rw [hb hr] at hf
    exact hf
  · obtain ⟨⟨b, hb, hf⟩, rfl⟩ := ends_scheduleOrBypass he
    refine .inl ⟨e, rfl, rfl, fun hr => ?_⟩
    rw [hb hr] at hf
    exact hf
  · obtain ⟨⟨b, -, hf⟩, -⟩ := ends_scheduleOrBypass hm
    exact absurd hf World.not_finds_aborted

/-- The mutex is taken before and given back after what runs under it. -/
theorem ends_underMutex {p : Prog Unit} {o : Outcome Error Unit}
    (h : (Program.bracket (ask .lockSchedule) p (ask .unlockSchedule)).Ends (Served w) s o t) :
    ∃ u, p.Ends (Served w) { s with scheduler := some w } o u ∧ t.kube = u.kube := by
  obtain ⟨a, s₁, ⟨x, -, hx⟩, hbody⟩ := ends_ask_bind h
  simp only [World.answer] at hx
  split at hx
  · cases hx
    rcases ends_bind.mp hbody with ⟨y, u, hy, hk⟩ | ⟨e, he, -⟩ | ⟨m, hm, rfl⟩
    · obtain ⟨b, u', ⟨x', -, hx'⟩, hk⟩ := ends_ask_bind hk
      simp only [World.answer] at hx'
      split at hx'
      · cases hx'
        rcases ends_attempt.mp hy with ⟨v, hv, ho⟩ | ⟨e, he, ho⟩ | ⟨m, -, ho⟩
        · cases ho
          obtain ⟨rfl, rfl⟩ := hk
          exact ⟨u, hv, rfl⟩
        · cases ho
          obtain ⟨rfl, rfl⟩ := hk
          exact ⟨u, he, rfl⟩
        · cases ho
      · cases hx'
    · rcases ends_attempt.mp he with ⟨v, -, ho⟩ | ⟨e, -, ho⟩ | ⟨m, -, ho⟩ <;> cases ho
    · rcases ends_attempt.mp hm with ⟨v, -, ho⟩ | ⟨e, -, ho⟩ | ⟨m, hm, ho⟩
      · cases ho
      · cases ho
      · cases ho
        exact ⟨t, hm, rfl⟩
  · cases hx

/-- Clearing the annotation is a write of the copy without it. -/
theorem ends_clearSuccessfulMigration {o : Outcome Error Unit}
    (h : (clearSuccessfulMigration vm).Ends (Served w) s o t) :
    (leftNode vm = true ∧
      Written .virtualMachine (s.vms.replace (dropMigrationRequest vm)) s o t) ∨
    (leftNode vm = false ∧ t = s) := by
  unfold clearSuccessfulMigration at h
  unfold leftNode
  cases hm : migrationRequestedFrom vm with
  | none =>
    rw [hm] at h
    exact .inr ⟨rfl, h.2⟩
  | some nodeToLeave =>
    rw [hm] at h
    change (if _ then _ else _ : Prog Unit).Ends (Served w) s o t at h
    split at h
    · next hne => exact .inl ⟨decide_eq_true hne, ends_commit h⟩
    · next hne => exact .inr ⟨decide_eq_false hne, h.2⟩

/-- A run places the VM, if that is necessary, and clears the annotation unless this fails. -/
theorem ends_schedulingAndMigrations {o : Outcome Error Unit} (hst : vm.status = some st)
    (h : (schedulingAndMigrations vm).Ends (Served w) s o t) :
    (mustPlace s vm st = false ∧ (clearSuccessfulMigration vm).Ends (Served w) s o t) ∨
    (mustPlace s vm st = true ∧ ∃ o₁ u s₁,
      (placeVm vm st (migrationRequested vm)).Ends (Served w) { s with scheduler := some w } o₁ u ∧
      s₁.kube = u.kube ∧
      ((o₁ = .ok () ∧ (clearSuccessfulMigration vm).Ends (Served w) s₁ o t) ∨
        (o₁ ≠ .ok () ∧ t.kube = u.kube))) := by
  unfold schedulingAndMigrations at h
  rw [tryStatus_of_some hst] at h
  have h := ends_bind_of_reads (fun _ _ => ends_isUncompliant hst) h
  unfold onlyIf at h
  cases hmp : mustPlace s vm st with
  | false =>
    left
    refine ⟨rfl, ?_⟩
    rw [if_neg (by unfold mustPlace at hmp; simpa using hmp)] at h
    exact h
  | true =>
    right
    refine ⟨rfl, ?_⟩
    unfold mustPlace at hmp
    rw [if_pos hmp] at h
    rcases ends_bind.mp h with ⟨a, s₁, hb, hk⟩ | ⟨e, he, rfl⟩ | ⟨m, hm, rfl⟩
    · obtain ⟨u, hp, hkube⟩ := ends_underMutex hb
      exact ⟨_, u, s₁, hp, hkube, .inl ⟨rfl, hk⟩⟩
    · obtain ⟨u, hp, hkube⟩ := ends_underMutex he
      exact ⟨_, u, t, hp, hkube, .inr ⟨nofun, hkube⟩⟩
    · obtain ⟨u, hp, hkube⟩ := ends_underMutex hm
      exact ⟨_, u, t, hp, hkube, .inr ⟨nofun, hkube⟩⟩

end Steps

/-! ## One run -/

section Run

variable {w : Worker} {s t : World} {vm : VirtualMachine} {st : VirtualMachineStatus} {m : String}

/-- The VM as the scheduler writes it, where no migration is required. -/
def placedOn (vm : VirtualMachine) (st : VirtualMachineStatus) (node : Node) : VirtualMachine :=
  { vm with status := some (scheduledStatus st node false) }

theorem vms_setKube_self {c : Collection VirtualMachineSpec VirtualMachineStatus} :
    (s.setKube .virtualMachine c).vms = c := World.kube_setKube_self

theorem nodes_setKube {c : Collection VirtualMachineSpec VirtualMachineStatus} :
    (s.setKube .virtualMachine c).kube .node = s.kube .node :=
  World.kube_setKube_of_ne (by decide)

theorem migrationRequestedFrom_drop (vm : VirtualMachine) :
    migrationRequestedFrom (dropMigrationRequest vm) = none :=
  StringMap.get_remove_self _ _

theorem not_requested_of_left (h : leftNode vm = true) : migrationRequested vm = false := by
  unfold leftNode at h
  unfold migrationRequested
  cases hm : migrationRequestedFrom vm with
  | none => rfl
  | some nodeToLeave =>
    rw [hm] at h
    exact decide_eq_false (of_decide_eq_true h)

/-- An object without annotation has left no node. -/
theorem not_left_of_none (h : migrationRequestedFrom vm = none) : leftNode vm = false := by
  unfold leftNode
  rw [h]

/-- What is stored after a run: a VM that is not deleted, with the annotation or without. -/
structure Stored (t : World) (k : Key) (v : VirtualMachine) : Prop where
  find : t.vms.find? k = some v
  alive : v.isDeleted = false

/-- The annotation of the stored VM is cleared. -/
theorem clear_stored (hs : Stored s vm.key vm) (hl : leftNode vm = true)
    {o : Outcome Error Unit} (h : (clearSuccessfulMigration vm).Ends (Served w) s o t) :
    ∃ v, Stored t vm.key v ∧ v.key = vm.key ∧ migrationRequestedFrom v = none := by
  rcases ends_clearSuccessfulMigration h with ⟨-, hw⟩ | ⟨hn, -⟩
  · have hc : s.vms.replace (dropMigrationRequest vm) =
        .ok (s.vms.settle vm (dropMigrationRequest vm)) :=
      Collection.replace_current hs.find rfl rfl rfl rfl rfl hs.alive
    rcases hw with ⟨v, c, hr, -, rfl⟩ | ⟨e, hr, -⟩
    · rw [hc] at hr
      obtain rfl : _ = c := congrArg Prod.snd (Except.ok.inj hr)
      rcases Collection.find?_settle (n := dropMigrationRequest vm) hs.find rfl hs.alive with
        ⟨he, hsame⟩ | ⟨-, -, hf, -⟩
      · refine ⟨vm, ⟨?_, hs.alive⟩, rfl, he ▸ migrationRequestedFrom_drop vm⟩
        rw [vms_setKube_self, hsame]
        exact hs.find
      · refine ⟨s.vms.stamp (dropMigrationRequest vm), ⟨?_, hs.alive⟩, rfl,
          migrationRequestedFrom_drop vm⟩
        rw [vms_setKube_self]
        exact hf
    · rw [hc] at hr
      cases hr
  · rw [hn] at hl
    cases hl

/-- From a copy that is out of date nothing is cleared. -/
theorem clear_stale {v : VirtualMachine} (hs : s.vms.find? vm.key = some v)
    (hv : vm.version < v.version) {o : Outcome Error Unit}
    (h : (clearSuccessfulMigration vm).Ends (Served w) s o t) : t = s := by
  rcases ends_clearSuccessfulMigration h with ⟨-, ⟨r, c, hr, -, -⟩ | ⟨e, -, -, rfl⟩⟩ | ⟨-, rfl⟩
  · have hc : s.vms.replace (dropMigrationRequest vm) = .error .conflict :=
      Collection.replace_stale hs (Nat.ne_of_lt hv)
    rw [hc] at hr
    cases hr
  · rfl
  · rfl

/-- What the status write leaves stored. -/
theorem status_stored {st' : VirtualMachineStatus} (hs : Stored s vm.key vm)
    {o : Outcome Error Unit}
    (h : Written .virtualMachine (s.vms.replaceStatus vm.key vm.version st') s o t) :
    o = .ok () ∧ t.kube .node = s.kube .node ∧
    ((({ vm with status := some st' } : VirtualMachine) = vm ∧ t.vms = s.vms) ∨
      (({ vm with status := some st' } : VirtualMachine) ≠ vm ∧
        t.vms = s.vms.record { vm with status := some st' } ∧
        t.vms.find? vm.key = some (s.vms.stamp { vm with status := some st' }) ∧
        vm.version < (s.vms.stamp { vm with status := some st' }).version)) := by
  have hc : s.vms.replaceStatus vm.key vm.version st' =
      .ok (s.vms.settle vm { vm with status := some st' }) :=
    Collection.replaceStatus_current hs.find
  rcases h with ⟨v, c, hr, rfl, rfl⟩ | ⟨e, hr, -⟩
  · rw [hc] at hr
    obtain rfl : _ = c := congrArg Prod.snd (Except.ok.inj hr)
    refine ⟨rfl, nodes_setKube, ?_⟩
    rw [vms_setKube_self]
    rcases Collection.find?_settle (n := { vm with status := some st' }) hs.find rfl hs.alive with
      ⟨he, hsame⟩ | ⟨hne, hrec, hf, hv⟩
    · exact .inl ⟨he, hsame⟩
    · exact .inr ⟨hne, hrec, hf, hv⟩
  · rw [hc] at hr
    cases hr

/-- Without a status nothing happens. -/
theorem ends_of_no_status (hst : vm.status = none) {o : Outcome Error Unit}
    (h : (schedulingAndMigrations vm).Ends (Served w) s o t) : t = s := by
  have htry : tryStatus vm = .error (.noStatusSubresource
      (Kind.virtualMachine.name ++ "/" ++ vm.metadata.name ++ " in ns " ++ vm.metadata.ns ++
        " has no status")) := by
    unfold tryStatus
    rw [hst]
  unfold schedulingAndMigrations at h
  rw [htry] at h
  exact h.2

/-- Where there is nothing to clear, the annotation stays as it is. -/
theorem run_keeps_annotation (hs : Stored s vm.key vm) (hl : leftNode vm = false)
    {o : Outcome Error Unit} (h : (schedulingAndMigrations vm).Ends (Served w) s o t) :
    ∃ v, Stored t vm.key v ∧ v.key = vm.key ∧
      v.metadata.annotations = vm.metadata.annotations := by
  have hclear : ∀ {s₁ : World} {o t}, (clearSuccessfulMigration vm).Ends (Served w) s₁ o t →
      t = s₁ := by
    intro s₁ o t h
    rcases ends_clearSuccessfulMigration h with ⟨hn, -⟩ | ⟨-, rfl⟩
    · rw [hl] at hn
      cases hn
    · rfl
  cases hst : vm.status with
  | none =>
    obtain rfl : t = s := ends_of_no_status hst h
    exact ⟨vm, hs, rfl, rfl⟩
  | some st =>
    rcases ends_schedulingAndMigrations hst h with ⟨-, hc⟩ |
      ⟨-, o₁, u, s₁, hp, hkube, ⟨-, hc⟩ | ⟨-, hkube'⟩⟩
    · rw [hclear hc]
      exact ⟨vm, hs, rfl, rfl⟩
    all_goals
      have ht : t.vms = u.vms := by
        first
        | rw [hclear hc]; exact congrFun hkube .virtualMachine
        | exact congrFun hkube' .virtualMachine
      have hsu : Stored { s with scheduler := some w } vm.key vm := ⟨hs.find, hs.alive⟩
      have hstored : ∃ v, u.vms.find? vm.key = some v ∧ v.isDeleted = false ∧ v.key = vm.key ∧
          v.metadata.annotations = vm.metadata.annotations := by
        rcases ends_placeVm hp with ⟨e, -, rfl, -⟩ | ⟨node, -, hw⟩
        · exact ⟨vm, hs.find, hs.alive, rfl, rfl⟩
        · obtain ⟨-, -, ⟨-, hsame⟩ | ⟨-, -, hf, -⟩⟩ := status_stored hsu hw
          · exact ⟨vm, hsame ▸ hs.find, hs.alive, rfl, rfl⟩
          · exact ⟨_, hf, hs.alive, rfl, rfl⟩
      obtain ⟨v, hf, hd, hk, ha⟩ := hstored
      exact ⟨v, ⟨ht ▸ hf, hd⟩, hk, ha⟩

/-- A VM that need not be placed loses the annotation. -/
theorem run_clears (hs : Stored s vm.key vm) (hst : vm.status = some st)
    (hl : leftNode vm = true) (hmp : mustPlace s vm st = false) {o : Outcome Error Unit}
    (h : (schedulingAndMigrations vm).Ends (Served w) s o t) :
    ∃ v, Stored t vm.key v ∧ v.key = vm.key ∧ migrationRequestedFrom v = none := by
  rcases ends_schedulingAndMigrations hst h with ⟨-, hc⟩ | ⟨hmp', -⟩
  · exact clear_stored hs hl hc
  · rw [hmp] at hmp'
    cases hmp'

/-- A VM that must be placed and is: it loses the annotation where this changes nothing,
and else is stored with its new node and with the annotation. -/
theorem run_places (hs : Stored s vm.key vm) (hst : vm.status = some st)
    (hl : leftNode vm = true) (hmp : mustPlace s vm st = true) {o : Outcome Error Unit}
    (h : (schedulingAndMigrations vm).Ends (Served w) s o t) :
    (∃ e, s.Finds vm false (.err e) ∧ t.kube = s.kube) ∨
    ∃ node, s.Finds vm false (.ok node) ∧
      ((placedOn vm st node = vm ∧
          ∃ v, Stored t vm.key v ∧ v.key = vm.key ∧ migrationRequestedFrom v = none) ∨
        (placedOn vm st node ≠ vm ∧ t.vms = s.vms.record (placedOn vm st node) ∧
          t.kube .node = s.kube .node ∧
          Stored t vm.key (s.vms.stamp (placedOn vm st node)))) := by
  have hreq : migrationRequested vm = false := not_requested_of_left hl
  have hsu : Stored { s with scheduler := some w } vm.key vm := ⟨hs.find, hs.alive⟩
  rcases ends_schedulingAndMigrations hst h with ⟨hmp', -⟩ | ⟨-, o₁, u, s₁, hp, hkube, hrest⟩
  · rw [hmp] at hmp'
    cases hmp'
  · rw [hreq] at hp
    rcases ends_placeVm hp with ⟨e, rfl, rfl, hf⟩ | ⟨node, hf, hw⟩
    · left
      refine ⟨e, hf rfl, ?_⟩
      rcases hrest with ⟨ho, -⟩ | ⟨-, hk⟩
      · cases ho
      · exact hk
    · right
      refine ⟨node, hf rfl, ?_⟩
      obtain ⟨rfl, hnode, hcase⟩ := status_stored hsu hw
      have hc : (clearSuccessfulMigration vm).Ends (Served w) s₁ o t := by
        rcases hrest with ⟨-, hc⟩ | ⟨hne, -⟩
        · exact hc
        · exact absurd rfl hne
      have hvms : s₁.vms = u.vms := congrFun hkube .virtualMachine
      rcases hcase with ⟨he, hsame⟩ | ⟨hne, hrec, hfind, hv⟩
      · left
        have hs₁ : Stored s₁ vm.key vm := by
          refine ⟨?_, hs.alive⟩
          rw [hvms, hsame]
          exact hs.find
        exact ⟨he, clear_stored hs₁ hl hc⟩
      · right
        -- The copy is out of date after the status write, so the clear step is refused.
        have hts : t = s₁ := clear_stale (hvms ▸ hfind) hv hc
        rw [hts]
        refine ⟨hne, hvms.trans hrec, (congrFun hkube .node).trans hnode, ?_, hs.alive⟩
        rw [hvms]
        exact hfind

end Run

/-! ## Two runs -/

section Runs

variable {s : World} {vm : VirtualMachine} {st : VirtualMachineStatus} {m : String}

/-- Whatever two consecutive runs come to, the annotation is cleared. -/
def OneShot (s : World) (vm : VirtualMachine) : Prop :=
  ∀ o₁ s₁ v₁ o₂ s₂ v₂,
    (schedulingAndMigrations vm).Ends (Served (.vm vm.key)) s o₁ s₁ →
    s₁.vms.find? vm.key = some v₁ →
    (schedulingAndMigrations v₁).Ends (Served (.vm vm.key)) s₁ o₂ s₂ →
    s₂.vms.find? vm.key = some v₂ → migrationRequestedFrom v₂ = none

/-- The spec names an open node that is not the one to leave, or it names none and some
node is eligible. -/
def canPlace (s : World) (vm : VirtualMachine) (nodeToLeave : String) : Bool :=
  match vm.spec.node with
  | some name => (s.openNode name).isSome && name ≠ nodeToLeave
  | none => !(s.eligible vm false).isEmpty

/-- The VM need not be placed, or it can be. -/
def canClear (s : World) (vm : VirtualMachine) (nodeToLeave : String) : Bool :=
  match vm.status with
  | none => false
  | some st => !mustPlace s vm st || canPlace s vm nodeToLeave

theorem left_of_request (hm : migrationRequestedFrom vm = some m) (hn : getVmNode vm ≠ some m) :
    leftNode vm = true := by
  unfold leftNode
  rw [hm]
  exact decide_eq_true hn

theorem name_of_openNode {name : String} {node : Node} (h : s.openNode name = some node) :
    node.metadata.name = name := by
  have hp := List.find?_some h
  exact of_decide_eq_true hp

/-- A node that is removed from the candidates is not among them. -/
theorem not_mem_removeCandidateNodes {candidates : List Node} {names : List String} {node : Node}
    (h : node ∈ removeCandidateNodes candidates names) :
    node ∈ candidates ∧ node.metadata.name ∉ names := by
  unfold removeCandidateNodes at h
  induction names generalizing candidates with
  | nil => exact ⟨h, List.not_mem_nil⟩
  | cons name names ih =>
    obtain ⟨hmem, hnot⟩ := ih h
    obtain ⟨hmem, hne⟩ := List.mem_filter.mp hmem
    refine ⟨hmem, fun hin => ?_⟩
    rcases List.mem_cons.mp hin with he | hin
    · exact absurd he (of_decide_eq_true hne)
    · exact hnot hin

/-- An eligible node is neither the node to leave nor one that the group occupies. -/
theorem eligible_free {node : Node} (hm : migrationRequestedFrom vm = some m)
    (h : node ∈ s.eligible vm false) :
    node.metadata.name ≠ m ∧ ∀ other ∈ s.group vm, getVmNode other ≠ some node.metadata.name := by
  obtain ⟨hmem, hnot⟩ := not_mem_removeCandidateNodes h
  constructor
  · unfold openCandidates at hmem
    rw [hm] at hmem
    exact fun he => (not_mem_removeCandidateNodes hmem).2 (List.mem_singleton.mpr he)
  · intro other hother hn
    exact hnot (List.mem_filterMap.mpr ⟨other, hother, hn⟩)

/-- After the VM has moved to a node that its group does not occupy, it is alone there. -/
theorem not_crowded_of_moved {t : World} {node : Node}
    (hvms : t.vms = s.vms.record (placedOn vm st node))
    (hfree : ∀ other ∈ s.group vm, getVmNode other ≠ some node.metadata.name) :
    t.crowded (s.vms.stamp (placedOn vm st node)) = false := by
  unfold World.crowded
  rw [List.any_eq_false]
  intro other hother hcond
  simp only [Bool.and_eq_true, decide_eq_true_eq] at hcond
  obtain ⟨hne, -, hnode⟩ := hcond
  unfold World.group at hother hfree
  rw [Collection.labels_stamp] at hother
  change other ∈ (match vm.metadata.labels.get antiAffinityLabel with
    | some group => t.vms.list (some (antiAffinityLabel, group))
    | none => []) at hother
  cases hg : vm.metadata.labels.get antiAffinityLabel with
  | none =>
    rw [hg] at hother
    cases hother
  | some group =>
    rw [hg] at hother hfree
    obtain ⟨hmem, hlabel⟩ := List.mem_filter.mp hother
    rw [hvms] at hmem
    rcases Collection.mem_objects_record hmem with rfl | hmem
    · exact hne rfl
    · exact hfree other (List.mem_filter.mpr ⟨hmem, hlabel⟩) hnode.symm

/-- A node that is found is not the one to leave. -/
theorem found_ne {node : Node} (hm : migrationRequestedFrom vm = some m)
    (hc : canPlace s vm m = true) (hfind : s.Finds vm false (.ok node)) :
    node.metadata.name ≠ m := by
  unfold canPlace at hc
  cases hp : vm.spec.node with
  | some name =>
    simp only [hp, Bool.and_eq_true, decide_eq_true_eq] at hc
    rw [name_of_openNode (hfind.pinned hp)]
    exact hc.2
  | none => exact (eligible_free hm (hfind.eligible hp)).1

/-- The second run clears the annotation of a VM that the first run has moved. -/
theorem moved_clears {s₁ s₂ : World} {node : Node} {o : Outcome Error Unit}
    (hm : migrationRequestedFrom vm = some m) (hfind : s.Finds vm false (.ok node))
    (hc : canPlace s vm m = true) (hvms : s₁.vms = s.vms.record (placedOn vm st node))
    (hnodes : s₁.kube .node = s.kube .node)
    (hs₁ : Stored s₁ vm.key (s.vms.stamp (placedOn vm st node)))
    (h : (schedulingAndMigrations (s.vms.stamp (placedOn vm st node))).Ends
      (Served (.vm vm.key)) s₁ o s₂) :
    ∃ v, Stored s₂ vm.key v ∧ migrationRequestedFrom v = none := by
  have hopen : ∀ name, s₁.openNode name = s.openNode name := by
    intro name
    unfold World.openNode World.openNodes
    rw [hnodes]
  have hl : leftNode (s.vms.stamp (placedOn vm st node)) = true := by
    refine left_of_request (m := m) hm ?_
    show some node.metadata.name ≠ some m
    exact fun he => found_ne hm hc hfind (Option.some.inj he)
  have hst₁ : (s.vms.stamp (placedOn vm st node)).status = some (scheduledStatus st node false) :=
    rfl
  cases hmp : mustPlace s₁ (s.vms.stamp (placedOn vm st node)) (scheduledStatus st node false) with
  | false =>
    obtain ⟨v, hsv, -, hnone⟩ := run_clears hs₁ hst₁ hl hmp h
    exact ⟨v, hsv, hnone⟩
  | true =>
    have hcrowded : s₁.crowded (s.vms.stamp (placedOn vm st node)) = true := by
      unfold mustPlace at hmp
      rw [not_requested_of_left hl] at hmp
      simpa [scheduledStatus] using hmp
    cases hp : vm.spec.node with
    | none =>
      rw [not_crowded_of_moved hvms (eligible_free hm (hfind.eligible hp)).2] at hcrowded
      cases hcrowded
    | some name =>
      -- The spec names the node that the VM is on already, so nothing is written.
      have hp₁ : (s.vms.stamp (placedOn vm st node)).spec.node = some name := hp
      have hnode : s₁.openNode name = some node := (hopen name).trans (hfind.pinned hp)
      rcases run_places hs₁ hst₁ hl hmp h with ⟨e, hf, -⟩ | ⟨node', hf, hcase⟩
      · rw [hf.not_pinned hp₁] at hnode
        cases hnode
      · obtain rfl : node' = node := Option.some.inj ((hf.pinned hp₁).symm.trans hnode)
        rcases hcase with ⟨-, v, hsv, -, hnone⟩ | ⟨hne, -⟩
        · exact ⟨v, hsv, hnone⟩
        · exact absurd rfl hne

/-- If the VM need not be placed or can be, then the annotation is gone after two runs. -/
theorem oneShot_of_canClear (hs : Stored s vm.key vm) (hm : migrationRequestedFrom vm = some m)
    (hn : getVmNode vm ≠ some m) (hc : canClear s vm m = true) : OneShot s vm := by
  have hl : leftNode vm = true := left_of_request hm hn
  intro o₁ s₁ v₁ o₂ s₂ v₂ h₁ hf₁ h₂ hf₂
  -- Once the annotation is cleared it stays so.
  have hdone : (∃ v, Stored s₁ vm.key v ∧ v.key = vm.key ∧ migrationRequestedFrom v = none) →
      migrationRequestedFrom v₂ = none := by
    rintro ⟨v, hsv, hk, hnone⟩
    obtain rfl : v₁ = v := Option.some.inj (hf₁.symm.trans hsv.find)
    obtain ⟨v', hsv', -, ha⟩ :=
      run_keeps_annotation (hk.symm ▸ hsv) (not_left_of_none hnone) h₂
    obtain rfl : v₂ = v' := Option.some.inj (hf₂.symm.trans (hk ▸ hsv'.find))
    unfold migrationRequestedFrom at hnone ⊢
    rw [ha]
    exact hnone
  unfold canClear at hc
  cases hst : vm.status with
  | none =>
    rw [hst] at hc
    cases hc
  | some st =>
    rw [hst] at hc
    change (!mustPlace s vm st || canPlace s vm m) = true at hc
    cases hmp : mustPlace s vm st with
    | false => exact hdone (run_clears hs hst hl hmp h₁)
    | true =>
      rw [hmp, Bool.not_true, Bool.false_or] at hc
      rcases run_places hs hst hl hmp h₁ with ⟨e, hfind, -⟩ |
        ⟨node, hfind, ⟨-, hcl⟩ | ⟨-, hvms, hnodes, hs₁⟩⟩
      · exfalso
        unfold canPlace at hc
        cases hp : vm.spec.node with
        | some name => simp [hp, hfind.not_pinned hp] at hc
        | none => simp [hp, hfind.not_eligible hp] at hc
      · exact hdone hcl
      · obtain rfl : v₁ = _ := Option.some.inj (hf₁.symm.trans hs₁.find)
        obtain ⟨v, hsv, hnone⟩ := moved_clears hm hfind hc hvms hnodes hs₁ h₂
        obtain rfl : v₂ = v := Option.some.inj (hf₂.symm.trans hsv.find)
        exact hnone

/-! ### Every run ends -/

theorem ready_getOthersInAffinityGroup (vm : VirtualMachine) :
    IsReady (getOthersInAffinityGroup vm) := by
  unfold getOthersInAffinityGroup
  split
  · exact .bind (ready_kubeCall _) fun _ => trivial
  · trivial

theorem ready_isUncompliant (vm : VirtualMachine) : IsReady (isUncompliant vm) := by
  refine .bind (Program.within_ofExcept fun _ _ => trivial) fun st => ?_
  split
  · exact .bind (ready_getOthersInAffinityGroup vm) fun _ => trivial
  · trivial

theorem ready_blockedNodes (vm : VirtualMachine) (ignoreAffinity : Bool) :
    IsReady (blockedNodes vm ignoreAffinity) := by
  unfold blockedNodes
  split
  · split
    · exact .bind (ready_kubeCall _) fun _ => trivial
    · trivial
  · trivial

theorem ready_schedule (vm : VirtualMachine) (ignoreAffinity : Bool) :
    IsReady (schedule vm ignoreAffinity) := by
  refine .bind (ready_ask (r := .scheduleSpan ignoreAffinity) trivial) fun _ => ?_
  refine .bind (ready_kubeCall _) fun nodes => ?_
  dsimp only
  split
  · split <;> trivial
  · refine .bind (ready_blockedNodes vm ignoreAffinity) fun names => ?_
    refine .bind (ready_choose _) fun node => ?_
    split <;> trivial

theorem ready_scheduleOrBypass (vm : VirtualMachine) (migrationRequired : Bool) :
    IsReady (scheduleOrBypass vm migrationRequired) := by
  have hattempt : IsReady (schedule vm false).attempt :=
    (ready_schedule vm false).attempt.mono (fun _ h => h) fun _ _ => trivial
  refine .bind hattempt fun x => ?_
  split
  · trivial
  · split
    · exact ready_schedule vm true
    · trivial

theorem ready_clearSuccessfulMigration (vm : VirtualMachine) :
    IsReady (clearSuccessfulMigration vm) := by
  unfold clearSuccessfulMigration onlyIf
  split
  · split
    · exact ready_commit _ _
    · trivial
  · trivial

/-- The mutex is taken, held while the VM is placed, and given back. -/
theorem underMutex_exists (w : Worker) (vm : VirtualMachine) (st : VirtualMachineStatus) (b : Bool)
    (hfree : s.scheduler = none) :
    ∃ o t, (Program.bracket (ask .lockSchedule) (placeVm vm st b) (ask .unlockSchedule)).Ends
      (Served w) s o t ∧ t.scheduler = none := by
  have hlock : Served w s .lockSchedule () { s with scheduler := some w } := by
    refine ⟨{}, rfl, ?_⟩
    simp only [World.answer]
    rw [if_pos hfree]
  have hready : IsReady (placeVm vm st b) :=
    .bind (ready_scheduleOrBypass vm b) fun _ => ready_setStatus _ _ _
  obtain ⟨o, u, hp, hu⟩ := hready.exists_ends (w := w) (s := { s with scheduler := some w }) rfl
  have hunlock : Served w u .unlockSchedule () { u with scheduler := none } := by
    refine ⟨{}, rfl, ?_⟩
    simp only [World.answer]
    rw [if_pos hu]
  have hdone : ∃ x o', (placeVm vm st b).attempt.Ends (Served w) { s with scheduler := some w }
      (.ok x) u ∧ (Program.ofExcept x).Ends (Served w) { u with scheduler := none } o'
        { u with scheduler := none } := by
    rcases ends_placeVm hp with ⟨e, rfl, -, -⟩ | ⟨node, -, ⟨v, c, -, rfl, -⟩ | ⟨e, -, rfl, -⟩⟩
    · exact ⟨.error e, _, ends_attempt.mpr (.inr (.inl ⟨e, hp, rfl⟩)), rfl, rfl⟩
    · exact ⟨.ok (), _, ends_attempt.mpr (.inl ⟨(), hp, rfl⟩), rfl, rfl⟩
    · exact ⟨.error _, _, ends_attempt.mpr (.inr (.inl ⟨_, hp, rfl⟩)), rfl, rfl⟩
  obtain ⟨x, o', hx, ho'⟩ := hdone
  refine ⟨o', { u with scheduler := none }, ⟨(), _, hlock, ?_⟩, rfl⟩
  change Program.Ends _ ((placeVm vm st b).attempt >>= _) _ _ _
  exact ends_bind.mpr (.inl ⟨x, u, hx, (), _, hunlock, ho'⟩)

/-- With the mutex free, a run ends, and the mutex is free again. -/
theorem run_exists (w : Worker) (vm : VirtualMachine) (hfree : s.scheduler = none) :
    ∃ o t, (schedulingAndMigrations vm).Ends (Served w) s o t ∧ t.scheduler = none := by
  refine exists_ends_bind (I := fun t : World => t.scheduler = none)
    (IsReady.exists_ends (Program.within_ofExcept fun _ _ => trivial) hfree) (fun _ h => h)
    fun st t ht => ?_
  refine exists_ends_bind (I := fun t : World => t.scheduler = none)
    (IsReady.exists_ends (ready_isUncompliant vm) ht) (fun _ h => h) fun b t ht => ?_
  refine exists_ends_bind (I := fun t : World => t.scheduler = none) ?_ (fun _ h => h)
    fun _ t ht => IsReady.exists_ends (ready_clearSuccessfulMigration vm) ht
  unfold onlyIf
  split
  · exact underMutex_exists w vm st _ ht
  · exact ⟨_, t, ⟨rfl, rfl⟩, ht⟩

theorem mustPlace_of_kube {t : World} (h : t.kube = s.kube) :
    mustPlace t vm st = mustPlace s vm st := by
  simp only [mustPlace, World.crowded, World.group, World.vms, h]

theorem finds_of_kube {t : World} (h : t.kube = s.kube) {o : Outcome Error Node} :
    t.Finds vm false o ↔ s.Finds vm false o := by
  simp only [World.Finds, World.openNode, World.eligible, World.openNodes, World.blocked,
    World.group, World.vms, h]

theorem not_finds_of_finds_err {e : Error} {node : Node} (h : s.Finds vm false (.err e)) :
    ¬ s.Finds vm false (.ok node) := by
  intro hfind
  cases hp : vm.spec.node with
  | some name =>
    have hn : s.openNode name = some node := hfind.pinned hp
    rw [h.not_pinned hp] at hn
    cases hn
  | none =>
    have hn : node ∈ s.eligible vm false := hfind.eligible hp
    rw [h.not_eligible hp] at hn
    cases hn

/-- A node that is found although the VM cannot be placed is the node to leave. -/
theorem pinned_of_not_canPlace {node : Node} (hc : ¬ canPlace s vm m = true)
    (hfind : s.Finds vm false (.ok node)) : vm.spec.node = some m ∧ node.metadata.name = m := by
  unfold canPlace at hc
  cases hp : vm.spec.node with
  | some name =>
    have hn : s.openNode name = some node := hfind.pinned hp
    simp only [hp, hn, Option.isSome_some, Bool.true_and, decide_eq_true_eq, not_not] at hc
    exact ⟨congrArg some hc, (name_of_openNode hn).trans hc⟩
  | none =>
    have hn : node ∈ s.eligible vm false := hfind.eligible hp
    simp only [hp, Bool.not_eq_true', Bool.not_eq_false, List.isEmpty_iff] at hc
    rw [hc] at hn
    cases hn

/-- If the VM must be placed and cannot be, the annotation stays. -/
theorem canClear_of_oneShot (hs : Stored s vm.key vm) (hfree : s.scheduler = none)
    (hm : migrationRequestedFrom vm = some m) (hn : getVmNode vm ≠ some m) (h : OneShot s vm) :
    canClear s vm m = true := by
  have hl : leftNode vm = true := left_of_request hm hn
  obtain ⟨o₁, s₁, h₁, hfree₁⟩ := run_exists (.vm vm.key) vm hfree
  by_contra hc
  -- Two runs in which nothing is cleared contradict the assumption.
  have hno : ∀ v₁, s₁.vms.find? vm.key = some v₁ →
      (∀ o₂ s₂, (schedulingAndMigrations v₁).Ends (Served (.vm vm.key)) s₁ o₂ s₂ →
        ∃ v₂, s₂.vms.find? vm.key = some v₂ ∧ migrationRequestedFrom v₂ ≠ none) → False := by
    intro v₁ hf₁ hkeep
    obtain ⟨o₂, s₂, h₂, -⟩ := run_exists (.vm vm.key) v₁ hfree₁
    obtain ⟨v₂, hf₂, hne⟩ := hkeep o₂ s₂ h₂
    exact hne (h o₁ s₁ v₁ o₂ s₂ v₂ h₁ hf₁ h₂ hf₂)
  have hsome : migrationRequestedFrom vm ≠ none := by
    rw [hm]
    exact nofun
  unfold canClear at hc
  cases hst : vm.status with
  | none =>
    obtain rfl : s₁ = s := ends_of_no_status hst h₁
    exact hno vm hs.find fun o₂ s₂ h₂ =>
      ⟨vm, (ends_of_no_status hst h₂).symm ▸ hs.find, hsome⟩
  | some st =>
    rw [hst] at hc
    change ¬ (!mustPlace s vm st || canPlace s vm m) = true at hc
    rw [Bool.or_eq_true, not_or] at hc
    obtain ⟨hmp, hc⟩ := hc
    have hmp : mustPlace s vm st = true := by simpa using hmp
    rcases run_places hs hst hl hmp h₁ with ⟨e, hfind, hkube⟩ | ⟨node, hfind, hcase⟩
    · -- No node was found, and none is found the second time.
      have hvms : s₁.vms = s.vms := congrFun hkube .virtualMachine
      have hs₁ : Stored s₁ vm.key vm := ⟨hvms ▸ hs.find, hs.alive⟩
      refine hno vm hs₁.find fun o₂ s₂ h₂ => ?_
      rcases run_places hs₁ hst hl ((mustPlace_of_kube hkube).trans hmp) h₂ with
        ⟨e', -, hkube'⟩ | ⟨node, hfind', -⟩
      · have hvms' : s₂.vms = s₁.vms := congrFun hkube' .virtualMachine
        exact ⟨vm, hvms' ▸ hs₁.find, hsome⟩
      · exact absurd hfind' (not_finds_of_finds_err ((finds_of_kube hkube).mpr hfind))
    · -- The spec names the node to leave: the VM goes there, and the annotation stays.
      obtain ⟨hp, hname⟩ := pinned_of_not_canPlace hc hfind
      rcases hcase with ⟨he, -⟩ | ⟨-, -, -, hs₁⟩
      · refine hn ?_
        rw [← he, ← hname]
        rfl
      · have hl₁ : leftNode (s.vms.stamp (placedOn vm st node)) = false := by
          unfold leftNode
          rw [show migrationRequestedFrom (s.vms.stamp (placedOn vm st node)) = some m from hm,
            ← hname]
          exact decide_eq_false (not_not_intro rfl)
        refine hno _ hs₁.find fun o₂ s₂ h₂ => ?_
        obtain ⟨v₂, hs₂, -, ha⟩ := run_keeps_annotation hs₁ hl₁ h₂
        refine ⟨v₂, hs₂.find, ?_⟩
        unfold migrationRequestedFrom at hsome ⊢
        rw [ha]
        exact hsome

/-- A VM that has left the node its annotation names loses the annotation within two runs
exactly if it need not be placed or can be. -/
theorem request_is_one_shot (hs : s.vms.find? vm.key = some vm) (halive : vm.isDeleted = false)
    (hfree : s.scheduler = none) (hm : migrationRequestedFrom vm = some m)
    (hn : getVmNode vm ≠ some m) : OneShot s vm ↔ canClear s vm m = true :=
  ⟨canClear_of_oneShot ⟨hs, halive⟩ hfree hm hn, oneShot_of_canClear ⟨hs, halive⟩ hm hn⟩

end Runs

attribute [local instance] plainCrates

/-- The VM has left the node that its annotation names, and is not deleted. -/
def hasLeft (node : String) (vm : VirtualMachine) : Bool :=
  migrationRequestedFrom vm = some node && getVmNode vm ≠ some node && !vm.isDeleted

/-- The node `a` goes into maintenance, and the VM `y` on it moves to the node `b` of the
other member of its group, which anti-affinity is bypassed for. The maintenance ends. -/
def maintenanceScript : List ClusterCommand :=
  placementScript ++
  [.world (.edit .node ⟨"", "a"⟩ [] [( maintenanceAnnotation, "true")] ())] ++
  serveAll (.node "a") 3 2 ++ serveAll (.vm ⟨"n", "y"⟩) 7 11 ++
  [.world (.edit .node ⟨"", "a"⟩ [] [] ())]

/-- A third node is there for `y`. -/
theorem request_is_one_shot_third : ∃ (c : ClusterConfig) (vm : VirtualMachine),
    vm ∈ c.state.vms.objects ∧ migrationRequestedFrom vm = some "a" ∧ OneShot c.state vm := by
  obtain ⟨c, -, hc⟩ := Interaction.Machine.play_reaches (M := cluster) anything
    ⟨World.initial, fun _ => none⟩
    (maintenanceScript ++ [.world (.create .node ⟨"", "c"⟩ [] [] ())])
    (fun c => c.state.scheduler = none &&
      c.state.vms.objects.any fun vm => hasLeft "a" vm && canClear c.state vm "a")
    (by decide +kernel)
  simp only [hasLeft, Bool.and_eq_true, List.any_eq_true, decide_eq_true_eq, Bool.not_eq_true']
    at hc
  obtain ⟨hfree, vm, hvm, ⟨⟨hm, hn⟩, halive⟩, hcan⟩ := hc
  refine ⟨c, vm, hvm, hm, ?_⟩
  exact (request_is_one_shot (Collection.find?_of_mem hvm) halive hfree hm hn).mpr hcan

/-- Without it, `y` shares the node `b` and may not go back to `a`. -/
theorem request_stays : ∃ (c : ClusterConfig) (vm : VirtualMachine),
    cluster.Run anything ⟨World.initial, fun _ => none⟩ c ∧ vm ∈ c.state.vms.objects ∧
      migrationRequestedFrom vm = some "a" ∧ getVmNode vm ≠ some "a" ∧ ¬ OneShot c.state vm := by
  obtain ⟨c, hr, hc⟩ := Interaction.Machine.play_reaches (M := cluster) anything
    ⟨World.initial, fun _ => none⟩ maintenanceScript
    (fun c => c.state.scheduler = none &&
      c.state.vms.objects.any fun vm => hasLeft "a" vm && !canClear c.state vm "a")
    (by decide +kernel)
  simp only [hasLeft, Bool.and_eq_true, List.any_eq_true, decide_eq_true_eq, Bool.not_eq_true']
    at hc
  obtain ⟨hfree, vm, hvm, ⟨⟨hm, hn⟩, halive⟩, hcan⟩ := hc
  refine ⟨c, vm, hr, hvm, hm, hn, fun h => ?_⟩
  have hs : Stored c.state vm.key vm := ⟨Collection.find?_of_mem hvm, halive⟩
  rw [canClear_of_oneShot hs hfree hm hn h] at hcan
  cases hcan

end ClusterController
