import ClusterController.Placement

/-!
# Where a migration goes

Which node `scheduling_and_migrations` writes for a VM that is asked to leave its own. A VM
that its spec pins to the node it has to leave is placed there again, and anti-affinity is
bypassed after any failure of the first search, also when a call was lost and nodes were
left.
-/

namespace ClusterController

open ApiServer (StringMap Key KubeError Resource Collection)
open Interaction (Program)
open Interaction.Program (Outcome Within ends_bind ends_attempt asks_bind asks_attempt)

/-! ## The write of a placement -/

/-- The request that writes a placement. -/
def placementWrite (vm : VirtualMachine) (status : VirtualMachineStatus) : Request :=
  .kube (.replaceStatus .virtualMachine vm.key vm.version status .schedulingAndMigrations)

/-- The deliveries that the compliance check takes. -/
def complianceCalls (vm : VirtualMachine) (st : VirtualMachineStatus) : List Delivery :=
  if st.scheduled && (antiAffinityGroup vm).isSome then [.served] else []

/-- A node is found, by a search or by a second one that bypasses affinity. -/
inductive Found (s : World) (vm : VirtualMachine) (migrationRequired : Bool) :
    List Delivery → Node → List Delivery → Prop
  | normally {ds ds' : List Delivery} {n : Node} :
      Searched s vm false ds (.ok n) ds' → Found s vm migrationRequired ds n ds'
  | bypassing {ds mid ds' : List Delivery} {n : Node} {e : Error} :
      migrationRequired = true → Searched s vm false ds (.err e) mid →
      Searched s vm true mid (.ok n) ds' → Found s vm migrationRequired ds n ds'

section Writes

variable {w : Worker} {s t : World} {ds ds' : List Delivery} {vm : VirtualMachine}
  {st status : VirtualMachineStatus} {c d : World × List Delivery}

theorem ends_isUncompliant_delivered (hst : vm.status = some st) {b : Bool} :
    (isUncompliant vm).Ends (Delivered w) (s, ds) (.ok b) (t, ds') ↔
      t = s ∧ ds = complianceCalls vm st ++ ds' ∧ b = (st.scheduled && s.crowded vm) := by
  unfold isUncompliant
  rw [tryStatus_of_some hst]
  change (if st.scheduled = true then _ else _ : Prog Bool).Ends (Delivered w) (s, ds) (.ok b)
    (t, ds') ↔ _
  unfold complianceCalls World.crowded World.group antiAffinityGroup getOthersInAffinityGroup
  cases hsch : st.scheduled with
  | false => simp [and_comm, and_left_comm, eq_comm]
  | true =>
    cases hl : vm.metadata.labels.get antiAffinityLabel with
    | none => simp [and_comm, and_left_comm, eq_comm]
    | some group =>
      simp only [if_true, bind_assoc, getVmsWithLabel]
      rw [ends_kubeList_bind]
      constructor
      · rintro (⟨rest, rfl, ho, ht⟩ | ⟨d, rest, -, -, ho, -⟩)
        · cases ht
          refine ⟨rfl, rfl, (Program.Outcome.ok.inj ho).trans ?_⟩
          rw [List.any_filter, Bool.true_and]
        · cases ho
      · rintro ⟨rfl, rfl, rfl⟩
        refine .inl ⟨ds', rfl, congrArg Program.Outcome.ok ?_, rfl⟩
        rw [List.any_filter, Bool.true_and]

theorem ends_scheduleOrBypass_delivered {migrationRequired : Bool} {n : Node} :
    (scheduleOrBypass vm migrationRequired).Ends (Delivered w) (s, ds) (.ok n) (t, ds') ↔
      t = s ∧ Found s vm migrationRequired ds n ds' := by
  unfold scheduleOrBypass
  rw [ends_bind]
  constructor
  · rintro (⟨x, ⟨s₁, ds₁⟩, hx, hk⟩ | ⟨e, -, ho⟩ | ⟨m, -, ho⟩)
    · rcases ends_attempt.mp hx with ⟨n', hn, ho⟩ | ⟨e, he, ho⟩ | ⟨m, -, ho⟩
      · cases ho
        obtain ⟨rfl, hs⟩ := ends_schedule_delivered.mp hn
        obtain ⟨ho, ht⟩ := hk
        cases ho
        cases ht
        exact ⟨rfl, .normally hs⟩
      · cases ho
        obtain ⟨rfl, hs⟩ := ends_schedule_delivered.mp he
        cases migrationRequired with
        | false => cases hk.1
        | true =>
          obtain ⟨rfl, hs'⟩ := ends_schedule_delivered.mp hk
          exact ⟨rfl, .bypassing rfl hs hs'⟩
      · cases ho
    · cases ho
    · cases ho
  · rintro ⟨rfl, h⟩
    refine .inl ?_
    cases h with
    | normally hs =>
      exact ⟨_, (t, ds'), ends_attempt.mpr (.inl ⟨n, ends_schedule_delivered.mpr ⟨rfl, hs⟩, rfl⟩),
        rfl, rfl⟩
    | bypassing hm hs hs' =>
      refine ⟨_, (t, _),
        ends_attempt.mpr (.inr (.inl ⟨_, ends_schedule_delivered.mpr ⟨rfl, hs⟩, rfl⟩)), ?_⟩
      simp only [hm, if_true]
      exact ends_schedule_delivered.mpr ⟨rfl, hs'⟩

section Asks

variable {σ α : Type} {exec : σ → (r : Request) → r.Answer → σ → Prop} {a b : σ}

theorem not_asks_of_unplacing {p : Prog α} {done : α → Prop} (h : p.Within Unplacing done) :
    ¬p.Asks exec a (placementWrite vm status) b := fun ha => h.asks ha rfl

theorem asks_setStatus {st' : VirtualMachineStatus} :
    (setStatus vm st' .schedulingAndMigrations).Asks exec a (placementWrite vm status) b ↔
      status = st' ∧ b = a := by
  constructor
  · rintro (⟨hr, rfl⟩ | ⟨x, c, -, h⟩)
    · cases hr
      exact ⟨rfl, rfl⟩
    · cases x <;> cases h
  · rintro ⟨rfl, rfl⟩
    exact .inl ⟨rfl, rfl⟩

theorem asks_placeVm {migrationRequired : Bool} :
    (placeVm vm st migrationRequired).Asks exec a (placementWrite vm status) b ↔
      ∃ n, (scheduleOrBypass vm migrationRequired).Ends exec a (.ok n) b ∧
        status = scheduledStatus st n migrationRequired := by
  unfold placeVm
  rw [asks_bind]
  simp only [asks_setStatus]
  constructor
  · rintro (h | ⟨n, c, hn, rfl, rfl⟩)
    · have hquiet : IsQuiet (scheduleOrBypass vm migrationRequired) :=
        .of_within (scheduleOrBypass_pinned vm migrationRequired)
      exact absurd h (not_asks_of_unplacing hquiet.unplacing)
    · exact ⟨n, hn, rfl⟩
  · rintro ⟨n, hn, rfl⟩
    exact .inr ⟨n, b, hn, rfl, rfl⟩

end Asks

theorem asks_underMutex {p : Prog Unit} (hs : s.scheduler = none) :
    (Program.bracket (ask .lockSchedule) p (ask .unlockSchedule)).Asks (Delivered w) (s, ds)
        (placementWrite vm status) d ↔
      p.Asks (Delivered w) ({ s with scheduler := some w }, ds) (placementWrite vm status) d := by
  unfold Program.bracket
  rw [asks_bind]
  constructor
  · rintro (h | ⟨_, ⟨s₁, ds₁⟩, ⟨_, ⟨s₂, ds₂⟩, ⟨x, hx, hds⟩, -, hc⟩, h⟩)
    · cases (Program.asks_request.mp h).1
    · cases hc
      simp only [World.answer, hs, if_true] at hx
      cases hx
      have hds : ds = ds₁ := hds
      rw [hds]
      rcases asks_bind.mp h with h | ⟨result, _, -, h⟩
      · exact asks_attempt.mp h
      · have hunlock : (ask .unlockSchedule >>= fun _ => Program.ofExcept result : Prog Unit).Within
            Unplacing fun _ => True :=
          .bind (quiet_ask (r := .unlockSchedule) trivial).unplacing fun _ _ =>
            (quiet_ofExcept result).unplacing
        exact absurd h (not_asks_of_unplacing hunlock)
  · intro h
    refine .inr ⟨(), ({ s with scheduler := some w }, ds), ?_, asks_bind.mpr (.inl (asks_attempt.mpr h))⟩
    refine ⟨(), _, ⟨{}, ?_, rfl⟩, rfl, rfl⟩
    simp only [World.answer, hs, if_true]

/-- A run writes a placement if the VM has to be placed and a node is found for it. -/
theorem asks_placementWrite (hst : vm.status = some st) (hs : s.scheduler = none) :
    (schedulingAndMigrations vm).Asks (Delivered w) (s, ds) (placementWrite vm status) (t, ds') ↔
      t = { s with scheduler := some w } ∧ ∃ rest n, ds = complianceCalls vm st ++ rest ∧
        mustPlace s vm st = true ∧ Found t vm (migrationRequested vm) rest n ds' ∧
        status = scheduledStatus st n (migrationRequested vm) := by
  unfold schedulingAndMigrations
  rw [tryStatus_of_some hst]
  change ((isUncompliant vm >>= fun rescheduleRequired =>
    onlyIf (!st.scheduled || migrationRequested vm || rescheduleRequired)
      (Program.bracket (ask .lockSchedule) (placeVm vm st (migrationRequested vm))
        (ask .unlockSchedule)) >>= fun _ => clearSuccessfulMigration vm) : Prog Unit).Asks _ _ _ _ ↔ _
  rw [asks_bind]
  constructor
  · rintro (h | ⟨b, ⟨s₁, rest⟩, hb, h⟩)
    · exact absurd h (not_asks_of_unplacing (quiet_isUncompliant vm).unplacing)
    · obtain ⟨rfl, rfl, rfl⟩ := (ends_isUncompliant_delivered hst).mp hb
      rcases asks_bind.mp h with h | ⟨_, _, -, h⟩
      · unfold onlyIf at h
        split at h
        · next hmust =>
          obtain ⟨n, hn, rfl⟩ := asks_placeVm.mp ((asks_underMutex hs).mp h)
          obtain ⟨rfl, hfound⟩ := ends_scheduleOrBypass_delivered.mp hn
          exact ⟨rfl, rest, n, rfl, hmust, hfound, rfl⟩
        · cases h
      · exact absurd h (not_asks_of_unplacing unplacing_clearSuccessfulMigration)
  · rintro ⟨rfl, rest, n, rfl, hmust, hfound, rfl⟩
    refine .inr ⟨_, (s, rest), (ends_isUncompliant_delivered hst).mpr ⟨rfl, rfl, rfl⟩, ?_⟩
    refine asks_bind.mpr (.inl ?_)
    unfold mustPlace at hmust
    unfold onlyIf
    rw [if_pos hmust]
    refine (asks_underMutex hs).mpr (asks_placeVm.mpr ⟨n, ?_, rfl⟩)
    exact ends_scheduleOrBypass_delivered.mpr ⟨rfl, hfound⟩

end Writes

/-- A run of `scheduling_and_migrations` from the state, with the mutex free, writes the
status in the other state. -/
def Writes (w : Worker) (s : World) (vm : VirtualMachine) (ds : List Delivery)
    (status : VirtualMachineStatus) (t : World) : Prop :=
  ∃ ds', (schedulingAndMigrations vm).Asks (Delivered w) ({ s with scheduler := none }, ds)
    (placementWrite vm status) (t, ds')

section Holder

variable {s : World} {a b : Option Worker} {vm : VirtualMachine} {ignoreAffinity : Bool}
  {ds ds' : List Delivery} {n : Node}

/-! Whoever holds the mutex, the nodes are the same. -/

theorem Eligible.heldBy (h : Eligible { s with scheduler := a } vm ignoreAffinity n) :
    Eligible { s with scheduler := b } vm ignoreAffinity n :=
  ⟨⟨h.available.listed, h.available.inService⟩, h.schedulable, h.leaves, h.apart⟩

theorem Searched.heldBy {o : Outcome Error Node}
    (h : Searched { s with scheduler := a } vm ignoreAffinity ds o ds') :
    Searched { s with scheduler := b } vm ignoreAffinity ds o ds' := by
  cases h with
  | unlisted hd => exact .unlisted hd
  | pinned hp hn => exact .pinned hp hn
  | missing hp hn => exact .missing hp hn
  | unchecked hp hg hd => exact .unchecked hp hg hd
  | chosen hp hn => exact .chosen hp hn
  | exhausted hp hnil => exact .exhausted hp hnil

theorem Found.heldBy {migrationRequired : Bool}
    (h : Found { s with scheduler := a } vm migrationRequired ds n ds') :
    Found { s with scheduler := b } vm migrationRequired ds n ds' := by
  cases h with
  | normally hs => exact .normally hs.heldBy
  | bypassing hm hs hs' => exact .bypassing hm hs.heldBy hs'.heldBy

end Holder

section Targets

variable {w : Worker} {s t : World} {ds : List Delivery} {vm : VirtualMachine}
  {st status : VirtualMachineStatus}

theorem writes_iff (hst : vm.status = some st) :
    Writes w s vm ds status t ↔
      t = { s with scheduler := some w } ∧ ∃ rest n ds', ds = complianceCalls vm st ++ rest ∧
        mustPlace s vm st = true ∧ Found s vm (migrationRequested vm) rest n ds' ∧
        status = scheduledStatus st n (migrationRequested vm) := by
  constructor
  · rintro ⟨ds', h⟩
    obtain ⟨rfl, rest, n, hds, hmust, hfound, hstatus⟩ := (asks_placementWrite hst rfl).mp h
    exact ⟨rfl, rest, n, ds', hds, hmust, hfound.heldBy, hstatus⟩
  · rintro ⟨rfl, rest, n, ds', hds, hmust, hfound, hstatus⟩
    exact ⟨ds', (asks_placementWrite hst rfl).mpr
      ⟨rfl, rest, n, hds, hmust, hfound.heldBy (a := s.scheduler), hstatus⟩⟩

theorem status_of_migrationRequested (h : migrationRequested vm = true) :
    ∃ st source, vm.status = some st ∧ st.node = some source ∧
      migrationRequestedFrom vm = some source := by
  unfold migrationRequested getVmNode at h
  cases hm : migrationRequestedFrom vm with
  | none =>
    rw [hm] at h
    cases h
  | some source =>
    rw [hm] at h
    cases hst : vm.status with
    | none =>
      rw [hst] at h
      cases h
    | some st =>
      rw [hst] at h
      exact ⟨st, source, rfl, of_decide_eq_true h, rfl⟩

theorem mustPlace_of_migrationRequested (h : migrationRequested vm = true) :
    mustPlace s vm st = true := by
  simp [mustPlace, h]

/-! ## The node that is written -/

/-- Whenever the VM is marked as migrating, the node that is written is not the one that it
is on. -/
def MigrationMoves (w : Worker) (s : World) (vm : VirtualMachine) : Prop :=
  ∀ ds status t st, Writes w s vm ds status t → vm.status = some st →
    st.migrationPending = false → status.migrationPending = true → status.node ≠ getVmNode vm

/-- The spec names the node that the VM is on and is asked to leave, and that node is
available. -/
structure PinnedToSource (s : World) (vm : VirtualMachine) : Prop where
  requested : migrationRequested vm = true
  idle : ∃ st, vm.status = some st ∧ st.migrationPending = false
  stays : ∃ n, Available s n ∧ vm.spec.node = some n.metadata.name ∧
    getVmNode vm = some n.metadata.name

theorem PinnedToSource.not_moves (h : PinnedToSource s vm) : ¬MigrationMoves w s vm := by
  obtain ⟨st, hst, hidle⟩ := h.idle
  obtain ⟨n, hn, hp, hnode⟩ := h.stays
  obtain ⟨n', hn'⟩ := Option.isSome_iff_exists.mp (openNode_isSome.mpr ⟨n, hn, rfl⟩)
  intro hmoves
  refine hmoves _ (scheduledStatus st n' true) _ st ((writes_iff hst).mpr ⟨rfl, [.served], n', [], rfl,
    mustPlace_of_migrationRequested h.requested, .normally (.pinned hp hn'), ?_⟩) hst hidle rfl ?_
  · rw [h.requested]
  · rw [hnode]
    exact congrArg some (available_of_openNode hn').2

/-- The scheduler only returns the source of a migration if the spec names it. -/
theorem Searched.leaves {ignoreAffinity : Bool} {ds' : List Delivery} {n : Node}
    (h : Searched s vm ignoreAffinity ds (.ok n) ds')
    (hn : migrationRequestedFrom vm = some n.metadata.name) :
    Available s n ∧ vm.spec.node = some n.metadata.name := by
  cases h with
  | pinned hp hopen =>
    obtain ⟨ha, rfl⟩ := available_of_openNode hopen
    exact ⟨ha, hp⟩
  | chosen hp hmem => exact absurd hn (eligible_of_candidate hmem).leaves

/-- A migration moves the VM, unless its spec pins it to the node that it has to leave. -/
theorem migration_moves_iff : MigrationMoves w s vm ↔ ¬PinnedToSource s vm := by
  refine ⟨fun h hpinned => hpinned.not_moves h, fun h ds status t st hw hst hidle hpending hsame => ?_⟩
  obtain ⟨-, rest, n, ds', -, -, hfound, rfl⟩ := (writes_iff hst).mp hw
  cases hm : migrationRequested vm with
  | false =>
    rw [hm] at hpending
    change st.migrationPending = true at hpending
    rw [hidle] at hpending
    cases hpending
  | true =>
    obtain ⟨st', source, hst', hsource, hfrom⟩ := status_of_migrationRequested hm
    cases hst.symm.trans hst'
    have hnode : getVmNode vm = some n.metadata.name := hsame.symm
    have hleft : migrationRequestedFrom vm = some n.metadata.name := by
      rw [hfrom, ← hnode]
      unfold getVmNode
      rw [hst, ← hsource]
      rfl
    have hstays : Available s n ∧ vm.spec.node = some n.metadata.name := by
      cases hfound with
      | normally hs => exact hs.leaves hleft
      | bypassing _ _ hs => exact hs.leaves hleft
    exact h ⟨hm, ⟨st, hst, hidle⟩, n, hstays.1, hstays.2, hnode⟩

section Counterexample

attribute [local instance] plainCrates

/-- The spec of the VM `x` names the node `a`, on which it runs, and it is asked to leave. -/
def pinnedDeeds : List Deed :=
  let spec : VirtualMachineSpec := { plainSpec with node := some "a" }
  [.happen (.create .node ⟨"", "a"⟩ [] [] ()),
   .happen (.create .virtualMachine ⟨"n", "x"⟩ [] [] spec),
   .turn (.vm ⟨"n", "x"⟩), .turn (.vm ⟨"n", "x"⟩),
   .happen (.edit .virtualMachine ⟨"n", "x"⟩ [] [( migrationRequestAnnotation, "a")] spec)]

/-- The VM is marked as migrating, and stays where it is. -/
theorem migration_stays : ∃ s vm, Serial Served anyDeed World.initial s ∧
    s.vms.find? ⟨"n", "x"⟩ = some vm ∧ ¬MigrationMoves (.vm ⟨"n", "x"⟩) s vm := by
  have h : ((performAll anyRequest anyDeed World.initial pinnedDeeds).any fun s =>
      (s.vms.find? ⟨"n", "x"⟩).any fun vm =>
        migrationRequested vm && decide (vm.spec.node = some "a") &&
        decide (getVmNode vm = some "a") && (vm.status.any fun st => !st.migrationPending) &&
        (s.openNode "a").isSome) = true := by
    decide +kernel
  simp only [Option.any_eq_true, Bool.and_eq_true, decide_eq_true_eq, Bool.not_eq_true'] at h
  obtain ⟨s, hs, vm, hvm, ⟨⟨⟨hm, hp⟩, hnode⟩, hidle⟩, hopen⟩ := h
  obtain ⟨n, hn, hname⟩ := openNode_isSome.mp hopen
  refine ⟨s, vm, (serial_of_perform hs).mono (fun _ _ _ _ _ h => h.1) (fun _ _ h => h), hvm,
    PinnedToSource.not_moves ⟨hm, hidle, n, hn, ?_, ?_⟩⟩
  · rw [hp, hname]
  · rw [hnode, hname]

end Counterexample

/-! ## Affinity -/

/-- If a VM that its spec does not pin migrates to the node of another member of its group,
no node satisfies all rules. -/
def BypassesIfNeeded (w : Worker) (s : World) (vm : VirtualMachine) (ds : List Delivery) : Prop :=
  ∀ status t node, Writes w s vm ds status t → migrationRequested vm = true →
    vm.spec.node = none → status.node = some node → HostsOther t vm node →
    ¬∃ n, Eligible t vm false n

/-- Every eligible node is that of the stored version of the VM, which then is another
version than the copy. -/
def OnlyOwnNode (s : World) (vm : VirtualMachine) : Prop :=
  ∀ n, Eligible s vm false n → ∃ own ∈ s.vms.objects, own.key = vm.key ∧
    antiAffinityGroup own = antiAffinityGroup vm ∧ getVmNode own = some n.metadata.name

/-- With these deliveries a VM of a group has no node after the first search, and the nodes
are listed for the second. -/
inductive FirstFails (s : World) (vm : VirtualMachine) : List Delivery → Prop
  | nodes {d : Delivery} {ds : List Delivery} : d ≠ .served → FirstFails s vm (d :: .served :: ds)
  | group {d : Delivery} {ds : List Delivery} :
      d ≠ .served → FirstFails s vm (.served :: d :: .served :: ds)
  | own {ds : List Delivery} :
      OnlyOwnNode s vm → FirstFails s vm (.served :: .served :: .served :: ds)

/-- There are nodes that satisfy all rules and others that satisfy all but anti-affinity,
and the first search fails nevertheless. -/
structure BypassedInVain (s : World) (vm : VirtualMachine) (ds : List Delivery) : Prop where
  requested : migrationRequested vm = true
  unpinned : vm.spec.node = none
  choice : ∃ n, Eligible s vm false n
  shared : ∃ n, Eligible s vm true n ∧ HostsOther s vm n.metadata.name
  failed : ∃ st rest, vm.status = some st ∧ ds = complianceCalls vm st ++ rest ∧
    FirstFails s vm rest

/-- Where anti-affinity is ignored, the candidates are the eligible nodes. -/
theorem Eligible.candidate_of_ignoring {n : Node} (h : Eligible s vm true n) :
    n ∈ s.eligible vm true := by
  rcases h.candidate with hc | ⟨hi, -⟩
  · exact hc
  · cases hi

theorem eligible_nil_iff : s.eligible vm false = [] ↔
    ∀ n, Eligible s vm false n → ∃ own ∈ s.vms.objects, own.key = vm.key ∧
      antiAffinityGroup own = antiAffinityGroup vm ∧ (antiAffinityGroup vm).isSome = true ∧
      getVmNode own = some n.metadata.name := by
  constructor
  · intro hnil n hn
    rcases hn.candidate with hc | ⟨-, own, ho, hk, hnode, hgroup, hsome⟩
    · rw [hnil] at hc
      cases hc
    · exact ⟨own, ho, hk, hgroup, hsome, hnode⟩
  · intro h
    refine List.eq_nil_iff_forall_not_mem.mpr fun n hn => ?_
    obtain ⟨own, ho, -, hgroup, hsome, hnode⟩ := h n (eligible_of_candidate hn)
    obtain ⟨group, hg⟩ := Option.isSome_iff_exists.mp hsome
    exact (mem_eligible.mp hn).2.2.2 (mem_blocked.mpr ⟨rfl, group, hg, own, ho, hgroup.trans hg, hnode⟩)

/-- The calls that are lost in the first search. -/
theorem firstFails_of_found {ds' : List Delivery} {n : Node} (hp : vm.spec.node = none)
    (hhosts : HostsOther s vm n.metadata.name) (h : Found s vm true ds n ds') :
    Eligible s vm true n ∧ FirstFails s vm ds := by
  obtain ⟨group, hg, -⟩ := id hhosts
  have hlooks : looksAtGroup vm false = true := by simp [looksAtGroup, hg]
  cases h with
  | normally hs =>
    cases hs with
    | pinned hq => cases hp.symm.trans hq
    | chosen _ hn => exact absurd hhosts ((eligible_of_candidate hn).apart rfl)
  | bypassing _ hs hs' =>
    cases hs' with
    | pinned hq => cases hp.symm.trans hq
    | chosen _ hn =>
      refine ⟨eligible_of_candidate hn, ?_⟩
      cases hs with
      | unlisted hd => exact .nodes hd
      | missing hq => cases hp.symm.trans hq
      | unchecked _ _ hd => exact .group hd
      | exhausted _ hnil =>
        unfold groupCalls
        rw [if_pos hlooks]
        refine .own fun m hm => ?_
        obtain ⟨own, ho, hk, hgroup, -, hnode⟩ := eligible_nil_iff.mp hnil m hm
        exact ⟨own, ho, hk, hgroup, hnode⟩

/-- With these deliveries the second search finds any node that satisfies all rules but
anti-affinity. -/
theorem found_of_firstFails {n : Node} (hp : vm.spec.node = none)
    (hg : (antiAffinityGroup vm).isSome = true) (hn : Eligible s vm true n)
    (h : FirstFails s vm ds) : ∃ ds', Found s vm true ds n ds' := by
  have hlooks : looksAtGroup vm false = true := by simp [looksAtGroup, hg]
  have hsecond : ∀ ds', Searched s vm true (.served :: ds') (.ok n) ds' := fun _ =>
    .chosen hp hn.candidate_of_ignoring
  cases h with
  | @nodes d ds' hd => exact ⟨ds', .bypassing rfl (.unlisted hd) (hsecond ds')⟩
  | @group d ds' hd => exact ⟨ds', .bypassing rfl (.unchecked hp hlooks hd) (hsecond ds')⟩
  | @own ds' hown =>
    have hnil : s.eligible vm false = [] := eligible_nil_iff.mpr fun m hm => by
      obtain ⟨own, ho, hk, hgroup, hnode⟩ := hown m hm
      exact ⟨own, ho, hk, hgroup, hg, hnode⟩
    have hfirst : Searched s vm false (.served :: (groupCalls vm false ++ .served :: ds'))
        (.err (.scheduleFailed vm.metadata.name)) (.served :: ds') := .exhausted hp hnil
    unfold groupCalls at hfirst
    rw [if_pos hlooks] at hfirst
    exact ⟨ds', .bypassing rfl hfirst (hsecond ds')⟩

theorem BypassedInVain.not_needed (h : BypassedInVain s vm ds) : ¬BypassesIfNeeded w s vm ds := by
  obtain ⟨st, rest, hst, rfl, hfails⟩ := h.failed
  obtain ⟨n, hn, hhosts⟩ := h.shared
  obtain ⟨group, hg, -⟩ := id hhosts
  obtain ⟨ds', hfound⟩ := found_of_firstFails h.unpinned (by rw [hg]; rfl) hn hfails
  intro hneeded
  obtain ⟨m, hm⟩ := h.choice
  refine hneeded (scheduledStatus st n true) { s with scheduler := some w } n.metadata.name
    ((writes_iff hst).mpr ⟨rfl, rest, n, ds', rfl, mustPlace_of_migrationRequested h.requested, ?_, ?_⟩)
    h.requested h.unpinned rfl hhosts ⟨m, hm.heldBy (a := s.scheduler)⟩
  · rw [h.requested]
    exact hfound
  · rw [h.requested]

/-- Affinity is bypassed only when necessary, unless the first search fails although a node
satisfies all rules. -/
theorem affinity_bypassed_iff : BypassesIfNeeded w s vm ds ↔ ¬BypassedInVain s vm ds := by
  refine ⟨fun h hvain => hvain.not_needed h, fun h status t node hw hm hp hnode hhosts => ?_⟩
  rintro ⟨m, hmelig⟩
  obtain ⟨st, source, hst, -, -⟩ := status_of_migrationRequested hm
  obtain ⟨rfl, rest, n, ds', rfl, -, hfound, rfl⟩ := (writes_iff hst).mp hw
  cases hnode
  rw [hm] at hfound
  have hhosts : HostsOther s vm n.metadata.name := hhosts
  obtain ⟨hn, hfails⟩ := firstFails_of_found hp hhosts hfound
  exact h ⟨hm, hp, ⟨m, hmelig.heldBy (b := s.scheduler)⟩, ⟨n, hn, hhosts⟩, st, rest, hst, rfl, hfails⟩

end Targets

section Counterexample

attribute [local instance] plainCrates

/-- Of three nodes, the group takes two, and the VM `x` is asked to leave its own. -/
def threeNodeDeeds : List Deed :=
  [.happen (.create .node ⟨"", "a"⟩ [] [] ()), .happen (.create .node ⟨"", "b"⟩ [] [] ()),
   .happen (.create .node ⟨"", "c"⟩ [] [] ()),
   .happen (.create .virtualMachine ⟨"n", "y"⟩ [(antiAffinityLabel, "g")] [] plainSpec),
   .turn (.vm ⟨"n", "y"⟩), .turn (.vm ⟨"n", "y"⟩),
   .happen (.create .virtualMachine ⟨"n", "x"⟩ [(antiAffinityLabel, "g")] [] plainSpec),
   .turn (.vm ⟨"n", "x"⟩), .turn (.vm ⟨"n", "x"⟩),
   .happen (.edit .virtualMachine ⟨"n", "x"⟩ [(antiAffinityLabel, "g")]
     [( migrationRequestAnnotation, "b")] plainSpec)]

/-- The nodes could not be listed once, and the VM joins another member of its group while a
node is free. -/
theorem affinity_bypassed_in_vain : ∃ s vm ds, Serial Served anyDeed World.initial s ∧
    s.vms.find? ⟨"n", "x"⟩ = some vm ∧ ¬BypassesIfNeeded (.vm ⟨"n", "x"⟩) s vm ds := by
  have h : ((performAll anyRequest anyDeed World.initial threeNodeDeeds).any fun s =>
      (s.vms.find? ⟨"n", "x"⟩).any fun vm => (s.vms.find? ⟨"n", "y"⟩).any fun y =>
        migrationRequested vm && decide (vm.spec.node = none) &&
        decide (antiAffinityGroup vm = some "g") && decide (antiAffinityGroup y = some "g") &&
        decide (getVmNode y = some "c") &&
        (s.eligible vm false).any (fun _ => true) &&
        (s.eligible vm true).any fun n => decide (n.metadata.name = "c")) = true := by
    decide +kernel
  simp only [Option.any_eq_true, Bool.and_eq_true, decide_eq_true_eq, List.any_eq_true] at h
  obtain ⟨s, hs, vm, hvm, y, hy, ⟨⟨⟨⟨⟨hm, hp⟩, hg⟩, hgy⟩, hyc⟩, n, hn, -⟩, c, hc, hname⟩ := h
  obtain ⟨st, -, hst, -, -⟩ := status_of_migrationRequested hm
  have hkx : vm.key = ⟨"n", "x"⟩ := Collection.key_of_find? hvm
  have hky : y.key = ⟨"n", "y"⟩ := Collection.key_of_find? hy
  have hhosts : HostsOther s vm c.metadata.name := by
    refine ⟨"g", hg, y, Collection.mem_of_find? hy, ?_, hgy, by rw [hyc, hname]⟩
    rw [hkx, hky]
    decide
  refine ⟨s, vm, complianceCalls vm st ++ [.failed, .served],
    (serial_of_perform hs).mono (fun _ _ _ _ _ h => h.1) (fun _ _ h => h), hvm, ?_⟩
  exact BypassedInVain.not_needed ⟨hm, hp, ⟨n, eligible_of_candidate hn⟩,
    ⟨c, eligible_of_candidate hc, hhosts⟩, st, _, hst, rfl, .nodes (by decide)⟩

end Counterexample

end ClusterController
