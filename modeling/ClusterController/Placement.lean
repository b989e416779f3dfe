import ClusterController.AntiAffinity
import ClusterController.MigrationRequest

/-!
# What the scheduler finds

The nodes that a VM may be placed on, stated apart from `schedule`, and what `schedule`
returns while every call of the API server has a given delivery: `Searched` lists the
ways it can end. Its candidates are the eligible nodes but for the VM's own placement,
which is in the list of its group like any other (`Eligible.candidate`).
-/

namespace ClusterController

open ApiServer (StringMap Key KubeError Resource Collection)
open Interaction (Program)
open Interaction.Program (Outcome Within ends_bind)

/-! ## Where a VM may go -/

/-- The node exists and is not in maintenance. -/
structure Available (s : World) (n : Node) : Prop where
  listed : n ∈ (s.kube .node).objects
  inService : inMaintenanceMode n = false

/-- The node is that of another VM of the anti-affinity group of the VM. -/
def HostsOther (s : World) (vm : VirtualMachine) (node : String) : Prop :=
  ∃ group, antiAffinityGroup vm = some group ∧ ∃ other ∈ s.vms.objects,
    other.key ≠ vm.key ∧ antiAffinityGroup other = some group ∧ getVmNode other = some node

/-- The node satisfies the rules for a VM that its spec does not pin. -/
structure Eligible (s : World) (vm : VirtualMachine) (ignoreAffinity : Bool) (n : Node) : Prop where
  available : Available s n
  schedulable : allowsScheduling n = true
  leaves : migrationRequestedFrom vm ≠ some n.metadata.name
  apart : ignoreAffinity = false → ¬HostsOther s vm n.metadata.name

/-- The stored version of the VM has no node, or one it is asked to leave or that it shares
with its group. -/
def OwnNodeFree (s : World) (vm : VirtualMachine) : Prop :=
  ∀ own ∈ s.vms.objects, own.key = vm.key → ∀ node, getVmNode own = some node →
    migrationRequestedFrom vm = some node ∨ HostsOther s vm node

/-! ## Candidates -/

/-- Whether the scheduler looks at the group of the VM. -/
def looksAtGroup (vm : VirtualMachine) (ignoreAffinity : Bool) : Bool :=
  !ignoreAffinity && (antiAffinityGroup vm).isSome

section Candidates

variable {s : World} {vm : VirtualMachine} {ignoreAffinity : Bool} {n : Node}

theorem mem_removeCandidateNodes {nodes : List Node} {names : List String} :
    n ∈ removeCandidateNodes nodes names ↔ n ∈ nodes ∧ n.metadata.name ∉ names := by
  unfold removeCandidateNodes
  induction names generalizing nodes with
  | nil => simp
  | cons name names ih =>
    rw [List.foldl_cons, ih, List.mem_filter]
    simp [and_assoc]

theorem mem_openCandidates {nodes : List Node} :
    n ∈ openCandidates vm nodes ↔
      n ∈ nodes ∧ allowsScheduling n = true ∧ migrationRequestedFrom vm ≠ some n.metadata.name := by
  unfold openCandidates removeNodesWithNoSchedule
  cases migrationRequestedFrom vm with
  | none => simp
  | some source =>
    refine mem_removeCandidateNodes.trans ?_
    simp [and_assoc, @eq_comm _ n.metadata.name source]

theorem mem_openNodes : n ∈ s.openNodes ↔ Available s n := by
  unfold World.openNodes removeNodesInMaintenance
  rw [List.mem_filter]
  exact ⟨fun ⟨h, hm⟩ => ⟨h, by simpa using hm⟩, fun h => ⟨h.listed, by simp [h.inService]⟩⟩

theorem available_of_openNode {p : String} (h : s.openNode p = some n) :
    Available s n ∧ n.metadata.name = p :=
  ⟨mem_openNodes.mp (List.mem_of_find?_eq_some h), by simpa using List.find?_some h⟩

theorem openNode_isSome {p : String} :
    (s.openNode p).isSome = true ↔ ∃ n, Available s n ∧ n.metadata.name = p := by
  refine List.find?_isSome.trans (exists_congr fun n => ?_)
  exact and_congr mem_openNodes decide_eq_true_iff

theorem mem_eligible :
    n ∈ s.eligible vm ignoreAffinity ↔ Available s n ∧ allowsScheduling n = true ∧
      migrationRequestedFrom vm ≠ some n.metadata.name ∧
      n.metadata.name ∉ s.blocked vm ignoreAffinity := by
  unfold World.eligible
  rw [mem_removeCandidateNodes, mem_openCandidates, mem_openNodes]
  simp only [and_assoc]

theorem mem_blocked {node : String} :
    node ∈ s.blocked vm ignoreAffinity ↔ ignoreAffinity = false ∧
      ∃ group, antiAffinityGroup vm = some group ∧ ∃ o ∈ s.vms.objects,
        antiAffinityGroup o = some group ∧ getVmNode o = some node := by
  unfold World.blocked World.group antiAffinityGroup
  cases ignoreAffinity with
  | true => simp
  | false =>
    cases vm.metadata.labels.get antiAffinityLabel with
    | none => simp
    | some group => simp [Collection.list, and_assoc]

/-- A candidate is eligible. -/
theorem eligible_of_candidate (h : n ∈ s.eligible vm ignoreAffinity) :
    Eligible s vm ignoreAffinity n := by
  obtain ⟨ha, hs, hl, hg⟩ := mem_eligible.mp h
  refine ⟨ha, hs, hl, fun hi => ?_⟩
  rintro ⟨group, hgroup, other, ho, -, hog, hn⟩
  exact hg (mem_blocked.mpr ⟨hi, group, hgroup, other, ho, hog, hn⟩)

/-- An eligible node is a candidate, unless the VM itself is on it. -/
theorem Eligible.candidate (h : Eligible s vm ignoreAffinity n) :
    n ∈ s.eligible vm ignoreAffinity ∨ ignoreAffinity = false ∧
      ∃ own ∈ s.vms.objects, own.key = vm.key ∧ getVmNode own = some n.metadata.name ∧
        antiAffinityGroup own = antiAffinityGroup vm ∧ (antiAffinityGroup vm).isSome = true := by
  by_cases hg : n.metadata.name ∈ s.blocked vm ignoreAffinity
  · obtain ⟨hi, group, hgroup, o, ho, hog, hn⟩ := mem_blocked.mp hg
    refine .inr ⟨hi, o, ho, ?_, hn, hog.trans hgroup.symm, by rw [hgroup]; rfl⟩
    by_contra hk
    exact h.apart hi ⟨group, hgroup, o, ho, hk, hog, hn⟩
  · exact .inl (mem_eligible.mpr ⟨h.available, h.schedulable, h.leaves, hg⟩)

theorem Eligible.candidate_of_free (h : Eligible s vm ignoreAffinity n) (hown : OwnNodeFree s vm) :
    n ∈ s.eligible vm ignoreAffinity := by
  rcases h.candidate with hc | ⟨hi, own, ho, hk, hn, -, -⟩
  · exact hc
  · rcases hown own ho hk _ hn with hsource | hhosts
    · exact absurd hsource h.leaves
    · exact absurd hhosts (h.apart hi)

end Candidates

/-! ## Calls that may fail -/

/-- A request of the worker is answered, and the calls of the API server have the
deliveries that the state lists. -/
def Delivered (w : Worker) (c : World × List Delivery) (r : Request) (a : r.Answer)
    (d : World × List Delivery) : Prop :=
  ∃ x, World.answer w c.1 r x = some (a, d.1) ∧ c.2 = consumed r x ++ d.2
where
  consumed : Request → Choice → List Delivery
    | .kube _, x => [x.delivery]
    | _, _ => []

section Calls

variable {w : Worker} {s t : World} {ds ds' : List Delivery} {κ : Kind} {α : Type}

/-- A request that only reads is answered in every way its delivery allows. -/
theorem ends_kubeList_delivered {selector : Option (String × String)}
    {o : Outcome Error (List (Object κ))} :
    (kubeList κ selector).Ends (Delivered w) (s, ds) o (t, ds') ↔
      t = s ∧ ((ds = .served :: ds' ∧ o = .ok ((s.kube κ).list selector)) ∨
        ∃ d, d ≠ .served ∧ ds = d :: ds' ∧ o = .err (.kube .unreachable)) := by
  constructor
  · rintro ⟨a, ⟨s₁, ds₁⟩, ⟨x, hanswer, hconsumed⟩, hk⟩
    have hx : x.deliver (.error .unreachable) s (.ok ((s.kube κ).list selector), s) = (a, s₁) :=
      Option.some.inj hanswer
    have hc : ds = x.delivery :: ds₁ := hconsumed
    unfold Choice.deliver at hx
    cases hd : x.delivery with
    | served =>
      rw [hd] at hx hc
      cases hx
      obtain ⟨rfl, ht⟩ := hk
      cases ht
      exact ⟨rfl, .inl ⟨hc, rfl⟩⟩
    | failed =>
      rw [hd] at hx hc
      cases hx
      obtain ⟨rfl, ht⟩ := hk
      cases ht
      exact ⟨rfl, .inr ⟨.failed, by decide, hc, rfl⟩⟩
    | lost =>
      rw [hd] at hx hc
      cases hx
      obtain ⟨rfl, ht⟩ := hk
      cases ht
      exact ⟨rfl, .inr ⟨.lost, by decide, hc, rfl⟩⟩
  · rintro ⟨rfl, ⟨rfl, rfl⟩ | ⟨d, hd, rfl, rfl⟩⟩
    · exact ⟨.ok _, (t, ds'), ⟨{}, rfl, rfl⟩, rfl, rfl⟩
    · refine ⟨.error .unreachable, (t, ds'), ⟨{ delivery := d }, ?_, rfl⟩, rfl, rfl⟩
      cases d with
      | served => exact absurd rfl hd
      | failed => rfl
      | lost => rfl

theorem ends_choose_delivered {l : List α} {o : Outcome Error (Option α)} :
    (choose l).Ends (Delivered w) (s, ds) o (t, ds') ↔
      (t = s ∧ ds' = ds) ∧ ((l = [] ∧ o = .ok none) ∨ ∃ a ∈ l, o = .ok (some a)) := by
  cases l with
  | nil => simp [choose, and_comm]
  | cons a l =>
    constructor
    · rintro ⟨i, ⟨s₁, ds₁⟩, ⟨x, hx, hds⟩, rfl, ht⟩
      cases ht
      simp only [World.answer] at hx
      split at hx
      · next hlt =>
        cases hx
        exact ⟨⟨rfl, hds.symm⟩,
          .inr ⟨(a :: l)[x.pick], List.getElem_mem hlt, by rw [List.getElem?_eq_getElem hlt]⟩⟩
      · cases hx
    · rintro ⟨⟨rfl, rfl⟩, ⟨hl, -⟩ | ⟨b, hb, rfl⟩⟩
      · cases hl
      · obtain ⟨i, hi, rfl⟩ := List.mem_iff_getElem.mp hb
        refine ⟨i, (t, ds'), ⟨{ pick := i }, if_pos hi, rfl⟩, ?_, rfl⟩
        rw [List.getElem?_eq_getElem hi]

section Bind

variable {β : Type} {o : Outcome Error β} {c : World × List Delivery}

theorem ends_scheduleSpan_bind {ignoreAffinity : Bool} {f : Unit → Prog β} :
    (ask (.scheduleSpan ignoreAffinity) >>= f).Ends (Delivered w) (s, ds) o c ↔
      (f ()).Ends (Delivered w) (s, ds) o c := by
  constructor
  · rintro ⟨a, ⟨s₁, ds₁⟩, ⟨x, hx, hds⟩, h⟩
    cases hx
    have hds : ds = ds₁ := hds
    rw [hds]
    exact h
  · exact fun h => ⟨(), (s, ds), ⟨{}, rfl, rfl⟩, h⟩

theorem ends_kubeList_bind {selector : Option (String × String)}
    {f : List (Object κ) → Prog β} :
    (kubeList κ selector >>= f).Ends (Delivered w) (s, ds) o c ↔
      (∃ rest, ds = .served :: rest ∧
        (f ((s.kube κ).list selector)).Ends (Delivered w) (s, rest) o c) ∨
      ∃ d rest, d ≠ .served ∧ ds = d :: rest ∧ o = .err (.kube .unreachable) ∧ c = (s, rest) := by
  obtain ⟨t, ds'⟩ := c
  rw [ends_bind]
  constructor
  · rintro (⟨a, ⟨s₁, ds₁⟩, ha, h⟩ | ⟨e, he, rfl⟩ | ⟨m, hm, -⟩)
    · obtain ⟨rfl, ⟨rfl, ho⟩ | ⟨d, -, -, ho⟩⟩ := ends_kubeList_delivered.mp ha
      · cases ho
        exact .inl ⟨ds₁, rfl, h⟩
      · cases ho
    · obtain ⟨rfl, ⟨-, ho⟩ | ⟨d, hd, rfl, ho⟩⟩ := ends_kubeList_delivered.mp he
      · cases ho
      · cases ho
        exact .inr ⟨d, ds', hd, rfl, rfl, rfl⟩
    · obtain ⟨-, ⟨-, ho⟩ | ⟨d, -, -, ho⟩⟩ := ends_kubeList_delivered.mp hm <;> cases ho
  · rintro (⟨rest, rfl, h⟩ | ⟨d, rest, hd, rfl, rfl, hc⟩)
    · exact .inl ⟨_, (s, rest), ends_kubeList_delivered.mpr ⟨rfl, .inl ⟨rfl, rfl⟩⟩, h⟩
    · cases hc
      exact .inr (.inl ⟨_, ends_kubeList_delivered.mpr ⟨rfl, .inr ⟨d, hd, rfl, rfl⟩⟩, rfl⟩)

theorem ends_choose_bind {l : List α} {f : Option α → Prog β} :
    (choose l >>= f).Ends (Delivered w) (s, ds) o c ↔
      (l = [] ∧ (f none).Ends (Delivered w) (s, ds) o c) ∨
        ∃ a ∈ l, (f (some a)).Ends (Delivered w) (s, ds) o c := by
  obtain ⟨t, ds'⟩ := c
  rw [ends_bind]
  constructor
  · rintro (⟨a, ⟨s₁, ds₁⟩, ha, h⟩ | ⟨e, he, -⟩ | ⟨m, hm, -⟩)
    · obtain ⟨⟨rfl, rfl⟩, ⟨hl, ho⟩ | ⟨b, hb, ho⟩⟩ := ends_choose_delivered.mp ha <;> cases ho
      · exact .inl ⟨hl, h⟩
      · exact .inr ⟨b, hb, h⟩
    · obtain ⟨-, ⟨-, ho⟩ | ⟨b, -, ho⟩⟩ := ends_choose_delivered.mp he <;> cases ho
    · obtain ⟨-, ⟨-, ho⟩ | ⟨b, -, ho⟩⟩ := ends_choose_delivered.mp hm <;> cases ho
  · rintro (⟨hl, h⟩ | ⟨a, ha, h⟩)
    · exact .inl ⟨none, (s, ds), ends_choose_delivered.mpr ⟨⟨rfl, rfl⟩, .inl ⟨hl, rfl⟩⟩, h⟩
    · exact .inl ⟨some a, (s, ds), ends_choose_delivered.mpr ⟨⟨rfl, rfl⟩, .inr ⟨a, ha, rfl⟩⟩, h⟩

end Bind

end Calls

/-! ## How a search ends -/

/-- The deliveries that a search with an answer takes for the list of the group. -/
def groupCalls (vm : VirtualMachine) (ignoreAffinity : Bool) : List Delivery :=
  if looksAtGroup vm ignoreAffinity then [.served] else []

/-- The ways in which `schedule` ends, by the deliveries of its calls. -/
inductive Searched (s : World) (vm : VirtualMachine) (ignoreAffinity : Bool) :
    List Delivery → Outcome Error Node → List Delivery → Prop
  /-- The nodes could not be listed. -/
  | unlisted {d : Delivery} {ds : List Delivery} :
      d ≠ .served → Searched s vm ignoreAffinity (d :: ds) (.err (.kube .unreachable)) ds
  | pinned {p : String} {n : Node} {ds : List Delivery} :
      vm.spec.node = some p → s.openNode p = some n →
      Searched s vm ignoreAffinity (.served :: ds) (.ok n) ds
  | missing {p : String} {ds : List Delivery} :
      vm.spec.node = some p → s.openNode p = none →
      Searched s vm ignoreAffinity (.served :: ds) (.err (.scheduleFailed
        (vm.metadata.name ++ " requested node " ++ p ++ " which is not available"))) ds
  /-- The members of the group could not be listed. -/
  | unchecked {d : Delivery} {ds : List Delivery} :
      vm.spec.node = none → looksAtGroup vm ignoreAffinity = true → d ≠ .served →
      Searched s vm ignoreAffinity (.served :: d :: ds) (.err (.kube .unreachable)) ds
  | chosen {n : Node} {ds : List Delivery} :
      vm.spec.node = none → n ∈ s.eligible vm ignoreAffinity →
      Searched s vm ignoreAffinity (.served :: (groupCalls vm ignoreAffinity ++ ds)) (.ok n) ds
  | exhausted {ds : List Delivery} :
      vm.spec.node = none → s.eligible vm ignoreAffinity = [] →
      Searched s vm ignoreAffinity (.served :: (groupCalls vm ignoreAffinity ++ ds))
        (.err (.scheduleFailed vm.metadata.name)) ds

section Search

variable {w : Worker} {s t : World} {ds ds' : List Delivery} {vm : VirtualMachine}
  {ignoreAffinity : Bool} {β : Type} {o : Outcome Error β} {c : World × List Delivery}

theorem ends_blockedNodes_bind {f : List String → Prog β} :
    (blockedNodes vm ignoreAffinity >>= f).Ends (Delivered w) (s, ds) o c ↔
      (∃ rest, ds = groupCalls vm ignoreAffinity ++ rest ∧
        (f (s.blocked vm ignoreAffinity)).Ends (Delivered w) (s, rest) o c) ∨
      looksAtGroup vm ignoreAffinity = true ∧ ∃ d rest, d ≠ .served ∧ ds = d :: rest ∧
        o = .err (.kube .unreachable) ∧ c = (s, rest) := by
  unfold groupCalls looksAtGroup World.blocked World.group blockedNodes antiAffinityGroup
  cases ignoreAffinity with
  | true => simp
  | false =>
    cases vm.metadata.labels.get antiAffinityLabel with
    | none => simp
    | some group =>
      unfold getNodesWithLabelScheduled getVmsWithLabel
      simpa [bind_assoc] using ends_kubeList_bind

theorem ends_schedule_delivered {o : Outcome Error Node} :
    (schedule vm ignoreAffinity).Ends (Delivered w) (s, ds) o (t, ds') ↔
      t = s ∧ Searched s vm ignoreAffinity ds o ds' := by
  unfold schedule
  rw [ends_scheduleSpan_bind, ends_kubeList_bind]
  cases hp : vm.spec.node with
  | some p =>
    have hfind : s.openNode p = (removeNodesInMaintenance ((s.kube .node).list none)).find?
        fun n => n.metadata.name = p := rfl
    dsimp only
    simp only [← hfind]
    constructor
    · rintro (⟨rest, rfl, h⟩ | ⟨d, rest, hd, rfl, rfl, hc⟩)
      · cases hr : s.openNode p with
        | some n =>
          rw [hr] at h
          obtain ⟨rfl, hc⟩ := h
          cases hc
          exact ⟨rfl, .pinned hp hr⟩
        | none =>
          rw [hr] at h
          obtain ⟨rfl, hc⟩ := h
          cases hc
          exact ⟨rfl, .missing hp hr⟩
      · cases hc
        exact ⟨rfl, .unlisted hd⟩
    · rintro ⟨rfl, h⟩
      cases h with
      | unlisted hd => exact .inr ⟨_, _, hd, rfl, rfl, rfl⟩
      | pinned hq hr =>
        cases hp.symm.trans hq
        exact .inl ⟨_, rfl, by rw [hr]; exact ⟨rfl, rfl⟩⟩
      | missing hq hr =>
        cases hp.symm.trans hq
        exact .inl ⟨_, rfl, by rw [hr]; exact ⟨rfl, rfl⟩⟩
      | unchecked hq => cases hp.symm.trans hq
      | chosen hq => cases hp.symm.trans hq
      | exhausted hq => cases hp.symm.trans hq
  | none =>
    dsimp only
    simp only [ends_blockedNodes_bind, ends_choose_bind]
    constructor
    · rintro (⟨rest, rfl, h⟩ | ⟨d, rest, hd, rfl, rfl, hc⟩)
      · rcases h with ⟨rest', rfl, ⟨hl, h⟩ | ⟨n, hn, h⟩⟩ | ⟨hg, d, rest', hd, rfl, rfl, hc⟩
        · obtain ⟨rfl, hc⟩ := h
          cases hc
          exact ⟨rfl, .exhausted hp hl⟩
        · obtain ⟨rfl, hc⟩ := h
          cases hc
          exact ⟨rfl, .chosen hp hn⟩
        · cases hc
          exact ⟨rfl, .unchecked hp hg hd⟩
      · cases hc
        exact ⟨rfl, .unlisted hd⟩
    · rintro ⟨rfl, h⟩
      cases h with
      | unlisted hd => exact .inr ⟨_, _, hd, rfl, rfl, rfl⟩
      | pinned hq => cases hp.symm.trans hq
      | missing hq => cases hp.symm.trans hq
      | unchecked _ hg hd => exact .inl ⟨_, rfl, .inr ⟨hg, _, _, hd, rfl, rfl, rfl⟩⟩
      | chosen _ hn => exact .inl ⟨_, rfl, .inl ⟨_, rfl, .inr ⟨_, hn, rfl, rfl⟩⟩⟩
      | exhausted _ hl => exact .inl ⟨_, rfl, .inl ⟨_, rfl, .inl ⟨hl, rfl, rfl⟩⟩⟩

/-- A run whose requests are all served is one in which all calls of the API server are. -/
theorem delivered_of_served {p : Prog β} {t : World} (h : p.Ends (Served w) s o t) :
    ∃ n, p.Ends (Delivered w) (s, List.replicate n .served) o (t, []) := by
  induction p generalizing s with
  | ret a =>
    obtain ⟨rfl, rfl⟩ := h
    exact ⟨0, rfl, rfl⟩
  | fail e =>
    obtain ⟨rfl, rfl⟩ := h
    exact ⟨0, rfl, rfl⟩
  | abort m =>
    obtain ⟨rfl, rfl⟩ := h
    exact ⟨0, rfl, rfl⟩
  | call r k ih =>
    obtain ⟨a, s₁, ⟨x, hserved, hx⟩, hk⟩ := h
    obtain ⟨n, hn⟩ := ih a hk
    have hcall : Delivered.consumed r x = [.served] ∨ Delivered.consumed r x = [] := by
      cases r with
      | kube q => exact .inl (congrArg (fun d => [d]) hserved)
      | _ => exact .inr rfl
    rcases hcall with hc | hc
    · exact ⟨n + 1, a, (s₁, List.replicate n .served), ⟨x, hx, by rw [hc]; rfl⟩, hn⟩
    · exact ⟨n, a, (s₁, List.replicate n .served), ⟨x, hx, by rw [hc]; rfl⟩, hn⟩

end Search

/-! ## The specification of the scheduler -/

/-- What a search for a node may come to in a state. -/
structure Sought (s : World) (vm : VirtualMachine) (ignoreAffinity : Bool)
    (o : Outcome Error Node) : Prop where
  ends : (∃ n, o = .ok n) ∨ ∃ msg, o = .err (.scheduleFailed msg)
  /-- The node that the spec names, if it is available. -/
  pinned : ∀ p, vm.spec.node = some p →
    ((∃ n, o = .ok n) ↔ ∃ n, Available s n ∧ n.metadata.name = p) ∧
      ∀ n, o = .ok n → Available s n ∧ n.metadata.name = p
  /-- Only eligible nodes otherwise, -/
  sound : vm.spec.node = none → ∀ n, o = .ok n → Eligible s vm ignoreAffinity n
  /-- and a failure exactly when there is none. -/
  complete : vm.spec.node = none → OwnNodeFree s vm →
    ((∃ msg, o = .err (.scheduleFailed msg)) ↔ ¬∃ n, Eligible s vm ignoreAffinity n)

section Spec

variable {w : Worker} {s t : World} {vm : VirtualMachine} {ignoreAffinity : Bool}
  {o : Outcome Error Node} {ds ds' : List Delivery}

/-- A pinned search and one with candidates meet the specification, as do the failures of
both. -/
theorem Searched.sought (h : Searched s vm ignoreAffinity ds o ds')
    (hds : ∀ d ∈ ds, d = .served) : Sought s vm ignoreAffinity o := by
  cases h with
  | unlisted hd => exact absurd (hds _ List.mem_cons_self) hd
  | unchecked _ _ hd => exact absurd (hds _ (List.mem_cons_of_mem _ List.mem_cons_self)) hd
  | @pinned p n _ hp hn =>
    have hnone : vm.spec.node ≠ none := by simp [hp]
    refine ⟨.inl ⟨n, rfl⟩, fun q hq => ?_, fun h => absurd h hnone, fun h => absurd h hnone⟩
    cases hp.symm.trans hq
    refine ⟨⟨fun _ => ⟨n, available_of_openNode hn⟩, fun _ => ⟨n, rfl⟩⟩, fun n' hn' => ?_⟩
    cases hn'
    exact available_of_openNode hn
  | @missing p _ hp hmissing =>
    have hnone : vm.spec.node ≠ none := by simp [hp]
    refine ⟨.inr ⟨_, rfl⟩, fun q hq => ⟨⟨?_, ?_⟩, nofun⟩, fun h => absurd h hnone,
      fun h => absurd h hnone⟩
    · rintro ⟨n, hn⟩
      cases hn
    · cases hp.symm.trans hq
      intro h
      rw [← openNode_isSome, hmissing] at h
      cases h
  | @chosen n _ hp hn =>
    refine ⟨.inl ⟨n, rfl⟩, fun q hq => by simp [hp] at hq, fun _ n' hn' => ?_,
      fun _ _ => ⟨?_, ?_⟩⟩
    · cases hn'
      exact eligible_of_candidate hn
    · rintro ⟨msg, hmsg⟩
      cases hmsg
    · exact fun h => absurd ⟨n, eligible_of_candidate hn⟩ h
  | exhausted hp hnil =>
    refine ⟨.inr ⟨_, rfl⟩, fun q hq => by simp [hp] at hq, (fun _ _ hn' => nomatch hn'),
      fun _ hown => ?_⟩
    refine ⟨fun _ ⟨n, hn⟩ => ?_, fun _ => ⟨_, rfl⟩⟩
    have hmem : n ∈ s.eligible vm ignoreAffinity := hn.candidate_of_free hown
    rw [hnil] at hmem
    cases hmem

/-- When all calls succeed, a search ends, and as specified. -/
theorem schedule_meets_specification (w : Worker) (s : World) (vm : VirtualMachine)
    (ignoreAffinity : Bool) :
    (∃ o t, (schedule vm ignoreAffinity).Ends (Served w) s o t) ∧
      ∀ o t, (schedule vm ignoreAffinity).Ends (Served w) s o t →
        Sought s vm ignoreAffinity o := by
  constructor
  · obtain ⟨o, t, h, -⟩ := (ready_schedule vm ignoreAffinity).exists_ends (w := w) (s := s) rfl
    exact ⟨o, t, h⟩
  · intro o t h
    obtain ⟨n, hn⟩ := delivered_of_served h
    exact (ends_schedule_delivered.mp hn).2.sought fun d hd => List.eq_of_mem_replicate hd

/-- `scheduling_and_migrations` only searches for a VM that has no node, has to leave its
node or shares it with its group. -/
theorem ownNodeFree_of_mustPlace {st : VirtualMachineStatus} (hv : s.vms.find? vm.key = some vm)
    (hst : vm.status = some st) (hnode : st.scheduled = false → st.node = none)
    (h : mustPlace s vm st = true) : OwnNodeFree s vm := by
  intro own ho hk node hn
  have hfind := Collection.find?_of_mem ho
  rw [hk, hv] at hfind
  cases hfind
  have hst_node : st.node = some node := by
    unfold getVmNode at hn
    rw [hst] at hn
    exact hn
  simp only [mustPlace, Bool.or_eq_true, Bool.not_eq_true', Bool.and_eq_true] at h
  rcases h with (hsch | hmigrate) | ⟨-, hcrowded⟩
  · rw [hnode hsch] at hst_node
    cases hst_node
  · unfold migrationRequested at hmigrate
    split at hmigrate
    · next source hsource =>
      left
      rw [hsource, ← of_decide_eq_true hmigrate, hn]
    · cases hmigrate
  · unfold World.crowded World.group at hcrowded
    cases hgroup : vm.metadata.labels.get antiAffinityLabel with
    | none =>
      rw [hgroup] at hcrowded
      cases hcrowded
    | some group =>
      rw [hgroup] at hcrowded
      simp only [Collection.list, List.any_eq_true, List.mem_filter, Bool.and_eq_true,
        decide_eq_true_eq] at hcrowded
      obtain ⟨other, ⟨hother, hlabel⟩, hne, -, hsame⟩ := hcrowded
      exact .inr ⟨group, hgroup, other, hother, fun he => hne (by rw [he]), hlabel,
        hsame.symm.trans hn⟩

end Spec

/-! ## A group on two nodes -/

/-- The VM `y` is placed on one of two nodes, and `x` of the same group is created. -/
def sharedGroupDeeds : List Deed :=
  [.happen (.create .node ⟨"", "a"⟩ [] [] ()), .happen (.create .node ⟨"", "b"⟩ [] [] ()),
   .happen (.create .virtualMachine ⟨"n", "y"⟩ [(antiAffinityLabel, "g")] [] plainSpec),
   .turn (.vm ⟨"n", "y"⟩), .turn (.vm ⟨"n", "y"⟩),
   .happen (.create .virtualMachine ⟨"n", "x"⟩ [(antiAffinityLabel, "g")] [] plainSpec)]

section Shared

attribute [local instance] plainCrates

/-- The search for `x` ends with the node that `y` is not on. -/
theorem schedule_meets_specification_shared :
    ∃ s x, s.vms.find? ⟨"n", "x"⟩ = some x ∧ HostsOther s x "b" ∧
      ∀ o t, (schedule x false).Ends (Served (.vm ⟨"n", "x"⟩)) s o t →
        ∃ n, o = .ok n ∧ n.metadata.name = "a" := by
  have h : ((performAll anyRequest anyDeed World.initial sharedGroupDeeds).any fun s =>
      (s.vms.find? ⟨"n", "x"⟩).any fun x =>
      (s.vms.find? ⟨"n", "y"⟩).any fun y =>
        decide (antiAffinityGroup x = some "g") && decide (antiAffinityGroup y = some "g") &&
        decide (getVmNode y = some "b") && decide (getVmNode x = none) &&
        decide (x.spec.node = none) && decide (migrationRequestedFrom x = none) &&
        decide ((s.kube .node).objects.map (·.metadata.name) = ["b", "a"]) &&
        s.vms.objects.all (fun o => decide (getVmNode o ≠ some "a")) &&
        (s.kube .node).objects.all (fun n => !inMaintenanceMode n && allowsScheduling n)) = true := by
    decide +kernel
  simp only [Option.any_eq_true, Bool.and_eq_true, decide_eq_true_eq, List.all_eq_true,
    Bool.not_eq_true'] at h
  obtain ⟨s, -, x, hx, y, hy, ⟨⟨⟨⟨⟨⟨⟨hgx, hgy⟩, hny⟩, hnx⟩, hp⟩, hm⟩, hnames⟩, hfree⟩, hopen⟩ := h
  have hkx : x.key = ⟨"n", "x"⟩ := Collection.key_of_find? hx
  have hky : y.key = ⟨"n", "y"⟩ := Collection.key_of_find? hy
  have hhosts : HostsOther s x "b" :=
    ⟨"g", hgx, y, Collection.mem_of_find? hy, by rw [hkx, hky]; decide, hgy, hny⟩
  have hown : OwnNodeFree s x := by
    intro own ho hk node hn
    have hfind := Collection.find?_of_mem ho
    rw [hk, hkx, hx] at hfind
    cases hfind
    rw [hnx] at hn
    cases hn
  have ha : "a" ∈ (s.kube .node).objects.map (·.metadata.name) := by simp [hnames]
  obtain ⟨a, ha, hname⟩ := List.mem_map.mp ha
  have heligible : Eligible s x false a := by
    refine ⟨⟨ha, (hopen a ha).1⟩, (hopen a ha).2, by simp [hm], fun _ => ?_⟩
    rintro ⟨group, -, other, ho, -, -, hn⟩
    rw [hname] at hn
    exact hfree other ho hn
  refine ⟨s, x, hx, hhosts, fun o t h => ?_⟩
  have hsought := (schedule_meets_specification (.vm ⟨"n", "x"⟩) s x false).2 o t h
  rcases hsought.ends with ⟨n, rfl⟩ | hfailed
  · have hn : Eligible s x false n := hsought.sound hp n rfl
    have hmem : n.metadata.name ∈ (s.kube .node).objects.map (·.metadata.name) :=
      List.mem_map_of_mem hn.available.listed
    rw [hnames] at hmem
    refine ⟨n, rfl, ?_⟩
    rcases List.mem_pair.mp hmem with hb | ha
    · exact absurd (hb ▸ hhosts) (hn.apart rfl)
    · exact ha
  · exact absurd ⟨a, heligible⟩ ((hsought.complete hp hown).mp hfailed)

end Shared

end ClusterController
