import ClusterController.Reconciles

/-!
# Anti-affinity

The compliance check of a reconcile is made before it holds `SCHEDULE_MUTEX`, so nothing
follows from it. What keeps the members of a group apart is the mutex: list, choice and
status write happen inside it, nobody else gives a virtual machine a node meanwhile
(`NoNewPlacements`), and the write is refused when the copy is old.
-/

namespace ClusterController

open ApiServer (StringMap Key KubeError Resource Collection)
open Interaction (Program Contract Terms Regime)
open Interaction.Program (Within)
open Interaction.Contract (wp_mono wp_bind wp_attempt wp_weaken)

/-! ## Groups and nodes -/

/-- The anti-affinity group of a VM. -/
def antiAffinityGroup (vm : VirtualMachine) : Option String :=
  vm.metadata.labels.get antiAffinityLabel

namespace World

/-- No two members of an anti-affinity group are on one node. -/
def Spread (s : World) : Prop :=
  ∀ o₁ ∈ s.vms.objects, ∀ o₂ ∈ s.vms.objects, o₁.key ≠ o₂.key →
    ∀ group, antiAffinityGroup o₁ = some group → antiAffinityGroup o₂ = some group →
      ∀ node, getVmNode o₁ = some node → getVmNode o₂ ≠ some node

/-- No VM sets `spec.node`. -/
def Unpinned (s : World) : Prop := ∀ o ∈ s.vms.objects, o.spec.node = none

/-- Every VM that has a node in `t` has had it in `s`. -/
def NoNewPlacements (s t : World) : Prop :=
  ∀ o ∈ t.vms.objects, ∀ node, getVmNode o = some node →
    ∃ o' ∈ s.vms.objects, o'.key = o.key ∧ antiAffinityGroup o' = antiAffinityGroup o ∧
      getVmNode o' = some node

variable {s t u : World}

theorem NoNewPlacements.of_eq (h : t.vms = s.vms) : s.NoNewPlacements t := by
  intro o ho node hn
  rw [h] at ho
  exact ⟨o, ho, rfl, rfl, hn⟩

theorem NoNewPlacements.trans (h : s.NoNewPlacements t) (h' : t.NoNewPlacements u) :
    s.NoNewPlacements u := by
  intro o ho node hn
  obtain ⟨o₁, ho₁, hk₁, hg₁, hn₁⟩ := h' o ho node hn
  obtain ⟨o₂, ho₂, hk₂, hg₂, hn₂⟩ := h o₁ ho₁ node hn₁
  exact ⟨o₂, ho₂, hk₂.trans hk₁, hg₂.trans hg₁, hn₂⟩

theorem NoNewPlacements.spread (h : s.NoNewPlacements t) (hs : s.Spread) : t.Spread := by
  intro o₁ ho₁ o₂ ho₂ hne group hg₁ hg₂ node hn₁ hn₂
  obtain ⟨p₁, hp₁, hk₁, hq₁, hm₁⟩ := h o₁ ho₁ node hn₁
  obtain ⟨p₂, hp₂, hk₂, hq₂, hm₂⟩ := h o₂ ho₂ node hn₂
  refine hs p₁ hp₁ p₂ hp₂ ?_ group (hq₁.trans hg₁) (hq₂.trans hg₂) node hm₁ hm₂
  rw [hk₁, hk₂]
  exact hne

/-- A change of one VM that leaves its group alone and gives it no new node. -/
theorem NoNewPlacements.of_changes {old n : VirtualMachine} (hk : n.key = old.key)
    (hc : s.vms.Changes t.vms old (s.vms.stamp n))
    (hg : antiAffinityGroup n = antiAffinityGroup old)
    (hn : ∀ node, getVmNode n = some node → getVmNode old = some node) : s.NoNewPlacements t := by
  intro o ho node hnode
  rcases hc.objects_cases ho with rfl | ⟨ho, -⟩
  · exact ⟨old, Collection.mem_of_find? hc.find?_old, hk.symm, hg.symm, hn node hnode⟩
  · exact ⟨o, ho, rfl, rfl, hnode⟩

/-- A VM may get a node that no member of its group has. -/
theorem Spread.of_changes {old new : VirtualMachine} (hs : s.Spread)
    (hc : s.vms.Changes t.vms old new)
    (hf : ∀ group, antiAffinityGroup new = some group → ∀ o ∈ s.vms.objects,
      antiAffinityGroup o = some group → ∀ node, getVmNode new = some node →
        getVmNode o ≠ some node) : t.Spread := by
  intro o₁ ho₁ o₂ ho₂ hne group hg₁ hg₂ node hn₁ hn₂
  rcases hc.objects_cases ho₁ with rfl | ⟨ho₁, -⟩
  · rcases hc.objects_cases ho₂ with rfl | ⟨ho₂, -⟩
    · exact hne rfl
    · exact hf group hg₁ o₂ ho₂ hg₂ node hn₁ hn₂
  · rcases hc.objects_cases ho₂ with rfl | ⟨ho₂, -⟩
    · exact hf group hg₂ o₁ ho₁ hg₁ node hn₂ hn₁
    · exact hs o₁ ho₁ o₂ ho₂ hne group hg₁ hg₂ node hn₁ hn₂

theorem Unpinned.of_eq (hs : s.Unpinned) (h : t.vms = s.vms) : t.Unpinned := by
  intro o ho
  rw [h] at ho
  exact hs o ho

theorem Unpinned.of_changes {old n : VirtualMachine} (hs : s.Unpinned)
    (hc : s.vms.Changes t.vms old (s.vms.stamp n)) (hn : n.spec.node = none) : t.Unpinned := by
  intro o ho
  rcases hc.objects_cases ho with rfl | ⟨ho, -⟩
  · exact hn
  · exact hs o ho

end World

/-! ## Steps -/

/-- What is assumed of the steps: no VM sets `spec.node`, labels of anti-affinity do not
change, and affinity is not ignored. -/
def steady (s : World) : ClusterEvent → Prop
  | .world (.create .virtualMachine _ _ _ spec) => spec.node = none
  | .world (.edit .virtualMachine k labels _ spec) => spec.node = none ∧
      labels.get antiAffinityLabel = (s.vms.find? k).bind antiAffinityGroup
  | .call _ (.scheduleSpan ignoreAffinity) _ => ignoreAffinity = false
  | _ => True

instance : ∀ s e, Decidable (steady s e) := by
  intro s e
  unfold steady
  split <;> infer_instance

section Effects

variable {w : Worker} {s t : World} {old n : VirtualMachine} {writer : Writer}

theorem Leaves.group (h : Leaves n old) : antiAffinityGroup n = antiAffinityGroup old :=
  congrArg (StringMap.get · antiAffinityLabel) h.labels

/-- Only the scheduler changes the node of a VM. -/
theorem Effect.getVmNode_eq (h : Effect w s old n writer) (hne : writer ≠ .schedulingAndMigrations) :
    getVmNode n = getVmNode old := by
  unfold getVmNode
  cases writer with
  | initializeStatus =>
    obtain ⟨-, hst, rfl⟩ := h
    rw [hst]
    rfl
  | fillNics =>
    obtain ⟨-, st, networks, hst, rfl⟩ := h
    rw [hst]
    rfl
  | fillUuid => obtain ⟨-, -, id, rfl⟩ := h; rfl
  | schedulingAndMigrations => exact absurd rfl hne
  | clearMigrationRequest => obtain ⟨-, rfl⟩ := h; rfl
  | requestMigrationAwayFrom => obtain ⟨m, -, -, rfl⟩ := h; rfl
  | ensureFinalizer f => obtain ⟨rfl, -⟩ := h; rfl
  | removeFinalizer f => obtain ⟨rfl, -⟩ := h; rfl
  | updateVm =>
    obtain ⟨-, st, ips, hst, rfl⟩ := h
    rw [hst]
    rfl
  | handleAdd =>
    obtain ⟨host, st, -, hst, rfl⟩ := h
    rw [hst]
    rfl
  | handleInboundMigration =>
    obtain ⟨host, st, -, -, -, hst, rfl⟩ := h
    rw [hst]
    rfl
  | updateNetwork => exact h.elim
  | updateRouter => exact h.elim

theorem Effect.getVmNode (h : Effect w s old n writer) (hne : writer ≠ .schedulingAndMigrations)
    {node : String} (hn : getVmNode n = some node) : getVmNode old = some node :=
  (h.getVmNode_eq hne).symm.trans hn

theorem Wrote.unpinned (h : Wrote w writer s t) (hs : s.Unpinned) : t.Unpinned := by
  rcases h with h | ⟨old, n, hk, hc, he⟩
  · exact hs.of_eq h
  · refine hs.of_changes hc ?_
    rw [he.leaves.node]
    exact hs old (Collection.mem_of_find? hc.find?_old)

theorem Wrote.noNewPlacements (h : Wrote w writer s t) (hne : writer ≠ .schedulingAndMigrations) :
    s.NoNewPlacements t := by
  rcases h with h | ⟨old, n, hk, hc, he⟩
  · exact .of_eq h
  · exact .of_changes hk hc he.leaves.group fun _ hn => he.getVmNode hne hn

/-- Users place no VM. -/
theorem World.happen_placements {e : WorldEvent} (ha : steady s (.world e))
    (h : s.happen e = some t) (hu : s.Unpinned) : t.Unpinned ∧ s.NoNewPlacements t := by
  rcases World.happen_vms h with hv | ⟨k, labels, annotations, spec, rfl, hk, hv⟩ |
    ⟨old, n, ht, hc⟩
  · exact ⟨hu.of_eq hv, .of_eq hv⟩
  · constructor
    · intro o ho
      rw [hv] at ho
      rcases Collection.mem_objects_record ho with rfl | ho
      · exact ha
      · exact hu o ho
    · intro o ho node hn
      rw [hv] at ho
      rcases Collection.mem_objects_record ho with rfl | ho
      · cases hn
      · exact ⟨o, ho, rfl, rfl, hn⟩
  · have hold : old ∈ s.vms.objects := Collection.mem_of_find? hc.find?_old
    have hnode : ∀ node, ClusterController.getVmNode n = some node →
        ClusterController.getVmNode old = some node := by
      intro node hn
      unfold ClusterController.getVmNode at hn ⊢
      rw [← ht.status]
      exact hn
    rcases ht.cases with ⟨k, labels, annotations, spec, rfl, hk, hl, hsp⟩ | ⟨hl, hsp⟩
    · have hs : s.vms.find? k = some old := hk ▸ Collection.find?_of_mem hold
      refine ⟨hu.of_changes hc (hsp ▸ ha.1), .of_changes ht.key hc ?_ hnode⟩
      have hgroup : labels.get antiAffinityLabel = (s.vms.find? k).bind antiAffinityGroup := ha.2
      rw [hs] at hgroup
      unfold antiAffinityGroup
      rw [hl]
      exact hgroup
    · refine ⟨hu.of_changes hc ?_, .of_changes ht.key hc ?_ hnode⟩
      · rw [hsp]
        exact hu old hold
      · unfold antiAffinityGroup
        rw [hl]

end Effects

/-! ## Terms -/

/-- The group members stay apart. Whoever holds the mutex relies on nobody else placing a
VM, and only the holder places one, on a node that keeps the group apart. -/
def spreadTerms : Terms Worker Request World where
  inv := fun s => s.Spread ∧ s.Unpinned
  rely := fun w s t => Keeps w s t ∧
    (s.scheduler = some w → t.scheduler = some w ∧ s.NoNewPlacements t)
  guar := fun w s r t => Guarantee w s r t ∧
    (r.writerOfVm = some .schedulingAndMigrations →
      t.vms = s.vms ∨ s.scheduler = some w ∧ t.Spread)

section Rely

variable {w : Worker} {s t u : World}

theorem spread_rely_refl (w : Worker) (s : World) : spreadTerms.rely w s s :=
  ⟨Keeps.refl w s, fun h => ⟨h, .of_eq rfl⟩⟩

theorem spread_rely_trans (h : spreadTerms.rely w s t) (h' : spreadTerms.rely w t u) :
    spreadTerms.rely w s u := by
  refine ⟨h.1.trans h'.1, fun hs => ?_⟩
  obtain ⟨ht, hst⟩ := h.2 hs
  obtain ⟨hu, htu⟩ := h'.2 ht
  exact ⟨hu, hst.trans htu⟩

/-- A held mutex stays with its holder through the requests of others. -/
theorem answer_scheduler_of_ne {v : Worker} {r : Request} {x : Choice} {a : r.Answer}
    (hv : s.scheduler = some v) (hne : v ≠ w) (h : World.answer w s r x = some (a, t)) :
    t.scheduler = some v := by
  cases r with
  | lockSchedule =>
    simp only [World.answer, hv] at h
    cases h
  | unlockSchedule =>
    simp only [World.answer, hv, Option.some.injEq, hne, if_false] at h
    cases h
  | _ => rw [(World.answer_frame h).scheduler (by simp) (by simp), hv]

/-- A request of a worker leaves the mutex with that worker, unless it gives it back. -/
theorem answer_scheduler_self {r : Request} {x : Choice} {a : r.Answer}
    (hs : s.scheduler = some w) (hne : r ≠ .unlockSchedule)
    (h : World.answer w s r x = some (a, t)) : t.scheduler = some w := by
  by_cases hl : r = .lockSchedule
  · subst hl
    simp only [World.answer, hs] at h
    cases h
  · rw [(World.answer_frame h).scheduler hl hne, hs]

theorem release_scheduler_of_ne {v : Worker} (hv : s.scheduler = some v) (hne : v ≠ w) :
    (World.release w s).scheduler = some v := by
  unfold World.release
  rw [hv, if_neg (fun h => hne (Option.some.inj h)), hv]

theorem happen_scheduler {e : WorldEvent} (h : s.happen e = some t) :
    t.scheduler = s.scheduler := by
  cases e with
  | create κ k labels annotations spec =>
    obtain ⟨c, -, rfl⟩ := Option.map_eq_some_iff.mp h
    rfl
  | edit κ k labels annotations spec =>
    obtain ⟨c, -, rfl⟩ := Option.map_eq_some_iff.mp h
    rfl
  | delete κ k time =>
    obtain ⟨c, -, rfl⟩ := Option.map_eq_some_iff.mp h
    rfl
  | assignAddress port address =>
    cases h
    rfl
  | _ =>
    simp only [World.happen] at h
    split at h <;> cases h
    rfl

end Rely

variable {w : Worker} {s t : World} {vm : VirtualMachine}

/-- One request of a worker that keeps its guarantee. -/
theorem spread_call {r : Request} {x : Choice} {a : r.Answer} (hi : spreadTerms.inv s)
    (hx : World.answer w s r x = some (a, t)) (hg : spreadTerms.guar w s r t) :
    spreadTerms.inv t ∧ ∀ v, v ≠ w → spreadTerms.rely v s t := by
  obtain ⟨hs, hu⟩ := hi
  have hkeep : ∀ v, Keeps v s t := keeps_of_answer hx
  cases hr : r.writerOfVm with
  | none =>
    have hvms : t.vms = s.vms := World.answer_vms hr hx
    have hnew : s.NoNewPlacements t := .of_eq hvms
    exact ⟨⟨hnew.spread hs, hu.of_eq hvms⟩, fun v hv =>
      ⟨hkeep v, fun hsv => ⟨answer_scheduler_of_ne hsv hv hx, hnew⟩⟩⟩
  | some writer =>
    have hwrote : Wrote w writer s t := hg.1.wrote hr
    by_cases hsched : writer = .schedulingAndMigrations
    · rcases hg.2 (hr.trans (congrArg some hsched)) with hvms | ⟨hself, hspread⟩
      · have hnew : s.NoNewPlacements t := .of_eq hvms
        exact ⟨⟨hnew.spread hs, hu.of_eq hvms⟩, fun v hv =>
          ⟨hkeep v, fun hsv => ⟨answer_scheduler_of_ne hsv hv hx, hnew⟩⟩⟩
      · refine ⟨⟨hspread, hwrote.unpinned hu⟩, fun v hv => ⟨hkeep v, fun hsv => ?_⟩⟩
        rw [hself] at hsv
        exact absurd (Option.some.inj hsv).symm hv
    · have hnew : s.NoNewPlacements t := hwrote.noNewPlacements hsched
      exact ⟨⟨hnew.spread hs, hwrote.unpinned hu⟩, fun v hv =>
        ⟨hkeep v, fun hsv => ⟨answer_scheduler_of_ne hsv hv hx, hnew⟩⟩⟩

/-! ## Programs that place no VM -/

/-- The request is not the status write of the scheduler. -/
def Unplacing (r : Request) : Prop := r.writerOfVm ≠ some .schedulingAndMigrations

theorem IsQuiet.unplacing {α : Type} {p : Prog α} (h : IsQuiet p) :
    p.Within Unplacing fun _ => True :=
  h.mono (fun r hr hw => by rw [writerOfVm_of_quiet hr] at hw; cases hw) fun _ _ => trivial

theorem unplacing_commit {writer : Writer} (h : writer ≠ .schedulingAndMigrations) :
    (commit vm writer).Within Unplacing fun _ => True := by
  refine ⟨fun hw => h (Option.some.inj hw), fun a => ?_⟩
  cases a <;> trivial

theorem unplacing_setStatus {st : VirtualMachineStatus} {writer : Writer}
    (h : writer ≠ .schedulingAndMigrations) :
    (setStatus vm st writer).Within Unplacing fun _ => True := by
  refine ⟨fun hw => h (Option.some.inj hw), fun a => ?_⟩
  cases a <;> trivial

theorem unplacing_onlyIf {c : Prop} [Decidable c] {p : Prog Unit}
    (h : p.Within Unplacing fun _ => True) : (onlyIf c p).Within Unplacing fun _ => True := by
  unfold onlyIf
  split
  · exact h
  · trivial

theorem unplacing_fillUuid : (fillUuid vm).Within Unplacing fun _ => True := by
  unfold fillUuid
  split
  · refine Within.bind (quiet_ask (r := .newV4) trivial).unplacing fun id _ => ?_
    exact Within.bind (unplacing_commit (by decide)) fun _ _ => trivial
  · trivial

theorem unplacing_clearSuccessfulMigration :
    (clearSuccessfulMigration vm).Within Unplacing fun _ => True := by
  unfold clearSuccessfulMigration
  split
  · exact unplacing_onlyIf (unplacing_commit (by decide))
  · trivial

/-! ## Placement within the mutex -/

/-- Quiet, and not about the mutex. -/
def Calm (r : Request) : Prop := Quiet r ∧ r ≠ .lockSchedule ∧ r ≠ .unlockSchedule

theorem rely_of_calm {r : Request} {x : Choice} {a : r.Answer} (hr : Calm r)
    (h : World.answer w s r x = some (a, t)) : spreadTerms.rely w s t := by
  refine ⟨keeps_of_answer h w, fun hs => ⟨answer_scheduler_self hs hr.2.2 h, .of_eq ?_⟩⟩
  exact World.answer_vms (writerOfVm_of_quiet hr.1) h

/-- The nodes of the group of the VM are among the blocked ones. -/
def Blocks (vm : VirtualMachine) (blocked : List String) (s : World) : Prop :=
  ∀ group, antiAffinityGroup vm = some group → ∀ o ∈ s.vms.objects,
    antiAffinityGroup o = some group → ∀ node, getVmNode o = some node → node ∈ blocked

theorem Blocks.keep {blocked : List String} (h : Blocks vm blocked s) (hs : s.NoNewPlacements t) :
    Blocks vm blocked t := by
  intro group hg o ho hgo node hn
  obtain ⟨o', ho', -, hg', hn'⟩ := hs o ho node hn
  exact h group hg o' ho' (hg'.trans hgo) node hn'

theorem not_mem_of_removeCandidateNodes {candidates : List Node} {blocked : List String}
    {node : Node} (h : node ∈ removeCandidateNodes candidates blocked) :
    node ∈ candidates ∧ node.metadata.name ∉ blocked := by
  unfold removeCandidateNodes at h
  induction blocked generalizing candidates with
  | nil => exact ⟨h, by simp⟩
  | cons b bs ih =>
    obtain ⟨hm, hn⟩ := ih h
    obtain ⟨hm, hb⟩ := List.mem_filter.mp hm
    refine ⟨hm, fun hc => ?_⟩
    rcases List.mem_cons.mp hc with h | h
    · simp [h] at hb
    · exact hn h

/-- A chosen candidate is one of the candidates. -/
theorem choose_mem {α : Type} (l : List α) :
    (choose l).Within Calm fun o => ∀ a, o = some a → a ∈ l := by
  unfold choose
  split
  · intro a ha
    cases ha
  · refine ⟨⟨trivial, by simp, by simp⟩, fun i a ha => List.mem_of_getElem? ha⟩

/-- The node is the one of the spec, or it is free of the group. -/
def Places (vm : VirtualMachine) (node : Node) (s : World) : Prop :=
  Pinned vm node ∧
    (vm.spec.node = none → ∃ blocked, Blocks vm blocked s ∧ node.metadata.name ∉ blocked)

theorem Places.keep {node : Node} (h : Places vm node s) (hs : s.NoNewPlacements t) :
    Places vm node t := by
  refine ⟨h.1, fun hn => ?_⟩
  obtain ⟨blocked, hb, hm⟩ := h.2 hn
  exact ⟨blocked, hb.keep hs, hm⟩

section Workers

variable [Crates]

/-- The contract of one worker among others that keep the groups apart. -/
abbrev spreadAgreement (w : Worker) : Contract Request Request.Answer World :=
  spreadTerms.contract cluster steady w

/-! ## Within the contract -/

theorem unplacing_fillNics : (fillNics vm).Within Unplacing fun _ => True := by
  refine Within.bind (quiet_ofExcept _).unplacing fun st _ => ?_
  refine Within.bind (quiet_collect fun _ => quiet_fillNic _ _ _ _ _).unplacing fun nics _ => ?_
  refine Within.bind (quiet_orPanic _).unplacing fun kept _ => ?_
  refine Within.bind (unplacing_onlyIf (unplacing_setStatus (by decide))) fun _ _ => ?_
  exact unplacing_commit (by decide)

/-- A program that places no VM keeps these terms if it keeps those of every worker. -/
theorem wp_unplacing {α : Type} {p : Prog α} {done : α → Prop}
    {post : Except Error α → World → Prop} (hp : p.Within Unplacing done)
    (h : (agreement w).wp p post s) : (spreadAgreement w).wp p post s := by
  have hrely : ∀ s t, (spreadAgreement w).rely s t → (agreement w).rely s t := fun _ _ hr => hr.1
  refine wp_weaken hp ?_ (fun _ _ => trivial) hrely ?_ h
  · rintro s r a t ⟨x, -, hx⟩
    exact ⟨x, trivial, hx⟩
  · exact fun s r a t hr _ _ hg => ⟨hg, fun hw => absurd hw hr⟩

/-- So does every worker but the VM controller, whatever it writes. -/
theorem wp_other {p : Prog Unit} {post : Except Error Unit → World → Prop}
    (hw : ∀ k, w ≠ .vm k) (h : (agreement w).wp p post s) : (spreadAgreement w).wp p post s := by
  have hrely : ∀ s t, (spreadAgreement w).rely s t → (agreement w).rely s t := fun _ _ hr => hr.1
  refine wp_weaken p.within_any ?_ (fun _ _ => trivial) hrely ?_ h
  · rintro s r a t ⟨x, -, hx⟩
    exact ⟨x, trivial, hx⟩
  · refine fun s r a t _ _ _ hg => ⟨hg, fun hr => ?_⟩
    rcases hg.wrote hr with h | ⟨old, n, -, -, he⟩
    · exact .inl h
    · exact absurd he.1 (hw old.key)

/-- A calm program keeps the terms, and the mutex if it is held. -/
theorem wp_calm {α : Type} {p : Prog α} {done : α → Prop} (h : p.Within Calm done) (s : World) :
    (spreadAgreement w).wp p (fun x t => spreadTerms.rely w s t ∧ ∀ a, x = .ok a → done a) s := by
  refine Contract.wp_of_within (spread_rely_refl w) (fun _ _ _ => spread_rely_trans)
    (fun _ _ h => h) ?_ h s
  rintro s₁ r a t hr - ⟨x, -, hx⟩
  refine ⟨⟨guarantee_of_quiet hr.1, fun hw => ?_⟩, rely_of_calm hr hx⟩
  rw [writerOfVm_of_quiet hr.1] at hw
  cases hw

theorem wp_blockedNodes :
    (spreadAgreement w).wp (blockedNodes vm false)
      (fun x t => spreadTerms.rely w s t ∧ ∀ l, x = .ok l → Blocks vm l t) s := by
  unfold blockedNodes
  simp only [Bool.not_false, if_true]
  split
  · next group hgroup =>
    rintro s₁ hr - a t ⟨x, -, hx⟩
    have hcalm : Calm (.kube (.list .virtualMachine (some (antiAffinityLabel, group)))) :=
      ⟨trivial, by simp, by simp⟩
    have ht : spreadTerms.rely w s₁ t := rely_of_calm hcalm hx
    refine ⟨⟨trivial, fun hw => by cases hw⟩, ?_⟩
    have hd := Option.some.inj hx
    cases a with
    | error e => exact ⟨spread_rely_trans hr ht, by simp⟩
    | ok vms =>
      refine ⟨spread_rely_trans hr ht, fun l hl => ?_⟩
      cases hl
      rcases Choice.deliver_cases x (.error .unreachable) s₁ (s₁.serveKube x
        (.list .virtualMachine (some (antiAffinityLabel, group)))) with h | h | h <;>
        rw [h] at hd <;> cases hd
      intro g hg o ho hgo node hn
      have hgg : group = g := Option.some.inj (hgroup.symm.trans hg)
      refine List.mem_filterMap.mpr ⟨o, List.mem_filter.mpr ⟨ho, ?_⟩, hn⟩
      rw [hgg]
      exact decide_eq_true hgo
  · next hnone =>
    refine ⟨spread_rely_refl w s, fun l _ group hg => ?_⟩
    have h : antiAffinityGroup vm = none := hnone
    rw [h] at hg
    cases hg

theorem wp_schedule (hs : s.scheduler = some w) :
    (spreadAgreement w).wp (schedule vm false)
      (fun x t => spreadTerms.rely w s t ∧ ∀ node, x = .ok node → Places vm node t) s := by
  have hspan : (ask (.scheduleSpan false)).Within Calm fun _ => True :=
    ⟨⟨trivial, by simp, by simp⟩, fun _ => trivial⟩
  have hlist : (kubeList .node none).Within Calm fun _ => True := by
    refine ⟨⟨trivial, by simp, by simp⟩, fun a => ?_⟩
    cases a <;> trivial
  refine wp_bind (wp_mono (wp_calm hspan s) fun x t₁ hx => ?_)
  cases x with
  | error e => exact ⟨hx.1, fun _ h => nomatch h⟩
  | ok _ =>
    refine wp_bind (wp_mono (wp_calm hlist t₁) fun x t₂ hx₂ => ?_)
    have h₂ : spreadTerms.rely w s t₂ := spread_rely_trans hx.1 hx₂.1
    cases x with
    | error e => exact ⟨h₂, fun _ h => nomatch h⟩
    | ok nodes =>
      dsimp only
      split
      · next requested hreq =>
        split
        · next node hn =>
          refine ⟨h₂, fun n h => ?_⟩
          cases h
          refine ⟨fun p hp => ?_, fun h => ?_⟩
          · have hd := List.find?_some hn
            have he : requested = p := Option.some.inj (hreq.symm.trans hp)
            rw [← he]
            simpa using hd
          · rw [hreq] at h
            cases h
        · exact ⟨h₂, fun _ h => nomatch h⟩
      · next hreq =>
        refine wp_bind (wp_mono wp_blockedNodes fun x t₃ hx₃ => ?_)
        have h₃ : spreadTerms.rely w s t₃ := spread_rely_trans h₂ hx₃.1
        cases x with
        | error e => exact ⟨h₃, fun _ h => nomatch h⟩
        | ok blocked =>
          refine wp_bind (wp_mono (wp_calm (choose_mem _) t₃) fun x t₄ hx₄ => ?_)
          have h₄ : spreadTerms.rely w s t₄ := spread_rely_trans h₃ hx₄.1
          cases x with
          | error e => exact ⟨h₄, fun _ h => nomatch h⟩
          | ok chosen =>
            cases chosen with
            | none => exact ⟨h₄, fun _ h => nomatch h⟩
            | some node =>
              refine ⟨h₄, fun n h => ?_⟩
              cases h
              obtain ⟨hs₃, -⟩ := h₃.2 hs
              refine ⟨fun p hp => ?_, fun _ => ⟨blocked, ?_, ?_⟩⟩
              · rw [hreq] at hp
                cases hp
              · exact (hx₃.2 blocked rfl).keep (hx₄.1.2 hs₃).2
              · exact (not_mem_of_removeCandidateNodes (hx₄.2 _ rfl node rfl)).2

/-- The bypass of affinity is what the steps leave out. -/
theorem wp_schedule_ignoring {post : Except Error Node → World → Prop} :
    (spreadAgreement w).wp (schedule vm true) post s := by
  rintro s₁ - - a t ⟨x, hst, -⟩
  cases hst

theorem wp_scheduleOrBypass {migrationRequired : Bool} (hs : s.scheduler = some w) :
    (spreadAgreement w).wp (scheduleOrBypass vm migrationRequired)
      (fun x t => spreadTerms.rely w s t ∧ ∀ node, x = .ok node → Places vm node t) s := by
  refine wp_bind (wp_attempt (wp_mono (wp_schedule hs) fun x t hx => ?_))
  cases x with
  | ok node => exact hx
  | error e =>
    dsimp only
    split
    · exact wp_schedule_ignoring
    · exact ⟨hx.1, fun _ h => nomatch h⟩

section Placing

variable (hc : Copy w s vm) (hw : w = .vm vm.key) (hd : vm.isDeleted = false)
include hc hw hd

/-- The status write of a VM whose node is free of its group. -/
theorem wp_setStatus_placed {st : VirtualMachineStatus} {node : Node} (hst : vm.status = some st)
    (hs : s.scheduler = some w) (hp : Places vm node s) :
    (spreadAgreement w).wp (setStatus vm (scheduledStatus st node (migrationRequested vm))
      .schedulingAndMigrations) (fun _ t => Keeps w s t) s := by
  rintro s₁ hr ⟨hspread, hunpinned⟩ a t ⟨x, -, hx⟩
  obtain ⟨hs₁, hnew⟩ := hr.2 hs
  have htr : s₁.vms.Tracks vm := (hc.keep hr.1).tracks
  have heff : Effect w s₁ vm
      { vm with status := some (scheduledStatus st node (migrationRequested vm)) }
      .schedulingAndMigrations := ⟨hw, (hc.keep hr.1).seen, hd, st, node, hst, rfl, hp.1⟩
  refine ⟨⟨replaceStatus_wrote htr heff hx, fun _ => ?_⟩, ?_⟩
  · rcases answer_write (Option.some.inj hx) with ⟨rfl, -⟩ | ⟨o, c, hok, rfl, -⟩
    · exact .inl rfl
    · have hvms : (s₁.setKube .virtualMachine c).vms = c := World.kube_setKube_self
      rcases Collection.replaceStatus_tracks htr hok with ⟨rfl, -, -⟩ | hch
      · exact .inl hvms
      · refine .inr ⟨hs₁, hspread.of_changes (hvms.symm ▸ hch) ?_⟩
        -- The write is accepted, so the copy is what is stored, and that is not pinned.
        have hvm : vm ∈ s₁.vms.objects := Collection.mem_of_find? hch.find?_old
        obtain ⟨blocked, hb, hm⟩ := (hp.keep hnew).2 (hunpinned vm hvm)
        intro group hg o ho hgo m hm₁ hm₂
        have hmn : node.metadata.name = m := Option.some.inj hm₁
        exact hm (hmn ▸ hb group hg o ho hgo m hm₂)
  · have ht : Keeps w s t := hr.1.trans (keeps_of_answer (w := w) (r := .kube _) hx w)
    cases a <;> exact ht

theorem wp_placeVm_spread {st : VirtualMachineStatus} (hst : vm.status = some st)
    (hs : s.scheduler = some w) :
    (spreadAgreement w).wp (placeVm vm st (migrationRequested vm)) (fun _ t => Keeps w s t) s := by
  refine wp_bind (wp_mono (wp_scheduleOrBypass hs) fun x t hx => ?_)
  cases x with
  | error e => exact hx.1.1
  | ok node =>
    exact wp_mono (wp_setStatus_placed (hc.keep hx.1.1) hw hd hst (hx.1.2 hs).1 (hx.2 node rfl))
      fun _ _ hk => hx.1.1.trans hk

/-- Acquire the mutex, place, release it, and return what the placement returned. -/
theorem wp_placeVm_locked {st : VirtualMachineStatus} (hst : vm.status = some st) :
    (spreadAgreement w).wp (Program.bracket (ask .lockSchedule)
      (placeVm vm st (migrationRequested vm)) (ask .unlockSchedule)) (fun _ t => Keeps w s t) s := by
  rintro s₁ hr - a t ⟨x, -, hlock⟩
  have ht : Keeps w s t := hr.1.trans (keeps_of_answer (r := .lockSchedule) (x := x) hlock w)
  have hst₁ : t.scheduler = some w := by
    have hanswer : World.answer w s₁ .lockSchedule x = some (a, t) := hlock
    simp only [World.answer] at hanswer
    split at hanswer <;> cases hanswer
    rfl
  refine ⟨⟨trivial, fun h => by cases h⟩, ?_⟩
  show (spreadAgreement w).wp ((placeVm vm st (migrationRequested vm)).attempt >>= fun result =>
    ask .unlockSchedule >>= fun _ => Program.ofExcept result) _ t
  refine wp_bind (wp_attempt (wp_mono
    (wp_placeVm_spread (hc.keep ht) hw hd hst hst₁) fun z t₃ h₃ => ?_))
  have hunlock : IsQuiet (ask .unlockSchedule) := quiet_ask trivial
  refine wp_bind (wp_mono (wp_unplacing hunlock.unplacing (wp_quiet hunlock t₃)) fun u t₄ h₄ => ?_)
  have hk : Keeps w s t₄ := ht.trans (h₃.trans h₄.1)
  cases u with
  | error e => exact hk
  | ok _ => exact Contract.wp_ofExcept hk

theorem wp_schedulingAndMigrations_spread :
    (spreadAgreement w).wp (schedulingAndMigrations vm) (fun _ t => Keeps w s t) s := by
  refine wp_tryStatus_bind (fun _ => Keeps.refl w s) fun st hst => ?_
  refine wp_bind (wp_mono (wp_unplacing (quiet_isUncompliant vm).unplacing
    (wp_quiet (quiet_isUncompliant vm) s)) fun x t₁ hx => ?_)
  cases x with
  | error e => exact hx.1
  | ok uncompliant =>
    have hc₁ : Copy w t₁ vm := hc.keep hx.1
    refine wp_bind (wp_mono (wp_onlyIf (fun _ => wp_placeVm_locked hc₁ hw hd hst)
      fun _ => Keeps.refl w t₁) fun y t₂ h₂ => ?_)
    have hk : Keeps w s t₂ := hx.1.trans h₂
    cases y with
    | error e => exact hk
    | ok _ =>
      exact wp_mono (wp_unplacing unplacing_clearSuccessfulMigration
        (wp_clearSuccessfulMigration (hc₁.keep h₂) hw)) fun _ _ h => hk.trans h

theorem wp_createVm_spread :
    (spreadAgreement w).wp (createVm vm) (fun _ t => Keeps w s t) s := by
  refine wp_bind (wp_mono (wp_unplacing (unplacing_onlyIf (unplacing_setStatus (by decide)))
    (wp_initializeStatus hc hw)) fun x t₁ h₁ => ?_)
  cases x with
  | error e => exact h₁
  | ok _ =>
    refine wp_bind (wp_mono (wp_unplacing unplacing_fillNics
      (wp_fillNics (hc.keep h₁) hw)) fun x t₂ h₂ => ?_)
    have hk₂ : Keeps w s t₂ := h₁.trans h₂
    cases x with
    | error e => exact hk₂
    | ok _ =>
      refine wp_bind (wp_mono (wp_unplacing unplacing_fillUuid
        (wp_fillUuid (hc.keep hk₂) hw)) fun x t₃ h₃ => ?_)
      have hk₃ : Keeps w s t₃ := hk₂.trans h₃.1
      cases x with
      | error e => exact hk₃
      | ok n =>
        obtain ⟨hcn, hkey, hdn⟩ := h₃.2 n rfl
        exact wp_mono (wp_schedulingAndMigrations_spread hcn (hkey ▸ hw) (hdn.trans hd))
          fun _ _ hk => hk₃.trans hk

end Placing

/-! ## All workers together -/

theorem wp_launch_spread {n : Nat} {p : Prog Unit} (h : World.launch w s n = some (p, t)) :
    (spreadAgreement w).wp p (fun _ _ => True) t := by
  by_cases hw : ∃ k, w = .vm k
  · obtain ⟨k, rfl⟩ := hw
    obtain ⟨o, ho, hk, hv, rfl, rfl⟩ := World.launch_some h
    have hc : Copy (.vm k) { s with seen := Function.update s.seen (.vm k) n } o := by
      refine ⟨.inl ho, hk, ?_⟩
      rw [hv]
      exact Function.update_self _ _ _
    show (spreadAgreement (.vm k)).wp (if o.isDeleted then .ret () else createVm o) _ _
    split
    · trivial
    · next hd =>
      exact wp_mono (wp_createVm_spread hc (congrArg Worker.vm hk.symm) (by simpa using hd))
        fun _ _ _ => trivial
  · exact wp_other (fun k hk => hw ⟨k, hk⟩) (wp_launch h)

/-- All reconciles run together on these terms. -/
def spreadRegime : Regime cluster steady where
  toTerms := spreadTerms
  rely_refl := spread_rely_refl
  rely_trans := fun _ _ _ _ => spread_rely_trans
  call_keeps := by
    rintro w s r a t hi ⟨x, -, hx⟩ hg
    exact spread_call hi hx hg
  start_keeps := by
    intro w s n p t hi _ hl
    refine ⟨?_, fun v hv => ?_, wp_launch_spread hl⟩
    · obtain ⟨o, -, -, -, -, rfl⟩ := World.launch_some hl
      exact hi
    · obtain ⟨o, -, -, -, -, rfl⟩ := World.launch_some hl
      exact ⟨⟨.of_eq rfl, Function.update_of_ne hv _ _⟩, fun hs => ⟨hs, .of_eq rfl⟩⟩
  stop_keeps := by
    rintro w s ⟨hs, hu⟩ -
    have hvms : (World.release w s).vms = s.vms := World.release_vms w s
    have hnew : s.NoNewPlacements (World.release w s) := .of_eq hvms
    refine ⟨⟨hnew.spread hs, hu.of_eq hvms⟩, fun v hv => ⟨⟨World.grows_release w s, ?_⟩, fun hsv =>
      ⟨release_scheduler_of_ne hsv hv, hnew⟩⟩⟩
    show (World.release w s).seen v = s.seen v
    rw [World.seen_release]
  world_keeps := by
    rintro s e t ⟨hs, hu⟩ ha ht
    obtain ⟨hu', hnew⟩ := World.happen_placements ha ht hu
    refine ⟨⟨hnew.spread hs, hu'⟩, fun v => ⟨⟨World.grows_happen ht, ?_⟩, fun hsv => ⟨?_, hnew⟩⟩⟩
    · rw [World.seen_happen ht]
    · exact (happen_scheduler ht).trans hsv

/-- From any state in which the groups are apart and no VM is pinned, they stay apart in
every run, whatever all controllers and users do. -/
theorem groups_stay_apart {s : World} (hs : s.Spread) (hu : s.Unpinned) {c : ClusterConfig}
    (hr : cluster.Run steady ⟨s, fun _ => none⟩ c) : c.state.Spread := by
  have h : spreadRegime.Holds ⟨s, fun _ => none⟩ := Regime.holds_idle ⟨hs, hu⟩
  exact (Regime.run_inv h hr).1

end Workers

attribute [local instance] plainCrates

theorem groups_stay_apart_placed :
    ∃ c : ClusterConfig, c.state.vms.objects.map getVmNode = [some "a", some "b"] ∧
      c.state.Spread := by
  obtain ⟨c, hr, hc⟩ := Interaction.Machine.play_reaches (M := cluster) steady
    ⟨World.initial, fun _ => none⟩ placementScript
    (fun c => c.state.vms.objects.map getVmNode = [some "a", some "b"]) (by decide +kernel)
  have hs : World.initial.Spread := fun o ho => nomatch ho
  have hu : World.initial.Unpinned := fun o ho => nomatch ho
  exact ⟨c, of_decide_eq_true hc, groups_stay_apart hs hu hr⟩

end ClusterController
