import ClusterController.World

/-!
# Draining a node

A node in maintenance asks its virtual machines to move. The loop over all virtual machines ends at
the first one that has no status and at the first request that is rejected: which machines are asked,
and when these are all machines of the node.
-/

namespace ClusterController

open ApiServer (Key Collection)
open Interaction (Program)
open Interaction.Program (Outcome)

/-! ## Rejected writes -/

/-- Requests are served, but for the writes of some virtual machines: these fail with any error and
change nothing. The writes are recorded, accepted or not. -/
def ServedBut (w : Worker) (rejected : Key → Bool) (s : World × List VirtualMachine) :
    (r : Request) → r.Answer → World × List VirtualMachine → Prop
  | .kube (.replace .virtualMachine vm _), a, t =>
    t.2 = s.2 ++ [vm] ∧
      if rejected vm.key then (∃ e, a = .error e) ∧ t.1 = s.1
      else (a, t.1) = s.1.store .virtualMachine (s.1.vms.replace vm)
  | r, a, t => t.2 = s.2 ∧ ∃ x, x.delivery = .served ∧ World.answer w s.1 r x = some (a, t.1)

/-- What a node in maintenance is to do: every virtual machine of the node is asked, and no other.
Those whose write is accepted have the annotation and are otherwise as before (a machine that is marked
deleted and has no finalizer goes with any write), and all others are untouched. -/
structure Drained (node : String) (rejected : Key → Bool) (s t : World)
    (written : List VirtualMachine) : Prop where
  attempted : ∀ vm ∈ s.vms.objects, getVmNode vm = some node → annotateMigration vm node ∈ written
  only : ∀ o ∈ written, ∃ vm ∈ s.vms.objects, getVmNode vm = some node ∧ o = annotateMigration vm node
  annotated : ∀ vm ∈ s.vms.objects, getVmNode vm = some node → rejected vm.key = false →
    (vm.isDeleted = true → vm.metadata.finalizers ≠ []) →
    ∃ n, t.vms.find? vm.key = some ((annotateMigration vm node).stamped vm.uid n)
  others : ∀ k, (∀ vm ∈ s.vms.objects, vm.key = k → getVmNode vm = some node → rejected k = true) →
    t.vms.find? k = s.vms.find? k

/-! ## The machines that are asked -/

/-- The machines of a list whose request is attempted. -/
def asked (node : String) (rejected : Key → Bool) : List VirtualMachine → List VirtualMachine
  | [] => []
  | vm :: vms =>
    match vm.status with
    | none => []
    | some status =>
      if status.node = some node then vm :: (if rejected vm.key then [] else asked node rejected vms)
      else asked node rejected vms

/-- The loop goes on after the machine. -/
def GoesOn (node : String) (rejected : Key → Bool) (vm : VirtualMachine) : Prop :=
  vm.status.isSome = true ∧ (getVmNode vm = some node → rejected vm.key = false)

section Asked

variable {node : String} {rejected : Key → Bool} {vm : VirtualMachine} {vms : List VirtualMachine}

theorem asked_cons_of_goesOn (h : GoesOn node rejected vm) : asked node rejected (vm :: vms) =
    (if getVmNode vm = some node then [vm] else []) ++ asked node rejected vms := by
  obtain ⟨status, hstatus⟩ := Option.isSome_iff_exists.mp h.1
  have hnode : getVmNode vm = status.node := by
    unfold getVmNode
    rw [hstatus]
    rfl
  rw [asked, hstatus]
  dsimp only
  by_cases hon : status.node = some node
  · rw [if_pos hon, if_pos (hnode.trans hon), h.2 (hnode.trans hon)]
    rfl
  · rw [if_neg hon, if_neg (hnode ▸ hon), List.nil_append]

theorem asked_cons_of_stops (h : ¬GoesOn node rejected vm) : asked node rejected (vm :: vms) =
    if getVmNode vm = some node then [vm] else [] := by
  unfold asked getVmNode
  cases hstatus : vm.status with
  | none => rfl
  | some status =>
    by_cases hon : status.node = some node
    · have hrejected : rejected vm.key = true := by
        by_contra hno
        exact h ⟨by rw [hstatus]; rfl, fun _ => Bool.not_eq_true _ ▸ hno⟩
      simp [hon, hrejected]
    · exact absurd ⟨by rw [hstatus]; rfl, fun hnode => by
        unfold getVmNode at hnode
        rw [hstatus] at hnode
        exact absurd hnode hon⟩ h

/-- Only machines of the node are asked. -/
theorem mem_asked (h : vm ∈ asked node rejected vms) : vm ∈ vms ∧ getVmNode vm = some node := by
  induction vms with
  | nil => cases h
  | cons v vs ih =>
    have hhead : ∀ u ∈ (if getVmNode v = some node then [v] else []),
        u ∈ v :: vs ∧ getVmNode u = some node := by
      intro u hu
      split at hu
      · next hon =>
        rw [List.mem_singleton.mp hu]
        exact ⟨List.mem_cons_self, hon⟩
      · cases hu
    by_cases hgoes : GoesOn node rejected v
    · rw [asked_cons_of_goesOn hgoes] at h
      rcases List.mem_append.mp h with h | h
      · exact hhead vm h
      · exact ⟨List.mem_cons_of_mem _ (ih h).1, (ih h).2⟩
    · rw [asked_cons_of_stops hgoes] at h
      exact hhead vm h

/-- All machines of the node are asked exactly where the loop goes on up to each of them. -/
theorem all_asked_iff (hnodup : vms.Nodup) :
    (∀ vm ∈ vms, getVmNode vm = some node → vm ∈ asked node rejected vms) ↔
      ∀ before vm after, vms = before ++ vm :: after → getVmNode vm = some node →
        ∀ b ∈ before, GoesOn node rejected b := by
  -- The head of the list is before every other machine of the node.
  induction vms with
  | nil => simp
  | cons v vs ih =>
    obtain ⟨hv, hvs⟩ := List.nodup_cons.mp hnodup
    constructor
    · intro h before vm after heq hon b hb
      cases before with
      | nil => cases hb
      | cons b' before =>
        obtain ⟨rfl, hrest⟩ := List.cons.inj heq
        have hvm : vm ∈ vs := hrest ▸ List.mem_append_right _ List.mem_cons_self
        have hne : vm ≠ v := fun e => hv (e ▸ hvm)
        have hnothead : vm ∉ (if getVmNode v = some node then [v] else []) := by
          split <;> simp [hne]
        by_cases hgoes : GoesOn node rejected v
        · rcases List.mem_cons.mp hb with rfl | hb
          · exact hgoes
          · refine (ih hvs).mp (fun u hu hou => ?_) before vm after hrest hon b hb
            have hmem := h u (List.mem_cons_of_mem _ hu) hou
            rw [asked_cons_of_goesOn hgoes] at hmem
            refine (List.mem_append.mp hmem).resolve_left fun hhead => ?_
            split at hhead
            · exact hv (List.mem_singleton.mp hhead ▸ hu)
            · cases hhead
        · have hmem := h vm (List.mem_cons_of_mem _ hvm) hon
          rw [asked_cons_of_stops hgoes] at hmem
          exact absurd hmem hnothead
    · intro h vm hvm hon
      have hfirst : vm = v → vm ∈ asked node rejected (v :: vs) := by
        rintro rfl
        by_cases hgoes : GoesOn node rejected vm
        · rw [asked_cons_of_goesOn hgoes, if_pos hon]
          exact List.mem_append_left _ List.mem_cons_self
        · rw [asked_cons_of_stops hgoes, if_pos hon]
          exact List.mem_cons_self
      rcases List.mem_cons.mp hvm with rfl | hvm
      · exact hfirst rfl
      · obtain ⟨before, after, heq⟩ := List.append_of_mem hvm
        have hgoes : GoesOn node rejected v :=
          h (v :: before) vm after (by rw [heq]; rfl) hon v List.mem_cons_self
        rw [asked_cons_of_goesOn hgoes]
        refine List.mem_append_right _ ((ih hvs).mpr (fun before vm after heq hon b hb => ?_) vm hvm hon)
        exact h (v :: before) vm after (by rw [heq]; rfl) hon b (List.mem_cons_of_mem _ hb)

end Asked

/-! ## Runs -/

section Runs

variable {w : Worker} {node : String} {rejected : Key → Bool} {s t : World}
  {log log' : List VirtualMachine} {vm : VirtualMachine} {vms : List VirtualMachine}
  {o : Outcome Error Unit}

/-- The annotation of a stored machine is a change of this machine alone. -/
theorem settle_annotated {c : Collection VirtualMachineSpec VirtualMachineStatus}
    (hs : c.find? vm.key = some vm) :
    (∀ k, k ≠ vm.key → (c.settle vm (annotateMigration vm node)).2.find? k = c.find? k) ∧
      ((vm.isDeleted = true → vm.metadata.finalizers ≠ []) →
        ∃ n, (c.settle vm (annotateMigration vm node)).2.find? vm.key =
          some ((annotateMigration vm node).stamped vm.uid n)) := by
  have hcases : c.find? (annotateMigration vm node).key = some vm := hs
  rcases Collection.settle_cases hcases with ⟨hsame, heq⟩ | ⟨-, -, hchanges⟩
  · rw [heq]
    refine ⟨fun _ _ => rfl, fun _ => ⟨vm.version, ?_⟩⟩
    rw [hsame, hs]
    rfl
  · refine ⟨fun k hk => hchanges.find?_of_ne hk, fun hkept => ⟨c.revision + 1, ?_⟩⟩
    have huid := hchanges.uid_eq
    rcases hchanges.find?_new with hnew | ⟨-, hdeleted, hfinalizers⟩
    · rw [hnew, ← huid]
      rfl
    · exact absurd hfinalizers (hkept hdeleted)

/-- A request that is accepted. -/
theorem store_annotated (hs : s.vms.find? vm.key = some vm) :
    s.store .virtualMachine (s.vms.replace (annotateMigration vm node)) =
      (.ok (s.vms.settle vm (annotateMigration vm node)).1,
        s.setKube .virtualMachine (s.vms.settle vm (annotateMigration vm node)).2) := by
  rw [Collection.replace_shrunk (n := annotateMigration vm node) hs rfl rfl rfl rfl rfl fun _ h => h]
  rfl

/-- The world after an accepted request. -/
def World.annotated (s : World) (vm : VirtualMachine) (node : String) : World :=
  s.setKube .virtualMachine (s.vms.settle vm (annotateMigration vm node)).2

/-- A rejected request is recorded and ends the run. -/
theorem ends_rejected {n : Node} {f : Unit → Prog Unit} {u : World × List VirtualMachine}
    (hrejected : rejected vm.key = true)
    (h : (requestMigrationAwayFrom vm n >>= f).Ends (ServedBut w rejected) (s, log) o u) :
    u = (s, log ++ [annotateMigration vm n.metadata.name]) := by
  obtain ⟨a, u, ⟨hlog, hx⟩, hk⟩ := h
  have hkey : rejected (annotateMigration vm n.metadata.name).key = true := hrejected
  rw [if_pos hkey] at hx
  obtain ⟨⟨e, rfl⟩, hu⟩ := hx
  obtain ⟨-, rfl⟩ := hk
  exact Prod.ext hu hlog

/-- An accepted request is recorded and has its effect. -/
theorem ends_accepted {n : Node} {f : Unit → Prog Unit} {u : World × List VirtualMachine}
    (hs : s.vms.find? vm.key = some vm) (hrejected : rejected vm.key = false)
    (h : (requestMigrationAwayFrom vm n >>= f).Ends (ServedBut w rejected) (s, log) o u) :
    (f ()).Ends (ServedBut w rejected) (s.annotated vm n.metadata.name,
      log ++ [annotateMigration vm n.metadata.name]) o u := by
  obtain ⟨a, u, ⟨hlog, hx⟩, hk⟩ := h
  have hkey : ¬rejected (annotateMigration vm n.metadata.name).key = true := ne_true_of_eq_false hrejected
  rw [if_neg hkey, store_annotated hs] at hx
  obtain ⟨rfl, hu⟩ := Prod.mk.inj hx
  have hu : u = (s.annotated vm n.metadata.name, log ++ [annotateMigration vm n.metadata.name]) :=
    Prod.ext hu hlog
  rw [← hu]
  exact hk

/-- One round of the loop. -/
def drainStep (node : Node) (vm : VirtualMachine) : Prog Unit := do
  let status ← tryStatus vm
  onlyIf (status.node = some node.metadata.name) (requestMigrationAwayFrom vm node)

/-- A machine without a status ends the loop, one of the node is asked, and others are passed. -/
theorem drainStep_cases (n : Node) (vm : VirtualMachine) :
    (vm.status = none ∧ ∃ e, drainStep n vm = .fail e) ∨
    (vm.status.isSome = true ∧ getVmNode vm = some n.metadata.name ∧
      drainStep n vm = requestMigrationAwayFrom vm n) ∨
    (vm.status.isSome = true ∧ getVmNode vm ≠ some n.metadata.name ∧ drainStep n vm = .ret ()) := by
  unfold drainStep tryStatus getVmNode
  cases vm.status with
  | none => exact .inl ⟨rfl, _, rfl⟩
  | some status =>
    by_cases hon : status.node = some n.metadata.name
    · exact .inr (.inl ⟨rfl, hon, if_pos hon⟩)
    · exact .inr (.inr ⟨rfl, hon, if_neg hon⟩)

/-- What a run of the loop does: the machines that are asked are recorded, those of them whose write is
accepted are annotated, and all others are as before. -/
theorem ends_drainLoop {n : Node} {u : World × List VirtualMachine} (hkeys : (vms.map (·.key)).Nodup)
    (hs : ∀ vm ∈ vms, s.vms.find? vm.key = some vm)
    (h : (Program.forEach vms (drainStep n)).Ends (ServedBut w rejected) (s, log) o u) :
    u.2 = log ++ (asked n.metadata.name rejected vms).map (annotateMigration · n.metadata.name) ∧
    (∀ vm ∈ asked n.metadata.name rejected vms, rejected vm.key = false →
      (vm.isDeleted = true → vm.metadata.finalizers ≠ []) → ∃ v,
        u.1.vms.find? vm.key = some ((annotateMigration vm n.metadata.name).stamped vm.uid v)) ∧
    (∀ k, (∀ vm ∈ asked n.metadata.name rejected vms, vm.key = k → rejected k = true) →
      u.1.vms.find? k = s.vms.find? k) := by
  induction vms generalizing s log with
  | nil =>
    obtain ⟨-, rfl⟩ := h
    refine ⟨(List.append_nil _).symm, fun vm hvm => ?_, fun _ _ => rfl⟩
    cases hvm
  | cons vm vms ih =>
    rw [List.map_cons, List.nodup_cons] at hkeys
    have hvm := hs vm List.mem_cons_self
    have hrest : ∀ v ∈ vms, s.vms.find? v.key = some v := fun v hv => hs v (List.mem_cons_of_mem _ hv)
    change (drainStep n vm >>= fun _ => Program.forEach vms (drainStep n)).Ends _ _ _ _ at h
    rcases drainStep_cases n vm with ⟨hnone, e, hstep⟩ | ⟨hsome, hon, hstep⟩ | ⟨hsome, hoff, hstep⟩
    · have hstops : ¬GoesOn n.metadata.name rejected vm := fun hgoes => by
        rw [GoesOn, hnone] at hgoes
        cases hgoes.1
      have hoff : getVmNode vm ≠ some n.metadata.name := by
        unfold getVmNode
        rw [hnone]
        simp
      rw [hstep] at h
      obtain ⟨-, rfl⟩ := h
      rw [asked_cons_of_stops hstops, if_neg hoff]
      refine ⟨(List.append_nil _).symm, fun vm hvm => ?_, fun _ _ => rfl⟩
      cases hvm
    · rw [hstep] at h
      -- The error of a rejected write goes through the loop.
      cases hrejected : rejected vm.key with
      | true =>
        have hstops : ¬GoesOn n.metadata.name rejected vm := fun hgoes => by
          rw [hgoes.2 hon] at hrejected
          cases hrejected
        rw [asked_cons_of_stops hstops, if_pos hon]
        rw [ends_rejected hrejected h]
        refine ⟨rfl, fun v hv haccepted => ?_, fun _ _ => rfl⟩
        rw [List.mem_singleton.mp hv, hrejected] at haccepted
        cases haccepted
      | false =>
        have hgoes : GoesOn n.metadata.name rejected vm := ⟨hsome, fun _ => hrejected⟩
        have h := ends_accepted hvm hrejected h
        obtain ⟨hother, hset⟩ : _ ∧ _ := settle_annotated hvm
        have hne : ∀ v ∈ vms, v.key ≠ vm.key := fun v hv e => hkeys.1 (List.mem_map.mpr ⟨v, hv, e⟩)
        obtain ⟨hlog, hannotated, hothers⟩ := ih hkeys.2
          (fun v hv => (hother v.key (hne v hv)).trans (hrest v hv)) h
        rw [asked_cons_of_goesOn hgoes, if_pos hon]
        refine ⟨hlog.trans (by simp), fun v hv haccepted hkept => ?_, fun k hk => ?_⟩
        · rcases List.mem_cons.mp hv with rfl | hv
          · -- The rest of the loop leaves the machine.
            rw [hothers v.key fun v' hv' e => absurd e (hne v' (mem_asked hv').1)]
            exact hset hkept
          · exact hannotated v hv haccepted hkept
        · have hkne : k ≠ vm.key := fun e => by
            rw [e] at hk
            have := hk vm List.mem_cons_self rfl
            rw [hrejected] at this
            cases this
          exact (hothers k fun v hv => hk v (List.mem_cons_of_mem _ hv)).trans (hother k hkne)
    · have hgoes : GoesOn n.metadata.name rejected vm := ⟨hsome, fun hon => absurd hon hoff⟩
      rw [hstep] at h
      rw [asked_cons_of_goesOn hgoes, if_neg hoff, List.nil_append]
      exact ih hkeys.2 hrest h

/-- A node in maintenance goes through the stored machines. -/
theorem ends_updateNode {n : Node} {u : World × List VirtualMachine} (hn : inMaintenanceMode n = true) :
    (updateNode n).Ends (ServedBut w rejected) (s, log) o u ↔
      (Program.forEach s.vms.objects (drainStep n)).Ends (ServedBut w rejected) (s, log) o u := by
  unfold updateNode onlyIf
  rw [if_pos hn]
  constructor
  · rintro ⟨a, s₁, ⟨hlog, x, hx, ha⟩, hk⟩
    have hd : x.deliver (.error .unreachable) s (.ok s.vms.objects, s) = (a, s₁.1) := Option.some.inj ha
    unfold Choice.deliver at hd
    rw [hx] at hd
    obtain ⟨rfl, hs⟩ := Prod.mk.inj hd
    have hs₁ : s₁ = (s, log) := Prod.ext hs.symm hlog
    rw [hs₁] at hk
    exact hk
  · intro h
    exact ⟨.ok s.vms.objects, (s, log), ⟨rfl, {}, rfl, rfl⟩, h⟩

theorem answer_served (w : Worker) (s : World) (q : KubeRequest) :
    World.answer w s (.kube q) {} = some ((s.serveKube {} q).1, (s.serveKube {} q).2) := rfl

/-- Every request to the API server is answered. -/
theorem exists_servedBut (w : Worker) (rejected : Key → Bool) (s : World × List VirtualMachine)
    (q : KubeRequest) : ∃ a t, ServedBut w rejected s (.kube q) a t := by
  cases q with
  | replace κ o writer =>
    cases κ with
    | virtualMachine =>
      cases hrejected : rejected o.key with
      | true => exact ⟨.error .conflict, (s.1, _), rfl, (if_pos hrejected).mpr ⟨⟨_, rfl⟩, rfl⟩⟩
      | false =>
        have hno : ¬rejected o.key = true := ne_true_of_eq_false hrejected
        exact ⟨_, (_, _), rfl, (if_neg hno).mpr rfl⟩
    | _ =>
      refine ⟨_, (_, s.2), ?_, {}, rfl, answer_served w s.1 _⟩
      rfl
  | _ =>
    refine ⟨_, (_, s.2), ?_, {}, rfl, answer_served w s.1 _⟩
    rfl

/-- A run of the loop ends. -/
theorem exists_drainLoop (w : Worker) (rejected : Key → Bool) (n : Node) (vms : List VirtualMachine)
    (s : World × List VirtualMachine) :
    ∃ o u, (Program.forEach vms (drainStep n)).Ends (ServedBut w rejected) s o u := by
  have hwithin : (Program.forEach vms (drainStep n)).Within (fun r => ∃ q, r = .kube q) fun _ => True := by
    refine Program.within_forEach fun vm _ => ?_
    rcases drainStep_cases n vm with ⟨-, e, hstep⟩ | ⟨-, -, hstep⟩ | ⟨-, -, hstep⟩
    · rw [hstep]
      trivial
    · rw [hstep]
      refine ⟨⟨_, rfl⟩, fun x => ?_⟩
      cases x <;> trivial
    · rw [hstep]
      trivial
  have hanswered : ∀ s r, (∃ q, r = Request.kube q) → True →
      ∃ a t, ServedBut w rejected s r a t ∧ True := by
    rintro s r ⟨q, rfl⟩ -
    obtain ⟨a, t, h⟩ := exists_servedBut w rejected s q
    exact ⟨a, t, h, trivial⟩
  obtain ⟨o, u, h, -⟩ := hwithin.exists_ends hanswered (s := s) trivial
  exact ⟨o, u, h⟩

end Runs

/-- One run of `update_fn` of the node controller asks all machines of the node, however the requests
go. -/
def DrainsNode (w : Worker) (rejected : Key → Bool) (s : World) (node : Node) : Prop :=
  ∀ o t written, (updateNode node).Ends (ServedBut w rejected) (s, []) o (t, written) →
    Drained node.metadata.name rejected s t written

section Result

variable {w : Worker} {rejected : Key → Bool} {s : World} {node : Node}

/-- What `DrainsNode` comes down to. -/
theorem drainsNode_iff (hn : inMaintenanceMode node = true) : DrainsNode w rejected s node ↔
    ∀ vm ∈ s.vms.objects, getVmNode vm = some node.metadata.name →
      vm ∈ asked node.metadata.name rejected s.vms.objects := by
  have hstored : ∀ vm ∈ s.vms.objects, s.vms.find? vm.key = some vm := fun _ =>
    Collection.find?_of_mem
  constructor
  · intro h vm hvm hon
    obtain ⟨o, u, hends⟩ := exists_drainLoop w rejected node s.vms.objects (s, [])
    have hdrained := h o u.1 u.2 ((ends_updateNode hn).mpr hends)
    have hwritten := hdrained.attempted vm hvm hon
    rw [(ends_drainLoop s.vms.keys_nodup hstored hends).1, List.nil_append] at hwritten
    obtain ⟨v, hv, heq⟩ := List.mem_map.mp hwritten
    have hkey : (annotateMigration v node.metadata.name).key =
        (annotateMigration vm node.metadata.name).key := by rw [heq]
    obtain rfl := List.inj_on_of_nodup_map s.vms.keys_nodup (mem_asked hv).1 hvm hkey
    exact hv
  · intro h o t written hends
    obtain ⟨hlog, hannotated, hothers⟩ :=
      ends_drainLoop s.vms.keys_nodup hstored ((ends_updateNode hn).mp hends)
    rw [List.nil_append] at hlog
    change written = _ at hlog
    constructor
    · intro vm hvm hon
      rw [hlog]
      exact List.mem_map.mpr ⟨vm, h vm hvm hon, rfl⟩
    · intro o ho
      rw [hlog] at ho
      obtain ⟨vm, hvm, rfl⟩ := List.mem_map.mp ho
      exact ⟨vm, (mem_asked hvm).1, (mem_asked hvm).2, rfl⟩
    · exact fun vm hvm hon => hannotated vm (h vm hvm hon)
    · exact fun k hk => hothers k fun vm hvm hvk => hk vm (mem_asked hvm).1 hvk (mem_asked hvm).2

/-- A node in maintenance is drained exactly where no virtual machine without a status, and no machine
of the node whose write is rejected, stands in the list before a machine of the node. -/
theorem drains_iff (w : Worker) (rejected : Key → Bool) (s : World) (node : Node)
    (hn : inMaintenanceMode node = true) : DrainsNode w rejected s node ↔
    ∀ before vm after, s.vms.objects = before ++ vm :: after →
      getVmNode vm = some node.metadata.name →
      ∀ b ∈ before, GoesOn node.metadata.name rejected b :=
  (drainsNode_iff hn).trans (all_asked_iff (List.Nodup.of_map _ s.vms.keys_nodup))

end Result

section Examples

/-- A node in maintenance. -/
def drainedNode : Node :=
  ⟨⟨"", "node-a", 1, 1, [], [( maintenanceAnnotation, "true")], [], none⟩, (), none⟩

/-- A machine of the name, on the node if there is one. -/
def machineOn (name : String) (node : Option String) : VirtualMachine :=
  ⟨⟨"default", name, 0, 0, [], [], [], none⟩,
    plainSpec, node.map fun node => ⟨true, true, false, some node, "default-" ++ name, none, none, []⟩⟩

/-- The stored machines are `web`, on the node, and then `fresh`, which has no status yet; or the other
way round. -/
def twoMachines (freshFirst : Bool) : World :=
  World.initial.setKube .virtualMachine
    (if freshFirst then
      (Collection.empty.record (machineOn "web" (some "node-a"))).record (machineOn "fresh" none)
    else (Collection.empty.record (machineOn "fresh" none)).record (machineOn "web" (some "node-a")))

/-- A machine of the node first, and then one without a status. -/
theorem drains_before_fresh : DrainsNode (.node "node-a") (fun _ => false) (twoMachines false) drainedNode :=
  (drains_iff (.node "node-a") (fun _ => false) (twoMachines false) drainedNode
    (by decide +kernel)).mpr
    ((all_asked_iff (List.Nodup.of_map _ (twoMachines false).vms.keys_nodup)).mp (by decide +kernel))

/-- A machine without a status keeps the node from asking the next one. -/
theorem not_drained_after_fresh :
    ¬DrainsNode (.node "node-a") (fun _ => false) (twoMachines true) drainedNode := by
  intro h
  have hmaintenance : inMaintenanceMode drainedNode = true := by decide +kernel
  have hon : ∃ vm ∈ (twoMachines true).vms.objects, getVmNode vm = some drainedNode.metadata.name := by
    decide +kernel
  have hnone : asked drainedNode.metadata.name (fun _ => false) (twoMachines true).vms.objects = [] := by
    decide +kernel
  obtain ⟨vm, hvm, hnode⟩ := hon
  have hasked := (drainsNode_iff hmaintenance).mp h vm hvm hnode
  rw [hnone] at hasked
  cases hasked

end Examples

end ClusterController
