import ClusterController.Reconciles

/-!
# No lost update

Every writer sends the whole status or the whole object from its own copy. An accepted
write still changes nothing but the fields that its writer is there to set: what an
accepted resource version says about the copy is `Tracks`, and `Effect` says what the
writer has changed in it.
-/

namespace ClusterController

open ApiServer (StringMap Key Resource Collection)
open Interaction (Program)

/-- Change the status, if there is one. -/
def mapStatus (f : VirtualMachineStatus → VirtualMachineStatus) (vm : VirtualMachine) :
    VirtualMachine := { vm with status := vm.status.map f }

/-- The fields that a writer sets, blanked. Two objects that agree on what is left differ
in these fields only. -/
def Writer.blank : Writer → VirtualMachine → VirtualMachine
  | initializeStatus, vm => { vm with status := none }
  | fillNics, vm => mapStatus (fun st => { st with networks := [] }) vm
  | fillUuid, vm => { vm with spec := { vm.spec with uuid := none } }
  | schedulingAndMigrations, vm => mapStatus (fun st =>
      { st with node := none, scheduled := false, migrationPending := false }) vm
  | clearMigrationRequest, vm => dropMigrationRequest vm
  | requestMigrationAwayFrom, vm => dropMigrationRequest vm
  | ensureFinalizer f, vm => dropFinalizer vm (finalizerName f)
  | removeFinalizer f, vm => dropFinalizer vm (finalizerName f)
  | updateVm, vm => mapStatus (fun st =>
      { st with ipAddresses := none, ipAddressesString := none }) vm
  | handleAdd, vm => mapStatus (fun st => { st with running := false }) vm
  | handleInboundMigration, vm => mapStatus (fun st => { st with migrationPending := false }) vm
  | updateNetwork, vm => vm
  | updateRouter, vm => vm

/-- The object without its resource version. -/
def unversioned (vm : VirtualMachine) : VirtualMachine :=
  { vm with metadata := { vm.metadata with resourceVersion := 0 } }

theorem unversioned_stamp {c : Collection VirtualMachineSpec VirtualMachineStatus}
    {n : VirtualMachine} (h : (c.stamp n).uid = n.uid) : unversioned (c.stamp n) = unversioned n := by
  have h' : (c.stamp n).metadata.uid = n.metadata.uid := h
  show ({ metadata := { (c.stamp n).metadata with resourceVersion := 0 }
          spec := n.spec, status := n.status } : VirtualMachine) = unversioned n
  unfold unversioned
  congr 1
  show ({ n.metadata with uid := (c.stamp n).metadata.uid, resourceVersion := 0 } :
    ApiServer.ObjectMeta) = _
  rw [h']

theorem dropFinalizer_addFinalizer (vm : VirtualMachine) (f : String) :
    dropFinalizer (addFinalizer vm f) f = dropFinalizer vm f := by
  unfold dropFinalizer addFinalizer
  simp

theorem dropFinalizer_dropFinalizer (vm : VirtualMachine) (f : String) :
    dropFinalizer (dropFinalizer vm f) f = dropFinalizer vm f := by
  unfold dropFinalizer
  simp

theorem dropMigrationRequest_annotate (vm : VirtualMachine) (node : String) :
    dropMigrationRequest (annotateMigration vm node) = dropMigrationRequest vm := by
  unfold dropMigrationRequest annotateMigration
  simp

theorem dropMigrationRequest_drop (vm : VirtualMachine) :
    dropMigrationRequest (dropMigrationRequest vm) = dropMigrationRequest vm := by
  unfold dropMigrationRequest
  simp

/-- The effect of a writer is confined to the fields that it sets. -/
theorem Effect.confined {w : Worker} {s : World} {old n : VirtualMachine} {writer : Writer}
    (h : Effect w s old n writer) : writer.blank n = writer.blank old := by
  cases writer with
  | initializeStatus =>
    obtain ⟨-, -, rfl⟩ := h
    rfl
  | fillNics =>
    obtain ⟨-, st, networks, hst, rfl⟩ := h
    simp [Writer.blank, mapStatus, hst]
  | fillUuid =>
    obtain ⟨-, -, id, rfl⟩ := h
    rfl
  | schedulingAndMigrations =>
    obtain ⟨-, -, -, st, node, hst, rfl, -⟩ := h
    simp [Writer.blank, mapStatus, scheduledStatus, hst]
  | clearMigrationRequest =>
    obtain ⟨-, rfl⟩ := h
    exact dropMigrationRequest_drop old
  | requestMigrationAwayFrom =>
    obtain ⟨node, -, -, rfl⟩ := h
    exact dropMigrationRequest_annotate old node
  | ensureFinalizer f =>
    obtain ⟨rfl, -⟩ := h
    exact dropFinalizer_addFinalizer old _
  | removeFinalizer f =>
    obtain ⟨rfl, -⟩ := h
    exact dropFinalizer_dropFinalizer old _
  | updateVm =>
    obtain ⟨-, st, ips, hst, rfl⟩ := h
    simp [Writer.blank, mapStatus, hst]
  | handleAdd =>
    obtain ⟨host, st, -, hst, rfl⟩ := h
    simp [Writer.blank, mapStatus, hst]
  | handleInboundMigration =>
    obtain ⟨host, st, -, -, -, hst, rfl⟩ := h
    simp [Writer.blank, mapStatus, hst]
  | updateNetwork => exact h.elim
  | updateRouter => exact h.elim

/-- Blanking the fields of a writer and dropping the version can be done in any order. -/
theorem unversioned_blank (writer : Writer) (vm : VirtualMachine) :
    unversioned (writer.blank vm) = writer.blank (unversioned vm) := by
  cases writer <;> rfl

/-- The write changes the stored object `old` into `new` in nothing but the fields that the
writer sets, and a status is only initialized where there is none. -/
structure Confined (writer : Writer) (old new : VirtualMachine) : Prop where
  rest : writer.blank (unversioned new) = writer.blank (unversioned old)
  fresh : writer = .initializeStatus → old.status = none

theorem Wrote.confined {w : Worker} {writer : Writer} {s t : World} (h : Wrote w writer s t) :
    t.vms = s.vms ∨ ∃ old new, s.vms.Changes t.vms old new ∧ Confined writer old new := by
  rcases h with h | ⟨old, n, hk, hch, he⟩
  · exact .inl h
  · refine .inr ⟨old, s.vms.stamp n, hch, ?_, ?_⟩
    · have hu : (s.vms.stamp n).uid = n.uid := by
        rw [he.leaves.uid]
        exact hch.uid_eq
      rw [unversioned_stamp hu, ← unversioned_blank, ← unversioned_blank, he.confined]
    · rintro rfl
      exact he.2.1

section

variable [Crates]

/-- In every run from any state in which no reconcile is running, every accepted write of a
virtual machine changes the stored object in the fields of its writer only. A write that
is refused, or that submits what is stored, leaves the store as it is. -/
theorem accepted_write_confined {s : World} {c d : ClusterConfig} {w : Worker} {r : Request}
    {x : Choice} {writer : Writer} (hr : cluster.Run anything ⟨s, fun _ => none⟩ c)
    (hs : cluster.Step c (.call w r x) d) (hw : r.writerOfVm = some writer) :
    d.state.vms = c.state.vms ∨
      ∃ old new, c.state.vms.Changes d.state.vms old new ∧ Confined writer old new := by
  have hg : Guarantee w c.state r d.state := guarantee_of_run hr hs
  exact (hg.wrote hw).confined

end

attribute [local instance] plainCrates

/-- A run up to a write of a VM, which takes its revision from one number to another. -/
theorem exists_write (script : List ClusterCommand) (w : Worker) (writer : Writer) {m n : Nat}
    (h : (cluster.play anything ⟨World.initial, fun _ => none⟩ script).any (fun c =>
      c.state.vms.revision = m &&
      ((c.threads w).bind Program.next?).any (fun r => r.writerOfVm = some writer) &&
      (cluster.obey anything c (.call w {})).any fun d => d.state.vms.revision = n) = true) :
    ∃ (c d : ClusterConfig) (r : Request) (x : Choice),
      cluster.Run anything ⟨World.initial, fun _ => none⟩ c ∧ cluster.Step c (.call w r x) d ∧
        r.writerOfVm = some writer ∧ c.state.vms.revision = m ∧ d.state.vms.revision = n := by
  obtain ⟨c, hr, hc⟩ := Interaction.Machine.play_reaches (M := cluster) anything _ _ _ h
  simp only [Bool.and_eq_true, Option.any_eq_true, decide_eq_true_eq] at hc
  obtain ⟨⟨hm, r, hn, hw⟩, d, hd, hv⟩ := hc
  obtain ⟨r', hn', -, hs⟩ := Interaction.Machine.obey_call hd
  obtain rfl : r' = r := Option.some.inj (hn'.symm.trans hn)
  exact ⟨c, d, r', _, hr, hs, hw, hm, hv⟩

/-- A user has created a VM, and its controller is about to place it at the end of a reconcile. -/
def placingScript : List ClusterCommand :=
  [.world (.create .cluster ⟨"", "default"⟩ [] [] ⟨"pc", "<cpu/>"⟩),
   .world (.create .node ⟨"", "a"⟩ [] [] ()),
   .world (.create .virtualMachine ⟨"n", "x"⟩ [(antiAffinityLabel, "g")] [] plainSpec)] ++
  serveAll (.vm ⟨"n", "x"⟩) 1 1 ++ serve (.vm ⟨"n", "x"⟩) 2 6

/-- The VM is placed. Its host then writes with the version from before its own finalizer, and nothing
changes. -/
theorem accepted_write_confined_placed :
    (∃ (c d : ClusterConfig) (old new : VirtualMachine), c.state.vms.revision = 2 ∧
      c.state.vms.Changes d.state.vms old new ∧ Confined .schedulingAndMigrations old new) ∧
    ∃ (c d : ClusterConfig) (r : Request) (x : Choice), cluster.Step c (.call (.host "a" ⟨"n", "x"⟩) r x) d ∧
      r.writerOfVm = some .handleAdd ∧ c.state.vms.revision = 4 ∧ d.state.vms = c.state.vms := by
  constructor
  · obtain ⟨c, d, r, x, hr, hs, hw, hm, hn⟩ := exists_write placingScript (.vm ⟨"n", "x"⟩)
      .schedulingAndMigrations (m := 2) (n := 3) (by decide +kernel)
    rcases accepted_write_confined hr hs hw with hsame | ⟨old, new, hch, hconfined⟩
    · rw [hsame, hm] at hn
      cases hn
    · exact ⟨c, d, old, new, hm, hch, hconfined⟩
  · obtain ⟨c, d, r, x, hr, hs, hw, hm, hn⟩ := exists_write
      (placedScript ++ serve (.host "a" ⟨"n", "x"⟩) 3 4) (.host "a" ⟨"n", "x"⟩) .handleAdd
      (m := 4) (n := 4) (by decide +kernel)
    refine ⟨c, d, r, x, hs, hw, hm, ?_⟩
    rcases accepted_write_confined hr hs hw with hsame | ⟨old, new, hch, -⟩
    · exact hsame
    · rw [hch.revision_eq, hm] at hn
      cases hn

end ClusterController
