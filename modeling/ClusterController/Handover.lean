import ClusterController.Hypervisors
import ClusterController.Contracts

/-!
# Which host may have the domain

A host acts on the version of a virtual machine that it has seen last. Between two
versions the scheduler may have moved the machine several times, so the argument is about
all versions that hosts may still act on: those that are not older than what the host has
seen. Of these, all that are settled are settled on one host (`Placements.unique`), and
the domain is on no other host (`Residence.only`).

* `Placements`: what holds of the logged versions and of what hosts have seen of them.
* `Residence`: what holds of the domains.
* `Advance`: what a write of a virtual machine may do to keep all this.
-/

namespace ClusterController

open ApiServer (Key Resource Collection)

/-! ## Versions -/

/-- The VM has been placed on some node. -/
def Scheduled (vm : VirtualMachine) : Prop := ∃ st, vm.status = some st ∧ st.scheduled = true

/-- Two versions of one object. -/
structure Same (v v' : VirtualMachine) : Prop where
  key : v.key = v'.key
  uid : v.uid = v'.uid

theorem Same.refl (v : VirtualMachine) : Same v v := ⟨rfl, rfl⟩

theorem Same.symm {v v' : VirtualMachine} (h : Same v v') : Same v' v := ⟨h.key.symm, h.uid.symm⟩

theorem Same.trans {v v' v'' : VirtualMachine} (h : Same v v') (h' : Same v' v'') : Same v v'' :=
  ⟨h.key.trans h'.key, h.uid.trans h'.uid⟩

theorem ScheduledTo.scheduled {vm : VirtualMachine} {host : String} (h : ScheduledTo vm host) :
    Scheduled vm := by
  obtain ⟨st, hst, hs, -⟩ := h
  exact ⟨st, hst, hs⟩

theorem ScheduledTo.unique {vm : VirtualMachine} {host host' : String} (h : ScheduledTo vm host)
    (h' : ScheduledTo vm host') : host = host' := by
  obtain ⟨st, hst, -, hn⟩ := h
  obtain ⟨st', hst', -, hn'⟩ := h'
  rw [hst] at hst'
  cases hst'
  exact Option.some.inj (hn.symm.trans hn')

theorem Settled.unique {vm : VirtualMachine} {host host' : String} (h : Settled vm host)
    (h' : Settled vm host') : host = host' := h.scheduledTo.unique h'.scheduledTo

theorem Settled.not_awaited {vm : VirtualMachine} {host host' : String} (h : Settled vm host) :
    ¬ Awaited vm host' := by
  rintro ⟨st', hst', -, -, hp'⟩
  obtain ⟨st, hst, -, -, hp⟩ := h
  rw [hst] at hst'
  cases hst'
  rw [hp] at hp'
  cases hp'

/-- Where a VM is, as its status says it. -/
def placement (vm : VirtualMachine) : Option (String × Bool × Option String × Bool) :=
  vm.status.map fun st => (st.domainName, st.scheduled, st.node, st.migrationPending)

theorem settled_iff {v : VirtualMachine} {host : String} : Settled v host ↔ ∃ d, placement v = some (d, true, some host, false) := by
  unfold placement
  constructor
  · rintro ⟨st, hst, hs, hn, hp⟩
    exact ⟨st.domainName, by simp [hst, hs, hn, hp]⟩
  · rintro ⟨d, hd⟩
    obtain ⟨st, hst, he⟩ := Option.map_eq_some_iff.mp hd
    simp only [Prod.mk.injEq] at he
    exact ⟨st, hst, he.2.1, he.2.2.1, he.2.2.2⟩

theorem scheduled_iff {v : VirtualMachine} : Scheduled v ↔ ∃ d node p, placement v = some (d, true, node, p) := by
  unfold placement
  constructor
  · rintro ⟨st, hst, hs⟩
    exact ⟨st.domainName, st.node, st.migrationPending, by simp [hst, hs]⟩
  · rintro ⟨d, node, p, hd⟩
    obtain ⟨st, hst, he⟩ := Option.map_eq_some_iff.mp hd
    simp only [Prod.mk.injEq] at he
    exact ⟨st, hst, he.2.1⟩

/-- A VM that the scheduler may place: it has no node yet, a migration is requested, or its
spec pins it to the node that it has. -/
def bidden (vm : VirtualMachine) : Bool :=
  match vm.status with
  | some st => !st.scheduled || migrationRequested vm || (st.node.isSome && vm.spec.node = st.node)
  | none => true

namespace World

/-- What the host has seen last of the VM. -/
def cache (s : World) (host : String) (k : Key) : Nat := s.seen (.host host k)

/-- No later version of the VM is logged. -/
def Newest (s : World) (vm : VirtualMachine) : Prop :=
  ∀ v ∈ s.vms.history, v.key = vm.key → v.version ≤ vm.version

/-- The host may still act on the version, and it is settled there. -/
structure Acts (s : World) (host : String) (v : VirtualMachine) : Prop where
  logged : v ∈ s.vms.history
  settled : Settled v host
  seen : s.cache host v.key ≤ v.version

/-- What the logged versions say about domain names and deletions. -/
structure History (s : World) : Prop where
  named : ∀ v ∈ s.vms.history, ∀ st, v.status = some st →
    st.domainName = namePrefixedWithNamespace v.key
  distinct : ∀ v ∈ s.vms.history, ∀ v' ∈ s.vms.history,
    namePrefixedWithNamespace v.key = namePrefixedWithNamespace v'.key → v.key = v'.key
  deleted_mono : ∀ v ∈ s.vms.history, ∀ v' ∈ s.vms.history, Same v v' →
    v.version ≤ v'.version → v.isDeleted = true → v'.isDeleted = true

/-- What holds of the logged versions, and of what hosts have seen. -/
structure Placements (s : World) : Prop extends History s where
  cached : ∀ host k, s.cache host k = 0 ∨
    ∃ v ∈ s.vms.history, v.key = k ∧ v.version = s.cache host k
  scheduled_mono : ∀ v ∈ s.vms.history, ∀ v' ∈ s.vms.history, Same v v' →
    v.version ≤ v'.version → Scheduled v → Scheduled v'
  guarded_mono : ∀ v ∈ s.vms.history, ∀ v' ∈ s.vms.history, Same v v' →
    v.version ≤ v'.version → v'.isDeleted = false → Guarded v → Guarded v'
  steady : ∀ host v, s.Acts host v → ∀ v' ∈ s.vms.history, Same v' v →
    s.cache host v.key ≤ v'.version → v'.version ≤ v.version → Scheduled v' →
    ScheduledTo v' host
  unique : ∀ host v host' v', s.Acts host v → s.Acts host' v' → Same v v' → host = host'
  kept : ∀ host v, s.Acts host v → v.isDeleted = false →
    (∃ x ∈ s.vms.history, Same x v ∧ Guarded x) →
    ∃ o ∈ s.vms.objects, Same o v ∧ Guarded o

/-- What holds of the domains. -/
structure Residence (s : World) : Prop where
  single : ∀ d, s.hypervisors.Single d
  owned : ∀ d, s.hypervisors.Occupied d → ∃ o ∈ s.vms.objects,
    namePrefixedWithNamespace o.key = d ∧ Guarded o ∧ Scheduled o
  only : ∀ o ∈ s.vms.objects, ∀ host v, s.Acts host v → Same v o →
    s.hypervisors.OnlyAt (namePrefixedWithNamespace o.key) host
  vacant : ∀ o ∈ s.vms.objects, ∀ host v, s.Acts host v → Same v o →
    s.cache host o.key < o.uid → ¬ s.hypervisors.Occupied (namePrefixedWithNamespace o.key)

structure Orderly (s : World) : Prop where
  placements : s.Placements
  residence : s.Residence

/-- The host has let the domain go: while the version is the newest, nobody has it. -/
def Gone (s : World) (v : VirtualMachine) : Prop :=
  s.Newest v → ¬ s.hypervisors.Occupied (namePrefixedWithNamespace v.key)

/-- The domain has arrived at the host: while the version is the newest, the domain is on
no other host, and no host may still act on a settled version. -/
def Arrived (s : World) (host : String) (v : VirtualMachine) : Prop :=
  s.Newest v → s.hypervisors.OnlyAt (namePrefixedWithNamespace v.key) host ∧
    ∀ host' v', s.Acts host' v' → ¬ Same v' v

variable {s t : World} {host : String} {k : Key} {o v old n : VirtualMachine}

theorem newest_of_stored (ho : o ∈ s.vms.objects) : s.Newest o := s.vms.stored_newest o ho

theorem stored_logged (ho : o ∈ s.vms.objects) : o ∈ s.vms.history := s.vms.stored_logged o ho

/-- The newest version of a stored object is what is stored. -/
theorem Newest.eq_stored (hn : s.Newest v) (hv : v ∈ s.vms.history) (ho : o ∈ s.vms.objects)
    (hk : o.key = v.key) : o = v := by
  refine s.vms.logged_unique o (stored_logged ho) v hv (Nat.le_antisymm ?_ ?_)
  · exact hn o (stored_logged ho) hk
  · exact newest_of_stored ho v hv hk.symm

theorem stored_unique (ho : o ∈ s.vms.objects) (hv : v ∈ s.vms.objects) (hk : o.key = v.key) :
    o = v := (newest_of_stored hv).eq_stored (stored_logged hv) ho hk

theorem Placements.cache_le (h : s.Placements) (ho : o ∈ s.vms.objects) (host : String) :
    s.cache host o.key ≤ o.version := by
  rcases h.cached host o.key with hc | ⟨v, hv, hk, hc⟩
  · rw [hc]
    exact Nat.zero_le _
  · rw [← hc]
    exact newest_of_stored ho v hv hk

/-! ## Writes -/

/-- What every write does: it keeps the domain name and takes no deletion back. -/
structure Follows (old n : VirtualMachine) : Prop where
  key : n.key = old.key
  named : (∀ st, old.status = some st → st.domainName = namePrefixedWithNamespace old.key) →
    ∀ st, n.status = some st → st.domainName = namePrefixedWithNamespace old.key
  deleted : old.isDeleted = true → n.isDeleted = true

/-- What a write may do to the stored version `old`, for everything to stay in order. -/
structure Advance (s : World) (old n : VirtualMachine) : Prop extends Follows old n where
  scheduled : Scheduled old → Scheduled n
  settled : ∀ host, Settled n host → Settled old host ∨ ¬ Scheduled old ∨
    (s.cache host old.key = old.version ∧ Awaited old host ∧ s.Arrived host old)
  guarded : Guarded old → Guarded n ∨ (old.isDeleted = true ∧ s.Gone old ∧
    ∃ host, Settled old host ∧ s.cache host old.key = old.version)

/-! ### What the writers may do -/

/-- A write that leaves the domain name alone. -/
theorem Follows.of_status (hk : n.key = old.key)
    (hst : ∀ st, n.status = some st → st.domainName = namePrefixedWithNamespace old.key ∨
      ∃ st', old.status = some st' ∧ st.domainName = st'.domainName)
    (hd : old.isDeleted = true → n.isDeleted = true) : Follows old n := by
  refine ⟨hk, fun hold st hs => ?_, hd⟩
  rcases hst st hs with h | ⟨st', hst', h⟩
  · exact h
  · exact h.trans (hold st' hst')

theorem follows_of_effect {w : Worker} {writer : Writer} (hk : n.key = old.key)
    (he : Effect w s old n writer) : Follows old n := by
  refine .of_status hk (fun st hst => ?_) fun hd => ?_
  · cases writer with
    | initializeStatus =>
      obtain ⟨-, -, rfl⟩ := he
      cases hst
      exact .inl rfl
    | fillNics =>
      obtain ⟨-, st', networks, hst', rfl⟩ := he
      cases hst
      exact .inr ⟨st', hst', rfl⟩
    | fillUuid =>
      obtain ⟨-, -, id, rfl⟩ := he
      exact .inr ⟨st, hst, rfl⟩
    | schedulingAndMigrations =>
      obtain ⟨-, -, -, st', node, hst', rfl, -⟩ := he
      cases hst
      exact .inr ⟨st', hst', rfl⟩
    | clearMigrationRequest =>
      obtain ⟨-, rfl⟩ := he
      exact .inr ⟨st, hst, rfl⟩
    | requestMigrationAwayFrom =>
      obtain ⟨node, -, -, rfl⟩ := he
      exact .inr ⟨st, hst, rfl⟩
    | ensureFinalizer f =>
      obtain ⟨rfl, -⟩ := he
      exact .inr ⟨st, hst, rfl⟩
    | removeFinalizer f =>
      obtain ⟨rfl, -⟩ := he
      exact .inr ⟨st, hst, rfl⟩
    | updateVm =>
      obtain ⟨-, st', ips, hst', rfl⟩ := he
      cases hst
      exact .inr ⟨st', hst', rfl⟩
    | handleAdd =>
      obtain ⟨host, st', -, hst', rfl⟩ := he
      cases hst
      exact .inr ⟨st', hst', rfl⟩
    | handleInboundMigration =>
      obtain ⟨host, st', -, -, -, hst', rfl⟩ := he
      cases hst
      exact .inr ⟨st', hst', rfl⟩
    | updateNetwork => exact he.elim
    | updateRouter => exact he.elim
  · unfold Resource.isDeleted at hd ⊢
    rw [he.leaves.deletion]
    exact hd

theorem Touches.follows {e : WorldEvent} (h : Touches e old n) : Follows old n := by
  refine .of_status h.key (fun st hst => .inr ⟨st, ?_, rfl⟩) h.deleted
  rw [← h.status]
  exact hst

/-- A write that leaves the placement as it is, and keeps the finalizer of the hosts. -/
theorem Advance.of_placement (hf : Follows old n) (hp : placement n = placement old)
    (hg : Guarded old → Guarded n ∨ (old.isDeleted = true ∧ s.Gone old ∧
      ∃ host, Settled old host ∧ s.cache host old.key = old.version)) : Advance s old n where
  toFollows := hf
  scheduled := by
    rw [scheduled_iff, scheduled_iff, hp]
    exact id
  settled := by
    intro host
    rw [settled_iff, settled_iff, hp]
    exact .inl
  guarded := hg

/-- An edit or a deletion by a user. -/
theorem Touches.advance {e : WorldEvent} (h : Touches e old n) : Advance s old n := by
  refine .of_placement h.follows (congrArg (Option.map _) h.status) fun hg => .inl ?_
  unfold Guarded
  rw [h.finalizers]
  exact hg

theorem advance_of_scheduling {st : VirtualMachineStatus} {node : Node}
    (hf : Follows old
      { old with status := some (scheduledStatus st node (migrationRequested old)) })
    (hst : old.status = some st) (hb : bidden old = true) (hp : Pinned old node) :
    Advance s old
      { old with status := some (scheduledStatus st node (migrationRequested old)) } where
  toFollows := hf
  scheduled := fun _ => ⟨_, rfl, rfl⟩
  settled := by
    rintro host ⟨st', hst', -, hn, hpend⟩
    cases hst'
    by_cases hs : st.scheduled = true
    · have hcases : migrationRequested old = true ∨
          (st.node.isSome = true ∧ old.spec.node = st.node) := by
        unfold bidden at hb
        rw [hst] at hb
        simpa [hs] using hb
      rcases hcases with hm | ⟨hsome, hpin⟩
      · -- A migration that is requested is pending.
        simp [scheduledStatus, hm] at hpend
      · left
        obtain ⟨p, hnode⟩ := Option.isSome_iff_exists.mp hsome
        have hname : node.metadata.name = p := hp p (hpin.trans hnode)
        refine ⟨st, hst, hs, ?_, ?_⟩
        · rw [hnode, ← hname]
          exact hn
        · by_contra hne
          simp [scheduledStatus, hne] at hpend
    · right
      left
      rintro ⟨st', hst', hs'⟩
      rw [hst] at hst'
      cases hst'
      exact hs hs'
  guarded := .inl

theorem finalizer_ne_ovn : finalizerName Host.finalizer ≠ finalizerName "ovn" := by decide

/-- A write of a worker, if the scheduler moves no running VM unbidden, and if hosts have
made sure of what they take for granted. -/
theorem advance_of_effect {w : Worker} {writer : Writer} (hk : n.key = old.key)
    (he : Effect w s old n writer)
    (hb : writer = .schedulingAndMigrations → bidden old = true)
    (harr : writer = .handleInboundMigration → ∀ host, w = .host host old.key → s.Arrived host old)
    (hgone : writer = .removeFinalizer Host.finalizer → ∀ host, w = .host host old.key →
      s.Gone old) : Advance s old n := by
  have hf : Follows old n := follows_of_effect hk he
  cases writer with
  | initializeStatus =>
    obtain ⟨-, hnone, rfl⟩ := he
    refine ⟨hf, ?_, ?_, .inl⟩
    · rintro ⟨st, hst, -⟩
      rw [hnone] at hst
      cases hst
    · rintro host ⟨st, hst, hs, -⟩
      cases hst
      cases hs
  | fillNics =>
    obtain ⟨-, st, networks, hst, rfl⟩ := he
    exact .of_placement hf (by simp [placement, hst]) .inl
  | fillUuid =>
    obtain ⟨-, -, id, rfl⟩ := he
    exact .of_placement hf rfl .inl
  | schedulingAndMigrations =>
    obtain ⟨-, -, -, st, node, hst, rfl, hp⟩ := he
    exact advance_of_scheduling hf hst (hb rfl) hp
  | clearMigrationRequest =>
    obtain ⟨-, rfl⟩ := he
    exact .of_placement hf rfl .inl
  | requestMigrationAwayFrom =>
    obtain ⟨node, -, -, rfl⟩ := he
    exact .of_placement hf rfl .inl
  | ensureFinalizer f =>
    obtain ⟨rfl, -⟩ := he
    exact .of_placement hf rfl fun hg => .inl (List.mem_append_left _ hg)
  | removeFinalizer f =>
    obtain ⟨rfl, ⟨-, rfl⟩ | ⟨host, hw, rfl, hset, hd, hseen⟩⟩ := he
    · refine .of_placement hf rfl fun hg => .inl (List.mem_filter.mpr ⟨hg, ?_⟩)
      exact decide_eq_true finalizer_ne_ovn
    · refine .of_placement hf rfl fun _ => .inr ⟨hd, hgone rfl host hw, host, hset, ?_⟩
      rw [hw] at hseen
      exact hseen
  | updateVm =>
    obtain ⟨-, st, ips, hst, rfl⟩ := he
    exact .of_placement hf (by simp [placement, hst]) .inl
  | handleAdd =>
    obtain ⟨host, st, -, hst, rfl⟩ := he
    exact .of_placement hf (by simp [placement, hst]) .inl
  | handleInboundMigration =>
    obtain ⟨host, st, hw, haw, hseen, hst, rfl⟩ := he
    refine ⟨hf, fun _ => ?_, ?_, .inl⟩
    · obtain ⟨st', hst', hs', -⟩ := haw
      rw [hst] at hst'
      cases hst'
      exact ⟨_, rfl, hs'⟩
    · rintro host' ⟨st', hst', hs', hn', -⟩
      cases hst'
      obtain ⟨st₂, hst₂, hs₂, hn₂, hp₂⟩ := haw
      rw [hst] at hst₂
      cases hst₂
      obtain rfl : host = host' := Option.some.inj (hn₂.symm.trans hn')
      refine .inr (.inr ⟨?_, ⟨st, hst, hs₂, hn₂, hp₂⟩, harr rfl host hw⟩)
      rw [hw] at hseen
      exact hseen
  | updateNetwork => exact he.elim
  | updateRouter => exact he.elim

/-! ### After a write -/

section Log

variable (hc : s.vms.Changes t.vms old (s.vms.stamp n))
include hc

theorem stored_of_changes : old ∈ s.vms.objects := Collection.mem_of_find? hc.find?_old

theorem same_of_changes : Same (s.vms.stamp n) old := ⟨hc.key_eq, hc.uid_eq⟩

theorem mem_history_of_changes : v ∈ t.vms.history ↔ v = s.vms.stamp n ∨ v ∈ s.vms.history := by
  rw [hc.history_eq]
  exact List.mem_cons

/-- Everything that is logged of the object is at most as new as what is stored. -/
theorem le_of_changes (hv : v ∈ s.vms.history) (hs : Same v (s.vms.stamp n)) :
    Same v old ∧ v.version ≤ old.version := by
  have hso : Same v old := hs.trans (same_of_changes hc)
  exact ⟨hso, newest_of_stored (stored_of_changes hc) v hv hso.key⟩

/-- A property of versions that writes pass on, and that was passed on so far. -/
theorem mono_of_changes {P : VirtualMachine → Prop}
    (hp : ∀ v ∈ s.vms.history, ∀ v' ∈ s.vms.history, Same v v' → v.version ≤ v'.version →
      P v → P v')
    (hn : P old → P (s.vms.stamp n)) :
    ∀ v ∈ t.vms.history, ∀ v' ∈ t.vms.history, Same v v' → v.version ≤ v'.version →
      P v → P v' := by
  intro v hv v' hv' hs hle h
  rcases (mem_history_of_changes hc).mp hv with rfl | hv <;>
    rcases (mem_history_of_changes hc).mp hv' with rfl | hv'
  · exact h
  · exact absurd (hc.version_lt hv') (Nat.not_lt.mpr hle)
  · obtain ⟨hso, hlo⟩ := le_of_changes hc hv hs
    exact hn (hp v hv old (stored_logged (stored_of_changes hc)) hso hlo h)
  · exact hp v hv v' hv' hs hle h

theorem History.follow (h : s.History) (hf : Follows old n) : t.History := by
  have hlog : old ∈ s.vms.history := stored_logged (stored_of_changes hc)
  refine ⟨?named, ?distinct, mono_of_changes hc h.deleted_mono hf.deleted⟩
  case named =>
    intro v hv st hst
    rcases (mem_history_of_changes hc).mp hv with rfl | hv
    · rw [hc.key_eq]
      exact hf.named (h.named old hlog) st hst
    · exact h.named v hv st hst
  case distinct =>
    intro v hv v' hv' he
    rcases (mem_history_of_changes hc).mp hv with rfl | hv <;>
      rcases (mem_history_of_changes hc).mp hv' with rfl | hv'
    · rfl
    · rw [hc.key_eq] at he ⊢
      exact h.distinct old hlog v' hv' he
    · rw [hc.key_eq] at he ⊢
      exact h.distinct v hv old hlog he
    · exact h.distinct v hv v' hv' he

/-- A guarded version is not removed with its last finalizer. -/
theorem stored_of_guarded (hg : Guarded n) : s.vms.stamp n ∈ t.vms.objects := by
  rcases hc.find?_new with hf | ⟨-, -, hf⟩
  · exact Collection.mem_of_find? hf
  · have hmem : finalizerName Host.finalizer ∈ (s.vms.stamp n).metadata.finalizers := hg
    rw [hf] at hmem
    cases hmem

theorem stored_of_ne (ho : o ∈ s.vms.objects) (hk : o.key ≠ old.key) : o ∈ t.vms.objects := by
  rw [Collection.mem_iff_find?, hc.find?_of_ne hk]
  exact Collection.find?_of_mem ho

theorem acts_of_changes (hseen : t.seen = s.seen) (hv : t.Acts host v) :
    (v = s.vms.stamp n ∧ Settled n host) ∨ s.Acts host v := by
  rcases (mem_history_of_changes hc).mp hv.logged with rfl | hl
  · exact .inl ⟨rfl, hv.settled⟩
  · refine .inr ⟨hl, hv.settled, ?_⟩
    have hcache : t.cache host v.key ≤ v.version := hv.seen
    unfold cache at hcache ⊢
    rwa [hseen] at hcache

end Log

section Write

variable (hp : s.Placements) (ha : Advance s old n)
  (hc : s.vms.Changes t.vms old (s.vms.stamp n))
include hp ha hc

/-- If the new version is settled on a host, then that host was acting on the old one, or
no host was acting on a settled version. -/
theorem Advance.acts (hs : Settled n host) :
    s.Acts host old ∨ ∀ host' v', s.Acts host' v' → ¬ Same v' old := by
  have hold : old ∈ s.vms.objects := stored_of_changes hc
  rcases ha.settled host hs with hso | hns | ⟨-, -, harr⟩
  · exact .inl ⟨stored_logged hold, hso, hp.cache_le hold host⟩
  · right
    intro host' v' hv' hsame
    refine hns (hp.scheduled_mono v' hv'.logged old (stored_logged hold) hsame ?_
      hv'.settled.scheduledTo.scheduled)
    exact newest_of_stored hold v' hv'.logged hsame.key
  · exact .inr (harr (newest_of_stored hold)).2

/-- A version that is not deleted keeps the finalizer that an earlier one has had. -/
theorem Advance.guarded_of_logged (hd : n.isDeleted = false) (hv : v ∈ s.vms.history)
    (hs : Same v (s.vms.stamp n)) (hg : Guarded v) : Guarded n := by
  have hlog : old ∈ s.vms.history := stored_logged (stored_of_changes hc)
  obtain ⟨hso, hlo⟩ := le_of_changes hc hv hs
  have hdo : old.isDeleted = false := by
    by_contra hne
    rw [Bool.not_eq_false] at hne
    rw [ha.deleted hne] at hd
    cases hd
  rcases ha.guarded (hp.guarded_mono v hv old hlog hso hlo hdo hg) with hgn | ⟨hdel, -⟩
  · exact hgn
  · rw [hdo] at hdel
    cases hdel

/-- The host has followed the object from `v'` up to the stored version and the write. -/
theorem Advance.steady (hset : Settled n host) {v' : VirtualMachine} (hv' : v' ∈ s.vms.history)
    (hs : Same v' (s.vms.stamp n)) (hge : s.cache host old.key ≤ v'.version)
    (hsch : Scheduled v') : ScheduledTo v' host := by
  have hold : old ∈ s.vms.objects := stored_of_changes hc
  have hlog : old ∈ s.vms.history := stored_logged hold
  obtain ⟨hso, hlo⟩ := le_of_changes hc hv' hs
  rcases ha.settled host hset with hsetold | hns | ⟨hcold, haw, -⟩
  · exact hp.steady host old ⟨hlog, hsetold, hp.cache_le hold host⟩ v' hv' hso hge hlo hsch
  · exact absurd (hp.scheduled_mono v' hv' old hlog hso hlo hsch) hns
  · have hve : v' = old :=
      s.vms.logged_unique v' hv' old hlog (Nat.le_antisymm hlo (hcold ▸ hge))
    rw [hve]
    exact haw.scheduledTo

/-- The stored object of a version that a host acts on stays stored and guarded. -/
theorem Advance.kept (hv : s.Acts host v) (hd : v.isDeleted = false)
    (ho : o ∈ s.vms.objects) (hos : Same o v) (hog : Guarded o) :
    ∃ o ∈ t.vms.objects, Same o v ∧ Guarded o := by
  have hold : old ∈ s.vms.objects := stored_of_changes hc
  by_cases hk : o.key = old.key
  · have hoo : o = old := stored_unique ho hold hk
    subst hoo
    rcases ha.guarded hog with hgn | ⟨hdel, -, host', hset', hc'⟩
    · exact ⟨_, stored_of_guarded hc hgn, (same_of_changes hc).trans hos, hgn⟩
    · -- The host that removes the finalizer is the only one that may act, and it has seen
      -- the deletion.
      have hact : s.Acts host' o := ⟨stored_logged ho, hset', Nat.le_of_eq hc'⟩
      have hh : host = host' := hp.unique host v host' o hv hact hos.symm
      subst hh
      have hseen' : s.cache host v.key ≤ v.version := hv.seen
      rw [← hos.key, hc'] at hseen'
      rw [hp.deleted_mono o (stored_logged ho) v hv.logged hos hseen' hdel] at hd
      cases hd
  · exact ⟨o, stored_of_ne hc ho hk, hos, hog⟩

theorem Placements.advance (hseen : t.seen = s.seen) : t.Placements := by
  have hcache : ∀ host k, t.cache host k = s.cache host k := fun host k =>
    congrFun hseen (.host host k)
  refine ⟨hp.toHistory.follow hc ha.toFollows, ?cached,
    mono_of_changes hc hp.scheduled_mono ha.scheduled, ?guarded, ?steady, ?unique, ?kept⟩
  case cached =>
    intro host k
    rw [hcache]
    rcases hp.cached host k with hz | ⟨v, hv, hk, hver⟩
    · exact .inl hz
    · exact .inr ⟨v, (mem_history_of_changes hc).mpr (.inr hv), hk, hver⟩
  case guarded =>
    intro v hv v' hv' hs hle hd hg
    rcases (mem_history_of_changes hc).mp hv with rfl | hv <;>
      rcases (mem_history_of_changes hc).mp hv' with rfl | hv'
    · exact hg
    · exact absurd (hc.version_lt hv') (Nat.not_lt.mpr hle)
    · have hdn : n.isDeleted = false := hd
      have hgn : Guarded n := ha.guarded_of_logged hp hc hdn hv hs hg
      exact hgn
    · exact hp.guarded_mono v hv v' hv' hs hle hd hg
  case steady =>
    intro host v hv v' hv' hs hge hle hsch
    rw [hcache] at hge
    rcases acts_of_changes hc hseen hv with ⟨rfl, hset⟩ | hv <;>
      rcases (mem_history_of_changes hc).mp hv' with rfl | hv'
    · exact hset.scheduledTo
    · rw [hc.key_eq] at hge
      exact ha.steady hp hc hset hv' hs hge hsch
    · exact absurd (hc.version_lt hv.logged) (Nat.not_lt.mpr hle)
    · exact hp.steady host v hv v' hv' hs hge hle hsch
  case unique =>
    intro host v host' v' hv hv' hs
    rcases acts_of_changes hc hseen hv with ⟨rfl, hset⟩ | hv <;>
      rcases acts_of_changes hc hseen hv' with ⟨rfl, hset'⟩ | hv'
    · exact hset.unique hset'
    · have hso : Same v' old := hs.symm.trans (same_of_changes hc)
      rcases ha.acts hp hc hset with hact | hnone
      · exact hp.unique host old host' v' hact hv' hso.symm
      · exact absurd hso (hnone host' v' hv')
    · have hso : Same v old := hs.trans (same_of_changes hc)
      rcases ha.acts hp hc hset' with hact | hnone
      · exact hp.unique host v host' old hv hact hso
      · exact absurd hso (hnone host v hv)
    · exact hp.unique host v host' v' hv hv' hs
  case kept =>
    rintro host v hv hd ⟨x, hxl, hxs, hxg⟩
    rcases acts_of_changes hc hseen hv with ⟨rfl, hset⟩ | hv
    · have hdn : n.isDeleted = false := hd
      have hgn : Guarded n := by
        rcases (mem_history_of_changes hc).mp hxl with rfl | hxl
        · exact hxg
        · exact ha.guarded_of_logged hp hc hdn hxl hxs hxg
      exact ⟨_, stored_of_guarded hc hgn, .refl _, hgn⟩
    · rcases (mem_history_of_changes hc).mp hxl with rfl | hxl
      · exact ⟨_, stored_of_guarded hc hxg, hxs, hxg⟩
      · obtain ⟨o, ho, hos, hog⟩ := hp.kept host v hv hd ⟨x, hxl, hxs, hxg⟩
        exact ha.kept hp hc hv hd ho hos hog

theorem Residence.advance (hr : s.Residence) (hseen : t.seen = s.seen)
    (hyp : t.hypervisors = s.hypervisors) : t.Residence := by
  have hold : old ∈ s.vms.objects := stored_of_changes hc
  have hnotOcc : ¬ Scheduled old →
      ¬ s.hypervisors.Occupied (namePrefixedWithNamespace old.key) := by
    intro hns hocc
    obtain ⟨o, ho, hname, -, hsch⟩ := hr.owned _ hocc
    have hk : o.key = old.key := hp.distinct o (stored_logged ho) old (stored_logged hold) hname
    exact hns (stored_unique ho hold hk ▸ hsch)
  refine ⟨?single, ?owned, ?only, ?vacant⟩
  case single =>
    intro d
    rw [hyp]
    exact hr.single d
  case owned =>
    intro d hocc
    rw [hyp] at hocc
    obtain ⟨o, ho, hname, hog, hsch⟩ := hr.owned d hocc
    by_cases hk : o.key = old.key
    · have hoo : o = old := stored_unique ho hold hk
      subst hoo
      rcases ha.guarded hog with hgn | ⟨-, hgone, -⟩
      · refine ⟨s.vms.stamp n, stored_of_guarded hc hgn, ?_, hgn, ha.scheduled hsch⟩
        rw [hc.key_eq]
        exact hname
      · exact absurd (hname ▸ hocc) (hgone (newest_of_stored ho))
    · exact ⟨o, stored_of_ne hc ho hk, hname, hog, hsch⟩
  case only =>
    intro o ho host v hv hs
    rw [hyp]
    rcases hc.objects_cases ho with rfl | ⟨ho, hk⟩
    · rw [hc.key_eq]
      rcases acts_of_changes hc hseen hv with ⟨rfl, hset⟩ | hv
      · rcases ha.settled host hset with hso | hns | ⟨-, -, harr⟩
        · exact hr.only old hold host old ⟨stored_logged hold, hso, hp.cache_le hold host⟩ (.refl _)
        · exact .of_vacant (hnotOcc hns) host
        · exact (harr (newest_of_stored hold)).1
      · exact hr.only old hold host v hv (hs.trans (same_of_changes hc))
    · rcases acts_of_changes hc hseen hv with ⟨rfl, -⟩ | hv
      · exact absurd (hs.symm.key.trans hc.key_eq) hk
      · exact hr.only o ho host v hv hs
  case vacant =>
    intro o ho host v hv hs hlt
    rw [hyp]
    have hcache : t.cache host o.key = s.cache host o.key := congrFun hseen (.host host o.key)
    rw [hcache] at hlt
    rcases hc.objects_cases ho with rfl | ⟨ho, hk⟩
    · rw [hc.key_eq] at hlt ⊢
      rw [hc.uid_eq] at hlt
      rcases acts_of_changes hc hseen hv with ⟨rfl, hset⟩ | hv
      · rcases ha.settled host hset with hso | hns | ⟨hcold, -, -⟩
        · exact hr.vacant old hold host old
            ⟨stored_logged hold, hso, hp.cache_le hold host⟩ (.refl _) hlt
        · exact hnotOcc hns
        · have hle : old.uid ≤ old.version := (s.vms.logged_le old (stored_logged hold)).1
          omega
      · exact hr.vacant old hold host v hv (hs.trans (same_of_changes hc)) hlt
    · rcases acts_of_changes hc hseen hv with ⟨rfl, -⟩ | hv
      · exact absurd (hs.symm.key.trans hc.key_eq) hk
      · exact hr.vacant o ho host v hv hs hlt

end Write

/-- A write of a virtual machine keeps everything in order. -/
theorem Orderly.advance (h : s.Orderly) (ha : Advance s old n)
    (hc : s.vms.Changes t.vms old (s.vms.stamp n)) (hseen : t.seen = s.seen)
    (hyp : t.hypervisors = s.hypervisors) : t.Orderly :=
  ⟨h.placements.advance ha hc hseen, h.residence.advance h.placements ha hc hseen hyp⟩

/-! ## The other steps -/

/-- Nothing that was logged before belongs to a new object. -/
theorem uid_ne_of_create (hn : s.vms.find? o.key = none) (hv : v ∈ s.vms.history) :
    v.uid ≠ (s.vms.stamp o).uid := by
  intro he
  have hu : (s.vms.stamp o).uid = s.vms.revision + 1 := Collection.uid_stamp_of_none hn
  have hle := s.vms.logged_le v hv
  omega

/-- A property of versions that was passed on so far still is when a new object comes. -/
theorem mono_of_record {P : VirtualMachine → Prop} (hn : s.vms.find? o.key = none)
    (hvms : t.vms = s.vms.record o)
    (hp : ∀ v ∈ s.vms.history, ∀ v' ∈ s.vms.history, Same v v' → v.version ≤ v'.version →
      P v → P v') :
    ∀ v ∈ t.vms.history, ∀ v' ∈ t.vms.history, Same v v' → v.version ≤ v'.version →
      P v → P v' := by
  have hmem : ∀ v, v ∈ t.vms.history ↔ v = s.vms.stamp o ∨ v ∈ s.vms.history := by
    intro v
    rw [hvms]
    exact List.mem_cons
  intro v hv v' hv' hs hle h
  rcases (hmem v).mp hv with rfl | hv <;> rcases (hmem v').mp hv' with rfl | hv'
  · exact h
  · exact absurd hs.uid.symm (uid_ne_of_create hn hv')
  · exact absurd hs.uid (uid_ne_of_create hn hv)
  · exact hp v hv v' hv' hs hle h

theorem History.create (h : s.History) (hn : s.vms.find? o.key = none) (hst : o.status = none)
    (hname : ∀ v ∈ s.vms.history,
      namePrefixedWithNamespace v.key = namePrefixedWithNamespace o.key → v.key = o.key)
    (hvms : t.vms = s.vms.record o) : t.History := by
  have hmem : ∀ v, v ∈ t.vms.history ↔ v = s.vms.stamp o ∨ v ∈ s.vms.history := by
    intro v
    rw [hvms]
    exact List.mem_cons
  refine ⟨?named, ?distinct, mono_of_record hn hvms h.deleted_mono⟩
  case named =>
    intro v hv st hs
    rcases (hmem v).mp hv with rfl | hv
    · rw [Collection.status_stamp, hst] at hs
      cases hs
    · exact h.named v hv st hs
  case distinct =>
    intro v hv v' hv' he
    rcases (hmem v).mp hv with rfl | hv <;> rcases (hmem v').mp hv' with rfl | hv'
    · rfl
    · exact (hname v' hv' he.symm).symm
    · exact hname v hv he
    · exact h.distinct v hv v' hv' he

theorem History.of_eq (h : s.History) (hvms : t.vms = s.vms) : t.History := by
  refine ⟨?_, ?_, ?_⟩ <;> rw [hvms]
  · exact h.named
  · exact h.distinct
  · exact h.deleted_mono

theorem history_initial : World.initial.History := by
  have hlog : ∀ v, v ∉ World.initial.vms.history := fun v hv => nomatch hv
  exact {
    named := fun v hv => absurd hv (hlog v)
    distinct := fun v hv => absurd hv (hlog v)
    deleted_mono := fun v hv => absurd hv (hlog v) }

section Steps

variable (h : s.Orderly)
include h

/-- A user creates a VM. Its name is not that of another VM. -/
theorem Orderly.create {o : VirtualMachine} (hn : s.vms.find? o.key = none)
    (hst : o.status = none) (hf : o.metadata.finalizers = [])
    (hname : ∀ v ∈ s.vms.history,
      namePrefixedWithNamespace v.key = namePrefixedWithNamespace o.key → v.key = o.key)
    (hvms : t.vms = s.vms.record o) (hseen : t.seen = s.seen)
    (hyp : t.hypervisors = s.hypervisors) : t.Orderly := by
  have hp : s.Placements := h.placements
  have hr : s.Residence := h.residence
  have hmem : ∀ v, v ∈ t.vms.history ↔ v = s.vms.stamp o ∨ v ∈ s.vms.history := by
    intro v
    rw [hvms]
    exact List.mem_cons
  have hcache : ∀ host k, t.cache host k = s.cache host k := fun host k =>
    congrFun hseen (.host host k)
  have hfresh : ∀ v ∈ s.vms.history, v.uid ≠ (s.vms.stamp o).uid := fun v hv =>
    uid_ne_of_create hn hv
  have hunsettled : ∀ host, ¬ Settled (s.vms.stamp o) host := by
    rintro host ⟨st, hs, -⟩
    rw [Collection.status_stamp, hst] at hs
    cases hs
  have hunscheduled : ¬ Scheduled (s.vms.stamp o) := by
    rintro ⟨st, hs, -⟩
    rw [Collection.status_stamp, hst] at hs
    cases hs
  have hunguarded : ¬ Guarded (s.vms.stamp o) := by
    intro hg
    have hg' : finalizerName Host.finalizer ∈ o.metadata.finalizers := hg
    rw [hf] at hg'
    cases hg'
  have hacts : ∀ host v, t.Acts host v → s.Acts host v := by
    intro host v hv
    rcases (hmem v).mp hv.logged with rfl | hl
    · exact absurd hv.settled (hunsettled host)
    · exact ⟨hl, hv.settled, hcache host v.key ▸ hv.seen⟩
  have hstored : ∀ v ∈ s.vms.objects, v ∈ t.vms.objects := by
    intro v hv
    have hk : v.key ≠ o.key := by
      intro he
      rw [← he, Collection.find?_of_mem hv] at hn
      cases hn
    rw [hvms, Collection.mem_iff_find?, Collection.find?_record_of_ne hk]
    exact Collection.find?_of_mem hv
  refine ⟨⟨hp.toHistory.create hn hst hname hvms, ?cached, ?scheduled, ?guarded, ?steady,
    ?unique, ?kept⟩, ⟨?single, ?owned, ?only, ?vacant⟩⟩
  case cached =>
    intro host k
    rw [hcache]
    rcases hp.cached host k with hz | ⟨v, hv, hk, hver⟩
    · exact .inl hz
    · exact .inr ⟨v, (hmem v).mpr (.inr hv), hk, hver⟩
  case scheduled =>
    intro v hv v' hv' hs hle hsch
    rcases (hmem v).mp hv with rfl | hv
    · exact absurd hsch hunscheduled
    · rcases (hmem v').mp hv' with rfl | hv'
      · exact absurd hs.uid (hfresh v hv)
      · exact hp.scheduled_mono v hv v' hv' hs hle hsch
  case guarded =>
    intro v hv v' hv' hs hle hd hg
    rcases (hmem v).mp hv with rfl | hv
    · exact absurd hg hunguarded
    · rcases (hmem v').mp hv' with rfl | hv'
      · exact absurd hs.uid (hfresh v hv)
      · exact hp.guarded_mono v hv v' hv' hs hle hd hg
  case steady =>
    intro host v hv v' hv' hs hge hle hsch
    rcases (hmem v').mp hv' with rfl | hv'
    · exact absurd hsch hunscheduled
    · exact hp.steady host v (hacts host v hv) v' hv' hs (hcache host v.key ▸ hge) hle hsch
  case unique =>
    intro host v host' v' hv hv' hs
    exact hp.unique host v host' v' (hacts host v hv) (hacts host' v' hv') hs
  case kept =>
    rintro host v hv hd ⟨x, hx, hxs, hxg⟩
    rcases (hmem x).mp hx with rfl | hx
    · exact absurd hxg hunguarded
    · obtain ⟨p, hps, hpv, hpg⟩ := hp.kept host v (hacts host v hv) hd ⟨x, hx, hxs, hxg⟩
      exact ⟨p, hstored p hps, hpv, hpg⟩
  case single =>
    intro d
    rw [hyp]
    exact hr.single d
  case owned =>
    intro d hocc
    rw [hyp] at hocc
    obtain ⟨p, hps, hpn, hpg, hsch⟩ := hr.owned d hocc
    exact ⟨p, hstored p hps, hpn, hpg, hsch⟩
  case only =>
    intro p hps host v hv hs
    rw [hyp]
    rw [hvms] at hps
    rcases Collection.mem_objects_record hps with rfl | hps
    · exact absurd hs.uid (hfresh v (hacts host v hv).logged)
    · exact hr.only p hps host v (hacts host v hv) hs
  case vacant =>
    intro p hps host v hv hs hlt
    rw [hyp]
    rw [hcache] at hlt
    rw [hvms] at hps
    rcases Collection.mem_objects_record hps with rfl | hps
    · exact absurd hs.uid (hfresh v (hacts host v hv).logged)
    · exact hr.vacant p hps host v (hacts host v hv) hs hlt

omit h in
/-- A host may act on less when hosts have seen more. -/
theorem Acts.of_look (hvms : t.vms = s.vms) (hseen : ∀ host k, s.cache host k ≤ t.cache host k)
    (hv : t.Acts host v) : s.Acts host v :=
  ⟨hvms ▸ hv.logged, hv.settled, Nat.le_trans (hseen host v.key) hv.seen⟩

omit h in
/-- Hosts see newer versions. -/
theorem Placements.look (hp : s.Placements) (hvms : t.vms = s.vms)
    (hseen : ∀ host k, s.cache host k ≤ t.cache host k)
    (hlog : ∀ host k, t.cache host k = s.cache host k ∨
      ∃ v ∈ s.vms.history, v.key = k ∧ v.version = t.cache host k) : t.Placements := by
  refine ⟨hp.toHistory.of_eq hvms, ?cached, ?scheduled, ?guarded, ?steady, ?unique, ?kept⟩
  case cached =>
    intro host k
    rw [hvms]
    rcases hlog host k with he | hl
    · rw [he]
      exact hp.cached host k
    · exact .inr hl
  case scheduled => rw [hvms]; exact hp.scheduled_mono
  case guarded => rw [hvms]; exact hp.guarded_mono
  case steady =>
    intro host v hv v' hv' hs hge hle hsch
    rw [hvms] at hv'
    exact hp.steady host v (hv.of_look hvms hseen) v' hv' hs
      (Nat.le_trans (hseen host v.key) hge) hle hsch
  case unique =>
    intro host v host' v' hv hv' hs
    exact hp.unique host v host' v' (hv.of_look hvms hseen) (hv'.of_look hvms hseen) hs
  case kept =>
    intro host v hv
    rw [hvms]
    exact hp.kept host v (hv.of_look hvms hseen)

/-- Domains go, migrations end, and hosts see newer versions. -/
theorem Orderly.shrink (hvms : t.vms = s.vms) (hyp : s.hypervisors.Shrinks t.hypervisors)
    (hseen : ∀ host k, s.cache host k ≤ t.cache host k)
    (hlog : ∀ host k, t.cache host k = s.cache host k ∨
      ∃ v ∈ s.vms.history, v.key = k ∧ v.version = t.cache host k) : t.Orderly := by
  have hr : s.Residence := h.residence
  refine ⟨h.placements.look hvms hseen hlog, ?single, ?owned, ?only, ?vacant⟩
  case single => exact fun d => (hr.single d).shrink hyp
  case owned =>
    intro d hocc
    rw [hvms]
    exact hr.owned d (hocc.of_shrink hyp)
  case only =>
    intro o ho host v hv hs
    rw [hvms] at ho
    exact (hr.only o ho host v (hv.of_look hvms hseen) hs).shrink hyp
  case vacant =>
    intro o ho host v hv hs hlt hocc
    rw [hvms] at ho
    exact hr.vacant o ho host v (hv.of_look hvms hseen) hs
      (Nat.lt_of_le_of_lt (hseen host o.key) hlt) (hocc.of_shrink hyp)

/-- The domain of what a host works from. -/
theorem Orderly.works_name {w : Worker} {name : String} (hw : Works w s host name v) :
    name = namePrefixedWithNamespace v.key := by
  have hname : v.status.map (·.domainName) = some name := hw.name
  obtain ⟨st, hst, rfl⟩ := Option.map_eq_some_iff.mp hname
  exact h.placements.named v hw.logged st hst

/-- A host that may create a domain acts on a version of the stored object, and the domain
is nowhere else. -/
theorem Orderly.mayCreate {w : Worker} {name : String} (hm : MayCreate w s host name) :
    ∃ o ∈ s.vms.objects, ∃ v, w = .host host v.key ∧ s.Acts host v ∧ Same v o ∧
      v.version = s.cache host v.key ∧ v.isDeleted = false ∧ Guarded o ∧
      name = namePrefixedWithNamespace o.key ∧ s.hypervisors.OnlyAt name host := by
  obtain ⟨v, hw, hset, hd, x, hx, hxk, hxu, hxg⟩ := hm
  have hseen : s.cache host v.key = v.version := by
    have hs := hw.seen
    rw [hw.worker] at hs
    exact hs
  have hact : s.Acts host v := ⟨hw.logged, hset, Nat.le_of_eq hseen⟩
  obtain ⟨o, ho, hos, hog⟩ := h.placements.kept host v hact hd ⟨x, hx, ⟨hxk, hxu⟩, hxg⟩
  have hname : name = namePrefixedWithNamespace o.key := by
    rw [hos.key]
    exact h.works_name hw
  refine ⟨o, ho, v, hw.worker, hact, hos.symm, hseen.symm, hd, hog, hname, ?_⟩
  rw [hname]
  exact h.residence.only o ho host v hact hos.symm

/-- A host creates a domain. -/
theorem Orderly.start {w : Worker} {template : DomainTemplate}
    (hm : MayCreate w s host template.name) (hvms : t.vms = s.vms) (hseen : t.seen = s.seen)
    (hyp : t.hypervisors = s.hypervisors.start host template) : t.Orderly := by
  have hp : s.Placements := h.placements
  have hr : s.Residence := h.residence
  obtain ⟨o, ho, v, -, hact, hvo, hver, -, hog, hname, honly⟩ := h.mayCreate hm
  have hcache : ∀ host k, t.cache host k = s.cache host k := fun host k =>
    congrFun hseen (.host host k)
  have hacts : ∀ host v, t.Acts host v → s.Acts host v := fun host v hv =>
    ⟨hvms ▸ hv.logged, hv.settled, hcache host v.key ▸ hv.seen⟩
  -- Whoever may act on the object of the domain is the host that creates it.
  have hself : ∀ p ∈ s.vms.objects, template.name = namePrefixedWithNamespace p.key →
      ∀ g x, s.Acts g x → Same x p → p = o ∧ g = host := by
    intro p hps hpn g x hx hxp
    have hk : p.key = o.key := hp.distinct p (stored_logged hps) o (stored_logged ho)
      (hpn.symm.trans hname)
    have hpo : p = o := stored_unique hps ho hk
    subst hpo
    exact ⟨rfl, hp.unique g x host v hx hact (hxp.trans hvo.symm)⟩
  have hplace : t.Placements := h.placements.look hvms
    (fun host k => Nat.le_of_eq (hcache host k).symm) fun host k => .inl (hcache host k)
  refine ⟨hplace, ?single, ?owned, ?only, ?vacant⟩
  case single =>
    intro d
    rw [hyp]
    exact (hr.single d).start fun hd => hd ▸ honly
  case owned =>
    intro d hocc
    rw [hyp] at hocc
    rw [hvms]
    rcases hocc.of_start with hd | hocc
    · refine ⟨o, ho, hname.symm.trans hd, hog, ?_⟩
      exact hp.scheduled_mono v hact.logged o (stored_logged ho) hvo
        (newest_of_stored ho v hact.logged hvo.key) hact.settled.scheduledTo.scheduled
    · exact hr.owned d hocc
  case only =>
    intro p hps g x hx hxp
    rw [hvms] at hps
    rw [hyp]
    exact (hr.only p hps g x (hacts g x hx) hxp).start fun hd =>
      (hself p hps hd g x (hacts g x hx) hxp).2.symm
  case vacant =>
    intro p hps g x hx hxp hlt hocc
    rw [hvms] at hps
    rw [hcache] at hlt
    rw [hyp] at hocc
    rcases hocc.of_start with hd | hocc
    · obtain ⟨rfl, rfl⟩ := hself p hps hd g x (hacts g x hx) hxp
      have hle : v.uid ≤ v.version := (s.vms.logged_le v hact.logged).1
      have huid : v.uid = p.uid := hvo.uid
      have hkey : s.cache g p.key = v.version := hvo.key ▸ hver.symm
      omega
    · exact hr.vacant p hps g x (hacts g x hx) hxp hlt hocc

/-- While a host that has the domain sends it away, no host may act on a settled version
of its object. -/
theorem Orderly.maySend {w : Worker} {name destination : String}
    (hm : MaySend w s host name destination) (hhas : s.hypervisors.has host name = true)
    (ho : o ∈ s.vms.objects) (hname : name = namePrefixedWithNamespace o.key) {g : String}
    {x : VirtualMachine} (hx : s.Acts g x) : ¬ Same x o := by
  intro hxo
  have hp : s.Placements := h.placements
  obtain ⟨v, hw, hsch, hne⟩ := hm
  have hkey : v.key = o.key := by
    refine hp.distinct v hw.logged o (stored_logged ho) ?_
    rw [← h.works_name hw]
    exact hname
  have hseen : s.cache host v.key = v.version := by
    have hs := hw.seen
    rw [hw.worker] at hs
    exact hs
  have honly : s.hypervisors.OnlyAt name g := hname ▸ h.residence.only o ho g x hx hxo
  obtain rfl : host = g := honly.2 host hhas
  have hxk : x.key = v.key := hxo.key.trans hkey.symm
  have hle : v.version ≤ x.version := by
    have hs := hx.seen
    rw [hxk, hseen] at hs
    exact hs
  rcases s.vms.stored_lineage o ho v hw.logged hkey with huid | hlt
  · -- The host has seen that the VM is scheduled to the destination, after which it has
    -- not been settled here again.
    have hvx : Same v x := ⟨hxk.symm, huid.trans hxo.uid.symm⟩
    have hto : ScheduledTo v host := hp.steady host x hx v hw.logged hvx
      (Nat.le_of_eq (hxk ▸ hseen)) hle hsch.scheduled
    exact hne (hsch.unique hto)
  · refine h.residence.vacant o ho host x hx hxo ?_ (.inl ⟨host, hname ▸ hhas⟩)
    rw [← hkey, hseen]
    exact hlt

/-- A host sends a domain away. -/
theorem Orderly.send {w : Worker} {name destination : String}
    (hm : MaySend w s host name destination) (hhas : s.hypervisors.has host name = true)
    (hbusy : s.hypervisors.busy host name ≠ true) (hvms : t.vms = s.vms)
    (hseen : t.seen = s.seen) (hyp : t.hypervisors = s.hypervisors.send host destination name) :
    t.Orderly := by
  have hr : s.Residence := h.residence
  have hcache : ∀ host k, t.cache host k = s.cache host k := fun host k =>
    congrFun hseen (.host host k)
  have hacts : ∀ host v, t.Acts host v → s.Acts host v := fun host v hv =>
    ⟨hvms ▸ hv.logged, hv.settled, hcache host v.key ▸ hv.seen⟩
  have hplace : t.Placements := h.placements.look hvms
    (fun host k => Nat.le_of_eq (hcache host k).symm) fun host k => .inl (hcache host k)
  refine ⟨hplace, ?single, ?owned, ?only, ?vacant⟩
  case single =>
    intro d
    rw [hyp]
    exact (hr.single d).send hhas hbusy
  case owned =>
    intro d hocc
    rw [hyp] at hocc
    rw [hvms]
    exact hr.owned d (hocc.of_send hhas)
  case only =>
    intro o ho g x hx hxo
    rw [hvms] at ho
    rw [hyp]
    refine (hr.only o ho g x (hacts g x hx) hxo).send fun hname => ?_
    exact h.maySend hm hhas ho hname (hacts g x hx) hxo
  case vacant =>
    intro o ho g x hx hxo hlt hocc
    rw [hvms] at ho
    rw [hcache] at hlt
    rw [hyp] at hocc
    exact hr.vacant o ho g x (hacts g x hx) hxo hlt (hocc.of_send hhas)

end Steps

end World

end ClusterController
