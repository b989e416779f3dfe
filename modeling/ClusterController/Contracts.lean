import ClusterController.Quiet

/-!
# What the reconciles guarantee

Every reconcile works on a local copy of a logged version of its object. Between its
requests it relies on two things only: the log grows, and nobody else starts a reconcile
in its place (`Keeps`). In return each of its requests has a meaning that can be read off
the stored objects (`Guarantee`):

* an accepted write of a virtual machine replaces exactly the version that the copy was
  taken from, and changes what its writer is there to change (`Effect`),
* a domain is created, destroyed, migrated or examined only by a host whose copy says so.
-/

namespace ClusterController

open ApiServer (StringMap Key KubeError Resource Collection)
open Interaction (Program Contract Terms Regime)
open Interaction.Program (Within)
open Interaction.Contract (wp_mono wp_bind wp_attempt wp_of_within wp_forEach)

/-! ## Statuses -/

/-- The VM is scheduled to the host, and no migration is pending. -/
def Settled (vm : VirtualMachine) (host : String) : Prop :=
  ∃ st, vm.status = some st ∧ st.scheduled = true ∧ st.node = some host ∧
    st.migrationPending = false

/-- The VM waits for a migration to the host. -/
def Awaited (vm : VirtualMachine) (host : String) : Prop :=
  ∃ st, vm.status = some st ∧ st.scheduled = true ∧ st.node = some host ∧
    st.migrationPending = true

/-- The VM is scheduled to a host, and no matter whether a migration is pending. -/
def ScheduledTo (vm : VirtualMachine) (host : String) : Prop :=
  ∃ st, vm.status = some st ∧ st.scheduled = true ∧ st.node = some host

/-- The VM carries the finalizer of the hosts. -/
def Guarded (vm : VirtualMachine) : Prop :=
  finalizerName Host.finalizer ∈ vm.metadata.finalizers

theorem Settled.scheduledTo {vm : VirtualMachine} {host : String} (h : Settled vm host) :
    ScheduledTo vm host := by
  obtain ⟨st, hst, hs, hn, _⟩ := h
  exact ⟨st, hst, hs, hn⟩

theorem Awaited.scheduledTo {vm : VirtualMachine} {host : String} (h : Awaited vm host) :
    ScheduledTo vm host := by
  obtain ⟨st, hst, hs, hn, _⟩ := h
  exact ⟨st, hst, hs, hn⟩

/-! ## Terms -/

/-- What a worker relies on between its requests. -/
def Keeps (w : Worker) (s t : World) : Prop := s.Grows t ∧ t.seen w = s.seen w

theorem Keeps.refl (w : Worker) (s : World) : Keeps w s s := ⟨.refl s, rfl⟩

theorem Keeps.trans {w : Worker} {s t u : World} (h : Keeps w s t) (h' : Keeps w t u) :
    Keeps w s u := ⟨h.1.trans h'.1, h'.2.trans h.2⟩

/-- What the writers of virtual machines do. `old` is the stored version and `n` is what
replaces it, apart from the new resource version. -/
def Effect (w : Worker) (s : World) (old n : VirtualMachine) : Writer → Prop
  | .initializeStatus => w = .vm old.key ∧ old.status = none ∧
      n = { old with status := some (initialStatus (namePrefixedWithNamespace old.key)) }
  | .fillNics => w = .vm old.key ∧ ∃ st networks, old.status = some st ∧
      n = { old with status := some { st with networks := networks } }
  | .fillUuid => w = .vm old.key ∧ old.spec.uuid = none ∧
      ∃ id, n = { old with spec := { old.spec with uuid := some id } }
  | .schedulingAndMigrations => w = .vm old.key ∧ s.seen w = old.version ∧ old.isDeleted = false ∧
      ∃ st node, old.status = some st ∧
        n = { old with status := some (scheduledStatus st node (migrationRequested old)) } ∧
        Pinned old node
  | .clearMigrationRequest => w = .vm old.key ∧ n = dropMigrationRequest old
  | .requestMigrationAwayFrom => ∃ node, w = .node node ∧ getVmNode old = some node ∧
      n = annotateMigration old node
  | .ensureFinalizer f => n = addFinalizer old (finalizerName f) ∧
      (w = .vmOvn old.key ∧ f = "ovn" ∨
        ∃ host, w = .host host old.key ∧ f = Host.finalizer ∧ Settled old host ∧
          old.isDeleted = false)
  | .removeFinalizer f => n = dropFinalizer old (finalizerName f) ∧
      (w = .vmOvn old.key ∧ f = "ovn" ∨
        ∃ host, w = .host host old.key ∧ f = Host.finalizer ∧ Settled old host ∧
          old.isDeleted = true ∧ s.seen w = old.version)
  | .updateVm => w = .vmOvn old.key ∧ ∃ st ips, old.status = some st ∧
      n = { old with status := some { st with
        ipAddresses := some ips, ipAddressesString := some (",".intercalate ips) } }
  | .handleAdd => ∃ host st, w = .host host old.key ∧ old.status = some st ∧
      n = { old with status := some { st with running := true } }
  | .handleInboundMigration => ∃ host st, w = .host host old.key ∧ Awaited old host ∧
      s.seen w = old.version ∧ old.status = some st ∧
      n = { old with status := some { st with migrationPending := false } }
  | .updateNetwork => False
  | .updateRouter => False

/-- What no writer of virtual machines touches. -/
structure Leaves (n old : VirtualMachine) : Prop where
  uid : n.uid = old.uid
  labels : n.metadata.labels = old.metadata.labels
  deletion : n.metadata.deletionTimestamp = old.metadata.deletionTimestamp
  node : n.spec.node = old.spec.node

theorem Effect.leaves {w : Worker} {s : World} {old n : VirtualMachine} {writer : Writer}
    (h : Effect w s old n writer) : Leaves n old := by
  cases writer with
  | initializeStatus => obtain ⟨-, -, rfl⟩ := h; exact ⟨rfl, rfl, rfl, rfl⟩
  | fillNics => obtain ⟨-, st, networks, -, rfl⟩ := h; exact ⟨rfl, rfl, rfl, rfl⟩
  | fillUuid => obtain ⟨-, -, id, rfl⟩ := h; exact ⟨rfl, rfl, rfl, rfl⟩
  | schedulingAndMigrations =>
    obtain ⟨-, -, -, st, node, -, rfl, -⟩ := h
    exact ⟨rfl, rfl, rfl, rfl⟩
  | clearMigrationRequest => obtain ⟨-, rfl⟩ := h; exact ⟨rfl, rfl, rfl, rfl⟩
  | requestMigrationAwayFrom => obtain ⟨node, -, -, rfl⟩ := h; exact ⟨rfl, rfl, rfl, rfl⟩
  | ensureFinalizer f => obtain ⟨rfl, -⟩ := h; exact ⟨rfl, rfl, rfl, rfl⟩
  | removeFinalizer f => obtain ⟨rfl, -⟩ := h; exact ⟨rfl, rfl, rfl, rfl⟩
  | updateVm => obtain ⟨-, st, ips, -, rfl⟩ := h; exact ⟨rfl, rfl, rfl, rfl⟩
  | handleAdd => obtain ⟨host, st, -, -, rfl⟩ := h; exact ⟨rfl, rfl, rfl, rfl⟩
  | handleInboundMigration => obtain ⟨host, st, -, -, -, -, rfl⟩ := h; exact ⟨rfl, rfl, rfl, rfl⟩
  | updateNetwork => exact h.elim
  | updateRouter => exact h.elim

/-- The virtual machines stay as they are, or one of them is replaced with the effect of
the writer. -/
def Wrote (w : Worker) (writer : Writer) (s t : World) : Prop :=
  t.vms = s.vms ∨ ∃ old n, n.key = old.key ∧ s.vms.Changes t.vms old (s.vms.stamp n) ∧
    Effect w s old n writer

/-- The host works from a logged version of the VM with the domain name. -/
structure Works (w : Worker) (s : World) (host name : String) (vm : VirtualMachine) : Prop where
  worker : w = .host host vm.key
  logged : vm ∈ s.vms.history
  seen : s.seen w = vm.version
  name : Host.getDomainName vm = some name

/-- The host may create the domain: its copy is settled there and not deleted, and the
finalizer has been registered for this very VM. -/
def MayCreate (w : Worker) (s : World) (host name : String) : Prop :=
  ∃ vm, Works w s host name vm ∧ Settled vm host ∧ vm.isDeleted = false ∧
    ∃ v ∈ s.vms.history, v.key = vm.key ∧ v.uid = vm.uid ∧ Guarded v

/-- The host may destroy the domain: its copy is settled there and deleted. -/
def MayDestroy (w : Worker) (s : World) (host name : String) : Prop :=
  ∃ vm, Works w s host name vm ∧ Settled vm host ∧ vm.isDeleted = true

/-- The host may send the domain away: its copy is scheduled to the destination. -/
def MaySend (w : Worker) (s : World) (host name destination : String) : Prop :=
  ∃ vm, Works w s host name vm ∧ ScheduledTo vm destination ∧ destination ≠ host

/-- The host may ask whether the domain is active: its copy waits for it. -/
def MayExamine (w : Worker) (s : World) (host name : String) : Prop :=
  ∃ vm, Works w s host name vm ∧ Awaited vm host

/-- What each request of a worker guarantees. -/
def Guarantee (w : Worker) (s : World) : Request → World → Prop
  | .kube (.replace .virtualMachine _ writer), t => Wrote w writer s t
  | .kube (.replaceStatus .virtualMachine _ _ _ writer), t => Wrote w writer s t
  | .libvirt host (.createXml template), _ => MayCreate w s host template.name
  | .libvirt host (.destroy name), _ => MayDestroy w s host name
  | .libvirt host (.startMigration name destination), _ => MaySend w s host name destination
  | .libvirt host (.isActive name), _ => MayExamine w s host name
  | _, _ => True

theorem guarantee_of_quiet {w : Worker} {s t : World} {r : Request} (h : Quiet r) :
    Guarantee w s r t := by
  unfold Guarantee
  split
  · exact absurd rfl h
  · exact absurd rfl h
  · exact h.elim
  · exact h.elim
  · exact h.elim
  · exact h.elim
  · trivial

theorem writerOfVm_of_quiet {r : Request} (h : Quiet r) : r.writerOfVm = none := by
  unfold Request.writerOfVm
  split
  · exact absurd rfl h
  · exact absurd rfl h
  · rfl

/-- A write of a virtual machine guarantees what its writer does. -/
theorem Guarantee.wrote {w : Worker} {s t : World} {r : Request} {writer : Writer}
    (h : Guarantee w s r t) (hw : r.writerOfVm = some writer) : Wrote w writer s t := by
  unfold Request.writerOfVm at hw
  split at hw <;> cases hw
  · exact h
  · exact h

/-- Every step is allowed. -/
abbrev anything : World → ClusterEvent → Prop := fun _ _ => True

/-- The terms that all reconciles keep, whatever the others do. -/
def terms : Terms Worker Request World where
  inv := fun _ => True
  rely := Keeps
  guar := fun w s r t => Guarantee w s r t

section Worlds

variable {w : Worker} {s t : World}

theorem keeps_of_answer {r : Request} {x : Choice} {a : r.Answer}
    (h : World.answer w s r x = some (a, t)) (v : Worker) : Keeps v s t :=
  ⟨World.answer_grows h, congrFun (World.answer_frame h).seen v⟩

/-- A local copy of the object of a worker. -/
structure Copy (w : Worker) (s : World) (vm : VirtualMachine) : Prop where
  tracks : s.vms.Tracks vm
  key : vm.key = w.key
  seen : s.seen w = vm.version

theorem Copy.keep {vm : VirtualMachine} (h : Copy w s vm) (hk : Keeps w s t) : Copy w t vm :=
  ⟨h.tracks.grow (hk.1 .virtualMachine), h.key, hk.2.trans h.seen⟩

/-- The object of a worker as its reconcile started from it. -/
structure Snapshot (w : Worker) (s : World) (vm : VirtualMachine) : Prop where
  logged : vm ∈ s.vms.history
  key : vm.key = w.key
  seen : s.seen w = vm.version

theorem Snapshot.keep {vm : VirtualMachine} (h : Snapshot w s vm) (hk : Keeps w s t) :
    Snapshot w t vm := ⟨hk.1 .virtualMachine vm h.logged, h.key, hk.2.trans h.seen⟩

theorem Snapshot.copy {vm : VirtualMachine} (h : Snapshot w s vm) : Copy w s vm :=
  ⟨.inl h.logged, h.key, h.seen⟩

/-- The copy `n` differs from `vm` in nothing that a plain replace leaves alone. -/
structure Amends (n vm : VirtualMachine) : Prop where
  key : n.key = vm.key
  version : n.version = vm.version
  uid : n.uid = vm.uid
  status : n.status = vm.status
  deletion : n.metadata.deletionTimestamp = vm.metadata.deletionTimestamp

/-- What is known after a copy has been written: it is logged as it was sent. -/
def Recorded (s : World) (n : VirtualMachine) : Prop :=
  ∃ v ∈ s.vms.history, v.key = n.key ∧ v.uid = n.uid ∧
    v.metadata.finalizers = n.metadata.finalizers

/-- The answer to a write: it is refused or fails without effect, or it is stored. -/
theorem answer_write {κ : Kind} {x : Choice}
    {result : Except KubeError (Object κ × Collection κ.Spec κ.Status)}
    {a : Except KubeError (Object κ)}
    (h : x.deliver (.error .unreachable) s (s.store κ result) = (a, t)) :
    (t = s ∧ ∃ e, a = .error e) ∨
    ∃ o c, result = .ok (o, c) ∧ t = s.setKube κ c ∧ (a = .ok o ∨ ∃ e, a = .error e) := by
  cases result with
  | error e =>
    rcases x.deliver_cases (.error .unreachable) s (s.store κ (.error e)) with hd | hd | hd <;>
      rw [hd] at h <;> cases h
    · exact .inl ⟨rfl, e, rfl⟩
    · exact .inl ⟨rfl, _, rfl⟩
    · exact .inl ⟨rfl, _, rfl⟩
  | ok p =>
    rcases x.deliver_cases (.error .unreachable) s (s.store κ (.ok p)) with hd | hd | hd <;>
      rw [hd] at h <;> cases h
    · exact .inr ⟨p.1, p.2, rfl, rfl, .inl rfl⟩
    · exact .inl ⟨rfl, _, rfl⟩
    · exact .inr ⟨p.1, p.2, rfl, rfl, .inr ⟨_, rfl⟩⟩

/-- A replace of a tracked copy has the effect that the copy was changed for. -/
theorem replace_wrote {vm n : VirtualMachine} {writer : Writer} {x : Choice}
    {a : Except KubeError VirtualMachine} (ht : s.vms.Tracks vm) (hn : Amends n vm)
    (he : n ≠ vm → Effect w s vm n writer)
    (h : World.answer w s (.kube (.replace .virtualMachine n writer)) x = some (a, t)) :
    Wrote w writer s t ∧ ∀ o, a = .ok o → t.vms.Tracks n ∧ Recorded t n := by
  rcases answer_write (Option.some.inj h) with ⟨rfl, e, rfl⟩ | ⟨o, c, hr, rfl, ha⟩
  · exact ⟨.inl rfl, fun o ho => nomatch ho⟩
  · have hvms : (s.setKube .virtualMachine c).vms = c := World.kube_setKube_self
    rcases Collection.replace_tracks ht hn.key hn.version hn.status hn.deletion hr with
      ⟨rfl, rfl, hs⟩ | ⟨hne, hc, _⟩
    · refine ⟨.inl hvms, fun _ _ => ⟨?_, ?_⟩⟩
      · rw [hvms]
        exact ht
      · unfold Recorded
        rw [hvms]
        exact ⟨n, Collection.logged_of_find? hs, rfl, rfl, rfl⟩
    · refine ⟨.inr ⟨vm, n, hn.key, ?_, he hne⟩, fun _ _ => ⟨?_, ?_⟩⟩
      · rw [hvms]
        exact hc
      · rw [hvms]
        exact .inr (hc.outdates hn.key hn.version)
      · unfold Recorded
        rw [hvms]
        refine ⟨s.vms.stamp n, ?_, rfl, hc.uid_eq.trans hn.uid.symm, rfl⟩
        rw [hc.history_eq]
        exact List.mem_cons_self

/-- A status replace from a tracked copy has the effect that it was sent for. -/
theorem replaceStatus_wrote {vm : VirtualMachine} {st : VirtualMachineStatus} {writer : Writer}
    {x : Choice} {a : Except KubeError VirtualMachine} (ht : s.vms.Tracks vm)
    (he : Effect w s vm { vm with status := some st } writer)
    (h : World.answer w s (.kube (.replaceStatus .virtualMachine vm.key vm.version st writer)) x
      = some (a, t)) :
    Wrote w writer s t := by
  rcases answer_write (Option.some.inj h) with ⟨rfl, e, rfl⟩ | ⟨o, c, hr, rfl, ha⟩
  · exact .inl rfl
  · have hvms : (s.setKube .virtualMachine c).vms = c := World.kube_setKube_self
    rcases Collection.replaceStatus_tracks ht hr with ⟨rfl, _, _⟩ | hc
    · exact .inl hvms
    · refine .inr ⟨vm, { vm with status := some st }, rfl, ?_, he⟩
      rw [hvms]
      exact hc

end Worlds

variable [Crates]

/-- The contract of one worker. -/
abbrev agreement (w : Worker) : Contract Request Request.Answer World :=
  terms.contract cluster anything w

variable {w : Worker} {s t : World}

/-! ## Rules -/

/-- A quiet program keeps the contract. -/
theorem wp_quiet {α : Type} {p : Prog α} {done : α → Prop} (h : p.Within Quiet done) (s : World) :
    (agreement w).wp p (fun x t => Keeps w s t ∧ ∀ a, x = .ok a → done a) s := by
  refine wp_of_within (Keeps.refl w) (fun _ _ _ => Keeps.trans) (fun _ _ h => h) ?_ h s
  rintro s₁ r a t hq - ⟨x, -, hx⟩
  exact ⟨guarantee_of_quiet hq, keeps_of_answer hx w⟩

/-- Run a quiet program first. -/
theorem wp_quiet_bind {α β : Type} {p : Prog α} {f : α → Prog β} {done : α → Prop}
    {post : Except Error β → World → Prop} (h : p.Within Quiet done)
    (herr : ∀ e t, Keeps w s t → post (.error e) t)
    (hok : ∀ a t, done a → Keeps w s t → (agreement w).wp (f a) post t) :
    (agreement w).wp (p >>= f) post s := by
  refine wp_bind (wp_mono (wp_quiet h s) fun x t hx => ?_)
  cases x with
  | ok a => exact hok a t (hx.2 a rfl) hx.1
  | error e => exact herr e t hx.1

/-- One request, under any terms. -/
theorem wp_answer {T : Terms Worker Request World} {allowed : World → ClusterEvent → Prop}
    {r : Request} {α : Type} {k : r.Answer → Prog α} {post : Except Error α → World → Prop}
    (h : ∀ s₁ x a t, T.rely w s s₁ → T.inv s₁ → allowed s₁ (.call w r x) →
      World.answer w s₁ r x = some (a, t) →
      T.guar w s₁ r t ∧ (T.contract cluster allowed w).wp (k a) post t) :
    (T.contract cluster allowed w).wp (.call r k) post s := by
  rintro s₁ hr hi a t ⟨x, ha, hx⟩
  exact h s₁ x a t hr hi ha hx

/-- Any one request. -/
theorem wp_step {r : Request} {α : Type} {k : r.Answer → Prog α}
    {post : Except Error α → World → Prop}
    (h : ∀ s₁ x a t, Keeps w s s₁ → World.answer w s₁ r x = some (a, t) → Keeps w s t →
      Guarantee w s₁ r t ∧ (agreement w).wp (k a) post t) :
    (agreement w).wp (.call r k) post s := by
  rintro s₁ hr - a t ⟨x, -, hx⟩
  exact h s₁ x a t hr hx (hr.trans (keeps_of_answer hx w))

/-- A commit of a changed copy. -/
theorem wp_commit {vm n : VirtualMachine} {writer : Writer} (ht : s.vms.Tracks vm)
    (hn : Amends n vm) (he : ∀ s₁, Keeps w s s₁ → n ≠ vm → Effect w s₁ vm n writer) :
    (agreement w).wp (commit n writer)
      (fun x t => Keeps w s t ∧ ∀ u, x = .ok u → t.vms.Tracks n ∧ Recorded t n) s := by
  refine wp_step fun s₁ x a t hk ha hkt => ?_
  obtain ⟨hg, hok⟩ := replace_wrote (ht.grow (hk.1 .virtualMachine)) hn (he s₁ hk) ha
  refine ⟨hg, ?_⟩
  cases a with
  | ok o => exact ⟨hkt, fun _ _ => hok o rfl⟩
  | error e => exact ⟨hkt, fun _ h => nomatch h⟩

/-- A status write from a copy. -/
theorem wp_setStatus {vm : VirtualMachine} {st : VirtualMachineStatus} {writer : Writer}
    (ht : s.vms.Tracks vm)
    (he : ∀ s₁, Keeps w s s₁ → Effect w s₁ vm { vm with status := some st } writer) :
    (agreement w).wp (setStatus vm st writer) (fun _ t => Keeps w s t) s := by
  refine wp_step fun s₁ x a t hk ha hkt => ?_
  refine ⟨replaceStatus_wrote (ht.grow (hk.1 .virtualMachine)) (he s₁ hk) ha, ?_⟩
  cases a with
  | ok o => exact hkt
  | error e => exact hkt

end ClusterController
