import ClusterController.Handover
import ClusterController.Reconciles

/-!
# The source of a migration

A host to which a VM is scheduled with a migration pending waits until the domain arrives.
It waits forever when no host has the domain. The scheduler sets `migrationPending` from
the node in the status and from the annotation alone, so the domain need not exist.

* `Flight`: both ends of a migration in flight have the domain.
* `Pending`, `Sourced`: a VM with a pending migration has a domain somewhere.
* `sourced`: the steps that keep it so.
-/

namespace ClusterController

open ApiServer (Key Resource Collection)
open Interaction (Regime)

/-! ## Migrations in flight -/

namespace Hypervisors

variable {l l' : Hypervisors} {host name g d source destination : String} {m m' : Migration}
  {template : DomainTemplate}

/-- Some host has the domain. -/
def somewhere (l : Hypervisors) (name : String) : Bool := l.domains.any (·.template.name = name)

theorem somewhere_iff : l.somewhere name = true ↔ ∃ g, l.has g name = true := by
  unfold somewhere has
  simp

theorem somewhere_of_has (h : l.has g name = true) : l.somewhere name = true :=
  somewhere_iff.mpr ⟨g, h⟩

/-- The host is an end of the migration of the domain. -/
def End (m : Migration) (g d : String) : Prop :=
  m.domain = d ∧ (m.source = g ∨ m.destination = g)

/-- Both ends of a migration in flight have the domain, and no host is an end of two
migrations of one domain. -/
structure Flight (l : Hypervisors) : Prop where
  source : ∀ m ∈ l.migrations, l.has m.source m.domain = true
  destination : ∀ m ∈ l.migrations, l.has m.destination m.domain = true
  apart : ∀ m ∈ l.migrations, m.source ≠ m.destination
  disjoint : ∀ m ∈ l.migrations, ∀ m' ∈ l.migrations, ∀ g d, End m g d → End m' g d → m = m'

theorem Flight.has (h : l.Flight) (hm : m ∈ l.migrations) (he : End m g d) :
    l.has g d = true := by
  obtain ⟨rfl, rfl | rfl⟩ := he
  · exact h.source m hm
  · exact h.destination m hm

/-- If the migrations of `l'` are among those of `l` and keep their ends, then all is well. -/
theorem Flight.sub (h : l.Flight)
    (hsub : ∀ m ∈ l'.migrations, m ∈ l.migrations ∧
      ∀ g d, End m g d → l.has g d = true → l'.has g d = true) : l'.Flight where
  source m hm := (hsub m hm).2 _ _ ⟨rfl, .inl rfl⟩ (h.source m (hsub m hm).1)
  destination m hm := (hsub m hm).2 _ _ ⟨rfl, .inr rfl⟩ (h.destination m (hsub m hm).1)
  apart m hm := h.apart m (hsub m hm).1
  disjoint m hm m' hm' := h.disjoint m (hsub m hm).1 m' (hsub m' hm').1

theorem Flight.start (h : l.Flight) : (l.start host template).Flight :=
  h.sub fun _ hm => ⟨hm, fun _ _ _ hg => has_start.mpr (.inr hg)⟩

/-- One migration is over, and one of its ends loses the domain. -/
theorem Flight.finish_drop (h : l.Flight) (hm : m ∈ l.migrations)
    (he : host = m.source ∨ host = m.destination) :
    ((l.finish m).drop host m.domain).Flight := by
  refine h.sub fun m' hm' => ?_
  obtain ⟨hin, hne⟩ := mem_migrations_finish.mp hm'
  refine ⟨hin, fun g d hend hg => has_drop.mpr ⟨hg, ?_⟩⟩
  rintro ⟨rfl, rfl⟩
  refine hne (h.disjoint m' hin m hm g m.domain hend ⟨rfl, ?_⟩)
  rcases he with he | he
  · exact .inl he.symm
  · exact .inr he.symm

theorem Flight.complete (h : l.Flight) (hm : m ∈ l.migrations) : (l.complete m).Flight :=
  h.finish_drop hm (.inl rfl)

theorem Flight.abort (h : l.Flight) (hm : m ∈ l.migrations) : (l.abort m).Flight :=
  h.finish_drop hm (.inr rfl)

/-- libvirt lets a domain leave only a host where it takes part in no migration, and go
only where it is not. -/
theorem Flight.send (h : l.Flight) (hs : l.has source name = true)
    (hb : l.busy source name ≠ true) (hd : l.has destination name ≠ true) :
    (l.send source destination name).Flight := by
  have hkeep : ∀ g d, l.has g d = true → (l.send source destination name).has g d = true :=
    fun g d hg => has_send.mpr (.inl hg)
  have hnew : ∀ m ∈ l.migrations, ∀ g d, End m g d →
      ¬ End ⟨name, source, destination⟩ g d := by
    rintro m hm g d hend ⟨rfl, hsrc | hdst⟩
    · have hsrc : source = g := hsrc
      exact hb (busy_iff.mpr ⟨m, hm, hend.1, hsrc ▸ hend.2⟩)
    · have hdst : destination = g := hdst
      exact hd (hdst ▸ h.has hm hend)
  constructor
  · intro m hm
    rcases mem_migrations_send.mp hm with rfl | hm
    · exact hkeep _ _ hs
    · exact hkeep _ _ (h.source m hm)
  · intro m hm
    rcases mem_migrations_send.mp hm with rfl | hm
    · exact has_send.mpr (.inr ⟨rfl, rfl, hs⟩)
    · exact hkeep _ _ (h.destination m hm)
  · intro m hm
    rcases mem_migrations_send.mp hm with rfl | hm
    · intro he
      have he : source = destination := he
      exact hd (he ▸ hs)
    · exact h.apart m hm
  · intro m hm m' hm' g d hend hend'
    rcases mem_migrations_send.mp hm with rfl | hm <;>
      rcases mem_migrations_send.mp hm' with rfl | hm'
    · rfl
    · exact absurd hend (hnew m' hm' g d hend')
    · exact absurd hend' (hnew m hm g d hend)
    · exact h.disjoint m hm m' hm' g d hend hend'

/-! ### The end of a domain -/

theorem mem_migrations_abortAll (ms : List Migration) (l : Hypervisors) :
    m ∈ (ms.foldl abort l).migrations ↔ m ∈ l.migrations ∧ m ∉ ms := by
  induction ms generalizing l with
  | nil => simp
  | cons m' ms ih =>
    show m ∈ (ms.foldl abort (l.abort m')).migrations ↔ _
    rw [ih]
    show m ∈ (l.finish m').migrations ∧ m ∉ ms ↔ _
    rw [mem_migrations_finish, List.mem_cons, not_or, and_assoc]

theorem has_abortAll (ms : List Migration) (l : Hypervisors) :
    (ms.foldl abort l).has g d = true ↔
      l.has g d = true ∧ ∀ m ∈ ms, ¬ (g = m.destination ∧ d = m.domain) := by
  induction ms generalizing l with
  | nil => simp
  | cons m ms ih =>
    show (ms.foldl abort (l.abort m)).has g d = true ↔ _
    rw [ih]
    show ((l.finish m).drop m.destination m.domain).has g d = true ∧ _ ↔ _
    rw [has_drop, has_finish, List.forall_mem_cons, and_assoc]

/-- A migration goes on when a domain ends that is not at one of its ends. -/
theorem mem_migrations_stop : m ∈ (l.stop host name).migrations ↔
    m ∈ l.migrations ∧ ¬ End m host name := by
  show m ∈ (List.foldl abort l _).migrations ↔ _
  rw [mem_migrations_abortAll, List.mem_filter]
  unfold End
  simp only [Bool.and_eq_true, Bool.or_eq_true, decide_eq_true_eq]
  tauto

theorem has_stop_iff : (l.stop host name).has g d = true ↔
    l.has g d = true ∧ ¬ (g = host ∧ d = name) ∧
      ∀ m ∈ l.migrations, End m host name → ¬ (g = m.destination ∧ d = m.domain) := by
  show ((List.foldl abort l _).drop host name).has g d = true ↔ _
  rw [has_drop, has_abortAll]
  simp only [List.mem_filter, Bool.and_eq_true, Bool.or_eq_true, decide_eq_true_eq, and_imp]
  unfold End
  constructor
  · rintro ⟨⟨hg, hms⟩, hne⟩
    exact ⟨hg, hne, fun m hm he => hms m hm he.1 he.2⟩
  · rintro ⟨hg, hne, hms⟩
    exact ⟨⟨hg, fun m hm hd he => hms m hm ⟨hd, he⟩⟩, hne⟩

theorem Flight.stop (h : l.Flight) : (l.stop host name).Flight := by
  refine h.sub fun m hm => ?_
  obtain ⟨hin, hnot⟩ := mem_migrations_stop.mp hm
  refine ⟨hin, fun g d hend hg => has_stop_iff.mpr ⟨hg, ?_, fun m' hm' hend' => ?_⟩⟩
  · rintro ⟨rfl, rfl⟩
    exact hnot hend
  · rintro ⟨rfl, rfl⟩
    have hmm : m = m' := h.disjoint m hin m' hm' m'.destination m'.domain hend ⟨rfl, .inr rfl⟩
    exact hnot (hmm ▸ hend')

/-- The end of a domain leaves the other domains where they are. -/
theorem somewhere_stop (h : l.somewhere d = true) (hne : d ≠ name) :
    (l.stop host name).somewhere d = true := by
  obtain ⟨g, hg⟩ := somewhere_iff.mp h
  refine somewhere_of_has (g := g) (has_stop_iff.mpr ⟨hg, fun he => hne he.2, ?_⟩)
  rintro m - hend ⟨-, rfl⟩
  exact hne hend.1

/-- After a migration that is over, the other end still has the domain. -/
theorem somewhere_finish_drop (h : l.somewhere d = true) (hother : l.has g m.domain = true)
    (hne : g ≠ host) : ((l.finish m).drop host m.domain).somewhere d = true := by
  by_cases hd : d = m.domain
  · rw [hd]
    exact somewhere_of_has (has_drop.mpr ⟨hother, fun he => hne he.1⟩)
  · obtain ⟨g', hg'⟩ := somewhere_iff.mp h
    exact somewhere_of_has (has_drop.mpr ⟨hg', fun he => hd he.2⟩)

theorem Flight.somewhere_complete (h : l.Flight) (hm : m ∈ l.migrations)
    (hs : l.somewhere d = true) : (l.complete m).somewhere d = true :=
  somewhere_finish_drop hs (h.destination m hm) (h.apart m hm).symm

theorem Flight.somewhere_abort (h : l.Flight) (hm : m ∈ l.migrations)
    (hs : l.somewhere d = true) : (l.abort m).somewhere d = true :=
  somewhere_finish_drop hs (h.source m hm) (h.apart m hm)

end Hypervisors

/-! ## Pending migrations -/

/-- A migration of the VM is pending. -/
def pending (vm : VirtualMachine) : Bool := vm.status.any (·.migrationPending)

/-- Only the scheduler sets a migration pending, for a VM that is not deleted. -/
theorem pending_of_effect {w : Worker} {s : World} {old n : VirtualMachine} {writer : Writer}
    (he : Effect w s old n writer) (hp : pending n = true) : pending old = true ∨
      (writer = .schedulingAndMigrations ∧ w = .vm old.key ∧ s.seen w = old.version ∧
        old.isDeleted = false ∧ migrationRequested old = true) := by
  cases writer with
  | initializeStatus =>
    obtain ⟨-, -, rfl⟩ := he
    cases hp
  | fillNics =>
    obtain ⟨-, st, networks, hst, rfl⟩ := he
    exact .inl (by simpa [pending, hst] using hp)
  | fillUuid =>
    obtain ⟨-, -, id, rfl⟩ := he
    exact .inl hp
  | schedulingAndMigrations =>
    obtain ⟨hw, hseen, hd, st, node, hst, rfl, -⟩ := he
    by_cases hm : migrationRequested old = true
    · exact .inr ⟨rfl, hw, hseen, hd, hm⟩
    · exact .inl (by simpa [pending, scheduledStatus, hst, hm] using hp)
  | clearMigrationRequest =>
    obtain ⟨-, rfl⟩ := he
    exact .inl hp
  | requestMigrationAwayFrom =>
    obtain ⟨node, -, -, rfl⟩ := he
    exact .inl hp
  | ensureFinalizer f =>
    obtain ⟨rfl, -⟩ := he
    exact .inl hp
  | removeFinalizer f =>
    obtain ⟨rfl, -⟩ := he
    exact .inl hp
  | updateVm =>
    obtain ⟨-, st, ips, hst, rfl⟩ := he
    exact .inl (by simpa [pending, hst] using hp)
  | handleAdd =>
    obtain ⟨host, st, -, hst, rfl⟩ := he
    exact .inl (by simpa [pending, hst] using hp)
  | handleInboundMigration =>
    obtain ⟨host, st, -, -, -, hst, rfl⟩ := he
    cases hp
  | updateNetwork => exact he.elim
  | updateRouter => exact he.elim

theorem Settled.not_pending {v : VirtualMachine} {host : String} (h : Settled v host) :
    pending v = false := by
  obtain ⟨st, hst, -, -, hp⟩ := h
  simp [pending, hst, hp]

namespace World

/-- A VM with a pending migration has a domain on some host. -/
def MigrationsSourced (s : World) : Prop :=
  ∀ o ∈ s.vms.objects, pending o = true →
    s.hypervisors.somewhere (namePrefixedWithNamespace o.key) = true

/-- What keeps it so: once a VM is deleted and has no migration pending, it never has one
again, so a host that destroys the domain destroys no source. -/
structure Sourced (s : World) : Prop extends History s where
  flight : s.hypervisors.Flight
  ended : ∀ v ∈ s.vms.history, ∀ v' ∈ s.vms.history, Same v v' → v.version ≤ v'.version →
    v.isDeleted = true ∧ pending v = false → v'.isDeleted = true ∧ pending v' = false
  migrations : s.MigrationsSourced

end World

/-- The steps that leave a pending migration its source.

* No VM is created whose domain name another VM has had.
* No domain of a VM with a pending migration stops by itself.
* No host destroys a domain on behalf of an earlier VM of the same name while a migration
  of the later one is pending.
* The scheduler moves a VM on request only if the VM has a domain. -/
def sourced (s : World) : ClusterEvent → Prop
  | .world (.create .virtualMachine k _ _ _) => ∀ v ∈ s.vms.history,
      namePrefixedWithNamespace v.key = namePrefixedWithNamespace k → v.key = k
  | .world (.domainStops _ d) => ∀ o ∈ s.vms.objects,
      namePrefixedWithNamespace o.key = d → pending o = false
  | .call w (.libvirt _ (.destroy _)) _ => ∀ o ∈ s.vms.objects,
      o.key = w.key → pending o = true → o.uid ≤ s.seen w
  | .call w r _ => r.writerOfVm = some .schedulingAndMigrations →
      ∀ o ∈ s.vms.objects, o.key = w.key → o.version = s.seen w → migrationRequested o = true →
        s.hypervisors.somewhere (namePrefixedWithNamespace o.key) = true
  | _ => True

instance : ∀ s e, Decidable (sourced s e) := by
  intro s e
  cases e with
  | start _ _ => exact .isTrue trivial
  | stop _ => exact .isTrue trivial
  | world e => cases e with
    | create κ k _ _ _ => cases κ with
      | virtualMachine => exact inferInstanceAs (Decidable (∀ v ∈ s.vms.history,
          namePrefixedWithNamespace v.key = namePrefixedWithNamespace k → v.key = k))
      | _ => exact .isTrue trivial
    | domainStops _ d => exact inferInstanceAs (Decidable (∀ o ∈ s.vms.objects,
        namePrefixedWithNamespace o.key = d → pending o = false))
    | _ => exact .isTrue trivial
  | call w r x =>
    have fromDomain (r : Request) : Decidable (r.writerOfVm = some .schedulingAndMigrations →
        ∀ o ∈ s.vms.objects, o.key = w.key → o.version = s.seen w → migrationRequested o = true →
          s.hypervisors.somewhere (namePrefixedWithNamespace o.key) = true) := inferInstance
    cases r with
    | libvirt _ q => cases q with
      | destroy _ => exact inferInstanceAs (Decidable (∀ o ∈ s.vms.objects,
          o.key = w.key → pending o = true → o.uid ≤ s.seen w))
      | _ => exact fromDomain _
    | _ => exact fromDomain _

namespace World

variable {s t : World} {w : Worker} {r : Request} {x : Choice} {a : r.Answer}
  {old n : VirtualMachine}

/-! ## Steps -/

/-- A virtual machine gets a new version, and its migration stays pending or has a source. -/
theorem Sourced.write (h : s.Sourced) (hf : Follows old n)
    (hc : s.vms.Changes t.vms old (s.vms.stamp n)) (hyp : t.hypervisors = s.hypervisors)
    (hp : pending n = true → pending old = true ∨ (old.isDeleted = false ∧
      s.hypervisors.somewhere (namePrefixedWithNamespace old.key) = true)) : t.Sourced := by
  refine ⟨h.toHistory.follow hc hf, hyp ▸ h.flight, mono_of_changes hc h.ended ?ended, ?migrations⟩
  case ended =>
    rintro ⟨hd, hnp⟩
    refine ⟨hf.deleted hd, ?_⟩
    by_contra hpn
    rw [Bool.not_eq_false] at hpn
    rcases hp hpn with hpo | ⟨hdo, -⟩
    · rw [hnp] at hpo
      cases hpo
    · rw [hd] at hdo
      cases hdo
  case migrations =>
    intro o ho hpo
    rw [hyp]
    rcases hc.objects_cases ho with rfl | ⟨ho, -⟩
    · rw [hc.key_eq]
      rcases hp hpo with hpold | ⟨-, hs⟩
      · exact h.migrations old (stored_of_changes hc) hpold
      · exact hs
    · exact h.migrations o ho hpo

/-- The virtual machines stay as they are, and no domain is lost that a migration needs. -/
theorem Sourced.of_vms (h : s.Sourced) (hvms : t.vms = s.vms) (hfl : t.hypervisors.Flight)
    (hs : ∀ o ∈ s.vms.objects, pending o = true →
      s.hypervisors.somewhere (namePrefixedWithNamespace o.key) = true →
      t.hypervisors.somewhere (namePrefixedWithNamespace o.key) = true) : t.Sourced := by
  refine ⟨h.toHistory.of_eq hvms, hfl, ?_, ?_⟩
  · rw [hvms]
    exact h.ended
  · intro o ho hp
    rw [hvms] at ho
    exact hs o ho hp (h.migrations o ho hp)

theorem Sourced.of_eq (h : s.Sourced) (hvms : t.vms = s.vms)
    (hyp : t.hypervisors = s.hypervisors) : t.Sourced :=
  h.of_vms hvms (hyp ▸ h.flight) fun _ _ _ hs => hyp ▸ hs

theorem Sourced.create {o : VirtualMachine} (h : s.Sourced) (hn : s.vms.find? o.key = none)
    (hst : o.status = none)
    (hname : ∀ v ∈ s.vms.history,
      namePrefixedWithNamespace v.key = namePrefixedWithNamespace o.key → v.key = o.key)
    (hvms : t.vms = s.vms.record o) (hyp : t.hypervisors = s.hypervisors) : t.Sourced := by
  refine ⟨h.toHistory.create hn hst hname hvms, hyp ▸ h.flight,
    mono_of_record hn hvms h.ended, ?_⟩
  intro v hv hp
  rw [hyp]
  rw [hvms] at hv
  rcases Collection.mem_objects_record hv with rfl | hv
  · have hnp : pending (s.vms.stamp o) = false := by
      unfold pending
      rw [Collection.status_stamp, hst]
      rfl
    rw [hnp] at hp
    cases hp
  · exact h.migrations v hv hp

/-- A host that may destroy a domain works from a deleted VM with no pending migration, and
so is the VM that is stored. -/
theorem Sourced.not_pending_of_destroy {host d : String} {o : VirtualMachine} (h : s.Sourced)
    (hm : MayDestroy w s host d) (ho : o ∈ s.vms.objects)
    (hname : namePrefixedWithNamespace o.key = d)
    (huid : o.key = w.key → pending o = true → o.uid ≤ s.seen w) : pending o = false := by
  obtain ⟨vm, hworks, hset, hdel⟩ := hm
  by_contra hp
  rw [Bool.not_eq_false] at hp
  have hd : namePrefixedWithNamespace vm.key = d := by
    obtain ⟨st, hst, -⟩ := hset
    have hn : Host.getDomainName vm = some st.domainName := by
      unfold Host.getDomainName
      rw [hst]
      rfl
    rw [← h.named vm hworks.logged st hst]
    exact Option.some.inj (hn.symm.trans hworks.name)
  have hk : o.key = vm.key :=
    h.distinct o (stored_logged ho) vm hworks.logged (hname.trans hd.symm)
  have hle : o.uid ≤ vm.version := by
    have hw : o.key = w.key := by
      rw [hworks.worker]
      exact hk
    rw [← hworks.seen]
    exact huid hw hp
  have hsame : Same vm o := by
    refine ⟨hk.symm, ?_⟩
    rcases s.vms.stored_lineage o ho vm hworks.logged hk.symm with hu | hlt
    · exact hu
    · exact absurd hlt (Nat.not_lt.mpr hle)
  have hv : vm.version ≤ o.version := newest_of_stored ho vm hworks.logged hk.symm
  obtain ⟨-, hnp⟩ := h.ended vm hworks.logged o (stored_logged ho) hsame hv
    ⟨hdel, hset.not_pending⟩
  rw [hnp] at hp
  cases hp

/-- What a request of libvirt does to the domains. -/
theorem serveLibvirt_hypervisors {host : String} {q : LibvirtRequest}
    {p : Option q.Answer × World} (h : s.serveLibvirt host q = some p) :
    p.2.hypervisors = s.hypervisors ∨
    (∃ template, p.2.hypervisors = s.hypervisors.start host template) ∨
    (∃ d, q = .destroy d ∧ p.2.hypervisors = s.hypervisors.stop host d) ∨
    ∃ d destination, s.hypervisors.has host d = true ∧ s.hypervisors.busy host d ≠ true ∧
      s.hypervisors.has destination d ≠ true ∧
      p.2.hypervisors = s.hypervisors.send host destination d := by
  cases q with
  | listAllDomains =>
    cases h
    exact .inl rfl
  | lookupByName d =>
    cases h
    exact .inl rfl
  | isActive d =>
    cases h
    exact .inl rfl
  | destroy d =>
    cases h
    split
    · exact .inr (.inr (.inl ⟨d, rfl, rfl⟩))
    · exact .inl rfl
  | createXml template =>
    cases h
    split
    · exact .inl rfl
    · exact .inr (.inl ⟨template, rfl⟩)
  | startMigration d destination =>
    cases h
    split
    · next hc =>
      simp only [Bool.and_eq_true, Bool.not_eq_true'] at hc
      exact .inr (.inr (.inr ⟨d, destination, hc.1.1, by simp [hc.1.2], by simp [hc.2], rfl⟩))
    · exact .inl rfl
  | awaitMigration d =>
    simp only [serveLibvirt] at h
    split at h
    · cases h
    · cases h
      exact .inl rfl

/-- A request that is not a write of a virtual machine. -/
theorem Sourced.other (h : s.Sourced) (hw : r.writerOfVm = none)
    (hd : ∀ host d, r = .libvirt host (.destroy d) → ∀ o ∈ s.vms.objects,
      namePrefixedWithNamespace o.key = d → pending o = false)
    (hx : World.answer w s r x = some (a, t)) : t.Sourced := by
  have hvms : t.vms = s.vms := answer_vms hw hx
  by_cases hq : ∃ host q, r = .libvirt host q
  · obtain ⟨host, q, rfl⟩ := hq
    simp only [answer] at hx
    split at hx
    · next served hs =>
      rcases Choice.deliver_state (Option.some.inj hx) with rfl | rfl
      · exact h
      · rcases serveLibvirt_hypervisors hs with hyp | ⟨template, hyp⟩ | ⟨d, rfl, hyp⟩ |
          ⟨d, destination, hhas, hbusy, hdest, hyp⟩
        · exact h.of_eq hvms hyp
        · refine h.of_vms hvms (hyp ▸ h.flight.start) fun o _ _ hsome => ?_
          obtain ⟨g, hg⟩ := Hypervisors.somewhere_iff.mp hsome
          rw [hyp]
          exact Hypervisors.somewhere_of_has (Hypervisors.has_start.mpr (.inr hg))
        · refine h.of_vms hvms (hyp ▸ h.flight.stop) fun o ho hp hsome => ?_
          rw [hyp]
          refine Hypervisors.somewhere_stop hsome fun hname => ?_
          rw [hd host d rfl o ho hname] at hp
          cases hp
        · refine h.of_vms hvms (hyp ▸ h.flight.send hhas hbusy hdest) fun o _ _ hsome => ?_
          obtain ⟨g, hg⟩ := Hypervisors.somewhere_iff.mp hsome
          rw [hyp]
          exact Hypervisors.somewhere_of_has (Hypervisors.has_send.mpr (.inl hg))
    · cases hx
  · exact h.of_eq hvms ((answer_frame hx).hypervisors fun host q hr => hq ⟨host, q, hr⟩)

theorem Sourced.happen {e : WorldEvent} (h : s.Sourced) (ha : sourced s (.world e))
    (he : s.happen e = some t) : t.Sourced := by
  rcases happen_vms he with hvms | ⟨k, labels, annotations, spec, rfl, hn, hvms⟩ |
    ⟨old, n, htouch, hc⟩
  · cases e with
    | migrationCompletes m =>
      simp only [World.happen] at he
      split at he <;> cases he
      next hm =>
      exact h.of_vms hvms (h.flight.complete hm) fun _ _ _ => h.flight.somewhere_complete hm
    | migrationAborts m =>
      simp only [World.happen] at he
      split at he <;> cases he
      next hm =>
      exact h.of_vms hvms (h.flight.abort hm) fun _ _ _ => h.flight.somewhere_abort hm
    | domainStops host d =>
      simp only [World.happen] at he
      split at he <;> cases he
      refine h.of_vms hvms h.flight.stop fun o ho hp hsome => ?_
      refine Hypervisors.somewhere_stop hsome fun hname => ?_
      rw [ha o ho hname] at hp
      cases hp
    | create κ k labels annotations spec =>
      obtain ⟨c, -, rfl⟩ := Option.map_eq_some_iff.mp he
      exact h.of_eq hvms rfl
    | edit κ k labels annotations spec =>
      obtain ⟨c, -, rfl⟩ := Option.map_eq_some_iff.mp he
      exact h.of_eq hvms rfl
    | delete κ k time =>
      obtain ⟨c, -, rfl⟩ := Option.map_eq_some_iff.mp he
      exact h.of_eq hvms rfl
    | assignAddress port address =>
      cases he
      exact h.of_eq hvms rfl
    | setNodeStatus k status =>
      simp only [World.happen] at he
      split at he <;> cases he
      exact h.of_eq hvms rfl
    | storeImage pool image =>
      simp only [World.happen] at he
      split at he <;> cases he
      exact h.of_eq hvms rfl
  · obtain ⟨c, -, rfl⟩ := Option.map_eq_some_iff.mp he
    refine Sourced.create (o := { metadata := ⟨k.ns, k.name, 0, 0, labels, annotations, [], none⟩
                                  spec := spec, status := none }) h hn rfl ha hvms rfl
  · refine h.write htouch.follows hc (hypervisors_of_changes he hc) fun hp => .inl ?_
    unfold pending at hp ⊢
    rw [← htouch.status]
    exact hp

/-- A write of a worker, if the scheduler moves on request only a VM that has a domain. -/
theorem Sourced.wrote {writer : Writer} (h : s.Sourced) (hwrote : Wrote w writer s t)
    (hyp : t.hypervisors = s.hypervisors)
    (hs : writer = .schedulingAndMigrations → ∀ o ∈ s.vms.objects, o.key = w.key →
      o.version = s.seen w → migrationRequested o = true →
        s.hypervisors.somewhere (namePrefixedWithNamespace o.key) = true) : t.Sourced := by
  rcases hwrote with hvms | ⟨old, n, hk, hc, heff⟩
  · exact h.of_eq hvms hyp
  · refine h.write (follows_of_effect hk heff) hc hyp fun hp => ?_
    rcases pending_of_effect heff hp with hpo | ⟨hwr, rfl, hseen, hd, hm⟩
    · exact .inl hpo
    · exact .inr ⟨hd, hs hwr old (stored_of_changes hc) rfl hseen.symm hm⟩

theorem sourced_initial : World.initial.Sourced := by
  have hlog : ∀ v, v ∉ World.initial.vms.history := fun v hv => nomatch hv
  have hobj : ∀ o, o ∉ World.initial.vms.objects := fun o ho => nomatch ho
  have hmig : ∀ m, m ∉ World.initial.hypervisors.migrations := fun m hm => nomatch hm
  exact {
    toHistory := history_initial
    flight := {
      source := fun m hm => absurd hm (hmig m)
      destination := fun m hm => absurd hm (hmig m)
      apart := fun m hm => absurd hm (hmig m)
      disjoint := fun m hm => absurd hm (hmig m) }
    ended := fun v hv => absurd hv (hlog v)
    migrations := fun o ho => absurd ho (hobj o) }

end World

section Runs

variable [Crates]

/-- A step that is allowed keeps the sources, if its request keeps its guarantee. -/
theorem sourced_step {c d : ClusterConfig} {e : ClusterEvent} (h : c.state.Sourced)
    (hg : ∀ w r x, e = .call w r x → Guarantee w c.state r d.state)
    (ha : sourced c.state e) (hs : cluster.Step c e d) : d.state.Sourced := by
  cases hs with
  | @call w r k x a t hw hx =>
    have hg : Guarantee w c.state r t := hg w r x rfl
    cases hwr : r.writerOfVm with
    | none =>
      refine h.other hwr ?_ hx
      rintro host d rfl o ho hname
      exact h.not_pending_of_destroy hg ho hname (ha o ho)
    | some writer =>
      have hyp : t.hypervisors = c.state.hypervisors := by
        refine (World.answer_frame hx).hypervisors ?_
        rintro host q rfl
        cases hwr
      refine h.wrote (hg.wrote hwr) hyp fun hwriter => ?_
      subst hwriter
      unfold Request.writerOfVm at hwr
      split at hwr <;> cases hwr
      · exact ha rfl
      · exact ha rfl
  | @start w i p t hw hl =>
    obtain ⟨o, -, -, -, -, rfl⟩ := World.launch_some hl
    exact h.of_eq rfl rfl
  | @stop w p hw => exact h.of_eq (World.release_vms w _) (World.release_hypervisors w _)
  | @world e t ht => exact h.happen ha ht

theorem sourced_of_run {c : ClusterConfig}
    (hr : cluster.Run sourced ⟨World.initial, fun _ => none⟩ c) : c.state.Sourced := by
  induction hr with
  | refl => exact World.sourced_initial
  | @tail c d e hr ha hs ih =>
    refine sourced_step ih ?_ ha hs
    rintro w r x rfl
    exact guarantee_of_run (hr.mono fun _ _ _ => trivial) hs

/-- In every run of such steps, a VM with a pending migration has a domain on some host. -/
theorem migration_has_source {c : ClusterConfig}
    (hr : cluster.Run sourced ⟨World.initial, fun _ => none⟩ c) : c.state.MigrationsSourced :=
  (sourced_of_run hr).migrations

end Runs

attribute [local instance] plainCrates

theorem migration_has_source_home : ∃ c : ClusterConfig,
    c.state.vms.objects.any pending = true ∧ c.state.MigrationsSourced := by
  obtain ⟨c, hr, hc⟩ := Interaction.Machine.play_reaches (M := cluster) sourced
    ⟨World.initial, fun _ => none⟩ (homeScript ++ leaveScript 5)
    (fun c => c.state.vms.objects.any pending) (by decide +kernel)
  exact ⟨c, hc, migration_has_source hr⟩

/-- The node `a` has not started `x` yet. -/
theorem no_source : ∃ c : ClusterConfig,
    cluster.Run (fun s e => sourced s e ∨ placesVm e = true) ⟨World.initial, fun _ => none⟩ c ∧
      ¬ c.state.MigrationsSourced := by
  obtain ⟨c, hr, hc⟩ := Interaction.Machine.play_reaches (M := cluster)
    (fun s e => sourced s e ∨ placesVm e = true) ⟨World.initial, fun _ => none⟩
    (placedScript ++ leaveScript 4)
    (fun c => c.state.vms.objects.any pending && c.state.hypervisors.domains.isEmpty)
    (by decide +kernel)
  simp only [Bool.and_eq_true, List.any_eq_true, List.isEmpty_iff] at hc
  obtain ⟨⟨o, ho, hp⟩, hnone⟩ := hc
  refine ⟨c, hr, fun h => ?_⟩
  have hs : c.state.hypervisors.somewhere (namePrefixedWithNamespace o.key) = true := h o ho hp
  unfold Hypervisors.somewhere at hs
  rw [hnone] at hs
  cases hs

end ClusterController
