import ClusterController.Handover
import ClusterController.Reconciles

/-!
# A single instance, and no orphan

A host may create a domain of a virtual machine while another host has one, and it may
give up the finalizer while another host has one. Each time one of these has happened
before:

* the scheduler has moved a VM that runs, without a migration request (`bidden`),
* a host has taken a migration for finished while it was in flight,
* a host has taken a failed lookup for the absence of a domain,
* two VMs share one domain name.

In the runs without such steps (`careful`) everything stays in order (`Orderly`).
-/

namespace ClusterController

open ApiServer (StringMap Key KubeError Resource Collection)
open Interaction (Program Contract Terms Regime)
open Interaction.Program (Within)
open Interaction.Contract (wp_mono wp_bind wp_attempt wp_weaken)

/-- The steps that leave a domain in order.

* Hosts see the versions of a VM in the order in which they were made.
* No VM is created whose domain name another VM has had.
* Nobody asks whether a domain is active while a migration of it is in flight.
* A lookup for a deleted VM fails only if the host has no such domain.
* The scheduler moves no VM unbidden. -/
def careful (s : World) : ClusterEvent → Prop
  | .start (.host host k) version => s.cache host k ≤ version
  | .world (.create .virtualMachine k _ _ _) => ∀ v ∈ s.vms.history,
      namePrefixedWithNamespace v.key = namePrefixedWithNamespace k → v.key = k
  | .call _ (.libvirt _ (.isActive d)) _ => ∀ m ∈ s.hypervisors.migrations, m.domain ≠ d
  | .call w (.libvirt host (.lookupByName d)) x => s.hypervisors.has host d = true →
      (∃ v ∈ s.vms.history, v.key = w.key ∧ v.version = s.seen w ∧ v.isDeleted = true) →
      x.delivery = .served
  | .call w r _ => r.writerOfVm = some .schedulingAndMigrations →
      ∀ o ∈ s.vms.objects, o.key = w.key → o.version = s.seen w → bidden o = true
  | _ => True

instance : ∀ s e, Decidable (careful s e) := by
  intro s e
  rcases e with ⟨w, r, x⟩ | ⟨w, version⟩ | _ | e
  · have unbidden (r : Request) : Decidable (r.writerOfVm = some .schedulingAndMigrations →
        ∀ o ∈ s.vms.objects, o.key = w.key → o.version = s.seen w → bidden o = true) := inferInstance
    rcases r with _ | _ | _ | _ | _ | _ | ⟨host, q⟩ | _ | _ | _ | _
    any_goals exact unbidden _
    rcases q with _ | d | d | _ | _ | _ | _
    any_goals exact unbidden _
    · exact inferInstanceAs (Decidable (s.hypervisors.has host d = true →
        (∃ v ∈ s.vms.history, v.key = w.key ∧ v.version = s.seen w ∧ v.isDeleted = true) →
        x.delivery = .served))
    · exact inferInstanceAs (Decidable (∀ m ∈ s.hypervisors.migrations, m.domain ≠ d))
  · rcases w with _ | _ | _ | _ | _ | _ | _ | ⟨host, k⟩
    all_goals try exact .isTrue trivial
    exact inferInstanceAs (Decidable (s.cache host k ≤ version))
  · exact .isTrue trivial
  · rcases e with ⟨κ, k⟩ | _ | _ | _ | _ | _ | _ | _ | _
    all_goals try exact .isTrue trivial
    rcases κ with _ | _ | _ | _ | _ | _ | _ | _
    all_goals try exact .isTrue trivial
    exact inferInstanceAs (Decidable (∀ v ∈ s.vms.history,
      namePrefixedWithNamespace v.key = namePrefixedWithNamespace k → v.key = k))

/-! ## What hosts rely on -/

namespace World

variable {s t : World} {w : Worker} {host g : String} {v x : VirtualMachine}

/-- What a host has made sure of, and nobody else undoes. -/
def HostKeeps (w : Worker) (s t : World) : Prop :=
  ∀ host v, w = .host host v.key → v ∈ s.vms.history → s.seen w = v.version →
    (Settled v host → s.Gone v → t.Gone v) ∧ (s.Arrived host v → t.Arrived host v)

theorem HostKeeps.refl (w : Worker) (s : World) : HostKeeps w s s :=
  fun _ _ _ _ _ => ⟨fun _ h => h, fun h => h⟩

theorem HostKeeps.trans {u : World} (h : HostKeeps w s t) (h' : HostKeeps w t u)
    (hk : Keeps w s t) : HostKeeps w s u := by
  intro host v hw hv hs
  obtain ⟨hg, ha⟩ := h host v hw hv hs
  obtain ⟨hg', ha'⟩ := h' host v hw (hk.1 .virtualMachine v hv) (hk.2.trans hs)
  exact ⟨fun hset hgone => hg' hset (hg hset hgone), fun harr => ha' (ha harr)⟩

/-- Domains go, migrations end, and hosts see newer versions. -/
theorem HostKeeps.shrink (hvms : t.vms = s.vms) (hyp : s.hypervisors.Shrinks t.hypervisors)
    (hseen : ∀ host k, s.cache host k ≤ t.cache host k) : HostKeeps w s t := by
  intro host v _ _ _
  have hnew : t.Newest v → s.Newest v := by
    unfold Newest
    rw [hvms]
    exact id
  refine ⟨fun _ hgone hn hocc => hgone (hnew hn) (hocc.of_shrink hyp), fun harr hn => ?_⟩
  obtain ⟨honly, hnone⟩ := harr (hnew hn)
  exact ⟨honly.shrink hyp, fun g x hx => hnone g x (hx.of_look hvms hseen)⟩

/-- A virtual machine gets a new version. -/
theorem HostKeeps.append {n : VirtualMachine} (hlog : t.vms.history = n :: s.vms.history)
    (hlt : ∀ v ∈ s.vms.history, v.version < n.version) (hseen : t.seen = s.seen)
    (hyp : t.hypervisors = s.hypervisors) : HostKeeps w s t := by
  intro host v _ hv _
  have hmem : ∀ x, x ∈ t.vms.history ↔ x = n ∨ x ∈ s.vms.history := by
    intro x
    rw [hlog]
    exact List.mem_cons
  have hnew : t.Newest v → s.Newest v := fun hn x hx => hn x ((hmem x).mpr (.inr hx))
  constructor
  · intro _ hgone hn
    rw [hyp]
    exact hgone (hnew hn)
  · intro harr hn
    obtain ⟨honly, hnone⟩ := harr (hnew hn)
    refine ⟨hyp ▸ honly, fun g x hx hxv => ?_⟩
    rcases (hmem x).mp hx.logged with rfl | hl
    · exact absurd (hn _ ((hmem _).mpr (.inl rfl)) hxv.key) (Nat.not_le.mpr (hlt v hv))
    · refine hnone g x ⟨hl, hx.settled, ?_⟩ hxv
      have hc : t.cache g x.key ≤ x.version := hx.seen
      unfold cache at hc ⊢
      rwa [hseen] at hc

/-- Another worker creates a domain. -/
theorem HostKeeps.start {w' : Worker} {template : DomainTemplate} (h : s.Orderly) (hne : w ≠ w')
    (hm : MayCreate w' s g template.name) (hvms : t.vms = s.vms) (hseen : t.seen = s.seen)
    (hyp : t.hypervisors = s.hypervisors.start g template) : HostKeeps w s t := by
  intro host v hw hv hver
  obtain ⟨o, ho, x, hx', hact, hxo, -, -, -, hname, -⟩ := h.mayCreate hm
  have hnew : t.Newest v → s.Newest v := by
    unfold Newest
    rw [hvms]
    exact id
  -- If the new domain is that of `v`, and `v` is the newest, then `x` is a version of `v`.
  have hsame : s.Newest v → template.name = namePrefixedWithNamespace v.key → Same x v := by
    intro hn hd
    have hk : o.key = v.key :=
      h.placements.distinct o (stored_logged ho) v hv (hname.symm.trans hd)
    exact hn.eq_stored hv ho hk ▸ hxo
  have hcache : ∀ host k, t.cache host k = s.cache host k := fun host k =>
    congrFun hseen (.host host k)
  constructor
  · intro hset hgone hn hocc
    rw [hyp] at hocc
    rcases hocc.of_start with hd | hocc
    · have hxv : Same x v := hsame (hnew hn) hd
      have hactv : s.Acts host v := by
        refine ⟨hv, hset, Nat.le_of_eq ?_⟩
        rw [hw] at hver
        exact hver
      obtain rfl : g = host := h.placements.unique g x host v hact hactv hxv
      exact hne (hw.trans ((congrArg (Worker.host g) hxv.key).symm.trans hx'.symm))
    · exact hgone (hnew hn) hocc
  · intro harr hn
    obtain ⟨honly, hnone⟩ := harr (hnew hn)
    refine ⟨?_, fun g' y hy => hnone g' y ⟨hvms ▸ hy.logged, hy.settled, hcache g' y.key ▸ hy.seen⟩⟩
    rw [hyp]
    exact honly.start fun hd => absurd (hsame (hnew hn) hd) (hnone g x hact)

/-- Another worker sends a domain away. -/
theorem HostKeeps.send {w' : Worker} {name destination : String} (h : s.Orderly) (hne : w ≠ w')
    (hm : MaySend w' s g name destination) (hhas : s.hypervisors.has g name = true)
    (hvms : t.vms = s.vms) (hseen : t.seen = s.seen)
    (hyp : t.hypervisors = s.hypervisors.send g destination name) : HostKeeps w s t := by
  intro host v hw hv _
  obtain ⟨x, hx, -, -⟩ := hm
  have hnew : t.Newest v → s.Newest v := by
    unfold Newest
    rw [hvms]
    exact id
  have hcache : ∀ host k, t.cache host k = s.cache host k := fun host k =>
    congrFun hseen (.host host k)
  constructor
  · intro _ hgone hn hocc
    rw [hyp] at hocc
    exact hgone (hnew hn) (hocc.of_send hhas)
  · intro harr hn
    obtain ⟨honly, hnone⟩ := harr (hnew hn)
    refine ⟨?_, fun g' y hy => hnone g' y ⟨hvms ▸ hy.logged, hy.settled, hcache g' y.key ▸ hy.seen⟩⟩
    rw [hyp]
    refine honly.send fun hd => ?_
    obtain rfl : g = host := honly.2 g (hd ▸ hhas)
    have hk : x.key = v.key := by
      refine h.placements.distinct x hx.logged v hv ?_
      rw [← h.works_name hx]
      exact hd
    exact hne (hw.trans ((congrArg (Worker.host g) hk).symm.trans hx.worker.symm))

end World

/-! ## Terms -/

/-- Before these two writes the host has made sure of something. -/
def Made (w : Worker) (s : World) (r : Request) (t : World) : Prop :=
  ∀ old new host, s.vms.Changes t.vms old new → w = .host host old.key →
    (r.writerOfVm = some .handleInboundMigration → s.Arrived host old) ∧
    (r.writerOfVm = some (.removeFinalizer Host.finalizer) → s.Gone old)

def handoverTerms : Terms Worker Request World where
  inv := World.Orderly
  rely := fun w s t => Keeps w s t ∧ World.HostKeeps w s t
  guar := fun w s r t => Guarantee w s r t ∧ Made w s r t

section Steps

variable {w : Worker} {s t : World}

theorem handover_rely_refl (w : Worker) (s : World) : handoverTerms.rely w s s :=
  ⟨.refl w s, .refl w s⟩

theorem handover_rely_trans {u : World} (h : handoverTerms.rely w s t)
    (h' : handoverTerms.rely w t u) : handoverTerms.rely w s u :=
  ⟨h.1.trans h'.1, h.2.trans h'.2 h.1⟩

/-- A write of a virtual machine by a worker. -/
theorem handover_write {r : Request} {x : Choice} {a : r.Answer} {writer : Writer}
    (hi : s.Orderly) (hx : World.answer w s r x = some (a, t)) (hr : r.writerOfVm = some writer)
    (ha : careful s (.call w r x)) (hg : handoverTerms.guar w s r t) :
    t.Orderly ∧ ∀ v, v ≠ w → handoverTerms.rely v s t := by
  have hkube : ∀ host q, r ≠ .libvirt host q := by
    rintro host q rfl
    cases hr
  have hyp : t.hypervisors = s.hypervisors := (World.answer_frame hx).hypervisors hkube
  have hseen : t.seen = s.seen := (World.answer_frame hx).seen
  have hkeep : ∀ v, Keeps v s t := keeps_of_answer hx
  rcases hg.1.wrote hr with hvms | ⟨old, n, hk, hc, he⟩
  · have hshrink : s.hypervisors.Shrinks t.hypervisors := hyp ▸ .refl _
    have hcache : ∀ host k, s.cache host k = t.cache host k := fun host k =>
      (congrFun hseen (.host host k)).symm
    exact ⟨hi.shrink hvms hshrink (fun host k => Nat.le_of_eq (hcache host k)) fun host k =>
      .inl (hcache host k).symm, fun v _ =>
        ⟨hkeep v, .shrink hvms hshrink fun host k => Nat.le_of_eq (hcache host k)⟩⟩
  · have hadv : s.Advance old n := by
      refine World.advance_of_effect hk he ?_ ?_ ?_
      · rintro rfl
        have hold : old ∈ s.vms.objects := World.stored_of_changes hc
        have hcond : r.writerOfVm = some .schedulingAndMigrations →
            ∀ o ∈ s.vms.objects, o.key = w.key → o.version = s.seen w → bidden o = true := by
          unfold careful at ha
          split at ha
          · next h => cases h
          · next h => cases h
          · next h => cases h; cases hr
          · next h => cases h; cases hr
          · next h => cases h; exact ha
          · next h₁ h₂ h₃ => exact absurd rfl (h₃ _ _ _)
        exact hcond hr old hold (by rw [he.1]; rfl) he.2.1.symm
      · rintro rfl host hw
        exact (hg.2 old _ host hc hw).1 hr
      · rintro rfl host hw
        exact (hg.2 old _ host hc hw).2 hr
    exact ⟨hi.advance hadv hc hseen hyp, fun v _ => ⟨hkeep v,
      .append hc.history_eq (fun _ hv => hc.version_lt hv) hseen hyp⟩⟩

/-- Any other request of a worker. -/
theorem handover_other {r : Request} {x : Choice} {a : r.Answer} (hi : s.Orderly)
    (hx : World.answer w s r x = some (a, t)) (hr : r.writerOfVm = none)
    (hg : handoverTerms.guar w s r t) :
    t.Orderly ∧ ∀ v, v ≠ w → handoverTerms.rely v s t := by
  have hvms : t.vms = s.vms := World.answer_vms hr hx
  have hseen : t.seen = s.seen := (World.answer_frame hx).seen
  have hkeep : ∀ v, Keeps v s t := keeps_of_answer hx
  have hcache : ∀ host k, s.cache host k = t.cache host k := fun host k =>
    (congrFun hseen (.host host k)).symm
  rcases World.answer_hypervisors hx with hyp | ⟨host, template, rfl, hyp⟩ |
    ⟨host, d, destination, rfl, hhas, hbusy, hyp⟩
  · exact ⟨hi.shrink hvms hyp (fun host k => Nat.le_of_eq (hcache host k)) fun host k =>
      .inl (hcache host k).symm, fun v _ =>
        ⟨hkeep v, .shrink hvms hyp fun host k => Nat.le_of_eq (hcache host k)⟩⟩
  · exact ⟨hi.start hg.1 hvms hseen hyp, fun v hv =>
      ⟨hkeep v, .start hi hv hg.1 hvms hseen hyp⟩⟩
  · exact ⟨hi.send hg.1 hhas hbusy hvms hseen hyp, fun v hv =>
      ⟨hkeep v, .send hi hv hg.1 hhas hvms hseen hyp⟩⟩

theorem handover_happen {e : WorldEvent} (hi : s.Orderly) (ha : careful s (.world e))
    (h : s.happen e = some t) : t.Orderly ∧ ∀ v, handoverTerms.rely v s t := by
  have hseen : t.seen = s.seen := World.seen_happen h
  have hkeep : ∀ v, Keeps v s t := fun v => ⟨World.grows_happen h, congrFun hseen v⟩
  have hcache : ∀ host k, s.cache host k = t.cache host k := fun host k =>
    (congrFun hseen (.host host k)).symm
  rcases World.happen_vms h with hvms | ⟨k, labels, annotations, spec, rfl, hk, hvms⟩ |
    ⟨old, n, ht, hc⟩
  · have hyp : s.hypervisors.Shrinks t.hypervisors := World.happen_hypervisors h
    exact ⟨hi.shrink hvms hyp (fun host k => Nat.le_of_eq (hcache host k)) fun host k =>
      .inl (hcache host k).symm, fun v =>
        ⟨hkeep v, .shrink hvms hyp fun host k => Nat.le_of_eq (hcache host k)⟩⟩
  · obtain ⟨c, -, rfl⟩ := Option.map_eq_some_iff.mp h
    refine ⟨hi.create (o := ⟨⟨k.ns, k.name, 0, 0, labels, annotations, [], none⟩, spec, none⟩)
      hk rfl rfl ha hvms rfl rfl, fun v => ⟨hkeep v, ?_⟩⟩
    refine .append (n := s.vms.stamp _) (by rw [hvms]; rfl) (fun x hx => ?_) rfl rfl
    have hle := (s.vms.logged_le x hx).2
    rw [Collection.version_stamp]
    omega
  · have hyp : t.hypervisors = s.hypervisors := World.hypervisors_of_changes h hc
    exact ⟨hi.advance ht.advance hc hseen hyp, fun v => ⟨hkeep v,
      .append hc.history_eq (fun _ hv => hc.version_lt hv) hseen hyp⟩⟩

end Steps

/-! ## Programs that need not make sure of anything -/

/-- The request is neither of the two writes that hosts have to prepare. -/
def Plain (r : Request) : Prop :=
  r.writerOfVm ≠ some .handleInboundMigration ∧
    r.writerOfVm ≠ some (.removeFinalizer Host.finalizer)

theorem made_of_plain {w : Worker} {s t : World} {r : Request} (h : Plain r) : Made w s r t :=
  fun _ _ _ _ _ => ⟨fun hr => absurd hr h.1, fun hr => absurd hr h.2⟩

theorem plain_of_none {r : Request} (h : r.writerOfVm = none) : Plain r := by
  unfold Plain
  rw [h]
  exact ⟨nofun, nofun⟩

theorem IsQuiet.plain {α : Type} {p : Prog α} {done : α → Prop} (h : p.Within Quiet done) :
    p.Within Plain done :=
  h.mono (fun _ hr => plain_of_none (writerOfVm_of_quiet hr)) fun _ h => h

section Plain

variable {vm : VirtualMachine}

theorem plain_libvirtCall (host : String) (r : LibvirtRequest) :
    (libvirtCall host r).Within Plain fun _ => True := by
  refine ⟨plain_of_none rfl, fun a => ?_⟩
  cases a <;> trivial

theorem plain_commit {writer : Writer} (h₁ : writer ≠ .handleInboundMigration)
    (h₂ : writer ≠ .removeFinalizer Host.finalizer) :
    (commit vm writer).Within Plain fun _ => True := by
  refine ⟨⟨fun h => h₁ (Option.some.inj h), fun h => h₂ (Option.some.inj h)⟩, fun a => ?_⟩
  cases a <;> trivial

theorem plain_setStatus {st : VirtualMachineStatus} {writer : Writer}
    (h₁ : writer ≠ .handleInboundMigration) (h₂ : writer ≠ .removeFinalizer Host.finalizer) :
    (setStatus vm st writer).Within Plain fun _ => True := by
  refine ⟨⟨fun h => h₁ (Option.some.inj h), fun h => h₂ (Option.some.inj h)⟩, fun a => ?_⟩
  cases a <;> trivial

theorem plain_ensureFinalizer (f : String) :
    (ensureFinalizer vm f).Within Plain fun _ => True := by
  unfold ensureFinalizer
  split
  · exact Within.bind (plain_commit nofun nofun) fun _ _ => trivial
  · trivial

theorem plain_createDomain (host : String) (cluster : Cluster) :
    (Host.createDomain host vm cluster).Within Plain fun _ => True := by
  refine Within.bind (IsQuiet.plain (Host.quiet_storageTemplates _ _ _)) fun volumes _ => ?_
  refine Within.bind (IsQuiet.plain (Host.quiet_volumesLocked _)) fun locked _ => ?_
  split
  · trivial
  · refine Within.bind (IsQuiet.plain (Host.domainTemplate_name _ _ _ _)) fun template _ => ?_
    exact plain_libvirtCall host _

theorem plain_handleAdd (host : String) :
    (Host.handleAdd host vm).Within Plain fun _ => True := by
  refine Within.bind (IsQuiet.plain (Host.quiet_ensureVniMapping _ _)) fun _ _ => ?_
  refine Within.bind (IsQuiet.plain (quiet_expect _ _)) fun _ _ => ?_
  refine Within.bind (plain_ensureFinalizer _) fun n _ => ?_
  split
  · trivial
  · refine Within.bind (IsQuiet.plain Host.quiet_getCluster) fun cluster _ => ?_
    refine Within.bind (plain_createDomain host cluster) fun _ _ => ?_
    refine Within.bind (IsQuiet.plain (quiet_expect _ _)) fun st _ => ?_
    exact plain_setStatus nofun nofun

theorem plain_handleOutboundMigration (host : String) :
    (Host.handleOutboundMigration host vm).Within Plain fun _ => True := by
  refine Within.bind (IsQuiet.plain (quiet_expect _ _)) fun name _ => ?_
  refine Within.bind (IsQuiet.plain (Host.quiet_lookupByName _ _).attempt) fun r _ => ?_
  split
  · trivial
  · refine Within.bind (IsQuiet.plain (quiet_ofExcept _)) fun st _ => ?_
    refine Within.bind (IsQuiet.plain (quiet_expect _ _)) fun destination _ => ?_
    exact Within.bind (plain_libvirtCall host _) fun _ _ => plain_libvirtCall host _

end Plain

section Snapshots

variable {w : Worker} {s t : World} {vm : VirtualMachine} {host name : String}
  (hs : Snapshot w s vm) (hw : w = .host host vm.key)
include hs hw

/-- A write for which the host has made sure of what it takes for granted about its copy. -/
theorem made_of_snapshot {r : Request} {writer : Writer} (hr : r.writerOfVm = some writer)
    (hwrote : Wrote w writer s t)
    (harr : writer = .handleInboundMigration → s.Arrived host vm)
    (hgone : writer = .removeFinalizer Host.finalizer → s.Gone vm) : Made w s r t := by
  intro old new host' hc hw'
  have hhost : host' = host := by
    rw [hw] at hw'
    exact (Worker.host.inj hw').1.symm
  -- Both writes are made from the version that the host has seen.
  have hself : ∀ n, Effect w s old n writer →
      (writer = .handleInboundMigration ∨ writer = .removeFinalizer Host.finalizer) → old = vm := by
    rintro n he hor
    have hver : s.seen w = old.version := by
      rcases hor with rfl | rfl
      · obtain ⟨_, _, _, _, hv, _⟩ := he
        exact hv
      · obtain ⟨-, ⟨-, hf⟩ | ⟨_, _, _, _, _, hv⟩⟩ := he
        · exact absurd hf (by decide)
        · exact hv
    exact s.vms.logged_unique old hc.old_logged vm hs.logged (hver.symm.trans hs.seen)
  rcases hwrote with hvms | ⟨old', n, -, hc', he⟩
  · exact absurd hvms hc.ne
  · obtain ⟨rfl, -⟩ := hc.unique hc'
    constructor
    · intro hr'
      have hwr : writer = .handleInboundMigration := Option.some.inj (hr.symm.trans hr')
      rw [hself n he (.inl hwr), hhost]
      exact harr hwr
    · intro hr'
      have hwr : writer = .removeFinalizer Host.finalizer := Option.some.inj (hr.symm.trans hr')
      rw [hself n he (.inr hwr)]
      exact hgone hwr

/-- A domain that its only host loses is gone. -/
theorem gone_of_lost (hi : s.Orderly) (hn : Host.getDomainName vm = some name)
    (hset : Settled vm host) (hvms : t.vms = s.vms) (hyp : s.hypervisors.Shrinks t.hypervisors)
    (hlost : t.hypervisors.has host name ≠ true) : t.Gone vm := by
  have hname : name = namePrefixedWithNamespace vm.key := hi.works_name (Host.works hs hw hn)
  intro hnew hocc
  obtain ⟨o, ho, hon, -, -⟩ := hi.residence.owned _ (hocc.of_shrink hyp)
  have hk : o.key = vm.key := hi.placements.distinct o (World.stored_logged ho) vm hs.logged hon
  have hnew' : s.Newest vm := by
    unfold World.Newest at hnew ⊢
    rwa [hvms] at hnew
  obtain rfl : o = vm := hnew'.eq_stored hs.logged ho hk
  have hcache : s.cache host o.key = o.version := by
    have hseen := hs.seen
    rw [hw] at hseen
    exact hseen
  have honly : s.hypervisors.OnlyAt (namePrefixedWithNamespace o.key) host :=
    hi.residence.only o ho host o ⟨hs.logged, hset, Nat.le_of_eq hcache⟩ (.refl o)
  exact (honly.shrink hyp).vacant (hname ▸ hlost) hocc

/-- A domain that is active on a host while no migration of it is in flight has arrived. -/
theorem arrived_of_active (hi : s.Orderly) (hn : Host.getDomainName vm = some name)
    (haw : Awaited vm host) (hhas : s.hypervisors.has host name = true)
    (hnone : ∀ m ∈ s.hypervisors.migrations, m.domain ≠ name) : s.Arrived host vm := by
  have hname : name = namePrefixedWithNamespace vm.key := hi.works_name (Host.works hs hw hn)
  intro hnew
  rw [hname] at hhas hnone
  constructor
  · rcases hi.residence.single (namePrefixedWithNamespace vm.key) with ⟨g, hg⟩ | ⟨m, hm, hd, -⟩
    · obtain rfl : host = g := hg.2 host hhas
      exact hg
    · exact absurd hd (hnone m hm)
  · intro g x hx hxv
    obtain ⟨o, ho, hon, -, -⟩ := hi.residence.owned _ (.inl ⟨host, hhas⟩)
    have hk : o.key = vm.key := hi.placements.distinct o (World.stored_logged ho) vm hs.logged hon
    obtain rfl : o = vm := hnew.eq_stored hs.logged ho hk
    obtain rfl : host = g := (hi.residence.only o ho g x hx hxv).2 host hhas
    -- The host has seen the version that waits for it, so it acts on no other.
    have hle : o.version ≤ x.version := by
      have hseen := hs.seen
      rw [hw] at hseen
      have hxs : s.cache host x.key ≤ x.version := hx.seen
      rw [hxv.key] at hxs
      exact hseen ▸ hxs
    have hge : x.version ≤ o.version := hnew x hx.logged hxv.key
    have hxo : x = o := s.vms.logged_unique x hx.logged o hs.logged (Nat.le_antisymm hge hle)
    exact hx.settled.not_awaited (hxo ▸ haw)

end Snapshots

section Workers

variable [Crates]

/-- The contract of one worker among others that leave the domains in order. -/
abbrev handoverAgreement (w : Worker) : Contract Request Request.Answer World :=
  handoverTerms.contract cluster careful w

variable {w : Worker} {s t : World} {vm : VirtualMachine} {host name : String}

/-- Plain programs keep these terms as they keep those of every worker. -/
theorem wp_plain {α : Type} {p : Prog α} {done : α → Prop} {post : Except Error α → World → Prop}
    (hp : p.Within Plain done) (h : (agreement w).wp p post s) :
    (handoverAgreement w).wp p post s := by
  have hrely : ∀ s t, (handoverAgreement w).rely s t → (agreement w).rely s t := fun _ _ hr => hr.1
  refine wp_weaken hp ?_ (fun _ _ => trivial) hrely ?_ h
  · rintro s r a t ⟨x, -, hx⟩
    exact ⟨x, trivial, hx⟩
  · exact fun s r a t hr _ _ hg => ⟨hg, made_of_plain hr⟩

/-- So does every worker that is not a host. -/
theorem wp_not_host {p : Prog Unit} {post : Except Error Unit → World → Prop}
    (hw : ∀ host k, w ≠ .host host k) (h : (agreement w).wp p post s) :
    (handoverAgreement w).wp p post s := by
  have hrely : ∀ s t, (handoverAgreement w).rely s t → (agreement w).rely s t := fun _ _ hr => hr.1
  refine wp_weaken p.within_any ?_ (fun _ _ => trivial) hrely ?_ h
  · rintro s r a t ⟨x, -, hx⟩
    exact ⟨x, trivial, hx⟩
  · exact fun s r a t _ _ _ hg => ⟨hg, fun old _ host _ hwh => absurd hwh (hw host old.key)⟩

/-! ## The hosts -/

section Handlers

variable (hs : Snapshot w s vm) (hw : w = .host host vm.key)
include hs hw

/-- While the host works from a deleted version, a lookup fails only if the domain is gone. -/
theorem wp_lookup_gone (hn : Host.getDomainName vm = some name) (hset : Settled vm host)
    (hd : vm.isDeleted = true) :
    (handoverAgreement w).wp (Host.lookupByName host name).attempt
      (fun x t => Keeps w s t ∧ ∀ e, x = .ok (.error e) → t.Gone vm) s := by
  refine wp_attempt (wp_answer fun s₁ x a t hr hi hcare hx => ?_)
  have hk : Keeps w s t := hr.1.trans (keeps_of_answer hx w)
  have hs₁ : Snapshot w s₁ vm := hs.keep hr.1
  refine ⟨⟨trivial, made_of_plain (plain_of_none rfl)⟩, ?_⟩
  have hd' : x.deliver none s₁ (if s₁.hypervisors.has host name then some () else none, s₁)
      = (a, t) := Option.some.inj hx
  cases a with
  | some u => exact ⟨hk, fun e he => nomatch he⟩
  | none =>
    have ht : t = s₁ := (Choice.deliver_state hd').elim id id
    subst ht
    refine ⟨hk, fun e _ => gone_of_lost hs₁ hw hi hn hset rfl (.refl _) fun hhas => ?_⟩
    have hserved : x.delivery = .served :=
      hcare hhas ⟨vm, hs₁.logged, hs₁.key, hs₁.seen.symm, hd⟩
    unfold Choice.deliver at hd'
    rw [hserved, if_pos hhas] at hd'
    cases hd'

/-- Once the domain has been destroyed or was not there, it is gone. -/
theorem wp_destroyDomain_gone (hn : Host.getDomainName vm = some name) (hset : Settled vm host)
    (hd : vm.isDeleted = true) :
    (handoverAgreement w).wp (Host.destroyDomain host name)
      (fun x t => Keeps w s t ∧ (x = .ok () → t.Gone vm)) s := by
  refine wp_bind (wp_mono (wp_lookup_gone hs hw hn hset hd) fun x t₁ hx => ?_)
  cases x with
  | error e => exact ⟨hx.1, nofun⟩
  | ok r =>
    cases r with
    | error e => exact ⟨hx.1, fun _ => hx.2 e rfl⟩
    | ok _ =>
      refine wp_answer fun s₂ x a t hr hi _ hx' => ?_
      have hk : Keeps w s s₂ := hx.1.trans hr.1
      have hkt : Keeps w s t := hk.trans (keeps_of_answer hx' w)
      have hs₂ : Snapshot w s₂ vm := hs.keep hk
      refine ⟨⟨⟨vm, Host.works hs₂ hw hn, hset, hd⟩, made_of_plain (plain_of_none rfl)⟩, ?_⟩
      cases a with
      | none => exact ⟨hkt, nofun⟩
      | some u =>
        refine ⟨hkt, fun _ => ?_⟩
        have hd' : x.deliver none s₂ (if s₂.hypervisors.has host name then
          (some (), { s₂ with hypervisors := s₂.hypervisors.stop host name }) else (none, s₂))
          = (some u, t) := Option.some.inj hx'
        split at hd'
        · rcases x.deliver_cases none s₂ (some (), { s₂ with
            hypervisors := s₂.hypervisors.stop host name }) with h | h | h <;>
            rw [h] at hd' <;> cases hd'
          exact gone_of_lost hs₂ hw hi hn hset rfl (Hypervisors.shrinks_stop _ host name)
            (Hypervisors.has_stop _ host name)
        · rcases x.deliver_cases none s₂ (none, s₂) with h | h | h <;> rw [h] at hd' <;> cases hd'

/-- The finalizer is removed only from a VM whose domain is gone. -/
theorem wp_removeFinalizer_gone (hset : Settled vm host) (hd : vm.isDeleted = true)
    (hgone : s.Gone vm) :
    (handoverAgreement w).wp (removeFinalizer vm Host.finalizer) (fun _ _ => True) s := by
  unfold removeFinalizer
  split
  · refine wp_bind (wp_answer fun s₁ x a t hr hi _ hx => ?_)
    have hs₁ : Snapshot w s₁ vm := hs.keep hr.1
    have hgone₁ : s₁.Gone vm := (hr.2 host vm hw hs.logged hs.seen).1 hset hgone
    have heff : Effect w s₁ vm (dropFinalizer vm (finalizerName Host.finalizer))
        (.removeFinalizer Host.finalizer) :=
      ⟨rfl, .inr ⟨host, hw, rfl, hset, hd, hs₁.seen⟩⟩
    obtain ⟨hwrote, -⟩ := replace_wrote hs₁.copy.tracks (amends_dropFinalizer vm _)
      (fun _ => heff) hx
    refine ⟨⟨hwrote, made_of_snapshot hs₁ hw rfl hwrote nofun fun _ => hgone₁⟩, ?_⟩
    cases a <;> trivial
  · trivial

theorem wp_handleDelete_gone (hset : Settled vm host) (hd : vm.isDeleted = true) :
    (handoverAgreement w).wp (Host.handleDelete host vm) (fun _ _ => True) s := by
  obtain ⟨name, hn⟩ := hset.scheduledTo.domainName
  refine wp_expect_bind hn ?_
  refine wp_bind (wp_mono (wp_destroyDomain_gone hs hw hn hset hd) fun x t hx => ?_)
  cases x with
  | error e => trivial
  | ok _ =>
    refine wp_bind (wp_mono (wp_removeFinalizer_gone (hs.keep hx.1) hw hset hd (hx.2 rfl))
      fun y u _ => ?_)
    cases y <;> trivial

/-- A migration is taken for finished only when the domain has arrived. -/
theorem wp_handleInboundMigration_arrived (haw : Awaited vm host) :
    (handoverAgreement w).wp (Host.handleInboundMigration host vm) (fun _ _ => True) s := by
  obtain ⟨name, hn⟩ := haw.scheduledTo.domainName
  have hquiet : ∀ {α : Type} {p : Prog α} (u : World), IsQuiet p →
      (handoverAgreement w).wp p (fun _ t => Keeps w u t) u := fun u hp =>
    wp_mono (wp_plain (IsQuiet.plain hp) (wp_quiet hp u)) fun _ _ hx => hx.1
  refine wp_bind (wp_mono (hquiet s (Host.quiet_ensureVniMapping _ _)) fun x t₁ h₁ => ?_)
  cases x with
  | error e => trivial
  | ok _ =>
    refine wp_expect_bind hn ?_
    refine wp_bind (wp_mono (hquiet t₁ (Host.quiet_hasDomain _ _)) fun x t₂ h₂ => ?_)
    cases x with
    | error e => trivial
    | ok has =>
      dsimp only
      split
      · trivial
      · refine wp_bind (wp_mono (hquiet t₂ (Host.quiet_lookupByName _ _).attempt)
          fun x t₃ h₃ => ?_)
        cases x with
        | error e => trivial
        | ok r =>
          cases r with
          | error e => trivial
          | ok _ =>
            refine wp_answer fun s₄ x a t₄ hr hi hcare hx => ?_
            have hs₄ : Snapshot w s₄ vm := hs.keep (h₁.trans (h₂.trans (h₃.trans hr.1)))
            refine ⟨⟨⟨vm, Host.works hs₄ hw hn, haw⟩, made_of_plain (plain_of_none rfl)⟩, ?_⟩
            have hd' : x.deliver none s₄ (if s₄.hypervisors.has host name then some true else none,
                s₄) = (a, t₄) := Option.some.inj hx
            have ht : t₄ = s₄ := (Choice.deliver_state hd').elim id id
            subst ht
            cases a with
            | none => trivial
            | some active =>
              have hhas : t₄.hypervisors.has host name = true := by
                by_contra hne
                rw [if_neg hne] at hd'
                rcases x.deliver_cases none t₄ ((none : Option Bool), t₄) with h | h | h <;>
                  rw [h] at hd' <;> cases hd'
              show (handoverAgreement w).wp (if (!active) = true then Program.ret ()
                else Program.ofExcept (tryStatus vm) >>= fun st =>
                  setStatus vm { st with migrationPending := false } .handleInboundMigration) _ t₄
              split
              · trivial
              · refine wp_tryStatus_bind (fun _ => trivial) fun st hst => ?_
                have harr : t₄.Arrived host vm := arrived_of_active hs₄ hw hi hn haw hhas hcare
                refine wp_answer fun s₅ x₅ a₅ t₅ hr₅ _ _ hx₅ => ?_
                have hs₅ : Snapshot w s₅ vm := hs₄.keep hr₅.1
                have harr₅ : s₅.Arrived host vm :=
                  (hr₅.2 host vm hw hs₄.logged hs₄.seen).2 harr
                have hwrote : Wrote w .handleInboundMigration s₅ t₅ :=
                  replaceStatus_wrote hs₅.copy.tracks
                    ⟨host, st, hw, haw, hs₅.seen, hst, rfl⟩ hx₅
                refine ⟨⟨hwrote, made_of_snapshot hs₅ hw rfl hwrote (fun _ => harr₅) nofun⟩, ?_⟩
                cases a₅ <;> trivial

theorem wp_reconcile_careful :
    (handoverAgreement w).wp (Host.reconcile host vm) (fun _ _ => True) s := by
  have hevent := Host.getEventType_means host vm
  refine wp_bind (wp_mono (wp_plain (IsQuiet.plain hevent) (wp_quiet hevent s)) fun x t hx => ?_)
  cases x with
  | error e => trivial
  | ok e =>
    have hs' : Snapshot w t vm := hs.keep hx.1
    have hmeans : e.Means host vm := hx.2 e rfl
    cases e with
    | deleted => exact wp_handleDelete_gone hs' hw hmeans.1 hmeans.2
    | added =>
      exact wp_mono (wp_plain (plain_handleAdd host) (Host.wp_handleAdd hs' hw hmeans.1 hmeans.2))
        fun _ _ _ => trivial
    | outboundMigration =>
      obtain ⟨destination, hsch, hne⟩ := hmeans
      exact wp_mono (wp_plain (plain_handleOutboundMigration host)
        (Host.wp_handleOutboundMigration hs' hw hsch hne)) fun _ _ _ => trivial
    | inboundMigration => exact wp_handleInboundMigration_arrived hs' hw hmeans
    | missingDomainName => trivial
    | unscheduled => trivial
    | noNode => trivial
    | notOurs => trivial
    | updated => trivial

end Handlers

/-! ## All workers together -/

theorem wp_launch_careful {n : Nat} {p : Prog Unit} (h : World.launch w s n = some (p, t)) :
    (handoverAgreement w).wp p (fun _ _ => True) t := by
  by_cases hw : ∃ host k, w = .host host k
  · obtain ⟨host, k, rfl⟩ := hw
    obtain ⟨o, ho, hk, hv, rfl, rfl⟩ := World.launch_some h
    refine wp_reconcile_careful ⟨ho, hk, ?_⟩ (congrArg (Worker.host host) hk.symm)
    rw [hv]
    exact Function.update_self _ _ _
  · exact wp_not_host (fun host k hk => hw ⟨host, k, hk⟩) (wp_launch h)

/-- A reconcile starts: its host sees the version that it starts from. -/
theorem handover_start {n : Nat} {p : Prog Unit} (hi : s.Orderly) (ha : careful s (.start w n))
    (h : World.launch w s n = some (p, t)) :
    t.Orderly ∧ ∀ v, v ≠ w → handoverTerms.rely v s t := by
  obtain ⟨o, ho, hk, hv, -, rfl⟩ := World.launch_some h
  have hother : ∀ host k, Worker.host host k ≠ w →
      Function.update s.seen w n (.host host k) = s.seen (.host host k) :=
    fun _ _ hne => Function.update_of_ne hne _ _
  have hself : Function.update s.seen w n w = n := Function.update_self _ _ _
  have hcache : ∀ host k, s.seen (.host host k) ≤ Function.update s.seen w n (.host host k) := by
    intro host k
    by_cases hwk : Worker.host host k = w
    · subst hwk
      rw [hself]
      exact ha
    · exact Nat.le_of_eq (hother host k hwk).symm
  refine ⟨hi.shrink rfl (.refl _) hcache fun host k => ?_, fun v hv' =>
    ⟨⟨.of_eq rfl, Function.update_of_ne hv' _ _⟩, .shrink rfl (.refl _) hcache⟩⟩
  by_cases hwk : Worker.host host k = w
  · subst hwk
    exact .inr ⟨o, ho, hk, hv.trans hself.symm⟩
  · exact .inl (hother host k hwk)

/-- All reconciles run together on these terms. -/
def handoverRegime : Regime cluster careful where
  toTerms := handoverTerms
  rely_refl := handover_rely_refl
  rely_trans := fun _ _ _ _ => handover_rely_trans
  call_keeps := by
    rintro w s r a t hi ⟨x, ha, hx⟩ hg
    cases hr : r.writerOfVm with
    | none => exact handover_other hi hx hr hg
    | some writer => exact handover_write hi hx hr ha hg
  start_keeps := by
    intro w s n p t hi ha hl
    obtain ⟨ht, hrely⟩ := handover_start hi ha hl
    exact ⟨ht, hrely, wp_launch_careful hl⟩
  stop_keeps := by
    intro w s hi _
    have hvms : (World.release w s).vms = s.vms := World.release_vms w s
    have hyp : s.hypervisors.Shrinks (World.release w s).hypervisors := by
      rw [World.release_hypervisors]
      exact .refl _
    have hseen : (World.release w s).seen = s.seen := World.seen_release w s
    have hcache : ∀ host k, s.cache host k = (World.release w s).cache host k := fun host k =>
      (congrFun hseen (.host host k)).symm
    exact ⟨hi.shrink hvms hyp (fun host k => Nat.le_of_eq (hcache host k)) fun host k =>
      .inl (hcache host k).symm, fun v _ => ⟨⟨World.grows_release w s, congrFun hseen v⟩,
        .shrink hvms hyp fun host k => Nat.le_of_eq (hcache host k)⟩⟩
  world_keeps := fun s e t hi ha ht => handover_happen hi ha ht

end Workers

theorem orderly_initial : World.initial.Orderly := by
  have hlog : ∀ v, v ∉ World.initial.vms.history := fun v hv => nomatch hv
  have hobj : ∀ o, o ∉ World.initial.vms.objects := fun o ho => nomatch ho
  have hacts : ∀ host v, ¬ World.initial.Acts host v := fun host v h => hlog v h.logged
  have hnone : ∀ d, ¬ World.initial.hypervisors.Occupied d := by
    rintro d (⟨g, hg⟩ | ⟨m, hm, -⟩)
    · cases hg
    · cases hm
  constructor
  · exact {
      toHistory := World.history_initial
      cached := fun _ _ => .inl rfl
      scheduled_mono := fun v hv => absurd hv (hlog v)
      guarded_mono := fun v hv => absurd hv (hlog v)
      steady := fun host v hv => absurd hv (hacts host v)
      unique := fun host v _ _ hv => absurd hv (hacts host v)
      kept := fun host v hv => absurd hv (hacts host v) }
  · exact {
      single := fun d => .inl ⟨"", .of_vacant (hnone d) _⟩
      owned := fun d h => absurd h (hnone d)
      only := fun o ho => absurd ho (hobj o)
      vacant := fun o ho => absurd ho (hobj o) }

/-! ## Results -/

namespace World

/-- Two hosts that have one domain are the ends of a migration of it in flight. -/
def SingleInstance (s : World) : Prop :=
  ∀ d g g', s.hypervisors.has g d = true → s.hypervisors.has g' d = true → g ≠ g' →
    ∃ m ∈ s.hypervisors.migrations, m.domain = d ∧
      ((g = m.source ∧ g' = m.destination) ∨ (g = m.destination ∧ g' = m.source))

/-- No host has the domain of a VM that is gone or that lacks the finalizer of the hosts. -/
def NoOrphan (s : World) : Prop :=
  ∀ v ∈ s.vms.history, (∀ o ∈ s.vms.objects, o.key = v.key → ¬ Guarded o) →
    ∀ host, s.hypervisors.has host (namePrefixedWithNamespace v.key) ≠ true

theorem Orderly.singleInstance {s : World} (h : s.Orderly) : s.SingleInstance := by
  intro d g g' hg hg' hne
  rcases h.residence.single d with ⟨host, honly⟩ | ⟨m, hm, hd, -, hends⟩
  · exact absurd ((honly.2 g hg).trans (honly.2 g' hg').symm) hne
  · refine ⟨m, hm, hd, ?_⟩
    rcases hends g hg with h | h <;> rcases hends g' hg' with h' | h'
    · exact absurd (h.trans h'.symm) hne
    · exact .inl ⟨h, h'⟩
    · exact .inr ⟨h, h'⟩
    · exact absurd (h.trans h'.symm) hne

theorem Orderly.noOrphan {s : World} (h : s.Orderly) : s.NoOrphan := by
  intro v hv hnone host hhas
  obtain ⟨o, ho, hname, hg, -⟩ := h.residence.owned _ (.inl ⟨host, hhas⟩)
  exact hnone o ho (h.placements.distinct o (stored_logged ho) v hv hname) hg

end World

section Runs

variable [Crates]

/-- Along careful runs all contracts are kept. -/
theorem careful_holds {c : ClusterConfig}
    (hr : cluster.Run careful ⟨World.initial, fun _ => none⟩ c) : handoverRegime.Holds c :=
  Regime.run_holds (Regime.holds_idle orderly_initial) hr

/-- In careful runs no VM has two instances, and whoever creates a domain is the only host
that can have it. -/
theorem single_instance {c : ClusterConfig}
    (hr : cluster.Run careful ⟨World.initial, fun _ => none⟩ c) :
    c.state.SingleInstance ∧
    ∀ w host template x d, cluster.Step c (.call w (.libvirt host (.createXml template)) x) d →
      ∀ g, c.state.hypervisors.has g template.name = true → g = host := by
  have hc : handoverRegime.Holds c := careful_holds hr
  have hi : c.state.Orderly := hc.1
  refine ⟨hi.singleInstance, fun w host template x d hs g hg => ?_⟩
  have hguar : handoverTerms.guar w c.state (.libvirt host (.createXml template)) d.state :=
    Regime.step_guar hc (fun h => nomatch h) hs
  obtain ⟨o, -, v, -, -, -, -, -, -, -, honly⟩ := hi.mayCreate hguar.1
  exact honly.2 g hg

/-- In careful runs no domain outlives the finalizer of its VM. -/
theorem no_orphan {c : ClusterConfig}
    (hr : cluster.Run careful ⟨World.initial, fun _ => none⟩ c) : c.state.NoOrphan :=
  (careful_holds hr).1.noOrphan

end Runs

/-! ## What goes wrong otherwise -/

attribute [local instance] plainCrates

/-- Another VM on `a` joins the group of `x`, and the scheduler moves `x` to the node `b`
without a pending migration. -/
def strayScript : List ClusterCommand :=
  homeScript ++ [.world (.create .virtualMachine ⟨"n", "y"⟩ [] [] plainSpec)] ++
  serveAll (.vm ⟨"n", "y"⟩) 5 1 ++ serveAll (.vm ⟨"n", "y"⟩) 6 7 ++
  [.world (.create .node ⟨"", "b"⟩ [] [] ()),
   .world (.edit .virtualMachine ⟨"n", "y"⟩ [(antiAffinityLabel, "g")] [] plainSpec)] ++
  serveAll (.vm ⟨"n", "x"⟩) 4 9

/-- The node `a` has sent `x` to `b`, and the migration is in flight. -/
theorem single_instance_home : ∃ c : ClusterConfig, c.state.hypervisors.has "a" "n-x" = true ∧
    c.state.hypervisors.has "b" "n-x" = true ∧ c.state.SingleInstance := by
  obtain ⟨c, hr, hc⟩ := Interaction.Machine.play_reaches (M := cluster) careful
    ⟨World.initial, fun _ => none⟩
    (homeScript ++ leaveScript 5 ++ [.stop (.vm ⟨"n", "x"⟩)] ++ serve (.host "a" ⟨"n", "x"⟩) 6 3)
    (fun c => c.state.hypervisors.has "a" "n-x" && c.state.hypervisors.has "b" "n-x") (by decide +kernel)
  simp only [Bool.and_eq_true] at hc
  exact ⟨c, hc.1, hc.2, (single_instance hr).1⟩

/-- The node `b` starts the VM that still runs on `a`. -/
theorem two_instances : ∃ c : ClusterConfig,
    cluster.Run (fun s e => careful s e ∨ placesVm e = true) ⟨World.initial, fun _ => none⟩ c ∧
      ¬ c.state.SingleInstance := by
  obtain ⟨c, hr, hc⟩ := Interaction.Machine.play_reaches (M := cluster)
    (fun s e => careful s e ∨ placesVm e = true) ⟨World.initial, fun _ => none⟩
    (strayScript ++ serve (.host "b" ⟨"n", "x"⟩) 9 4)
    (fun c => c.state.hypervisors.has "a" "n-x" && c.state.hypervisors.has "b" "n-x" &&
      c.state.hypervisors.migrations.isEmpty) (by decide +kernel)
  simp only [Bool.and_eq_true, List.isEmpty_iff] at hc
  refine ⟨c, hr, fun h => ?_⟩
  obtain ⟨m, hm, -⟩ := h "n-x" "a" "b" hc.1.1 hc.1.2 (by decide)
  rw [hc.2] at hm
  cases hm

/-- A user deletes the VM, and `a` releases it. -/
theorem no_orphan_home : ∃ c : ClusterConfig, c.state.vms.objects = [] ∧ c.state.NoOrphan := by
  obtain ⟨c, hr, hc⟩ := Interaction.Machine.play_reaches (M := cluster) careful
    ⟨World.initial, fun _ => none⟩
    (homeScript ++ [.world (.delete .virtualMachine ⟨"n", "x"⟩ 0)] ++
      serveAll (.host "a" ⟨"n", "x"⟩) 5 4)
    (fun c => c.state.vms.objects.isEmpty) (by decide +kernel)
  exact ⟨c, List.isEmpty_iff.mp hc, no_orphan hr⟩

/-- A user deletes the VM that has been moved to `b` and still runs on `a`: the node `b`
removes the finalizer, and the VM is gone. -/
theorem orphan : ∃ c : ClusterConfig,
    cluster.Run (fun s e => careful s e ∨ placesVm e = true) ⟨World.initial, fun _ => none⟩ c ∧
      ¬ c.state.NoOrphan := by
  obtain ⟨c, hr, hc⟩ := Interaction.Machine.play_reaches (M := cluster)
    (fun s e => careful s e ∨ placesVm e = true) ⟨World.initial, fun _ => none⟩
    (strayScript ++ [.world (.delete .virtualMachine ⟨"n", "x"⟩ 0)] ++
      serve (.host "b" ⟨"n", "x"⟩) 10 3)
    (fun c => c.state.hypervisors.has "a" "n-x" &&
      c.state.vms.history.any (fun v => v.key = ⟨"n", "x"⟩) &&
      c.state.vms.objects.all fun o => o.key ≠ ⟨"n", "x"⟩) (by decide +kernel)
  simp only [Bool.and_eq_true, List.any_eq_true, List.all_eq_true, decide_eq_true_eq] at hc
  obtain ⟨⟨hhas, v, hv, hk⟩, hnone⟩ := hc
  refine ⟨c, hr, fun h => h v hv (fun o ho hok => absurd (hok.trans hk) (hnone o ho)) "a" ?_⟩
  rw [hk]
  exact hhas

end ClusterController
