import ClusterController.Alone
import ClusterController.Hypervisors
import ClusterController.Reconciles

/-!
# The running flag

`handle_add` registers the finalizer, creates the domain and sets `running`, all from one
local copy. If the finalizer was missing then its registration makes the copy out of date,
and the status write is refused although the domain is there. No later reconcile comes
back to it, for the VM then counts as updated.

* `Reported`: a VM whose host has its domain is marked as running.
* `running_reported`: it is, if whoever creates a domain has found the finalizer.
-/

namespace ClusterController

open ApiServer (Key KubeError Resource Collection)
open Interaction (Program)
open Interaction.Program (Outcome Within Ends ends_bind ends_attempt)

/-! ## Reads of a host -/

section Reads

variable {w : Worker} {s t : World} {host name : String} {α : Type}

theorem served_libvirt {q : LibvirtRequest} {a : Option q.Answer}
    (h : Served w s (.libvirt host q) a t) : s.serveLibvirt host q = some (a, t) := by
  obtain ⟨x, hx, hans⟩ := h
  simp only [World.answer] at hans
  split at hans
  · next served hs =>
    have hd : x.deliver none s served = (a, t) := Option.some.inj hans
    unfold Choice.deliver at hd
    rw [hx] at hd
    rw [hs, ← hd]
  · cases hans

/-- A call of libvirt returns what is answered, or fails. -/
theorem ends_libvirtCall {q : LibvirtRequest} {o : Outcome Error q.Answer}
    (h : (libvirtCall host q).Ends (Served w) s o t) :
    ∃ a, s.serveLibvirt host q = some (a, t) ∧
      ((∃ v, a = some v ∧ o = .ok v) ∨ (a = none ∧ o = .err .libvirt)) := by
  obtain ⟨a, s₁, hs, hk⟩ := h
  cases a with
  | some v =>
    obtain ⟨rfl, rfl⟩ := hk
    exact ⟨_, served_libvirt hs, .inl ⟨v, rfl, rfl⟩⟩
  | none =>
    obtain ⟨rfl, rfl⟩ := hk
    exact ⟨_, served_libvirt hs, .inr ⟨rfl, rfl⟩⟩

theorem any_listed (l : Hypervisors) (host name : String) :
    (((l.domains.filter (·.host = host)).map (·.template.name)).any (· = name)) =
      l.has host name := by
  unfold Hypervisors.has
  rw [List.any_map, List.any_filter]
  rfl

theorem ends_hasDomain {o : Outcome Error Bool}
    (h : (Host.hasDomain host name).Ends (Served w) s o t) :
    o = .ok (s.hypervisors.has host name) ∧ t = s := by
  rcases ends_bind.mp h with ⟨v, s₁, hv, rfl, rfl⟩ | ⟨e, he, rfl⟩ | ⟨m, hm, rfl⟩
  · obtain ⟨a, ha, ⟨v', rfl, hv'⟩ | ⟨-, ho⟩⟩ := ends_libvirtCall hv
    · cases hv'
      cases ha
      exact ⟨congrArg Outcome.ok (any_listed s.hypervisors host name), rfl⟩
    · cases ho
  · obtain ⟨a, ha, ⟨v', -, ho⟩ | ⟨rfl, -⟩⟩ := ends_libvirtCall he
    · cases ho
    · cases ha
  · obtain ⟨a, ha, ⟨v', -, ho⟩ | ⟨-, ho⟩⟩ := ends_libvirtCall hm <;> cases ho

/-- The event that a host sees in a VM. -/
def Host.eventIn (l : Hypervisors) (host : String) (vm : VirtualMachine) : Except Error Host.Event :=
  match Host.getDomainName vm with
  | none => .ok .missingDomainName
  | some name =>
    match tryStatus vm with
    | .error e => .error e
    | .ok status =>
      if !status.scheduled then .ok .unscheduled
      else
        match status.node with
        | none => .ok .noNode
        | some node =>
          .ok (Host.classify (l.has host name) (node = host) status.migrationPending vm.isDeleted)

theorem ends_getEventType {vm : VirtualMachine} {o : Outcome Error Host.Event}
    (h : (Host.getEventType host vm).Ends (Served w) s o t) :
    o = .of (Host.eventIn s.hypervisors host vm) ∧ t = s := by
  unfold Host.getEventType at h
  unfold Host.eventIn
  cases hn : Host.getDomainName vm with
  | none =>
    rw [hn] at h
    exact h
  | some name =>
    rw [hn] at h
    cases hst : tryStatus vm with
    | error e =>
      rw [hst] at h
      exact h
    | ok st =>
      rw [hst] at h
      change (if (!st.scheduled) = true then _ else _ : Prog Host.Event).Ends (Served w) s o t at h
      dsimp only
      split at h
      · next hs =>
        rw [if_pos hs]
        exact h
      · next hs =>
        rw [if_neg hs]
        cases hnode : st.node with
        | none =>
          rw [hnode] at h
          exact h
        | some node =>
          rw [hnode] at h
          exact Program.ends_bind_of_reads (fun _ _ => ends_hasDomain) h

end Reads

/-! ## What keeps the flag -/

/-- Nothing happens to virtual machines and domains. -/
structure Alike (s t : World) : Prop where
  vms : t.vms = s.vms
  hypervisors : t.hypervisors = s.hypervisors
  seen : t.seen = s.seen

theorem Alike.refl (s : World) : Alike s s := ⟨rfl, rfl, rfl⟩

theorem Alike.trans {s t u : World} (h : Alike s t) (h' : Alike t u) : Alike s u :=
  ⟨h'.vms.trans h.vms, h'.hypervisors.trans h.hypervisors, h'.seen.trans h.seen⟩

theorem alike_of_quiet {w : Worker} {s t : World} {r : Request} {x : Choice} {a : r.Answer}
    (hr : Quiet r) (h : World.answer w s r x = some (a, t)) : Alike s t := by
  refine ⟨World.answer_vms (writerOfVm_of_quiet hr) h, ?_, (World.answer_frame h).seen⟩
  by_cases hq : ∃ host q, r = .libvirt host q
  · obtain ⟨host, q, rfl⟩ := hq
    simp only [World.answer] at h
    split at h
    · next served hs =>
      have hserved : served.2.hypervisors = s.hypervisors := by
        cases q with
        | listAllDomains => cases hs; rfl
        | lookupByName d => cases hs; rfl
        | awaitMigration d =>
          simp only [World.serveLibvirt] at hs
          split at hs <;> cases hs
          rfl
        | isActive d => exact hr.elim
        | destroy d => exact hr.elim
        | createXml template => exact hr.elim
        | startMigration d destination => exact hr.elim
      rcases Choice.deliver_state (Option.some.inj h) with rfl | rfl
      · rfl
      · exact hserved
    · cases h
  · exact (World.answer_frame h).hypervisors fun host q hr => hq ⟨host, q, hr⟩

/-- Whoever creates a domain has started from a version with the finalizer. -/
def createsGuarded (w : Worker) (s : World) : Request → Prop
  | .libvirt _ (.createXml _) => ∃ v ∈ s.vms.history, v.version = s.seen w ∧ Guarded v
  | _ => True

instance : ∀ w s r, Decidable (createsGuarded w s r) := by
  intro w s r
  unfold createsGuarded Guarded
  split <;> infer_instance

/-- Requests are served, and domains are created on this condition only. -/
abbrev guardedCreation : Execution := servedIf createsGuarded

/-- The VM is marked as running if the host that it is scheduled to has its domain. -/
def Reported (k : Key) (s : World) : Prop :=
  ∀ vm st node, s.vms.find? k = some vm → vm.status = some st → st.node = some node →
    s.hypervisors.has node st.domainName = true → st.running = true

/-- The status of the VM stays as it is, and no domain comes. -/
structure Tame (k : Key) (s t : World) : Prop where
  status : ∀ v, t.vms.find? k = some v → ∃ o, s.vms.find? k = some o ∧ v.status = o.status
  has : ∀ g d, t.hypervisors.has g d = true → s.hypervisors.has g d = true

theorem Alike.tame {s t : World} (h : Alike s t) (k : Key) : Tame k s t :=
  ⟨fun v hv => ⟨v, h.vms ▸ hv, rfl⟩, fun _ _ hg => h.hypervisors ▸ hg⟩

theorem Tame.trans {k : Key} {s t u : World} (h : Tame k s t) (h' : Tame k t u) : Tame k s u := by
  refine ⟨fun v hv => ?_, fun g d hg => h.has g d (h'.has g d hg)⟩
  obtain ⟨o, ho, he⟩ := h'.status v hv
  obtain ⟨o', ho', he'⟩ := h.status o ho
  exact ⟨o', ho', he.trans he'⟩

theorem Reported.tame {k : Key} {s t : World} (h : Reported k s) (ht : Tame k s t) :
    Reported k t := by
  intro vm st node hvm hst hnode hhas
  obtain ⟨o, ho, he⟩ := ht.status vm hvm
  exact h o st node ho (he ▸ hst) hnode (ht.has _ _ hhas)

/-! ## Handlers -/

section Handlers

variable {w : Worker} {s t : World} {α β : Type} {k : Key}

theorem ends_keeps {p : Prog α} {o : Outcome Error α} (h : p.Ends (guardedCreation w) s o t) :
    Keeps w s t := by
  refine (Within.ends_invariant p.within_any (I := Keeps w s) ?_ (Keeps.refl w s) h).1
  rintro s₁ r a t₁ - hk ⟨⟨x, -, hx⟩, -⟩
  exact hk.trans (keeps_of_answer hx w)

theorem ends_quiet {p : Prog α} {done : α → Prop} {o : Outcome Error α} (hp : p.Within Quiet done)
    (h : p.Ends (guardedCreation w) s o t) : Alike s t ∧ ∀ a, o = .ok a → done a := by
  refine Within.ends_invariant hp (I := Alike s) ?_ (Alike.refl s) h
  rintro s₁ r a t₁ hr hs ⟨⟨x, -, hx⟩, -⟩
  exact hs.trans (alike_of_quiet hr hx)

/-- A quiet part ends the whole, or returns and changes nothing. -/
theorem ends_quiet_bind {p : Prog α} {f : α → Prog β} {done : α → Prop} {o : Outcome Error β}
    (hp : p.Within Quiet done) (h : (p >>= f).Ends (guardedCreation w) s o t) :
    (Alike s t ∧ ∀ b, o ≠ .ok b) ∨
      ∃ a s₁, done a ∧ Alike s s₁ ∧ (f a).Ends (guardedCreation w) s₁ o t := by
  rcases ends_bind.mp h with ⟨a, s₁, ha, hf⟩ | ⟨e, he, rfl⟩ | ⟨m, hm, rfl⟩
  · obtain ⟨hs, hdone⟩ := ends_quiet hp ha
    exact .inr ⟨a, s₁, hdone a rfl, hs, hf⟩
  · exact .inl ⟨(ends_quiet hp he).1, nofun⟩
  · exact .inl ⟨(ends_quiet hp hm).1, nofun⟩

/-- The requests of a host that neither create nor move a domain nor write a status. -/
def Mild (k : Key) (r : Request) : Prop :=
  Quiet r ∨ (∃ host d, r = .libvirt host (.destroy d)) ∨
    ∃ n writer, r = .kube (.replace .virtualMachine n writer) ∧ n.key = k

theorem tame_of_mild {r : Request} {a : r.Answer} (hr : Mild k r) (h : Served w s r a t) :
    Tame k s t := by
  rcases hr with hq | ⟨host, d, rfl⟩ | ⟨n, writer, rfl, rfl⟩
  · obtain ⟨x, -, hx⟩ := h
    exact (alike_of_quiet hq hx).tame k
  · obtain ⟨x, -, hx⟩ := h
    have hvms : t.vms = s.vms := World.answer_vms rfl hx
    refine ⟨fun v hv => ⟨v, hvms ▸ hv, rfl⟩, ?_⟩
    rcases World.answer_hypervisors hx with hs | ⟨_, _, hr, -⟩ | ⟨_, _, _, hr, -⟩
    · exact hs.has
    · cases hr
    · cases hr
  · obtain ⟨x, hx⟩ := served_kube h
    have hhyp : t.hypervisors = s.hypervisors := by
      rw [← show (s.serveKube x (.replace .virtualMachine n writer)).2 = t from congrArg Prod.snd hx]
      show (s.store _ _).2.hypervisors = _
      unfold World.store
      split <;> rfl
    refine ⟨fun v hv => ?_, fun g d hg => hhyp ▸ hg⟩
    have hstore : s.store .virtualMachine (s.vms.replace n) = (a, t) := hx
    cases hrep : s.vms.replace n with
    | error e =>
      rw [hrep] at hstore
      cases hstore
      exact ⟨v, hv, rfl⟩
    | ok p =>
      rw [hrep] at hstore
      cases hstore
      rw [show (s.setKube .virtualMachine p.2).vms = p.2 from World.kube_setKube_self] at hv
      exact Collection.status_of_replace hrep hv

theorem ends_mild {p : Prog α} {o : Outcome Error α} (hp : p.Within (Mild k) fun _ => True)
    (h : p.Ends (guardedCreation w) s o t) : Tame k s t := by
  refine (Within.ends_invariant hp (I := Tame k s) ?_ ((Alike.refl s).tame k) h).1
  rintro s₁ r a t₁ hr hs ⟨hx, -⟩
  exact hs.trans (tame_of_mild hr hx)

theorem IsQuiet.mild {p : Prog α} (h : IsQuiet p) : p.Within (Mild k) fun _ => True :=
  h.mono (fun _ hr => .inl hr) fun _ h => h

theorem mild_commit (n : VirtualMachine) (writer : Writer) :
    (commit n writer).Within (Mild n.key) fun _ => True := by
  refine ⟨.inr (.inr ⟨n, writer, rfl, rfl⟩), fun a => ?_⟩
  cases a <;> trivial

theorem mild_ensureFinalizer (vm : VirtualMachine) (f : String) :
    (ensureFinalizer vm f).Within (Mild vm.key) fun _ => True := by
  unfold ensureFinalizer
  split
  · exact Within.bind (mild_commit (addFinalizer vm (finalizerName f)) _) fun _ _ => trivial
  · trivial

theorem mild_removeFinalizer (vm : VirtualMachine) (f : String) :
    (removeFinalizer vm f).Within (Mild vm.key) fun _ => True := by
  unfold removeFinalizer
  split
  · exact Within.bind (mild_commit (dropFinalizer vm (finalizerName f)) _) fun _ _ => trivial
  · trivial

theorem mild_handleDelete (host : String) (vm : VirtualMachine) :
    (Host.handleDelete host vm).Within (Mild vm.key) fun _ => True := by
  refine Within.bind (quiet_expect _ _).mild fun name _ => ?_
  have hdestroy : (Host.destroyDomain host name).Within (Mild vm.key) fun _ => True := by
    refine Within.bind (Host.quiet_lookupByName _ _).attempt.mild fun r _ => ?_
    split
    · refine ⟨.inr (.inl ⟨host, name, rfl⟩), fun a => ?_⟩
      cases a <;> trivial
    · trivial
  exact Within.bind hdestroy fun _ _ => Within.bind (mild_removeFinalizer _ _) fun _ _ => trivial

variable {host : String} {vm : VirtualMachine} {st : VirtualMachineStatus} {o : Outcome Error Unit}

/-- The creation of a domain does nothing else, and the condition holds when it succeeds. -/
theorem ends_createDomain {cluster : Cluster}
    (h : (Host.createDomain host vm cluster).Ends (guardedCreation w) s o t) :
    (Alike s t ∧ o ≠ .ok ()) ∨ ∃ template, o = .ok () ∧ createsGuarded w s (.libvirt host (.createXml template)) ∧
      t.vms = s.vms := by
  rcases ends_quiet_bind (Host.quiet_storageTemplates _ _ _) h with ⟨ha, ho⟩ | ⟨volumes, s₁, -, h₁, h⟩
  · exact .inl ⟨ha, ho ()⟩
  · rcases ends_quiet_bind (Host.quiet_volumesLocked _) h with ⟨ha, ho⟩ | ⟨locked, s₂, -, h₂, h⟩
    · exact .inl ⟨h₁.trans ha, ho ()⟩
    · split at h
      · obtain ⟨rfl, rfl⟩ := h
        exact .inl ⟨h₁.trans h₂, by simp⟩
      · rcases ends_quiet_bind (Host.domainTemplate_name _ _ _ _) h with
          ⟨ha, ho⟩ | ⟨template, s₃, -, h₃, h⟩
        · exact .inl ⟨h₁.trans (h₂.trans ha), ho ()⟩
        · have h₀₃ : Alike s s₃ := h₁.trans (h₂.trans h₃)
          obtain ⟨a, s₄, ⟨hserved, hguard⟩, hk⟩ := h
          have hx := served_libvirt hserved
          cases a with
          | none =>
            obtain ⟨rfl, rfl⟩ := hk
            simp only [World.serveLibvirt] at hx
            split at hx <;> cases hx
            exact .inl ⟨h₀₃, by simp⟩
          | some _ =>
            obtain ⟨rfl, rfl⟩ := hk
            obtain ⟨v, hv, hver, hg⟩ := hguard
            refine .inr ⟨template, rfl, ⟨v, h₀₃.vms ▸ hv, h₀₃.seen ▸ hver, hg⟩, ?_⟩
            obtain ⟨x, -, hx⟩ := hserved
            rw [World.answer_vms rfl hx, h₀₃.vms]

/-- What `handle_add` does with the local copy after the finalizer. -/
def Host.powerOn (host : String) (vm : VirtualMachine) : Prog Unit := do
  if vm.spec.getPowerAction ≠ .powerOn then return ()
  else
    let cluster ← Host.getCluster
    Host.createDomain host vm cluster
    let status ← expect vm.status "VM didn't have existing status"
    setStatus vm { status with running := true } .handleAdd

/-- It creates no domain, or creates it and writes the status. -/
theorem ends_powerOn (h : (Host.powerOn host vm).Ends (guardedCreation w) s o t) :
    Alike s t ∨ (∃ template, createsGuarded w s (.libvirt host (.createXml template))) ∧
      ((vm.status = none ∧ t.vms = s.vms) ∨
        ∃ (st : VirtualMachineStatus) (u : World), u.vms = s.vms ∧ Written .virtualMachine
        (u.vms.replaceStatus vm.key vm.version { st with running := true }) u o t) := by
  unfold Host.powerOn at h
  split at h
  · obtain ⟨-, rfl⟩ := h
    exact .inl (Alike.refl _)
  · rcases ends_quiet_bind Host.quiet_getCluster h with ⟨ha, -⟩ | ⟨cluster, s₁, -, h₁, h⟩
    · exact .inl ha
    · rcases ends_bind.mp h with ⟨_, s₂, hc, h⟩ | ⟨e, hc, -⟩ | ⟨m, hc, -⟩
      · rcases ends_createDomain hc with ⟨-, ho⟩ | ⟨template, -, ⟨v, hv, hver, hg⟩, hvms⟩
        · exact absurd rfl ho
        · have h₀₂ : s₂.vms = s.vms := hvms.trans h₁.vms
          refine .inr ⟨⟨template, v, h₁.vms ▸ hv, h₁.seen ▸ hver, hg⟩, ?_⟩
          cases hst : vm.status with
          | none =>
            rw [hst] at h
            obtain ⟨-, rfl⟩ := h
            exact .inl ⟨rfl, h₀₂⟩
          | some st =>
            rw [hst] at h
            exact .inr ⟨st, s₂, h₀₂, ends_setStatus (h.mono fun _ _ _ _ hx => hx.1)⟩
      · rcases ends_createDomain hc with ⟨ha, -⟩ | ⟨template, ho, -⟩
        · exact .inl (h₁.trans ha)
        · cases ho
      · rcases ends_createDomain hc with ⟨ha, -⟩ | ⟨template, ho, -⟩
        · exact .inl (h₁.trans ha)
        · cases ho

/-- The stored VM is marked as running. -/
theorem reported_of_written (hf : s.vms.find? k = some vm) (hk : vm.key = k)
    (hw : Written .virtualMachine (s.vms.replaceStatus vm.key vm.version st) s o t)
    (hrun : st.running = true ∨ Reported k s ∧ ∃ st₀, vm.status = some st₀ ∧
      st.running = st₀.running ∧ st.node = st₀.node ∧ st.domainName = st₀.domainName) :
    Reported k t := by
  subst hk
  have hcur : s.vms.replaceStatus vm.key vm.version st =
      .ok (s.vms.settle vm { vm with status := some st }) := Collection.replaceStatus_current hf
  rcases hw with ⟨v, c, hr, -, rfl⟩ | ⟨e, hr, -⟩
  · intro vm' st' node hvm' hst' hnode' hhas
    rw [show (s.setKube .virtualMachine c).vms = c from World.kube_setKube_self] at hvm'
    obtain ⟨hstatus, -⟩ := Collection.status_of_replaceStatus hr hvm'
    obtain rfl : st = st' := Option.some.inj (hstatus.symm.trans hst')
    rcases hrun with hrun | ⟨hrep, st₀, hst₀, hrun, hnode, hname⟩
    · exact hrun
    · rw [hrun]
      exact hrep vm st₀ node hf hst₀ (hnode ▸ hnode') (hname ▸ hhas)
  · rw [hcur] at hr
    cases hr

variable (hf : s.vms.find? vm.key = some vm) (hrep : Reported vm.key s)
include hf hrep

theorem reported_powerOn (ha : Alike s t) {u : World}
    (h : (Host.powerOn host vm).Ends (guardedCreation w) t o u) : Reported vm.key u := by
  have hf' : t.vms.find? vm.key = some vm := ha.vms ▸ hf
  have hrep' : Reported vm.key t := hrep.tame (ha.tame _)
  rcases ends_powerOn h with hau | ⟨-, ⟨hst, hvms⟩ | ⟨st, u₁, hvms, hw⟩⟩
  · exact hrep'.tame (hau.tame _)
  · intro vm' st' node hvm' hst' _ _
    rw [hvms, hf'] at hvm'
    cases hvm'
    rw [hst] at hst'
    cases hst'
  · exact reported_of_written (hvms ▸ hf') rfl hw (.inl rfl)

theorem reported_handleAdd (hseen : s.seen w = vm.version)
    (h : (Host.handleAdd host vm).Ends (guardedCreation w) s o t) :
    Reported vm.key t := by
  rcases ends_quiet_bind (Host.quiet_ensureVniMapping _ _) h with ⟨ha, -⟩ | ⟨_, s₁, -, h₁, h⟩
  · exact hrep.tame (ha.tame _)
  · rcases ends_quiet_bind (quiet_expect _ _) h with ⟨ha, -⟩ | ⟨name, s₂, -, h₂, h⟩
    · exact hrep.tame ((h₁.trans ha).tame _)
    · have h₀₂ : Alike s s₂ := h₁.trans h₂
      change (ensureFinalizer vm Host.finalizer >>= Host.powerOn host).Ends _ _ _ _ at h
      by_cases hfin : hasFinalizer vm (finalizerName Host.finalizer) = true
      · -- The copy is still the stored version when the status is written.
        unfold ensureFinalizer at h
        rw [hfin] at h
        exact reported_powerOn hf hrep h₀₂ h
      · rcases ends_bind.mp h with ⟨n, s₃, hens, h⟩ | ⟨e, hens, -⟩ | ⟨m, hens, -⟩
        · have htame : Tame vm.key s s₃ :=
            (h₀₂.tame _).trans (ends_mild (mild_ensureFinalizer vm _) hens)
          rcases ends_powerOn h with hau | ⟨⟨template, v, hv, hver, hg⟩, -⟩
          · exact hrep.tame (htame.trans (hau.tame _))
          · -- The version that the reconcile has started from has no finalizer.
            have hkeep : Keeps w s₂ s₃ := ends_keeps hens
            have hlog₂ : vm ∈ s₂.vms.history := by
              rw [h₀₂.vms]
              exact Collection.logged_of_find? hf
            have hlog : vm ∈ s₃.vms.history := hkeep.1 .virtualMachine vm hlog₂
            have hver' : v.version = vm.version := by
              rw [hver, hkeep.2, h₀₂.seen, hseen]
            obtain rfl : v = vm := s₃.vms.logged_unique v hv vm hlog hver'
            exact absurd (List.contains_iff_mem.mpr hg) hfin
        · exact hrep.tame ((h₀₂.tame _).trans (ends_mild (mild_ensureFinalizer vm _) hens))
        · exact hrep.tame ((h₀₂.tame _).trans (ends_mild (mild_ensureFinalizer vm _) hens))

theorem reported_handleInboundMigration
    (h : (Host.handleInboundMigration host vm).Ends (guardedCreation w) s o t) :
    Reported vm.key t := by
  rcases ends_quiet_bind (Host.quiet_ensureVniMapping _ _) h with ⟨ha, -⟩ | ⟨_, s₁, -, h₁, h⟩
  · exact hrep.tame (ha.tame _)
  rcases ends_quiet_bind (quiet_expect _ _) h with ⟨ha, -⟩ | ⟨name, s₂, -, h₂, h⟩
  · exact hrep.tame ((h₁.trans ha).tame _)
  rcases ends_quiet_bind (Host.quiet_hasDomain _ _) h with ⟨ha, -⟩ | ⟨has, s₃, -, h₃, h⟩
  · exact hrep.tame ((h₁.trans (h₂.trans ha)).tame _)
  have h₀₃ : Alike s s₃ := h₁.trans (h₂.trans h₃)
  split at h
  · obtain ⟨-, rfl⟩ := h
    exact hrep.tame (h₀₃.tame _)
  rcases ends_quiet_bind (Host.quiet_lookupByName _ _).attempt h with ⟨ha, -⟩ | ⟨r, s₄, -, h₄, h⟩
  · exact hrep.tame ((h₀₃.trans ha).tame _)
  have h₀₄ : Alike s s₄ := h₀₃.trans h₄
  cases r with
  | error e =>
    obtain ⟨-, rfl⟩ := h
    exact hrep.tame (h₀₄.tame _)
  | ok _ =>
    obtain ⟨a, s₅, ⟨hserved, -⟩, h⟩ := h
    have hx := served_libvirt hserved
    obtain rfl : s₄ = s₅ := by
      simp only [World.serveLibvirt] at hx
      cases hx
      rfl
    cases a with
    | none =>
      obtain ⟨-, rfl⟩ := h
      exact hrep.tame (h₀₄.tame _)
    | some active =>
      change (if (!active) = true then Program.ret () else Program.ofExcept (tryStatus vm) >>= _).Ends
        _ _ _ _ at h
      split at h
      · obtain ⟨-, rfl⟩ := h
        exact hrep.tame (h₀₄.tame _)
      · cases hst : vm.status with
        | none =>
          unfold tryStatus at h
          rw [hst] at h
          obtain ⟨-, rfl⟩ := h
          exact hrep.tame (h₀₄.tame _)
        | some st =>
          unfold tryStatus at h
          rw [hst] at h
          have hw := ends_setStatus (h.mono fun _ _ _ _ hx => hx.1)
          exact reported_of_written (h₀₄.vms ▸ hf) rfl hw
            (.inr ⟨hrep.tame (h₀₄.tame _), st, hst, rfl, rfl, rfl⟩)

omit hf in
/-- Nothing ends a migration here, so it does not begin. -/
theorem reported_handleOutboundMigration
    (h : (Host.handleOutboundMigration host vm).Ends (guardedCreation w) s o t) :
    Reported vm.key t := by
  rcases ends_quiet_bind (quiet_expect _ _) h with ⟨ha, -⟩ | ⟨name, s₁, -, h₁, h⟩
  · exact hrep.tame (ha.tame _)
  rcases ends_quiet_bind (Host.quiet_lookupByName _ _).attempt h with ⟨ha, -⟩ | ⟨r, s₂, -, h₂, h⟩
  · exact hrep.tame ((h₁.trans ha).tame _)
  have h₀₂ : Alike s s₂ := h₁.trans h₂
  cases r with
  | error e =>
    obtain ⟨-, rfl⟩ := h
    exact hrep.tame (h₀₂.tame _)
  | ok _ =>
    rcases ends_quiet_bind (quiet_ofExcept _) h with ⟨ha, -⟩ | ⟨st, s₃, -, h₃, h⟩
    · exact hrep.tame ((h₀₂.trans ha).tame _)
    rcases ends_quiet_bind (quiet_expect _ _) h with ⟨ha, -⟩ | ⟨destination, s₄, -, h₄, h⟩
    · exact hrep.tame ((h₀₂.trans (h₃.trans ha)).tame _)
    have h₀₄ : Alike s s₄ := h₀₂.trans (h₃.trans h₄)
    obtain ⟨a, s₅, ⟨hserved, -⟩, h⟩ := h
    have hx := served_libvirt hserved
    simp only [World.serveLibvirt] at hx
    split at hx
    · cases hx
      obtain ⟨b, s₆, ⟨hserved', -⟩, -⟩ := h
      have hx' := served_libvirt hserved'
      simp only [World.serveLibvirt] at hx'
      rw [if_pos] at hx'
      · cases hx'
      · refine List.any_eq_true.mpr ⟨⟨name, host, destination⟩, List.mem_cons_self, ?_⟩
        simp
    · cases hx
      obtain ⟨-, rfl⟩ := h
      exact hrep.tame (h₀₄.tame _)

theorem reported_reconcile (hseen : s.seen w = vm.version)
    (h : (Host.reconcile host vm).Ends (guardedCreation w) s o t) :
    Reported vm.key t := by
  have hevent : IsQuiet (Host.getEventType host vm) := .of_within (Host.getEventType_means host vm)
  rcases ends_quiet_bind hevent h with ⟨ha, -⟩ | ⟨e, s₁, -, h₁, h⟩
  · exact hrep.tame (ha.tame _)
  have hf' : s₁.vms.find? vm.key = some vm := h₁.vms ▸ hf
  have hseen' : s₁.seen w = vm.version := h₁.seen ▸ hseen
  have hrep' : Reported vm.key s₁ := hrep.tame (h₁.tame _)
  cases e with
  | deleted => exact hrep'.tame (ends_mild (mild_handleDelete host vm) h)
  | added => exact reported_handleAdd hf' hrep' hseen' h
  | outboundMigration => exact reported_handleOutboundMigration hrep' h
  | inboundMigration => exact reported_handleInboundMigration hf' hrep' h
  | missingDomainName =>
    obtain ⟨-, rfl⟩ := h
    exact hrep'
  | unscheduled =>
    obtain ⟨-, rfl⟩ := h
    exact hrep'
  | noNode =>
    obtain ⟨-, rfl⟩ := h
    exact hrep'
  | notOurs =>
    obtain ⟨-, rfl⟩ := h
    exact hrep'
  | updated =>
    obtain ⟨-, rfl⟩ := h
    exact hrep'

end Handlers

/-! ## Runs -/

/-- Only the hosts work, on the VM of the key. -/
def hostsOf (k : Key) (_ : World) : Deed → Prop
  | .turn (.host _ k') => k' = k
  | _ => False

instance (k : Key) : ∀ s d, Decidable (hostsOf k s d) := by
  intro s d
  unfold hostsOf
  split <;> infer_instance

/-- No host changes anything any more. -/
def AtRest [Crates] (k : Key) (s : World) : Prop :=
  ∀ host o t, Turn Served (.host host k) s o t →
    t.kube = s.kube ∧ t.hypervisors = s.hypervisors

section Runs

variable [Crates] {k : Key} {s t : World}

theorem reported_turn {host : String} {o : Outcome Error Unit} (hrep : Reported k s)
    (h : Turn guardedCreation (.host host k) s o t) : Reported k t := by
  obtain ⟨vm, hf, h⟩ : ∃ vm : VirtualMachine, s.vms.find? k = some vm ∧
      (Host.reconcile host vm).Ends (guardedCreation (.host host k))
        (s.started (.host host k) vm.version) o t := h
  obtain rfl : vm.key = k := Collection.key_of_find? hf
  exact reported_reconcile (s := s.started (.host host vm.key) vm.version) hf hrep
    (Function.update_self _ _ _) h

/-- If whoever creates a domain has found the finalizer, then in every run of the hosts from
a state in which the host of the VM does not have its domain yet, the VM is marked as running
as soon as that host has it. -/
theorem running_reported
    (hstart : ∀ vm st node, s.vms.find? k = some vm → vm.status = some st →
      st.node = some node → s.hypervisors.has node st.domainName = false)
    (hr : Serial guardedCreation (hostsOf k) s t) : Reported k t := by
  induction hr with
  | refl =>
    intro vm st node hvm hst hnode hhas
    rw [hstart vm st node hvm hst hnode] at hhas
    cases hhas
  | tail _ hd ih =>
    obtain ⟨d, hd, hdoes⟩ := hd
    cases d with
    | happen e => exact hd.elim
    | turn w =>
      cases w with
      | host h k' =>
        obtain rfl : k' = k := hd
        obtain ⟨o, hturn⟩ := hdoes
        exact reported_turn ih hturn
      | _ => exact hd.elim

/-- A VM whose domain is on its host and nowhere else is left alone. -/
theorem atRest_of_settled {vm : VirtualMachine} {host name : String}
    (hf : s.vms.find? k = some vm) (hset : Settled vm host) (hd : vm.isDeleted = false)
    (hn : Host.getDomainName vm = some name)
    (hhas : ∀ g, s.hypervisors.has g name = decide (g = host)) : AtRest k s := by
  intro g o t h
  obtain ⟨v, hf', h⟩ : ∃ v : VirtualMachine, s.vms.find? k = some v ∧
      (Host.reconcile g v).Ends (Served (.host g k)) (s.started (.host g k) v.version) o t := h
  obtain rfl : vm = v := Option.some.inj (hf.symm.trans hf')
  have hevent : Host.eventIn s.hypervisors g vm =
      .ok (if g = host then .updated else .notOurs) := by
    obtain ⟨st, hst, hsched, hnode, hp⟩ := hset
    unfold Host.eventIn tryStatus
    rw [hn, hst]
    simp only [hsched, hnode, hp, hd, hhas]
    by_cases hg : g = host
    · subst hg
      simp [Host.classify]
    · simp [Host.classify, hg, Ne.symm hg]
  have hread : ∀ o' t', (Host.getEventType g vm).Ends (Served (.host g k))
      (s.started (.host g k) vm.version) o' t' →
      o' = .ok (if g = host then .updated else .notOurs) ∧ t' = s.started (.host g k) vm.version := by
    intro o' t' h'
    obtain ⟨rfl, rfl⟩ := ends_getEventType h'
    exact ⟨congrArg Outcome.of hevent, rfl⟩
  have h := Program.ends_bind_of_reads hread h
  have ht : t = s.started (.host g k) vm.version := by
    split at h
    all_goals first
      | exact h.2
      | (next he => split at he <;> cases he)
  rw [ht]
  exact ⟨rfl, rfl⟩

end Runs

attribute [local instance] plainCrates

/-- The VM `x` is placed on the node `a`. -/
def placedDeeds : List Deed :=
  [.happen (.create .node ⟨"", "a"⟩ [] [] ()),
   .happen (.create .virtualMachine ⟨"n", "x"⟩ [] [] plainSpec),
   .turn (.vm ⟨"n", "x"⟩), .turn (.vm ⟨"n", "x"⟩)]

def createCluster : Deed := .happen (.create .cluster ⟨"", "default"⟩ [] [] ⟨"pc", "<cpu/>"⟩)

/-- The status of `x` is what is asked for, and `a` is the only host with a domain. -/
def homeStatus (p : VirtualMachineStatus → Bool) (s : World) : Bool :=
  (s.vms.find? ⟨"n", "x"⟩).any (fun vm => !vm.isDeleted && vm.status.any fun st =>
    st.scheduled && st.node = some "a" && !st.migrationPending && st.domainName = "n-x" && p st) &&
  s.hypervisors.domains.map (fun d => (d.host, d.template.name)) = [("a", "n-x")]

theorem home_of_status {p : VirtualMachineStatus → Bool} {s : World} (h : homeStatus p s = true) :
    ∃ vm st, s.vms.find? ⟨"n", "x"⟩ = some vm ∧ vm.isDeleted = false ∧ vm.status = some st ∧
      st.scheduled = true ∧ st.node = some "a" ∧ st.migrationPending = false ∧
      st.domainName = "n-x" ∧ p st = true ∧
      ∀ g, s.hypervisors.has g "n-x" = decide (g = "a") := by
  unfold homeStatus at h
  simp only [Bool.and_eq_true, Option.any_eq_true, decide_eq_true_eq, Bool.not_eq_true'] at h
  obtain ⟨⟨vm, hf, hd, st, hst, ⟨⟨⟨hs, hn⟩, hp⟩, hname⟩, hr⟩, hdomains⟩ := h
  refine ⟨vm, st, hf, hd, hst, hs, hn, hp, hname, hr, fun g => ?_⟩
  have hhas : s.hypervisors.has g "n-x" = (s.hypervisors.domains.map fun d =>
      (d.host, d.template.name)).any fun e => e.1 = g && e.2 = "n-x" := by
    rw [List.any_map]
    rfl
  rw [hhas, hdomains]
  simp [eq_comm]

/-- Some VM runs, but is not marked so, and nothing will change. -/
theorem flag_stays_unset : ∃ (s t : World) (k : Key), s.hypervisors.domains = [] ∧
    Serial Served (hostsOf k) s t ∧ AtRest k t ∧ ¬ Reported k t := by
  have h : ((performAll anyRequest anyDeed World.initial (createCluster :: placedDeeds)).any
      fun s => s.hypervisors.domains.isEmpty &&
        (performAll anyRequest (hostsOf ⟨"n", "x"⟩) s [.turn (.host "a" ⟨"n", "x"⟩)]).any
          (homeStatus fun st => !st.running)) = true := by decide +kernel
  simp only [Option.any_eq_true, Bool.and_eq_true, List.isEmpty_iff] at h
  obtain ⟨s, -, hempty, t, ht, hhome⟩ := h
  obtain ⟨vm, st, hf, hd, hst, hs, hn, hp, hname, hr, hhas⟩ := home_of_status hhome
  have hrun : Serial Served (hostsOf ⟨"n", "x"⟩) s t :=
    (serial_of_perform ht).mono (fun _ _ _ _ _ hx => hx.1) fun _ _ ha => ha
  refine ⟨s, t, ⟨"n", "x"⟩, hempty, hrun, ?_, fun h => ?_⟩
  · refine atRest_of_settled hf ⟨st, hst, hs, hn, hp⟩ hd ?_ hhas
    unfold Host.getDomainName
    rw [hst, ← hname]
    rfl
  · have hrunning : st.running = true := by
      refine h vm st "a" hf hst hn ?_
      rw [hname, hhas]
      rfl
    rw [hrunning] at hr
    cases hr

/-- When the first attempt has failed for lack of a cluster object, the second one finds
the finalizer. -/
theorem running_reported_retry : ∃ (t : World) (vm : VirtualMachine),
    t.vms.find? ⟨"n", "x"⟩ = some vm ∧ t.hypervisors.has "a" "n-x" = true ∧
      Reported ⟨"n", "x"⟩ t := by
  have h : ((performAll anyRequest anyDeed World.initial
      (placedDeeds ++ [.turn (.host "a" ⟨"n", "x"⟩), createCluster])).any
      fun s => s.hypervisors.domains.isEmpty &&
        (performAll createsGuarded (hostsOf ⟨"n", "x"⟩) s [.turn (.host "a" ⟨"n", "x"⟩)]).any
          (homeStatus fun st => st.running)) = true := by decide +kernel
  simp only [Option.any_eq_true, Bool.and_eq_true, List.isEmpty_iff] at h
  obtain ⟨s, -, hempty, t, ht, hhome⟩ := h
  obtain ⟨vm, st, hf, -, -, -, -, -, -, -, hhas⟩ := home_of_status hhome
  refine ⟨t, vm, hf, ?_, running_reported (fun vm st node _ _ _ => ?_) (serial_of_perform ht)⟩
  · rw [hhas]
    rfl
  · unfold Hypervisors.has
    rw [hempty]
    rfl

end ClusterController
