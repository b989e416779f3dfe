import ClusterController.Lib.Log
import ClusterController.MigrationSource
import ClusterController.SingleInstance

/-!
# Who completes a migration

A pending migration is over when the host it is for says so, and that host has asked
whether its domain is active since the reconcile started. The log of a run keeps what a
host has asked, and its write is accepted only if the version that the reconcile started
from is still stored, so a host that has been superseded as the target completes nothing.
-/

namespace ClusterController

open ApiServer (Key Resource Collection)
open Interaction (Program Contract Terms Regime Machine recent unlogged)
open Interaction.Program (Within)
open Interaction.Contract (wp_mono wp_bind wp_attempt wp_project)

/-- The cluster with what its workers have been answered. -/
abbrev LoggedWorld := World × Interaction.Log Worker Request Request.Answer World

/-- The host has found the domain of its snapshot active since its reconcile started. -/
def Observed (w : Worker) (s : LoggedWorld) : Prop :=
  ∃ vm host name u, Snapshot w s.1 vm ∧ w = .host host vm.key ∧
    Host.getDomainName vm = some name ∧ u.seen w = vm.version ∧
    u.hypervisors.has host name = true ∧
    .call w u (.libvirt host (.isActive name)) (some true) ∈ recent w s.2

/-- The terms of all workers, and of hosts that complete a migration. -/
def observedTerms : Terms Worker Request LoggedWorld where
  inv := fun _ => True
  rely := fun w s t => Keeps w s.1 t.1 ∧ recent w t.2 = recent w s.2
  guar := fun w s r t => Guarantee w s.1 r t.1 ∧
    (r.writerOfVm = some .handleInboundMigration → ∀ old new,
      s.1.vms.Changes t.1.vms old new → Observed w s)

/-- The request does not complete a migration. -/
def Incomplete (r : Request) : Prop := r.writerOfVm ≠ some .handleInboundMigration

theorem Observed.keep {w : Worker} {s t : LoggedWorld} (h : Observed w s)
    (hk : observedTerms.rely w s t) : Observed w t := by
  obtain ⟨vm, host, name, u, hs, hw, hn, hseen, hhas, hin⟩ := h
  exact ⟨vm, host, name, u, hs.keep hk.1, hw, hn, hseen, hhas, hk.2 ▸ hin⟩

theorem IsQuiet.incomplete {α : Type} {p : Prog α} {done : α → Prop} (h : p.Within Quiet done) :
    p.Within Incomplete done :=
  (IsQuiet.plain h).mono (fun _ hr => hr.1) fun _ h => h

/-- No other writer ends a pending migration. -/
theorem completes_of_effect {u : World} {old n : VirtualMachine} {writer : Writer}
    (he : Effect w u old n writer) (hold : pending old = true) (hn : pending n = false) :
    writer = .handleInboundMigration := by
  cases writer with
  | handleInboundMigration => rfl
  | initializeStatus =>
    obtain ⟨-, hst, -⟩ := he
    simp [pending, hst] at hold
  | fillNics =>
    obtain ⟨-, st, networks, hst, rfl⟩ := he
    simp_all [pending]
  | fillUuid =>
    obtain ⟨-, -, id, rfl⟩ := he
    exact absurd (hold.symm.trans hn) (by decide)
  | schedulingAndMigrations =>
    obtain ⟨-, -, -, st, node, hst, rfl, -⟩ := he
    simp_all [pending, scheduledStatus]
  | clearMigrationRequest =>
    obtain ⟨-, rfl⟩ := he
    exact absurd (hold.symm.trans hn) (by decide)
  | requestMigrationAwayFrom =>
    obtain ⟨node, -, -, rfl⟩ := he
    exact absurd (hold.symm.trans hn) (by decide)
  | ensureFinalizer f =>
    obtain ⟨rfl, -⟩ := he
    exact absurd (hold.symm.trans hn) (by decide)
  | removeFinalizer f =>
    obtain ⟨rfl, -⟩ := he
    exact absurd (hold.symm.trans hn) (by decide)
  | updateVm =>
    obtain ⟨-, st, ips, hst, rfl⟩ := he
    simp_all [pending]
  | handleAdd =>
    obtain ⟨host, st, -, hst, rfl⟩ := he
    simp_all [pending]
  | updateNetwork => exact he.elim
  | updateRouter => exact he.elim

/-- A host that destroys a domain completes no migration. -/
theorem incomplete_handleDelete (host : String) (vm : VirtualMachine) :
    (Host.handleDelete host vm).Within Incomplete fun _ => True := by
  refine Within.bind (IsQuiet.incomplete (quiet_expect _ _)) fun name _ => ?_
  have hdestroy : (Host.destroyDomain host name).Within Incomplete fun _ => True := by
    refine Within.bind (IsQuiet.incomplete (Host.quiet_lookupByName _ _).attempt) fun r _ => ?_
    split
    · exact (plain_libvirtCall host _).mono (fun _ hr => hr.1) fun _ h => h
    · trivial
  refine Within.bind hdestroy fun _ _ => ?_
  have hremove : (removeFinalizer vm Host.finalizer).Within Incomplete fun _ => True := by
    unfold removeFinalizer
    split
    · have hcommit : (commit (dropFinalizer vm (finalizerName Host.finalizer))
          (.removeFinalizer Host.finalizer)).Within Incomplete fun _ => True := by
        refine ⟨nofun, fun a => ?_⟩
        cases a <;> trivial
      exact Within.bind hcommit fun _ _ => trivial
    · trivial
  exact Within.bind hremove fun _ _ => trivial

section Workers

variable [Crates]

abbrev observedAgreement (w : Worker) : Contract Request Request.Answer LoggedWorld :=
  observedTerms.contract cluster.logged (unlogged anything) w

variable {w : Worker} {s t : LoggedWorld} {vm : VirtualMachine} {host name : String}

theorem exec_logged {r : Request} {a : r.Answer}
    (h : cluster.logged.Exec (unlogged anything) w s r a t) :
    cluster.Exec anything w s.1 r a t.1 ∧ t.2 = .call w s.1 r a :: s.2 := by
  obtain ⟨x, -, hx⟩ := h
  obtain ⟨⟨b, u⟩, hu, he⟩ := Option.map_eq_some_iff.mp hx
  cases he
  exact ⟨⟨x, trivial, hu⟩, rfl⟩

/-- What a program keeps that completes no migration. -/
theorem wp_incomplete {α : Type} {p : Prog α} {done : α → Prop}
    {post : Except Error α → World → Prop} (hp : p.Within Incomplete done)
    (h : (agreement w).wp p post s.1) :
    (observedAgreement w).wp p (fun x t => post x t.1) s := by
  have hrely : ∀ s t, (observedAgreement w).rely s t → (agreement w).rely s.1 t.1 :=
    fun _ _ hr => hr.1
  refine wp_project Prod.fst hp (fun _ _ _ _ h => (exec_logged h).1) (fun _ _ => trivial) hrely
    ?_ h
  exact fun s r a t hr _ _ hg => ⟨hg, fun hwr => absurd hwr hr⟩

/-- A worker that is not a host completes none. -/
theorem wp_observed_of_not_host {p : Prog Unit} {post : Except Error Unit → World → Prop}
    (hw : ∀ host k, w ≠ .host host k) (h : (agreement w).wp p post s.1) :
    (observedAgreement w).wp p (fun x t => post x t.1) s := by
  have hrely : ∀ s t, (observedAgreement w).rely s t → (agreement w).rely s.1 t.1 :=
    fun _ _ hr => hr.1
  refine wp_project Prod.fst p.within_any (fun _ _ _ _ h => (exec_logged h).1) (fun _ _ => trivial)
    hrely ?_ h
  refine fun s r a t _ _ _ hg => ⟨hg, fun hwr old new hc => ?_⟩
  rcases hg.wrote hwr with hvms | ⟨old', n, -, hc', he⟩
  · exact absurd hvms hc.ne
  · obtain ⟨host, st, hwh, -⟩ := he
    exact absurd hwh (hw host old'.key)

/-! ## Hosts -/

section Handlers

variable (hs : Snapshot w s.1 vm) (hw : w = .host host vm.key)
include hs hw

/-- The host asks whether the domain is active before it completes the migration. -/
theorem wp_handleInboundMigration_observed (haw : Awaited vm host) :
    (observedAgreement w).wp (Host.handleInboundMigration host vm) (fun _ _ => True) s := by
  obtain ⟨name, hn⟩ := haw.scheduledTo.domainName
  have hquiet : ∀ {α : Type} {p : Prog α} (u : LoggedWorld), IsQuiet p →
      (observedAgreement w).wp p (fun _ t => Keeps w u.1 t.1) u := fun u hp =>
    wp_mono (wp_incomplete (IsQuiet.incomplete hp) (wp_quiet hp u.1)) fun _ _ hx => hx.1
  refine wp_bind (wp_mono (hquiet s (Host.quiet_ensureVniMapping _ _)) fun x t₁ h₁ => ?_)
  cases x with
  | error e => trivial
  | ok _ =>
    refine wp_expect_bind hn ?_
    refine wp_bind (wp_mono (hquiet t₁ (Host.quiet_hasDomain _ _)) fun x t₂ h₂ => ?_)
    cases x with
    | error e => trivial
    | ok has =>
      dsimp only
      split
      · trivial
      · refine wp_bind (wp_mono (hquiet t₂ (Host.quiet_lookupByName _ _).attempt)
          fun x t₃ h₃ => ?_)
        cases x with
        | error e => trivial
        | ok r =>
          cases r with
          | error e => trivial
          | ok _ =>
            rintro s₄ hr - a t₄ hx
            obtain ⟨hexec, hlog⟩ := exec_logged hx
            have hs₄ : Snapshot w s₄.1 vm := hs.keep (h₁.trans (h₂.trans (h₃.trans hr.1)))
            refine ⟨⟨⟨vm, Host.works hs₄ hw hn, haw⟩, fun hwr => nomatch hwr⟩, ?_⟩
            cases a with
            | none => trivial
            | some active =>
              cases active with
              | false => trivial
              | true =>
                obtain ⟨x, -, hx₄⟩ := hexec
                have hans : World.answer w s₄.1 (.libvirt host (.isActive name)) x =
                    some (some true, t₄.1) := hx₄
                have hobs : Observed w t₄ := by
                  refine ⟨vm, host, name, s₄.1, hs₄.keep (keeps_of_answer hans w), hw, hn,
                    hs₄.seen, World.has_of_active hans, ?_⟩
                  rw [hlog, Interaction.recent_call_self]
                  exact List.mem_cons_self
                show (observedAgreement w).wp (Program.ofExcept (tryStatus vm) >>= fun st =>
                  setStatus vm { st with migrationPending := false } .handleInboundMigration) _ t₄
                refine wp_tryStatus_bind (fun _ => trivial) fun st hst => ?_
                rintro s₅ hr₅ - a₅ t₅ hx₅
                obtain ⟨⟨x₅, -, hans₅⟩, -⟩ := exec_logged hx₅
                have hs₅ : Snapshot w s₅.1 vm :=
                  (hs₄.keep (keeps_of_answer hans w)).keep hr₅.1
                have hwrote : Wrote w .handleInboundMigration s₅.1 t₅.1 :=
                  replaceStatus_wrote hs₅.copy.tracks
                    ⟨host, st, hw, haw, hs₅.seen, hst, rfl⟩ hans₅
                refine ⟨⟨hwrote, fun _ _ _ _ => hobs.keep hr₅⟩, ?_⟩
                cases a₅ <;> trivial

theorem wp_reconcile_observed :
    (observedAgreement w).wp (Host.reconcile host vm) (fun _ _ => True) s := by
  have hevent := Host.getEventType_means host vm
  refine wp_bind (wp_mono (wp_incomplete (IsQuiet.incomplete hevent) (wp_quiet hevent s.1))
    fun x t hx => ?_)
  cases x with
  | error e => trivial
  | ok e =>
    have hs' : Snapshot w t.1 vm := hs.keep hx.1
    have hmeans : e.Means host vm := hx.2 e rfl
    cases e with
    | deleted =>
      exact wp_mono (wp_incomplete (incomplete_handleDelete host vm)
        (Host.wp_handleDelete hs' hw hmeans.1 hmeans.2)) fun _ _ _ => trivial
    | added =>
      exact wp_mono (wp_incomplete ((plain_handleAdd host).mono (fun _ hr => hr.1) fun _ h => h)
        (Host.wp_handleAdd hs' hw hmeans.1 hmeans.2)) fun _ _ _ => trivial
    | outboundMigration =>
      obtain ⟨destination, hsch, hne⟩ := hmeans
      exact wp_mono (wp_incomplete
        ((plain_handleOutboundMigration host).mono (fun _ hr => hr.1) fun _ h => h)
        (Host.wp_handleOutboundMigration hs' hw hsch hne)) fun _ _ _ => trivial
    | inboundMigration => exact wp_handleInboundMigration_observed hs' hw hmeans
    | missingDomainName => trivial
    | unscheduled => trivial
    | noNode => trivial
    | notOurs => trivial
    | updated => trivial

end Handlers

theorem wp_launch_observed {n : Nat} {p : Prog Unit}
    (h : cluster.logged.launch w s n = some (p, t)) :
    (observedAgreement w).wp p (fun _ _ => True) t := by
  obtain ⟨⟨q, u⟩, hu, he⟩ := Option.map_eq_some_iff.mp h
  cases he
  by_cases hw : ∃ host k, w = .host host k
  · obtain ⟨host, k, rfl⟩ := hw
    obtain ⟨o, ho, hk, hv, rfl, rfl⟩ := World.launch_some hu
    refine wp_reconcile_observed ⟨ho, hk, ?_⟩ (congrArg (Worker.host host) hk.symm)
    rw [hv]
    exact Function.update_self _ _ _
  · have hl : World.launch w s.1 n = some (q, u) := hu
    exact wp_observed_of_not_host (fun host k hk => hw ⟨host, k, hk⟩) (wp_launch hl)

/-- All reconciles run together on these terms. -/
def observedRegime : Regime cluster.logged (unlogged anything) where
  toTerms := observedTerms
  rely_refl := fun w s => ⟨Keeps.refl w s.1, rfl⟩
  rely_trans := fun _ _ _ _ h h' => ⟨h.1.trans h'.1, h'.2.trans h.2⟩
  call_keeps := by
    intro w s r a t _ hexec _
    obtain ⟨⟨x, -, hx⟩, hlog⟩ := exec_logged hexec
    refine ⟨trivial, fun v hv => ⟨keeps_of_answer hx v, ?_⟩⟩
    rw [hlog]
    exact Interaction.recent_call_of_ne (Ne.symm hv)
  start_keeps := by
    intro w s n p t _ _ hl
    obtain ⟨⟨q, u⟩, hu, he⟩ := Option.map_eq_some_iff.mp hl
    cases he
    obtain ⟨-, hrely, -⟩ := regime.start_keeps w s.1 n _ u trivial trivial hu
    exact ⟨trivial, fun v hv => ⟨hrely v hv, Interaction.recent_start_of_ne (Ne.symm hv)⟩,
      wp_launch_observed hl⟩
  stop_keeps := fun w s _ _ =>
    ⟨trivial, fun v hv => ⟨(regime.stop_keeps w s.1 trivial trivial).2 v hv, rfl⟩⟩
  world_keeps := by
    intro s e t _ _ ht
    obtain ⟨u, hu, he⟩ := Option.map_eq_some_iff.mp ht
    cases he
    exact ⟨trivial, fun v => ⟨(regime.world_keeps s.1 e u trivial trivial hu).2 v, rfl⟩⟩

/-! ## The result -/

/-- A step that ends a pending migration is the write of a host. -/
theorem completes_of_step {s : World} {c d : ClusterConfig} {e : ClusterEvent}
    {old new : VirtualMachine} (hr : cluster.Run anything ⟨s, fun _ => none⟩ c)
    (hs : cluster.Step c e d) (hc : c.state.vms.Changes d.state.vms old new)
    (hold : pending old = true) (hnew : pending new = false) :
    ∃ w r x, e = .call w r x ∧ r.writerOfVm = some .handleInboundMigration ∧
      ∃ n, Effect w c.state old n .handleInboundMigration := by
  cases hs with
  | @call w r k x a t hw hx =>
    have hguar : Guarantee w c.state r t := guarantee_of_run hr (.call hw hx)
    cases hwr : r.writerOfVm with
    | none => exact absurd (World.answer_vms hwr hx) hc.ne
    | some writer =>
      rcases hguar.wrote hwr with hvms | ⟨old', n, -, hc', heff⟩
      · exact absurd hvms hc.ne
      · obtain ⟨rfl, rfl⟩ := hc.unique hc'
        obtain rfl := completes_of_effect heff hold hnew
        exact ⟨w, r, x, rfl, hwr, n, heff⟩
  | @start w i p t hw hl =>
    obtain ⟨o, -, -, -, -, rfl⟩ := World.launch_some hl
    exact absurd rfl hc.ne
  | @stop w p hw => exact absurd (World.release_vms w _) hc.ne
  | @world e t ht =>
    rcases World.happen_vms ht with hvms | ⟨k, labels, annotations, spec, -, hn, hvms⟩ |
      ⟨old', n, htouch, hc'⟩
    · exact absurd hvms hc.ne
    · have hlog := hc.history_eq
      rw [hvms] at hlog
      have hfind := hc.find?_old
      rw [← (List.cons.inj hlog).1] at hfind
      exact absurd (hn.symm.trans hfind) nofun
    · obtain ⟨rfl, rfl⟩ := hc.unique hc'
      have hnew' : pending n = false := hnew
      unfold pending at hold hnew'
      rw [htouch.status, hold] at hnew'
      cases hnew'

/-- In every run, whatever step ends a pending migration is a write of the host that the
stored status names, and this host has found the domain active there since it started from
the stored version. -/
theorem migration_completed_by_target {s : World} {c d : ClusterConfig} {e : ClusterEvent}
    {old new : VirtualMachine} (hr : cluster.Run anything ⟨s, fun _ => none⟩ c)
    (hs : cluster.Step c e d) (hc : c.state.vms.Changes d.state.vms old new)
    (hold : pending old = true) (hnew : pending new = false) :
    ∃ host name r x, e = .call (.host host old.key) r x ∧ getVmNode old = some host ∧
      Host.getDomainName old = some name ∧
      ∃ c₁ c₂ y, cluster.Run anything ⟨s, fun _ => none⟩ c₁ ∧
        c₁.state.seen (.host host old.key) = old.version ∧
        c₁.state.hypervisors.has host name = true ∧
        cluster.Step c₁ (.call (.host host old.key) (.libvirt host (.isActive name)) y) c₂ ∧
        World.answer (.host host old.key) c₁.state (.libvirt host (.isActive name)) y =
          some (some true, c₂.state) ∧
        cluster.Run (Interaction.onward anything (.host host old.key)) c₂ c := by
  obtain ⟨w, r, x, rfl, hwr, n, heff⟩ := completes_of_step hr hs hc hold hnew
  obtain ⟨host, st, rfl, haw, hseen, -, -⟩ := heff
  obtain ⟨log, hlog⟩ := hr.logged
  obtain ⟨log', hstep⟩ := hs.logged log
  have hholds : observedRegime.Holds (c.withLog log) :=
    Regime.run_holds (Regime.holds_idle trivial) hlog
  have hguar : observedTerms.guar (.host host old.key) (c.withLog log).state r
      (d.withLog log').state := Regime.step_guar hholds trivial hstep
  obtain ⟨vm, host', name, u, hsnap, hw, hn, hu, hhas, hin⟩ := hguar.2 hwr old new hc
  -- The version that the host has started from is the stored one.
  have hvm : vm = old := c.state.vms.logged_unique vm hsnap.logged old hc.old_logged
    (hsnap.seen.symm.trans hseen)
  subst hvm
  cases hw
  obtain ⟨c₁, c₂, y, hr₁, rfl, hs₁, hy, hr₂⟩ := Interaction.call_of_recent hlog hin
  refine ⟨host, name, r, x, rfl, ?_, hn, c₁, c₂, y, hr₁, hu, hhas, hs₁, hy, hr₂⟩
  obtain ⟨st', hst', -, hnode, -⟩ := haw
  unfold getVmNode
  rw [hst']
  exact hnode

end Workers

attribute [local instance] plainCrates

/-- The node `a` sends `x` away, the migration completes, and `b` is about to say so. -/
def arriveScript : List ClusterCommand :=
  homeScript ++ leaveScript 5 ++ [.stop (.vm ⟨"n", "x"⟩)] ++ serve (.host "a" ⟨"n", "x"⟩) 6 3 ++
  [.world (.migrationCompletes ⟨"n-x", "a", "b"⟩)] ++ serve (.host "b" ⟨"n", "x"⟩) 6 4

theorem migration_completed_by_target_home :
    ∃ (c d : ClusterConfig) (e : ClusterEvent) (old new : VirtualMachine),
      c.state.vms.Changes d.state.vms old new ∧ pending old = true ∧ pending new = false ∧
      ∃ host r x, e = .call (.host host old.key) r x ∧ getVmNode old = some host := by
  obtain ⟨c, hr, hc⟩ := Interaction.Machine.play_reaches (M := cluster) anything
    ⟨World.initial, fun _ => none⟩ arriveScript
    (fun c => c.state.vms.revision = 6 &&
      ((c.threads (.host "b" ⟨"n", "x"⟩)).bind Program.next?).any
        (fun r => r.writerOfVm = some .handleInboundMigration) &&
      (cluster.obey anything c (.call (.host "b" ⟨"n", "x"⟩) {})).any
        fun d => d.state.vms.revision = 7) (by decide +kernel)
  simp only [Bool.and_eq_true, Option.any_eq_true, decide_eq_true_eq] at hc
  obtain ⟨⟨hold, r, hn, hw⟩, d, hd, hnew⟩ := hc
  obtain ⟨r', hn', -, hs⟩ := Interaction.Machine.obey_call hd
  obtain rfl : r' = r := Option.some.inj (hn'.symm.trans hn)
  rcases (guarantee_of_run hr hs).wrote hw with hvms | ⟨old, n, -, hch, heff⟩
  · rw [hvms, hold] at hnew
    cases hnew
  · have hafter : pending (c.state.vms.stamp n) = false := by
      obtain ⟨host, st, -, -, -, -, rfl⟩ := heff
      rfl
    have hbefore : pending old = true := by
      obtain ⟨host, st, -, ⟨st', hst', -, -, hp⟩, -⟩ := heff
      unfold pending
      rw [hst']
      exact hp
    obtain ⟨host, name, r, x, he, hnode, -⟩ :=
      migration_completed_by_target hr hs hch hbefore hafter
    exact ⟨c, d, _, old, _, hch, hbefore, hafter, host, r, x, he, hnode⟩

end ClusterController
