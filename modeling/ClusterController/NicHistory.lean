import ClusterController.Alone
import ClusterController.Host
import ClusterController.Nics

/-!
# Histories of the NICs of a virtual machine

`fill_nics` runs again and again on the stored VM. In between users edit the VM and the
networks, and other controllers write what is theirs. A history lists the runs that get
through, with what each of them finds and what it records.
-/

namespace ClusterController

open ApiServer (Key Resource Collection)
open Interaction (Program)
open Interaction.Program (Outcome Ends ends_bind)

/-- A run of `fill_nics` that gets through: the cluster and the VM that it finds, the entries that
it computes, one for each NIC of the spec, and those of them that it records. -/
structure Fill where
  before : World
  vm : VirtualMachine
  entries : List NetworkAttachment
  nics : List NetworkAttachment

namespace Fill

/-- The recorded entry that a NIC of the spec takes over. -/
def takenOver (f : Fill) (nicSpec : NetworkAttachment) : Option NetworkAttachment :=
  match findMatchingNetwork (recordedNics f.vm) nicSpec with
  | .ok found => found
  | .error _ => none

/-- The network that a NIC of the spec names. -/
def network (f : Fill) (nicSpec : NetworkAttachment) : Option Network :=
  nicSpec.name.bind fun name => (f.before.kube .network).find? ⟨f.vm.metadata.ns, name⟩

/-- The NIC is on a network of type `ovn`, which is the default. -/
def OnOvn (f : Fill) (nicSpec : NetworkAttachment) : Prop :=
  ∃ network, f.network nicSpec = some network ∧ network.spec.networkType ≠ some .evpn

end Fill

section History

variable [Crates] {σ : Type} {w : Worker} {view : σ → World}
  {exec : σ → (r : Request) → r.Answer → σ → Prop} {other : σ → σ → Prop} {a b c : σ} {k : Key}
  {f : Fill} {fills : List Fill} {o : Outcome Error Unit}

/-- A run of `fill_nics` on the stored VM that computes the entries and saves those that it does
not drop. -/
structure FillRun (view : σ → World) (exec : σ → (r : Request) → r.Answer → σ → Prop) (k : Key)
    (a : σ) (f : Fill) (o : Outcome Error Unit) (b : σ) : Prop where
  before : f.before = view a
  stored : (view a).vms.find? k = some f.vm
  run : ∃ st a₁, f.vm.status = some st ∧ Computed exec f.vm a f.entries f.nics a₁ ∧
    (saveNics f.vm st f.nics).Ends exec a₁ o b

/-- A run of `fill_nics` on the stored VM ends early with nothing done, or it is such a run. -/
theorem fillRun_of_ends (hw : Watches w view exec) {v : VirtualMachine}
    (hv : (view a).vms.find? k = some v) (h : (fillNics v).Ends exec a o b) :
    (view b = view a ∧ o ≠ .ok ()) ∨
      ∃ f : Fill, f.vm = v ∧ FillRun view exec k a f o b := by
  rcases ends_fillNics hw h with hearly | ⟨st, all, kept, a₁, hst, hc, -, hsave⟩
  · exact .inl hearly
  · exact .inr ⟨⟨view a, v, all, kept⟩, rfl, rfl, hv, st, a₁, hst, hc, hsave⟩

omit [Crates] in
theorem recordedNics_of_status {v : VirtualMachine} {st : VirtualMachineStatus}
    (h : v.status = some st) : recordedNics v = st.networks := by
  unfold recordedNics
  rw [h]
  rfl

omit [Crates] in
/-- A write of the whole VM leaves what it records. -/
theorem recorded_of_commit {s t : World} {n v : VirtualMachine} {writer : Writer}
    {nics : List NetworkAttachment} (h : (commit (n : Object .virtualMachine) writer).Ends (Served w) s o t)
    (hn : n.key = k) (hs : ∀ v, s.vms.find? k = some v → recordedNics v = nics)
    (hv : t.vms.find? k = some v) : recordedNics v = nics := by
  rcases ends_commit h with ⟨r, c, hr, -, rfl⟩ | ⟨e, -, -, rfl⟩
  · have hc : (s.setKube .virtualMachine c).vms = c := World.kube_setKube_self
    rw [hc, ← hn] at hv
    obtain ⟨stored, hstored, hst⟩ := Collection.status_of_replace hr hv
    rw [hn] at hstored
    rw [← hs stored hstored]
    unfold recordedNics
    rw [hst]
  · exact hs v hv

/-- After the run the VM records the NICs that the run has kept. -/
theorem FillRun.recorded (hw : Watches w view exec) (h : FillRun view exec k a f o b)
    {v : VirtualMachine} (hv : (view b).vms.find? k = some v) : recordedNics v = f.nics := by
  obtain ⟨-, hstored, st, a₁, hst, hc, hsave⟩ := h
  have hk : f.vm.key = k := Collection.key_of_find? hstored
  rw [← hc.view_eq hw] at hstored
  unfold saveNics onlyIf at hsave
  split at hsave
  · -- The status write is from the stored version, so it is accepted.
    have hwritten : ∀ c, ∀ o' : Outcome Error Unit, (setStatus (f.vm : Object .virtualMachine)
        { st with networks := f.nics } .fillNics).Ends exec a₁ o' c →
        o' = .ok () ∧ ∀ v, (view c).vms.find? k = some v → recordedNics v = f.nics := by
      intro c o' h
      have hcur : (view a₁).vms.replaceStatus f.vm.key f.vm.version { st with networks := f.nics } =
          .ok _ := Collection.replaceStatus_current (hk ▸ hstored)
      rcases ends_setStatus (h.map view hw.served) with ⟨r, d, hr, rfl, ht⟩ | ⟨e, he, -, -⟩
      · refine ⟨rfl, fun v hv => ?_⟩
        have hd : (view c).vms = d := by
          rw [ht]
          exact World.kube_setKube_self
        rw [hd, ← hk] at hv
        exact recordedNics_of_status (Collection.status_of_replaceStatus hr hv).1
      · rw [hcur] at he
        cases he
    rcases ends_bind.mp hsave with ⟨_, c, hset, hrest⟩ | ⟨e, he, -⟩ | ⟨m, hm, -⟩
    · exact recorded_of_commit (hrest.map view hw.served) hk (hwritten c _ hset).2 hv
    · cases (hwritten b _ he).1
    · cases (hwritten b _ hm).1
  · next heq =>
    refine recorded_of_commit (hsave.map view hw.served) hk (fun v hv => ?_) hv
    rw [hstored] at hv
    cases hv
    rw [recordedNics_of_status hst]
    exact not_not.mp heq

/-- What happens besides leaves the recorded NICs, or there is a new VM, which records none. -/
def Elsewhere (k : Key) (s t : World) : Prop :=
  ∀ v', t.vms.find? k = some v' →
    recordedNics v' = [] ∨ ∃ v, s.vms.find? k = some v ∧ recordedNics v' = recordedNics v

/-- A history of a VM, with the runs of `fill_nics` that have got through. The latest comes first. -/
inductive Fills (view : σ → World) (exec : σ → (r : Request) → r.Answer → σ → Prop)
    (other : σ → σ → Prop) (k : Key) (a : σ) : List Fill → σ → Prop
  | start : Fills view exec other k a [] a
  | other {fills : List Fill} {b c : σ} : Fills view exec other k a fills b → other b c →
      Fills view exec other k a fills c
  | fill {fills : List Fill} {f : Fill} {o : Outcome Error Unit} {b c : σ} :
      Fills view exec other k a fills b → FillRun view exec k b f o c →
      Fills view exec other k a (f :: fills) c

/-- A history in which requests are served. -/
abbrev NicHistory (k : Key) (s : World) (fills : List Fill) (t : World) : Prop :=
  Fills id (Served (.vm k)) (Elsewhere k) k s fills t

/-- The run that ends a history. -/
theorem Fills.last (h : Fills view exec other k a (f :: fills) c) :
    ∃ b o c', Fills view exec other k a fills b ∧ FillRun view exec k b f o c' := by
  generalize hl : f :: fills = l at h
  induction h with
  | start => cases hl
  | other _ _ ih => exact ih hl
  | fill hprev hrun _ =>
    cases hl
    exact ⟨_, _, _, hprev, hrun⟩

theorem Fills.run (h : Fills view exec other k a fills c) (hf : f ∈ fills) :
    ∃ b o c', FillRun view exec k b f o c' := by
  induction h with
  | start => cases hf
  | other _ _ ih => exact ih hf
  | fill _ hrun ih =>
    rcases List.mem_cons.mp hf with rfl | hf
    · exact ⟨_, _, _, hrun⟩
    · exact ih hf

/-- What a run finds has been recorded by the one before it, or nothing is recorded. -/
theorem Fills.recorded (hw : Watches w view exec)
    (hother : ∀ b c, other b c → Elsewhere k (view b) (view c))
    (h : Fills view exec other k a fills b) {v : VirtualMachine} (hv : (view b).vms.find? k = some v)
    (hstart : ∀ v, (view a).vms.find? k = some v → recordedNics v = []) :
    recordedNics v = [] ∨ ∃ f rest, fills = f :: rest ∧ recordedNics v = f.nics := by
  induction h generalizing v with
  | start => exact .inl (hstart v hv)
  | other _ hstep ih =>
    rcases hother _ _ hstep v hv with h | ⟨v₀, hv₀, h⟩
    · exact .inl h
    · rw [h]
      exact ih hv₀
  | fill _ hrun _ => exact .inr ⟨_, _, rfl, hrun.recorded hw hv⟩

/-- A run of `fill_nics` on the stored VM, with these answers. -/
def performBy (view : σ → World) (serve : σ → (r : Request) → Option (r.Answer × σ)) (k : Key) (a : σ) :
    Option (Outcome Error Unit × σ) :=
  ((view a).vms.find? k).bind fun v => (fillNics v).runWith serve a

theorem fillRun_of_performBy {serve : σ → (r : Request) → Option (r.Answer × σ)}
    (hw : Watches w view exec) (hserve : ∀ a r x b, serve a r = some (x, b) → exec a r x b)
    (h : performBy view serve k a = some (o, b))
    (hdone : o = .ok () ∨ (view b).vms.revision ≠ (view a).vms.revision) :
    ∃ f, (view a).vms.find? k = some f.vm ∧ f.before = view a ∧ FillRun view exec k a f o b := by
  obtain ⟨v, hv, hrun⟩ := Option.bind_eq_some_iff.mp h
  rcases fillRun_of_ends hw hv (Program.ends_of_runWith hserve hrun) with ⟨hsame, ho⟩ | ⟨f, rfl, hf⟩
  · rcases hdone with h | h
    · exact absurd h ho
    · rw [hsame] at h
      exact absurd rfl h
  · exact ⟨f, hv, hf.before, hf⟩

/-- The same with plain choices. -/
def performFill (k : Key) (s : World) : Option (Outcome Error Unit × World) :=
  performBy id (fun s r => World.answer (.vm k) s r (plainChoice r)) k s

theorem fillRun_of_perform {s t : World} (h : performFill k s = some (o, t))
    (hdone : o = .ok () ∨ t.vms.revision ≠ s.vms.revision) :
    ∃ f, s.vms.find? k = some f.vm ∧ f.before = s ∧ FillRun id (Served (.vm k)) k s f o t :=
  fillRun_of_performBy (watches_served _) (fun _ _ _ _ ha => served_plain ha) h hdone

end History

/-! ## Virtual machines to try -/

/-- A VM. -/
def vmKey : Key := ⟨"n", "vm"⟩

/-- A NIC on a network. -/
def nicOn (network : String) : NetworkAttachment := { NetworkAttachment.default with name := some network }

/-- A NIC on a bridge. -/
def nicAt (bridge : String) : NetworkAttachment := { NetworkAttachment.default with bridge := some bridge }

/-- A spec with the given NICs. -/
def specOn (networks : List NetworkAttachment) : VirtualMachineSpec := { plainSpec with networks := networks }

/-- A VM with the given NICs gets its first status. -/
def createdOn (networks : List NetworkAttachment) : List Deed :=
  [.happen (.create .virtualMachine vmKey [] [] (specOn networks)), .turn (.vm vmKey)]

end ClusterController
