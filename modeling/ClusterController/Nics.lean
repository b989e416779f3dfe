import ClusterController.Quiet
import ClusterController.SwitchPorts

/-!
# The NICs that the status records

What one run of `fill_nics` makes of the recorded entries: for each NIC of the spec the
entry that it starts from, and the fields that are set in it. A run is followed in any state
that the cluster is a part of, so that a history can be kept beside it.
-/

namespace ClusterController

open ApiServer (Key Resource Collection)
open Interaction (Program)
open Interaction.Program (Outcome Ends Rounds ends_bind rounds_of_collect)

/-- The NICs that the status records. -/
def recordedNics (v : VirtualMachine) : List NetworkAttachment := (v.status.map (·.networks)).getD []

/-- Requests are served by the part of the state that is the cluster, and reads change nothing. -/
structure Watches {σ : Type} (w : Worker) (view : σ → World)
    (exec : σ → (r : Request) → r.Answer → σ → Prop) : Prop where
  served : ∀ a r x b, exec a r x b → Served w (view a) r x (view b)
  reads : ∀ a κ k x b, exec a (.kube (.get κ k)) x b → b = a

theorem watches_served (w : Worker) : Watches w id (Served w) := by
  refine ⟨fun _ _ _ _ h => h, fun a κ k x b h => ?_⟩
  obtain ⟨c, hc⟩ := served_kube h
  exact (congrArg Prod.snd hc).symm

section Nics

variable [Crates] {σ : Type} {w : Worker} {view : σ → World}
  {exec : σ → (r : Request) → r.Answer → σ → Prop} {a b : σ}

/-! ## One NIC -/

/-- What becomes of the entry of a NIC once its MAC address is set. The last argument but one is
the port ID that is drawn for it. -/
inductive FilledFrom (s : World) (ns : String) (nicSpec entry : NetworkAttachment) :
    Option String → NetworkAttachment → Prop
  | unmanaged : nicSpec.name = none → FilledFrom s ns nicSpec entry none entry
  | evpn {name : String} {network : Network} : nicSpec.name = some name →
      (s.kube .network).find? ⟨ns, name⟩ = some network →
      network.spec.networkType = some .evpn →
      FilledFrom s ns nicSpec entry none (fillEvpn entry network)
  | given {name id : String} {network : Network} : nicSpec.name = some name →
      (s.kube .network).find? ⟨ns, name⟩ = some network →
      network.spec.networkType ≠ some .evpn → nicSpec.ovnId = some id →
      FilledFrom s ns nicSpec entry none { entry with ovnId := some id }
  | kept {name id : String} {network : Network} : nicSpec.name = some name →
      (s.kube .network).find? ⟨ns, name⟩ = some network →
      network.spec.networkType ≠ some .evpn → nicSpec.ovnId = none → entry.ovnId = some id →
      FilledFrom s ns nicSpec entry none entry
  | drawn {name : String} {network : Network} (id : String) : nicSpec.name = some name →
      (s.kube .network).find? ⟨ns, name⟩ = some network →
      network.spec.networkType ≠ some .evpn → nicSpec.ovnId = none → entry.ovnId = none →
      FilledFrom s ns nicSpec entry (some id) { entry with ovnId := some id }

/-- The entry of a NIC of the spec, from the entries that are recorded. -/
structure FilledNic (s : World) (ns vmName : String) (old : List NetworkAttachment)
    (nicSpec : NetworkAttachment) (index : Nat) (drawn : Option String) (nic : NetworkAttachment) :
    Prop where
  intro ::
  exists_entry : ∃ found entry, findMatchingNetwork old nicSpec = .ok found ∧
    fillMac vmName index nicSpec { startNic nicSpec found with queues := nicSpec.queues } = .ok entry ∧
    FilledFrom s ns nicSpec entry drawn nic

/-- The step that draws a port ID, if one is drawn. -/
def Draws (exec : σ → (r : Request) → r.Answer → σ → Prop) (a : σ) (drawn : Option String) (b : σ) :
    Prop :=
  match drawn with
  | some id => exec a .newV4 id b
  | none => b = a

omit [Crates] in
/-- A part that may panic and otherwise goes on. -/
theorem ends_orPanic_bind {α β : Type} {x : Except String α} {f : α → Prog β} {y : β}
    (h : (orPanic x >>= f).Ends exec a (.ok y) b) : ∃ z, x = .ok z ∧ (f z).Ends exec a (.ok y) b := by
  cases x with
  | ok z => exact ⟨z, rfl, h⟩
  | error m => cases h.1

omit [Crates] in
theorem ends_fillOvnId {s : World} {ns name : String} {network : Network}
    {nicSpec entry nic : NetworkAttachment} (hn : nicSpec.name = some name)
    (hf : (s.kube .network).find? ⟨ns, name⟩ = some network)
    (ht : network.spec.networkType ≠ some .evpn)
    (h : (fillOvnId nicSpec entry).Ends exec a (.ok nic) b) :
    ∃ drawn, Draws exec a drawn b ∧ FilledFrom s ns nicSpec entry drawn nic := by
  unfold fillOvnId at h
  cases hg : nicSpec.ovnId with
  | some id =>
    rw [hg] at h
    obtain ⟨ho, rfl⟩ := h
    cases ho
    exact ⟨none, rfl, .given hn hf ht hg⟩
  | none =>
    rw [hg] at h
    cases he : entry.ovnId with
    | some id =>
      rw [he] at h
      obtain ⟨ho, rfl⟩ := h
      cases ho
      exact ⟨none, rfl, .kept hn hf ht hg he⟩
    | none =>
      rw [he] at h
      obtain ⟨id, a₁, hx, ho, rfl⟩ := h
      cases ho
      exact ⟨some id, hx, .drawn id hn hf ht hg he⟩

theorem ends_fillNic (hw : Watches w view exec) {ns vmName : String} {old : List NetworkAttachment}
    {nicSpec nic : NetworkAttachment} {index : Nat}
    (h : (fillNic ns vmName old nicSpec index).Ends exec a (.ok nic) b) :
    ∃ drawn, Draws exec a drawn b ∧ FilledNic (view a) ns vmName old nicSpec index drawn nic := by
  unfold fillNic at h
  obtain ⟨found, hfound, h⟩ := ends_orPanic_bind h
  dsimp only at h
  obtain ⟨entry, hentry, h⟩ := ends_orPanic_bind h
  have hdone : (∃ drawn, Draws exec a drawn b ∧ FilledFrom (view a) ns nicSpec entry drawn nic) →
      ∃ drawn, Draws exec a drawn b ∧ FilledNic (view a) ns vmName old nicSpec index drawn nic :=
    fun ⟨drawn, hd, hf⟩ => ⟨drawn, hd, ⟨found, entry, hfound, hentry, hf⟩⟩
  refine hdone ?_
  cases hn : nicSpec.name with
  | none =>
    rw [hn] at h
    obtain ⟨ho, rfl⟩ := h
    cases ho
    exact ⟨none, rfl, .unmanaged hn⟩
  | some name =>
    rw [hn] at h
    rcases ends_bind.mp h with ⟨network, a₁, hget, hrest⟩ | ⟨e, -, ho⟩ | ⟨m, -, ho⟩
    · have hstored : a₁ = a ∧ (( view a).kube .network).find? ⟨ns, name⟩ = some network := by
        have hview := hget.map view hw.served
        refine ⟨?_, ?_⟩
        · obtain ⟨x, a₂, hx, hk⟩ := hget
          rw [← hw.reads _ _ _ _ _ hx]
          cases x with
          | ok v => exact hk.2
          | error e => exact hk.2
        · obtain ⟨-, ⟨v, hv, ho⟩ | ⟨-, e, ho⟩⟩ := ends_kubeGet hview
          · cases ho
            exact hv
          · cases ho
      obtain ⟨rfl, hf⟩ := hstored
      cases ht : network.spec.networkType with
      | none =>
        rw [ht] at hrest
        exact ends_fillOvnId hn hf (by rw [ht]; exact nofun) hrest
      | some type =>
        cases type with
        | ovn =>
          rw [ht] at hrest
          exact ends_fillOvnId hn hf (by rw [ht]; exact nofun) hrest
        | evpn =>
          rw [ht] at hrest
          obtain ⟨ho, rfl⟩ := hrest
          cases ho
          exact ⟨none, rfl, .evpn hn hf ht⟩
    · cases ho
    · cases ho

/-! ## All NICs -/

/-- Store the entries, if they differ from the recorded ones, and then the whole object. -/
def saveNics (vm : VirtualMachine) (status : VirtualMachineStatus) (networks : List NetworkAttachment) :
    Prog Unit := do
  onlyIf (status.networks ≠ networks) (setStatus vm { status with networks := networks } .fillNics)
  commit vm .fillNics

/-- The entries that a run of `fill_nics` computes, before and after it drops some. -/
structure Computed (exec : σ → (r : Request) → r.Answer → σ → Prop) (v : VirtualMachine) (a : σ)
    (all kept : List NetworkAttachment) (b : σ) : Prop where
  rounds : Rounds exec (fun nic => fillNic v.metadata.ns (namePrefixedWithNamespace v.key)
    (recordedNics v) nic.1 nic.2) a v.spec.networks.zipIdx all b
  retained : retainNics v.spec.networks all = .ok kept

/-- A read of an object, or the draw of an ID. -/
def Lookup (r : Request) : Prop := r = .newV4 ∨ ∃ κ k, r = .kube (.get κ k)

theorem lookup_fillNic (ns vmName : String) (old : List NetworkAttachment)
    (nicSpec : NetworkAttachment) (index : Nat) :
    (fillNic ns vmName old nicSpec index).Within Lookup fun _ => True := by
  have hid : ∀ entry, (fillOvnId nicSpec entry).Within Lookup fun _ => True := by
    intro entry
    unfold fillOvnId
    split
    · trivial
    · split
      · exact ⟨.inl rfl, fun _ => trivial⟩
      · trivial
  refine .bind (silent_orPanic _).within fun found _ => .bind (silent_orPanic _).within fun entry _ => ?_
  split
  · next name _ =>
    have hget : (kubeGet .network ⟨ns, name⟩).Within Lookup fun _ => True := by
      refine ⟨.inr ⟨_, _, rfl⟩, fun x => ?_⟩
      cases x <;> trivial
    refine .bind hget fun network _ => ?_
    split
    · exact hid _
    · exact hid _
    · trivial
  · trivial

omit [Crates] in
theorem ends_lookup {α : Type} {p : Prog α} {o : Outcome Error α} (hp : p.Within Lookup fun _ => True)
    (hw : Watches w view exec) (h : p.Ends exec a o b) : view b = view a := by
  refine (hp.ends_invariant (I := fun c => view c = view a) (fun c r x d hr hc hx => ?_) rfl h).1
  have hserved := hw.served _ _ _ _ hx
  rw [← hc]
  rcases hr with rfl | ⟨κ, k, rfl⟩
  · obtain ⟨y, -, hy⟩ := hserved
    exact (congrArg Prod.snd (Option.some.inj hy)).symm
  · exact (watches_served w).reads _ _ _ _ _ hserved

/-- A run of `fill_nics` ends early with nothing done, or it stores the entries that it has
computed. -/
theorem ends_fillNics (hw : Watches w view exec) {v : VirtualMachine} {o : Outcome Error Unit}
    (h : (fillNics v).Ends exec a o b) : (view b = view a ∧ o ≠ .ok ()) ∨
      ∃ st all kept a₁, v.status = some st ∧ Computed exec v a all kept a₁ ∧ view a₁ = view a ∧
        (saveNics v st kept).Ends exec a₁ o b := by
  have hlookup : ∀ old, (Program.collect v.spec.networks.zipIdx fun nic =>
      fillNic v.metadata.ns (namePrefixedWithNamespace v.key) old nic.1 nic.2).Within Lookup
        fun _ => True := fun old =>
    (Program.within_collect fun nic _ => lookup_fillNic _ _ old nic.1 nic.2).mono (fun _ hr => hr)
      fun _ _ => trivial
  unfold fillNics tryStatus at h
  cases hst : v.status with
  | none =>
    rw [hst] at h
    obtain ⟨rfl, rfl⟩ := h
    exact .inl ⟨rfl, nofun⟩
  | some st =>
    rw [hst] at h
    change (Program.collect v.spec.networks.zipIdx (fun nic =>
      fillNic v.metadata.ns (namePrefixedWithNamespace v.key) st.networks nic.1 nic.2) >>= fun all =>
        orPanic (retainNics v.spec.networks all) >>= fun kept => saveNics v st kept).Ends exec a o b at h
    have hold : recordedNics v = st.networks := by
      unfold recordedNics
      rw [hst]
      rfl
    rcases ends_bind.mp h with ⟨all, a₁, hall, hrest⟩ | ⟨e, he, rfl⟩ | ⟨m, hm, rfl⟩
    · have hview := ends_lookup (hlookup st.networks) hw hall
      cases hret : retainNics v.spec.networks all with
      | ok kept =>
        rw [hret] at hrest
        refine .inr ⟨st, all, kept, a₁, rfl, ⟨?_, hret⟩, hview, hrest⟩
        rw [hold]
        exact rounds_of_collect hall
      | error m =>
        rw [hret] at hrest
        obtain ⟨rfl, rfl⟩ := hrest
        exact .inl ⟨hview, nofun⟩
    · exact .inl ⟨ends_lookup (hlookup st.networks) hw he, nofun⟩
    · exact .inl ⟨ends_lookup (hlookup st.networks) hw hm, nofun⟩

/-- What is computed changes nothing in the cluster. -/
theorem Computed.view_eq (hw : Watches w view exec) {v : VirtualMachine}
    {all kept : List NetworkAttachment} (h : Computed exec v a all kept b) : view b = view a := by
  have hall : ∀ c (nics : List (NetworkAttachment × Nat)) l d,
      Rounds exec (fun nic => fillNic v.metadata.ns (namePrefixedWithNamespace v.key)
        (recordedNics v) nic.1 nic.2) c nics l d → view d = view c := by
    intro c nics l d hr
    induction hr with
    | nil => rfl
    | cons hround _ ih => exact ih.trans (ends_lookup (lookup_fillNic _ _ _ _ _) hw hround)
  exact hall _ _ _ _ h.rounds

/-- Every NIC of the spec has its entry among those that are computed. -/
theorem Computed.filled (hw : Watches w view exec) {v : VirtualMachine}
    {all kept : List NetworkAttachment} (h : Computed exec v a all kept b) :
    List.Forall₂ (fun nic r => ∃ drawn, FilledNic (view a) v.metadata.ns
      (namePrefixedWithNamespace v.key) (recordedNics v) nic.1 nic.2 drawn r)
      v.spec.networks.zipIdx all := by
  have hall : ∀ c (nics : List (NetworkAttachment × Nat)) l d, view c = view a →
      Rounds exec (fun nic => fillNic v.metadata.ns (namePrefixedWithNamespace v.key)
        (recordedNics v) nic.1 nic.2) c nics l d →
      List.Forall₂ (fun nic r => ∃ drawn, FilledNic (view a) v.metadata.ns
        (namePrefixedWithNamespace v.key) (recordedNics v) nic.1 nic.2 drawn r) nics l := by
    intro c nics l d hc hr
    induction hr with
    | nil => exact .nil
    | cons hround _ ih =>
      obtain ⟨drawn, -, hf⟩ := ends_fillNic hw hround
      rw [hc] at hf
      exact .cons ⟨drawn, hf⟩ (ih ((ends_lookup (lookup_fillNic _ _ _ _ _) hw hround).trans hc))
  exact hall a _ _ _ rfl h.rounds

theorem Computed.length_eq (hw : Watches w view exec) {v : VirtualMachine}
    {all kept : List NetworkAttachment} (h : Computed exec v a all kept b) :
    all.length = v.spec.networks.length := by
  rw [← (h.filled hw).length_eq, List.length_zipIdx]

theorem Computed.filledAt (hw : Watches w view exec) {v : VirtualMachine}
    {all kept : List NetworkAttachment} (h : Computed exec v a all kept b) {i : Nat}
    {nicSpec : NetworkAttachment} (hi : v.spec.networks[i]? = some nicSpec) :
    ∃ nic drawn, all[i]? = some nic ∧ FilledNic (view a) v.metadata.ns
      (namePrefixedWithNamespace v.key) (recordedNics v) nicSpec i drawn nic := by
  obtain ⟨hlt, rfl⟩ := List.getElem?_eq_some_iff.mp hi
  have hlt' : i < all.length := by rwa [h.length_eq hw]
  have hz : i < v.spec.networks.zipIdx.length := by rwa [List.length_zipIdx]
  obtain ⟨drawn, hf⟩ := (List.forall₂_iff_get.mp (h.filled hw)).2 i hz hlt'
  simp only [List.get_eq_getElem, List.getElem_zipIdx, Nat.zero_add] at hf
  exact ⟨all[i], drawn, List.getElem?_eq_getElem hlt', hf⟩

end Nics

/-! ## What the entries hold -/

section Entries

variable [Crates] {s : World} {ns vmName : String} {old : List NetworkAttachment}
  {nicSpec nic entry e : NetworkAttachment} {index : Nat} {drawn : Option String}

omit [Crates] in
theorem findMatchingNetwork_named {name : String} (h : nicSpec.name = some name) :
    findMatchingNetwork old nicSpec = .ok (old.find? fun candidate => candidate.name = some name) := by
  unfold findMatchingNetwork
  rw [h]
  rfl

omit [Crates] in
theorem findMatchingNetwork_bridge {bridge : String} (hn : nicSpec.name = none)
    (hb : nicSpec.bridge = some bridge) :
    findMatchingNetwork old nicSpec =
      .ok (old.find? fun candidate => candidate.bridge = some bridge) := by
  unfold findMatchingNetwork
  rw [hn, hb]
  rfl

omit [Crates] in
/-- An attachment that is found has the name of the one that is searched, if that has one. -/
theorem mem_of_findMatchingNetwork {found : NetworkAttachment}
    (h : findMatchingNetwork old nicSpec = .ok (some found)) :
    found ∈ old ∧ (nicSpec.name.isSome = true → found.name = nicSpec.name) ∧
      (nicSpec.name = none → found.bridge = nicSpec.bridge) := by
  unfold findMatchingNetwork at h
  split at h
  · next hn =>
    have h := Except.ok.inj h
    refine ⟨List.mem_of_find?_eq_some h, fun _ => by simpa using List.find?_some h, fun hnone => ?_⟩
    rw [hnone] at hn
    cases hn
  · next hn =>
    split at h
    · have h := Except.ok.inj h
      exact ⟨List.mem_of_find?_eq_some h, fun hs => absurd hs hn,
        fun _ => by simpa using List.find?_some h⟩
    · cases h

/-- Only the MAC address is set: to that of the spec, the recorded one, or a generated one. -/
theorem fillMac_ok (h : fillMac vmName index nicSpec e = .ok entry) :
    entry = { e with macAddress := entry.macAddress } ∧ entry.macAddress.isSome = true ∧
      entry.macAddress = (nicSpec.macAddress.or e.macAddress).or
        (generateMacAddress vmName nicSpec index).toOption := by
  unfold fillMac at h
  cases hm : nicSpec.macAddress with
  | some mac =>
    rw [hm] at h
    cases h
    exact ⟨rfl, rfl, rfl⟩
  | none =>
    rw [hm] at h
    cases he : e.macAddress with
    | some mac =>
      rw [he] at h
      cases h
      exact ⟨rfl, by rw [he]; rfl, he⟩
    | none =>
      rw [he] at h
      cases hg : generateMacAddress vmName nicSpec index with
      | ok mac =>
        rw [hg] at h
        cases h
        exact ⟨rfl, rfl, rfl⟩
      | error m =>
        rw [hg] at h
        cases h

omit [Crates] in
/-- What a list keeps under a predicate that does not panic. -/
theorem retain_ok {α : Type} {p : α → Except String Bool} {l kept : List α}
    (h : retain p l = .ok kept) :
    (∀ a ∈ l, ∃ keep, p a = .ok keep) ∧ kept = l.filter fun a => p a = .ok true := by
  induction l generalizing kept with
  | nil =>
    cases h
    exact ⟨nofun, rfl⟩
  | cons a as ih =>
    unfold retain at h
    cases hp : p a with
    | error m =>
      rw [hp] at h
      cases h
    | ok keep =>
      rw [hp] at h
      cases hr : retain p as with
      | error m =>
        rw [hr] at h
        cases h
      | ok rest =>
        rw [hr] at h
        obtain ⟨htotal, rfl⟩ := ih hr
        refine ⟨List.forall_mem_cons.mpr ⟨⟨keep, hp⟩, htotal⟩, ?_⟩
        cases keep with
        | true =>
          cases h
          exact (List.filter_cons_of_pos (by simp [hp])).symm
        | false =>
          cases h
          exact (List.filter_cons_of_neg (by simp [hp])).symm

omit [Crates] in
/-- Entries stay if some NIC of the spec matches them. -/
theorem mem_retainNics_iff {spec all kept : List NetworkAttachment} (h : retainNics spec all = .ok kept) :
    nic ∈ kept ↔ nic ∈ all ∧ ∃ nicSpec, findMatchingNetwork spec nic = .ok (some nicSpec) := by
  rw [(retain_ok h).2, List.mem_filter]
  refine and_congr_right fun _ => ?_
  rw [decide_eq_true_eq]
  cases findMatchingNetwork spec nic with
  | error m => exact ⟨nofun, nofun⟩
  | ok found =>
    cases found with
    | none => exact ⟨nofun, nofun⟩
    | some nicSpec => exact iff_of_true rfl ⟨nicSpec, rfl⟩

omit [Crates] in
/-- An entry with a name stays if the spec has a NIC of the name. -/
theorem mem_of_retainNics {spec all kept : List NetworkAttachment} {name : String}
    (h : retainNics spec all = .ok kept) (hnic : nic ∈ all) (hname : nic.name = some name)
    (hspec : ∃ nicSpec ∈ spec, nicSpec.name = some name) : nic ∈ kept := by
  have hfind : (spec.find? fun candidate => candidate.name = some name).isSome = true := by
    simpa [List.find?_isSome] using hspec
  obtain ⟨nicSpec, hfound⟩ := Option.isSome_iff_exists.mp hfind
  exact (mem_retainNics_iff h).mpr
    ⟨hnic, nicSpec, (findMatchingNetwork_named hname).trans (congrArg _ hfound)⟩

end Entries

end ClusterController
