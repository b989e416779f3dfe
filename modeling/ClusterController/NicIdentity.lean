import Mathlib
import ClusterController.NicSettings

/-!
# The identity of NICs

A NIC of the spec finds its recorded entry by a first-match search, by the name of its
network, or by its bridge. The entry holds its MAC address and its port ID.

* `nics_stay`: a NIC keeps both, if no NIC on a bridge finds the entry of a network.
* `nics_aligned`: no two NICs share either, if moreover no two take over the same.
-/

namespace ClusterController

open ApiServer (Key Resource Collection)
open Interaction (Program)
open Interaction.Program (Outcome Ends Rounds)

/-- No NIC on a bridge takes over the entry of a network. -/
def Fill.OnKeys (f : Fill) : Prop :=
  ∀ nicSpec ∈ f.vm.spec.networks, nicSpec.name = none →
    ∀ e, f.takenOver nicSpec = some e → e.name = none

/-- The same key: the name of the network, or the bridge when there is no name. -/
def SameKey (nic nic' : NetworkAttachment) : Prop :=
  nic.name = nic'.name ∧ (nic.name = none → nic.bridge = nic'.bridge)

/-- Every NIC of the spec has its entry in its place. -/
structure Fill.InOrder (f : Fill) : Prop where
  length_eq : f.nics.length = f.vm.spec.networks.length
  key : ∀ (i : Nat) nicSpec, f.vm.spec.networks[i]? = some nicSpec →
    ∃ nic, f.nics[i]? = some nic ∧ SameKey nicSpec nic

section Order

variable [Crates] {σ : Type} {w : Worker} {view : σ → World}
  {exec : σ → (r : Request) → r.Answer → σ → Prop} {a b : σ} {k : Key} {f : Fill}
  {o : Outcome Error Unit} {nicSpec nic : NetworkAttachment} {i : Nat}

theorem FilledAt.sameKey (h : FilledAt f i nicSpec nic) (hkeys : f.OnKeys)
    (hspec : nicSpec ∈ f.vm.spec.networks) : SameKey nicSpec nic := by
  cases hn : nicSpec.name with
  | some name =>
    refine ⟨?_, fun hnone => ?_⟩
    · rw [h.name_eq (Option.isSome_of_eq_some hn)]
    · rw [hn] at hnone
      cases hnone
  | none =>
    have hname := h.name
    have hbridge := (h.unmanaged hn).1
    cases he : f.takenOver nicSpec with
    | none =>
      rw [Fill.startOf_none he] at hname hbridge
      exact ⟨hname.symm, fun _ => hbridge.symm⟩
    | some e =>
      rw [Fill.startOf_some he] at hname hbridge
      refine ⟨hn.trans (hname.trans (hkeys nicSpec hspec hn e he)).symm, fun _ => ?_⟩
      exact ((mem_of_findMatchingNetwork (he ▸ h.found)).2.2 hn).symm.trans hbridge.symm

theorem FillRun.length_entries (hw : Watches w view exec) (h : FillRun view exec k a f o b) :
    f.entries.length = f.vm.spec.networks.length := by
  obtain ⟨-, -, st, a₁, -, hc, -⟩ := h
  exact hc.length_eq hw

/-- Nothing is dropped. -/
theorem FillRun.nics_eq (hw : Watches w view exec) (h : FillRun view exec k a f o b)
    (hkeys : f.OnKeys) : f.nics = f.entries := by
  have hall : ∀ nic ∈ f.entries, nic ∈ f.nics := by
    intro nic hnic
    obtain ⟨i, hi⟩ := List.mem_iff_getElem?.mp hnic
    have hlt : i < f.vm.spec.networks.length := by
      rw [← h.length_entries hw]
      exact (List.getElem?_eq_some_iff.mp hi).1
    have hspec := List.getElem?_eq_getElem hlt
    obtain ⟨nic', hf⟩ := h.filledAt hw hspec
    obtain rfl : nic = nic' := Option.some.inj (hi.symm.trans hf.entry)
    have hmem := List.mem_of_getElem? hspec
    cases hn : f.vm.spec.networks[i].name with
    | some name => exact h.mem_nics hspec hf (Option.isSome_of_eq_some hn)
    | none =>
      refine (h.mem_nics_unmanaged_iff hmem hf hn).mpr fun e name he hname => ?_
      cases (hkeys _ hmem hn e he).symm.trans hname
  obtain ⟨-, -, st, a₁, -, hc, -⟩ := h
  have hkept := (retain_ok hc.retained).2
  rw [hkept] at hall ⊢
  exact List.filter_eq_self.mpr fun nic hnic => (List.mem_filter.mp (hall nic hnic)).2

theorem FillRun.inOrder (hw : Watches w view exec) (h : FillRun view exec k a f o b)
    (hkeys : f.OnKeys) : f.InOrder := by
  have heq := h.nics_eq hw hkeys
  refine ⟨heq ▸ h.length_entries hw, fun i nicSpec hi => ?_⟩
  obtain ⟨nic, hf⟩ := h.filledAt hw hi
  exact ⟨nic, heq ▸ hf.entry, hf.sameKey hkeys (List.mem_of_getElem? hi)⟩

end Order

/-! ## What a NIC keeps -/

/-- A NIC of the spec whose key no other NIC of the spec has. -/
def KeyedAt (spec : List NetworkAttachment) (i : Nat) (nicSpec : NetworkAttachment) : Prop :=
  spec[i]? = some nicSpec ∧ ∀ j nicSpec', spec[j]? = some nicSpec' → SameKey nicSpec nicSpec' → j = i

/-- A NIC that is in the spec for two runs, under a key of its own, has the same MAC address and the
same port ID after them, unless the spec sets others. -/
def Fill.Keeps (g f : Fill) : Prop :=
  ∀ (i j : Nat) nicSpec nicSpec', KeyedAt g.vm.spec.networks i nicSpec →
    KeyedAt f.vm.spec.networks j nicSpec' → SameKey nicSpec nicSpec' →
    ∃ nic nic', g.nics[i]? = some nic ∧ f.nics[j]? = some nic' ∧
      (nicSpec'.macAddress = none → nic'.macAddress = nic.macAddress) ∧
      (nicSpec'.ovnId = none → nic.ovnId.isSome = true → nic'.ovnId = nic.ovnId)

/-- The run finds what another one has left: the spec, the networks and the recorded NICs. -/
structure Fill.Again (g f : Fill) : Prop where
  spec : f.vm.spec.networks = g.vm.spec.networks
  network : ∀ nicSpec ∈ g.vm.spec.networks, f.network nicSpec = g.network nicSpec
  recorded : recordedNics f.vm = g.nics

/-- NICs with the same key have recorded the same, but for what the spec sets. -/
def Fill.Shares (f : Fill) : Prop :=
  ∀ (i j : Nat) nicSpec nicSpec' nic nic', f.vm.spec.networks[i]? = some nicSpec →
    f.vm.spec.networks[j]? = some nicSpec' → i < j → SameKey nicSpec nicSpec' →
    (recordedNics f.vm)[i]? = some nic → (recordedNics f.vm)[j]? = some nic' →
    nic'.bridge = nic.bridge ∧ nic'.untaggedVlan = nic.untaggedVlan ∧
      nic'.taggedVlans = nic.taggedVlans ∧
      (nicSpec'.macAddress = none → nic'.macAddress = nic.macAddress) ∧
      (nicSpec'.ovnId = none ∨ ¬ f.OnOvn nicSpec' → nic'.ovnId = nic.ovnId)

section Identity

variable [Crates] {k : Key} {f g : Fill} {s t : World} {fills : List Fill}

omit [Crates] in
/-- The entry that a NIC finds is that of the first NIC with its key. -/
theorem Fill.InOrder.takenOver {nicSpec nicSpec' : NetworkAttachment} {i : Nat} (h : g.InOrder)
    (hrec : recordedNics f.vm = g.nics) (hkeys : f.OnKeys) (hspec : nicSpec' ∈ f.vm.spec.networks)
    (hi : g.vm.spec.networks[i]? = some nicSpec) (hk : SameKey nicSpec nicSpec')
    (hfound : findMatchingNetwork (recordedNics f.vm) nicSpec' = .ok (f.takenOver nicSpec')) :
    ∃ i₀ nicSpec₀ e, i₀ ≤ i ∧ g.vm.spec.networks[i₀]? = some nicSpec₀ ∧ SameKey nicSpec₀ nicSpec' ∧
      g.nics[i₀]? = some e ∧ f.takenOver nicSpec' = some e := by
  obtain ⟨own, hown, hownKey⟩ := h.key i nicSpec hi
  rw [hrec] at hfound
  -- The first entry that passes a test which the own entry of the NIC passes.
  have hfirst : ∀ p : NetworkAttachment → Bool, p own = true →
      ∃ i₀ nicSpec₀ e, i₀ ≤ i ∧ g.vm.spec.networks[i₀]? = some nicSpec₀ ∧ SameKey nicSpec₀ e ∧
        g.nics[i₀]? = some e ∧ g.nics.find? p = some e ∧ p e = true := by
    intro p hp
    have hsome : (g.nics.find? p).isSome = true :=
      List.find?_isSome.mpr ⟨own, List.mem_of_getElem? hown, hp⟩
    obtain ⟨e, he⟩ := Option.isSome_iff_exists.mp hsome
    obtain ⟨hpe, i₀, hlt, rfl, hbefore⟩ := List.find?_eq_some_iff_getElem.mp he
    have hle : i₀ ≤ i := by
      by_contra hlt'
      have hnot := hbefore i (Nat.lt_of_not_le hlt')
      rw [(List.getElem?_eq_some_iff.mp hown).2, hp] at hnot
      cases hnot
    have hlt₀ : i₀ < g.vm.spec.networks.length := h.length_eq ▸ hlt
    obtain ⟨nic₀, hnic₀, hk₀⟩ := h.key i₀ _ (List.getElem?_eq_getElem hlt₀)
    rw [List.getElem?_eq_getElem hlt] at hnic₀
    cases hnic₀
    exact ⟨i₀, _, _, hle, List.getElem?_eq_getElem hlt₀, hk₀, List.getElem?_eq_getElem hlt, he, hpe⟩
  cases hn : nicSpec'.name with
  | some name =>
    have hown : own.name = some name := hownKey.1.symm.trans (hk.1.trans hn)
    obtain ⟨i₀, nicSpec₀, e, hle, hspec₀, hk₀, he, hfind, hp⟩ :=
      hfirst (fun candidate => candidate.name = some name) (by simp [hown])
    rw [findMatchingNetwork_named hn, hfind] at hfound
    have hname₀ : nicSpec₀.name = some name := hk₀.1.trans (by simpa using hp)
    refine ⟨i₀, nicSpec₀, e, hle, hspec₀, ⟨hname₀.trans hn.symm, fun hnone => ?_⟩, he,
      (Except.ok.inj hfound).symm⟩
    cases hnone.symm.trans hname₀
  | none =>
    have hnone : nicSpec.name = none := hk.1.trans hn
    cases hb : nicSpec'.bridge with
    | none =>
      unfold findMatchingNetwork at hfound
      simp [hn, hb] at hfound
    | some bridge =>
      have hown : own.bridge = some bridge := (hownKey.2 hnone).symm.trans ((hk.2 hnone).trans hb)
      obtain ⟨i₀, nicSpec₀, e, hle, hspec₀, hk₀, he, hfind, hp⟩ :=
        hfirst (fun candidate => candidate.bridge = some bridge) (by simp [hown])
      rw [findMatchingNetwork_bridge hn hb, hfind] at hfound
      have htaken := (Except.ok.inj hfound).symm
      have hname₀ : nicSpec₀.name = none := hk₀.1.trans (hkeys nicSpec' hspec hn e htaken)
      have hbridge : e.bridge = some bridge := by simpa using hp
      refine ⟨i₀, nicSpec₀, e, hle, hspec₀, ⟨hname₀.trans hn.symm, fun _ => ?_⟩, he, htaken⟩
      exact (hk₀.2 hname₀).trans (hbridge.trans hb.symm)

omit [Crates] in
theorem Fill.network_congr {nicSpec nicSpec' : NetworkAttachment} (h : nicSpec.name = nicSpec'.name) :
    g.network nicSpec = g.network nicSpec' := by
  unfold Fill.network
  rw [h]

/-- A NIC that takes over an entry with a MAC address has it, unless the spec sets another. -/
theorem FilledAt.macAddress_eq {i : Nat} {nicSpec nic e : NetworkAttachment} (h : FilledAt f i nicSpec nic)
    (ht : f.takenOver nicSpec = some e) (hn : nicSpec.macAddress = none)
    (he : e.macAddress.isSome = true) : nic.macAddress = e.macAddress := by
  obtain ⟨mac, he⟩ := Option.isSome_iff_exists.mp he
  rw [h.macAddress.2, hn, Fill.startOf_some ht, he]
  rfl

/-- The same for the port ID. -/
theorem FilledAt.ovnId_eq {i : Nat} {nicSpec nic e : NetworkAttachment} (h : FilledAt f i nicSpec nic)
    (ht : f.takenOver nicSpec = some e)
    (hn : (nicSpec.ovnId = none ∧ e.ovnId.isSome = true) ∨ ¬ f.OnOvn nicSpec) : nic.ovnId = e.ovnId := by
  cases hname : nicSpec.name with
  | none =>
    rw [(h.unmanaged hname).2.2, Fill.startOf_some ht]
  | some name =>
    obtain ⟨network, hnet⟩ := Option.isSome_iff_exists.mp (h.network (Option.isSome_of_eq_some hname))
    by_cases htype : network.spec.networkType = some .evpn
    · rw [(h.evpn network hnet htype).2.2, Fill.startOf_some ht]
    · rcases hn with ⟨hn, he⟩ | hn
      · obtain ⟨-, -, id, hid, hkept⟩ := h.ovn network hnet htype
        obtain ⟨id', he⟩ := Option.isSome_iff_exists.mp he
        rw [hn, Fill.startOf_some ht, he] at hkept
        rw [hid, he, ← hkept]
        rfl
      · exact absurd ⟨network, hnet, htype⟩ hn

/-- A NIC that stays in the spec under a key of its own keeps its MAC address and its port ID. -/
theorem Fill.keeps_of_inOrder {a b c d : World} {o o' : Outcome Error Unit}
    (hg : FillRun id (Served (.vm k)) k a g o b) (hf : FillRun id (Served (.vm k)) k c f o' d)
    (hgkeys : g.OnKeys) (hfkeys : f.OnKeys) (hrec : recordedNics f.vm = g.nics) : g.Keeps f := by
  intro i j nicSpec nicSpec' ⟨hi, hown⟩ ⟨hj, _⟩ hk
  have hw := watches_served (.vm k)
  obtain ⟨nic, hnic⟩ := hg.filledAt hw hi
  obtain ⟨nic', hnic'⟩ := hf.filledAt hw hj
  obtain ⟨i₀, nicSpec₀, e, -, hi₀, hk₀, he, ht⟩ :=
    (hg.inOrder hw hgkeys).takenOver hrec hfkeys (List.mem_of_getElem? hj) hi hk hnic'.found
  have hsame : SameKey nicSpec nicSpec₀ :=
    ⟨hk.1.trans hk₀.1.symm, fun hn => (hk.2 hn).trans (hk₀.2 ((hk₀.1.trans hk.1.symm).trans hn)).symm⟩
  obtain rfl := hown i₀ nicSpec₀ hi₀ hsame
  rw [hg.nics_eq hw hgkeys, hnic.entry] at he
  cases he
  refine ⟨nic, nic', (hg.nics_eq hw hgkeys) ▸ hnic.entry, (hf.nics_eq hw hfkeys) ▸ hnic'.entry,
    fun hm => hnic'.macAddress_eq ht hm hnic.macAddress.1,
    fun hn hs => hnic'.ovnId_eq ht (.inl ⟨hn, hs⟩)⟩

/-- A run that finds what another one has left records the same again. -/
theorem Fill.nics_eq_of_again {a b c d : World} {o o' : Outcome Error Unit}
    (hg : FillRun id (Served (.vm k)) k a g o b) (hf : FillRun id (Served (.vm k)) k c f o' d)
    (hgkeys : g.OnKeys) (hfkeys : f.OnKeys) (hagain : g.Again f) (hshares : f.Shares) :
    f.nics = g.nics := by
  have hw := watches_served (.vm k)
  have hgn := hg.nics_eq hw hgkeys
  have hfn := hf.nics_eq hw hfkeys
  refine List.ext_getElem? fun i => ?_
  cases hi : f.vm.spec.networks[i]? with
  | none =>
    have hle := List.getElem?_eq_none_iff.mp hi
    rw [List.getElem?_eq_none, List.getElem?_eq_none]
    · rwa [(hg.inOrder hw hgkeys).length_eq, ← hagain.spec]
    · rwa [(hf.inOrder hw hfkeys).length_eq]
  | some nicSpec =>
    have hig : g.vm.spec.networks[i]? = some nicSpec := hagain.spec ▸ hi
    obtain ⟨nic, hnic⟩ := hg.filledAt hw hig
    obtain ⟨nic', hnic'⟩ := hf.filledAt hw hi
    obtain ⟨i₀, nicSpec₀, e, hle, hi₀, hk₀, he, ht⟩ := (hg.inOrder hw hgkeys).takenOver hagain.recorded
      hfkeys (List.mem_of_getElem? hi) hig ⟨rfl, fun _ => rfl⟩ hnic'.found
    obtain ⟨e', hfirst⟩ := hg.filledAt hw hi₀
    obtain rfl : e = e' := Option.some.inj (he.symm.trans (hgn ▸ hfirst.entry))
    have hnicAt : g.nics[i]? = some nic := hgn ▸ hnic.entry
    rw [hgn, hnic.entry, hfn, hnic'.entry]
    -- What the NIC takes over agrees with its own entry.
    have hagree : nic.bridge = e.bridge ∧ nic.untaggedVlan = e.untaggedVlan ∧
        nic.taggedVlans = e.taggedVlans ∧ (nicSpec.macAddress = none → nic.macAddress = e.macAddress) ∧
        (nicSpec.ovnId = none ∨ ¬ f.OnOvn nicSpec → nic.ovnId = e.ovnId) := by
      rcases Nat.lt_or_eq_of_le hle with hlt | rfl
      · exact hshares i₀ i nicSpec₀ nicSpec e nic (hagain.spec ▸ hi₀) hi hlt hk₀
          (hagain.recorded ▸ he) (hagain.recorded ▸ hnicAt)
      · cases he.symm.trans hnicAt
        exact ⟨rfl, rfl, rfl, fun _ => rfl, fun _ => rfl⟩
    obtain ⟨hbridge, hvlan, htagged, hmac, hid⟩ := hagree
    have hmem := List.mem_of_getElem? hi
    have hgnet : g.network nicSpec = f.network nicSpec :=
      (hagain.network nicSpec (List.mem_of_getElem? hig)).symm
    have hname' : nic'.name = nic.name :=
      (hnic'.sameKey hfkeys hmem).1.symm.trans (hnic.sameKey hgkeys (List.mem_of_getElem? hig)).1
    have hqueues' : nic'.queues = nic.queues := hnic'.queues.trans hnic.queues.symm
    have htagged' : nic'.taggedVlans = nic.taggedVlans := by
      rw [hnic'.taggedVlans, Fill.startOf_some ht, htagged]
    have hmac' : nic'.macAddress = nic.macAddress := by
      cases hm : nicSpec.macAddress with
      | none => exact (hnic'.macAddress_eq ht hm hfirst.macAddress.1).trans (hmac hm).symm
      | some mac =>
        rw [hnic'.macAddress.2, hnic.macAddress.2, hm]
        rfl
    have hid' : nic'.ovnId = nic.ovnId := by
      by_cases hovn : f.OnOvn nicSpec
      · obtain ⟨network, hnet, htype⟩ := id hovn
        cases hn : nicSpec.ovnId with
        | none =>
          obtain ⟨-, -, eid, heid, -⟩ :=
            hfirst.ovn network ((Fill.network_congr hk₀.1).trans (hgnet.trans hnet)) htype
          exact (hnic'.ovnId_eq ht (.inl ⟨hn, Option.isSome_of_eq_some heid⟩)).trans (hid (.inl hn)).symm
        | some x =>
          obtain ⟨-, -, y, hy, hkept⟩ := hnic'.ovn network hnet htype
          obtain ⟨-, -, z, hz, hkept'⟩ := hnic.ovn network (hgnet.trans hnet) htype
          rw [hn] at hkept hkept'
          rw [hy, hz, ← hkept, ← hkept']
          rfl
      · exact (hnic'.ovnId_eq ht (.inr hovn)).trans (hid (.inr hovn)).symm
    have hwire : nic'.bridge = nic.bridge ∧ nic'.untaggedVlan = nic.untaggedVlan := by
      cases hn : nicSpec.name with
      | none =>
        obtain ⟨hb, hv, -⟩ := hnic'.unmanaged hn
        rw [Fill.startOf_some ht] at hb hv
        exact ⟨hb.trans hbridge.symm, hv.trans hvlan.symm⟩
      | some name =>
        obtain ⟨network, hnet⟩ :=
          Option.isSome_iff_exists.mp (hnic'.network (Option.isSome_of_eq_some hn))
        by_cases htype : network.spec.networkType = some .evpn
        · obtain ⟨hb, hv, -⟩ := hnic'.evpn network hnet htype
          obtain ⟨hb', hv', -⟩ := hnic.evpn network (hgnet.trans hnet) htype
          exact ⟨hb.trans hb'.symm, hv.trans hv'.symm⟩
        · obtain ⟨hb, hv, -⟩ := hnic'.ovn network hnet htype
          rw [Fill.startOf_some ht] at hb hv
          exact ⟨hb.trans hbridge.symm, hv.trans hvlan.symm⟩
    obtain ⟨hbridge', hvlan'⟩ := hwire
    cases nic
    cases nic'
    simp only [Option.some.injEq, NetworkAttachment.mk.injEq]
    exact ⟨hname', hbridge', hmac', hqueues', hid', hvlan', htagged'⟩

/-- In every history in which no NIC on a bridge takes over the entry of a network, a NIC that stays
in the spec under a key of its own keeps its MAC address and its port ID, and a run that finds what
the one before it has left records the same again. -/
theorem nics_stay (h : NicHistory k s fills t) (hkeys : ∀ f ∈ fills, f.OnKeys)
    {later earlier : List Fill} (hfills : fills = later ++ f :: g :: earlier)
    (hrec : recordedNics f.vm = g.nics) : g.Keeps f ∧ (g.Again f → f.Shares → f.nics = g.nics) := by
  have hf : f ∈ fills := hfills ▸ List.mem_append_right _ List.mem_cons_self
  have hg : g ∈ fills := hfills ▸ List.mem_append_right _ (List.mem_cons_of_mem _ List.mem_cons_self)
  obtain ⟨_, _, _, hfrun⟩ := h.run hf
  obtain ⟨_, _, _, hgrun⟩ := h.run hg
  exact ⟨Fill.keeps_of_inOrder hgrun hfrun (hkeys g hg) (hkeys f hf) hrec,
    fun hagain hshares => Fill.nics_eq_of_again hgrun hfrun (hkeys g hg) (hkeys f hf) hagain hshares⟩

end Identity

/-! ## Identities that differ -/

/-- The port IDs that a VM holds, in its status or in its spec. -/
def idsOf (v : VirtualMachine) : List String :=
  (recordedNics v ++ v.spec.networks).filterMap (·.ovnId)

/-- Requests are served, and a drawn UUID has not been drawn before and is none that a VM holds. The
UUIDs that have been drawn are kept beside the cluster. -/
def Drawing (w : Worker) (a : World × List String) :
    (r : Request) → r.Answer → World × List String → Prop
  | .newV4, id, b => Served w a.1 .newV4 id b.1 ∧ b.2 = id :: a.2 ∧ id ∉ a.2 ∧
      ∀ v ∈ a.1.vms.objects, id ∉ idsOf v
  | r, x, b => Served w a.1 r x b.1 ∧ b.2 = a.2

theorem drawing_served {w : Worker} {a b : World × List String} {r : Request} {x : r.Answer}
    (h : Drawing w a r x b) : Served w a.1 r x b.1 := by
  unfold Drawing at h
  split at h
  · exact h.1
  · exact h.1

theorem watches_drawing (w : Worker) : Watches w Prod.fst (Drawing w) := by
  refine ⟨fun _ _ _ _ => drawing_served, fun a κ k x b h => ?_⟩
  have hworld : b.1 = a.1 := (watches_served w).reads _ _ _ _ _ (drawing_served h)
  have hdrawn : b.2 = a.2 := h.2
  exact Prod.ext hworld hdrawn

/-- Anything else that happens. Other UUIDs may be drawn. -/
def ElsewhereDrawing (k : Key) (a b : World × List String) : Prop :=
  Elsewhere k a.1 b.1 ∧ ∀ id ∈ a.2, id ∈ b.2

/-- A history in which UUIDs are drawn. -/
abbrev DrawnHistory [Crates] (k : Key) (a : World × List String) (fills : List Fill)
    (b : World × List String) : Prop :=
  Fills Prod.fst (Drawing (.vm k)) (ElsewhereDrawing k) k a fills b

section Drawn

variable [Crates] {w : Worker} {a b : World × List String}

/-- Each round of a fill has drawn a UUID or none. Those that were drawn differ from each other, from
those that were drawn before and from those that a VM holds. -/
theorem rounds_drawn {ns vmName : String} {old : List NetworkAttachment}
    {nics : List (NetworkAttachment × Nat)} {l : List NetworkAttachment}
    (h : Rounds (Drawing w) (fun nic => fillNic ns vmName old nic.1 nic.2) a nics l b) :
    ∃ ds : List (Option String), ds.length = l.length ∧
      List.Forall₂ (fun nic rd => FilledNic a.1 ns vmName old nic.1 nic.2 rd.2 rd.1) nics (l.zip ds) ∧
      ds.Pairwise (fun d d' => ∀ x, d = some x → d' ≠ some x) ∧
      ∀ x, some x ∈ ds → x ∉ a.2 ∧ ∀ v ∈ a.1.vms.objects, x ∉ idsOf v := by
  induction h with
  | nil => exact ⟨[], rfl, .nil, .nil, nofun⟩
  | @cons a a₁ b nic nics r l hround _ ih =>
    have hw := watches_drawing w
    have hworld : a₁.1 = a.1 := ends_lookup (lookup_fillNic _ _ _ _ _) hw hround
    obtain ⟨drawn, hdraw, hfilled⟩ := ends_fillNic hw hround
    obtain ⟨ds, hlen, hall, hdiffer, hfresh⟩ := ih
    rw [hworld] at hall hfresh
    refine ⟨drawn :: ds, congrArg Nat.succ hlen, .cons hfilled hall, ?_⟩
    cases drawn with
    | none =>
      obtain rfl : a₁ = a := hdraw
      refine ⟨.cons (fun _ _ => nofun) hdiffer, fun x hx => ?_⟩
      rcases List.mem_cons.mp hx with hx | hx
      · cases hx
      · exact hfresh x hx
    | some y =>
      obtain ⟨-, hused, hy, hyv⟩ : Drawing w a .newV4 y a₁ := hdraw
      rw [hused] at hfresh
      refine ⟨.cons (fun d hd x hxy hdx => ?_) hdiffer, fun x hx => ?_⟩
      · cases hxy
        exact (hfresh y (hdx ▸ hd)).1 List.mem_cons_self
      · rcases List.mem_cons.mp hx with hx | hx
        · cases hx
          exact ⟨hy, hyv⟩
        · exact ⟨fun hxa => (hfresh x hx).1 (List.mem_cons_of_mem _ hxa), (hfresh x hx).2⟩

omit [Crates] in
/-- Where the port ID of an entry comes from: the spec, what the NIC starts from, or a draw. -/
theorem FilledFrom.ovnId_cases {s : World} {ns : String} {nicSpec entry nic : NetworkAttachment}
    {drawn : Option String} {x : String} (h : FilledFrom s ns nicSpec entry drawn nic)
    (hx : nic.ovnId = some x) :
    ((∃ name network, nicSpec.name = some name ∧ (s.kube .network).find? ⟨ns, name⟩ = some network ∧
        network.spec.networkType ≠ some .evpn) ∧ nicSpec.ovnId = some x) ∨
      (entry.ovnId = some x ∧ (nicSpec.ovnId = none ∨ ∀ name network, nicSpec.name = some name →
        (s.kube .network).find? ⟨ns, name⟩ = some network → network.spec.networkType = some .evpn)) ∨
      drawn = some x := by
  cases h with
  | unmanaged hn => exact .inr (.inl ⟨hx, .inr fun name _ hname => nomatch hn.symm.trans hname⟩)
  | evpn hn hf ht =>
    refine .inr (.inl ⟨hx, .inr fun name network hname hfound => ?_⟩)
    cases hn.symm.trans hname
    cases hf.symm.trans hfound
    exact ht
  | given hn hf ht hg =>
    cases hx
    exact .inl ⟨⟨_, _, hn, hf, ht⟩, hg⟩
  | kept hn hf ht hg he => exact .inr (.inl ⟨hx, .inl hg⟩)
  | drawn y hn hf ht hg he =>
    cases hx
    exact .inr (.inr rfl)

end Drawn

namespace Fill

variable [Crates]

/-- The MAC address that a NIC gets, if it takes over none: from the spec, or generated. -/
def newMac (f : Fill) (i : Nat) (nicSpec : NetworkAttachment) : Option String :=
  match nicSpec.macAddress, f.takenOver nicSpec with
  | some mac, _ => some mac
  | none, none => (generateMacAddress (namePrefixedWithNamespace f.vm.key) nicSpec i).toOption
  | none, some _ => none

/-- The entry whose MAC address a NIC takes over. -/
def oldMac (f : Fill) (nicSpec : NetworkAttachment) : Option NetworkAttachment :=
  match nicSpec.macAddress with
  | some _ => none
  | none => f.takenOver nicSpec

/-- The port ID that the spec gives to a NIC on an OVN network. -/
def NewId (f : Fill) (nicSpec : NetworkAttachment) (x : String) : Prop :=
  f.OnOvn nicSpec ∧ nicSpec.ovnId = some x

/-- The NIC takes over the port ID of the entry. -/
def OldId (f : Fill) (nicSpec e : NetworkAttachment) : Prop :=
  f.takenOver nicSpec = some e ∧ (nicSpec.ovnId = none ∨ ¬ f.OnOvn nicSpec)

/-- No two NICs take over a MAC address or a port ID from the same entry, and what the spec sets or
the hash gives is not what another NIC has. -/
structure Apart (f : Fill) : Prop where
  keys : f.OnKeys
  macs : ∀ (i j : Nat) nicSpec nicSpec', f.vm.spec.networks[i]? = some nicSpec →
    f.vm.spec.networks[j]? = some nicSpec' → i ≠ j →
    (∀ e, f.oldMac nicSpec = some e → f.oldMac nicSpec' ≠ some e) ∧
    ∀ mac, f.newMac i nicSpec = some mac →
      f.newMac j nicSpec' ≠ some mac ∧ ∀ e, f.oldMac nicSpec' = some e → e.macAddress ≠ some mac
  ids : ∀ (i j : Nat) nicSpec nicSpec', f.vm.spec.networks[i]? = some nicSpec →
    f.vm.spec.networks[j]? = some nicSpec' → i ≠ j →
    (∀ e, e.ovnId.isSome = true → f.OldId nicSpec e → ¬ f.OldId nicSpec' e) ∧
    ∀ x, f.NewId nicSpec x →
      ¬ f.NewId nicSpec' x ∧ ∀ e, f.OldId nicSpec' e → e.ovnId ≠ some x

end Fill

/-- The NICs have neither the same MAC address nor the same port ID. -/
def Differ (nic nic' : NetworkAttachment) : Prop :=
  nic.macAddress ≠ nic'.macAddress ∧ ∀ x, nic.ovnId = some x → nic'.ovnId ≠ some x

instance : Std.Symm Differ := ⟨fun _ _ h => ⟨Ne.symm h.1, fun x hx hx' => h.2 x hx' hx⟩⟩

/-- No two NICs have the same MAC address, and no two have the same port ID. -/
def Distinct (nics : List NetworkAttachment) : Prop := nics.Pairwise Differ

/-- Every NIC of the spec has its entry in its place, and no two share an address or a port ID. -/
structure Fill.Aligned (f : Fill) : Prop where
  inOrder : f.InOrder
  distinct : Distinct f.nics

section Aligned

variable [Crates] {k : Key} {w : Worker} {a b : World × List String} {f : Fill} {fills : List Fill}
  {o : Outcome Error Unit} {nicSpec nic : NetworkAttachment} {i : Nat}

omit [Crates] in
theorem Fill.mem_recorded {e : NetworkAttachment} (h : f.takenOver nicSpec = some e) :
    e ∈ recordedNics f.vm := by
  unfold Fill.takenOver at h
  split at h
  · next found hfound =>
    subst h
    exact (mem_of_findMatchingNetwork hfound).1
  · cases h

omit [Crates] in
theorem Fill.takenOver_of_oldMac {e : NetworkAttachment} (h : f.oldMac nicSpec = some e) :
    f.takenOver nicSpec = some e := by
  unfold Fill.oldMac at h
  split at h
  · cases h
  · exact h

/-- The MAC address is new, or that of the entry that is taken over. -/
theorem FilledAt.mac_cases (h : FilledAt f i nicSpec nic)
    (hmacs : ∀ e ∈ recordedNics f.vm, e.macAddress.isSome = true) :
    f.newMac i nicSpec = nic.macAddress ∨
      ∃ e, f.oldMac nicSpec = some e ∧ e.macAddress = nic.macAddress := by
  unfold Fill.newMac Fill.oldMac
  cases hm : nicSpec.macAddress with
  | some mac =>
    refine .inl ?_
    rw [h.macAddress.2, hm]
    rfl
  | none =>
    cases ht : f.takenOver nicSpec with
    | none =>
      refine .inl ?_
      rw [h.macAddress.2, hm, Fill.startOf_none ht]
      rfl
    | some e =>
      exact .inr ⟨e, rfl, (h.macAddress_eq ht hm (hmacs e (Fill.mem_recorded ht))).symm⟩

/-- The port ID is new, that of the entry that is taken over, or drawn. -/
theorem FilledNic.id_cases {drawn : Option String} {x : String}
    (h : FilledNic f.before f.vm.metadata.ns (namePrefixedWithNamespace f.vm.key) (recordedNics f.vm)
      nicSpec i drawn nic) (hx : nic.ovnId = some x) :
    f.NewId nicSpec x ∨ (∃ e, f.OldId nicSpec e ∧ e.ovnId = some x) ∨ drawn = some x := by
  obtain ⟨⟨found, entry, hfound, hmac, hfrom⟩⟩ := h
  have htaken : f.takenOver nicSpec = found := by
    unfold Fill.takenOver
    rw [hfound]
  have hentry : entry.ovnId = (startNic nicSpec found).ovnId :=
    (congrArg NetworkAttachment.ovnId (fillMac_ok hmac).1 :)
  rcases hfrom.ovnId_cases hx with ⟨⟨name, network, hn, hf, ht⟩, hid⟩ | ⟨hid, hopen⟩ | hd
  · refine .inl ⟨⟨network, ?_, ht⟩, hid⟩
    unfold Fill.network
    rw [hn]
    exact hf
  · rw [hentry] at hid
    cases found with
    | none => cases hid
    | some e =>
      refine .inr (.inl ⟨e, ⟨htaken, hopen.imp_right fun hall => ?_⟩, hid⟩)
      rintro ⟨network, hnet, ht⟩
      obtain ⟨name, hn, hf⟩ := Fill.network_some hnet
      exact ht (hall name network hn hf)
  · exact .inr (.inr hd)

theorem FillRun.distinct (h : FillRun Prod.fst (Drawing w) k a f o b) (hapart : f.Apart)
    (hold : Distinct (recordedNics f.vm))
    (hmacs : ∀ e ∈ recordedNics f.vm, e.macAddress.isSome = true) : Distinct f.nics := by
  have hw := watches_drawing w
  have hlen := h.length_entries hw
  obtain ⟨ds, hdlen, hall, hdiffer, hfresh⟩ : ∃ ds : List (Option String), ds.length = f.entries.length ∧
      List.Forall₂ (fun nic rd => FilledNic f.before f.vm.metadata.ns
        (namePrefixedWithNamespace f.vm.key) (recordedNics f.vm) nic.1 nic.2 rd.2 rd.1)
        f.vm.spec.networks.zipIdx (f.entries.zip ds) ∧
      ds.Pairwise (fun d d' => ∀ x, d = some x → d' ≠ some x) ∧
      ∀ x, some x ∈ ds → x ∉ idsOf f.vm := by
    obtain ⟨hbefore, hstored, st, a₁, -, hc, -⟩ := h
    obtain ⟨ds, hdlen, hall, hdiffer, hfresh⟩ := rounds_drawn hc.rounds
    refine ⟨ds, hdlen, ?_, hdiffer, fun x hx => (hfresh x hx).2 _ (Collection.mem_of_find? hstored)⟩
    rw [hbefore]
    exact hall
  have hspecAt : ∀ i (hi : i < f.entries.length), ∃ nicSpec drawn,
      f.vm.spec.networks[i]? = some nicSpec ∧ ds[i]? = some drawn ∧
      FilledAt f i nicSpec f.entries[i] ∧ FilledNic f.before f.vm.metadata.ns
        (namePrefixedWithNamespace f.vm.key) (recordedNics f.vm) nicSpec i drawn f.entries[i] := by
    intro i hi
    have hs : i < f.vm.spec.networks.length := hlen ▸ hi
    have hd : i < ds.length := hdlen ▸ hi
    obtain ⟨nic, hf⟩ := h.filledAt hw (List.getElem?_eq_getElem hs)
    obtain rfl : f.entries[i] = nic :=
      Option.some.inj ((List.getElem?_eq_getElem hi).symm.trans hf.entry)
    refine ⟨_, _, List.getElem?_eq_getElem hs, List.getElem?_eq_getElem hd, hf, ?_⟩
    have hz : i < f.vm.spec.networks.zipIdx.length := by rwa [List.length_zipIdx]
    have hz' : i < (f.entries.zip ds).length := by
      rw [List.length_zip, hdlen, Nat.min_self]
      exact hi
    have hfilled := (List.forall₂_iff_get.mp hall).2 i hz hz'
    simpa using hfilled
  rw [h.nics_eq hw hapart.keys]
  unfold Distinct
  rw [List.pairwise_iff_getElem]
  intro i j hi hj hij
  obtain ⟨nicSpec, drawn, hs, hd, hf, hn⟩ := hspecAt i hi
  obtain ⟨nicSpec', drawn', hs', hd', hf', hn'⟩ := hspecAt j hj
  have hmem : ∀ {e : NetworkAttachment} {x : String}, e ∈ recordedNics f.vm → e.ovnId = some x →
      x ∈ idsOf f.vm := fun he hx => List.mem_filterMap.mpr ⟨_, List.mem_append_left _ he, hx⟩
  have hgiven : ∀ {n : NetworkAttachment} {l : Nat} {x : String}, f.vm.spec.networks[l]? = some n →
      n.ovnId = some x → x ∈ idsOf f.vm := fun hl hx =>
    List.mem_filterMap.mpr ⟨_, List.mem_append_right _ (List.mem_of_getElem? hl), hx⟩
  refine ⟨fun hsame => ?_, fun x hx hx' => ?_⟩
  · obtain ⟨mac, hmac⟩ := Option.isSome_iff_exists.mp hf.macAddress.1
    obtain ⟨hdiff, hnew⟩ := hapart.macs i j nicSpec nicSpec' hs hs' (Nat.ne_of_lt hij)
    obtain ⟨-, hnew'⟩ := hapart.macs j i nicSpec' nicSpec hs' hs (Nat.ne_of_gt hij)
    rcases hf.mac_cases hmacs with h | ⟨e, he, hem⟩ <;>
      rcases hf'.mac_cases hmacs with h' | ⟨e', he', hem'⟩
    · exact (hnew mac (h.trans hmac)).1 (h'.trans (hsame.symm.trans hmac))
    · exact (hnew mac (h.trans hmac)).2 e' he' (hem'.trans (hsame.symm.trans hmac))
    · exact (hnew' mac (h'.trans (hsame.symm.trans hmac))).2 e he (hem.trans hmac)
    · have hne : e ≠ e' := fun heq => hdiff e he (heq ▸ he')
      have hd := hold.forall (Fill.mem_recorded (Fill.takenOver_of_oldMac he))
        (Fill.mem_recorded (Fill.takenOver_of_oldMac he')) hne
      exact hd.1 (hem.trans (hsame.trans hem'.symm))
  · obtain ⟨hdiff, hnew⟩ := hapart.ids i j nicSpec nicSpec' hs hs' (Nat.ne_of_lt hij)
    obtain ⟨-, hnew'⟩ := hapart.ids j i nicSpec' nicSpec hs' hs (Nat.ne_of_gt hij)
    rcases hn.id_cases hx with h | ⟨e, he, hex⟩ | rfl <;>
      rcases hn'.id_cases hx' with h' | ⟨e', he', hex'⟩ | rfl
    · exact (hnew x h).1 h'
    · exact (hnew x h).2 e' he' hex'
    · exact hfresh x (List.mem_of_getElem? hd') (hgiven hs h.2)
    · exact (hnew' x h').2 e he hex
    · have hne : e ≠ e' := fun heq => hdiff e (Option.isSome_of_eq_some hex) he (heq ▸ he')
      exact (hold.forall (Fill.mem_recorded he.1) (Fill.mem_recorded he'.1) hne).2 x hex hex'
    · exact hfresh x (List.mem_of_getElem? hd') (hmem (Fill.mem_recorded he.1) hex)
    · exact hfresh x (List.mem_of_getElem? hd) (hgiven hs' h'.2)
    · exact hfresh x (List.mem_of_getElem? hd) (hmem (Fill.mem_recorded he'.1) hex')
    · obtain ⟨hi', hd⟩ := List.getElem?_eq_some_iff.mp hd
      obtain ⟨hj', hd'⟩ := List.getElem?_eq_some_iff.mp hd'
      exact List.pairwise_iff_getElem.mp hdiffer i j hi' hj' hij x hd hd'

theorem FillRun.isSome_macAddress (h : FillRun Prod.fst (Drawing w) k a f o b) (hkeys : f.OnKeys) :
    ∀ nic ∈ f.nics, nic.macAddress.isSome = true := by
  have hw := watches_drawing w
  intro nic hnic
  rw [h.nics_eq hw hkeys] at hnic
  obtain ⟨i, hi⟩ := List.mem_iff_getElem?.mp hnic
  have hlt : i < f.vm.spec.networks.length := by
    rw [← h.length_entries hw]
    exact (List.getElem?_eq_some_iff.mp hi).1
  obtain ⟨nic', hf⟩ := h.filledAt hw (List.getElem?_eq_getElem hlt)
  obtain rfl : nic = nic' := Option.some.inj (hi.symm.trans hf.entry)
  exact hf.macAddress.1

/-- In every history in which the runs of `fill_nics` keep NICs apart, the NICs of the status are
those of the spec, in their order, and no two of them share a MAC address or a port ID. -/
theorem nics_aligned (h : DrawnHistory k a fills b)
    (hstart : ∀ v, a.1.vms.find? k = some v → recordedNics v = []) (hapart : ∀ f ∈ fills, f.Apart) :
    ∀ f ∈ fills, f.Aligned := by
  have hw := watches_drawing (.vm k)
  -- Each run finds NICs that differ, and leaves such NICs.
  have hall : ∀ f ∈ fills, f.Aligned ∧ ∀ nic ∈ f.nics, nic.macAddress.isSome = true := by
    induction h with
    | start => exact fun f hf => absurd hf List.not_mem_nil
    | other _ _ ih => exact ih hapart
    | @fill fills f o b c hprev hrun ih =>
      have ih := ih fun g hg => hapart g (List.mem_cons_of_mem _ hg)
      have hf := hapart f List.mem_cons_self
      have hfound : Distinct (recordedNics f.vm) ∧
          ∀ e ∈ recordedNics f.vm, e.macAddress.isSome = true := by
        rcases hprev.recorded hw (fun _ _ h => h.1) hrun.stored hstart with
          hnone | ⟨g, rest, rfl, hrec⟩
        · rw [hnone]
          exact ⟨.nil, nofun⟩
        · rw [hrec]
          obtain ⟨haligned, hmacs⟩ := ih g List.mem_cons_self
          exact ⟨haligned.distinct, hmacs⟩
      have hlast : f.Aligned ∧ ∀ nic ∈ f.nics, nic.macAddress.isSome = true :=
        ⟨⟨hrun.inOrder hw hf.keys, hrun.distinct hf hfound.1 hfound.2⟩, hrun.isSome_macAddress hf.keys⟩
      exact List.forall_mem_cons.mpr ⟨hlast, ih⟩
  exact fun f hf => (hall f hf).1

end Aligned

/-- The last three bytes of the digests for the first two NICs of the VM below, on the network and on
the bridge. -/
@[reducible] def digestCrates : Crates :=
  let digests : List (List UInt8 × List UInt8) :=
    [([110, 45, 118, 109, 110, 101, 116, 0], [233, 251, 122]),
     ([110, 45, 118, 109, 110, 101, 116, 1], [68, 170, 99]),
     ([110, 45, 118, 109, 98, 114, 0], [169, 39, 107]),
     ([110, 45, 118, 109, 98, 114, 1], [176, 48, 105])]
  { plainCrates with
    sha256 := fun bytes i =>
      match digests.find? (·.1 = bytes) with
      | some digest => digest.2.getD (i.val - 29) 0
      | none => 0 }

section Runs

attribute [local instance] digestCrates

/-- A VM with a NIC on an EVPN network and one on the bridge of the network. -/
def sharedBridgeDeeds : List Deed :=
  .happen (.create .network ⟨"n", "net"⟩ [] [] ⟨none, none, some .evpn, some 7, some "br"⟩) ::
    createdOn [nicOn "net", nicAt "br"]

/-- Two runs of `fill_nics` on the stored VM, of which the second finds what the first has left. -/
theorem fills_of_perform [Crates] {s t u : World} {o o' : Outcome Error Unit}
    (h : performFill vmKey s = some (o, t)) (h' : performFill vmKey t = some (o', u))
    (hne : t.vms.revision ≠ s.vms.revision) (hdone : o' = .ok () ∨ u.vms.revision ≠ t.vms.revision) :
    ∃ g f, s.vms.find? vmKey = some g.vm ∧ t.vms.find? vmKey = some f.vm ∧ g.before = s ∧
      f.before = t ∧ recordedNics f.vm = g.nics ∧
      (∀ v, u.vms.find? vmKey = some v → recordedNics v = f.nics) ∧ NicHistory vmKey s [f, g] u := by
  obtain ⟨g, hg, hgs, hgrun⟩ := fillRun_of_perform h (.inr hne)
  obtain ⟨f, hf, hft, hfrun⟩ := fillRun_of_perform h' hdone
  exact ⟨g, f, hg, hf, hgs, hft, hgrun.recorded (watches_served _) hf,
    fun v hv => hfrun.recorded (watches_served _) hv, .fill (.fill .start hgrun) hfrun⟩

/-- The NIC on the bridge takes over the entry of the network, and with it another address. -/
theorem address_changes : ∃ (s t : World) (g f : Fill), Serial Served anyDeed World.initial s ∧
    NicHistory vmKey s [f, g] t ∧ recordedNics f.vm = g.nics ∧ ¬ g.Keeps f ∧ f.nics ≠ g.nics := by
  have h : ((performAll anyRequest anyDeed World.initial sharedBridgeDeeds).any fun s =>
      (performFill vmKey s).any fun q => (performFill vmKey q.2).any fun q' =>
        q.2.vms.revision ≠ s.vms.revision && q'.2.vms.revision ≠ q.2.vms.revision &&
        (s.vms.find? vmKey).any (fun v => v.spec.networks = [nicOn "net", nicAt "br"]) &&
        (q.2.vms.find? vmKey).any fun v => v.spec.networks = [nicOn "net", nicAt "br"] &&
          (q'.2.vms.find? vmKey).any fun v' =>
            (recordedNics v')[1]?.map (·.macAddress) ≠ (recordedNics v)[1]?.map (·.macAddress)) = true := by
    decide +kernel
  simp only [Option.any_eq_true, Bool.and_eq_true, decide_eq_true_eq] at h
  obtain ⟨s, hs, ⟨o, t⟩, ht, ⟨o', u⟩, hu, ⟨⟨hne, hne'⟩, vg, hvg, hgspec⟩, vf, hvf, hfspec, v, hv, hmac⟩ := h
  obtain ⟨g, f, hg, hf, -, -, hrec, hlast, hhist⟩ := fills_of_perform ht hu hne (.inr hne')
  cases hvg.symm.trans hg
  cases hvf.symm.trans hf
  rw [hrec, hlast v hv] at hmac
  -- Each of the two NICs has a key of its own.
  have hkeyed : ∀ spec : List NetworkAttachment, spec = [nicOn "net", nicAt "br"] →
      KeyedAt spec 1 (nicAt "br") := by
    rintro _ rfl
    refine ⟨rfl, fun j nicSpec hj hk => ?_⟩
    have hlt : j < 2 := (List.getElem?_eq_some_iff.mp hj).1
    rcases j with _ | j
    · cases hj
      cases hk.1
    · omega
  refine ⟨s, u, g, f, (serial_of_perform hs).mono (fun _ _ _ _ _ h => h.1) (fun _ _ h => h), hhist, hrec,
    fun hkeeps => ?_, fun heq => hmac (by rw [heq])⟩
  obtain ⟨nic, nic', hnic, hnic', hsame, -⟩ := hkeeps 1 1 (nicAt "br") (nicAt "br") (hkeyed _ hgspec)
    (hkeyed _ hfspec) ⟨rfl, fun _ => rfl⟩
  rw [hnic, hnic'] at hmac
  exact hmac (congrArg some (hsame rfl))

/-- A VM with a NIC on a bridge before the one on the EVPN network of the bridge. -/
def bridgeFirstDeeds : List Deed :=
  .happen (.create .network ⟨"n", "net"⟩ [] [] ⟨none, none, some .evpn, some 7, some "br"⟩) ::
    createdOn [nicAt "br", nicOn "net"]

/-- The NIC on the bridge finds an entry without a name, if any. -/
def findsUnnamed (v : VirtualMachine) : Bool :=
  v.spec.networks = [nicAt "br", nicOn "net"] &&
    ((recordedNics v).find? fun candidate => candidate.bridge = some "br").all fun e => e.name = none

theorem onKeys_of_findsUnnamed {f : Fill} (h : findsUnnamed f.vm = true) : f.OnKeys := by
  unfold findsUnnamed at h
  simp only [Bool.and_eq_true, decide_eq_true_eq] at h
  obtain ⟨hspec, hfirst⟩ := h
  intro nicSpec hmem hn e he
  rw [hspec] at hmem
  simp only [List.mem_cons, List.not_mem_nil, or_false] at hmem
  rcases hmem with rfl | rfl
  · unfold Fill.takenOver at he
    rw [findMatchingNetwork_bridge rfl rfl] at he
    simp only at he
    rw [he] at hfirst
    simpa using hfirst
  · cases hn

/-- The outcome is no failure. -/
def isDone : Outcome Error Unit → Bool
  | .ok _ => true
  | _ => false

theorem eq_ok_of_isDone {o : Outcome Error Unit} (h : isDone o = true) : o = .ok () := by
  cases o with
  | ok _ => rfl
  | err e => cases h
  | aborted m => cases h

/-- A second run leaves the recorded NICs as they are. -/
theorem nics_stay_bridge_first : ∃ g f : Fill, f.vm.spec.networks = [nicAt "br", nicOn "net"] ∧
    g.Keeps f ∧ f.nics = g.nics := by
  have h : ((performAll anyRequest anyDeed World.initial bridgeFirstDeeds).any fun s =>
      (performFill vmKey s).any fun q => (performFill vmKey q.2).any fun q' =>
        q.2.vms.revision ≠ s.vms.revision &&
        isDone q'.1 &&
        decide ((s.kube .network).find? ⟨"n", "net"⟩ = (q.2.kube .network).find? ⟨"n", "net"⟩) &&
        (s.vms.find? vmKey).any (fun v => v.metadata.ns = "n" && findsUnnamed v) &&
        (q.2.vms.find? vmKey).any fun v => v.metadata.ns = "n" && findsUnnamed v) = true := by
    decide +kernel
  simp only [Option.any_eq_true, Bool.and_eq_true, decide_eq_true_eq] at h
  obtain ⟨s, -, ⟨o, t⟩, ht, ⟨o', u⟩, hu, ⟨⟨⟨hne, hok⟩, hnet⟩, vg, hvg, hgns, hgkeys⟩, vf, hvf, hfns, hfkeys⟩ := h
  obtain ⟨g, f, hg, hf, hgs, hft, hrec, -, hhist⟩ :=
    fills_of_perform ht hu hne (.inl (eq_ok_of_isDone hok))
  cases hvg.symm.trans hg
  cases hvf.symm.trans hf
  have hgspec : g.vm.spec.networks = [nicAt "br", nicOn "net"] :=
    of_decide_eq_true ((Bool.and_eq_true _ _).mp hgkeys).1
  have hfspec : f.vm.spec.networks = [nicAt "br", nicOn "net"] :=
    of_decide_eq_true ((Bool.and_eq_true _ _).mp hfkeys).1
  have hkeys : ∀ f' ∈ [f, g], f'.OnKeys := by
    simp only [List.mem_cons, List.not_mem_nil, or_false]
    rintro f' (rfl | rfl)
    · exact onKeys_of_findsUnnamed hfkeys
    · exact onKeys_of_findsUnnamed hgkeys
  obtain ⟨hkeeps, hsame⟩ := nics_stay hhist hkeys (show [f, g] = [] ++ f :: g :: [] from rfl) hrec
  refine ⟨g, f, hfspec, hkeeps, hsame ⟨hfspec.trans hgspec.symm, fun nicSpec hmem => ?_, hrec⟩ ?_⟩
  · rw [hgspec] at hmem
    simp only [List.mem_cons, List.not_mem_nil, or_false] at hmem
    rcases hmem with rfl | rfl
    · rfl
    · show (f.before.kube .network).find? ⟨f.vm.metadata.ns, "net"⟩ =
        (g.before.kube .network).find? ⟨g.vm.metadata.ns, "net"⟩
      rw [hgs, hft, hgns, hfns]
      exact hnet.symm
  · -- The two NICs have different keys.
    intro i j nicSpec nicSpec' nic nic' hi hj hlt hk _ _
    rw [hfspec] at hi hj
    have hj₂ : j < 2 := (List.getElem?_eq_some_iff.mp hj).1
    obtain ⟨rfl, rfl⟩ : i = 0 ∧ j = 1 := by omega
    cases hi
    cases hj
    cases hk.1

/-- Serve a request, with the number of earlier draws for a UUID. -/
def drawServe (w : Worker) (a : World × List String) :
    (r : Request) → Option (r.Answer × (World × List String))
  | .newV4 =>
    let x := "uuid-".pushn '0' a.2.length
    if x ∉ a.2 ∧ ∀ v ∈ a.1.vms.objects, x ∉ idsOf v then some (x, (a.1, x :: a.2)) else none
  | r => (World.answer w a.1 r (plainChoice r)).map fun q => (q.1, (q.2, a.2))

theorem drawing_of_drawServe {w : Worker} {a b : World × List String} {r : Request} {x : r.Answer}
    (h : drawServe w a r = some (x, b)) : Drawing w a r x b := by
  unfold drawServe at h
  split at h
  · dsimp only at h
    split at h
    · next hfresh =>
      cases h
      exact ⟨⟨{ text := _ }, rfl, rfl⟩, rfl, hfresh.1, hfresh.2⟩
    · cases h
  · next hr =>
    obtain ⟨⟨y, t⟩, hans, hq⟩ := Option.map_eq_some_iff.mp h
    cases hq
    have hserved := served_plain hans
    unfold Drawing
    split
    · exact absurd rfl (hr ·)
    · exact ⟨hserved, rfl⟩

/-- A run of `fill_nics` that draws UUIDs. -/
def performDrawn (a : World × List String) : Option (Outcome Error Unit × (World × List String)) :=
  performBy Prod.fst (drawServe (.vm vmKey)) vmKey a

/-- A VM on a network, with the given NICs. -/
def ovnDeeds (networks : List NetworkAttachment) : List Deed :=
  .happen (.create .network ⟨"n", "net"⟩ [] [] ⟨none, none, none, none, none⟩) :: createdOn networks

/-- The first two of exactly two NICs have one port. -/
def sharesPort : List NetworkAttachment → Bool
  | [nic, nic'] => nic.ovnId.isSome && nic.ovnId = nic'.ovnId
  | _ => false

theorem shared_of_sharesPort {l : List NetworkAttachment} (h : sharesPort l = true) :
    ∃ nic nic' x, l = [nic, nic'] ∧ nic.ovnId = some x ∧ nic'.ovnId = some x := by
  unfold sharesPort at h
  split at h
  · next nic nic' =>
    simp only [Bool.and_eq_true, decide_eq_true_eq] at h
    obtain ⟨x, hx⟩ := Option.isSome_iff_exists.mp h.1
    exact ⟨nic, nic', x, rfl, hx, h.2 ▸ hx⟩
  · cases h

/-- Two NICs of one network come to share the port ID of the first, and stay so. -/
theorem port_id_shared : ∃ (s : World) (a b : World × List String) (fills : List Fill) (f : Fill),
    Serial Served anyDeed World.initial s ∧ DrawnHistory vmKey (s, []) (f :: fills) b ∧
    FillRun Prod.fst (Drawing (.vm vmKey)) vmKey a f (.ok ()) b ∧ ¬ f.Aligned := by
  have h : ((performAll anyRequest anyDeed World.initial (ovnDeeds [nicOn "net", nicOn "net"])).any
      fun s => (performDrawn (s, [])).any fun q₁ => (performDrawn q₁.2).any fun q₂ =>
        (performDrawn q₂.2).any fun q₃ =>
          q₁.2.1.vms.revision ≠ s.vms.revision && q₂.2.1.vms.revision ≠ q₁.2.1.vms.revision &&
          isDone q₃.1 && (q₃.2.1.vms.find? vmKey).any fun v => sharesPort (recordedNics v)) = true := by
    decide +kernel
  simp only [Option.any_eq_true, Bool.and_eq_true, decide_eq_true_eq] at h
  obtain ⟨s, hs, ⟨o₁, a⟩, ha, ⟨o₂, b⟩, hb, ⟨o₃, c⟩, hc, ⟨⟨hne₁, hne₂⟩, hok⟩, v, hv, hshared⟩ := h
  obtain rfl := eq_ok_of_isDone hok
  have hw := watches_drawing (.vm vmKey)
  have hserve : ∀ a r x b, drawServe (.vm vmKey) a r = some (x, b) → Drawing (.vm vmKey) a r x b :=
    fun _ _ _ _ h => drawing_of_drawServe h
  obtain ⟨f₁, -, -, hf₁⟩ := fillRun_of_performBy hw hserve ha (.inr hne₁)
  obtain ⟨f₂, -, -, hf₂⟩ := fillRun_of_performBy hw hserve hb (.inr hne₂)
  obtain ⟨f₃, -, -, hf₃⟩ := fillRun_of_performBy hw hserve hc (.inl rfl)
  refine ⟨s, b, c, [f₂, f₁], f₃, (serial_of_perform hs).mono (fun _ _ _ _ _ h => h.1) (fun _ _ h => h),
    .fill (.fill (.fill .start hf₁) hf₂) hf₃, hf₃, fun haligned => ?_⟩
  have hdistinct := haligned.distinct
  rw [← hf₃.recorded hw hv] at hdistinct
  obtain ⟨nic, nic', x, heq, hx, hx'⟩ := shared_of_sharesPort hshared
  rw [heq] at hdistinct
  have hdiffer := List.rel_of_pairwise_cons hdistinct List.mem_cons_self
  exact hdiffer.2 x hx hx'

/-- A NIC on a network and one on a bridge. -/
theorem nics_aligned_two : ∃ f : Fill, f.vm.spec.networks = [nicOn "net", nicAt "br"] ∧ f.Aligned := by
  have h : ((performAll anyRequest anyDeed World.initial (ovnDeeds [nicOn "net", nicAt "br"])).any
      fun s => (performDrawn (s, [])).any fun q =>
        q.2.1.vms.revision ≠ s.vms.revision &&
        (s.vms.find? vmKey).any fun v => v.spec.networks = [nicOn "net", nicAt "br"] &&
          recordedNics v = [] && namePrefixedWithNamespace v.key = "n-vm") = true := by
    decide +kernel
  simp only [Option.any_eq_true, Bool.and_eq_true, decide_eq_true_eq] at h
  obtain ⟨s, -, ⟨o, b⟩, hb, hne, v, hv, ⟨hspec, hrec⟩, hname⟩ := h
  have hserve : ∀ a r x b, drawServe (.vm vmKey) a r = some (x, b) → Drawing (.vm vmKey) a r x b :=
    fun _ _ _ _ h => drawing_of_drawServe h
  obtain ⟨f, hfv, -, hrun⟩ := fillRun_of_performBy (watches_drawing _) hserve hb (.inr hne)
  cases hv.symm.trans hfv
  have hstart : ∀ v, s.vms.find? vmKey = some v → recordedNics v = [] := by
    intro v hv'
    cases hv.symm.trans hv'
    exact hrec
  have hfirst : ∀ nicSpec e, f.takenOver nicSpec ≠ some e := by
    intro nicSpec e
    simp [Fill.takenOver_of_first hrec]
  have hold : ∀ nicSpec e, f.oldMac nicSpec ≠ some e := fun nicSpec e he =>
    hfirst nicSpec e (Fill.takenOver_of_oldMac he)
  have hat : ∀ (i : Nat) nicSpec, f.vm.spec.networks[i]? = some nicSpec →
      nicSpec.ovnId = none ∧ ((i = 0 ∧ f.newMac i nicSpec = some "52:54:00:e9:fb:7a") ∨
        (i = 1 ∧ f.newMac i nicSpec = some "52:54:00:b0:30:69")) := by
    intro i nicSpec hi
    have hlt := (List.getElem?_eq_some_iff.mp hi).1
    rw [hspec] at hi hlt
    unfold Fill.newMac
    rw [Fill.takenOver_of_first hrec, hname]
    have hcases : i = 0 ∨ i = 1 := by
      simp only [List.length_cons, List.length_nil] at hlt
      omega
    rcases hcases with rfl | rfl
    · cases hi
      exact ⟨rfl, .inl ⟨rfl, by decide +kernel⟩⟩
    · cases hi
      exact ⟨rfl, .inr ⟨rfl, by decide +kernel⟩⟩
  have hapart : f.Apart := by
    refine ⟨fun _ _ _ e he => absurd he (hfirst _ e), fun i j nicSpec nicSpec' hi hj hij => ?_,
      fun i j nicSpec nicSpec' hi hj _ => ?_⟩
    · refine ⟨fun e he => absurd he (hold _ e), fun mac hmac => ⟨fun hmac' => ?_,
        fun e he => absurd he (hold _ e)⟩⟩
      rcases (hat i nicSpec hi).2 with ⟨rfl, hm⟩ | ⟨rfl, hm⟩ <;>
        rcases (hat j nicSpec' hj).2 with ⟨rfl, hm'⟩ | ⟨rfl, hm'⟩
      · exact hij rfl
      · exact absurd (Option.some.inj ((hm.symm.trans hmac).trans (hmac'.symm.trans hm'))) (by decide)
      · exact absurd (Option.some.inj ((hm.symm.trans hmac).trans (hmac'.symm.trans hm'))) (by decide)
      · exact hij rfl
    · refine ⟨fun e _ he => absurd he.1 (hfirst _ e), fun x hx => ?_⟩
      cases (hat i nicSpec hi).1.symm.trans hx.2
  refine ⟨f, hspec, nics_aligned (a := (s, [])) (.fill .start hrun) hstart ?_ f List.mem_cons_self⟩
  intro f' hf'
  obtain rfl := List.mem_singleton.mp hf'
  exact hapart

end Runs

end ClusterController
