import ClusterController.CephActions
import ClusterController.Panics

/-!
# The image of a volume

The volume controller makes an image, and a virtual machine refers to it by the name of the volume.
Of which size the image is, and which references lead to it.
-/

namespace ClusterController

open ApiServer (KubeError)
open Interaction (Program)
open Interaction.Program (Outcome ends_bind)

/-- Requests are answered in any way: served, failed, or served while the answer is lost. -/
def Performed (w : Worker) (s : World) (r : Request) (a : r.Answer) (t : World) : Prop :=
  ∃ x, World.answer w s r x = some (a, t)

/-! ## Calls of librbd -/

section Calls

variable {w : Worker} {s t : World} {α : Type} {b : α} {o : Outcome Error α}

theorem serveCeph_served (x : Choice) (q : CephRequest) :
    s.serveCeph { x with delivery := .served } q = s.serveCeph x q := by
  cases q <;> rfl

/-- A run goes on after a call exactly where librbd has served it. -/
theorem ends_cephCall {operation : String} {q : CephRequest} {f : q.Answer → Prog α} :
    (cephCall operation q >>= f).Ends (Performed w) s (.ok b) t ↔
      ∃ x v s₁, s.serveCeph x q = (.ok v, s₁) ∧ (f v).Ends (Performed w) s₁ (.ok b) t := by
  constructor
  · rintro ⟨a, s₁, ⟨x, hx⟩, hk⟩
    have hd : x.deliver (.error x.code) s (s.serveCeph x q) = (a, s₁) := Option.some.inj hx
    cases a with
    | error code => cases hk.1
    | ok v =>
      unfold Choice.deliver at hd
      cases hdel : x.delivery with
      | served =>
        rw [hdel] at hd
        exact ⟨x, v, s₁, hd, hk⟩
      | failed =>
        rw [hdel] at hd
        cases hd
      | lost =>
        rw [hdel] at hd
        cases hd
  · rintro ⟨x, v, s₁, h, hk⟩
    refine ⟨.ok v, s₁, ⟨{ x with delivery := .served }, ?_⟩, hk⟩
    rw [← serveCeph_served x q] at h
    show some (_ : Except Int q.Answer × World) = _
    exact congrArg some h

/-- A run goes on with a name exactly where it is a C string. -/
theorem ends_cStringNew {text msg : String} {f : Unit → Prog α} :
    (cStringNew text msg >>= f).Ends (Performed w) s (.ok b) t ↔
      NulFree text ∧ (f ()).Ends (Performed w) s (.ok b) t := by
  unfold cStringNew
  split
  · next h => exact ⟨fun hk => ⟨h, hk⟩, And.right⟩
  · next h => exact ⟨fun hk => (nomatch hk.1), fun hk => absurd hk.1 h⟩

/-- A call whose code is not looked at leaves the images, in any case. -/
theorem ends_unchecked {q : CephRequest} {f : Unit → Prog α}
    (hq : ∀ (s : World) x, (s.serveCeph x q).2.ceph.pools = s.ceph.pools)
    (h : (cephCallUnchecked q >>= f).Ends (Performed w) s o t) :
    ∃ s₁ : World, s₁.ceph.pools = s.ceph.pools ∧ (f ()).Ends (Performed w) s₁ o t := by
  obtain ⟨a, s₁, ⟨x, hx⟩, hk⟩ := h
  refine ⟨s₁, ?_, hk⟩
  have hd : x.deliver (.error x.code) s (s.serveCeph x q) = (a, s₁) := Option.some.inj hx
  unfold Choice.deliver at hd
  split at hd
  · rw [← hq s x, hd]
  · cases hd
    rfl
  · cases hd
    exact hq s x

theorem exists_unchecked {q : CephRequest} {f : Unit → Prog α}
    (h : (f ()).Ends (Performed w) (s.serveCeph {} q).2 o t) :
    (cephCallUnchecked q >>= f).Ends (Performed w) s o t :=
  ⟨_, _, ⟨{}, rfl⟩, h⟩

end Calls

/-! ## The image of a volume -/

/-- Where the image of a volume is. -/
def volumeImage (k : ApiServer.Key) : CephSource := ⟨poolVolumes, namePrefixedWithNamespace k⟩

/-- The image that is made: of the given size, or like the snapshot of the template. An image of the
pool of templates stands for its snapshot `default` here. -/
def newImage (c : CephState) (name : String) (size : UInt64) : Option String → Option RbdImage
  | none => some ⟨name, size, 0⟩
  | some templateName =>
    (c.find? poolTemplates templateName).map fun parent => ⟨name, parent.size, parent.features⟩

/-- The names of the volumes fit into the buffer for their listing. -/
def Listable (c : CephState) : Prop := (listBuffer (c.pools poolVolumes) 32768).isSome = true

section Ensure

variable {w : Worker} {s t : World} {name : String} {size : UInt64} {template : Option String}

/-- The state after the cluster and both pools have been opened. -/
def CephState.openedPools (c : CephState) : CephState :=
  ((c.opened .cluster).opened (.pool poolVolumes)).opened (.pool poolTemplates)

theorem poolOf_opened_of_ne {c : CephState} {h : CephHandle} {n : Nat} (hn : n ≠ c.next) :
    (c.opened h).poolOf n = c.poolOf n := by
  unfold CephState.poolOf CephState.opened
  rw [List.lookup_cons, beq_eq_false_iff_ne.mpr hn]

theorem poolOf_closed_of_ne {c : CephState} {n m : Nat} (hn : n ≠ m) :
    (c.closed m).poolOf n = c.poolOf n := by
  have hlookup : ∀ l : List (Nat × CephHandle), (l.filter fun e => e.1 ≠ m).lookup n = l.lookup n := by
    intro l
    induction l with
    | nil => rfl
    | cons e es ih =>
      rw [List.filter_cons, List.lookup_cons]
      split
      · rw [List.lookup_cons, ih]
      · next he =>
        have hem : e.1 = m := by simpa using he
        rw [ih, hem, beq_eq_false_iff_ne.mpr hn]
  unfold CephState.poolOf CephState.closed
  rw [hlookup]

theorem poolOf_volumes (c : CephState) : c.openedPools.poolOf (c.next + 1) = some poolVolumes := by
  unfold CephState.openedPools
  rw [poolOf_opened_of_ne (by simp [CephState.opened])]
  exact CephState.poolOf_opened

theorem poolOf_templates (c : CephState) : c.openedPools.poolOf (c.next + 2) = some poolTemplates :=
  CephState.poolOf_opened

/-- The state while the template is open. -/
def CephState.openedTemplate (c : CephState) (templateName : String) : CephState :=
  c.openedPools.opened (.image poolTemplates templateName)

theorem poolOf_closedTemplate (c : CephState) (templateName : String) :
    ((c.openedTemplate templateName).closed (c.next + 3)).poolOf (c.next + 1) = some poolVolumes ∧
      ((c.openedTemplate templateName).closed (c.next + 3)).poolOf (c.next + 2) = some poolTemplates := by
  have hnext : c.openedPools.next = c.next + 3 := rfl
  unfold CephState.openedTemplate
  constructor
  · rw [poolOf_closed_of_ne (by omega), poolOf_opened_of_ne (by omega), poolOf_volumes]
  · rw [poolOf_closed_of_ne (by omega), poolOf_opened_of_ne (by omega), poolOf_templates]

theorem imageOf_openedTemplate (c : CephState) (templateName : String) :
    (c.openedTemplate templateName).imageOf (c.next + 3) = some (poolTemplates, templateName) := by
  unfold CephState.imageOf CephState.openedTemplate CephState.opened
  rw [List.lookup_cons]
  have hnext : (c.next + 3 == c.openedPools.next) = true := beq_iff_eq.mpr rfl
  rw [hnext]

/-- What `create_image` and `clone_image` make, if they succeed. -/
theorem ends_makeImage {α : Type} {f : Unit → Prog α} {b : α} {c : CephState} (hs : s.ceph = c.openedPools)
    (h : (Volumes.makeImage (c.next + 1) (c.next + 2) name size template >>= f).Ends (Performed w) s
      (.ok b) t) :
    NulFree name ∧ ∃ image, ∃ s₁ : World, newImage c name size template = some image ∧
      s₁.ceph.pools = (c.modify poolVolumes (image :: ·)).pools ∧
      (f ()).Ends (Performed w) s₁ (.ok b) t := by
  cases template with
  | none =>
    unfold Volumes.makeImage Ceph.createImage at h
    rw [Program.bind_assoc'] at h
    obtain ⟨hname, h⟩ := ends_cStringNew.mp h
    obtain ⟨x, v, s₁, h₁, hk⟩ := ends_cephCall.mp h
    simp only [World.serveCeph, hs, poolOf_volumes] at h₁
    split at h₁
    · cases h₁
    · cases h₁
      exact ⟨hname, ⟨name, size, 0⟩, _, rfl, rfl, hk⟩
  | some templateName =>
    unfold Volumes.makeImage Ceph.cloneImage Ceph.getFeatures at h
    simp only [Program.bind_assoc', Program.pure_eq, Program.ret_bind] at h
    obtain ⟨hname, h⟩ := ends_cStringNew.mp h
    obtain ⟨-, h⟩ := ends_cStringNew.mp h
    obtain ⟨-, h⟩ := ends_cStringNew.mp h
    obtain ⟨-, h⟩ := ends_cStringNew.mp h
    -- The features are read from the open template, which is closed again before the clone.
    obtain ⟨x, i, s₁, h₁, h⟩ := ends_cephCall.mp h
    simp only [World.serveCeph, World.serveCeph.openImage, hs, poolOf_templates] at h₁
    split at h₁
    · next hsome =>
      cases h₁
      obtain ⟨x, features, s₂, h₂, h⟩ := ends_cephCall.mp h
      have himage := imageOf_openedTemplate c templateName
      have hnext : c.openedPools.next = c.next + 3 := rfl
      unfold CephState.openedTemplate at himage
      simp only [World.serveCeph, hnext, himage, CephState.find?_opened] at h₂
      cases hfind : c.openedPools.find? poolTemplates templateName with
      | none =>
        rw [hfind] at hsome
        cases hsome
      | some parent =>
        rw [hfind] at h₂
        cases h₂
        obtain ⟨x, _, s₃, h₃, h⟩ := ends_cephCall.mp h
        cases h₃
        obtain ⟨x, _, s₄, h₄, h⟩ := ends_cephCall.mp h
        have hpools := poolOf_closedTemplate c templateName
        unfold CephState.openedTemplate at hpools
        have hparent : ((c.openedPools.opened (.image poolTemplates templateName)).closed
            (c.next + 3)).find? poolTemplates templateName = some parent := hfind
        simp only [World.serveCeph, hnext, hpools.1, hpools.2, hparent] at h₄
        split at h₄
        · cases h₄
        · cases h₄
          -- The size of the parent, whatever size was asked for.
          refine ⟨hname, ⟨name, parent.size, parent.features⟩, _, ?_, rfl, h⟩
          have hfind' : c.find? poolTemplates templateName = some parent := hfind
          simp only [newImage, hfind', Option.map_some]
    · cases h₁

/-- Where an image can be made, some run makes it. -/
theorem exists_makeImage {α : Type} {f : Unit → Prog α} {b : α} {c : CephState} {image : RbdImage}
    (hs : s.ceph = c.openedPools) (hn : c.Named) (hname : NulFree name)
    (habsent : c.find? poolVolumes name = none) (hnew : newImage c name size template = some image)
    (hf : ∀ s₁ : World, s₁.ceph.pools = (c.modify poolVolumes (image :: ·)).pools →
      ∃ t : World, t.ceph.pools = s₁.ceph.pools ∧ (f ()).Ends (Performed w) s₁ (.ok b) t) :
    ∃ t : World, t.ceph.pools = (c.modify poolVolumes (image :: ·)).pools ∧
      (Volumes.makeImage (c.next + 1) (c.next + 2) name size template >>= f).Ends (Performed w) s
        (.ok b) t := by
  have habsent' : ¬(c.find? poolVolumes name).isSome = true := by simp [habsent]
  cases template with
  | none =>
    obtain rfl : (⟨name, size, 0⟩ : RbdImage) = image := Option.some.inj hnew
    obtain ⟨t, ht, hend⟩ := hf (s.setCeph (c.openedPools.modify poolVolumes (⟨name, size, 0⟩ :: ·))) rfl
    unfold Volumes.makeImage Ceph.createImage
    rw [Program.bind_assoc']
    refine ⟨t, ht, ends_cStringNew.mpr ⟨hname, ends_cephCall.mpr ⟨{}, (), _, ?_, hend⟩⟩⟩
    simp only [World.serveCeph, hs, poolOf_volumes]
    exact if_neg habsent'
  | some templateName =>
    simp only [newImage, Option.map_eq_some_iff] at hnew
    obtain ⟨parent, hfind, rfl⟩ := hnew
    have hsome : (c.find? poolTemplates templateName).isSome = true := by rw [hfind]; rfl
    have htemplate : NulFree templateName :=
      nulFree_of_mem (hn poolTemplates) (CephState.isSome_find?.mp hsome)
    have himage := imageOf_openedTemplate c templateName
    have hpools := poolOf_closedTemplate c templateName
    obtain ⟨t, ht, hend⟩ := hf (s.setCeph (((c.openedTemplate templateName).closed (c.next + 3)).modify
      poolVolumes (⟨name, parent.size, parent.features⟩ :: ·))) rfl
    unfold Volumes.makeImage Ceph.cloneImage Ceph.getFeatures
    simp only [Program.bind_assoc', Program.pure_eq, Program.ret_bind]
    refine ⟨t, ht, ends_cStringNew.mpr ⟨hname, ends_cStringNew.mpr ⟨htemplate, ends_cStringNew.mpr ⟨htemplate,
      ends_cStringNew.mpr ⟨nulFree_default,
      ends_cephCall.mpr ⟨{}, c.next + 3, s.setCeph (c.openedTemplate templateName), ?_,
      ends_cephCall.mpr ⟨{}, parent.features, s.setCeph (c.openedTemplate templateName), ?_,
      ends_cephCall.mpr ⟨{}, (), s.setCeph ((c.openedTemplate templateName).closed (c.next + 3)), rfl,
      ends_cephCall.mpr ⟨{}, (), _, ?_, hend⟩⟩⟩⟩⟩⟩⟩⟩⟩
    · simp only [World.serveCeph, World.serveCeph.openImage, hs, poolOf_templates]
      exact if_pos hsome
    · have hfind' : (c.openedTemplate templateName).find? poolTemplates templateName = some parent := hfind
      simp only [World.serveCeph, World.setCeph, himage, hfind']
    · have hfind' : ((c.openedTemplate templateName).closed (c.next + 3)).find? poolTemplates
          templateName = some parent := hfind
      simp only [World.serveCeph, World.setCeph, hpools.1, hpools.2, hfind']
      exact if_neg habsent'

/-- The first half of `ensure_exists`: the listing of the volumes. -/
theorem ends_listing {f : Nat → Nat → Nat → List String → Prog Unit} (hn : s.ceph.Named) :
    (do
      let cluster ← Ceph.connect
      let volumePool ← Ceph.getPool cluster poolVolumes
      let templatePool ← Ceph.getPool cluster poolTemplates
      let images ← Ceph.getImages volumePool
      f cluster volumePool templatePool images : Prog Unit).Ends (Performed w) s (.ok ()) t ↔
    Listable s.ceph ∧ (f s.ceph.next (s.ceph.next + 1) (s.ceph.next + 2)
      ((s.ceph.pools poolVolumes).map RbdImage.name)).Ends (Performed w) (s.setCeph s.ceph.openedPools)
        (.ok ()) t := by
  unfold Ceph.connect Ceph.getPool Ceph.getImages
  simp only [Program.bind_assoc', Program.pure_eq, Program.ret_bind]
  have hlist : ∀ x buffer, listBuffer (s.ceph.pools poolVolumes) 32768 = some buffer →
      (s.setCeph s.ceph.openedPools).serveCeph x (.rbdList (s.ceph.next + 1) 32768) =
        (.ok buffer, s.setCeph s.ceph.openedPools) := by
    intro x buffer hb
    have hb' : listBuffer (s.ceph.openedPools.pools poolVolumes) 32768 = some buffer := hb
    simp only [World.serveCeph, World.setCeph, poolOf_volumes, hb']
  have hlong : ∀ x, listBuffer (s.ceph.pools poolVolumes) 32768 = none →
      (s.setCeph s.ceph.openedPools).serveCeph x (.rbdList (s.ceph.next + 1) 32768) =
        (.error erange, s.setCeph s.ceph.openedPools) := by
    intro x hb
    have hb' : listBuffer (s.ceph.openedPools.pools poolVolumes) 32768 = none := hb
    simp only [World.serveCeph, World.setCeph, poolOf_volumes, hb']
  constructor
  · intro h
    obtain ⟨_, _, _, h₁, h⟩ := ends_cephCall.mp h
    cases h₁
    obtain ⟨_, _, _, h₂, h⟩ := ends_cephCall.mp h
    cases h₂
    obtain ⟨_, _, _, h₃, h⟩ := ends_cephCall.mp h
    cases h₃
    obtain ⟨_, _, _, h₄, h⟩ := ends_cephCall.mp h
    cases h₄
    obtain ⟨_, _, _, h₅, h⟩ := ends_cephCall.mp h
    cases h₅
    obtain ⟨_, _, _, h₆, h⟩ := ends_cephCall.mp h
    cases h₆
    obtain ⟨x, buffer, s₇, h₇, h⟩ := ends_cephCall.mp h
    cases hb : listBuffer (s.ceph.pools poolVolumes) 32768 with
    | none => cases (hlong x hb).symm.trans h₇
    | some buffer' =>
      cases (hlist x buffer' hb).symm.trans h₇
      rw [nullSeparatedToVec_listBuffer (hn poolVolumes) hb] at h
      exact ⟨by unfold Listable; rw [hb]; rfl, h⟩
  · rintro ⟨hl, h⟩
    obtain ⟨buffer, hb⟩ := Option.isSome_iff_exists.mp hl
    refine ends_cephCall.mpr ⟨{}, _, _, rfl, ends_cephCall.mpr ⟨{}, (), _, rfl,
      ends_cephCall.mpr ⟨{}, (), _, rfl, ends_cephCall.mpr ⟨{}, (), _, rfl,
      ends_cephCall.mpr ⟨{}, _, _, rfl, ends_cephCall.mpr ⟨{}, _, _, rfl,
      ends_cephCall.mpr ⟨{}, buffer, s.setCeph s.ceph.openedPools, ?_, ?_⟩⟩⟩⟩⟩⟩⟩
    · exact hlist {} buffer hb
    · rw [nullSeparatedToVec_listBuffer (hn poolVolumes) hb]
      exact h

/-- The second half of `ensure_exists`: handles are given back. -/
theorem ends_closing {cluster volumePool templatePool : Nat}
    (h : (do
      Ceph.closePool volumePool
      Ceph.closePool templatePool
      Ceph.disconnect cluster : Prog Unit).Ends (Performed w) s (.ok ()) t) :
    t.ceph.pools = s.ceph.pools := by
  rw [← Program.bind_ret (Ceph.disconnect cluster)] at h
  obtain ⟨s₁, h₁, h⟩ := ends_unchecked (fun _ _ => rfl) h
  obtain ⟨s₂, h₂, h⟩ := ends_unchecked (fun _ _ => rfl) h
  obtain ⟨s₃, h₃, -, rfl⟩ := ends_unchecked (fun _ _ => rfl) h
  rw [h₃, h₂, h₁]

theorem exists_closing (cluster volumePool templatePool : Nat) :
    ∃ t : World, t.ceph.pools = s.ceph.pools ∧ (do
      Ceph.closePool volumePool
      Ceph.closePool templatePool
      Ceph.disconnect cluster : Prog Unit).Ends (Performed w) s (.ok ()) t := by
  rw [← Program.bind_ret (Ceph.disconnect cluster)]
  refine ⟨_, ?_, exists_unchecked (exists_unchecked (exists_unchecked ⟨rfl, rfl⟩))⟩
  rfl

/-- An image that is missing is made, and no other is touched. -/
theorem ends_ensureExists (hn : s.ceph.Named) (habsent : s.ceph.find? poolVolumes name = none)
    (h : (Volumes.ensureExists name size template).Ends (Performed w) s (.ok ()) t) :
    Listable s.ceph ∧ NulFree name ∧ ∃ image, newImage s.ceph name size template = some image ∧
      t.ceph.pools = (s.ceph.modify poolVolumes (image :: ·)).pools := by
  obtain ⟨hl, h⟩ := (ends_listing hn).mp h
  rw [onlyIf, if_pos (CephState.find?_eq_none.mp habsent)] at h
  obtain ⟨hname, image, s₁, hnew, hpools, h⟩ := ends_makeImage (s := s.setCeph s.ceph.openedPools) rfl h
  exact ⟨hl, hname, image, hnew, (ends_closing h).trans hpools⟩

theorem exists_ensureExists {image : RbdImage} (hn : s.ceph.Named) (hname : NulFree name)
    (habsent : s.ceph.find? poolVolumes name = none) (hl : Listable s.ceph)
    (hnew : newImage s.ceph name size template = some image) :
    ∃ t : World, t.ceph.pools = (s.ceph.modify poolVolumes (image :: ·)).pools ∧
      (Volumes.ensureExists name size template).Ends (Performed w) s (.ok ()) t := by
  have hmake := exists_makeImage (w := w) (b := ()) (s := s.setCeph s.ceph.openedPools)
    (f := fun _ => do
      Ceph.closePool (s.ceph.next + 1)
      Ceph.closePool (s.ceph.next + 2)
      Ceph.disconnect s.ceph.next) rfl hn hname habsent hnew
    fun s₁ _ => exists_closing _ _ _
  obtain ⟨t, ht, h⟩ := hmake
  refine ⟨t, ht, (ends_listing hn).mpr ⟨hl, ?_⟩⟩
  rw [onlyIf, if_pos (CephState.find?_eq_none.mp habsent)]
  exact h

/-- Where the image is there, some run finds it. -/
theorem exists_ensureExists_present (hn : s.ceph.Named) (hsome : (s.ceph.find? poolVolumes name).isSome = true)
    (hl : Listable s.ceph) : ∃ t : World, t.ceph.pools = s.ceph.pools ∧
      (Volumes.ensureExists name size template).Ends (Performed w) s (.ok ()) t := by
  obtain ⟨t, ht, h⟩ := exists_closing (w := w) (s := s.setCeph s.ceph.openedPools) s.ceph.next (s.ceph.next + 1)
    (s.ceph.next + 2)
  refine ⟨t, ht, (ends_listing hn).mpr ⟨hl, ?_⟩⟩
  rw [onlyIf, if_neg (not_not_intro (CephState.isSome_find?.mp hsome)), Program.ret_bind]
  exact h

end Ensure

/-! ## The size of a new volume -/

section Update

variable {w : Worker} {s t : World} {volume : Volume}

/-- The finalizer of the volume is there, or the API server takes a write that adds it. -/
def Registrable (s : World) (volume : Volume) : Prop :=
  hasFinalizer volume (finalizerName "ceph") = true ∨
    ∃ r, (s.kube .volume).replace (addFinalizer volume (finalizerName "ceph")) = .ok r

/-- A write that is answered was accepted. -/
theorem accepted_of_deliver {κ : Kind} {x : Choice} {s₁ : World} {a : Object κ}
    {result : Except KubeError (Object κ × ApiServer.Collection κ.Spec κ.Status)}
    (h : x.deliver (.error .unreachable) s (s.store κ result) = (.ok a, s₁)) : ∃ r, result = .ok r := by
  cases result with
  | ok r => exact ⟨r, rfl⟩
  | error e =>
    rcases x.deliver_cases (.error .unreachable) s (s.store κ (.error e)) with hd | hd | hd
    all_goals
      have hcontra := hd.symm.trans h
      cases hcontra

/-- The finalizer is registered, and Ceph is left alone. -/
theorem ends_register {f : Volume → Prog Unit}
    (h : (ensureFinalizer volume "ceph" >>= f).Ends (Performed w) s (.ok ()) t) :
    Registrable s volume ∧ ∃ (v : Volume) (s₁ : World), s₁.ceph = s.ceph ∧
      (f v).Ends (Performed w) s₁ (.ok ()) t := by
  unfold ensureFinalizer at h
  split at h
  · obtain ⟨a, s₁, ⟨x, hx⟩, hk⟩ := h
    have hceph : s₁.ceph = s.ceph := (World.answer_frame hx).ceph fun q hq => by cases hq
    cases a with
    | error e => cases hk.1
    | ok a => exact ⟨.inr (accepted_of_deliver (Option.some.inj hx)), _, s₁, hceph, hk⟩
  · next hf => exact ⟨.inl (by simpa using hf), volume, s, rfl, h⟩

theorem exists_register {f : Volume → Prog Unit} {P : World → Prop} (hr : Registrable s volume)
    (hf : ∀ (v : Volume) (s₁ : World), s₁.ceph = s.ceph →
      ∃ t, P t ∧ (f v).Ends (Performed w) s₁ (.ok ()) t) :
    ∃ t, P t ∧ (ensureFinalizer volume "ceph" >>= f).Ends (Performed w) s (.ok ()) t := by
  unfold ensureFinalizer
  split
  · next hno =>
    rcases hr with hyes | ⟨r, hr⟩
    · rw [hyes] at hno
      cases hno
    · obtain ⟨t, ht, hend⟩ := hf (addFinalizer volume (finalizerName "ceph")) (s.setKube .volume r.2) rfl
      refine ⟨t, ht, .ok r.1, s.setKube .volume r.2, ⟨{}, ?_⟩, hend⟩
      show some (s.store .volume _) = _
      rw [hr]
      rfl
  · exact hf volume s rfl

/-- One image has been made in the pool of volumes, of the given name and size, and no other image
of any pool has changed. -/
def Created (s t : World) (name : String) (size : UInt64) : Prop :=
  ∃ image : RbdImage, image.name = name ∧ image.size = size ∧
    t.ceph.pools = Function.update s.ceph.pools poolVolumes (image :: s.ceph.pools poolVolumes)

theorem newImage_name {c : CephState} {name : String} {size : UInt64} {template : Option String}
    {image : RbdImage} (h : newImage c name size template = some image) : image.name = name := by
  cases template with
  | none =>
    cases h
    rfl
  | some templateName =>
    obtain ⟨parent, -, rfl⟩ := Option.map_eq_some_iff.mp h
    rfl

/-- An Ok run of `update_fn` for a volume without an image makes its image. -/
theorem ends_updateVolume [Crates] (hn : s.ceph.Named)
    (habsent : s.ceph.find? poolVolumes (namePrefixedWithNamespace volume.key) = none)
    (h : (Volumes.updateVolume volume).Ends (Performed w) s (.ok ()) t) :
    Registrable s volume ∧ Listable s.ceph ∧ NulFree (namePrefixedWithNamespace volume.key) ∧ ∃ bytes image,
      Crates.parseBytes volume.spec.size = some bytes ∧
      newImage s.ceph (namePrefixedWithNamespace volume.key) bytes volume.spec.template = some image ∧
      t.ceph.pools = (s.ceph.modify poolVolumes (image :: ·)).pools := by
  unfold Volumes.updateVolume at h
  cases hparse : Crates.parseBytes volume.spec.size with
  | none =>
    rw [hparse] at h
    cases h.1
  | some bytes =>
    rw [hparse] at h
    obtain ⟨hr, v, s₁, hceph, h⟩ := ends_register h
    rw [← hceph] at hn habsent
    obtain ⟨hl, hname, image, hnew, hpools⟩ := ends_ensureExists hn habsent h
    rw [hceph] at hl hnew hpools
    exact ⟨hr, hl, hname, bytes, image, rfl, hnew, hpools⟩

theorem exists_updateVolume [Crates] {bytes : UInt64} {image : RbdImage} (hn : s.ceph.Named)
    (hname : NulFree (namePrefixedWithNamespace volume.key))
    (habsent : s.ceph.find? poolVolumes (namePrefixedWithNamespace volume.key) = none)
    (hparse : Crates.parseBytes volume.spec.size = some bytes) (hr : Registrable s volume)
    (hl : Listable s.ceph)
    (hnew : newImage s.ceph (namePrefixedWithNamespace volume.key) bytes volume.spec.template =
      some image) :
    ∃ t : World, t.ceph.pools = (s.ceph.modify poolVolumes (image :: ·)).pools ∧
      (Volumes.updateVolume volume).Ends (Performed w) s (.ok ()) t := by
  unfold Volumes.updateVolume
  rw [hparse]
  refine exists_register hr fun v s₁ hceph => ?_
  rw [← hceph] at hn habsent hl hnew ⊢
  exact exists_ensureExists hn hname habsent hl hnew

/-- What `update_fn` promises for a volume without an image: an image of the size that the volume
asks for, and no other change. -/
def CreatesSized [Crates] (w : Worker) (s : World) (volume : Volume) : Prop :=
  ∀ o t, (Volumes.updateVolume volume).Ends (Performed w) s o t → o = .ok () →
    ∃ bytes, Crates.parseBytes volume.spec.size = some bytes ∧
      Created s t (namePrefixedWithNamespace volume.key) bytes

/-- A clone has the size of its template, whatever the volume asks for. -/
theorem CreatesSized.template_size [Crates] {bytes : UInt64} {templateName : String}
    {template : RbdImage} (h : CreatesSized w s volume) (hn : s.ceph.Named)
    (hname : NulFree (namePrefixedWithNamespace volume.key))
    (habsent : s.ceph.find? poolVolumes (namePrefixedWithNamespace volume.key) = none)
    (hparse : Crates.parseBytes volume.spec.size = some bytes)
    (htemplate : volume.spec.template = some templateName)
    (hfind : s.ceph.find? poolTemplates templateName = some template) (hr : Registrable s volume)
    (hl : Listable s.ceph) : template.size = bytes := by
  have hnew : newImage s.ceph (namePrefixedWithNamespace volume.key) bytes volume.spec.template =
      some ⟨namePrefixedWithNamespace volume.key, template.size, template.features⟩ := by
    rw [htemplate]
    simp only [newImage, hfind, Option.map_some]
  obtain ⟨t, ht, hend⟩ := exists_updateVolume (w := w) hn hname habsent hparse hr hl hnew
  obtain ⟨bytes', hparse', image, -, hsize, hpools⟩ := h _ t hend rfl
  obtain rfl : bytes' = bytes := Option.some.inj (hparse'.symm.trans hparse)
  -- Both say what the pool of volumes starts with.
  have hheads := congrFun (ht.symm.trans hpools) poolVolumes
  simp only [CephState.modify, Function.update_self] at hheads
  rw [← (List.cons.inj hheads).1] at hsize
  exact hsize

/-- A volume whose image is missing gets an image of the size it asks for, and no other image
changes, exactly where its template, if it has one, is of that size or no run succeeds. -/
theorem created_size_iff [Crates] (w : Worker) (s : World) (volume : Volume) (hn : s.ceph.Named)
    (habsent : s.ceph.find? poolVolumes (namePrefixedWithNamespace volume.key) = none) :
    CreatesSized w s volume ↔
    ∀ bytes templateName template, Crates.parseBytes volume.spec.size = some bytes →
      volume.spec.template = some templateName →
      s.ceph.find? poolTemplates templateName = some template →
      NulFree (namePrefixedWithNamespace volume.key) → Registrable s volume → Listable s.ceph →
      template.size = bytes := by
  constructor
  · intro h bytes templateName template hparse htemplate hfind hname hr hl
    exact h.template_size hn hname habsent hparse htemplate hfind hr hl
  · rintro h o t hend rfl
    obtain ⟨hr, hl, hname, bytes, image, hparse, hnew, hpools⟩ := ends_updateVolume hn habsent hend
    refine ⟨bytes, hparse, image, newImage_name hnew, ?_, hpools⟩
    cases htemplate : volume.spec.template with
    | none =>
      rw [htemplate] at hnew
      cases hnew
      rfl
    | some templateName =>
      rw [htemplate] at hnew
      obtain ⟨template, hfind, rfl⟩ := Option.map_eq_some_iff.mp hnew
      exact h bytes templateName template hparse htemplate hfind hname hr hl

end Update

section Runs

/-- Ten GiB are read, and nothing else. -/
@[reducible] def tenGiB : Crates :=
  { plainCrates with parseBytes := fun text => if text = "10GiB" then some 10737418240 else none }

attribute [local instance] tenGiB

/-- A volume that is cloned from the template `base`. -/
def volumeFromTemplate : Volume :=
  ⟨⟨"default", "data", 1, 1, [], [], [finalizerName "ceph"], none⟩, ⟨"10GiB", some "base"⟩, none⟩

/-- Ceph with the template `base` of the given size. -/
def templateWorld (size : UInt64) : World :=
  World.initial.setCeph ⟨Function.update (fun _ => []) poolTemplates [⟨"base", size, 1⟩], [], 0⟩

theorem templateWorld_named (size : UInt64) : (templateWorld size).ceph.Named := by
  intro pool i hi
  by_cases hpool : pool = poolTemplates
  · subst hpool
    obtain rfl : i = ⟨"base", size, 1⟩ := by simpa [templateWorld, World.setCeph] using hi
    show IsCString "base"
    exact ⟨by decide, by decide +kernel⟩
  · simp [templateWorld, World.setCeph, Function.update_of_ne hpool] at hi

theorem volumes_templateWorld (size : UInt64) : (templateWorld size).ceph.pools poolVolumes = [] := by
  have hpool : poolVolumes ≠ poolTemplates := by decide
  simp [templateWorld, World.setCeph, Function.update_of_ne hpool]

theorem absent_templateWorld (size : UInt64) : (templateWorld size).ceph.find? poolVolumes
    (namePrefixedWithNamespace volumeFromTemplate.key) = none := by
  rw [CephState.find?_eq_none, volumes_templateWorld]
  simp

theorem template_templateWorld (size : UInt64) :
    (templateWorld size).ceph.find? poolTemplates "base" = some ⟨"base", size, 1⟩ := by
  unfold CephState.find? templateWorld World.setCeph
  simp

/-- A template of the size that the volume asks for. -/
theorem created_size_sameSize : CreatesSized (.volume volumeFromTemplate.key)
    (templateWorld 10737418240) volumeFromTemplate :=
  (created_size_iff (.volume volumeFromTemplate.key) (templateWorld 10737418240) volumeFromTemplate
    (templateWorld_named _) (absent_templateWorld _)).mpr (by
      intro bytes templateName template hparse htemplate hfind _ _ _
      cases hparse
      cases htemplate
      rw [template_templateWorld] at hfind
      cases hfind
      rfl)

/-- A volume of 10 GiB from a template of 2 GiB has 2 GiB. -/
theorem created_size_ignored : ¬CreatesSized (.volume volumeFromTemplate.key)
    (templateWorld 2147483648) volumeFromTemplate := by
  intro h
  have hl : Listable (templateWorld 2147483648).ceph := by
    unfold Listable
    rw [volumes_templateWorld]
    rfl
  have hsize : (2147483648 : UInt64) = 10737418240 := h.template_size (templateWorld_named _)
    (by decide +kernel) (absent_templateWorld _) rfl rfl (template_templateWorld _) (.inl rfl) hl
  exact absurd hsize (by decide)

end Runs

/-! ## References to volumes -/

section References

variable {w : Worker} {s t : World} {volume : Volume}

/-- An Ok run of `update_fn` for a volume with an image changes no image. -/
theorem ends_ensureExists_present {name : String} {size : UInt64} {template : Option String}
    (hn : s.ceph.Named) (hsome : (s.ceph.find? poolVolumes name).isSome = true)
    (h : (Volumes.ensureExists name size template).Ends (Performed w) s (.ok ()) t) :
    t.ceph.pools = s.ceph.pools := by
  obtain ⟨-, h⟩ := (ends_listing hn).mp h
  rw [onlyIf, if_neg (not_not_intro (CephState.isSome_find?.mp hsome)), Program.ret_bind] at h
  exact ends_closing (s := s.setCeph s.ceph.openedPools) h

/-- After an Ok run of `update_fn` the image of the volume is there. -/
theorem volumeImage_exists [Crates] (hn : s.ceph.Named)
    (h : (Volumes.updateVolume volume).Ends (Performed w) s (.ok ()) t) :
    (t.ceph.find? (volumeImage volume.key).pool (volumeImage volume.key).image).isSome = true := by
  show (t.ceph.find? poolVolumes (namePrefixedWithNamespace volume.key)).isSome = true
  cases hfind : s.ceph.find? poolVolumes (namePrefixedWithNamespace volume.key) with
  | none =>
    obtain ⟨-, -, -, bytes, image, -, hnew, hpools⟩ := ends_updateVolume hn hfind h
    rw [CephState.isSome_find?, hpools]
    simp [CephState.modify, newImage_name hnew]
  | some image =>
    have hsome : (s.ceph.find? poolVolumes (namePrefixedWithNamespace volume.key)).isSome = true := by
      rw [hfind]
      rfl
    unfold Volumes.updateVolume at h
    cases hparse : Crates.parseBytes volume.spec.size with
    | none =>
      rw [hparse] at h
      cases h.1
    | some bytes =>
      rw [hparse] at h
      obtain ⟨-, v, s₁, hceph, h⟩ := ends_register h
      rw [← hceph] at hn hsome
      rw [CephState.isSome_find?, ends_ensureExists_present hn hsome h]
      exact CephState.isSome_find?.mp hsome

namespace Host

theorem splitChar_plain {v : String} (h : ':' ∉ v.toList) : splitChar ':' v = [v] := by
  unfold splitChar
  rw [List.splitOn_eq_singleton h]
  simp

theorem splitChar_schema {schema v : String} (hs : ':' ∉ schema.toList) (hv : ':' ∉ v.toList) :
    splitChar ':' (schema ++ ":" ++ v) = [schema, v] := by
  have hlist : (schema ++ ":" ++ v).toList = schema.toList ++ ':' :: v.toList := by simp
  unfold splitChar
  rw [hlist, List.splitOn_append_cons_self_of_not_mem hs, List.splitOn_eq_singleton hv]
  simp

/-- Two parts are what stands before and after the only colon. -/
theorem eq_of_splitChar {location schema v : String} (h : splitChar ':' location = [schema, v]) :
    ':' ∉ v.toList ∧ location = schema ++ ":" ++ v := by
  have hparts : location.toList.splitOn ':' = [schema.toList, v.toList] := by
    unfold splitChar at h
    have := congrArg (List.map String.toList) h
    simpa using this
  have hlist : location.toList = schema.toList ++ ':' :: v.toList := by
    have hjoin := location.toList.intercalate_splitOn ':'
    rw [hparts] at hjoin
    simpa [List.intercalate] using hjoin.symm
  have hcount : location.toList.count ':' = 1 := by
    have hlen := length_splitOn ':' location.toList
    rw [hparts] at hlen
    simpa using hlen.symm
  constructor
  · rw [hlist, List.count_append, List.count_cons_self] at hcount
    exact List.count_eq_zero.mp (by omega)
  · apply String.toList_inj.mp
    rw [hlist]
    simp

/-- A location that parses is a plain name, or a name after one of the two schemas. -/
theorem parse_forms {location name : String} {schema : StorageType}
    (h : parseStorageLocation location = .ok (schema, name)) :
    ':' ∉ name.toList ∧ (schema = .ceph ∧ (location = name ∨ location = "ceph:" ++ name) ∨
      schema = .filesystem ∧ location = "fs:" ++ name) := by
  unfold parseStorageLocation at h
  split at h
  · next plain hsplit =>
    cases h
    have hlen : location.toList.count ':' = 0 := by
      have hlen := length_splitOn ':' location.toList
      have hone : (location.toList.splitOn ':').length = 1 := by
        have := congrArg List.length hsplit
        unfold splitChar at this
        simpa using this
      omega
    have hplain := splitChar_plain (List.count_eq_zero.mp hlen)
    obtain rfl : location = name := (List.cons.inj (hplain.symm.trans hsplit)).1
    exact ⟨List.count_eq_zero.mp hlen, .inl ⟨rfl, .inl rfl⟩⟩
  · -- One colon: what stands before it must be a schema.
    next scheme rest hsplit =>
    obtain ⟨hrest, rfl⟩ := eq_of_splitChar hsplit
    split at h
    · next hs =>
      cases h
      subst hs
      exact ⟨hrest, .inl ⟨rfl, .inr rfl⟩⟩
    · split at h
      · next hs =>
        cases h
        subst hs
        exact ⟨hrest, .inr ⟨rfl, rfl⟩⟩
      · cases h
  · cases h

theorem parse_plain {v : String} (h : ':' ∉ v.toList) : parseStorageLocation v = .ok (.ceph, v) := by
  unfold parseStorageLocation
  rw [splitChar_plain h]

theorem parse_ceph {v : String} (h : ':' ∉ v.toList) :
    parseStorageLocation ("ceph:" ++ v) = .ok (.ceph, v) := by
  have hname : "ceph:" ++ v = "ceph" ++ ":" ++ v := congrArg (· ++ v) (by decide : "ceph:" = "ceph" ++ ":")
  have hschema : ':' ∉ "ceph".toList := by decide
  unfold parseStorageLocation
  rw [hname, splitChar_schema hschema h]
  rfl

theorem parse_fs {p : String} (h : ':' ∉ p.toList) :
    parseStorageLocation ("fs:" ++ p) = .ok (.filesystem, p) := by
  have hname : "fs:" ++ p = "fs" ++ ":" ++ p := congrArg (· ++ p) (by decide : "fs:" = "fs" ++ ":")
  have hschema : ':' ∉ "fs".toList := by decide
  unfold parseStorageLocation
  rw [hname, splitChar_schema hschema h]
  rfl

/-- What does not parse is rejected with its text. -/
theorem parse_error {location : String} {e : Error} (h : parseStorageLocation location = .error e) :
    e = .storageLocationParse location := by
  unfold parseStorageLocation at h
  split at h
  · cases h
  · split at h
    · cases h
    · split at h
      · cases h
      · cases h
        rfl
  · cases h
    rfl

/-- A plain name or one after `ceph:` refers to the image of the volume, a path after `fs:` to the
file, and nothing else is taken. -/
def ResolvesAsMeant (ns : String) (attachment : VolumeAttachment) : Prop :=
  (∀ v, ':' ∉ v.toList → (attachment.name = v ∨ attachment.name = "ceph:" ++ v) →
    toStorageSource attachment ns = .ok (.ceph (volumeImage ⟨ns, v⟩))) ∧
  (∀ p, ':' ∉ p.toList → attachment.name = "fs:" ++ p →
    ∃ format, toStorageSource attachment ns = .ok (.filesystem ⟨format, p⟩)) ∧
  ((∀ v, ':' ∉ v.toList → attachment.name ≠ v ∧ attachment.name ≠ "ceph:" ++ v ∧
      attachment.name ≠ "fs:" ++ v) →
    toStorageSource attachment ns = .error (.storageLocationParse attachment.name))

/-- The schema stays in the name of the image. -/
theorem toStorageSource_ceph {ns v : String} (h : ':' ∉ v.toList) :
    toStorageSource ⟨"ceph:" ++ v⟩ ns = .ok (.ceph ⟨poolVolumes, ns ++ "-" ++ ("ceph:" ++ v)⟩) := by
  unfold toStorageSource
  rw [parse_ceph h]
  rfl

theorem not_resolvesAsMeant_ceph {ns v : String} (h : ':' ∉ v.toList) :
    ¬ResolvesAsMeant ns ⟨"ceph:" ++ v⟩ := by
  intro hmeant
  have himage := (toStorageSource_ceph h).symm.trans (hmeant.1 v h (.inr rfl))
  have hname : ns ++ "-" ++ ("ceph:" ++ v) = ns ++ "-" ++ v :=
    congrArg CephSource.image (StorageSource.ceph.inj (Except.ok.inj himage))
  have hlen := congrArg String.length hname
  simp only [String.length_append] at hlen
  have hceph : "ceph:".length = 5 := rfl
  omega

/-- The volume controller leaves the image of every volume that it has handled, and a reference of
a virtual machine leads to it, to the file or to an error as meant, exactly where it does not name
the schema `ceph`. -/
theorem resolvesAsMeant_iff (ns : String) (attachment : VolumeAttachment) :
    (∀ [Crates] (w : Worker) (s t : World) (volume : Volume), s.ceph.Named →
      (Volumes.updateVolume volume).Ends (Performed w) s (.ok ()) t →
      (t.ceph.find? (volumeImage volume.key).pool (volumeImage volume.key).image).isSome = true) ∧
    (ResolvesAsMeant ns attachment ↔
      ¬∃ v, ':' ∉ v.toList ∧ attachment.name = "ceph:" ++ v) := by
  refine ⟨fun w s t volume hn h => volumeImage_exists hn h, ?_, ?_⟩
  · rintro hmeant ⟨v, hv, hname⟩
    have : attachment = ⟨"ceph:" ++ v⟩ := by rw [← hname]
    exact not_resolvesAsMeant_ceph hv (this ▸ hmeant)
  · intro hno
    refine ⟨?_, ?_, ?_⟩
    · rintro v hv (rfl | hname)
      · unfold toStorageSource
        rw [parse_plain hv]
        rfl
      · exact absurd ⟨v, hv, hname⟩ hno
    · intro p hp hname
      unfold toStorageSource
      rw [hname, parse_fs hp]
      exact ⟨_, rfl⟩
    · intro hother
      unfold toStorageSource
      cases hparse : parseStorageLocation attachment.name with
      | error e =>
        rw [parse_error hparse]
        rfl
      | ok parsed =>
        obtain ⟨schema, name⟩ := parsed
        obtain ⟨hname, ⟨-, heq | heq⟩ | ⟨-, heq⟩⟩ := parse_forms hparse
        · exact absurd heq (hother name hname).1
        · exact absurd heq (hother name hname).2.1
        · exact absurd heq (hother name hname).2.2

attribute [local instance] tenGiB

/-- The volume `default/data` gets its image, and the reference `data` leads to it. -/
theorem resolvesAsMeant_data : (∃ t : World, (Volumes.updateVolume volumeFromTemplate).Ends
      (Performed (.volume volumeFromTemplate.key)) (templateWorld 2147483648) (.ok ()) t ∧
      (t.ceph.find? poolVolumes "default-data").isSome = true) ∧
    toStorageSource ⟨"data"⟩ "default" = .ok (.ceph ⟨poolVolumes, "default-data"⟩) := by
  obtain ⟨himage, hmeant⟩ := resolvesAsMeant_iff "default" ⟨"data"⟩
  constructor
  · have hl : Listable (templateWorld 2147483648).ceph := by
      unfold Listable
      rw [volumes_templateWorld]
      rfl
    have hnew : newImage (templateWorld 2147483648).ceph "default-data" 10737418240 (some "base") =
        some ⟨"default-data", 2147483648, 1⟩ := by
      simp only [newImage, template_templateWorld, Option.map_some]
    have hrun : ∃ t : World, _ ∧ (Volumes.updateVolume volumeFromTemplate).Ends
        (Performed (.volume volumeFromTemplate.key)) (templateWorld 2147483648) (.ok ()) t :=
      exists_updateVolume (templateWorld_named _) (by decide +kernel) (absent_templateWorld _) rfl (.inl rfl) hl hnew
    obtain ⟨t, -, h⟩ := hrun
    exact ⟨t, h, himage _ _ t volumeFromTemplate (templateWorld_named _) h⟩
  · have hno : ¬∃ v, ':' ∉ v.toList ∧ "data" = "ceph:" ++ v := by
      rintro ⟨v, -, hv⟩
      have hlist := congrArg String.toList hv
      rw [String.toList_append] at hlist
      exact absurd (List.cons.inj hlist).1 (by decide)
    exact (hmeant.mpr hno).1 "data" (by decide) (.inl rfl)

/-- The reference `ceph:data` of a VM in `default` leads to another image than that of the volume. -/
theorem ceph_schema_kept : ¬ResolvesAsMeant "default" ⟨"ceph:data"⟩ :=
  not_resolvesAsMeant_ceph (v := "data") (by decide)

end Host

end References

end ClusterController
