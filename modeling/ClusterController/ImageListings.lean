import ClusterController.VolumeImages
import ClusterController.CephHandles

/-!
# Listings of images

A pool is listed as its names with a NUL after each, in a buffer of zeros. What the decoder makes of
the buffer, and what the controllers find in it.
-/

namespace ClusterController

open Interaction (Program Transcript)
open Interaction.Program (Outcome Plays Answered plays_bind ends_iff_plays answered_append)

/-! ## The decoder -/

/-- The names, each with a NUL. -/
def listingBytes (names : List String) : List UInt8 :=
  names.flatMap fun name => name.toUTF8.toList ++ [0]

theorem nullSeparatedToVec_listingBytes {names : List String} (h : ∀ name ∈ names, IsCString name)
    (zeros : Nat) :
    Ceph.nullSeparatedToVec (listingBytes names ++ List.replicate zeros 0) = .ok names := by
  have hnames : ∀ image ∈ names.map fun name => RbdImage.mk name 0 0, IsCString image.name := by
    simpa using h
  have himages := nullSeparatedToVec_names hnames zeros
  rw [List.flatMap_map, List.map_map] at himages
  exact himages.trans (congrArg Except.ok (List.map_id _))

/-! ## The checks -/

/-- The call is in the transcript, whatever its answer. -/
def Called (tr : Transcript Request Request.Answer) (q : CephRequest) : Prop := ∃ e ∈ tr, e.1 = .ceph q

/-- The call is in the transcript, and it has succeeded with this answer. -/
def Granted (tr : Transcript Request Request.Answer) (q : CephRequest) (v : q.Answer) : Prop :=
  (⟨.ceph q, .ok v⟩ : Sigma fun r : Request => r.Answer) ∈ tr

/-- The pool was opened with this handle. -/
def Opened (tr : Transcript Request Request.Answer) (pool : String) (p : Nat) : Prop :=
  ∃ cluster, Granted tr (.radosIoctxCreate cluster pool) p

/-- The pool was listed. -/
def PoolListed (tr : Transcript Request Request.Answer) (pool : String) : Prop :=
  ∃ p buffer, Opened tr pool p ∧ Granted tr (.rbdList p 32768) buffer

/-- The listing of a pool was answered. -/
def listing : (Sigma fun r : Request => r.Answer) → Bool
  | ⟨.ceph (.rbdList _ _), .ok _⟩ => true
  | _ => false

/-- The request removes an image. -/
def removing : Request → Bool
  | .ceph (.rbdRemove _ _) => true
  | _ => false

/-- The request makes an image, or opens one for the clone of it. -/
def making : Request → Bool
  | .ceph (.rbdCreate _ _ _) => true
  | .ceph (.rbdOpen _ _ _) => true
  | .ceph (.rbdClone _ _ _ _ _ _) => true
  | _ => false

/-- The request neither lists nor makes nor removes images. -/
def inert : Request → Bool
  | .ceph (.rbdList _ _) => false
  | r => !removing r && !making r

/-- The first request for the image of a volume. -/
def firstRequest (volumePool templatePool : Nat) (name : String) (size : UInt64) : Option String → CephRequest
  | none => .rbdCreate volumePool name size
  | some templateName => .rbdOpen templatePool templateName "default"

/-- The image of a volume was made. -/
def Completed (tr : Transcript Request Request.Answer) (volumePool templatePool : Nat) (name : String)
    (size : UInt64) : Option String → Prop
  | none => Granted tr (.rbdCreate volumePool name size) ()
  | some templateName => ∃ features,
      Granted tr (.rbdClone templatePool templateName "default" volumePool name features) ()

/-- The image of a volume is made exactly if the pool of volumes does not hold it. A name that is no C string
ends the process instead. -/
structure MakesMissing (s : World) (tr : Transcript Request Request.Answer) (o : Outcome Error Unit) (name : String)
    (size : UInt64) (template : Option String) : Prop where
  only : tr.any (fun e => making e.1) = true → s.ceph.find? poolVolumes name = none
  requested : s.ceph.find? poolVolumes name = none →
    (∃ p q, Opened tr poolVolumes p ∧ Opened tr poolTemplates q ∧ Called tr (firstRequest p q name size template)) ∨
      ((¬NulFree name ∨ ∃ templateName ∈ template, ¬NulFree templateName) ∧ ∃ m, o = .aborted m)
  made : s.ceph.find? poolVolumes name = none → o = .ok () →
    ∃ p q, Opened tr poolVolumes p ∧ Opened tr poolTemplates q ∧ Completed tr p q name size template

/-- An image is removed exactly if the pool holds it. -/
structure RemovesHeld (s : World) (tr : Transcript Request Request.Answer) (o : Outcome Error Unit)
    (pool name : String) : Prop where
  only : tr.any (fun e => removing e.1) = true → (s.ceph.find? pool name).isSome = true
  requested : (s.ceph.find? pool name).isSome = true → ∃ p, Opened tr pool p ∧ Called tr (.rbdRemove p name)
  removed : (s.ceph.find? pool name).isSome = true → o = .ok () →
    ∃ p, Opened tr pool p ∧ Granted tr (.rbdRemove p name) ()

section Checks

variable {w : Worker} {s t : World} {tr before rest : Transcript Request Request.Answer} {α β γ : Type} {b : β}
  {o : Outcome Error β} {pool name operation : String} {q : CephRequest}

theorem Granted.append_left {v : q.Answer} (h : Granted before q v) : Granted (before ++ rest) q v :=
  List.mem_append_left _ h

theorem Opened.append_left {p : Nat} (h : Opened before pool p) : Opened (before ++ rest) pool p :=
  h.imp fun _ => Granted.append_left

theorem not_listing {e : Sigma fun r : Request => r.Answer} (h : inert e.1 = true) : listing e = false := by
  unfold listing
  split
  · cases h
  · rfl

theorem inert_iff {r : Request} (h : inert r = true) : removing r = false ∧ making r = false := by
  unfold inert at h
  split at h
  · cases h
  · simpa using h

/-- Requests before the listing make and remove nothing. -/
theorem quiet_before (h : ∀ e ∈ before, inert e.1 = true) :
    before.any listing = false ∧ before.any (fun e => removing e.1) = false ∧
      before.any (fun e => making e.1) = false := by
  simp only [List.any_eq_false]
  exact ⟨fun e he => by simp [not_listing (h e he)], fun e he => by simp [(inert_iff (h e he)).1],
    fun e he => by simp [(inert_iff (h e he)).2]⟩

theorem inert_cephCall (h : inert (.ceph q) = true) :
    (cephCall operation q).Within (inert · = true) fun _ => True := by
  refine ⟨h, fun x => ?_⟩
  cases x <;> trivial

/-- A run that returns goes on after each call. -/
theorem plays_cephCall_ok {f : q.Answer → Prog β} (h : (cephCall operation q >>= f).Plays tr (.ok b)) :
    ∃ v rest, tr = ⟨.ceph q, .ok v⟩ :: rest ∧ (f v).Plays rest (.ok b) :=
  (plays_cephCall h).resolve_right fun ⟨_, _, ho⟩ => nomatch ho

/-- A call that has succeeded was served. -/
theorem served_of_performed {v : q.Answer} (h : Performed w s (.ceph q) (.ok v) t) :
    ∃ x, s.serveCeph x q = (.ok v, t) := by
  obtain ⟨x, hx⟩ := h
  have hd : x.deliver (.error x.code) s (s.serveCeph x q) = (.ok v, t) := Option.some.inj hx
  unfold Choice.deliver at hd
  split at hd
  · exact ⟨x, hd⟩
  · cases hd
  · cases hd

/-- A function that returns, or that gets an answer to a listing, gets through what is before the listing. -/
theorem plays_listing {p : Prog γ} {handle : γ → Nat} {f : γ → List String → Prog β}
    (hinert : p.Within (inert · = true) fun _ => True) (hl : tr.any listing = true ∨ ∃ b, o = .ok b)
    (h : (p >>= fun a => Ceph.getImages (handle a) >>= f a).Plays tr o) :
    ∃ a before buffer rest, tr = before ++ ⟨.ceph (.rbdList (handle a) 32768), .ok buffer⟩ :: rest ∧
      p.Plays before (.ok a) ∧ (∀ e ∈ before, inert e.1 = true) ∧
      (orPanic (Ceph.nullSeparatedToVec buffer) >>= f a).Plays rest o := by
  have hnone : ∀ {tr' : Transcript Request Request.Answer}, (∀ e ∈ tr', inert e.1 = true) →
      tr'.any listing = true → False := fun hall htrue => by
    rw [(quiet_before hall).1] at htrue
    cases htrue
  rcases plays_bind.mp h with ⟨a, before, after, rfl, hbefore, hafter⟩ | ⟨e, he, rfl⟩ | ⟨m, hm, rfl⟩
  · have hall : ∀ e ∈ before, inert e.1 = true := hinert.plays hbefore
    unfold Ceph.getImages at hafter
    rw [Program.bind_assoc'] at hafter
    rcases plays_cephCall hafter with ⟨buffer, rest, rfl, hrest⟩ | ⟨code, rfl, rfl⟩
    · exact ⟨a, before, buffer, rest, rfl, hbefore, hall, hrest⟩
    · rcases hl with hl | ⟨b, hb⟩
      · rw [List.any_append, (quiet_before hall).1] at hl
        cases hl
      · cases hb
  · exact (hl.elim (hnone (hinert.plays he)) fun ⟨b, hb⟩ => nomatch hb).elim
  · exact (hl.elim (hnone (hinert.plays hm)) fun ⟨b, hb⟩ => nomatch hb).elim

/-- After the listing a function goes on with the names of the pool. -/
theorem plays_names {p : Prog γ} {handle : γ → Nat} {f : γ → List String → Prog β}
    (hinert : p.Within (inert · = true) fun _ => True)
    (hp : ∀ a s₁, p.Ends (Performed w) s (.ok a) s₁ →
      s₁.ceph.poolOf (handle a) = some pool ∧ s₁.ceph.pools = s.ceph.pools)
    (hn : s.ceph.Named) (ha : Answered (Performed w) s tr t) (hl : tr.any listing = true)
    (h : (p >>= fun a => Ceph.getImages (handle a) >>= f a).Plays tr o) :
    ∃ a before buffer rest, tr = before ++ ⟨.ceph (.rbdList (handle a) 32768), .ok buffer⟩ :: rest ∧
      p.Plays before (.ok a) ∧ (∀ e ∈ before, inert e.1 = true) ∧
      (f a ((s.ceph.pools pool).map RbdImage.name)).Plays rest o := by
  obtain ⟨a, before, buffer, rest, rfl, hbefore, hall, hrest⟩ := plays_listing hinert (.inl hl) h
  obtain ⟨s₁, ha₁, ha₂⟩ := answered_append.mp ha
  obtain ⟨hpool, hpools⟩ := hp a s₁ (ends_iff_plays.mpr ⟨before, hbefore, ha₁⟩)
  refine ⟨a, before, buffer, rest, rfl, hbefore, hall, ?_⟩
  obtain ⟨s₂, hserved, -⟩ := ha₂.uncons
  obtain ⟨x, hx⟩ := served_of_performed hserved
  simp only [World.serveCeph, hpool, hpools] at hx
  split at hx
  · next hb =>
    cases hx
    rw [nullSeparatedToVec_listBuffer (hn pool) hb] at hrest
    exact hrest
  · cases hx

/-- One pool is opened. -/
def opening (pool : String) : Prog (Nat × Nat) := do
  let cluster ← Ceph.connect
  let p ← Ceph.getPool cluster pool
  return (cluster, p)

/-- Both pools are opened. -/
def openingBoth : Prog (Nat × Nat × Nat) := do
  let cluster ← Ceph.connect
  let volumePool ← Ceph.getPool cluster poolVolumes
  let templatePool ← Ceph.getPool cluster poolTemplates
  return (cluster, volumePool, templatePool)

theorem inert_connect : Ceph.connect.Within (inert · = true) fun _ => True := by
  unfold Ceph.connect
  exact (inert_cephCall rfl).bind fun _ _ => (inert_cephCall rfl).bind fun _ _ =>
    (inert_cephCall rfl).bind fun _ _ => (inert_cephCall rfl).bind fun _ _ => trivial

theorem inert_opening : (opening pool).Within (inert · = true) fun _ => True :=
  inert_connect.bind fun _ _ => (inert_cephCall rfl).bind fun _ _ => trivial

theorem inert_openingBoth : openingBoth.Within (inert · = true) fun _ => True :=
  inert_connect.bind fun _ _ => (inert_cephCall rfl).bind fun _ _ =>
    (inert_cephCall rfl).bind fun _ _ => trivial

theorem plays_opening {a : Nat × Nat} (h : (opening pool).Plays tr (.ok a)) : Opened tr pool a.2 := by
  unfold opening Ceph.connect Ceph.getPool at h
  simp only [Program.bind_assoc', Program.pure_eq, Program.ret_bind] at h
  obtain ⟨cluster, _, rfl, h₁⟩ := plays_cephCall_ok h
  obtain ⟨_, _, rfl, h₂⟩ := plays_cephCall_ok h₁
  obtain ⟨_, _, rfl, h₃⟩ := plays_cephCall_ok h₂
  obtain ⟨_, _, rfl, h₄⟩ := plays_cephCall_ok h₃
  obtain ⟨p, _, rfl, h₅⟩ := plays_cephCall_ok h₄
  obtain ⟨rfl, ho⟩ := h₅
  cases ho
  exact ⟨cluster, by simp [Granted]⟩

theorem plays_openingBoth {a : Nat × Nat × Nat} (h : openingBoth.Plays tr (.ok a)) :
    Opened tr poolVolumes a.2.1 ∧ Opened tr poolTemplates a.2.2 := by
  unfold openingBoth Ceph.connect Ceph.getPool at h
  simp only [Program.bind_assoc', Program.pure_eq, Program.ret_bind] at h
  obtain ⟨cluster, _, rfl, h₁⟩ := plays_cephCall_ok h
  obtain ⟨_, _, rfl, h₂⟩ := plays_cephCall_ok h₁
  obtain ⟨_, _, rfl, h₃⟩ := plays_cephCall_ok h₂
  obtain ⟨_, _, rfl, h₄⟩ := plays_cephCall_ok h₃
  obtain ⟨p, _, rfl, h₅⟩ := plays_cephCall_ok h₄
  obtain ⟨p', _, rfl, h₆⟩ := plays_cephCall_ok h₅
  obtain ⟨rfl, ho⟩ := h₆
  cases ho
  exact ⟨⟨cluster, by simp [Granted]⟩, cluster, by simp [Granted]⟩

theorem ends_opening {a : Nat × Nat} (h : (opening pool).Ends (Performed w) s (.ok a) t) :
    t.ceph.poolOf a.2 = some pool ∧ t.ceph.pools = s.ceph.pools := by
  unfold opening Ceph.connect Ceph.getPool at h
  simp only [Program.bind_assoc', Program.pure_eq, Program.ret_bind] at h
  obtain ⟨_, _, _, h₁, h⟩ := ends_cephCall.mp h
  cases h₁
  obtain ⟨_, _, _, h₂, h⟩ := ends_cephCall.mp h
  cases h₂
  obtain ⟨_, _, _, h₃, h⟩ := ends_cephCall.mp h
  cases h₃
  obtain ⟨_, _, _, h₄, h⟩ := ends_cephCall.mp h
  cases h₄
  obtain ⟨_, _, _, h₅, h⟩ := ends_cephCall.mp h
  cases h₅
  obtain ⟨ho, rfl⟩ := h
  cases ho
  exact ⟨CephState.poolOf_opened, rfl⟩

theorem ends_openingBoth {a : Nat × Nat × Nat} (h : openingBoth.Ends (Performed w) s (.ok a) t) :
    t.ceph.poolOf a.2.1 = some poolVolumes ∧ t.ceph.pools = s.ceph.pools := by
  unfold openingBoth Ceph.connect Ceph.getPool at h
  simp only [Program.bind_assoc', Program.pure_eq, Program.ret_bind] at h
  obtain ⟨_, _, _, h₁, h⟩ := ends_cephCall.mp h
  cases h₁
  obtain ⟨_, _, _, h₂, h⟩ := ends_cephCall.mp h
  cases h₂
  obtain ⟨_, _, _, h₃, h⟩ := ends_cephCall.mp h
  cases h₃
  obtain ⟨_, _, _, h₄, h⟩ := ends_cephCall.mp h
  cases h₄
  obtain ⟨_, _, _, h₅, h⟩ := ends_cephCall.mp h
  cases h₅
  obtain ⟨_, _, _, h₆, h⟩ := ends_cephCall.mp h
  cases h₆
  obtain ⟨ho, rfl⟩ := h
  cases ho
  exact ⟨poolOf_volumes s.ceph, rfl⟩

/-! ### Removal -/

/-- The removal of an image of a pool, in two parts. -/
theorem removal_eq (pool name : String) : (do
      let cluster ← Ceph.connect
      let p ← Ceph.getPool cluster pool
      let images ← Ceph.getImages p
      onlyIf (name ∈ images) (Ceph.removeImage p name) : Prog Unit) =
    opening pool >>= fun a => Ceph.getImages a.2 >>= fun images =>
      onlyIf (name ∈ images) (Ceph.removeImage a.2 name) := by
  unfold opening
  simp only [Program.bind_assoc', Program.pure_eq, Program.ret_bind]

theorem listed_removal (h : (do
      let cluster ← Ceph.connect
      let p ← Ceph.getPool cluster pool
      let images ← Ceph.getImages p
      onlyIf (name ∈ images) (Ceph.removeImage p name) : Prog Unit).Plays tr (.ok ())) : PoolListed tr pool := by
  rw [removal_eq] at h
  obtain ⟨a, before, buffer, rest, rfl, hbefore, -, -⟩ := plays_listing inert_opening (.inr ⟨_, rfl⟩) h
  exact ⟨a.2, buffer, (plays_opening hbefore).append_left, List.mem_append_right _ List.mem_cons_self⟩

theorem removesHeld {o : Outcome Error Unit} (hn : s.ceph.Named) (ha : Answered (Performed w) s tr t)
    (hl : tr.any listing = true)
    (h : (do
      let cluster ← Ceph.connect
      let p ← Ceph.getPool cluster pool
      let images ← Ceph.getImages p
      onlyIf (name ∈ images) (Ceph.removeImage p name) : Prog Unit).Plays tr o) : RemovesHeld s tr o pool name := by
  rw [removal_eq] at h
  obtain ⟨a, before, buffer, rest, rfl, hbefore, hall, hrest⟩ :=
    plays_names inert_opening (fun _ _ => ends_opening) hn ha hl h
  have hopened : Opened (before ++ ⟨.ceph (.rbdList a.2 32768), .ok buffer⟩ :: rest) pool a.2 :=
    (plays_opening hbefore).append_left
  unfold onlyIf at hrest
  split at hrest
  · next hin =>
    have hheld : (s.ceph.find? pool name).isSome = true := CephState.isSome_find?.mpr hin
    unfold Ceph.removeImage at hrest
    rw [cStringNew_of_nulFree (nulFree_of_mem (hn pool) hin), Program.ret_bind] at hrest
    obtain ⟨x, rest', rfl, hend⟩ := hrest
    refine ⟨fun _ => hheld, fun _ => ⟨a.2, hopened, ⟨.ceph (.rbdRemove a.2 name), x⟩, ?_, rfl⟩,
      fun _ ho => ⟨a.2, hopened, ?_⟩⟩
    · exact List.mem_append_right _ (List.mem_cons_of_mem _ List.mem_cons_self)
    · -- The call fails where the function does.
      cases x with
      | ok v => exact List.mem_append_right _ (List.mem_cons_of_mem _ List.mem_cons_self)
      | error code => cases hend.2.symm.trans ho
  · next hout =>
    obtain rfl : rest = [] := hrest.1
    have hnone : ¬(s.ceph.find? pool name).isSome = true := fun hheld => hout (CephState.isSome_find?.mp hheld)
    refine ⟨fun hany => ?_, fun hheld => absurd hheld hnone, fun hheld => absurd hheld hnone⟩
    rw [List.any_append, (quiet_before hall).2.1] at hany
    cases hany

/-! ### Creation -/

/-- The closing calls make no image. -/
theorem plays_closing_making {o : Outcome Error Unit} {cluster volumePool templatePool : Nat} (h : (do
      Ceph.closePool volumePool
      Ceph.closePool templatePool
      Ceph.disconnect cluster : Prog Unit).Plays tr o) : tr.any (fun e => making e.1) = false := by
  rw [← Program.bind_ret (Ceph.disconnect cluster)] at h
  obtain ⟨x, tr₁, rfl, h₁⟩ := plays_unchecked h
  obtain ⟨y, tr₂, rfl, h₂⟩ := plays_unchecked h₁
  obtain ⟨z, tr₃, rfl, h₃⟩ := plays_unchecked h₂
  obtain rfl : tr₃ = [] := h₃.1
  rfl

variable {size : UInt64} {template : Option String} {volumePool templatePool : Nat} {f : Unit → Prog β}

/-- The image is asked for, unless one of the names is no C string. -/
theorem requested_makeImage
    (h : (Volumes.makeImage volumePool templatePool name size template >>= f).Plays tr o) :
    Called tr (firstRequest volumePool templatePool name size template) ∨
      ((¬NulFree name ∨ ∃ templateName ∈ template, ¬NulFree templateName) ∧ ∃ m, o = .aborted m) := by
  cases template with
  | none =>
    unfold Volumes.makeImage Ceph.createImage at h
    rw [Program.bind_assoc'] at h
    rcases plays_cStringNew h with ⟨-, x, rest, rfl, -⟩ | ⟨hnul, -, ho⟩
    · exact .inl ⟨_, List.mem_cons_self, rfl⟩
    · exact .inr ⟨.inl hnul, _, ho⟩
  | some templateName =>
    unfold Volumes.makeImage Ceph.cloneImage Ceph.getFeatures at h
    simp only [Program.bind_assoc', Program.pure_eq, Program.ret_bind] at h
    rcases plays_cStringNew h with ⟨-, h⟩ | ⟨hnul, -, ho⟩
    swap
    · exact .inr ⟨.inl hnul, _, ho⟩
    rcases plays_cStringNew h with ⟨htemplate, h⟩ | ⟨hnul, -, ho⟩
    swap
    · exact .inr ⟨.inr ⟨templateName, rfl, hnul⟩, _, ho⟩
    obtain ⟨-, h⟩ := (plays_cStringNew h).resolve_right fun h' => h'.1 htemplate
    obtain ⟨-, x, rest, rfl, -⟩ := (plays_cStringNew h).resolve_right fun h' => h'.1 nulFree_default
    exact .inl ⟨_, List.mem_cons_self, rfl⟩

theorem completed_makeImage
    (h : (Volumes.makeImage volumePool templatePool name size template >>= f).Plays tr (.ok b)) :
    Completed tr volumePool templatePool name size template := by
  have hreturns : ∀ {text msg : String} {g : Unit → Prog β} {tr : Transcript Request Request.Answer},
      (cStringNew text msg >>= g).Plays tr (.ok b) → (g ()).Plays tr (.ok b) := fun h =>
    ((plays_cStringNew h).resolve_right fun h' => nomatch h'.2.2).2
  cases template with
  | none =>
    unfold Volumes.makeImage Ceph.createImage at h
    rw [Program.bind_assoc'] at h
    obtain ⟨_, rest, rfl, -⟩ := plays_cephCall_ok (hreturns h)
    exact List.mem_cons_self
  | some templateName =>
    unfold Volumes.makeImage Ceph.cloneImage Ceph.getFeatures at h
    simp only [Program.bind_assoc', Program.pure_eq, Program.ret_bind] at h
    obtain ⟨image, _, rfl, h₁⟩ := plays_cephCall_ok (hreturns (hreturns (hreturns (hreturns h))))
    obtain ⟨features, _, rfl, h₂⟩ := plays_cephCall_ok h₁
    obtain ⟨_, _, rfl, h₃⟩ := plays_cephCall_ok h₂
    obtain ⟨_, rest, rfl, -⟩ := plays_cephCall_ok h₃
    exact ⟨features, by simp [Granted]⟩

/-- `ensure_exists` in two parts. -/
theorem ensureExists_eq (name : String) (size : UInt64) (template : Option String) :
    Volumes.ensureExists name size template =
      (openingBoth >>= fun a => Ceph.getImages a.2.1 >>= fun images => do
        onlyIf (name ∉ images) (Volumes.makeImage a.2.1 a.2.2 name size template)
        Ceph.closePool a.2.1
        Ceph.closePool a.2.2
        Ceph.disconnect a.1) := by
  unfold Volumes.ensureExists openingBoth
  simp only [Program.bind_assoc', Program.pure_eq, Program.ret_bind]

theorem listed_ensureExists (h : (Volumes.ensureExists name size template).Plays tr (.ok ())) :
    PoolListed tr poolVolumes := by
  rw [ensureExists_eq] at h
  obtain ⟨a, before, buffer, rest, rfl, hbefore, -, -⟩ := plays_listing inert_openingBoth (.inr ⟨_, rfl⟩) h
  exact ⟨a.2.1, buffer, (plays_openingBoth hbefore).1.append_left, List.mem_append_right _ List.mem_cons_self⟩

theorem makesMissing {o : Outcome Error Unit} (hn : s.ceph.Named) (ha : Answered (Performed w) s tr t)
    (hl : tr.any listing = true) (h : (Volumes.ensureExists name size template).Plays tr o) :
    MakesMissing s tr o name size template := by
  rw [ensureExists_eq] at h
  obtain ⟨⟨cluster, volumePool, templatePool⟩, before, buffer, rest, rfl, hbefore, hall, hrest⟩ :=
    plays_names inert_openingBoth (fun _ _ => ends_openingBoth) hn ha hl h
  obtain ⟨hvolumes, htemplates⟩ := plays_openingBoth hbefore
  unfold onlyIf at hrest
  dsimp only at hrest
  split at hrest
  · next hout =>
    refine ⟨fun _ => CephState.find?_eq_none.mpr hout, fun _ => ?_, fun _ ho => ?_⟩
    · refine (requested_makeImage hrest).imp (fun h => ?_) id
      exact ⟨volumePool, templatePool, hvolumes.append_left, htemplates.append_left,
        h.imp fun _ he => ⟨List.mem_append_right _ (List.mem_cons_of_mem _ he.1), he.2⟩⟩
    · subst ho
      refine ⟨volumePool, templatePool, hvolumes.append_left, htemplates.append_left, ?_⟩
      have hmade := completed_makeImage hrest
      cases template with
      | none => exact List.mem_append_right _ (List.mem_cons_of_mem _ hmade)
      | some templateName => exact hmade.imp fun _ h => List.mem_append_right _ (List.mem_cons_of_mem _ h)
  · next hin =>
    have hheld : s.ceph.find? poolVolumes name ≠ none := fun hnone => hin (CephState.find?_eq_none.mp hnone)
    refine ⟨fun hany => ?_, fun hnone => absurd hnone hheld, fun hnone => absurd hnone hheld⟩
    have hclosing : (do
        Ceph.closePool volumePool
        Ceph.closePool templatePool
        Ceph.disconnect cluster : Prog Unit).Plays rest o := hrest
    rw [List.any_append, (quiet_before hall).2.2, List.any_cons, plays_closing_making hclosing] at hany
    cases hany

/-! ### The images of the templates -/

theorem ensureImageExists_eq (name source : String) : Images.cephEnsureImageExists name source =
    (opening poolTemplates >>= fun a => Ceph.getImages a.2 >>= fun images => do
      onlyIf (name ∉ images) (.fail (.notImplemented "image download/copy"))
      Ceph.closePool a.2
      Ceph.disconnect a.1) := by
  unfold Images.cephEnsureImageExists opening
  simp only [Program.bind_assoc', Program.pure_eq, Program.ret_bind]

theorem listed_ensureImageExists {source : String} (h : (Images.cephEnsureImageExists name source).Plays tr (.ok ())) :
    PoolListed tr poolTemplates := by
  rw [ensureImageExists_eq] at h
  obtain ⟨a, before, buffer, rest, rfl, hbefore, -, -⟩ := plays_listing inert_opening (.inr ⟨_, rfl⟩) h
  exact ⟨a.2, buffer, (plays_opening hbefore).append_left, List.mem_append_right _ List.mem_cons_self⟩

/-- The image controller misses an image exactly if the pool of templates does not hold it. -/
theorem missing_iff {source : String} {o : Outcome Error Unit} (hn : s.ceph.Named)
    (ha : Answered (Performed w) s tr t) (hl : tr.any listing = true)
    (h : (Images.cephEnsureImageExists name source).Plays tr o) :
    o = .err (.notImplemented "image download/copy") ↔ s.ceph.find? poolTemplates name = none := by
  rw [ensureImageExists_eq] at h
  obtain ⟨⟨cluster, p⟩, before, buffer, rest, rfl, hbefore, -, hrest⟩ :=
    plays_names inert_opening (fun _ _ => ends_opening) hn ha hl h
  rw [CephState.find?_eq_none]
  unfold onlyIf at hrest
  split at hrest
  · next hout => exact iff_of_true hrest.2 hout
  · next hin =>
    obtain ⟨x, tr₁, rfl, h₁⟩ := plays_unchecked hrest
    rw [← Program.bind_ret (Ceph.disconnect cluster)] at h₁
    obtain ⟨y, tr₂, rfl, h₂⟩ := plays_unchecked h₁
    refine iff_of_false (fun ho => ?_) hin
    cases h₂.2.symm.trans ho

end Checks

end ClusterController
