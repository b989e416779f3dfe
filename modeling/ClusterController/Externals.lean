import ClusterController.Fitting
import ClusterController.CephActions

/-!
# What objects stand for

A volume stands for an image, a network for a switch and a router for a router of OVN, under a name
made of its namespace and its name. Gentle requests, and what happens besides, make no such thing and
take no finalizer away (`Steady`).
-/

namespace ClusterController

open ApiServer (StringMap Key KubeError Resource Collection)
open ApiServer.Collection (KeepsFinalizer)
open Ovsdb (Row Database Operation Consistent Descends)

/-! ## Rows of a name -/

/-- The uuids of the rows that have the name. -/
def rowsNamed (db : Database) (T name : String) : List String :=
  ((db T).filter fun r => rowText r "name" = name).map Row.uuid

section Rows

variable {db db' : Database} {T name u : String}

theorem mem_rowsNamed : u ∈ rowsNamed db T name ↔ ∃ r ∈ db T, rowText r "name" = name ∧ r.uuid = u := by
  simp [rowsNamed, and_assoc]

theorem rowsNamed_eq_nil : rowsNamed db T name = [] ↔ named db T name = none := by
  rw [firstWith_none]
  simp [rowsNamed]

theorem rowsNamed_congr (h : db' T = db T) : rowsNamed db' T name = rowsNamed db T name := by
  unfold rowsNamed
  rw [h]

theorem rowsNamed_descends (h : Descends T "name" db db') :
    rowsNamed db' T name ⊆ rowsNamed db T name := by
  intro u hu
  obtain ⟨r, hr, hname, rfl⟩ := mem_rowsNamed.mp hu
  obtain ⟨r₀, h₀, huuid, hget⟩ := h r hr
  refine mem_rowsNamed.mpr ⟨r₀, h₀, ?_, huuid⟩
  rw [← hname]
  unfold rowText
  rw [hget]

theorem LeavesNames.spares {operation : Operation} (h : LeavesNames operation)
    (hT : T = typeLogicalSwitch ∨ T = typeLogicalRouter) : operation.Spares T "name" := by
  cases operation with
  | insert T' row n =>
    rintro rfl
    exact h hT
  | update T' u row =>
    rintro rfl
    exact h hT
  | mutate T' u ms =>
    rintro rfl
    exact h hT
  | delete T' u => exact trivial
  | select T' columns => exact trivial

end Rows

/-! ## Images and handles -/

/-- A handle of a pool stays one of this pool, or is closed. -/
def HandlesKept (c c' : CephState) : Prop :=
  c.next ≤ c'.next ∧ ∀ n < c.next, ∀ pool, c'.poolOf n = some pool → c.poolOf n = some pool

section Handles

variable {c c' : CephState} {s : World}

theorem HandlesKept.refl (c : CephState) : HandlesKept c c := ⟨Nat.le_refl _, fun _ _ _ h => h⟩

theorem HandlesKept.trans {c'' : CephState} (h : HandlesKept c c') (h' : HandlesKept c' c'') :
    HandlesKept c c'' :=
  ⟨h.1.trans h'.1, fun n hn pool hp => h.2 n hn pool (h'.2 n (Nat.lt_of_lt_of_le hn h.1) pool hp)⟩

theorem handlesKept_opened (h : CephHandle) : HandlesKept c (c.opened h) := by
  refine ⟨Nat.le_succ _, fun n hn pool hp => ?_⟩
  have hne : (n == c.next) = false := by simpa using Nat.ne_of_lt hn
  unfold CephState.poolOf CephState.opened at hp
  unfold CephState.poolOf
  simpa only [List.lookup_cons, hne] using hp

theorem lookup_closed (n m : Nat) : (c.closed m).handles.lookup n =
    if n = m then none else c.handles.lookup n := by
  unfold CephState.closed
  induction c.handles with
  | nil => simp
  | cons e l ih =>
    obtain ⟨k, h⟩ := e
    by_cases hk : k = m
    · subst hk
      rw [List.filter_cons_of_neg (by simp), ih]
      by_cases hn : n = k
      · simp [hn]
      · have hne : (n == k) = false := by simpa using hn
        simp [hn, List.lookup_cons, hne]
    · rw [List.filter_cons_of_pos (by simpa using hk), List.lookup_cons, List.lookup_cons, ih]
      by_cases hn : n = k
      · subst hn
        simp [hk]
      · have hne : (n == k) = false := by simpa using hn
        simp [hne]

theorem handlesKept_closed (m : Nat) : HandlesKept c (c.closed m) := by
  refine ⟨Nat.le_refl _, fun n _ pool hp => ?_⟩
  unfold CephState.poolOf at hp ⊢
  rw [lookup_closed] at hp
  by_cases hn : n = m
  · simp [hn] at hp
  · simpa [hn] using hp

/-- No call of librados or librbd reuses a handle. -/
theorem handlesKept_serveCeph (s : World) (x : Choice) (q : CephRequest) :
    HandlesKept s.ceph (s.serveCeph x q).2.ceph := by
  have hopen : ∀ p name, HandlesKept s.ceph (World.serveCeph.openImage s p name).2.ceph := by
    intro p name
    unfold World.serveCeph.openImage
    split
    · exact .refl _
    · split
      · exact handlesKept_opened _
      · exact .refl _
  cases q <;> simp only [World.serveCeph]
  case radosCreate => exact handlesKept_opened _
  case radosIoctxCreate => exact handlesKept_opened _
  case rbdOpen p name snapshot => exact hopen p name
  case rbdOpenReadOnly p name => exact hopen p name
  case radosShutdown n => exact handlesKept_closed n
  case radosIoctxDestroy n => exact handlesKept_closed n
  case rbdClose n => exact handlesKept_closed n
  all_goals repeat' split
  all_goals exact .refl _

/-- Only `rbd_create` and `rbd_clone` make an image. -/
theorem images_serveCeph {x : Choice} {q : CephRequest} (h : Apart (.ceph q)) (pool : String)
    {i : RbdImage} (hi : i ∈ (s.serveCeph x q).2.ceph.pools pool) : i ∈ s.ceph.pools pool := by
  have hopen : ∀ p name, (World.serveCeph.openImage s p name).2.ceph.pools = s.ceph.pools := by
    intro p name
    unfold World.serveCeph.openImage
    split
    · rfl
    · split <;> rfl
  cases q with
  | rbdCreate p name size => exact h.elim
  | rbdClone pp parent snapshot p name features => exact h.elim
  | rbdOpen p name snapshot => exact hopen p name ▸ hi
  | rbdOpenReadOnly p name => exact hopen p name ▸ hi
  | rbdRemove p name =>
    simp only [World.serveCeph] at hi
    split at hi
    · exact hi
    · next pool' hp =>
      split at hi
      · change i ∈ Function.update s.ceph.pools pool' _ pool at hi
        by_cases hpool : pool = pool'
        · subst hpool
          rw [Function.update_self] at hi
          exact (List.mem_filter.mp hi).1
        · rwa [Function.update_of_ne hpool] at hi
      · exact hi
  | _ =>
    simp only [World.serveCeph] at hi
    first
      | exact hi
      | (repeat' split at hi) <;> exact hi

end Handles

/-! ## What stands for what -/

/-- What is made for an object outside of the cluster. -/
inductive External : Type
  | image
  | switch
  | router
deriving DecidableEq

namespace External

/-- The kind of the objects that it is made for. -/
@[reducible] def kind : External → Kind
  | image => .volume
  | switch => .network
  | router => .router

/-- The finalizer with which the objects wait for its removal. -/
def finalizer : External → String
  | image => "ceph"
  | switch => "ovn"
  | router => "ovn"

/-- The worker that makes and removes it. -/
def worker : External → Key → Worker
  | image, k => .volume k
  | switch, k => .network k
  | router, k => .router k

/-- The table of the northbound database that it is a row of. An image is none. -/
def table : External → Option String
  | image => none
  | switch => some typeLogicalSwitch
  | router => some typeLogicalRouter

/-- What there is for the object of a key: the images of its name, or the uuids of the rows. -/
def copies (e : External) (s : World) (k : Key) : List String :=
  match e.table with
  | none => ((s.ceph.pools poolVolumes).map RbdImage.name).filter (· = namePrefixedWithNamespace k)
  | some T => rowsNamed s.northbound T (namePrefixedWithNamespace k)

theorem copies_of_table {e : External} {T : String} (h : e.table = some T) (s : World) (k : Key) :
    e.copies s k = rowsNamed s.northbound T (namePrefixedWithNamespace k) := by
  unfold copies
  rw [h]

theorem table_inj {e e' : External} (h : e.table = e'.table) : e = e' := by
  cases e <;> cases e' <;> first | rfl | (revert h; decide)

theorem table_cases {e : External} {T : String} (h : e.table = some T) :
    T = typeLogicalSwitch ∨ T = typeLogicalRouter := by
  cases e <;> cases h
  · exact .inl rfl
  · exact .inr rfl

theorem kind_inj {e e' : External} (h : e.kind = e'.kind) : e = e' := by
  cases e <;> cases e' <;> first | rfl | cases h

theorem worker_inj {e e' : External} {k k' : Key} (h : e.worker k = e'.worker k') : e = e' ∧ k = k' := by
  cases e <;> cases e' <;> cases h <;> exact ⟨rfl, rfl⟩

theorem isExternal_kind (e : External) : e.kind.isExternal = true := by cases e <;> rfl

end External

/-! ## Steps that make nothing -/

/-- The step keeps the finalizers of the objects and makes nothing that one of the keys `K` stands for. -/
structure Steady (K : Kind → Key → Prop) (s t : World) : Prop where
  consistent : Consistent northbound s.northbound → Consistent northbound t.northbound
  images : (∀ i ∈ s.ceph.pools poolVolumes, IsCString i.name) →
    ∀ i ∈ t.ceph.pools poolVolumes, IsCString i.name
  handles : HandlesKept s.ceph t.ceph
  kube : ∀ e : External, KeepsFinalizer (K e.kind) (finalizerName e.finalizer) (s.kube e.kind) (t.kube e.kind)
  copies : ∀ (e : External) (k : Key), K e.kind k → e.copies t k ⊆ e.copies s k

section Steady

variable {K : Kind → Key → Prop} {w : Worker} {s t : World} {x : Choice}

theorem Steady.of_kube (hceph : t.ceph = s.ceph) (hdb : t.northbound = s.northbound)
    (h : ∀ e : External, KeepsFinalizer (K e.kind) (finalizerName e.finalizer) (s.kube e.kind)
      (t.kube e.kind)) : Steady K s t := by
  refine ⟨fun hc => hdb ▸ hc, fun hi => hceph ▸ hi, hceph ▸ .refl _, h, fun e k _ => ?_⟩
  cases e <;> simp [External.copies, hceph, hdb]

theorem Steady.of_eq (hkube : t.kube = s.kube) (hceph : t.ceph = s.ceph)
    (hdb : t.northbound = s.northbound) : Steady K s t :=
  .of_kube hceph hdb fun _ => hkube ▸ .refl _

theorem Steady.refl (s : World) : Steady K s s := .of_eq rfl rfl rfl

/-- The objects of one kind change. -/
theorem steady_setKube {κ : Kind} {c : Collection κ.Spec κ.Status}
    (h : ∀ e : External, κ = e.kind →
      KeepsFinalizer (K κ) (finalizerName e.finalizer) (s.kube κ) c) : Steady K s (s.setKube κ c) := by
  refine .of_kube rfl rfl fun e => ?_
  by_cases hκ : κ = e.kind
  · subst hκ
    rw [World.kube_setKube_self]
    exact h e rfl
  · rw [World.kube_setKube_of_ne (Ne.symm hκ)]
    exact .refl _

theorem steady_store {κ : Kind} {result : Except KubeError (Object κ × Collection κ.Spec κ.Status)}
    (h : ∀ o c, result = .ok (o, c) → ∀ e : External, κ = e.kind →
      KeepsFinalizer (K κ) (finalizerName e.finalizer) (s.kube κ) c) :
    Steady K s (s.store κ result).2 := by
  cases result with
  | ok p => exact steady_setKube (h p.1 p.2 rfl)
  | error e => exact .refl s

theorem steady_serveKube {q : KubeRequest} (hq : Apart (.kube q)) : Steady K s (s.serveKube x q).2 := by
  cases q with
  | replace κ o writer =>
    refine steady_store fun _ _ _ e hκ => ?_
    have hinner : κ.isExternal = false := hq
    rw [hκ, e.isExternal_kind] at hinner
    cases hinner
  | replaceStatus κ k n status writer =>
    exact steady_store fun _ _ h _ _ => Collection.keepsFinalizer_replaceStatus h
  | _ => exact .refl s

/-- Only the database changes, and no switch or router is made or gets another name. -/
theorem Steady.of_northbound {db : Database} (hc : Consistent northbound db)
    (h : ∀ T, T = typeLogicalSwitch ∨ T = typeLogicalRouter → Descends T "name" s.northbound db) :
    Steady K s (s.setNorthbound db) := by
  refine ⟨fun _ => hc, fun hi => hi, .refl _, fun e => .refl _, fun e k _ => ?_⟩
  cases e with
  | image => exact List.Subset.refl _
  | switch => exact rowsNamed_descends (h _ (.inl rfl))
  | router => exact rowsNamed_descends (h _ (.inr rfl))

/-- Only what Ceph holds changes, and no image is made among those of the volumes. -/
theorem Steady.of_ceph (hkube : t.kube = s.kube) (hdb : t.northbound = s.northbound)
    (hh : HandlesKept s.ceph t.ceph)
    (hi : ∀ i ∈ t.ceph.pools poolVolumes, i ∈ s.ceph.pools poolVolumes) : Steady K s t := by
  refine ⟨fun hc => hdb ▸ hc, fun h i hmem => h i (hi i hmem), hh, fun e => hkube ▸ .refl _,
    fun e k _ => ?_⟩
  cases e with
  | image =>
    intro name hname
    obtain ⟨hmem, hk⟩ := List.mem_filter.mp hname
    obtain ⟨i, hi', rfl⟩ := List.mem_map.mp hmem
    exact List.mem_filter.mpr ⟨List.mem_map_of_mem (hi i hi'), hk⟩
  | switch =>
    show rowsNamed t.northbound typeLogicalSwitch _ ⊆ rowsNamed s.northbound typeLogicalSwitch _
    rw [hdb]
    exact List.Subset.refl _
  | router =>
    show rowsNamed t.northbound typeLogicalRouter _ ⊆ rowsNamed s.northbound typeLogicalRouter _
    rw [hdb]
    exact List.Subset.refl _

/-- A gentle request is answered by a steady step. -/
theorem steady_answer {r : Request} {a : r.Answer} (hr : Gentle r)
    (hc : Consistent northbound s.northbound) (h : World.answer w s r x = some (a, t)) :
    Steady K s t := by
  cases r with
  | kube q =>
    rcases Choice.deliver_state (Option.some.inj h) with rfl | rfl
    · exact .refl _
    · exact steady_serveKube hr
  | ceph q =>
    have hd : x.deliver (.error x.code) s (s.serveCeph x q) = (a, t) := Option.some.inj h
    have hapart : Apart (.ceph q) := hr
    rcases Choice.deliver_state hd with rfl | rfl
    · exact .refl _
    · have hframe := World.frame_serveCeph s x q
      have hkube : (s.serveCeph x q).2.kube = s.kube := hframe.kube fun _ hq => nomatch hq
      have hdb : (s.serveCeph x q).2.northbound = s.northbound := hframe.northbound fun _ hq => nomatch hq
      exact .of_ceph hkube hdb (handlesKept_serveCeph s x q) fun i hi => images_serveCeph hapart _ hi
  | transact operations =>
    have hd : x.deliver none s (s.serveTransact x operations) = (a, t) := Option.some.inj h
    rcases Choice.deliver_state hd with rfl | rfl
    · exact .refl _
    · unfold World.serveTransact
      cases hn : s.northbound.transact northbound x.fresh operations with
      | none => exact .refl s
      | some p =>
        obtain ⟨mid, htr⟩ := Ovsdb.transacted hn
        have hcons := htr.consistent flat_northbound hc fun op hop => (hr op hop).1
        refine .of_northbound hcons fun T hT => ?_
        refine Ovsdb.descends_transact flat_northbound ?_ (fun op hop => (hr op hop).2.spares hT) hn
        rcases hT with rfl | rfl <;> rfl
  | _ =>
    have hframe := World.answer_frame h
    exact .of_eq (hframe.kube fun _ hq => nomatch hq) (hframe.ceph fun _ hq => nomatch hq)
      (hframe.northbound fun _ hq => nomatch hq)

/-- A user creates only objects of the keys `K`, and an administrator puts no image among those of
the volumes. -/
def Modelled (K : Kind → Key → Prop) : WorldEvent → Prop
  | .create κ k _ _ _ => κ.isExternal = true → K κ k
  | .storeImage pool _ => pool ≠ poolVolumes
  | _ => True

/-- What happens besides the reconciles is steady. -/
theorem steady_happen {e : WorldEvent} (he : Modelled K e) (hc : Consistent northbound s.northbound)
    (h : s.happen e = some t) : Steady K s t := by
  cases e with
  | create κ k labels annotations spec =>
    obtain ⟨c, hcreate, rfl⟩ := Option.map_eq_some_iff.mp h
    refine steady_setKube fun e hκ => Collection.keepsFinalizer_create (he ?_) hcreate
    rw [hκ]
    exact e.isExternal_kind
  | edit κ k labels annotations spec =>
    obtain ⟨c, hedit, rfl⟩ := Option.map_eq_some_iff.mp h
    exact steady_setKube fun e _ => Collection.keepsFinalizer_edit hedit
  | delete κ k time =>
    obtain ⟨c, hdelete, rfl⟩ := Option.map_eq_some_iff.mp h
    exact steady_setKube fun e _ => Collection.keepsFinalizer_delete hdelete
  | setNodeStatus k status =>
    simp only [World.happen] at h
    split at h
    · cases h
    · cases h
      refine steady_setKube fun e hκ => ?_
      cases e <;> cases hκ
  | assignAddress port address =>
    have hcons := consistent_happen h hc
    cases h
    refine .of_northbound hcons fun T hT => .of_eq (Database.modify_of_ne ?_)
    rcases hT with rfl | rfl <;> decide
  | storeImage pool image =>
    simp only [World.happen] at h
    split at h
    · cases h
    · cases h
      refine .of_ceph rfl rfl (.refl _) fun i hi => ?_
      change i ∈ Function.update s.ceph.pools pool _ poolVolumes at hi
      rwa [Function.update_of_ne (Ne.symm he)] at hi
  | migrationCompletes m =>
    simp only [World.happen] at h
    split at h <;> cases h
    exact .of_eq rfl rfl rfl
  | migrationAborts m =>
    simp only [World.happen] at h
    split at h <;> cases h
    exact .of_eq rfl rfl rfl
  | domainStops host domain =>
    simp only [World.happen] at h
    split at h <;> cases h
    exact .of_eq rfl rfl rfl

end Steady

end ClusterController
