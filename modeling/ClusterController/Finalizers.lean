import ClusterController.Externals
import ClusterController.Calls

/-!
# Finalizers guard what objects stand for

While there is an image of a volume, a switch of a network or a router of a router, the API server
stores the object with the finalizer of its controller. This holds in every interleaving, also of
reconciles that start from an old version and of those that end half way.
-/

namespace ClusterController

open ApiServer (Key KubeError Resource Collection)
open ApiServer.Collection (KeepsFinalizer)
open Interaction (Program Terms Regime Contract)
open Interaction.Program (Within)
open Interaction.Contract (wp_mono wp_bind wp_attempt wp_of_within)
open Ovsdb (Json Row Database Operation Consistent)

/-! ## The invariant -/

/-- No two objects stand for the same, and no network for the switch of a metadata service. -/
structure DistinctNames (K : Kind → Key → Prop) : Prop where
  inj : ∀ (e : External) (k k' : Key), K e.kind k → K e.kind k' →
    namePrefixedWithNamespace k = namePrefixedWithNamespace k' → k = k'
  metadata : ∀ k k', K .network k → K .router k' →
    namePrefixedWithNamespace k ≠ "mds-" ++ namePrefixedWithNamespace k'
  cString : ∀ k, K .volume k → IsCString (namePrefixedWithNamespace k)

/-- The object of the key is stored with the finalizer of its controller. -/
def External.Guarded (e : External) (s : World) (k : Key) : Prop :=
  (s.kube e.kind).HasFinalizer k (finalizerName e.finalizer)

/-- * `guarded`: what an object stands for exists only while the object has its finalizer
* `armed`: a version from which the worker may still start, and which tells it that the finalizer is
  there, tells the truth -/
structure Sound (K : Kind → Key → Prop) (s : World) : Prop where
  consistent : Consistent northbound s.northbound
  images : ∀ i ∈ s.ceph.pools poolVolumes, IsCString i.name
  keyed : ∀ e : External, ∀ o ∈ (s.kube e.kind).history, K e.kind o.key
  single : ∀ (e : External) k, K e.kind k → ∀ u ∈ e.copies s k, ∀ v ∈ e.copies s k, u = v
  guarded : ∀ (e : External) k, K e.kind k → e.copies s k ≠ [] → e.Guarded s k
  armed : ∀ e : External, ∀ o ∈ (s.kube e.kind).history, o.isDeleted = false →
    finalizerName e.finalizer ∈ o.metadata.finalizers → s.seen (e.worker o.key) ≤ o.version →
    e.Guarded s o.key

/-- What a worker can rely on while it waits: its object keeps the finalizer, and nobody else makes
what the object stands for. -/
structure Unharmed (K : Kind → Key → Prop) (w : Worker) (s t : World) : Prop where
  grows : ∀ e : External, (s.kube e.kind).Grows (t.kube e.kind)
  seen : t.seen w = s.seen w
  handles : HandlesKept s.ceph t.ceph
  kept : ∀ (e : External) k, w = e.worker k → e.Guarded s k → e.Guarded t k
  copies : ∀ (e : External) k, w = e.worker k → K e.kind k → e.copies t k ⊆ e.copies s k

/-- What others do between two requests of a worker. -/
def Follows (K : Kind → Key → Prop) (w : Worker) (s t : World) : Prop :=
  (Sound K s → Sound K t) ∧ Unharmed K w s t

/-- What a request of a worker does to the others. -/
def Harmless (K : Kind → Key → Prop) (w : Worker) (s t : World) : Prop :=
  Sound K t ∧ ∀ v, v ≠ w → Unharmed K v s t

section Invariant

variable {K : Kind → Key → Prop} {w : Worker} {s t u : World}

theorem sound_initial : Sound K World.initial where
  consistent := Ovsdb.consistent_empty
  images _ hi := nomatch hi
  keyed _ _ ho := nomatch ho
  single e k _ u hu := by cases e <;> cases hu
  guarded e k _ hne := by cases e <;> exact absurd rfl hne
  armed _ _ ho := nomatch ho

theorem Unharmed.refl (w : Worker) (s : World) : Unharmed K w s s :=
  ⟨fun _ => .refl _, rfl, .refl _, fun _ _ _ h => h, fun _ _ _ _ => List.Subset.refl _⟩

theorem Unharmed.trans (h : Unharmed K w s t) (h' : Unharmed K w t u) : Unharmed K w s u :=
  ⟨fun e => (h.grows e).trans (h'.grows e), h'.seen.trans h.seen, h.handles.trans h'.handles,
    fun e k hw hk => h'.kept e k hw (h.kept e k hw hk),
    fun e k hw hk => List.Subset.trans (h'.copies e k hw hk) (h.copies e k hw hk)⟩

theorem Follows.refl (w : Worker) (s : World) : Follows K w s s := ⟨fun h => h, .refl w s⟩

theorem Follows.trans (h : Follows K w s t) (h' : Follows K w t u) : Follows K w s u :=
  ⟨fun hs => h'.1 (h.1 hs), h.2.trans h'.2⟩

theorem Harmless.refl (h : Sound K s) : Harmless K w s s := ⟨h, fun v _ => .refl v s⟩

theorem Steady.unharmed (h : Steady K s t) (hseen : t.seen w = s.seen w) : Unharmed K w s t :=
  ⟨fun e => (h.kube e).grows, hseen, h.handles, fun e k _ => (h.kube e).kept k,
    fun e k _ hk => h.copies e k hk⟩

/-- A steady step that takes no worker back keeps the invariant. -/
theorem Steady.sound (h : Steady K s t) (hseen : ∀ w, s.seen w ≤ t.seen w) (hs : Sound K s) :
    Sound K t where
  consistent := h.consistent hs.consistent
  images := h.images hs.images
  keyed e := (h.kube e).keyed (hs.keyed e)
  single e k hk u hu v hv := hs.single e k hk u (h.copies e k hk hu) v (h.copies e k hk hv)
  guarded e k hk hne := by
    refine (h.kube e).kept k (hs.guarded e k hk fun hnil => hne ?_)
    exact List.subset_nil.mp (hnil ▸ h.copies e k hk)
  armed e o ho hd hf hle := by
    rcases (h.kube e).logged o ho with hold | hnew
    · exact (h.kube e).kept o.key (hs.armed e o hold hd hf (Nat.le_trans (hseen _) hle))
    · exact hnew hf

theorem Steady.harmless (h : Steady K s t) (hseen : t.seen = s.seen) (hs : Sound K s) :
    Harmless K w s t :=
  ⟨h.sound (fun w => Nat.le_of_eq (congrFun hseen w).symm) hs, fun v _ => h.unharmed (congrFun hseen v)⟩

theorem Steady.follows (h : Steady K s t) (hseen : t.seen = s.seen) : Follows K w s t :=
  ⟨h.sound fun w => Nat.le_of_eq (congrFun hseen w).symm, h.unharmed (congrFun hseen w)⟩

/-- Something is made for an object that has its finalizer, where there was nothing. -/
theorem harmless_made {e : External} {k : Key} {x : String} (hs : Sound K s) (hkube : t.kube = s.kube)
    (hseen : t.seen = s.seen) (hh : HandlesKept s.ceph t.ceph) (hc : Consistent northbound t.northbound)
    (hi : ∀ i ∈ t.ceph.pools poolVolumes, IsCString i.name) (hg : e.Guarded s k)
    (hnone : e.copies s k = []) (hone : e.copies t k ⊆ [x])
    (hother : ∀ (e' : External) k', K e'.kind k' → e'.worker k' ≠ e.worker k → e'.copies t k' ⊆ e'.copies s k') :
    Harmless K (e.worker k) s t := by
  have hguarded : ∀ (e' : External) k', e'.Guarded t k' ↔ e'.Guarded s k' := by
    intro e' k'
    unfold External.Guarded
    rw [hkube]
  have hself : ∀ (e' : External) k', e'.worker k' = e.worker k → e' = e ∧ k' = k :=
    fun e' k' h => External.worker_inj h
  refine ⟨⟨hc, hi, fun e' => ?_, fun e' k' hk u hu v hv => ?_, fun e' k' hk hne => ?_,
    fun e' o ho hd hf hle => ?_⟩, fun v hv => ⟨fun e' => ?_, congrFun hseen v, hh, fun e' k' _ h => ?_,
      fun e' k' hw hk => ?_⟩⟩
  · rw [hkube]
    exact hs.keyed e'
  · by_cases hw : e'.worker k' = e.worker k
    · obtain ⟨rfl, rfl⟩ := hself e' k' hw
      rw [List.mem_singleton.mp (hone hu), List.mem_singleton.mp (hone hv)]
    · exact hs.single e' k' hk u (hother e' k' hk hw hu) v (hother e' k' hk hw hv)
  · rw [hguarded]
    by_cases hw : e'.worker k' = e.worker k
    · obtain ⟨rfl, rfl⟩ := hself e' k' hw
      exact hg
    · refine hs.guarded e' k' hk fun hnil => hne ?_
      exact List.subset_nil.mp (hnil ▸ hother e' k' hk hw)
  · rw [hguarded]
    rw [hkube] at ho
    rw [hseen] at hle
    exact hs.armed e' o ho hd hf hle
  · rw [hkube]
    exact .refl _
  · exact (hguarded e' k').mpr h
  · exact hother e' k' hk fun heq => hv (hw.trans heq)

end Invariant

/-! ## The terms -/

/-- Users create objects of the keys `K`, and no worker goes back to an older version. -/
def GuardedRun (K : Kind → Key → Prop) (s : World) : ClusterEvent → Prop
  | .start w n => s.seen w ≤ n
  | .world e => Modelled K e
  | _ => True

def guardTerms (K : Kind → Key → Prop) : Terms Worker Request World where
  inv := Sound K
  rely := Follows K
  guar w s _ t := Harmless K w s t

section Rules

variable [Crates] {K : Kind → Key → Prop} {w : Worker} {s : World} {α β : Type}

abbrev guardContract (K : Kind → Key → Prop) (w : Worker) : Contract Request Request.Answer World :=
  (guardTerms K).contract cluster (GuardedRun K) w

/-- All requests of the program keep the terms. -/
def Safe (K : Kind → Key → Prop) (w : Worker) (p : Prog α) (s : World) : Prop :=
  (guardContract K w).wp p (fun _ _ => True) s

theorem safe_bind {p : Prog α} {f : α → Prog β}
    (h : (guardContract K w).wp p (fun x t => ∀ a, x = .ok a → Safe K w (f a) t) s) :
    Safe K w (p >>= f) s := by
  refine wp_bind (wp_mono h fun x t hx => ?_)
  cases x with
  | ok a => exact hx a rfl
  | error e => trivial

/-- Gentle requests keep the terms, and what the worker relies on. -/
theorem wp_gentle {p : Prog α} {done : α → Prop} (h : p.Within Gentle done) (s : World) :
    (guardContract K w).wp p (fun x t => Follows K w s t ∧ ∀ a, x = .ok a → done a) s := by
  refine wp_of_within (.refl w) (fun _ _ _ => .trans) (fun _ _ h => h) (fun s r a t hr hs hexec => ?_) h s
  obtain ⟨x, -, ha⟩ := hexec
  have hsteady : Steady K s t := steady_answer hr hs.consistent ha
  have hseen := (World.answer_frame ha).seen
  exact ⟨hsteady.harmless hseen hs, hsteady.follows hseen⟩

theorem safe_gentle {p : Prog α} (h : Only Gentle p) (s : World) : Safe K w p s :=
  wp_mono (wp_gentle h s) fun _ _ _ => trivial

theorem safe_gentle_bind {p : Prog α} {f : α → Prog β} {done : α → Prop} (h : p.Within Gentle done)
    (hf : ∀ a t, done a → Follows K w s t → Safe K w (f a) t) : Safe K w (p >>= f) s :=
  safe_bind (wp_mono (wp_gentle h s) fun _ t hx a ha => hf a t (hx.2 a ha) hx.1)

/-- A write of a whole object. -/
theorem wp_replace {κ : Kind} {n : Object κ} {writer : Writer} {post : Except Error (Object κ) → World → Prop}
    (hok : ∀ s₁ r c', Follows K w s s₁ → Sound K s₁ → (s₁.kube κ).replace n = .ok (r, c') →
      Harmless K w s₁ (s₁.setKube κ c') ∧ post (.ok r) (s₁.setKube κ c'))
    (herr : ∀ e t, post (.error e) t) :
    (guardContract K w).wp (kubeCall (.replace κ n writer)) post s :=
  contract_replace (fun _ _ => .refl) hok herr

/-- A call of librados or librbd. -/
theorem wp_cephCall {operation : String} {q : CephRequest} {post : Except Error q.Answer → World → Prop}
    (hok : ∀ s₁ x, Follows K w s s₁ → Sound K s₁ → Harmless K w s₁ (s₁.serveCeph x q).2 ∧
      ∀ a, (s₁.serveCeph x q).1 = .ok a → post (.ok a) (s₁.serveCeph x q).2)
    (herr : ∀ e t, post (.error e) t) :
    (guardContract K w).wp (cephCall operation q) post s :=
  contract_ceph (fun _ _ => .refl) hok herr

/-- A transaction on the database. -/
theorem wp_transaction {operations : List Operation} {post : Except Error (List Json) → World → Prop}
    (hok : ∀ s₁ fresh answers db, Follows K w s s₁ → Sound K s₁ →
      s₁.northbound.transact northbound fresh operations = some (answers, db) →
      Harmless K w s₁ (s₁.setNorthbound db) ∧ post (.ok answers) (s₁.setNorthbound db)) :
    (guardContract K w).wp (transact operations) post s :=
  contract_transact (fun _ _ => .refl) hok

end Rules

/-! ## Finalizers -/

/-- A reconcile goes on from a version of its object. -/
structure Began (K : Kind → Key → Prop) (e : External) (o : Object e.kind) (s : World) : Prop where
  sound : Sound K s
  logged : o ∈ (s.kube e.kind).history
  seen : s.seen (e.worker o.key) = o.version

/-- A reconcile goes on while its object has the finalizer. -/
structure Holding (K : Kind → Key → Prop) (e : External) (k : Key) (s : World) : Prop where
  sound : Sound K s
  key : K e.kind k
  guarded : e.Guarded s k

section Finalizers

variable [Crates] {K : Kind → Key → Prop} {e : External} {o : Object e.kind} {k : Key} {s t : World}

omit [Crates] in
theorem Began.follow (h : Began K e o s) (hf : Follows K (e.worker o.key) s t) : Began K e o t :=
  ⟨hf.1 h.sound, hf.2.grows e o h.logged, hf.2.seen.trans h.seen⟩

omit [Crates] in
theorem Began.key (h : Began K e o s) : K e.kind o.key := h.sound.keyed e o h.logged

omit [Crates] in
theorem Holding.follow (h : Holding K e k s) (hf : Follows K (e.worker k) s t) : Holding K e k t :=
  ⟨hf.1 h.sound, h.key, hf.2.kept e k rfl h.guarded⟩

/-- `ensure_finalizer` ends well only when the finalizer is there, also where it writes nothing. -/
theorem wp_guard (h : Began K e o s) (hd : o.isDeleted = false) :
    (guardContract K (e.worker o.key)).wp (ensureFinalizer o e.finalizer)
      (fun x t => ∀ n, x = .ok n → Holding K e o.key t ∧ n.key = o.key ∧ n.spec = o.spec) s := by
  unfold ensureFinalizer
  split
  · refine wp_bind (wp_bind (wp_replace (fun s₁ r c' hr hi hres => ?_) fun _ _ _ hn => nomatch hn))
    have hlogged : o ∈ (s₁.kube e.kind).history := hr.2.grows e o h.logged
    have hk : (addFinalizer o (finalizerName e.finalizer)).key = o.key := rfl
    have hmem : finalizerName e.finalizer ∈
        (addFinalizer o (finalizerName e.finalizer)).metadata.finalizers :=
      List.mem_append_right _ (List.mem_singleton_self _)
    have hsteady : Steady K s₁ (s₁.setKube e.kind c') := by
      refine steady_setKube fun e' he => ?_
      obtain rfl := External.kind_inj he
      exact Collection.keepsFinalizer_replace hlogged hk rfl (fun _ => hmem) hres
    have hharm := hsteady.harmless (w := e.worker o.key) rfl hi
    refine ⟨hharm, fun n hn => ?_⟩
    cases hn
    refine ⟨⟨hharm.1, hi.keyed e o hlogged, ?_⟩, rfl, rfl⟩
    unfold External.Guarded
    rw [World.kube_setKube_self]
    rw [← hk]
    exact Collection.hasFinalizer_replace hmem hres
  · next hf =>
    intro n hn
    cases hn
    have hmem : finalizerName e.finalizer ∈ o.metadata.finalizers := by simpa [hasFinalizer] using hf
    refine ⟨⟨h.sound, h.key, ?_⟩, rfl, rfl⟩
    exact h.sound.armed e o h.logged hd hmem (Nat.le_of_eq h.seen)

omit [Crates] in
/-- The finalizer goes when there is nothing left. No version that is not marked deleted can start the
worker any more. -/
theorem harmless_released {r : Object e.kind} {c' : Collection e.kind.Spec e.kind.Status}
    (h : Began K e o s) (hd : o.isDeleted = true) (hnone : e.copies s o.key = [])
    (hres : (s.kube e.kind).replace (dropFinalizer o (finalizerName e.finalizer)) = .ok (r, c')) :
    Harmless K (e.worker o.key) s (s.setKube e.kind c') := by
  have hs := h.sound
  have hnot : finalizerName e.finalizer ∉
      (dropFinalizer o (finalizerName e.finalizer)).metadata.finalizers := fun hmem =>
    of_decide_eq_true (List.mem_filter.mp hmem).2 rfl
  have hkey : (dropFinalizer o (finalizerName e.finalizer)).key = o.key := rfl
  obtain ⟨hstored, hgrows, hkept, hlogged, hkeyed⟩ :=
    Collection.replace_dropsFinalizer (K := K e.kind) h.logged hkey rfl hnot hres
  have hguarded : ∀ (e' : External) k', e'.worker k' ≠ e.worker o.key → e'.Guarded s k' →
      e'.Guarded (s.setKube e.kind c') k' := by
    intro e' k' hw hg
    unfold External.Guarded at hg ⊢
    by_cases he : e' = e
    · subst he
      rw [World.kube_setKube_self]
      exact hkept k' (fun hk => hw (hk ▸ rfl)) hg
    · rw [World.kube_setKube_of_ne fun hk => he (External.kind_inj hk)]
      exact hg
  refine ⟨⟨hs.consistent, hs.images, fun e' => ?_, hs.single, fun e' k' hk hne => ?_,
    fun e' o' ho hd' hf hle => ?_⟩, fun v hv => ⟨fun e' => ?_, rfl, .refl _, fun e' k' hw => ?_,
      fun _ _ _ _ => List.Subset.refl _⟩⟩
  · by_cases he : e' = e
    · subst he
      rw [World.kube_setKube_self]
      exact hkeyed (hs.keyed e')
    · rw [World.kube_setKube_of_ne fun hk => he (External.kind_inj hk)]
      exact hs.keyed e'
  · by_cases hw : e'.worker k' = e.worker o.key
    · obtain ⟨rfl, rfl⟩ := External.worker_inj hw
      exact absurd hnone hne
    · exact hguarded e' k' hw (hs.guarded e' k' hk hne)
  · by_cases he : e' = e
    · subst he
      rw [World.kube_setKube_self] at ho
      rcases hlogged o' ho with hold | hno
      · refine hguarded e' o'.key (fun hw => ?_) (hs.armed e' o' hold hd' hf hle)
        -- Such a version would be as new as the one that the worker has started from.
        obtain ⟨-, hk⟩ := External.worker_inj hw
        have hge : o.version ≤ o'.version := by
          rw [← h.seen, ← hk]
          exact hle
        have hle' : o'.version ≤ o.version := Collection.newest_of_find? hstored hold hk
        obtain rfl := (s.kube e'.kind).logged_unique o' hold o h.logged (Nat.le_antisymm hle' hge)
        rw [hd] at hd'
        cases hd'
      · exact absurd hf hno
    · rw [World.kube_setKube_of_ne fun hk => he (External.kind_inj hk)] at ho
      exact hguarded e' o'.key (fun hw => he (External.worker_inj hw).1) (hs.armed e' o' ho hd' hf hle)
  · by_cases he : e' = e
    · subst he
      rw [World.kube_setKube_self]
      exact hgrows
    · rw [World.kube_setKube_of_ne fun hk => he (External.kind_inj hk)]
      exact .refl _
  · exact hguarded e' k' (hw ▸ hv)

theorem safe_release (h : Began K e o s) (hd : o.isDeleted = true) (hnone : e.copies s o.key = []) :
    Safe K (e.worker o.key) (removeFinalizer o e.finalizer) s := by
  unfold removeFinalizer
  split
  · refine safe_bind (wp_bind (wp_replace (fun s₁ r c' hr hi hres => ?_) fun _ _ _ hn => nomatch hn))
    have hb := h.follow hr
    have hnone₁ : e.copies s₁ o.key = [] :=
      List.subset_nil.mp (hnone ▸ hr.2.copies e o.key rfl h.key)
    exact ⟨harmless_released hb hd hnone₁ hres, fun _ _ => trivial⟩
  · trivial

end Finalizers

/-! ## Switches and routers -/

section Rows

variable [Crates] {K : Kind → Key → Prop} {e : External} {o : Object e.kind} {k : Key} {w : Worker}
  {s t : World} {β : Type} (τ : Type) [OvnNamed τ] [OvnRow τ] [NamedRow τ]

theorem wp_found (name : String) :
    (guardContract K w).wp (getByName τ name) (fun x t => Follows K w s t ∧ Sound K t ∧
      x = foundByName τ t.northbound name) s := by
  unfold getByName
  refine wp_bind (contract_list τ (fun _ h => h.consistent) (fun _ _ => .refl) fun t hf ht => ?_)
  dsimp only
  rw [find?_rowsOf]
  unfold foundByName
  cases hn : named t.northbound (OvnCommon.ovnType τ) name with
  | some r =>
    refine ⟨hf, ht, ?_⟩
    rw [hn]
  | none =>
    refine ⟨hf, ht, ?_⟩
    rw [hn]

variable {τ}

omit [Crates] in
theorem name_of_found {db : Database} {name : String} {x : τ} (h : foundByName τ db name = .ok x) :
    OvnNamed.name x = name := by
  unfold foundByName at h
  split at h
  · next r hr =>
    cases h
    rw [NamedRow.name_ofRow]
    exact (firstWith_some hr).2
  · cases h

/-- A row is made where the worker has found none. `I` is what it knows, and `A` what the lookup
adds to it. -/
theorem safe_createIfMissing {name : String} {I A : World → Prop}
    (hT : OvnCommon.ovnType τ = typeLogicalSwitch ∨ OvnCommon.ovnType τ = typeLogicalRouter)
    (hok : ∀ s t, Follows K w s t → I s → I t) (habsent : ∀ s t, Follows K w s t → A s → A t)
    (hread : ∀ t, I t → rowsNamed t.northbound (OvnCommon.ovnType τ) name = [] → A t)
    (hmake : ∀ t u db, Sound K t → I t → A t → Consistent northbound db →
      db = t.northbound.modify (OvnCommon.ovnType τ)
        (fun rows => rows ++ [namedRow (OvnCommon.ovnType τ) u name]) →
      Harmless K w t (t.setNorthbound db) ∧ I (t.setNorthbound db))
    (h : I s) {f : τ → Prog β} (hf : ∀ x t, OvnNamed.name x = name → I t → Safe K w (f x) t) :
    Safe K w (createIfMissing τ name >>= f) s := by
  have hlookup : ∀ s, I s → (guardContract K w).wp (getByName τ name)
      (fun x t => ∀ a, x = .ok a → Safe K w (f a) t) s := fun s hs =>
    wp_mono (wp_found τ name) fun x t hx a ha =>
      hf a t (name_of_found (hx.2.2.symm.trans ha)) (hok s t hx.1 hs)
  refine safe_bind (wp_bind (wp_attempt (wp_mono (wp_found τ name) fun x t hx => ?_)))
  obtain ⟨hfol, hs, rfl⟩ := hx
  have ht : I t := hok s t hfol h
  cases hn : foundByName τ t.northbound name with
  | ok x =>
    intro a ha
    cases ha
    exact hf x t (name_of_found hn) ht
  | error err =>
    unfold foundByName at hn
    split at hn
    · cases hn
    · next hnone =>
      cases hn
      show (guardContract K w).wp (ovnCreate τ name) _ t
      unfold ovnCreate ovnInsert
      rw [Program.bind_assoc']
      have hroot : northbound.isRoot (OvnCommon.ovnType τ) = true := by
        rcases hT with hT | hT <;> rw [hT] <;> rfl
      have hcol : ("name", .strings [""]) ∈ northboundColumns (OvnCommon.ovnType τ) := by
        rcases hT with hT | hT <;> rw [hT] <;> decide
      have hst : northbound.Stores (OvnCommon.ovnType τ) := by
        rcases hT with hT | hT <;> rw [hT]
        · exact ⟨_, .head _, .inl rfl⟩
        · exact ⟨_, .tail _ (.head _), .inl rfl⟩
      refine wp_bind (wp_transaction fun s₁ fresh answers db hr hi htr => ?_)
      obtain ⟨hcons, u, -, hdb⟩ := transact_insert hroot hst (resolve_text "name" name)
        (fit_one (.strings [name]) hcol fun _ => rfl) hi.consistent htr
      obtain ⟨hharm, hok₁⟩ := hmake s₁ u db hi (hok t s₁ hr ht)
        (habsent t s₁ hr (hread t ht (rowsNamed_eq_nil.mpr hnone))) hcons hdb
      exact ⟨hharm, hlookup _ hok₁⟩

omit [Crates] in
/-- What there is after a row has been made. -/
theorem copies_inserted {T u name v : String} {db : Database} {e' : External} {k' : Key}
    (hT : T = typeLogicalSwitch ∨ T = typeLogicalRouter)
    (hdb : db = s.northbound.modify T fun rows => rows ++ [namedRow T u name])
    (hv : v ∈ e'.copies (s.setNorthbound db) k') :
    v ∈ e'.copies s k' ∨ (e'.table = some T ∧ namePrefixedWithNamespace k' = name ∧ v = u) := by
  have hcol : ("name", .strings [""]) ∈ northboundColumns T := by
    rcases hT with rfl | rfl <;> decide
  cases htable : e'.table with
  | none =>
    unfold External.copies at hv ⊢
    rw [htable] at hv ⊢
    exact .inl hv
  | some T' =>
    rw [External.copies_of_table htable] at hv ⊢
    by_cases hTT : T' = T
    · subst hTT
      obtain ⟨r, hr, hname, rfl⟩ := mem_rowsNamed.mp hv
      have hr' : r ∈ db T' := hr
      rw [hdb, Database.modify_self] at hr'
      rcases List.mem_append.mp hr' with hold | hnew
      · exact .inl (mem_rowsNamed.mpr ⟨r, hold, hname, rfl⟩)
      · obtain rfl := List.mem_singleton.mp hnew
        rw [rowText_namedRow hcol] at hname
        exact .inr ⟨rfl, hname.symm, Row.uuid_write⟩
    · have hsame : db T' = s.northbound T' := by
        rw [hdb]
        exact Database.modify_of_ne hTT
      have hv' : v ∈ rowsNamed db T' (namePrefixedWithNamespace k') := hv
      rw [rowsNamed_congr hsame] at hv'
      exact .inl hv'

/-- The row of an object is made under its finalizer. -/
theorem safe_createOwn (hK : DistinctNames K) (hT : e.table = some (OvnCommon.ovnType τ))
    (h : Holding K e k s) {f : τ → Prog β}
    (hf : ∀ x t, OvnNamed.name x = namePrefixedWithNamespace k → Holding K e k t →
      Safe K (e.worker k) (f x) t) :
    Safe K (e.worker k) (createIfMissing τ (namePrefixedWithNamespace k) >>= f) s := by
  refine safe_createIfMissing (I := Holding K e k) (A := fun t => K e.kind k ∧ e.copies t k = [])
    (External.table_cases hT) (fun s t hfol hs => hs.follow hfol) (fun s t hfol hs => ⟨hs.1, ?_⟩)
    (fun t ht hnone => ⟨ht.key, (External.copies_of_table hT t k).trans hnone⟩)
    (fun t u db hs ht hnone hc hdb => ?_) h hf
  · exact List.subset_nil.mp (hs.2 ▸ hfol.2.copies e k rfl hs.1)
  · have hinserted : ∀ (e' : External) k' v, v ∈ e'.copies (t.setNorthbound db) k' → v ∈ e'.copies t k' ∨
        (e'.table = some (OvnCommon.ovnType τ) ∧
          namePrefixedWithNamespace k' = namePrefixedWithNamespace k ∧ v = u) :=
      fun _ _ _ => copies_inserted (External.table_cases hT) hdb
    have hharm : Harmless K (e.worker k) t (t.setNorthbound db) := by
      refine harmless_made (x := u) hs rfl rfl (.refl _) hc hs.images ht.guarded hnone.2 ?_ ?_
      · intro v hv
        rcases hinserted e k v hv with hold | ⟨-, -, rfl⟩
        · rw [hnone.2] at hold
          cases hold
        · exact List.mem_singleton_self _
      · intro e' k' hk hne v hv
        rcases hinserted e' k' v hv with hold | ⟨htable, hname, -⟩
        · exact hold
        · obtain rfl : e' = e := External.table_inj (htable.trans hT.symm)
          exact absurd (hK.inj e' k' k hk ht.key hname ▸ rfl) hne
    exact ⟨hharm, hharm.1, ht.key, ht.guarded⟩

omit [Crates] [NamedRow τ] in
theorem found_mem_copies {x : τ} (hT : e.table = some (OvnCommon.ovnType τ))
    (h : foundByName τ s.northbound (namePrefixedWithNamespace k) = .ok x) :
    OvnCommon.uuid x ∈ e.copies s k := by
  rw [External.copies_of_table hT]
  unfold foundByName at h
  split at h
  · next r hr =>
    cases h
    obtain ⟨hmem, hname⟩ := firstWith_some hr
    exact mem_rowsNamed.mpr ⟨r, hmem, hname, (OvnRow.uuid_ofRow r).symm⟩
  · cases h

omit [Crates] [NamedRow τ] in
theorem copies_of_not_found {error : Error} (hT : e.table = some (OvnCommon.ovnType τ))
    (h : foundByName τ s.northbound (namePrefixedWithNamespace k) = .error error) : e.copies s k = [] := by
  rw [External.copies_of_table hT, rowsNamed_eq_nil]
  unfold foundByName at h
  split at h
  · cases h
  · next hnone => exact hnone

omit [OvnRow τ] [NamedRow τ] in
/-- The row of an object goes. -/
theorem wp_delete {x : τ} (hT : e.table = some (OvnCommon.ovnType τ)) (h : Began K e o s)
    (hx : OvnCommon.uuid x ∈ e.copies s o.key) :
    (guardContract K (e.worker o.key)).wp (ovnDelete x)
      (fun y t => ∀ a, y = .ok a → Began K e o t ∧ e.copies t o.key = []) s := by
  unfold ovnDelete deleteByUuid
  refine wp_bind (wp_transaction fun s₁ fresh answers db hr hi htr => ?_)
  have hb := h.follow hr
  have hroot : northbound.isRoot (OvnCommon.ovnType τ) = true := by
    rcases External.table_cases hT with hT | hT <;> rw [hT] <;> rfl
  obtain ⟨hcons, hdb⟩ := transact_delete (External.table_cases hT) hi.consistent htr
  have hsteady : Steady K s₁ (s₁.setNorthbound db) := by
    refine .of_northbound hcons fun T hT => ?_
    refine Ovsdb.descends_transact flat_northbound ?_ (fun op hop => ?_) htr
    · rcases hT with rfl | rfl <;> rfl
    · rw [List.mem_singleton.mp hop]
      exact trivial
  refine ⟨hsteady.harmless rfl hi, fun _ _ => ⟨hb.follow (hsteady.follows rfl), ?_⟩⟩
  rw [External.copies_of_table hT]
  refine List.eq_nil_iff_forall_not_mem.mpr fun v hv => ?_
  obtain ⟨r, hmem, hname, rfl⟩ := mem_rowsNamed.mp hv
  have hmem' : r ∈ db (OvnCommon.ovnType τ) := hmem
  rw [hdb, Ovsdb.sweep_root hroot, Database.modify_self] at hmem'
  obtain ⟨hold, hne⟩ := List.mem_filter.mp hmem'
  have hcopy : r.uuid ∈ e.copies s₁ o.key := by
    rw [External.copies_of_table hT]
    exact mem_rowsNamed.mpr ⟨r, hold, hname, rfl⟩
  refine of_decide_eq_true hne ?_
  exact h.sound.single e o.key h.key _ (hr.2.copies e o.key rfl h.key hcopy) _ hx

end Rows

/-! ## Images -/

/-- The handle is one of the pool of the volumes, if it is open. -/
def VolumePool (p : Nat) (s : World) : Prop :=
  p < s.ceph.next ∧ ∀ pool, s.ceph.poolOf p = some pool → pool = poolVolumes

section Images

variable [Crates] {K : Kind → Key → Prop} {e : External} {o : Volume} {k : Key} {w : Worker}
  {s t : World} {p : Nat} {name : String}

omit [Crates] in
theorem VolumePool.kept (h : VolumePool p s) (hh : HandlesKept s.ceph t.ceph) : VolumePool p t :=
  ⟨Nat.lt_of_lt_of_le h.1 hh.1, fun pool hp => h.2 pool (hh.2 p h.1 pool hp)⟩

omit [Crates] in
/-- A call of librados or librbd that makes no image. -/
theorem steady_serveCeph {q : CephRequest} {x : Choice} (h : Apart (.ceph q)) :
    Steady K s (s.serveCeph x q).2 ∧ (s.serveCeph x q).2.seen = s.seen := by
  have hframe := World.frame_serveCeph s x q
  have hkube : (s.serveCeph x q).2.kube = s.kube := hframe.kube fun _ hq => nomatch hq
  have hdb : (s.serveCeph x q).2.northbound = s.northbound := hframe.northbound fun _ hq => nomatch hq
  exact ⟨.of_ceph hkube hdb (handlesKept_serveCeph s x q) fun i hi => images_serveCeph h _ hi, hframe.seen⟩

/-- The same call, with what it answers. -/
theorem wp_apart {operation : String} {q : CephRequest} {post : Except Error q.Answer → World → Prop}
    (hq : Apart (.ceph q))
    (hok : ∀ s₁ x a t, Follows K w s s₁ → Sound K s₁ → s₁.serveCeph x q = (.ok a, t) →
      Follows K w s₁ t → post (.ok a) t)
    (herr : ∀ e t, post (.error e) t) :
    (guardContract K w).wp (cephCall operation q) post s := by
  refine wp_cephCall (fun s₁ x hr hi => ?_) herr
  obtain ⟨hsteady, hseen⟩ := steady_serveCeph (K := K) (s := s₁) (x := x) hq
  exact ⟨hsteady.harmless hseen hi, fun a ha => hok s₁ x a _ hr hi (Prod.ext ha rfl) (hsteady.follows hseen)⟩

/-- The pool of the volumes is opened. -/
theorem wp_volumePool (cluster : Nat) :
    (guardContract K w).wp (Ceph.getPool cluster poolVolumes)
      (fun x t => ∀ p, x = .ok p → Follows K w s t ∧ VolumePool p t) s := by
  refine wp_apart trivial (fun s₁ x a t hr _ hserved hf p hp => ?_) fun _ _ _ hp => nomatch hp
  cases hp
  cases hserved
  refine ⟨hr.trans hf, Nat.lt_succ_self _, fun pool hpool => ?_⟩
  exact (Option.some.inj (CephState.poolOf_opened.symm.trans hpool)).symm

/-- A listing of the volumes names the images that there are. -/
theorem wp_listing (hp : VolumePool p s) :
    (guardContract K w).wp (Ceph.getImages p) (fun x t => ∀ names, x = .ok names →
      Follows K w s t ∧ names = (t.ceph.pools poolVolumes).map RbdImage.name) s := by
  refine wp_bind (wp_apart trivial (fun s₁ x buffer t hr hi hserved hf => ?_) fun _ _ _ hn => nomatch hn)
  have hp₁ : VolumePool p s₁ := hp.kept hr.2.handles
  simp only [World.serveCeph] at hserved
  cases hpool : s₁.ceph.poolOf p with
  | none =>
    rw [hpool] at hserved
    cases hserved
  | some pool =>
    obtain rfl := hp₁.2 pool hpool
    cases hbuffer : listBuffer (s₁.ceph.pools poolVolumes) 32768 with
    | none =>
      rw [hpool] at hserved
      simp only [hbuffer] at hserved
      cases hserved
    | some bytes =>
      rw [hpool] at hserved
      simp only [hbuffer] at hserved
      cases hserved
      show (guardContract K w).wp (orPanic (Ceph.nullSeparatedToVec buffer)) _ _
      rw [nullSeparatedToVec_listBuffer hi.images hbuffer]
      intro names hn
      cases hn
      exact ⟨hr.trans hf, rfl⟩

/-- What a call that makes an image does through a handle of the volumes. -/
def MakesImage (q : CephRequest) (p : Nat) (name : String) : Prop :=
  ∀ (s : World) x, VolumePool p s → (s.serveCeph x q).2 = s ∨
    (s.ceph.find? poolVolumes name = none ∧ ∃ image : RbdImage, image.name = name ∧
      (s.serveCeph x q).2 = s.setCeph (s.ceph.modify poolVolumes (image :: ·)))

omit [Crates] in
theorem makesImage_rbdCreate (size : UInt64) : MakesImage (.rbdCreate p name size) p name := by
  intro s x hp
  simp only [World.serveCeph]
  cases hpool : s.ceph.poolOf p with
  | none => exact .inl rfl
  | some pool =>
    obtain rfl := hp.2 pool hpool
    cases hfind : s.ceph.find? poolVolumes name with
    | some image => exact .inl (by simp [hfind])
    | none => exact .inr ⟨rfl, _, rfl, by simp only [hfind]; rfl⟩

omit [Crates] in
theorem makesImage_rbdClone {pp : Nat} {parent snapshot : String} {features : UInt64} :
    MakesImage (.rbdClone pp parent snapshot p name features) p name := by
  intro s x hp
  simp only [World.serveCeph]
  cases hpp : s.ceph.poolOf pp with
  | none => exact .inl rfl
  | some parentPool =>
    cases hpool : s.ceph.poolOf p with
    | none => exact .inl rfl
    | some pool =>
      obtain rfl := hp.2 pool hpool
      cases hparent : s.ceph.find? parentPool parent with
      | none => exact .inl (by simp only [hparent])
      | some template =>
        cases hfind : s.ceph.find? poolVolumes name with
        | some image => exact .inl (by simp [hparent, hfind])
        | none => exact .inr ⟨rfl, _, rfl, by simp only [hparent, hfind]; rfl⟩

/-- The image of a volume is made under its finalizer. -/
theorem safe_makeCall {operation : String} {q : CephRequest} (hK : DistinctNames K)
    (hq : MakesImage q p (namePrefixedWithNamespace k)) (h : Holding K .image k s) (hp : VolumePool p s) :
    Safe K (.volume k) (cephCall operation q) s := by
  refine wp_cephCall (fun s₁ x hr hi => ⟨?_, fun _ _ => trivial⟩) fun _ _ => trivial
  have h₁ : Holding K .image k s₁ := h.follow hr
  have hc := handlesKept_serveCeph s₁ x q
  rcases hq s₁ x (hp.kept hr.2.handles) with hsame | ⟨hnone, image, hname, hmade⟩
  · rw [hsame]
    exact .refl hi
  · rw [hmade] at hc ⊢
    have hpools : ∀ name' : String, name' ∈ ((s₁.ceph.modify poolVolumes (image :: ·)).pools poolVolumes).map
        RbdImage.name ↔ name' = image.name ∨ name' ∈ (s₁.ceph.pools poolVolumes).map RbdImage.name := by
      intro name'
      have hpool : (s₁.ceph.modify poolVolumes (image :: ·)).pools poolVolumes =
          image :: s₁.ceph.pools poolVolumes := by simp [CephState.modify]
      rw [hpool, List.map_cons, List.mem_cons]
    have habsent : External.copies .image s₁ k = [] := by
      refine List.filter_eq_nil_iff.mpr fun name' hmem heq => ?_
      rw [of_decide_eq_true heq] at hmem
      exact CephState.find?_eq_none.mp hnone hmem
    refine harmless_made (e := .image) (k := k) (x := namePrefixedWithNamespace k) hi rfl rfl hc hi.consistent ?_
      h₁.guarded habsent ?_ ?_
    · intro i hmem
      change i ∈ Function.update s₁.ceph.pools poolVolumes _ poolVolumes at hmem
      rw [Function.update_self] at hmem
      rcases List.mem_cons.mp hmem with rfl | hmem
      · rw [hname]
        exact hK.cString k h.key
      · exact hi.images i hmem
    · intro v hv
      rw [of_decide_eq_true (List.mem_filter.mp hv).2]
      exact List.mem_singleton_self _
    · intro e' k' hk' hne v hv
      cases e' with
      | image =>
        obtain ⟨hmem, heq⟩ := List.mem_filter.mp hv
        rcases (hpools v).mp hmem with hnew | hold
        · have hkk : namePrefixedWithNamespace k' = namePrefixedWithNamespace k := by
            rw [← of_decide_eq_true heq, hnew, hname]
          exact absurd (hK.inj .image k' k hk' h.key hkk ▸ rfl) hne
        · exact List.mem_filter.mpr ⟨hold, heq⟩
      | switch => exact hv
      | router => exact hv

/-- The image of a volume goes. -/
theorem wp_ensureRemoved (h : Began K .image o s) :
    (guardContract K (.volume o.key)).wp (Volumes.ensureRemoved (namePrefixedWithNamespace o.key))
      (fun x t => ∀ a, x = .ok a → Began K .image o t ∧ External.copies .image t o.key = []) s := by
  refine wp_bind (wp_mono (wp_gentle apart_cephConnect.gentle s) fun x t hx => ?_)
  cases x with
  | error err => exact fun _ hn => nomatch hn
  | ok cluster =>
    refine wp_bind (wp_mono (wp_volumePool cluster) fun x t₁ hx₁ => ?_)
    cases x with
    | error err => exact fun _ hn => nomatch hn
    | ok p =>
      obtain ⟨hf₁, hp⟩ := hx₁ p rfl
      refine wp_bind (wp_mono (wp_listing hp) fun x t₂ hx₂ => ?_)
      cases x with
      | error err => exact fun _ hn => nomatch hn
      | ok names =>
        obtain ⟨hf₂, rfl⟩ := hx₂ names rfl
        have hb : Began K .image o t₂ := h.follow (hx.1.trans (hf₁.trans hf₂))
        dsimp only
        unfold onlyIf
        by_cases hin : namePrefixedWithNamespace o.key ∈ (t₂.ceph.pools poolVolumes).map RbdImage.name
        · rw [if_pos hin]
          unfold Ceph.removeImage
          rw [cStringNew_of_nulFree (nulFree_of_mem hb.sound.images hin), Program.ret_bind]
          refine wp_apart (q := .rbdRemove p (namePrefixedWithNamespace o.key)) trivial
            (fun s₃ x a t₃ hr _ hserved hf₃ _ _ => ?_) fun _ _ _ hn => nomatch hn
          refine ⟨(hb.follow hr).follow hf₃, ?_⟩
          simp only [World.serveCeph] at hserved
          cases hpool : s₃.ceph.poolOf p with
          | none =>
            rw [hpool] at hserved
            cases hserved
          | some pool =>
            obtain rfl := (hp.kept (hf₂.2.handles.trans hr.2.handles)).2 pool hpool
            rw [hpool] at hserved
            dsimp only at hserved
            split at hserved
            · cases hserved
              refine List.filter_eq_nil_iff.mpr fun name hmem heq => ?_
              rw [of_decide_eq_true heq] at hmem
              exact CephState.find?_eq_none.mp CephState.find?_modify_filter hmem
            · cases hserved
        · rw [if_neg hin]
          refine fun _ _ => ⟨hb, List.filter_eq_nil_iff.mpr fun name hmem heq => ?_⟩
          rw [of_decide_eq_true heq] at hmem
          exact hin hmem

theorem safe_makeImage {templatePool : Nat} (size : UInt64) (template : Option String)
    (hK : DistinctNames K) (h : Holding K .image k s) (hp : VolumePool p s) :
    Safe K (.volume k) (Volumes.makeImage p templatePool (namePrefixedWithNamespace k) size template) s := by
  cases template with
  | none =>
    exact safe_gentle_bind (silent_cStringNew _ _).within fun _ t _ hf =>
      safe_makeCall hK (makesImage_rbdCreate size) (h.follow hf) (hp.kept hf.2.handles)
  | some templateName =>
    refine safe_gentle_bind (silent_cStringNew _ _).within fun _ t₁ _ hf₁ => ?_
    refine safe_gentle_bind (silent_cStringNew _ _).within fun _ t₂ _ hf₂ => ?_
    refine safe_gentle_bind (apart_getFeatures _ _ _).gentle fun features t₃ _ hf₃ => ?_
    have hf := hf₁.trans (hf₂.trans hf₃)
    exact safe_makeCall hK makesImage_rbdClone (h.follow hf) (hp.kept hf.2.handles)

theorem safe_ensureExists (size : UInt64) (template : Option String) (hK : DistinctNames K)
    (h : Holding K .image k s) :
    Safe K (.volume k) (Volumes.ensureExists (namePrefixedWithNamespace k) size template) s := by
  refine safe_gentle_bind apart_cephConnect.gentle fun cluster t₁ _ hf₁ => ?_
  refine safe_bind (wp_mono (wp_volumePool cluster) fun x t₂ hx p hp => ?_)
  obtain ⟨hf₂, hpool⟩ := hx p hp
  refine safe_gentle_bind (Only.gentle (only_cephCall trivial)) fun templatePool t₃ _ hf₃ => ?_
  refine safe_gentle_bind (apart_getImages p).gentle fun images t₄ _ hf₄ => ?_
  have h₄ : Holding K .image k t₄ := h.follow (hf₁.trans (hf₂.trans (hf₃.trans hf₄)))
  refine safe_bind (wp_mono (?_ : Safe K (.volume k) _ t₄) fun _ t _ _ _ =>
    safe_gentle (apart_closing _ _ _).gentle t)
  unfold onlyIf
  split
  · exact safe_makeImage size template hK h₄ (hpool.kept (hf₃.trans hf₄).2.handles)
  · trivial

theorem safe_updateVolume (hK : DistinctNames K) (h : Began K .image o s) (hd : o.isDeleted = false) :
    Safe K (.volume o.key) (Volumes.updateVolume o) s := by
  unfold Volumes.updateVolume
  dsimp only
  split
  · trivial
  · exact safe_bind (wp_mono (wp_guard h hd) fun x t hx n hn => safe_ensureExists _ _ hK (hx n hn).1)

theorem safe_removeVolume (h : Began K .image o s) (hd : o.isDeleted = true) :
    Safe K (.volume o.key) (Volumes.removeVolume o) s := by
  refine safe_bind (wp_mono (wp_ensureRemoved h) fun x t hx a ha => ?_)
  obtain ⟨hb, hnone⟩ := hx a ha
  exact safe_bind (wp_mono (safe_release hb hd hnone) fun _ _ _ _ _ => trivial)

end Images

/-! ## The controllers -/

section Controllers

variable [Crates] {K : Kind → Key → Prop} {w : Worker} {s t : World}

theorem safe_updateNetwork {network : Network} (hK : DistinctNames K) (h : Began K .switch network s)
    (hd : network.isDeleted = false) : Safe K (.network network.key) (updateNetwork network) s := by
  unfold updateNetwork
  split
  · trivial
  · refine safe_gentle_bind apart_ovnTry.gentle fun _ t₁ _ hf₁ => ?_
    refine safe_bind (wp_mono (wp_guard (h.follow hf₁) hd) fun x t₂ hx n hn => ?_)
    exact safe_createOwn hK rfl (hx n hn).1 fun _ t₃ _ _ => safe_gentle (gentle_switchSettings _ _) t₃

/-- The switch of a network goes, if there is one. -/
theorem wp_deleteSwitch {network : Network} (h : Began K .switch network s) :
    (guardContract K (.network network.key)).wp (deleteSwitch (namePrefixedWithNamespace network.key))
      (fun x t => ∀ a, x = .ok a → Began K .switch network t ∧ External.copies .switch t network.key = [])
      s := by
  refine wp_bind (wp_attempt (wp_mono (wp_found LogicalSwitch _) fun x t hx => ?_))
  obtain ⟨hf, -, rfl⟩ := hx
  have hb := h.follow hf
  cases hn : foundByName LogicalSwitch t.northbound (namePrefixedWithNamespace network.key) with
  | ok ls => exact wp_delete rfl hb (found_mem_copies rfl hn)
  | error error =>
    have hnone := copies_of_not_found (e := .switch) rfl hn
    unfold foundByName at hn
    split at hn
    · cases hn
    · cases hn
      exact fun _ _ => ⟨hb, hnone⟩

theorem safe_removeNetwork {network : Network} (h : Began K .switch network s)
    (hd : network.isDeleted = true) : Safe K (.network network.key) (removeNetwork network) s := by
  unfold removeNetwork
  split
  · trivial
  · refine safe_gentle_bind apart_ovnTry.gentle fun _ t₁ _ hf₁ => ?_
    refine safe_bind (wp_mono (wp_deleteSwitch (h.follow hf₁)) fun x t₂ hx a ha => ?_)
    obtain ⟨hb, hnone⟩ := hx a ha
    exact safe_bind (wp_mono (safe_release hb hd hnone) fun _ _ _ _ _ => trivial)

/-- The switch of a metadata service is the one of no network. -/
theorem safe_connectMetadataservice {k : Key} {lr : LogicalRouter} (hK : DistinctNames K)
    (h : Holding K .router k s) (hlr : lr.name = namePrefixedWithNamespace k) :
    Safe K (.router k) (connectMetadataservice lr) s := by
  refine safe_createIfMissing (I := Holding K .router k) (A := fun _ => True) (.inl rfl)
    (fun _ _ hf ht => ht.follow hf) (fun _ _ _ _ => trivial) (fun _ _ _ => trivial)
    (fun t u db hs ht _ hc hdb => ?_) h fun ls t _ _ => safe_gentle ?_ t
  · have hsteady : Steady K t (t.setNorthbound db) := by
      refine ⟨fun _ => hc, fun hi => hi, .refl _, fun _ => .refl _, fun e' k' hk' v hv => ?_⟩
      rcases copies_inserted (.inl rfl) hdb hv with hold | ⟨htable, hname, -⟩
      · exact hold
      · obtain rfl : e' = .switch := External.table_inj htable
        exact absurd (hlr ▸ hname) (hK.metadata k' k hk' ht.key)
    have hharm := hsteady.harmless (w := .router k) rfl hs
    exact ⟨hharm, ht.follow (hsteady.follows rfl)⟩
  · exact .bind (gentle_connectRouterToLs _ _ _) fun _ => .bind (gentle_plainPort _ _) fun lsp =>
      gentle_setAddress _ _ _

theorem safe_updateRouter {router : Router} (hK : DistinctNames K) (h : Began K .router router s)
    (hd : router.isDeleted = false) : Safe K (.router router.key) (updateRouter router) s := by
  refine safe_gentle_bind apart_ovnTry.gentle fun _ t₁ _ hf₁ => ?_
  refine safe_bind (wp_mono (wp_guard (h.follow hf₁) hd) fun x t₂ hx n hn => ?_)
  refine safe_createOwn hK rfl (hx n hn).1 fun lr t₃ hlr h₃ => ?_
  refine safe_gentle_bind (gentle_getByName _ _) fun current t₄ _ hf₄ => ?_
  refine safe_gentle_bind (gentle_setRoutes _ _) fun _ t₅ _ hf₅ => ?_
  refine safe_bind (wp_mono (?_ : Safe K (.router router.key) _ t₅) fun _ t _ _ _ =>
    safe_gentle (apart_setStatus _ _ _).gentle t)
  unfold onlyIf
  split
  · exact safe_gentle_bind (apart_deployMds _ _).gentle fun _ t₆ _ hf₆ =>
      safe_connectMetadataservice hK (h₃.follow (hf₄.trans (hf₅.trans hf₆))) hlr
  · trivial

theorem safe_removeRouter {router : Router} (h : Began K .router router s)
    (hd : router.isDeleted = true) : Safe K (.router router.key) (removeRouter router) s := by
  refine safe_gentle_bind apart_ovnTry.gentle fun _ t₁ _ hf₁ => ?_
  refine safe_bind (wp_mono (wp_found LogicalRouter _) fun x t₂ hx lr hlr => ?_)
  have hb := (h.follow hf₁).follow hx.1
  have hcopy := found_mem_copies (e := .router) rfl (hx.2.2.symm.trans hlr)
  refine safe_bind (wp_mono (wp_delete rfl hb hcopy) fun x t₃ hx₃ a ha => ?_)
  obtain ⟨hb₃, hnone⟩ := hx₃ a ha
  exact safe_bind (wp_mono (safe_release hb₃ hd hnone) fun _ _ _ _ _ => trivial)

/-- What a controller does with a version of its object. -/
theorem safe_controller {e : External} {o : Object e.kind} {remove update : Object e.kind → Prog Unit}
    (hs : Sound K s) (ho : o ∈ (s.kube e.kind).history) (hseen : s.seen (e.worker o.key) = o.version)
    (hremove : Began K e o s → o.isDeleted = true → Safe K (e.worker o.key) (remove o) s)
    (hupdate : Began K e o s → o.isDeleted = false → Safe K (e.worker o.key) (update o) s) :
    Safe K (e.worker o.key) (if o.isDeleted then remove o else update o) s := by
  have h : Began K e o s := ⟨hs, ho, hseen⟩
  cases hd : o.isDeleted
  · exact hupdate h hd
  · exact hremove h hd

/-- A reconcile that starts from a logged version keeps the terms. -/
theorem safe_reconcile (hK : DistinctNames K) {v : Object w.kind} (hs : Sound K s)
    (hv : v ∈ (s.kube w.kind).history) (hkey : v.key = w.key) (hseen : s.seen w = v.version) :
    Safe K w (w.reconcile v) s := by
  have hboth : ∀ {p q : Prog Unit}, Only Gentle p → Only Gentle q →
      Safe K w (if v.isDeleted then p else q) s := by
    intro p q hp hq
    split
    · exact safe_gentle hp s
    · exact safe_gentle hq s
  cases w with
  | vm k => exact hboth trivial (apart_createVm v).gentle
  | vmOvn k => exact hboth (gentle_removeVm v) (gentle_updateVm v)
  | node name => exact hboth trivial (apart_updateNode v).gentle
  | image k => exact hboth (apart_removeImage v).gentle (apart_updateImage v).gentle
  | host node k => exact safe_gentle (Host.apart_reconcile node v).gentle s
  | network k =>
    have main : ∀ o : Network, o ∈ (s.kube .network).history → o.key = k →
        s.seen (.network k) = o.version →
        Safe K (.network k) (if o.isDeleted then removeNetwork o else updateNetwork o) s := by
      rintro o ho rfl hseen
      exact safe_controller (e := .switch) hs ho hseen safe_removeNetwork (safe_updateNetwork hK)
    exact main v hv hkey hseen
  | router k =>
    have main : ∀ o : Router, o ∈ (s.kube .router).history → o.key = k →
        s.seen (.router k) = o.version →
        Safe K (.router k) (if o.isDeleted then removeRouter o else updateRouter o) s := by
      rintro o ho rfl hseen
      exact safe_controller (e := .router) hs ho hseen safe_removeRouter (safe_updateRouter hK)
    exact main v hv hkey hseen
  | volume k =>
    have main : ∀ o : Volume, o ∈ (s.kube .volume).history → o.key = k →
        s.seen (.volume k) = o.version →
        Safe K (.volume k) (if o.isDeleted then Volumes.removeVolume o else Volumes.updateVolume o) s := by
      rintro o ho rfl hseen
      exact safe_controller (e := .image) hs ho hseen safe_removeVolume (safe_updateVolume hK)
    exact main v hv hkey hseen

/-- Terms under which the finalizers guard what objects stand for, in every interleaving. -/
def guardRegime (hK : DistinctNames K) : Regime cluster (GuardedRun K) where
  toTerms := guardTerms K
  rely_refl := .refl
  rely_trans _ _ _ _ := .trans
  call_keeps w s r a t hs hexec hharm := by
    refine ⟨hharm.1, fun v hv => ⟨fun _ => hharm.1, hharm.2 v hv⟩⟩
  start_keeps w s n p t hs hn hl := by
    obtain ⟨v, hv, hkey, rfl, rfl, rfl⟩ := World.launch_some hl
    have hsteady : Steady K s { s with seen := Function.update s.seen w v.version } := .of_eq rfl rfl rfl
    have hseen : ∀ w', s.seen w' ≤ Function.update s.seen w v.version w' := by
      intro w'
      by_cases hw : w' = w
      · subst hw
        rw [Function.update_self]
        exact hn
      · rw [Function.update_of_ne hw]
    refine ⟨hsteady.sound hseen hs, fun v' hv' => ⟨hsteady.sound hseen, hsteady.unharmed ?_⟩, ?_⟩
    · exact Function.update_of_ne hv' _ _
    · exact safe_reconcile hK (hsteady.sound hseen hs) hv hkey (Function.update_self _ _ _)
  stop_keeps w s hs _ := by
    have hsteady : Steady K s (World.release w s) := by
      unfold World.release
      split <;> exact .of_eq rfl rfl rfl
    have hseen : (World.release w s).seen = s.seen := World.seen_release w s
    exact ⟨(hsteady.harmless (w := w) hseen hs).1, fun v _ => hsteady.follows hseen⟩
  world_keeps s e t hs he ht := by
    have hsteady : Steady K s t := steady_happen he hs.consistent ht
    have hseen : t.seen = s.seen := World.seen_happen ht
    refine ⟨hsteady.sound (fun w => Nat.le_of_eq (congrFun hseen w).symm) hs, fun v => hsteady.follows hseen⟩

/-- In every interleaving there is at most one of what an object stands for, and while there is one,
the API server stores the object with the finalizer of its controller. -/
theorem finalizer_guards (hK : DistinctNames K) {c : ClusterConfig}
    (hrun : cluster.Run (GuardedRun K) ⟨.initial, fun _ => none⟩ c) (e : External) (k : Key)
    (hk : K e.kind k) : (∀ u ∈ e.copies c.state k, ∀ v ∈ e.copies c.state k, u = v) ∧
      (e.copies c.state k ≠ [] → e.Guarded c.state k) := by
  have hs : Sound K c.state :=
    (guardRegime hK).run_inv ((guardRegime hK).holds_idle sound_initial) hrun
  exact ⟨hs.single e k hk, hs.guarded e k hk⟩

end Controllers

instance {K : Kind → Key → Prop} [∀ κ k, Decidable (K κ k)] : (e : WorldEvent) → Decidable (Modelled K e)
  | .create κ k _ _ _ => inferInstanceAs (Decidable (κ.isExternal = true → K κ k))
  | .storeImage pool _ => inferInstanceAs (Decidable (pool ≠ poolVolumes))
  | .edit .. | .delete .. | .setNodeStatus .. | .migrationCompletes .. | .migrationAborts ..
  | .domainStops .. | .assignAddress .. => .isTrue trivial

instance {K : Kind → Key → Prop} [∀ κ k, Decidable (K κ k)] (s : World) :
    (e : ClusterEvent) → Decidable (GuardedRun K s e)
  | .start w n => inferInstanceAs (Decidable (s.seen w ≤ n))
  | .world e => inferInstanceAs (Decidable (Modelled K e))
  | .call .. | .stop .. => .isTrue trivial

attribute [local instance] plainCrates

/-- The only key of objects that stand for something. -/
def onlyKey (_ : Kind) (k : Key) : Prop := k = ⟨"n", "r"⟩

instance (κ : Kind) (k : Key) : Decidable (onlyKey κ k) := inferInstanceAs (Decidable (k = _))

/-- The reconcile of a router makes it in OVN. -/
theorem finalizer_guards_router : ∃ c : ClusterConfig,
    cluster.Run (GuardedRun onlyKey) ⟨.initial, fun _ => none⟩ c ∧
      External.copies .router c.state ⟨"n", "r"⟩ ≠ [] ∧ External.Guarded .router c.state ⟨"n", "r"⟩ := by
  have hK : DistinctNames onlyKey := by
    refine ⟨?_, ?_, ?_⟩
    · rintro e k k' rfl rfl -
      rfl
    · rintro k k' rfl rfl
      decide
    · rintro k rfl
      exact ⟨by decide, by decide +kernel⟩
  obtain ⟨c, hr, hc⟩ := Interaction.Machine.play_reaches (M := cluster) (GuardedRun onlyKey)
    ⟨World.initial, fun _ => none⟩
    ([.world (.create .node ⟨"", "a"⟩ [(ovnCentralManagedLabel, "managed")]
        [( ovnCentralIpAnnotation, "10.0.0.1")] ()),
      .world (.create .router ⟨"n", "r"⟩ [] [] ⟨none, none⟩)] ++ serve (.router ⟨"n", "r"⟩) 1 4 ++
      [.call (.router ⟨"n", "r"⟩) { fresh := ["u"] }])
    (fun c => External.copies .router c.state ⟨"n", "r"⟩ ≠ []) (by decide +kernel)
  have hne := of_decide_eq_true hc
  exact ⟨c, hr, hne, (finalizer_guards hK hr .router ⟨"n", "r"⟩ rfl).2 hne⟩

end ClusterController
