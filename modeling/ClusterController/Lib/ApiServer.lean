import Mathlib

/-!
# A Kubernetes API server for one kind of resource

A `Collection` stores the objects of one kind and every version that was ever stored.
Each change gets a fresh resource version, and each new object a fresh uid. `replace` and
`replaceStatus` are accepted only for the stored resource version (optimistic concurrency),
a plain replace never changes the status, a status replace changes nothing else, and an
object with a deletion timestamp disappears when its last finalizer goes.

The fields of `Collection` carry what holds of every collection: stored objects are
logged, logged versions are unique, the stored version of a key is its newest, and the
versions of an earlier object of the same key are older than the stored object. The
consequence that writers rest on is `Collection.eq_of_version`: a snapshot that carries
the stored resource version is the stored object.
-/

namespace ApiServer

/-! ## Objects -/

/-- A map with string keys, as the list of its entries. -/
abbrev StringMap := List (String × String)

namespace StringMap

/-- The value of a key. -/
def get (m : StringMap) (k : String) : Option String := List.lookup k m

/-- Set the value of a key, in place when the key is there. -/
def insert : StringMap → String → String → StringMap
  | [], k, v => [(k, v)]
  | (k', v') :: m, k, v => if k' = k then (k, v) :: m else (k', v') :: insert m k v

/-- Drop a key. -/
def remove (m : StringMap) (k : String) : StringMap := m.filter fun e => e.1 ≠ k

@[simp] theorem get_nil (k : String) : get [] k = none := rfl

theorem get_cons (k' v' : String) (m : StringMap) (k : String) :
    get ((k', v') :: m) k = if k' = k then some v' else get m k := by
  unfold get
  rw [List.lookup_cons]
  by_cases h : k' = k
  · subst h
    simp
  · have : (k == k') = false := by simpa using fun e => h e.symm
    simp [h, this]

@[simp] theorem get_insert_self (m : StringMap) (k v : String) : get (insert m k v) k = some v := by
  induction m with
  | nil => simp [insert, get_cons]
  | cons e m ih =>
    obtain ⟨k', v'⟩ := e
    by_cases h : k' = k
    · simp [insert, h, get_cons]
    · simp [insert, h, get_cons, ih]

@[simp] theorem get_remove_self (m : StringMap) (k : String) : get (remove m k) k = none := by
  induction m with
  | nil => rfl
  | cons e m ih =>
    obtain ⟨k', v'⟩ := e
    unfold remove at ih ⊢
    by_cases h : k' = k
    · rw [List.filter_cons_of_neg (by simpa using h), ih]
    · rw [List.filter_cons_of_pos (by simpa using h), get_cons, if_neg h, ih]

@[simp] theorem remove_insert (m : StringMap) (k v : String) :
    remove (insert m k v) k = remove m k := by
  induction m with
  | nil => simp [insert, remove]
  | cons e m ih =>
    obtain ⟨k', v'⟩ := e
    unfold remove at ih ⊢
    by_cases h : k' = k
    · simp [insert, h]
    · rw [insert, if_neg h, List.filter_cons_of_pos (by simpa using h), ih,
        List.filter_cons_of_pos (by simpa using h)]

@[simp] theorem remove_remove (m : StringMap) (k : String) : remove (remove m k) k = remove m k := by
  unfold remove
  rw [List.filter_filter]
  simp

end StringMap

/-- What identifies a namespaced object of one kind. -/
structure Key where
  ns : String
  name : String
deriving DecidableEq, Repr

/-- The metadata of an object. -/
structure ObjectMeta where
  ns : String
  name : String
  uid : Nat
  resourceVersion : Nat
  labels : StringMap
  annotations : StringMap
  finalizers : List String
  deletionTimestamp : Option Nat
deriving DecidableEq, Repr

/-- An object of a custom resource with a status subresource. -/
structure Resource (Spec Status : Type) where
  metadata : ObjectMeta
  spec : Spec
  status : Option Status
deriving DecidableEq, Repr

variable {Spec Status : Type}

namespace Resource

/-- The key of an object. -/
def key (o : Resource Spec Status) : Key := ⟨o.metadata.ns, o.metadata.name⟩

/-- The resource version of an object. -/
def version (o : Resource Spec Status) : Nat := o.metadata.resourceVersion

/-- What tells an object from an earlier one of the same key. -/
def uid (o : Resource Spec Status) : Nat := o.metadata.uid

/-- The user has asked for the deletion of the object. -/
def isDeleted (o : Resource Spec Status) : Bool := o.metadata.deletionTimestamp.isSome

/-- The same content under another uid and resource version. -/
def stamped (o : Resource Spec Status) (u n : Nat) : Resource Spec Status :=
  { o with metadata := { o.metadata with uid := u, resourceVersion := n } }

section Stamped

variable (o : Resource Spec Status) (u n : Nat)

@[simp] theorem key_stamped : (o.stamped u n).key = o.key := rfl
@[simp] theorem uid_stamped : (o.stamped u n).uid = u := rfl
@[simp] theorem version_stamped : (o.stamped u n).version = n := rfl
@[simp] theorem spec_stamped : (o.stamped u n).spec = o.spec := rfl
@[simp] theorem status_stamped : (o.stamped u n).status = o.status := rfl
@[simp] theorem isDeleted_stamped : (o.stamped u n).isDeleted = o.isDeleted := rfl
@[simp] theorem labels_stamped : (o.stamped u n).metadata.labels = o.metadata.labels := rfl
@[simp] theorem annotations_stamped :
    (o.stamped u n).metadata.annotations = o.metadata.annotations := rfl
@[simp] theorem finalizers_stamped :
    (o.stamped u n).metadata.finalizers = o.metadata.finalizers := rfl

end Stamped

end Resource

/-! ## Collections -/

/-- The stored objects of one kind and all versions that were ever stored. -/
structure Collection (Spec Status : Type) where
  revision : Nat
  objects : List (Resource Spec Status)
  history : List (Resource Spec Status)
  keys_nodup : (objects.map Resource.key).Nodup
  stored_logged : ∀ o ∈ objects, o ∈ history
  logged_le : ∀ o ∈ history, o.uid ≤ o.version ∧ o.version ≤ revision
  logged_unique : ∀ o ∈ history, ∀ v ∈ history, o.version = v.version → o = v
  stored_newest : ∀ o ∈ objects, ∀ v ∈ history, v.key = o.key → v.version ≤ o.version
  stored_lineage : ∀ o ∈ objects, ∀ v ∈ history, v.key = o.key → v.uid = o.uid ∨ v.version < o.uid

namespace Collection

/-- The collection before the first object. -/
def empty : Collection Spec Status where
  revision := 0
  objects := []
  history := []
  keys_nodup := List.nodup_nil
  stored_logged := fun _ h => nomatch h
  logged_le := fun _ h => nomatch h
  logged_unique := fun _ h => nomatch h
  stored_newest := fun _ h => nomatch h
  stored_lineage := fun _ h => nomatch h

variable {c c' : Collection Spec Status} {o v old new : Resource Spec Status} {k : Key}

/-- The stored object of a key. -/
def find? (c : Collection Spec Status) (k : Key) : Option (Resource Spec Status) :=
  c.objects.find? fun o => o.key = k

theorem mem_of_find? (h : c.find? k = some o) : o ∈ c.objects := List.mem_of_find?_eq_some h

theorem key_of_find? (h : c.find? k = some o) : o.key = k := by
  simpa using List.find?_some h

theorem logged_of_find? (h : c.find? k = some o) : o ∈ c.history :=
  c.stored_logged o (mem_of_find? h)

theorem find?_of_mem (h : o ∈ c.objects) : c.find? o.key = some o := by
  cases hf : c.find? o.key with
  | none =>
    have := List.find?_eq_none.mp hf o h
    simp at this
  | some v =>
    have hk : v.key = o.key := key_of_find? hf
    have := List.inj_on_of_nodup_map c.keys_nodup (mem_of_find? hf) h hk
    rw [this]

theorem mem_iff_find? : o ∈ c.objects ↔ c.find? o.key = some o :=
  ⟨find?_of_mem, mem_of_find?⟩

/-- A logged version that carries the stored resource version is the stored object. -/
theorem eq_of_version (hv : v ∈ c.history) (hs : c.find? k = some o)
    (h : v.version = o.version) : v = o :=
  c.logged_unique v hv o (logged_of_find? hs) h

theorem newest_of_find? (hs : c.find? k = some o) (hv : v ∈ c.history) (hk : v.key = k) :
    v.version ≤ o.version :=
  c.stored_newest o (mem_of_find? hs) v hv (hk.trans (key_of_find? hs).symm)

/-- Once a newer version of its key is logged, a resource version is never stored again. -/
theorem stale_of_newer (hs : c.find? k = some o) (hv : v ∈ c.history) (hk : v.key = k) {n : Nat}
    (hn : n < v.version) : o.version ≠ n := by
  have := newest_of_find? hs hv hk
  omega

/-- A version logged under the stored key is of the stored object or older than it. -/
theorem lineage_of_find? (hs : c.find? k = some o) (hv : v ∈ c.history) (hk : v.key = k) :
    v.uid = o.uid ∨ v.version < o.uid :=
  c.stored_lineage o (mem_of_find? hs) v hv (hk.trans (key_of_find? hs).symm)

/-! ## The two ways a collection changes -/

/-- The next version of an object: under the uid of the stored object of its key, or
under a fresh one. -/
def stamp (c : Collection Spec Status) (o : Resource Spec Status) : Resource Spec Status :=
  o.stamped (match c.find? o.key with
    | some stored => stored.uid
    | none => c.revision + 1) (c.revision + 1)

@[simp] theorem key_stamp : (c.stamp o).key = o.key := rfl
@[simp] theorem version_stamp : (c.stamp o).version = c.revision + 1 := rfl
@[simp] theorem spec_stamp : (c.stamp o).spec = o.spec := rfl
@[simp] theorem status_stamp : (c.stamp o).status = o.status := rfl
@[simp] theorem isDeleted_stamp : (c.stamp o).isDeleted = o.isDeleted := rfl
@[simp] theorem labels_stamp : (c.stamp o).metadata.labels = o.metadata.labels := rfl
@[simp] theorem annotations_stamp : (c.stamp o).metadata.annotations = o.metadata.annotations := rfl
@[simp] theorem finalizers_stamp : (c.stamp o).metadata.finalizers = o.metadata.finalizers := rfl

theorem uid_stamp_of_find? (h : c.find? o.key = some v) : (c.stamp o).uid = v.uid := by
  unfold stamp
  rw [h]
  rfl

theorem uid_stamp_of_none (h : c.find? o.key = none) : (c.stamp o).uid = c.revision + 1 := by
  unfold stamp
  rw [h]
  rfl

theorem uid_stamp_le (c : Collection Spec Status) (o : Resource Spec Status) :
    (c.stamp o).uid ≤ c.revision + 1 := by
  cases h : c.find? o.key with
  | none => exact Nat.le_of_eq (uid_stamp_of_none h)
  | some s =>
    have hl := c.logged_le s (logged_of_find? h)
    rw [uid_stamp_of_find? h]
    omega

/-- What is logged of the key of an object is of its lineage or older. -/
theorem stamp_lineage (hv : v ∈ c.history) (hk : v.key = o.key) :
    v.uid = (c.stamp o).uid ∨ v.version < (c.stamp o).uid := by
  cases h : c.find? o.key with
  | none =>
    have := (c.logged_le v hv).2
    rw [uid_stamp_of_none h]
    omega
  | some s =>
    rw [uid_stamp_of_find? h]
    exact lineage_of_find? h hv hk

theorem keys_filter_nodup (c : Collection Spec Status) (k : Key) :
    ((c.objects.filter fun x => x.key ≠ k).map Resource.key).Nodup :=
  c.keys_nodup.sublist (List.filter_sublist.map _)

theorem logged_cons_le (c : Collection Spec Status) (o : Resource Spec Status) :
    ∀ x ∈ c.stamp o :: c.history, x.uid ≤ x.version ∧ x.version ≤ c.revision + 1 := by
  intro x hx
  rcases List.mem_cons.mp hx with rfl | hx
  · exact ⟨uid_stamp_le c o, Nat.le_refl _⟩
  · have := c.logged_le x hx
    omega

theorem logged_cons_unique (c : Collection Spec Status) (o : Resource Spec Status) :
    ∀ x ∈ c.stamp o :: c.history, ∀ y ∈ c.stamp o :: c.history, x.version = y.version → x = y := by
  intro x hx y hy h
  rcases List.mem_cons.mp hx with rfl | hx <;> rcases List.mem_cons.mp hy with rfl | hy
  · rfl
  · have := (c.logged_le y hy).2
    rw [version_stamp] at h
    omega
  · have := (c.logged_le x hx).2
    rw [version_stamp] at h
    omega
  · exact c.logged_unique x hx y hy h

/-- Store a new version of an object, or a new object. -/
def record (c : Collection Spec Status) (o : Resource Spec Status) : Collection Spec Status where
  revision := c.revision + 1
  objects := c.stamp o :: c.objects.filter fun x => x.key ≠ o.key
  history := c.stamp o :: c.history
  keys_nodup := by
    rw [List.map_cons, List.nodup_cons]
    refine ⟨fun h => ?_, keys_filter_nodup c o.key⟩
    obtain ⟨x, hx, hk⟩ := List.mem_map.mp h
    have := (List.mem_filter.mp hx).2
    simp [hk] at this
  stored_logged := by
    intro x hx
    rcases List.mem_cons.mp hx with rfl | hx
    · exact List.mem_cons_self
    · exact List.mem_cons_of_mem _ (c.stored_logged x (List.mem_filter.mp hx).1)
  logged_le := logged_cons_le c o
  logged_unique := logged_cons_unique c o
  stored_newest := by
    intro x hx v hv hk
    rcases List.mem_cons.mp hx with rfl | hx
    · rcases List.mem_cons.mp hv with rfl | hv
      · exact Nat.le_refl _
      · exact Nat.le_succ_of_le (c.logged_le v hv).2
    · obtain ⟨hx, hne⟩ := List.mem_filter.mp hx
      rcases List.mem_cons.mp hv with rfl | hv
      · simp [← hk] at hne
      · exact c.stored_newest x hx v hv hk
  stored_lineage := by
    intro x hx v hv hk
    rcases List.mem_cons.mp hx with rfl | hx
    · rcases List.mem_cons.mp hv with rfl | hv
      · exact .inl rfl
      · exact stamp_lineage hv hk
    · obtain ⟨hx, hne⟩ := List.mem_filter.mp hx
      rcases List.mem_cons.mp hv with rfl | hv
      · simp [← hk] at hne
      · exact c.stored_lineage x hx v hv hk

/-- Remove an object. Its last version is logged, as the deletion event carries it. -/
def retire (c : Collection Spec Status) (o : Resource Spec Status) : Collection Spec Status where
  revision := c.revision + 1
  objects := c.objects.filter fun x => x.key ≠ o.key
  history := c.stamp o :: c.history
  keys_nodup := keys_filter_nodup c o.key
  stored_logged := fun x hx =>
    List.mem_cons_of_mem _ (c.stored_logged x (List.mem_filter.mp hx).1)
  logged_le := logged_cons_le c o
  logged_unique := logged_cons_unique c o
  stored_newest := by
    intro x hx v hv hk
    obtain ⟨hx, hne⟩ := List.mem_filter.mp hx
    rcases List.mem_cons.mp hv with rfl | hv
    · simp [← hk] at hne
    · exact c.stored_newest x hx v hv hk
  stored_lineage := by
    intro x hx v hv hk
    obtain ⟨hx, hne⟩ := List.mem_filter.mp hx
    rcases List.mem_cons.mp hv with rfl | hv
    · simp [← hk] at hne
    · exact c.stored_lineage x hx v hv hk

@[simp] theorem history_record : (c.record o).history = c.stamp o :: c.history := rfl
@[simp] theorem history_retire : (c.retire o).history = c.stamp o :: c.history := rfl
@[simp] theorem revision_record : (c.record o).revision = c.revision + 1 := rfl
@[simp] theorem revision_retire : (c.retire o).revision = c.revision + 1 := rfl

@[simp] theorem find?_record_self (h : o.key = k) :
    (c.record o).find? k = some (c.stamp o) := by
  unfold find? record
  rw [List.find?_cons_of_pos (by simp [h])]

theorem find?_filter_of_ne (hk : k ≠ o.key) :
    (c.objects.filter fun x => x.key ≠ o.key).find? (fun x => x.key = k) = c.find? k := by
  unfold find?
  induction c.objects with
  | nil => rfl
  | cons x l ih =>
    by_cases hx : x.key = o.key
    · have hxk : x.key ≠ k := fun e => hk (e.symm.trans hx)
      rw [List.filter_cons_of_neg (by simpa using hx), ih, List.find?_cons_of_neg (by simpa using hxk)]
    · rw [List.filter_cons_of_pos (by simpa using hx)]
      by_cases hxk : x.key = k
      · rw [List.find?_cons_of_pos (by simpa using hxk), List.find?_cons_of_pos (by simpa using hxk)]
      · rw [List.find?_cons_of_neg (by simpa using hxk), List.find?_cons_of_neg (by simpa using hxk), ih]

@[simp] theorem find?_record_of_ne (hk : k ≠ o.key) : (c.record o).find? k = c.find? k := by
  have hne : o.key ≠ k := fun e => hk e.symm
  unfold find? record
  rw [List.find?_cons_of_neg (by simp [hne])]
  exact find?_filter_of_ne hk

@[simp] theorem find?_retire_self (h : o.key = k) : (c.retire o).find? k = none := by
  subst h
  refine List.find?_eq_none.mpr fun x hx => ?_
  have := (List.mem_filter.mp hx).2
  simpa using this

@[simp] theorem find?_retire_of_ne (hk : k ≠ o.key) : (c.retire o).find? k = c.find? k :=
  find?_filter_of_ne hk

/-! ## Requests of clients -/

end Collection

/-- The errors of API calls that clients tell apart. -/
inductive KubeError : Type
  | conflict
  | notFound
  | invalid
  | unreachable
deriving DecidableEq, Repr

namespace Collection

variable {c c' : Collection Spec Status} {o v old new : Resource Spec Status} {k : Key}

/-- Store the changed object, unless nothing changed or its last finalizer is gone. -/
def settle [DecidableEq Spec] [DecidableEq Status] (c : Collection Spec Status)
    (stored changed : Resource Spec Status) : Resource Spec Status × Collection Spec Status :=
  if changed = stored then (stored, c)
  else if changed.isDeleted && changed.metadata.finalizers.isEmpty then
    (c.stamp changed, c.retire changed)
  else (c.stamp changed, c.record changed)

/-- `PUT` of a whole object. The status and the deletion timestamp stay as they are
stored. No finalizer can be added once the object is marked deleted. -/
def replace [DecidableEq Spec] [DecidableEq Status] (c : Collection Spec Status)
    (o : Resource Spec Status) :
    Except KubeError (Resource Spec Status × Collection Spec Status) :=
  match c.find? o.key with
  | none => .error .notFound
  | some stored =>
    if o.version ≠ stored.version ∨ o.uid ≠ stored.uid then .error .conflict
    else if stored.isDeleted && !(o.metadata.finalizers.all (stored.metadata.finalizers.contains ·)) then
      .error .invalid
    else .ok (c.settle stored
      { metadata := { o.metadata with deletionTimestamp := stored.metadata.deletionTimestamp }
        spec := o.spec
        status := stored.status })

/-- `PUT` of the status subresource. Everything but the status stays as it is stored. -/
def replaceStatus [DecidableEq Spec] [DecidableEq Status] (c : Collection Spec Status) (k : Key)
    (version : Nat) (status : Status) :
    Except KubeError (Resource Spec Status × Collection Spec Status) :=
  match c.find? k with
  | none => .error .notFound
  | some stored =>
    if version ≠ stored.version then .error .conflict
    else .ok (c.settle stored { stored with status := some status })

/-- `GET` of one object. -/
def get (c : Collection Spec Status) (k : Key) : Except KubeError (Resource Spec Status) :=
  match c.find? k with
  | none => .error .notFound
  | some o => .ok o

/-- `GET` of all objects, or of those with one label set to one value. -/
def list (c : Collection Spec Status) : Option (String × String) → List (Resource Spec Status)
  | none => c.objects
  | some (label, value) => c.objects.filter fun o => o.metadata.labels.get label = some value

/-! ## Acts of users -/

/-- A user creates an object. A client cannot set a status, a finalizer or a deletion
timestamp in this way. -/
def create (c : Collection Spec Status) (k : Key) (labels annotations : StringMap) (spec : Spec) :
    Option (Collection Spec Status) :=
  match c.find? k with
  | some _ => none
  | none => some (c.record
      { metadata := ⟨k.ns, k.name, 0, 0, labels, annotations, [], none⟩, spec := spec, status := none })

/-- A user edits labels, annotations and spec of an object, but not its finalizers. -/
def edit [DecidableEq Spec] [DecidableEq Status] (c : Collection Spec Status) (k : Key)
    (labels annotations : StringMap) (spec : Spec) : Option (Collection Spec Status) :=
  match c.find? k with
  | none => none
  | some stored => some (c.settle stored
      { metadata := { stored.metadata with labels := labels, annotations := annotations }
        spec := spec
        status := stored.status }).2

/-- A user deletes an object: it disappears at once when it has no finalizer, and is
marked otherwise. -/
def delete [DecidableEq Spec] [DecidableEq Status] (c : Collection Spec Status) (k : Key)
    (time : Nat) : Option (Collection Spec Status) :=
  match c.find? k with
  | none => none
  | some stored =>
    if stored.isDeleted then some c
    else some (c.settle stored
      { stored with metadata := { stored.metadata with deletionTimestamp := some time } }).2

/-! ## What a change can be -/

/-- `Changes c c' old new`: `c'` arises from `c` by replacing the stored object `old` by
its next version `new`, which is removed at once when it is deleted and has no finalizer. -/
inductive Changes (c : Collection Spec Status) : Collection Spec Status → Resource Spec Status →
    Resource Spec Status → Prop
  | record {old o : Resource Spec Status} : c.find? o.key = some old →
      Changes c (c.record o) old (c.stamp o)
  | retire {old o : Resource Spec Status} : c.find? o.key = some old → o.isDeleted = true →
      o.metadata.finalizers = [] → Changes c (c.retire o) old (c.stamp o)

namespace Changes

variable (h : Changes c c' old new)
include h

theorem find?_old : c.find? new.key = some old := by
  cases h with
  | record hs => exact hs
  | retire hs _ _ => exact hs

theorem key_eq : new.key = old.key := (key_of_find? h.find?_old).symm

theorem uid_eq : new.uid = old.uid := by
  cases h with
  | record hs => exact uid_stamp_of_find? hs
  | retire hs _ _ => exact uid_stamp_of_find? hs

theorem version_eq : new.version = c.revision + 1 := by
  cases h <;> rfl

theorem version_lt (hv : v ∈ c.history) : v.version < new.version := by
  have := (c.logged_le v hv).2
  rw [h.version_eq]
  omega

theorem history_eq : c'.history = new :: c.history := by
  cases h <;> rfl

theorem revision_eq : c'.revision = c.revision + 1 := by
  cases h <;> rfl

/-- A change changes something. -/
theorem ne : c' ≠ c := by
  rintro rfl
  have hrevision := h.revision_eq
  omega

theorem old_logged : old ∈ c.history := logged_of_find? h.find?_old

/-- The changed key holds the new version, or nothing when its last finalizer has gone. -/
theorem find?_new : c'.find? old.key = some new ∨
    (c'.find? old.key = none ∧ new.isDeleted = true ∧ new.metadata.finalizers = []) := by
  rw [← h.key_eq]
  cases h with
  | record hs => exact .inl (find?_record_self rfl)
  | retire hs hd hf => exact .inr ⟨find?_retire_self rfl, hd, hf⟩

theorem find?_of_ne (hk : k ≠ old.key) : c'.find? k = c.find? k := by
  rw [← h.key_eq] at hk
  cases h with
  | record hs => exact find?_record_of_ne hk
  | retire hs _ _ => exact find?_retire_of_ne hk

/-- An object that is stored afterwards is the new version or was there before. -/
theorem objects_cases (ho : o ∈ c'.objects) : o = new ∨ (o ∈ c.objects ∧ o.key ≠ old.key) := by
  by_cases hk : o.key = old.key
  · have hs : c'.find? old.key = some o := hk ▸ find?_of_mem ho
    rcases h.find?_new with hn | ⟨hn, -, -⟩ <;> rw [hn] at hs
    · exact .inl (Option.some.inj hs).symm
    · cases hs
  · rw [mem_iff_find?, h.find?_of_ne hk, ← mem_iff_find?] at ho
    exact .inr ⟨ho, hk⟩

end Changes

/-- The two states determine the change. -/
theorem Changes.unique {old' new' : Resource Spec Status} (h : Changes c c' old new)
    (h' : Changes c c' old' new') : old' = old ∧ new' = new := by
  have hn : new' = new := by
    have he : new :: c.history = new' :: c.history := h.history_eq.symm.trans h'.history_eq
    exact (List.cons.inj he).1.symm
  subst hn
  exact ⟨Option.some.inj (h'.find?_old.symm.trans h.find?_old), rfl⟩

theorem mem_objects_record (ho : v ∈ (c.record o).objects) : v = c.stamp o ∨ v ∈ c.objects := by
  rcases List.mem_cons.mp ho with rfl | ho
  · exact .inl rfl
  · exact .inr (List.mem_filter.mp ho).1

theorem settle_cases [DecidableEq Spec] [DecidableEq Status] {stored changed : Resource Spec Status}
    (hs : c.find? changed.key = some stored) :
    (changed = stored ∧ c.settle stored changed = (stored, c)) ∨
    (changed ≠ stored ∧ (c.settle stored changed).1 = c.stamp changed ∧
      Changes c (c.settle stored changed).2 stored (c.stamp changed)) := by
  unfold settle
  split
  · next h => exact .inl ⟨h, rfl⟩
  · next h =>
    split
    · next hd =>
      simp only [Bool.and_eq_true, List.isEmpty_iff] at hd
      exact .inr ⟨h, rfl, .retire hs hd.1 hd.2⟩
    · exact .inr ⟨h, rfl, .record hs⟩

/-- An accepted replace carries the stored resource version, and stores the submitted
object but for its status and deletion timestamp. -/
theorem replace_ok [DecidableEq Spec] [DecidableEq Status] {r : Resource Spec Status}
    (h : c.replace o = .ok (r, c')) :
    ∃ stored, c.find? o.key = some stored ∧ o.version = stored.version ∧
      (stored.isDeleted = true → ∀ f ∈ o.metadata.finalizers, f ∈ stored.metadata.finalizers) ∧
      (r, c') = c.settle stored
        { metadata := { o.metadata with deletionTimestamp := stored.metadata.deletionTimestamp }
          spec := o.spec
          status := stored.status } := by
  unfold replace at h
  split at h
  · cases h
  · next stored hs =>
    split at h
    · cases h
    · next hv =>
      split at h
      · cases h
      · next hf =>
        refine ⟨stored, hs, ?_, fun hd f hfm => ?_, by injection h with h; exact h.symm⟩
        · by_contra hne
          exact hv (.inl hne)
        · simp only [hd, Bool.true_and, Bool.not_eq_true', Bool.not_eq_false] at hf
          have := List.all_eq_true.mp hf f hfm
          simpa using this

theorem replaceStatus_ok [DecidableEq Spec] [DecidableEq Status] {r : Resource Spec Status}
    {n : Nat} {status : Status} (h : c.replaceStatus k n status = .ok (r, c')) :
    ∃ stored, c.find? k = some stored ∧ n = stored.version ∧
      (r, c') = c.settle stored { stored with status := some status } := by
  unfold replaceStatus at h
  split at h
  · cases h
  · next stored hs =>
    split at h
    · cases h
    · next hv => exact ⟨stored, hs, by simpa using hv, by injection h with h; exact h.symm⟩

/-! ### Writes of the stored object -/

/-- A replace that is sent from the stored object is accepted. -/
theorem replace_current [DecidableEq Spec] [DecidableEq Status] {n : Resource Spec Status}
    (hs : c.find? o.key = some o) (hk : n.key = o.key) (hv : n.version = o.version)
    (hu : n.uid = o.uid) (hst : n.status = o.status)
    (hd : n.metadata.deletionTimestamp = o.metadata.deletionTimestamp)
    (halive : o.isDeleted = false) : c.replace n = .ok (c.settle o n) := by
  have hn : ({ metadata := { n.metadata with deletionTimestamp := o.metadata.deletionTimestamp }
               spec := n.spec
               status := o.status } : Resource Spec Status) = n := by
    rw [← hd, ← hst]
  unfold replace
  rw [hk, hs]
  simp [hv, hu, halive, hn]

/-- A replace that is sent from the stored object and only takes finalizers away is accepted,
also when the object is marked deleted. -/
theorem replace_shrunk [DecidableEq Spec] [DecidableEq Status] {n : Resource Spec Status}
    (hs : c.find? o.key = some o) (hk : n.key = o.key) (hv : n.version = o.version)
    (hu : n.uid = o.uid) (hst : n.status = o.status)
    (hd : n.metadata.deletionTimestamp = o.metadata.deletionTimestamp)
    (hf : ∀ f ∈ n.metadata.finalizers, f ∈ o.metadata.finalizers) :
    c.replace n = .ok (c.settle o n) := by
  have hn : ({ metadata := { n.metadata with deletionTimestamp := o.metadata.deletionTimestamp }
               spec := n.spec
               status := o.status } : Resource Spec Status) = n := by
    rw [← hd, ← hst]
  unfold replace
  rw [hk, hs]
  simp [hv, hu, hn]
  exact fun _ => hf

theorem replace_stale [DecidableEq Spec] [DecidableEq Status] (hs : c.find? o.key = some v)
    (hv : o.version ≠ v.version) : c.replace o = .error .conflict := by
  unfold replace
  rw [hs]
  simp [hv]

theorem replaceStatus_current [DecidableEq Spec] [DecidableEq Status] {status : Status}
    (hs : c.find? o.key = some o) :
    c.replaceStatus o.key o.version status = .ok (c.settle o { o with status := some status }) := by
  unfold replaceStatus
  rw [hs]
  simp

/-- After a write the object is gone, or stored with what was written. -/
theorem find?_settle_cases [DecidableEq Spec] [DecidableEq Status] {n : Resource Spec Status}
    (hs : c.find? o.key = some o) (hk : n.key = o.key) :
    (c.settle o n).2.find? o.key = none ∨
      ∃ v, (c.settle o n).2.find? o.key = some v ∧ v.spec = n.spec ∧ v.status = n.status := by
  unfold settle
  split
  · next he => exact .inr ⟨o, hs, he ▸ rfl, he ▸ rfl⟩
  · split
    · exact .inl (find?_retire_self hk)
    · exact .inr ⟨c.stamp n, find?_record_self hk, rfl, rfl⟩

/-- What is stored after a write has the finalizers that were written. -/
theorem finalizers_of_settle [DecidableEq Spec] [DecidableEq Status] {n : Resource Spec Status}
    (hs : c.find? o.key = some o) (hk : n.key = o.key)
    (hv : (c.settle o n).2.find? o.key = some v) :
    v.metadata.finalizers = n.metadata.finalizers := by
  unfold settle at hv
  split at hv
  · next he =>
    rw [hs] at hv
    cases hv
    rw [he]
  · split at hv
    · rw [← hk, find?_retire_self rfl] at hv
      cases hv
    · rw [← hk, find?_record_self rfl] at hv
      cases hv
      rfl

/-- A write of a whole object leaves the stored status. -/
theorem status_of_replace [DecidableEq Spec] [DecidableEq Status] {r : Resource Spec Status}
    (h : c.replace o = .ok (r, c')) (hv : c'.find? o.key = some v) :
    ∃ stored, c.find? o.key = some stored ∧ v.status = stored.status := by
  obtain ⟨stored, hs, -, -, hset⟩ := replace_ok h
  have hk : stored.key = o.key := key_of_find? hs
  have hs' : c.find? stored.key = some stored := hk ▸ hs
  refine ⟨stored, hs, ?_⟩
  rcases find?_settle_cases hs' (n := ⟨{ o.metadata with
    deletionTimestamp := stored.metadata.deletionTimestamp }, o.spec, stored.status⟩) hk.symm with
    hf | ⟨v', hf, -, hst⟩ <;> rw [← hset, hk, hv] at hf
  · cases hf
  · cases hf
    exact hst

/-- A status write is from the stored version, and leaves its status. -/
theorem status_of_replaceStatus [DecidableEq Spec] [DecidableEq Status] {r : Resource Spec Status}
    {n : Nat} {status : Status} (h : c.replaceStatus k n status = .ok (r, c'))
    (hv : c'.find? k = some v) :
    v.status = some status ∧ ∃ stored, c.find? k = some stored ∧ n = stored.version := by
  obtain ⟨stored, hs, hn, hset⟩ := replaceStatus_ok h
  have hk : stored.key = k := key_of_find? hs
  have hs' : c.find? stored.key = some stored := hk ▸ hs
  refine ⟨?_, stored, hs, hn⟩
  rcases find?_settle_cases hs' (n := { stored with status := some status }) rfl with
    hf | ⟨v', hf, -, hst⟩ <;> rw [← hset, hk, hv] at hf
  · cases hf
  · cases hf
    exact hst

/-- What is stored after a write of an object that is not deleted: the object as it was,
or its next version. -/
theorem find?_settle [DecidableEq Spec] [DecidableEq Status] {n : Resource Spec Status}
    (hs : c.find? o.key = some o) (hk : n.key = o.key) (halive : n.isDeleted = false) :
    (n = o ∧ (c.settle o n).2 = c) ∨
      (n ≠ o ∧ (c.settle o n).2 = c.record n ∧
        (c.settle o n).2.find? o.key = some (c.stamp n) ∧ o.version < (c.stamp n).version) := by
  unfold settle
  split
  · next he => exact .inl ⟨he, rfl⟩
  · next he =>
    have hlt : o.version < (c.stamp n).version := by
      have hle := (c.logged_le o (logged_of_find? hs)).2
      rw [version_stamp]
      omega
    rw [halive]
    exact .inr ⟨he, rfl, find?_record_self hk, hlt⟩

/-! ## Copies that clients hold -/

/-- The copy is a logged version, or the log has a newer version of its key, so that no
write from it can be accepted any more. -/
def Tracks (c : Collection Spec Status) (o : Resource Spec Status) : Prop :=
  o ∈ c.history ∨ ∃ v ∈ c.history, v.key = o.key ∧ o.version < v.version

/-- Everything logged stays logged. -/
def Grows (c c' : Collection Spec Status) : Prop := ∀ v ∈ c.history, v ∈ c'.history

theorem Grows.refl (c : Collection Spec Status) : c.Grows c := fun _ h => h

theorem Grows.trans {c'' : Collection Spec Status} (h : c.Grows c') (h' : c'.Grows c'') :
    c.Grows c'' := fun v hv => h' v (h v hv)

theorem Changes.grows (h : Changes c c' old new) : c.Grows c' := fun v hv => by
  rw [h.history_eq]
  exact List.mem_cons_of_mem _ hv

theorem grows_record (c : Collection Spec Status) (o : Resource Spec Status) : c.Grows (c.record o) :=
  fun _ hv => List.mem_cons_of_mem _ hv

theorem grows_settle [DecidableEq Spec] [DecidableEq Status] (c : Collection Spec Status)
    (stored changed : Resource Spec Status) : c.Grows (c.settle stored changed).2 := by
  unfold settle
  split
  · exact .refl c
  · split
    · exact fun _ hv => List.mem_cons_of_mem _ hv
    · exact grows_record c changed

theorem grows_replace [DecidableEq Spec] [DecidableEq Status] {r : Resource Spec Status}
    (h : c.replace o = .ok (r, c')) : c.Grows c' := by
  obtain ⟨stored, _, _, _, he⟩ := replace_ok h
  rw [(Prod.mk.inj he).2]
  exact grows_settle c stored _

theorem grows_replaceStatus [DecidableEq Spec] [DecidableEq Status] {r : Resource Spec Status}
    {n : Nat} {status : Status} (h : c.replaceStatus k n status = .ok (r, c')) : c.Grows c' := by
  obtain ⟨stored, _, _, he⟩ := replaceStatus_ok h
  rw [(Prod.mk.inj he).2]
  exact grows_settle c stored _

theorem grows_create {labels annotations : StringMap} {spec : Spec}
    (h : c.create k labels annotations spec = some c') : c.Grows c' := by
  unfold create at h
  split at h
  · cases h
  · cases h
    exact grows_record c _

theorem grows_edit [DecidableEq Spec] [DecidableEq Status] {labels annotations : StringMap}
    {spec : Spec} (h : c.edit k labels annotations spec = some c') : c.Grows c' := by
  unfold edit at h
  split at h
  · cases h
  · cases h
    exact grows_settle c _ _

theorem grows_delete [DecidableEq Spec] [DecidableEq Status] {time : Nat}
    (h : c.delete k time = some c') : c.Grows c' := by
  unfold delete at h
  split at h
  · cases h
  · split at h
    · cases h
      exact .refl c
    · cases h
      exact grows_settle c _ _

theorem Tracks.grow (h : c.Tracks o) (hg : c.Grows c') : c'.Tracks o := by
  rcases h with h | ⟨v, hv, hk, hlt⟩
  · exact .inl (hg o h)
  · exact .inr ⟨v, hg v hv, hk, hlt⟩

/-- A copy that is still the newest of its key is the stored object. -/
theorem Tracks.eq_stored (h : c.Tracks o) (hs : c.find? o.key = some v)
    (hv : o.version = v.version) : o = v := by
  rcases h with h | ⟨x, hx, hk, hlt⟩
  · exact eq_of_version h hs hv
  · exact absurd hv.symm (stale_of_newer hs hx hk hlt)

theorem Changes.outdates (h : Changes c c' old new) (hk : o.key = old.key)
    (hv : o.version = old.version) : ∃ v ∈ c'.history, v.key = o.key ∧ o.version < v.version := by
  refine ⟨new, ?_, h.key_eq.trans hk.symm, ?_⟩
  · rw [h.history_eq]
    exact List.mem_cons_self
  · rw [hv]
    exact h.version_lt h.old_logged

/-- A client replaces the object it holds a copy `o` of by `n`, which differs from the
copy in finalizers, labels, annotations or spec only. If this is accepted then either
nothing changes at all, or the replaced object is the copy and becomes `n`. -/
theorem replace_tracks [DecidableEq Spec] [DecidableEq Status] {n r : Resource Spec Status}
    (ht : c.Tracks o) (hk : n.key = o.key) (hv : n.version = o.version)
    (hst : n.status = o.status) (hd : n.metadata.deletionTimestamp = o.metadata.deletionTimestamp)
    (h : c.replace n = .ok (r, c')) :
    (c' = c ∧ n = o ∧ c.find? o.key = some o) ∨
    (n ≠ o ∧ Changes c c' o (c.stamp n) ∧
      (o.isDeleted = true → ∀ f ∈ n.metadata.finalizers, f ∈ o.metadata.finalizers)) := by
  obtain ⟨stored, hs, hver, hfin, hc⟩ := replace_ok h
  rw [hk] at hs
  obtain rfl := ht.eq_stored hs (hv.symm.trans hver)
  have hn : ({ metadata := { n.metadata with deletionTimestamp := o.metadata.deletionTimestamp }
               spec := n.spec, status := o.status } : Resource Spec Status) = n := by
    rw [← hst, ← hd]
  rw [hn] at hc
  rcases settle_cases (hk ▸ hs : c.find? n.key = some o) with ⟨he, hc'⟩ | ⟨hne, _, hch⟩
  · rw [hc'] at hc
    exact .inl ⟨(Prod.mk.inj hc).2, he, hs⟩
  · rw [← hc] at hch
    exact .inr ⟨hne, hch, hfin⟩

/-- The same for a status replace under the key and resource version of the copy. -/
theorem replaceStatus_tracks [DecidableEq Spec] [DecidableEq Status] {r : Resource Spec Status}
    {status : Status} (ht : c.Tracks o)
    (h : c.replaceStatus o.key o.version status = .ok (r, c')) :
    (c' = c ∧ o.status = some status ∧ c.find? o.key = some o) ∨
    Changes c c' o (c.stamp { o with status := some status }) := by
  obtain ⟨stored, hs, hver, hc⟩ := replaceStatus_ok h
  obtain rfl := ht.eq_stored hs hver
  have hs' : c.find? ({ o with status := some status } : Resource Spec Status).key = some o := hs
  rcases settle_cases hs' with ⟨he, hc'⟩ | ⟨_, _, hch⟩
  · rw [hc'] at hc
    refine .inl ⟨(Prod.mk.inj hc).2, ?_, hs⟩
    rw [← he]
  · rw [← hc] at hch
    exact .inr hch

/-! ## Finalizers -/

/-- The object of the key is stored, with the finalizer. -/
def HasFinalizer (c : Collection Spec Status) (k : Key) (f : String) : Prop :=
  ∃ o, c.find? k = some o ∧ f ∈ o.metadata.finalizers

/-- No key loses the finalizer, a version with it is logged only under a key that has it, and all
that is logged is of the keys `K` if it was before. -/
structure KeepsFinalizer (K : Key → Prop) (f : String) (c c' : Collection Spec Status) : Prop where
  grows : c.Grows c'
  kept : ∀ k, c.HasFinalizer k f → c'.HasFinalizer k f
  logged : ∀ v ∈ c'.history, v ∈ c.history ∨ (f ∈ v.metadata.finalizers → c'.HasFinalizer v.key f)
  keyed : (∀ v ∈ c.history, K v.key) → ∀ v ∈ c'.history, K v.key

section Finalizers

variable {K : Key → Prop} {f : String}

theorem KeepsFinalizer.refl (c : Collection Spec Status) : KeepsFinalizer K f c c :=
  ⟨.refl c, fun _ h => h, fun _ h => .inl h, fun h => h⟩

theorem HasFinalizer.of_find? (h : c.HasFinalizer k f) (hs : c.find? k = some o) :
    f ∈ o.metadata.finalizers := by
  obtain ⟨v, hv, hf⟩ := h
  rw [hs] at hv
  cases hv
  exact hf

/-- The stored object changes, and keeps the finalizer if it has it. -/
theorem Changes.keepsFinalizer (h : Changes c c' old new)
    (hf : f ∈ old.metadata.finalizers → f ∈ new.metadata.finalizers) : KeepsFinalizer K f c c' := by
  have hnew : f ∈ new.metadata.finalizers → c'.HasFinalizer old.key f := by
    intro hmem
    rcases h.find?_new with hs | ⟨-, -, hnil⟩
    · exact ⟨new, hs, hmem⟩
    · rw [hnil] at hmem
      cases hmem
  have hold : c.find? old.key = some old := h.key_eq ▸ h.find?_old
  refine ⟨h.grows, fun k hk => ?_, fun v hv => ?_, fun hK v hv => ?_⟩
  · by_cases hkey : k = old.key
    · subst hkey
      exact hnew (hf (hk.of_find? hold))
    · obtain ⟨o, ho, hmem⟩ := hk
      exact ⟨o, (h.find?_of_ne hkey).trans ho, hmem⟩
  · rw [h.history_eq] at hv
    rcases List.mem_cons.mp hv with rfl | hv
    · right
      rw [h.key_eq]
      exact hnew
    · exact .inl hv
  · rw [h.history_eq] at hv
    rcases List.mem_cons.mp hv with rfl | hv
    · rw [h.key_eq]
      exact hK old h.old_logged
    · exact hK v hv

theorem keepsFinalizer_settle [DecidableEq Spec] [DecidableEq Status] {stored changed : Resource Spec Status}
    (hs : c.find? changed.key = some stored)
    (hf : f ∈ stored.metadata.finalizers → f ∈ changed.metadata.finalizers) :
    KeepsFinalizer K f c (c.settle stored changed).2 := by
  rcases settle_cases hs with ⟨-, hc⟩ | ⟨-, -, hc⟩
  · rw [hc]
    exact .refl c
  · exact hc.keepsFinalizer hf

theorem keepsFinalizer_replaceStatus [DecidableEq Spec] [DecidableEq Status] {r : Resource Spec Status}
    {n : Nat} {status : Status} (h : c.replaceStatus k n status = .ok (r, c')) :
    KeepsFinalizer K f c c' := by
  obtain ⟨stored, hs, -, hset⟩ := replaceStatus_ok h
  obtain rfl := key_of_find? hs
  rw [(Prod.mk.inj hset).2]
  exact keepsFinalizer_settle hs fun hf => hf

/-- A client replaces the version it has a copy of, and takes the finalizer not away. -/
theorem keepsFinalizer_replace [DecidableEq Spec] [DecidableEq Status] {n r : Resource Spec Status}
    (ho : o ∈ c.history) (hk : n.key = o.key) (hv : n.version = o.version)
    (hf : f ∈ o.metadata.finalizers → f ∈ n.metadata.finalizers) (h : c.replace n = .ok (r, c')) :
    KeepsFinalizer K f c c' := by
  obtain ⟨stored, hs, hver, -, hset⟩ := replace_ok h
  rw [(Prod.mk.inj hset).2]
  refine keepsFinalizer_settle hs fun hmem => ?_
  obtain rfl := eq_of_version ho (hk ▸ hs) (hv.symm.trans hver)
  exact hf hmem

theorem keepsFinalizer_create {labels annotations : StringMap} {spec : Spec} (hk : K k)
    (h : c.create k labels annotations spec = some c') : KeepsFinalizer K f c c' := by
  unfold create at h
  split at h
  · cases h
  · next hn =>
    cases h
    refine ⟨grows_record c _, fun k' hk' => ?_, fun v hv => ?_, fun hK v hv => ?_⟩
    · obtain ⟨o, ho, hmem⟩ := hk'
      have hne : k' ≠ k := by
        rintro rfl
        rw [hn] at ho
        cases ho
      exact ⟨o, (find?_record_of_ne hne).trans ho, hmem⟩
    · rcases List.mem_cons.mp hv with rfl | hv
      · exact .inr nofun
      · exact .inl hv
    · rcases List.mem_cons.mp hv with rfl | hv
      · exact hk
      · exact hK v hv

theorem keepsFinalizer_edit [DecidableEq Spec] [DecidableEq Status] {labels annotations : StringMap}
    {spec : Spec} (h : c.edit k labels annotations spec = some c') : KeepsFinalizer K f c c' := by
  unfold edit at h
  split at h
  · cases h
  · next stored hs =>
    cases h
    obtain rfl := key_of_find? hs
    exact keepsFinalizer_settle hs fun hf => hf

theorem keepsFinalizer_delete [DecidableEq Spec] [DecidableEq Status] {time : Nat}
    (h : c.delete k time = some c') : KeepsFinalizer K f c c' := by
  unfold delete at h
  split at h
  · cases h
  · next stored hs =>
    split at h
    · cases h
      exact .refl c
    · cases h
      obtain rfl := key_of_find? hs
      exact keepsFinalizer_settle hs fun hf => hf

/-- After a replace by a version with the finalizer, the object is stored with it. -/
theorem hasFinalizer_replace [DecidableEq Spec] [DecidableEq Status] {n r : Resource Spec Status}
    (hf : f ∈ n.metadata.finalizers) (h : c.replace n = .ok (r, c')) : c'.HasFinalizer n.key f := by
  obtain ⟨stored, hs, -, -, hset⟩ := replace_ok h
  have hs' : c.find? ({ metadata := { n.metadata with
      deletionTimestamp := stored.metadata.deletionTimestamp }
                        spec := n.spec
                        status := stored.status } : Resource Spec Status).key = some stored := hs
  have hc' : c' = _ := congrArg Prod.snd hset
  rw [hc']
  rcases settle_cases hs' with ⟨heq, hc⟩ | ⟨-, -, hc⟩
  · rw [hc]
    refine ⟨stored, hs, ?_⟩
    rw [← heq]
    exact hf
  · have hk : stored.key = n.key := key_of_find? hs
    rw [← hk]
    rcases hc.find?_new with hnew | ⟨-, -, hnil⟩
    · exact ⟨_, hnew, hf⟩
    · have hnil' : n.metadata.finalizers = [] := hnil
      rw [hnil'] at hf
      cases hf

/-- A client replaces the version it has a copy of by one without the finalizer. The copy is what is
stored, and the other keys keep the finalizer. -/
theorem replace_dropsFinalizer [DecidableEq Spec] [DecidableEq Status] {n r : Resource Spec Status}
    (ho : o ∈ c.history) (hk : n.key = o.key) (hv : n.version = o.version)
    (hf : f ∉ n.metadata.finalizers) (h : c.replace n = .ok (r, c')) :
    c.find? o.key = some o ∧ c.Grows c' ∧
      (∀ k, k ≠ o.key → c.HasFinalizer k f → c'.HasFinalizer k f) ∧
      (∀ v ∈ c'.history, v ∈ c.history ∨ f ∉ v.metadata.finalizers) ∧
      ((∀ v ∈ c.history, K v.key) → ∀ v ∈ c'.history, K v.key) := by
  obtain ⟨stored, hs, hver, -, hset⟩ := replace_ok h
  obtain rfl := eq_of_version ho (hk ▸ hs) (hv.symm.trans hver)
  have hs' : c.find? ({ metadata := { n.metadata with deletionTimestamp := o.metadata.deletionTimestamp }
                        spec := n.spec
                        status := o.status } : Resource Spec Status).key = some o := hs
  have hc' : c' = _ := congrArg Prod.snd hset
  rw [hc']
  refine ⟨hk ▸ hs, ?_⟩
  rcases settle_cases hs' with ⟨-, hc⟩ | ⟨-, -, hc⟩
  · rw [hc]
    exact ⟨.refl c, fun _ _ h => h, fun _ h => .inl h, fun h => h⟩
  · refine ⟨hc.grows, fun k hne ⟨v, hs', hmem⟩ => ⟨v, (hc.find?_of_ne hne).trans hs', hmem⟩,
      fun v hv' => ?_, fun hK v hv' => ?_⟩
    · rw [hc.history_eq] at hv'
      rcases List.mem_cons.mp hv' with rfl | hv'
      · exact .inr hf
      · exact .inl hv'
    · rw [hc.history_eq] at hv'
      rcases List.mem_cons.mp hv' with rfl | hv'
      · rw [hc.key_eq]
        exact hK o ho
      · exact hK v hv'

end Finalizers

end Collection

end ApiServer
