import ClusterController.Lib.Interleaving
import ClusterController.VirtualMachine
import ClusterController.Networking
import ClusterController.Host

/-!
# The cluster

The state that all controllers share, how it answers their requests, which reconcile a
worker starts, and what happens besides: users create, edit and delete objects, live
migrations end, domains stop, and OVN assigns addresses. `cluster` is the machine whose
runs are all interleavings of the controllers, one request at a time.
-/

namespace ClusterController

open ApiServer (StringMap Key KubeError Resource Collection)
open Interaction (Program Machine)

/-! ## The state -/

/-- An active domain of a host. -/
structure Domain where
  host : String
  template : DomainTemplate
deriving DecidableEq

/-- A live migration in flight. Both hosts list the domain. -/
structure Migration where
  domain : String
  source : String
  destination : String
deriving DecidableEq

/-- The hypervisors of all hosts. -/
structure Hypervisors where
  domains : List Domain
  migrations : List Migration
deriving DecidableEq

namespace Hypervisors

/-- The host has the domain. -/
def has (l : Hypervisors) (host name : String) : Bool :=
  l.domains.any fun d => d.host = host && d.template.name = name

/-- The host is the source or the destination of a migration of the domain. -/
def busy (l : Hypervisors) (host name : String) : Bool :=
  l.migrations.any fun m => m.domain = name && (m.source = host || m.destination = host)

/-- The domain leaves the host. -/
def drop (l : Hypervisors) (host name : String) : Hypervisors :=
  { l with domains := l.domains.filter fun d => !(d.host = host && d.template.name = name) }

/-- The migration is over. -/
def finish (l : Hypervisors) (m : Migration) : Hypervisors :=
  { l with migrations := l.migrations.filter (· ≠ m) }

/-- The migration completes: the domain leaves the source. -/
def complete (l : Hypervisors) (m : Migration) : Hypervisors := (l.finish m).drop m.source m.domain

/-- The migration aborts: the domain leaves the destination. -/
def abort (l : Hypervisors) (m : Migration) : Hypervisors := (l.finish m).drop m.destination m.domain

/-- The domain of the host ends. A migration of it ends with it: if its source has
ended then the destination loses the domain too. -/
def stop (l : Hypervisors) (host name : String) : Hypervisors :=
  let l := (l.migrations.filter fun m => m.domain = name && (m.source = host || m.destination = host)).foldl
    abort l
  l.drop host name

/-- A new domain. -/
def start (l : Hypervisors) (host : String) (template : DomainTemplate) : Hypervisors :=
  { l with domains := ⟨host, template⟩ :: l.domains }

/-- A migration begins: the destination lists the domain. -/
def send (l : Hypervisors) (source destination name : String) : Hypervisors where
  domains := (l.domains.filter fun d => d.host = source && d.template.name = name).map
    (fun d => ⟨destination, d.template⟩) ++ l.domains
  migrations := ⟨name, source, destination⟩ :: l.migrations

/-- Some active domain uses the Ceph image. -/
def uses (l : Hypervisors) (pool image : String) : Bool :=
  l.domains.any fun d => d.template.storageDevices.any fun v => v.source = .ceph ⟨pool, image⟩

end Hypervisors

structure RbdImage where
  name : String
  size : UInt64
  features : UInt64
deriving DecidableEq

inductive CephHandle : Type
  | cluster
  | pool (name : String)
  | image (pool : String) (name : String)
deriving DecidableEq

/-- The images of all pools, and the open handles. -/
structure CephState where
  pools : String → List RbdImage
  handles : List (Nat × CephHandle)
  next : Nat

namespace CephState

/-- A new handle. -/
def opened (c : CephState) (h : CephHandle) : CephState :=
  { c with handles := (c.next, h) :: c.handles, next := c.next + 1 }

/-- A handle is gone. -/
def closed (c : CephState) (n : Nat) : CephState :=
  { c with handles := c.handles.filter fun e => e.1 ≠ n }

/-- The pool behind a handle. -/
def poolOf (c : CephState) (n : Nat) : Option String :=
  match c.handles.lookup n with
  | some (.pool name) => some name
  | _ => none

/-- The image behind a handle. -/
def imageOf (c : CephState) (n : Nat) : Option (String × String) :=
  match c.handles.lookup n with
  | some (.image pool name) => some (pool, name)
  | _ => none

def find? (c : CephState) (pool name : String) : Option RbdImage :=
  (c.pools pool).find? fun i => i.name = name

/-- Change the images of a pool. -/
def modify (c : CephState) (pool : String) (f : List RbdImage → List RbdImage) : CephState :=
  { c with pools := Function.update c.pools pool (f (c.pools pool)) }

end CephState

/-- The reconciles that run side by side: for each controller and each object at most one. -/
inductive Worker : Type
  | vm (k : Key)
  | vmOvn (k : Key)
  | node (name : String)
  | network (k : Key)
  | router (k : Key)
  | volume (k : Key)
  | image (k : Key)
  | host (node : String) (k : Key)
deriving DecidableEq

/-- * `kube`: the objects of every kind
* `seen`: the version that the last reconcile of a worker started from
* `scheduler`: the holder of `SCHEDULE_MUTEX` -/
structure World where
  kube : (κ : Kind) → Collection κ.Spec κ.Status
  seen : Worker → Nat
  scheduler : Option Worker
  hypervisors : Hypervisors
  ceph : CephState
  northbound : Ovsdb.Database

/-- The virtual machines. -/
abbrev World.vms (s : World) : Collection VirtualMachineSpec VirtualMachineStatus :=
  s.kube .virtualMachine

/-- Before the first object. -/
def World.initial : World where
  kube := fun _ => Collection.empty
  seen := fun _ => 0
  scheduler := none
  hypervisors := ⟨[], []⟩
  ceph := ⟨fun _ => [], [], 0⟩
  northbound := fun _ => []

/-- Change the objects of one kind. -/
def World.setKube (s : World) (κ : Kind) (c : Collection κ.Spec κ.Status) : World :=
  { s with kube := Function.update s.kube κ c }

/-! ## Answers -/

/-- A request is served, fails before it has an effect, or has its effect while its answer
is lost. -/
inductive Delivery : Type
  | served
  | failed
  | lost
deriving DecidableEq

/-- What the state leaves open: the delivery, a random number, a random text, the uuids of
new rows, and the code of a failure of Ceph. -/
structure Choice where
  delivery : Delivery := .served
  pick : Nat := 0
  text : String := ""
  fresh : List String := []
  code : Int := -1

/-- The outcome of a request that is served as given. -/
def Choice.deliver {α : Type} (x : Choice) (error : α) (s : World) (served : α × World) :
    α × World :=
  match x.delivery with
  | .served => served
  | .failed => (error, s)
  | .lost => (error, served.2)

/-- Store the result of a write. -/
def World.store (s : World) (κ : Kind)
    (result : Except KubeError (Object κ × Collection κ.Spec κ.Status)) :
    Except KubeError (Object κ) × World :=
  match result with
  | .ok (o, c) => (.ok o, s.setKube κ c)
  | .error e => (.error e, s)

def World.serveKube (s : World) (x : Choice) :
    (r : KubeRequest) → Except KubeError r.Answer × World
  | .get κ k => ((s.kube κ).get k, s)
  | .list κ selector => (.ok ((s.kube κ).list selector), s)
  | .replace κ o _ => s.store κ ((s.kube κ).replace o)
  | .replaceStatus κ k version status _ => s.store κ ((s.kube κ).replaceStatus k version status)
  | .apply _ => (.ok (), s)
  | .runningImage => (.ok x.text, s)

/-- libvirt refuses to create a domain that the host has, and to migrate a domain that is
not there, takes part in a migration already or exists at the destination. The end of a
migration can only be awaited once it is over. -/
def World.serveLibvirt (s : World) (host : String) :
    (r : LibvirtRequest) → Option (Option r.Answer × World)
  | .listAllDomains => some (some ((s.hypervisors.domains.filter (·.host = host)).map
      (·.template.name)), s)
  | .lookupByName d => some (if s.hypervisors.has host d then some () else none, s)
  | .isActive d => some (if s.hypervisors.has host d then some true else none, s)
  | .destroy d =>
    some (if s.hypervisors.has host d then
        (some (), { s with hypervisors := s.hypervisors.stop host d })
      else (none, s))
  | .createXml t =>
    some (if s.hypervisors.has host t.name then (none, s)
      else (some (), { s with hypervisors := s.hypervisors.start host t }))
  | .startMigration d destination =>
    some (if s.hypervisors.has host d && !s.hypervisors.busy host d && !s.hypervisors.has destination d
      then (some (), { s with hypervisors := s.hypervisors.send host destination d })
      else (none, s))
  | .awaitMigration d =>
    if s.hypervisors.migrations.any fun m => m.domain = d && m.source = host then none
    else some (some (), s)

/-- The buffer of a pool listing: every name with a NUL, and zeros up to the length. -/
def listBuffer (images : List RbdImage) (len : Nat) : Option (List UInt8) :=
  let bytes := images.flatMap fun i => i.name.toUTF8.toList ++ [0]
  if bytes.length ≤ len then some (bytes ++ List.replicate (len - bytes.length) 0) else none

def enoent : Int := -2
def eexist : Int := -17
def einval : Int := -22
def erange : Int := -34

def World.serveCeph (s : World) (x : Choice) : (r : CephRequest) → Except Int r.Answer × World
  | .radosCreate => (.ok s.ceph.next, { s with ceph := s.ceph.opened .cluster })
  | .radosConfReadFile _ => (.ok (), s)
  | .radosConfSet _ => (.ok (), s)
  | .radosConnect _ => (.ok (), s)
  | .radosMonCommand _ _ => (.ok x.text.toUTF8.toList, s)
  | .radosShutdown c => (.ok (), { s with ceph := s.ceph.closed c })
  | .radosIoctxCreate _ pool => (.ok s.ceph.next, { s with ceph := s.ceph.opened (.pool pool) })
  | .radosIoctxDestroy p => (.ok (), { s with ceph := s.ceph.closed p })
  | .rbdList p len =>
    match s.ceph.poolOf p with
    | none => (.error einval, s)
    | some pool =>
      match listBuffer (s.ceph.pools pool) len with
      | some buffer => (.ok buffer, s)
      | none => (.error erange, s)
  | .rbdCreate p name size =>
    match s.ceph.poolOf p with
    | none => (.error einval, s)
    | some pool =>
      if (s.ceph.find? pool name).isSome then (.error eexist, s)
      else (.ok (), { s with ceph := s.ceph.modify pool (⟨name, size, 0⟩ :: ·) })
  | .rbdOpen p name _ => openImage p name
  | .rbdOpenReadOnly p name => openImage p name
  | .rbdGetFeatures i =>
    match s.ceph.imageOf i with
    | none => (.error einval, s)
    | some (pool, name) =>
      match s.ceph.find? pool name with
      | none => (.error enoent, s)
      | some image => (.ok image.features, s)
  | .rbdClose i => (.ok (), { s with ceph := s.ceph.closed i })
  | .rbdClone pp parent _ p name features =>
    match s.ceph.poolOf pp, s.ceph.poolOf p with
    | some parentPool, some pool =>
      match s.ceph.find? parentPool parent with
      | none => (.error enoent, s)
      | some image =>
        if (s.ceph.find? pool name).isSome then (.error eexist, s)
        else (.ok (), { s with ceph := s.ceph.modify pool (⟨name, image.size, features⟩ :: ·) })
    | _, _ => (.error einval, s)
  | .rbdRemove p name =>
    match s.ceph.poolOf p with
    | none => (.error einval, s)
    | some pool =>
      if (s.ceph.find? pool name).isSome then
        (.ok (), { s with ceph := s.ceph.modify pool fun images => images.filter (·.name ≠ name) })
      else (.error enoent, s)
  | .rbdListLockers i =>
    match s.ceph.imageOf i with
    | none => (.error einval, s)
    | some (pool, name) =>
      -- An image that a domain uses is locked. Others may hold locks too.
      if s.hypervisors.uses pool name || x.pick ≠ 0 then (.ok ⟨erange, 1, 1, 1⟩, s)
      else (.ok ⟨0, 0, 0, 0⟩, s)
where
  openImage (p : Nat) (name : String) : Except Int Nat × World :=
    match s.ceph.poolOf p with
    | none => (.error einval, s)
    | some pool =>
      if (s.ceph.find? pool name).isSome then
        (.ok s.ceph.next, { s with ceph := s.ceph.opened (.image pool name) })
      else (.error enoent, s)

def World.serveTransact (s : World) (x : Choice) (operations : List Ovsdb.Operation) :
    Option (List Ovsdb.Json) × World :=
  match s.northbound.transact ClusterController.northbound x.fresh operations with
  | some (results, db) => (some results, { s with northbound := db })
  | none => (none, s)

/-- How the state answers a request of a worker. A lock that is held is waited for. -/
def World.answer (w : Worker) (s : World) : (r : Request) → Choice → Option (r.Answer × World)
  | .kube r, x => some (x.deliver (.error .unreachable) s (s.serveKube x r))
  | .lockSchedule, _ => if s.scheduler = none then some ((), { s with scheduler := some w }) else none
  | .unlockSchedule, _ =>
    if s.scheduler = some w then some ((), { s with scheduler := none }) else none
  | .scheduleSpan _, _ => some ((), s)
  | .newV4, x => some (x.text, s)
  | .choose bound, x => if x.pick < bound then some (x.pick, s) else none
  | .libvirt host r, x =>
    match s.serveLibvirt host r with
    | some served => some (x.deliver none s served)
    | none => none
  | .bridge _ _, x => some (x.deliver none s (some ⟨x.pick = 0, x.text⟩, s))
  | .ceph r, x => some (x.deliver (.error x.code) s (s.serveCeph x r))
  | .ovnConnect _ _, x => some (x.deliver none s (some (), s))
  | .transact operations, x => some (x.deliver none s (s.serveTransact x operations))

/-! ## What an answer changes -/

namespace World

variable {s t : World} {κ κ' : Kind} {c : Collection κ.Spec κ.Status} {w : Worker} {r : Request}
  {x : Choice} {a : r.Answer}

@[simp] theorem kube_setKube_self : (s.setKube κ c).kube κ = c := Function.update_self _ _ _

theorem kube_setKube_of_ne (h : κ' ≠ κ) : (s.setKube κ c).kube κ' = s.kube κ' :=
  Function.update_of_ne h _ _

@[simp] theorem seen_setKube : (s.setKube κ c).seen = s.seen := rfl
@[simp] theorem scheduler_setKube : (s.setKube κ c).scheduler = s.scheduler := rfl
@[simp] theorem hypervisors_setKube : (s.setKube κ c).hypervisors = s.hypervisors := rfl

end World

theorem Choice.deliver_cases {α : Type} (x : Choice) (error : α) (s : World) (served : α × World) :
    x.deliver error s served = served ∨ x.deliver error s served = (error, s) ∨
      x.deliver error s served = (error, served.2) := by
  unfold Choice.deliver
  cases x.delivery with
  | served => exact .inl rfl
  | failed => exact .inr (.inl rfl)
  | lost => exact .inr (.inr rfl)

/-- The state after a delivery is the state before it or that of the served request. -/
theorem Choice.deliver_state {α : Type} {x : Choice} {error : α} {s t : World} {a : α}
    {served : α × World} (h : x.deliver error s served = (a, t)) : t = s ∨ t = served.2 := by
  rcases x.deliver_cases error s served with hd | hd | hd <;> rw [hd] at h
  · rw [h]
    exact .inr rfl
  · exact .inl (Prod.mk.inj h).2.symm
  · exact .inr (Prod.mk.inj h).2.symm

namespace World

variable {s t : World} {w : Worker} {x : Choice}

/-- A request changes the part of the state that it is about, and nothing else. -/
structure Frame (r : Request) (s t : World) : Prop where
  seen : t.seen = s.seen
  kube : (∀ q, r ≠ .kube q) → t.kube = s.kube
  scheduler : r ≠ .lockSchedule → r ≠ .unlockSchedule → t.scheduler = s.scheduler
  hypervisors : (∀ host q, r ≠ .libvirt host q) → t.hypervisors = s.hypervisors
  ceph : (∀ q, r ≠ .ceph q) → t.ceph = s.ceph
  northbound : (∀ ops, r ≠ .transact ops) → t.northbound = s.northbound

theorem Frame.refl (r : Request) (s : World) : Frame r s s :=
  ⟨rfl, fun _ => rfl, fun _ _ => rfl, fun _ => rfl, fun _ => rfl, fun _ => rfl⟩

theorem Frame.ofKube (q : KubeRequest) (s : World) (kube : (κ : Kind) → Collection κ.Spec κ.Status) :
    Frame (.kube q) s { s with kube := kube } :=
  ⟨rfl, fun h => absurd rfl (h q), fun _ _ => rfl, fun _ => rfl, fun _ => rfl, fun _ => rfl⟩

theorem Frame.ofLibvirt (host : String) (q : LibvirtRequest) (s : World) (l : Hypervisors) :
    Frame (.libvirt host q) s { s with hypervisors := l } :=
  ⟨rfl, fun _ => rfl, fun _ _ => rfl, fun h => absurd rfl (h host q), fun _ => rfl, fun _ => rfl⟩

theorem Frame.ofCeph (q : CephRequest) (s : World) (c : CephState) :
    Frame (.ceph q) s { s with ceph := c } :=
  ⟨rfl, fun _ => rfl, fun _ _ => rfl, fun _ => rfl, fun h => absurd rfl (h q), fun _ => rfl⟩

theorem frame_store (q : KubeRequest) (s : World) (κ : Kind)
    (result : Except KubeError (Object κ × Collection κ.Spec κ.Status)) :
    Frame (.kube q) s (s.store κ result).2 := by
  cases result with
  | ok p => exact .ofKube q s _
  | error e => exact .refl _ s

theorem frame_serveKube (s : World) (x : Choice) (q : KubeRequest) :
    Frame (.kube q) s (s.serveKube x q).2 := by
  cases q with
  | get κ k => exact .refl _ s
  | list κ sel => exact .refl _ s
  | replace κ o writer => exact frame_store _ s κ _
  | replaceStatus κ k n status writer => exact frame_store _ s κ _
  | apply m => exact .refl _ s
  | runningImage => exact .refl _ s

theorem frame_serveLibvirt {host : String} {q : LibvirtRequest} {p : Option q.Answer × World}
    (h : s.serveLibvirt host q = some p) : Frame (.libvirt host q) s p.2 := by
  cases q with
  | listAllDomains =>
    cases h
    exact .refl _ s
  | lookupByName d =>
    cases h
    exact .refl _ s
  | isActive d =>
    cases h
    exact .refl _ s
  | destroy d =>
    cases h
    split
    · exact .ofLibvirt _ _ s _
    · exact .refl _ s
  | createXml template =>
    cases h
    split
    · exact .refl _ s
    · exact .ofLibvirt _ _ s _
  | startMigration d destination =>
    cases h
    split
    · exact .ofLibvirt _ _ s _
    · exact .refl _ s
  | awaitMigration d =>
    simp only [serveLibvirt] at h
    split at h
    · cases h
    · cases h
      exact .refl _ s

theorem frame_openImage (s : World) (p : Nat) (name : String) (q : CephRequest) :
    Frame (.ceph q) s (serveCeph.openImage s p name).2 := by
  unfold serveCeph.openImage
  split
  · exact .refl _ s
  · split
    · exact .ofCeph q s _
    · exact .refl _ s

theorem frame_serveCeph (s : World) (x : Choice) (q : CephRequest) :
    Frame (.ceph q) s (s.serveCeph x q).2 := by
  cases q <;> simp only [serveCeph]
  case rbdOpen p name snapshot => exact frame_openImage s p name _
  case rbdOpenReadOnly p name => exact frame_openImage s p name _
  all_goals repeat' split
  all_goals first | exact .refl _ s | exact .ofCeph _ s _

theorem frame_serveTransact (s : World) (x : Choice) (ops : List Ovsdb.Operation) :
    Frame (.transact ops) s (s.serveTransact x ops).2 := by
  unfold serveTransact
  split
  · exact ⟨rfl, fun _ => rfl, fun _ _ => rfl, fun _ => rfl, fun _ => rfl,
      fun h => absurd rfl (h ops)⟩
  · exact .refl _ s

theorem frame_deliver {α : Type} {r : Request} {error a : α} {served : α × World}
    (hf : Frame r s served.2) (h : x.deliver error s served = (a, t)) : Frame r s t := by
  rcases Choice.deliver_state h with rfl | rfl
  · exact .refl _ _
  · exact hf

/-- Every answer keeps to the frame of its request. -/
theorem answer_frame {r : Request} {a : r.Answer} (h : World.answer w s r x = some (a, t)) :
    Frame r s t := by
  cases r with
  | kube q => exact frame_deliver (frame_serveKube s x q) (Option.some.inj h)
  | lockSchedule =>
    simp only [answer] at h
    split at h
    · cases h
      exact ⟨rfl, fun _ => rfl, fun h => absurd rfl h, fun _ => rfl, fun _ => rfl, fun _ => rfl⟩
    · cases h
  | unlockSchedule =>
    simp only [answer] at h
    split at h
    · cases h
      exact ⟨rfl, fun _ => rfl, fun _ h => absurd rfl h, fun _ => rfl, fun _ => rfl, fun _ => rfl⟩
    · cases h
  | scheduleSpan b =>
    cases h
    exact .refl _ _
  | newV4 =>
    cases h
    exact .refl _ _
  | choose n =>
    simp only [answer] at h
    split at h
    · cases h
      exact .refl _ _
    · cases h
  | libvirt host q =>
    simp only [answer] at h
    split at h
    · next hs => exact frame_deliver (frame_serveLibvirt hs) (Option.some.inj h)
    · cases h
  | bridge host args => exact frame_deliver (.refl _ s) (Option.some.inj h)
  | ceph q => exact frame_deliver (frame_serveCeph s x q) (Option.some.inj h)
  | ovnConnect address port => exact frame_deliver (.refl _ s) (Option.some.inj h)
  | transact ops => exact frame_deliver (frame_serveTransact s x ops) (Option.some.inj h)

/-! ## Logs only grow -/

/-- Every version that is logged stays logged. -/
def Grows (s t : World) : Prop := ∀ κ, (s.kube κ).Grows (t.kube κ)

theorem Grows.refl (s : World) : s.Grows s := fun κ => Collection.Grows.refl (s.kube κ)

theorem Grows.trans {u : World} (h : s.Grows t) (h' : t.Grows u) : s.Grows u :=
  fun κ => (h κ).trans (h' κ)

theorem Grows.of_eq (h : t.kube = s.kube) : s.Grows t := by
  intro κ
  rw [h]
  exact Collection.Grows.refl (s.kube κ)

theorem Grows.setKube {κ : Kind} {c : Collection κ.Spec κ.Status} (h : (s.kube κ).Grows c) :
    s.Grows (s.setKube κ c) := by
  intro κ'
  by_cases hk : κ' = κ
  · subst hk
    rw [kube_setKube_self]
    exact h
  · rw [kube_setKube_of_ne hk]
    exact Collection.Grows.refl _

theorem grows_store {κ : Kind} {result : Except KubeError (Object κ × Collection κ.Spec κ.Status)}
    (h : ∀ o c, result = .ok (o, c) → (s.kube κ).Grows c) : s.Grows (s.store κ result).2 := by
  cases result with
  | ok p => exact .setKube (h p.1 p.2 rfl)
  | error e => exact .refl s

theorem grows_serveKube (s : World) (x : Choice) (q : KubeRequest) : s.Grows (s.serveKube x q).2 := by
  cases q with
  | get κ k => exact .refl s
  | list κ sel => exact .refl s
  | replace κ o writer => exact grows_store fun _ _ h => Collection.grows_replace h
  | replaceStatus κ k n status writer => exact grows_store fun _ _ h => Collection.grows_replaceStatus h
  | apply m => exact .refl s
  | runningImage => exact .refl s

theorem answer_grows {r : Request} {a : r.Answer} (h : World.answer w s r x = some (a, t)) :
    s.Grows t := by
  cases r with
  | kube q =>
    rcases Choice.deliver_state (Option.some.inj h) with rfl | rfl
    · exact .refl _
    · exact grows_serveKube s x q
  | _ => exact .of_eq ((answer_frame h).kube fun q hq => nomatch hq)

end World

/-! ## Workers -/

namespace Worker

/-- The kind of the objects that a worker reconciles. -/
@[reducible] def kind : Worker → Kind
  | vm _ => .virtualMachine
  | vmOvn _ => .virtualMachine
  | node _ => .node
  | network _ => .network
  | router _ => .router
  | volume _ => .volume
  | image _ => .image
  | host _ _ => .virtualMachine

/-- The key of the object that a worker reconciles. -/
def key : Worker → Key
  | vm k => k
  | vmOvn k => k
  | node name => ⟨"", name⟩
  | network k => k
  | router k => k
  | volume k => k
  | image k => k
  | host _ k => k

/-- `ResourceController::run`: an object that is marked deleted goes to the remove
function. The host controller has one function for both. -/
def reconcile [Crates] : (w : Worker) → Object w.kind → Prog Unit
  | vm _, o => if o.isDeleted then .ret () else createVm o
  | vmOvn _, o => if o.isDeleted then removeVm o else updateVm o
  | node _, o => if o.isDeleted then .ret () else updateNode o
  | network _, o => if o.isDeleted then removeNetwork o else updateNetwork o
  | router _, o => if o.isDeleted then removeRouter o else updateRouter o
  | volume _, o => if o.isDeleted then Volumes.removeVolume o else Volumes.updateVolume o
  | image _, o => if o.isDeleted then Images.removeImage o else Images.updateImage o
  | host h _, o => Host.reconcile h o

end Worker

/-- A worker starts a reconcile from some version of its object, possibly an old one. -/
def World.launch [Crates] (w : Worker) (s : World) (version : Nat) : Option (Prog Unit × World) :=
  match (s.kube w.kind).history.find? fun o => o.key = w.key && o.version = version with
  | some o => some (w.reconcile o, { s with seen := Function.update s.seen w version })
  | none => none

/-- A reconcile that is gone no longer holds the mutex. -/
def World.release (w : Worker) (s : World) : World :=
  if s.scheduler = some w then { s with scheduler := none } else s

/-! ## The surroundings -/

/-- * `create`, `edit`, `delete`: acts of users on objects
* `setNodeStatus`: a kubelet reports
* `migrationCompletes`, `migrationAborts`: how a live migration ends
* `domainStops`: a guest powers off, or a hypervisor or its host crashes
* `assignAddress`: OVN writes the dynamic addresses of a port
* `storeImage`: an administrator puts an image into a pool -/
inductive WorldEvent : Type
  | create (κ : Kind) (k : Key) (labels annotations : StringMap) (spec : κ.Spec)
  | edit (κ : Kind) (k : Key) (labels annotations : StringMap) (spec : κ.Spec)
  | delete (κ : Kind) (k : Key) (time : Nat)
  | setNodeStatus (k : Key) (status : NodeStatus)
  | migrationCompletes (m : Migration)
  | migrationAborts (m : Migration)
  | domainStops (host domain : String)
  | assignAddress (port address : String)
  | storeImage (pool : String) (image : RbdImage)

/-- The state after an event, if it is possible. -/
def World.happen (s : World) : WorldEvent → Option World
  | .create κ k labels annotations spec =>
    ((s.kube κ).create k labels annotations spec).map (s.setKube κ)
  | .edit κ k labels annotations spec =>
    ((s.kube κ).edit k labels annotations spec).map (s.setKube κ)
  | .delete κ k time => ((s.kube κ).delete k time).map (s.setKube κ)
  | .setNodeStatus k status =>
    match (s.kube .node).find? k with
    | none => none
    | some node => some (s.setKube .node
        ((s.kube .node).settle node { node with status := some status }).2)
  | .migrationCompletes m =>
    if m ∈ s.hypervisors.migrations then some { s with hypervisors := s.hypervisors.complete m }
    else none
  | .migrationAborts m =>
    if m ∈ s.hypervisors.migrations then some { s with hypervisors := s.hypervisors.abort m }
    else none
  | .domainStops host domain =>
    if s.hypervisors.has host domain then
      some { s with hypervisors := s.hypervisors.stop host domain }
    else none
  | .assignAddress port address =>
    let assign := fun r : Ovsdb.Row => r.modify "dynamic_addresses" fun _ => .strings [address]
    some { s with northbound := s.northbound.modifyRow typeLogicalSwitchPort port assign }
  | .storeImage pool image =>
    if (s.ceph.find? pool image.name).isSome then none
    else some { s with ceph := s.ceph.modify pool (image :: ·) }

namespace World

variable {s t : World} {w : Worker}

theorem grows_release (w : Worker) (s : World) : s.Grows (World.release w s) := by
  unfold World.release
  split
  · exact .of_eq rfl
  · exact .refl s

theorem release_vms (w : Worker) (s : World) : (World.release w s).vms = s.vms := by
  unfold World.release
  split <;> rfl

theorem seen_release (w : Worker) (s : World) : (World.release w s).seen = s.seen := by
  unfold World.release
  split <;> rfl

/-- Only the start of a reconcile changes what a worker has seen. -/
theorem seen_happen {e : WorldEvent} (h : s.happen e = some t) : t.seen = s.seen := by
  cases e with
  | create κ k labels annotations spec =>
    obtain ⟨c, -, rfl⟩ := Option.map_eq_some_iff.mp h
    rfl
  | edit κ k labels annotations spec =>
    obtain ⟨c, -, rfl⟩ := Option.map_eq_some_iff.mp h
    rfl
  | delete κ k time =>
    obtain ⟨c, -, rfl⟩ := Option.map_eq_some_iff.mp h
    rfl
  | assignAddress port address =>
    cases h
    rfl
  | _ =>
    simp only [happen] at h
    split at h <;> cases h
    rfl

theorem grows_happen {e : WorldEvent} (h : s.happen e = some t) : s.Grows t := by
  cases e with
  | create κ k labels annotations spec =>
    obtain ⟨c, hc, rfl⟩ := Option.map_eq_some_iff.mp h
    exact .setKube (Collection.grows_create hc)
  | edit κ k labels annotations spec =>
    obtain ⟨c, hc, rfl⟩ := Option.map_eq_some_iff.mp h
    exact .setKube (Collection.grows_edit hc)
  | delete κ k time =>
    obtain ⟨c, hc, rfl⟩ := Option.map_eq_some_iff.mp h
    exact .setKube (Collection.grows_delete hc)
  | setNodeStatus k status =>
    simp only [happen] at h
    split at h
    · cases h
    · cases h
      exact .setKube (Collection.grows_settle _ _ _)
  | assignAddress port address =>
    cases h
    exact .of_eq rfl
  | migrationCompletes m =>
    simp only [happen] at h
    split at h <;> cases h
    exact .of_eq rfl
  | migrationAborts m =>
    simp only [happen] at h
    split at h <;> cases h
    exact .of_eq rfl
  | domainStops host domain =>
    simp only [happen] at h
    split at h <;> cases h
    exact .of_eq rfl
  | storeImage pool image =>
    simp only [happen] at h
    split at h <;> cases h
    exact .of_eq rfl

/-! ## The virtual machines after a step -/

/-- A user's act changes at most one virtual machine. It leaves status and finalizers as
they are, and takes no deletion back. -/
structure Touches (e : WorldEvent) (old n : VirtualMachine) : Prop where
  key : n.key = old.key
  status : n.status = old.status
  finalizers : n.metadata.finalizers = old.metadata.finalizers
  deleted : old.isDeleted = true → n.isDeleted = true
  cases : (∃ k labels annotations spec, e = .edit .virtualMachine k labels annotations spec ∧
      old.key = k ∧ n.metadata.labels = labels ∧ n.spec = spec) ∨
    (n.metadata.labels = old.metadata.labels ∧ n.spec = old.spec)

theorem settle_vms {old n : VirtualMachine} (hs : s.vms.find? n.key = some old) :
    (s.setKube .virtualMachine (s.vms.settle old n).2).vms = s.vms ∨
      s.vms.Changes (s.setKube .virtualMachine (s.vms.settle old n).2).vms old (s.vms.stamp n) := by
  have hvms : (s.setKube .virtualMachine (s.vms.settle old n).2).vms = (s.vms.settle old n).2 :=
    kube_setKube_self
  rw [hvms]
  rcases Collection.settle_cases hs with ⟨-, h⟩ | ⟨-, -, h⟩
  · exact .inl (congrArg Prod.snd h)
  · exact .inr h

theorem vms_setKube {κ : Kind} {c : Collection κ.Spec κ.Status} (h : κ ≠ .virtualMachine) :
    (s.setKube κ c).vms = s.vms := kube_setKube_of_ne (Ne.symm h)

/-- The virtual machines after an event of the surroundings. -/
theorem happen_vms {e : WorldEvent} (h : s.happen e = some t) :
    t.vms = s.vms ∨
    (∃ k labels annotations spec, e = .create .virtualMachine k labels annotations spec ∧
      s.vms.find? k = none ∧ t.vms = s.vms.record
        { metadata := ⟨k.ns, k.name, 0, 0, labels, annotations, [], none⟩
          spec := spec, status := none }) ∨
    ∃ old n, Touches e old n ∧ s.vms.Changes t.vms old (s.vms.stamp n) := by
  cases e with
  | create κ k labels annotations spec =>
    obtain ⟨c, hc, rfl⟩ := Option.map_eq_some_iff.mp h
    by_cases hκ : κ = .virtualMachine
    · subst hκ
      refine .inr (.inl ⟨k, labels, annotations, spec, rfl, ?_⟩)
      rw [show (s.setKube .virtualMachine c).vms = c from kube_setKube_self]
      unfold Collection.create at hc
      split at hc <;> cases hc
      next hn => exact ⟨hn, rfl⟩
    · exact .inl (vms_setKube hκ)
  | edit κ k labels annotations spec =>
    obtain ⟨c, hc, rfl⟩ := Option.map_eq_some_iff.mp h
    by_cases hκ : κ = .virtualMachine
    · subst hκ
      unfold Collection.edit at hc
      split at hc <;> cases hc
      next stored hs =>
      have hk : stored.key = k := Collection.key_of_find? hs
      have hs' : s.vms.find? stored.key = some stored := hk ▸ hs
      rcases settle_vms (n := { metadata := { stored.metadata with
        labels := labels, annotations := annotations }, spec := spec, status := stored.status }) hs'
        with hv | hv
      · exact .inl hv
      · refine .inr (.inr ⟨stored, _, ?_, hv⟩)
        exact ⟨rfl, rfl, rfl, id, .inl ⟨k, labels, annotations, spec, rfl, hk, rfl, rfl⟩⟩
    · exact .inl (vms_setKube hκ)
  | delete κ k time =>
    obtain ⟨c, hc, rfl⟩ := Option.map_eq_some_iff.mp h
    by_cases hκ : κ = .virtualMachine
    · subst hκ
      unfold Collection.delete at hc
      split at hc
      · cases hc
      · next stored hs =>
        have hs' : s.vms.find? stored.key = some stored := (Collection.key_of_find? hs) ▸ hs
        split at hc <;> cases hc
        · exact .inl kube_setKube_self
        · rcases settle_vms (n := { stored with metadata := { stored.metadata with
            deletionTimestamp := some time } }) hs' with hv | hv
          · exact .inl hv
          · refine .inr (.inr ⟨stored, _, ?_, hv⟩)
            exact ⟨rfl, rfl, rfl, fun _ => rfl, .inr ⟨rfl, rfl⟩⟩
    · exact .inl (vms_setKube hκ)
  | setNodeStatus k status =>
    simp only [happen] at h
    split at h <;> cases h
    exact .inl (vms_setKube (by decide))
  | assignAddress port address =>
    cases h
    exact .inl rfl
  | migrationCompletes m =>
    simp only [happen] at h
    split at h <;> cases h
    exact .inl rfl
  | migrationAborts m =>
    simp only [happen] at h
    split at h <;> cases h
    exact .inl rfl
  | domainStops host domain =>
    simp only [happen] at h
    split at h <;> cases h
    exact .inl rfl
  | storeImage pool image =>
    simp only [happen] at h
    split at h <;> cases h
    exact .inl rfl

/-- Only a write of a virtual machine changes a virtual machine. -/
theorem answer_vms {r : Request} {x : Choice} {a : r.Answer} (hw : r.writerOfVm = none)
    (h : World.answer w s r x = some (a, t)) : t.vms = s.vms := by
  by_cases hq : ∃ q, r = .kube q
  · obtain ⟨q, rfl⟩ := hq
    rcases Choice.deliver_state (Option.some.inj h) with rfl | rfl
    · rfl
    · cases q with
      | get κ k => rfl
      | list κ sel => rfl
      | apply m => rfl
      | runningImage => rfl
      | replace κ o writer =>
        have hκ : κ ≠ .virtualMachine := by
          rintro rfl
          cases hw
        show (s.store κ _).2.vms = s.vms
        unfold World.store
        split
        · exact vms_setKube hκ
        · rfl
      | replaceStatus κ k n status writer =>
        have hκ : κ ≠ .virtualMachine := by
          rintro rfl
          cases hw
        show (s.store κ _).2.vms = s.vms
        unfold World.store
        split
        · exact vms_setKube hκ
        · rfl
  · exact congrFun ((answer_frame h).kube fun q hr => hq ⟨q, hr⟩) .virtualMachine

variable [Crates]

/-- A reconcile starts from a logged version of the worker's object. -/
theorem launch_some {n : Nat} {p : Prog Unit} (h : World.launch w s n = some (p, t)) :
    ∃ o ∈ (s.kube w.kind).history, o.key = w.key ∧ o.version = n ∧ p = w.reconcile o ∧
      t = { s with seen := Function.update s.seen w n } := by
  unfold World.launch at h
  split at h
  · next o ho =>
    cases h
    have hp := List.find?_some ho
    simp only [Bool.and_eq_true, decide_eq_true_eq] at hp
    exact ⟨o, List.mem_of_find?_eq_some ho, hp.1, hp.2, rfl, rfl⟩
  · cases h

end World

/-- All controllers of the cluster, in any interleaving. -/
def cluster [Crates] :
    Machine Worker Request Request.Answer Error Unit World Choice Nat WorldEvent where
  answer := World.answer
  launch := World.launch
  release := World.release
  world := World.happen

/-- The configurations of the cluster. -/
abbrev ClusterConfig := Interaction.Config Worker Request Request.Answer Error Unit World

/-- The commands of scripts of the cluster. -/
abbrev ClusterCommand := Interaction.Command Worker Choice Nat WorldEvent

/-- A worker starts from a version and makes a number of requests that are all served. -/
def serve (w : Worker) (version requests : Nat) : List ClusterCommand :=
  .start w version :: List.replicate requests (.call w {})

/-- The same, and the reconcile ends. -/
def serveAll (w : Worker) (version requests : Nat) : List ClusterCommand :=
  serve w version requests ++ [.stop w]

/-- A VM without volumes and networks. -/
def plainSpec : VirtualMachineSpec :=
  ⟨1, none, "1 Gi", [], [], some "uuid", none, none, none, none, none⟩

/-- The steps of the cluster. -/
abbrev ClusterEvent := Interaction.Event Worker Request Choice Nat WorldEvent

/-- The step is the status write of the scheduler. -/
def placesVm : ClusterEvent → Bool
  | .call _ r _ => r.writerOfVm = some .schedulingAndMigrations
  | _ => false

/-- The VM `x` is placed on the node `a`. -/
def placedScript : List ClusterCommand :=
  [.world (.create .cluster ⟨"", "default"⟩ [] [] ⟨"pc", "<cpu/>"⟩),
   .world (.create .node ⟨"", "a"⟩ [] [] ()),
   .world (.create .virtualMachine ⟨"n", "x"⟩ [(antiAffinityLabel, "g")] [] plainSpec)] ++
  serveAll (.vm ⟨"n", "x"⟩) 1 1 ++ serveAll (.vm ⟨"n", "x"⟩) 2 8

/-- The node `a` starts it. -/
def homeScript : List ClusterCommand := placedScript ++ serveAll (.host "a" ⟨"n", "x"⟩) 3 5

/-- There is a second node, the first goes into maintenance, its controller requests the
migration of `x`, and the scheduler, which starts from the given version, moves `x`. -/
def leaveScript (version : Nat) : List ClusterCommand :=
  [.world (.create .node ⟨"", "b"⟩ [] [] ()),
   .world (.edit .node ⟨"", "a"⟩ [] [( maintenanceAnnotation, "true")] ())] ++
  serveAll (.node "a") 3 2 ++ serve (.vm ⟨"n", "x"⟩) version 8

/-- Two VMs of one group are placed on the two nodes of a cluster. -/
def placementScript : List ClusterCommand :=
  [.world (.create .node ⟨"", "a"⟩ [] [] ()), .world (.create .node ⟨"", "b"⟩ [] [] ()),
   .world (.create .virtualMachine ⟨"n", "x"⟩ [(antiAffinityLabel, "g")] [] plainSpec),
   .world (.create .virtualMachine ⟨"n", "y"⟩ [(antiAffinityLabel, "g")] [] plainSpec)] ++
  serveAll (.vm ⟨"n", "x"⟩) 1 1 ++ serveAll (.vm ⟨"n", "y"⟩) 2 1 ++
  serveAll (.vm ⟨"n", "x"⟩) 3 7 ++ serveAll (.vm ⟨"n", "y"⟩) 4 7

end ClusterController
