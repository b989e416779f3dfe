import ClusterController.CephActions
import ClusterController.Lib.Transcript

/-!
# Handles of Ceph

Connections, pools and images that the functions of the controllers open, and which of them are
still open when a function returns. What librados and librbd answer is any transcript.
-/

namespace ClusterController

open Interaction (Program Transcript)
open Interaction.Program (Outcome Plays plays_bind)

/-! ## What is held -/

/-- A connection, a pool or an image that is open. -/
inductive OpenHandle : Type
  | cluster (n : Nat)
  | pool (n : Nat)
  | image (n : Nat)
deriving DecidableEq

/-- What an answered request opens. A connection is open once `rados_connect` has succeeded. -/
def openedBy : (Sigma fun r : Request => r.Answer) → Option OpenHandle
  | ⟨.ceph (.radosConnect cluster), .ok _⟩ => some (.cluster cluster)
  | ⟨.ceph (.radosIoctxCreate _ _), .ok pool⟩ => some (.pool pool)
  | ⟨.ceph (.rbdOpen _ _ _), .ok image⟩ => some (.image image)
  | ⟨.ceph (.rbdOpenReadOnly _ _), .ok image⟩ => some (.image image)
  | _ => none

/-- What a request closes. -/
def closedBy : Request → Option OpenHandle
  | .ceph (.radosShutdown cluster) => some (.cluster cluster)
  | .ceph (.radosIoctxDestroy pool) => some (.pool pool)
  | .ceph (.rbdClose image) => some (.image image)
  | _ => none

/-- What is held after a transcript, if nothing was closed that was not held. -/
def held : List OpenHandle → Transcript Request Request.Answer → Option (List OpenHandle)
  | l, [] => some l
  | l, e :: tr =>
    match closedBy e.1 with
    | some h => if h ∈ l then held (l.erase h) tr else none
    | none => held ((openedBy e).toList ++ l) tr

/-- Everything that was opened has been closed, and nothing more than that. -/
def Released (tr : Transcript Request Request.Answer) : Prop := held [] tr = some []

/-- The call returns a code. -/
def CephRequest.hasCode : CephRequest → Bool
  | .radosShutdown _ => false
  | .radosIoctxDestroy _ => false
  | _ => true

/-- The call returns a code, and it is negative. -/
def failure : (Sigma fun r : Request => r.Answer) → Bool
  | ⟨.ceph q, .error _⟩ => q.hasCode
  | _ => false

/-- The call makes a connection to the cluster. -/
def joining : (Sigma fun r : Request => r.Answer) → Bool
  | ⟨.ceph (.radosConnect _), .ok _⟩ => true
  | _ => false

/-- The monitors answer with an empty key. -/
def noKey : (Sigma fun r : Request => r.Answer) → Bool
  | ⟨.ceph (.radosMonCommand _ _), .ok key⟩ => key.isEmpty
  | _ => false

/-- The function has returned, with a result or an error. -/
def Returned {α : Type} (o : Outcome Error α) : Prop := ∀ m, o ≠ .aborted m

section Transcripts

variable {tr : Transcript Request Request.Answer} {l : List OpenHandle} {α β : Type} {o : Outcome Error β}
  {operation : String} {q : CephRequest}

/-- What is held stays held if nothing is closed. -/
theorem held_of_no_close (hl : l ≠ []) (h : ∀ e ∈ tr, closedBy e.1 = none) : held l tr ≠ some [] := by
  induction tr generalizing l with
  | nil => exact fun hnil => hl (Option.some.inj hnil)
  | cons e tr ih =>
    unfold held
    rw [h e List.mem_cons_self]
    exact ih (by simp [hl]) fun e' he' => h e' (List.mem_cons_of_mem _ he')

/-- A call that returns a code goes on, or fails and ends the whole. -/
theorem plays_cephCall {f : q.Answer → Prog β} (h : (cephCall operation q >>= f).Plays tr o) :
    (∃ v rest, tr = ⟨.ceph q, .ok v⟩ :: rest ∧ (f v).Plays rest o) ∨
      ∃ code, tr = [⟨.ceph q, .error code⟩] ∧ o = .err (.rados operation code) := by
  obtain ⟨x, rest, rfl, h⟩ := h
  cases x with
  | ok v => exact .inl ⟨v, rest, rfl, h⟩
  | error code =>
    obtain ⟨rfl, ho⟩ := h
    exact .inr ⟨code, rfl, ho⟩

/-- A name that is no C string ends the process. -/
theorem plays_cStringNew {text msg : String} {f : Unit → Prog β} (h : (cStringNew text msg >>= f).Plays tr o) :
    (NulFree text ∧ (f ()).Plays tr o) ∨ (¬NulFree text ∧ tr = [] ∧ o = .aborted msg) := by
  unfold cStringNew at h
  split at h
  · next hplain => exact .inl ⟨hplain, h⟩
  · next hnul => exact .inr ⟨hnul, h⟩

theorem plays_unchecked {f : Unit → Prog β} (h : (cephCallUnchecked q >>= f).Plays tr o) :
    ∃ x rest, tr = ⟨.ceph q, x⟩ :: rest ∧ (f ()).Plays rest o := h

theorem within_cStringNew {ok : Request → Prop} {text msg : String} :
    (cStringNew text msg).Within ok fun _ => True := by
  unfold cStringNew
  split <;> trivial

theorem keeps_cephCall (h : closedBy (.ceph q) = none) :
    (cephCall operation q).Within (closedBy · = none) fun _ => True := by
  refine ⟨h, fun x => ?_⟩
  cases x <;> trivial

end Transcripts

/-! ## Connections -/

section Connections

variable {tr rest : Transcript Request Request.Answer} {β : Type} {o : Outcome Error β} {c : Nat}

/-- The calls of `connect`, all of which succeed. -/
def connecting (c : Nat) : Transcript Request Request.Answer :=
  [⟨.ceph .radosCreate, .ok c⟩, ⟨.ceph (.radosConfReadFile c), .ok ()⟩,
    ⟨.ceph (.radosConfSet c), .ok ()⟩, ⟨.ceph (.radosConnect c), .ok ()⟩]

theorem released_connecting : Released (connecting c ++ rest) ↔ held [.cluster c] rest = some [] := Iff.rfl

theorem joined_connecting : (connecting c ++ rest).any joining = true := rfl

/-- Where no connection is made, nothing is held. -/
theorem plays_connect {f : Nat → Prog β} (h : (Ceph.connect >>= f).Plays tr o) :
    (Released tr ∧ tr.any joining = false) ∨ ∃ c rest, tr = connecting c ++ rest ∧ (f c).Plays rest o := by
  unfold Ceph.connect at h
  simp only [Program.bind_assoc', Program.pure_eq, Program.ret_bind] at h
  rcases plays_cephCall h with ⟨c, tr₁, rfl, h₁⟩ | ⟨code, rfl, -⟩
  swap
  · exact .inl ⟨rfl, rfl⟩
  rcases plays_cephCall h₁ with ⟨_, tr₂, rfl, h₂⟩ | ⟨code, rfl, -⟩
  swap
  · exact .inl ⟨rfl, rfl⟩
  rcases plays_cephCall h₂ with ⟨_, tr₃, rfl, h₃⟩ | ⟨code, rfl, -⟩
  swap
  · exact .inl ⟨rfl, rfl⟩
  rcases plays_cephCall h₃ with ⟨_, tr₄, rfl, h₄⟩ | ⟨code, rfl, -⟩
  swap
  · exact .inl ⟨rfl, rfl⟩
  exact .inr ⟨c, tr₄, rfl, h₄⟩

/-- A function that closes nothing holds what it has connected to. -/
theorem released_of_no_close {f : Nat → Prog β} (hf : ∀ c, (f c).Within (closedBy · = none) fun _ => True)
    (h : (Ceph.connect >>= f).Plays tr o) : Released tr ↔ tr.any joining = false := by
  rcases plays_connect h with ⟨hr, hn⟩ | ⟨c, rest, rfl, hrest⟩
  · exact iff_of_true hr hn
  · refine iff_of_false (fun hr => ?_) (by rw [joined_connecting]; simp)
    exact held_of_no_close (by simp) ((hf c).plays hrest) (released_connecting.mp hr)

end Connections

/-! ## The functions -/

section Functions

variable {tr : Transcript Request Request.Answer} {β : Type} {o : Outcome Error β} {name : String}
  {size : UInt64} {template : Option String} {cluster volumePool templatePool : Nat}

/-- Pools and the connection are given back. -/
theorem plays_closing {o : Outcome Error Unit} (h : (do
      Ceph.closePool volumePool
      Ceph.closePool templatePool
      Ceph.disconnect cluster : Prog Unit).Plays tr o) :
    held [.pool templatePool, .pool volumePool, .cluster cluster] tr = some [] ∧
      tr.any failure = false := by
  rw [← Program.bind_ret (Ceph.disconnect cluster)] at h
  obtain ⟨x, tr₁, rfl, h₁⟩ := plays_unchecked h
  obtain ⟨y, tr₂, rfl, h₂⟩ := plays_unchecked h₁
  obtain ⟨z, tr₃, rfl, h₃⟩ := plays_unchecked h₂
  obtain rfl : tr₃ = [] := h₃.1
  constructor
  · by_cases hsame : volumePool = templatePool
    · simp [held, closedBy, hsame]
    · simp [held, closedBy, hsame, Ne.symm hsame]
  · cases x <;> cases y <;> cases z <;> rfl

/-- The image of a volume is made and nothing is left open, or a call fails and what is held is not
given back. -/
theorem plays_makeImage {l : List OpenHandle} {f : Unit → Prog β} (hl : l ≠ []) (ho : Returned o)
    (h : (Volumes.makeImage volumePool templatePool name size template >>= f).Plays tr o) :
    (held l tr ≠ some [] ∧ tr.any failure = true) ∨ ∃ before rest, tr = before ++ rest ∧
      before.any failure = false ∧ held l tr = held l rest ∧ (f ()).Plays rest o := by
  have hkept : some l ≠ some [] := fun hnil => hl (Option.some.inj hnil)
  cases template with
  | none =>
    unfold Volumes.makeImage Ceph.createImage at h
    rw [Program.bind_assoc'] at h
    obtain ⟨-, h⟩ := (plays_cStringNew h).resolve_right fun h' => ho _ h'.2.2
    rcases plays_cephCall h with ⟨v, rest, rfl, hf⟩ | ⟨code, rfl, -⟩
    · exact .inr ⟨[⟨.ceph (.rbdCreate volumePool name size), .ok v⟩], rest, rfl, rfl, rfl, hf⟩
    · exact .inl ⟨hkept, rfl⟩
  | some templateName =>
    unfold Volumes.makeImage Ceph.cloneImage Ceph.getFeatures at h
    simp only [Program.bind_assoc', Program.pure_eq, Program.ret_bind] at h
    obtain ⟨-, h⟩ := (plays_cStringNew h).resolve_right fun h' => ho _ h'.2.2
    obtain ⟨-, h⟩ := (plays_cStringNew h).resolve_right fun h' => ho _ h'.2.2
    obtain ⟨-, h⟩ := (plays_cStringNew h).resolve_right fun h' => ho _ h'.2.2
    obtain ⟨-, h⟩ := (plays_cStringNew h).resolve_right fun h' => ho _ h'.2.2
    rcases plays_cephCall h with ⟨image, tr₁, rfl, h₁⟩ | ⟨code, rfl, -⟩
    swap
    · exact .inl ⟨hkept, rfl⟩
    rcases plays_cephCall h₁ with ⟨features, tr₂, rfl, h₂⟩ | ⟨code, rfl, -⟩
    swap
    · exact .inl ⟨by simp [held, closedBy, openedBy], rfl⟩
    rcases plays_cephCall h₂ with ⟨_, tr₃, rfl, h₃⟩ | ⟨code, rfl, -⟩
    swap
    · exact .inl ⟨by simpa [held, closedBy, openedBy] using hl, rfl⟩
    rcases plays_cephCall h₃ with ⟨_, tr₄, rfl, h₄⟩ | ⟨code, rfl, -⟩
    swap
    · exact .inl ⟨by simpa [held, closedBy, openedBy] using hl, rfl⟩
    refine .inr ⟨[_, _, _, _], tr₄, rfl, rfl, ?_, h₄⟩
    simp [held, closedBy, openedBy]

/-- `ensure_exists` gives everything back if no call fails. -/
theorem released_ensureExists {o : Outcome Error Unit} (ho : Returned o)
    (h : (Volumes.ensureExists name size template).Plays tr o) :
    Released tr ↔ tr.any joining = false ∨ tr.any failure = false := by
  rcases plays_connect h with ⟨hr, hn⟩ | ⟨c, rest, rfl, hrest⟩
  · exact iff_of_true hr (.inl hn)
  rw [released_connecting, joined_connecting, or_iff_right (by simp)]
  show _ ↔ rest.any failure = false
  rcases plays_cephCall hrest with ⟨volumePool, tr₁, rfl, h₁⟩ | ⟨code, rfl, -⟩
  swap
  · exact iff_of_false (by simp [held, closedBy, openedBy]) (by simp [failure, CephRequest.hasCode])
  rcases plays_cephCall h₁ with ⟨templatePool, tr₂, rfl, h₂⟩ | ⟨code, rfl, -⟩
  swap
  · exact iff_of_false (by simp [held, closedBy, openedBy]) (by simp [failure, CephRequest.hasCode])
  unfold Ceph.getImages at h₂
  rw [Program.bind_assoc'] at h₂
  rcases plays_cephCall h₂ with ⟨buffer, tr₃, rfl, h₃⟩ | ⟨code, rfl, -⟩
  swap
  · exact iff_of_false (by simp [held, closedBy, openedBy]) (by simp [failure, CephRequest.hasCode])
  show held [.pool templatePool, .pool volumePool, .cluster c] tr₃ = some [] ↔ tr₃.any failure = false
  cases himages : Ceph.nullSeparatedToVec buffer with
  | error m =>
    rw [himages] at h₃
    exact absurd h₃.2 (ho m)
  | ok images =>
    rw [himages] at h₃
    have h₄ : (onlyIf (name ∉ images) (Volumes.makeImage volumePool templatePool name size template) >>=
      fun _ => do
        Ceph.closePool volumePool
        Ceph.closePool templatePool
        Ceph.disconnect c).Plays tr₃ o := h₃
    unfold onlyIf at h₄
    split at h₄
    · have hopen : [OpenHandle.pool templatePool, .pool volumePool, .cluster c] ≠ [] := by simp
      rcases plays_makeImage hopen ho h₄ with ⟨hheld, hfail⟩ | ⟨before, rest, rfl, hbefore, hheld, h₅⟩
      · exact iff_of_false hheld (by rw [hfail]; simp)
      · obtain ⟨hclosed, hfine⟩ := plays_closing h₅
        refine iff_of_true (hheld.trans hclosed) ?_
        rw [List.any_append, hbefore, hfine]
        rfl
    · obtain ⟨hclosed, hfine⟩ := plays_closing h₄
      exact iff_of_true hclosed hfine

/-- The functions that only look for an image and remove it close nothing. -/
theorem within_removal (pool : String) :
    (do
      let p ← Ceph.getPool cluster pool
      let images ← Ceph.getImages p
      onlyIf (name ∈ images) (Ceph.removeImage p name) : Prog Unit).Within (closedBy · = none)
        fun _ => True := by
  have hlist : ∀ p, (Ceph.getImages p).Within (closedBy · = none) fun _ => True := by
    refine fun p => (keeps_cephCall rfl).bind fun buffer _ => ?_
    cases Ceph.nullSeparatedToVec buffer <;> trivial
  refine (keeps_cephCall rfl).bind fun p _ => (hlist p).bind fun images _ => ?_
  unfold onlyIf
  split
  · exact .bind within_cStringNew fun _ _ => keeps_cephCall rfl
  · trivial

/-- The keyring function gives the connection back once it has a key. -/
theorem released_getCephKeyring {o : Outcome Error String} (ho : Returned o)
    (h : Volumes.getCephKeyring.Plays tr o) :
    Released tr ↔ tr.any joining = false ∨ (tr.any failure = false ∧ tr.any noKey = false) := by
  rcases plays_connect h with ⟨hr, hn⟩ | ⟨c, rest, rfl, hrest⟩
  · exact iff_of_true hr (.inl hn)
  rw [released_connecting, joined_connecting, or_iff_right (by simp)]
  show _ ↔ rest.any failure = false ∧ rest.any noKey = false
  unfold Ceph.authGetKey at hrest
  rw [Program.bind_assoc'] at hrest
  rcases plays_cephCall hrest with ⟨outbuf, tr₁, rfl, h₁⟩ | ⟨code, rfl, -⟩
  swap
  · exact iff_of_false (by simp [held, closedBy, openedBy]) (by simp [failure, CephRequest.hasCode])
  split at h₁
  · next hempty =>
    obtain ⟨rfl, -⟩ := h₁
    exact iff_of_false (by simp [held, closedBy, openedBy]) (by simpa [noKey, failure] using hempty)
  · next hkey =>
    cases hdecoded : Ceph.stringFromUtf8 outbuf with
    | none =>
      rw [hdecoded] at h₁
      exact absurd h₁.2 (ho _)
    | some key =>
      rw [hdecoded] at h₁
      obtain ⟨x, tr₂, rfl, h₂⟩ := plays_unchecked (f := fun _ => .ret key) h₁
      obtain rfl : tr₂ = [] := h₂.1
      refine iff_of_true (by simp [held, closedBy, openedBy]) ?_
      cases x <;> simpa [failure, noKey, CephRequest.hasCode] using hkey

theorem within_hasLocks (pool : String) :
    (do
      let p ← Ceph.getPool cluster pool
      Ceph.hasLocksInPool p name : Prog Bool).Within (closedBy · = none) fun _ => True := by
  refine (keeps_cephCall rfl).bind fun p _ => ?_
  unfold Ceph.hasLocksInPool
  have hopen : (Ceph.openImage p name).Within (closedBy · = none) fun _ => True :=
    .bind within_cStringNew fun _ _ => keeps_cephCall rfl
  refine hopen.bind fun image _ => (keeps_cephCall rfl).bind fun lockers _ => ?_
  split
  · trivial
  · split <;> trivial

end Functions

/-- Which functions have closed what they opened when they return, and when. -/
theorem handles_released_iff (tr : Transcript Request Request.Answer) :
    (∀ name size template o, (Volumes.ensureExists name size template).Plays tr o → Returned o →
      (Released tr ↔ tr.any joining = false ∨ tr.any failure = false)) ∧
    (∀ name o, (Volumes.ensureRemoved name).Plays tr o → Returned o →
      (Released tr ↔ tr.any joining = false)) ∧
    (∀ name o, (Images.cephEnsureImageRemoved name).Plays tr o → Returned o →
      (Released tr ↔ tr.any joining = false)) ∧
    (∀ o, Volumes.getCephKeyring.Plays tr o → Returned o →
      (Released tr ↔ tr.any joining = false ∨ (tr.any failure = false ∧ tr.any noKey = false))) ∧
    ∀ pool name o, (Ceph.hasLocks pool name).Plays tr o → Returned o →
      (Released tr ↔ tr.any joining = false) :=
  ⟨fun _ _ _ _ h ho => released_ensureExists ho h,
    fun _ _ h _ => released_of_no_close (fun _ => within_removal _) h,
    fun _ _ h _ => released_of_no_close (fun _ => within_removal _) h,
    fun _ h ho => released_getCephKeyring ho h,
    fun _ _ _ h _ => released_of_no_close (fun _ => within_hasLocks _) h⟩

/-- The creation of an image, in which every call succeeds. -/
def creationTranscript : Transcript Request Request.Answer :=
  connecting 0 ++ [⟨.ceph (.radosIoctxCreate 0 poolVolumes), .ok 1⟩,
    ⟨.ceph (.radosIoctxCreate 0 poolTemplates), .ok 2⟩,
    ⟨.ceph (.rbdList 1 32768), .ok (List.replicate 32768 0)⟩, ⟨.ceph (.rbdCreate 1 "n-v" 1), .ok ()⟩,
    ⟨.ceph (.radosIoctxDestroy 1), .ok ()⟩, ⟨.ceph (.radosIoctxDestroy 2), .ok ()⟩,
    ⟨.ceph (.radosShutdown 0), .ok ()⟩]

theorem handles_released_creation : (Volumes.ensureExists "n-v" 1 none).Plays creationTranscript (.ok ()) ∧
    Released creationTranscript := by
  have hempty : Ceph.nullSeparatedToVec (List.replicate 32768 0) = .ok [] := decodeItems_zeros _
  have hname : NulFree "n-v" := by decide +kernel
  have hplays : (Volumes.ensureExists "n-v" 1 none).Plays creationTranscript (.ok ()) := by
    refine ⟨_, _, rfl, _, _, rfl, _, _, rfl, _, _, rfl, _, _, rfl, _, _, rfl, _, _, rfl, ?_⟩
    show (orPanic (Ceph.nullSeparatedToVec (List.replicate 32768 0)) >>= fun images => _).Plays _ _
    rw [hempty]
    show ((cStringNew "n-v" _ >>= fun _ => _) >>= fun _ => _).Plays _ _
    rw [cStringNew_of_nulFree hname]
    exact ⟨_, _, rfl, _, _, rfl, _, _, rfl, _, _, rfl, rfl, rfl⟩
  have hiff := (handles_released_iff creationTranscript).1 "n-v" 1 none (.ok ()) hplays fun _ => nofun
  exact ⟨hplays, hiff.mpr (.inr rfl)⟩

/-- The removal of an image that is not there: every call succeeds, and the connection and the pool
stay open. -/
def removalTranscript : Transcript Request Request.Answer :=
  connecting 0 ++ [⟨.ceph (.radosIoctxCreate 0 poolVolumes), .ok 1⟩,
    ⟨.ceph (.rbdList 1 32768), .ok (List.replicate 32768 0)⟩]

theorem removal_leaks : (Volumes.ensureRemoved "n-v").Plays removalTranscript (.ok ()) ∧
    ¬Released removalTranscript := by
  have hempty : Ceph.nullSeparatedToVec (List.replicate 32768 0) = .ok [] := decodeItems_zeros _
  refine ⟨?_, ?_⟩
  · refine ⟨_, _, rfl, _, _, rfl, _, _, rfl, _, _, rfl, _, _, rfl, _, _, rfl, ?_⟩
    show (orPanic (Ceph.nullSeparatedToVec (List.replicate 32768 0)) >>= fun images => _).Plays [] _
    rw [hempty]
    exact ⟨rfl, rfl⟩
  · unfold removalTranscript
    rw [released_connecting]
    simp [held, closedBy, openedBy]

end ClusterController
