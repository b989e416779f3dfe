import Mathlib
import ClusterController.World

/-!
# A reconcile on its own

What one reconcile does while nothing else happens and every request is served. A request
that is served may still be refused: a write from a copy that is out of date is. Runs in
which no two reconciles overlap are sequences of such reconciles (`Serial`).
-/

namespace ClusterController

open ApiServer (Key KubeError Resource Collection)
open Interaction (Program)
open Interaction.Program (Outcome Within ends_bind)

/-- The state serves the request of the worker. -/
def Served (w : Worker) (s : World) (r : Request) (a : r.Answer) (t : World) : Prop :=
  ∃ x : Choice, x.delivery = .served ∧ World.answer w s r x = some (a, t)

section Calls

variable {w : Worker} {s t : World} {κ : Kind} {α : Type}

theorem served_kube {q : KubeRequest} {a : Except KubeError q.Answer}
    (h : Served w s (.kube q) a t) : ∃ x, s.serveKube x q = (a, t) := by
  obtain ⟨x, hx, hans⟩ := h
  refine ⟨x, ?_⟩
  have hd : x.deliver (.error .unreachable) s (s.serveKube x q) = (a, t) := Option.some.inj hans
  unfold Choice.deliver at hd
  rwa [hx] at hd

theorem ends_ask {r : Request} {o : Outcome Error r.Answer} (h : (ask r).Ends (Served w) s o t) :
    ∃ a, Served w s r a t ∧ o = .ok a := by
  obtain ⟨a, s₁, hs, rfl, rfl⟩ := h
  exact ⟨a, hs, rfl⟩

theorem ends_ask_bind {r : Request} {f : r.Answer → Prog α} {o : Outcome Error α}
    (h : (ask r >>= f).Ends (Served w) s o t) :
    ∃ a s₁, Served w s r a s₁ ∧ (f a).Ends (Served w) s₁ o t := h

/-- A call of the API server returns what is answered, or fails with the error. -/
theorem ends_kubeCall {q : KubeRequest} {o : Outcome Error q.Answer}
    (h : (kubeCall q).Ends (Served w) s o t) :
    ∃ x a, s.serveKube x q = (a, t) ∧
      ((∃ v, a = .ok v ∧ o = .ok v) ∨ ∃ e, a = .error e ∧ o = .err (.kube e)) := by
  obtain ⟨a, s₁, hs, hk⟩ := h
  obtain ⟨x, hx⟩ := served_kube hs
  cases a with
  | ok v =>
    obtain ⟨rfl, rfl⟩ := hk
    exact ⟨x, _, hx, .inl ⟨v, rfl, rfl⟩⟩
  | error e =>
    obtain ⟨rfl, rfl⟩ := hk
    exact ⟨x, _, hx, .inr ⟨e, rfl, rfl⟩⟩

theorem ends_kubeList {selector : Option (String × String)} {o : Outcome Error (List (Object κ))}
    (h : (kubeList κ selector).Ends (Served w) s o t) :
    o = .ok ((s.kube κ).list selector) ∧ t = s := by
  obtain ⟨x, a, hx, ho⟩ := ends_kubeCall h
  cases hx
  rcases ho with ⟨v, hv, rfl⟩ | ⟨e, he, -⟩
  · cases hv
    exact ⟨rfl, rfl⟩
  · cases he

theorem ends_kubeGet {k : Key} {o : Outcome Error (Object κ)}
    (h : (kubeGet κ k).Ends (Served w) s o t) :
    t = s ∧ ((∃ v, (s.kube κ).find? k = some v ∧ o = .ok v) ∨
      ((s.kube κ).find? k = none ∧ ∃ e, o = .err e)) := by
  obtain ⟨x, a, hx, ho⟩ := ends_kubeCall h
  have ha : (s.kube κ).get k = a := congrArg Prod.fst hx
  have ht : t = s := (congrArg Prod.snd hx).symm
  refine ⟨ht, ?_⟩
  unfold Collection.get at ha
  cases hf : (s.kube κ).find? k with
  | none =>
    rw [hf] at ha
    rcases ho with ⟨v, rfl, -⟩ | ⟨e, -, rfl⟩
    · cases ha
    · exact .inr ⟨rfl, _, rfl⟩
  | some v =>
    rw [hf] at ha
    rcases ho with ⟨v', rfl, rfl⟩ | ⟨e, rfl, -⟩
    · cases ha
      exact .inl ⟨v, rfl, rfl⟩
    · cases ha

/-- The same for a call whose answer is dropped. -/
theorem ends_kubeCall_drop {q : KubeRequest} {o : Outcome Error Unit}
    (h : (do let _ ← kubeCall q : Prog Unit).Ends (Served w) s o t) :
    ∃ x a, s.serveKube x q = (a, t) ∧
      ((∃ v, a = .ok v ∧ o = .ok ()) ∨ ∃ e, a = .error e ∧ o = .err (.kube e)) := by
  rcases ends_bind.mp h with ⟨v, s₁, hv, rfl, rfl⟩ | ⟨e, he, rfl⟩ | ⟨m, hm, rfl⟩
  · obtain ⟨x, a, hx, ⟨v', rfl, -⟩ | ⟨e, -, ho⟩⟩ := ends_kubeCall hv
    · exact ⟨x, _, hx, .inl ⟨v', rfl, rfl⟩⟩
    · cases ho
  · obtain ⟨x, a, hx, ⟨v, -, ho⟩ | ⟨e', rfl, ho⟩⟩ := ends_kubeCall he
    · cases ho
    · cases ho
      exact ⟨x, _, hx, .inr ⟨e', rfl, rfl⟩⟩
  · obtain ⟨x, a, hx, ⟨v, -, ho⟩ | ⟨e, -, ho⟩⟩ := ends_kubeCall hm
    · cases ho
    · cases ho

/-- What a write came to: it is accepted and stored, or refused without effect. -/
def Written (κ : Kind) (result : Except KubeError (Object κ × Collection κ.Spec κ.Status))
    (s : World) (o : Outcome Error Unit) (t : World) : Prop :=
  (∃ v c, result = .ok (v, c) ∧ o = .ok () ∧ t = s.setKube κ c) ∨
    ∃ e, result = .error e ∧ o = .err (.kube e) ∧ t = s

theorem written_of_store {result : Except KubeError (Object κ × Collection κ.Spec κ.Status)}
    {a : Except KubeError (Object κ)} {o : Outcome Error Unit} (hx : s.store κ result = (a, t))
    (ho : (∃ v, a = .ok v ∧ o = .ok ()) ∨ ∃ e, a = .error e ∧ o = .err (.kube e)) :
    Written κ result s o t := by
  cases result with
  | ok p =>
    cases hx
    rcases ho with ⟨v, -, rfl⟩ | ⟨e, he, -⟩
    · exact .inl ⟨p.1, p.2, rfl, rfl, rfl⟩
    · cases he
  | error e =>
    cases hx
    rcases ho with ⟨v, hv, -⟩ | ⟨e', he, rfl⟩
    · cases hv
    · cases he
      exact .inr ⟨_, rfl, rfl, rfl⟩

theorem ends_commit {v : Object κ} {writer : Writer} {o : Outcome Error Unit}
    (h : (commit v writer).Ends (Served w) s o t) :
    Written κ ((s.kube κ).replace v) s o t := by
  obtain ⟨x, a, hx, ho⟩ := ends_kubeCall_drop h
  exact written_of_store hx ho

theorem ends_setStatus {v : Object κ} {status : κ.Status} {writer : Writer}
    {o : Outcome Error Unit} (h : (setStatus v status writer).Ends (Served w) s o t) :
    Written κ ((s.kube κ).replaceStatus v.key v.version status) s o t := by
  obtain ⟨x, a, hx, ho⟩ := ends_kubeCall_drop h
  exact written_of_store hx ho

theorem ends_choose {l : List α} {o : Outcome Error (Option α)}
    (h : (choose l).Ends (Served w) s o t) :
    t = s ∧ ((l = [] ∧ o = .ok none) ∨ ∃ a ∈ l, o = .ok (some a)) := by
  cases l with
  | nil =>
    obtain ⟨rfl, rfl⟩ := h
    exact ⟨rfl, .inl ⟨rfl, rfl⟩⟩
  | cons a l =>
    obtain ⟨i, s₁, ⟨x, -, hx⟩, rfl, rfl⟩ := h
    simp only [World.answer] at hx
    split at hx
    · next hlt =>
      cases hx
      exact ⟨rfl, .inr ⟨(a :: l)[x.pick], List.getElem_mem hlt, by rw [List.getElem?_eq_getElem hlt]⟩⟩
    · cases hx

end Calls

/-! ## Programs that end -/

/-- The request can be served in every state, and leaves the scheduler mutex alone. -/
def Ready : Request → Prop
  | .kube _ => True
  | .scheduleSpan _ => True
  | .newV4 => True
  | .choose bound => 0 < bound
  | _ => False

/-- A program all of whose requests can be served. -/
abbrev IsReady {α : Type} (p : Prog α) : Prop := p.Within Ready fun _ => True

section Ready

variable {w : Worker} {s : World} {α β : Type} {κ : Kind} {p : Prog α} {f : α → Prog β}

theorem served_of_ready {r : Request} (h : Ready r) :
    ∃ a t, Served w s r a t ∧ t.scheduler = s.scheduler := by
  cases r with
  | kube q => exact ⟨_, _, ⟨{}, rfl, rfl⟩, (World.frame_serveKube s {} q).scheduler nofun nofun⟩
  | scheduleSpan b => exact ⟨(), s, ⟨{}, rfl, rfl⟩, rfl⟩
  | newV4 => exact ⟨"", s, ⟨{}, rfl, rfl⟩, rfl⟩
  | choose bound =>
    refine ⟨0, s, ⟨{}, rfl, ?_⟩, rfl⟩
    have hb : 0 < bound := h
    simp only [World.answer]
    rw [if_pos hb]
  | lockSchedule => exact h.elim
  | unlockSchedule => exact h.elim
  | libvirt host q => exact h.elim
  | bridge host args => exact h.elim
  | ceph q => exact h.elim
  | ovnConnect address port => exact h.elim
  | transact operations => exact h.elim

theorem IsReady.exists_ends (h : IsReady p) {holder : Option Worker} (hs : s.scheduler = holder) :
    ∃ o t, p.Ends (Served w) s o t ∧ t.scheduler = holder := by
  refine Within.exists_ends h (I := fun s : World => s.scheduler = holder) (fun s r hr hs => ?_) hs
  obtain ⟨a, t, ht, he⟩ := served_of_ready (w := w) (s := s) hr
  exact ⟨a, t, ht, he.trans hs⟩

theorem IsReady.bind (hp : IsReady p) (hf : ∀ a, IsReady (f a)) : IsReady (p >>= f) :=
  Within.bind hp fun a _ => hf a

theorem ready_ask {r : Request} (h : Ready r) : IsReady (ask r) := ⟨h, fun _ => trivial⟩

theorem ready_kubeCall (r : KubeRequest) : IsReady (kubeCall r) := by
  refine ⟨trivial, fun x => ?_⟩
  cases x <;> trivial

theorem ready_choose (l : List α) : IsReady (choose l) := by
  cases l with
  | nil => trivial
  | cons a l => exact ⟨Nat.succ_pos _, fun _ => trivial⟩

theorem ready_commit (o : Object κ) (writer : Writer) : IsReady (commit o writer) :=
  .bind (ready_kubeCall _) fun _ => trivial

theorem ready_setStatus (o : Object κ) (status : κ.Status) (writer : Writer) :
    IsReady (setStatus o status writer) :=
  .bind (ready_kubeCall _) fun _ => trivial

end Ready

/-! ## One reconcile after another -/

/-- What happens while no two reconciles overlap: a worker reconciles the stored version of
its object from beginning to end, or something else happens. -/
inductive Deed : Type
  | turn (w : Worker)
  | happen (e : WorldEvent)

/-- How the requests of the workers are carried out. -/
abbrev Execution := Worker → World → (r : Request) → r.Answer → World → Prop

/-- Requests are served, on a condition. -/
def servedIf (ok : Worker → World → Request → Prop) : Execution :=
  fun w s r a t => Served w s r a t ∧ ok w s r

/-- Any request. -/
abbrev anyRequest : Worker → World → Request → Prop := fun _ _ _ => True

/-- Any deed. -/
abbrev anyDeed : World → Deed → Prop := fun _ _ => True

/-- The worker has started from a version. -/
def World.started (s : World) (w : Worker) (version : Nat) : World :=
  { s with seen := Function.update s.seen w version }

/-- A choice for every request: new rows are called by what they hold. -/
def plainChoice : Request → Choice
  | .transact operations => { fresh := operations.filterMap newUuid }
  | .newV4 => { text := "id" }
  | _ => {}
where
  newUuid : Ovsdb.Operation → Option String
    | .insert table row _ => some (row.foldl (fun u e => u ++ "/" ++ rowText e.2) table)
    | _ => none
  rowText : Ovsdb.Datum Ovsdb.Ref → String
    | .strings l => ",".intercalate l
    | _ => ""

theorem served_plain {w : Worker} {s t : World} {r : Request} {a : r.Answer}
    (h : World.answer w s r (plainChoice r) = some (a, t)) : Served w s r a t := by
  refine ⟨plainChoice r, ?_, h⟩
  unfold plainChoice
  split <;> rfl

section Serial

variable [Crates] {exec : Execution} {allowed : World → Deed → Prop}

/-- The worker reconciles the stored object, and ends as `o`. -/
def Turn (exec : Execution) (w : Worker) (s : World) (o : Outcome Error Unit) (t : World) : Prop :=
  ∃ v, (s.kube w.kind).find? w.key = some v ∧
    (w.reconcile v).Ends (exec w) (s.started w v.version) o t

/-- The effect of a deed. -/
def Deed.Does (exec : Execution) (s : World) : Deed → World → Prop
  | .turn w, t => ∃ o, Turn exec w s o t
  | .happen e, t => s.happen e = some t

/-- A run of allowed deeds. -/
def Serial (exec : Execution) (allowed : World → Deed → Prop) : World → World → Prop :=
  Relation.ReflTransGen fun s t => ∃ d, allowed s d ∧ d.Does exec s t

/-- The deed with these choices, if all requests are allowed. -/
def Deed.perform (ok : Worker → World → Request → Prop) [∀ w s r, Decidable (ok w s r)] (s : World) :
    Deed → Option World
  | .turn w =>
    match (s.kube w.kind).find? w.key with
    | some v =>
      let serve := fun s r => if ok w s r then World.answer w s r (plainChoice r) else none
      ((w.reconcile v).runWith serve (s.started w v.version)).map Prod.snd
    | none => none
  | .happen e => s.happen e

/-- Perform deeds one after another. -/
def performAll (ok : Worker → World → Request → Prop) [∀ w s r, Decidable (ok w s r)]
    (allowed : World → Deed → Prop) [∀ s d, Decidable (allowed s d)] :
    World → List Deed → Option World
  | s, [] => some s
  | s, d :: ds =>
    if allowed s d then
      match d.perform ok s with
      | some t => performAll ok allowed t ds
      | none => none
    else none

variable {ok : Worker → World → Request → Prop}

theorem Serial.mono {exec' : Execution} {allowed' : World → Deed → Prop} {s t : World}
    (he : ∀ w s r a t, exec w s r a t → exec' w s r a t) (ha : ∀ s d, allowed s d → allowed' s d)
    (h : Serial exec allowed s t) : Serial exec' allowed' s t := by
  refine Relation.ReflTransGen.mono ?_ _ _ h
  rintro s t ⟨d, hd, hdoes⟩
  refine ⟨d, ha s d hd, ?_⟩
  cases d with
  | happen e => exact hdoes
  | turn w =>
    obtain ⟨o, v, hv, hends⟩ := hdoes
    exact ⟨o, v, hv, hends.mono (he w)⟩

theorem does_of_perform [∀ w s r, Decidable (ok w s r)] {s t : World} {d : Deed}
    (h : d.perform ok s = some t) : d.Does (servedIf ok) s t := by
  cases d with
  | happen e => exact h
  | turn w =>
    simp only [Deed.perform] at h
    split at h
    · next v hv =>
      obtain ⟨⟨o, u⟩, hrun, rfl⟩ := Option.map_eq_some_iff.mp h
      refine ⟨o, v, hv, Program.ends_of_runWith (fun s r a t ha => ?_) hrun⟩
      split at ha
      · next hok => exact ⟨served_plain ha, hok⟩
      · cases ha
    · cases h

theorem serial_of_perform [∀ w s r, Decidable (ok w s r)] [∀ s d, Decidable (allowed s d)]
    {s t : World} {ds : List Deed} (h : performAll ok allowed s ds = some t) :
    Serial (servedIf ok) allowed s t := by
  induction ds generalizing s with
  | nil =>
    cases h
    exact .refl
  | cons d ds ih =>
    simp only [performAll] at h
    split at h
    · next ha =>
      split at h
      · next u hu => exact .head ⟨d, ha, does_of_perform hu⟩ (ih h)
      · cases h
    · cases h

end Serial

end ClusterController
