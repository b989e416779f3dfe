import Mathlib

/-!
# Programs as trees of requests

A program that talks to the outside world is a tree: it returns a result, fails
with an error its caller may handle, aborts (a panic, which no caller handles), or
makes one request and continues with the answer. A function written in `do`
notation over this type is a program text with no meaning fixed for its requests.
The meaning comes from the state that answers them.

* `Program.Within`: every request a program can make, whatever the answers, and
  every result it can return, satisfies a given property.
* `Program.Ends`: the program run alone on a state, one request after the other.
-/

namespace Interaction

variable {Req : Type} {Resp : Req → Type} {ε α β γ ι : Type}

/-- A tree of requests with results `α` and errors `ε`. -/
inductive Program (Req : Type) (Resp : Req → Type) (ε α : Type) : Type
  | ret (a : α)
  | fail (e : ε)
  | abort (msg : String)
  | call (r : Req) (k : Resp r → Program Req Resp ε α)

namespace Program

/-- Sequencing. An error or an abort of the first part ends the whole. -/
def bind : Program Req Resp ε α → (α → Program Req Resp ε β) → Program Req Resp ε β
  | .ret a, f => f a
  | .fail e, _ => .fail e
  | .abort m, _ => .abort m
  | .call r k, f => .call r fun x => (k x).bind f

instance : Monad (Program Req Resp ε) where
  pure := ret
  bind := bind

@[simp] theorem pure_eq (a : α) : (pure a : Program Req Resp ε α) = ret a := rfl

@[simp] theorem ret_bind (a : α) (f : α → Program Req Resp ε β) : (ret a >>= f) = f a := rfl

@[simp] theorem fail_bind (e : ε) (f : α → Program Req Resp ε β) :
    ((fail e : Program Req Resp ε α) >>= f) = fail e := rfl

@[simp] theorem abort_bind (m : String) (f : α → Program Req Resp ε β) :
    ((abort m : Program Req Resp ε α) >>= f) = abort m := rfl

@[simp] theorem call_bind (r : Req) (k : Resp r → Program Req Resp ε α)
    (f : α → Program Req Resp ε β) : (call r k >>= f) = call r fun x => k x >>= f := rfl

theorem bind_assoc' (p : Program Req Resp ε α) (f : α → Program Req Resp ε β)
    (g : β → Program Req Resp ε γ) : (p >>= f >>= g) = p >>= fun a => f a >>= g := by
  induction p with
  | ret a => rfl
  | fail e => rfl
  | abort m => rfl
  | call r k ih => exact congrArg (call r) (funext ih)

theorem bind_ret (p : Program Req Resp ε α) : (p >>= ret) = p := by
  induction p with
  | ret a => rfl
  | fail e => rfl
  | abort m => rfl
  | call r k ih => exact congrArg (call r) (funext ih)

instance : LawfulMonad (Program Req Resp ε) :=
  LawfulMonad.mk' _ (fun p => bind_ret p) (fun _ _ => rfl) bind_assoc'

/-- One request, whose answer is the result. -/
def request (r : Req) : Program Req Resp ε (Resp r) := call r ret

/-- An answer that is itself a result or an error. -/
def ofExcept : Except ε α → Program Req Resp ε α
  | .ok a => ret a
  | .error e => fail e

instance : MonadLift (Except ε) (Program Req Resp ε) := ⟨ofExcept⟩

@[simp] theorem ofExcept_ok (a : α) :
    (ofExcept (.ok a) : Program Req Resp ε α) = ret a := rfl

@[simp] theorem ofExcept_error (e : ε) :
    (ofExcept (.error e) : Program Req Resp ε α) = fail e := rfl

/-- Keep an error as a value. An abort goes through. -/
def attempt : Program Req Resp ε α → Program Req Resp ε (Except ε α)
  | .ret a => ret (.ok a)
  | .fail e => ret (.error e)
  | .abort m => abort m
  | .call r k => call r fun x => (k x).attempt

/-- The request that the program makes next. -/
def next? : Program Req Resp ε α → Option Req
  | .call r _ => some r
  | _ => none

/-- Run `body` between `acquire` and `release`, which is made on success and on error. -/
def bracket (acquire : Program Req Resp ε Unit) (body : Program Req Resp ε α)
    (release : Program Req Resp ε Unit) : Program Req Resp ε α := do
  acquire
  let result ← body.attempt
  release
  ofExcept result

/-- Run `f` on every element, in order. -/
def forEach : List ι → (ι → Program Req Resp ε Unit) → Program Req Resp ε Unit
  | [], _ => ret ()
  | i :: is, f => do
    f i
    forEach is f

/-- Run `f` on every element, in order, and keep the results. -/
def collect : List ι → (ι → Program Req Resp ε α) → Program Req Resp ε (List α)
  | [], _ => ret []
  | i :: is, f => do
    let a ← f i
    let as ← collect is f
    ret (a :: as)

/-! ## Programs that have ended -/

theorem bind_eq_ret {p : Program Req Resp ε α} {f : α → Program Req Resp ε β} {b : β} :
    (p >>= f) = ret b ↔ ∃ a, p = ret a ∧ f a = ret b := by
  constructor
  · intro h
    cases p with
    | ret a => exact ⟨a, rfl, h⟩
    | fail e => cases h
    | abort m => cases h
    | call r k => cases h
  · rintro ⟨a, rfl, h⟩
    exact h

theorem bind_eq_fail {p : Program Req Resp ε α} {f : α → Program Req Resp ε β} {e : ε} :
    (p >>= f) = fail e ↔ p = fail e ∨ ∃ a, p = ret a ∧ f a = fail e := by
  constructor
  · intro h
    cases p with
    | ret a => exact .inr ⟨a, rfl, h⟩
    | fail e' =>
      cases h
      exact .inl rfl
    | abort m => cases h
    | call r k => cases h
  · rintro (rfl | ⟨a, rfl, h⟩)
    · rfl
    · exact h

/-- A loop returns if every round does. -/
theorem collect_eq_ret {l : List ι} {f : ι → Program Req Resp ε α} {as : List α} :
    collect l f = ret as ↔ List.Forall₂ (fun i a => f i = ret a) l as := by
  induction l generalizing as with
  | nil =>
    rw [List.forall₂_nil_left_iff]
    constructor
    · intro h
      cases h
      rfl
    · rintro rfl
      rfl
  | cons i is ih =>
    rw [List.forall₂_cons_left_iff]
    constructor
    · intro h
      obtain ⟨a, ha, h⟩ := bind_eq_ret.mp h
      obtain ⟨as', has, h⟩ := bind_eq_ret.mp h
      cases h
      exact ⟨a, as', ha, ih.mp has, rfl⟩
    · rintro ⟨a, as', ha, has, rfl⟩
      exact bind_eq_ret.mpr ⟨a, ha, bind_eq_ret.mpr ⟨as', ih.mpr has, rfl⟩⟩

theorem exists_collect_eq_ret {l : List ι} {f : ι → Program Req Resp ε α} :
    (∃ as, collect l f = ret as) ↔ ∀ i ∈ l, ∃ a, f i = ret a := by
  induction l with
  | nil => exact ⟨fun _ => by simp, fun _ => ⟨[], rfl⟩⟩
  | cons i is ih =>
    rw [List.forall_mem_cons, ← ih]
    constructor
    · rintro ⟨as, h⟩
      obtain ⟨a, ha, h⟩ := bind_eq_ret.mp h
      obtain ⟨as', has, -⟩ := bind_eq_ret.mp h
      exact ⟨⟨a, ha⟩, as', has⟩
    · rintro ⟨⟨a, ha⟩, as, has⟩
      exact ⟨a :: as, bind_eq_ret.mpr ⟨a, ha, bind_eq_ret.mpr ⟨as, has, rfl⟩⟩⟩

/-- A loop fails in the first round that does not return. -/
theorem collect_eq_fail {l : List ι} {f : ι → Program Req Resp ε α} {e : ε} :
    collect l f = fail e ↔ ∃ before i after, l = before ++ i :: after ∧
      (∀ j ∈ before, ∃ a, f j = ret a) ∧ f i = fail e := by
  induction l with
  | nil =>
    constructor
    · intro h
      cases h
    · rintro ⟨before, i, after, h, -⟩
      cases before <;> cases h
  | cons j js ih =>
    constructor
    · intro h
      rcases bind_eq_fail.mp h with h | ⟨a, ha, h⟩
      · exact ⟨[], j, js, rfl, by simp, h⟩
      · rcases bind_eq_fail.mp h with h | ⟨as, -, h⟩
        · obtain ⟨before, i, after, rfl, hb, hi⟩ := ih.mp h
          exact ⟨j :: before, i, after, rfl, List.forall_mem_cons.mpr ⟨⟨a, ha⟩, hb⟩, hi⟩
        · cases h
    · rintro ⟨before, i, after, hl, hb, hi⟩
      cases before with
      | nil =>
        cases hl
        exact bind_eq_fail.mpr (.inl hi)
      | cons j' before =>
        cases hl
        obtain ⟨⟨a, ha⟩, hb⟩ := List.forall_mem_cons.mp hb
        exact bind_eq_fail.mpr (.inr ⟨a, ha, bind_eq_fail.mpr
          (.inl (ih.mpr ⟨before, i, after, rfl, hb, hi⟩))⟩)

/-! ## What a program can ask and return -/

/-- Every request of the program satisfies `ask` and every result satisfies `done`,
whatever the answers are. -/
def Within (ask : Req → Prop) : (α → Prop) → Program Req Resp ε α → Prop
  | done, .ret a => done a
  | _, .fail _ => True
  | _, .abort _ => True
  | done, .call r k => ask r ∧ ∀ x, (k x).Within ask done

variable {ask : Req → Prop} {done : α → Prop}

@[simp] theorem within_ret {a : α} :
    (ret a : Program Req Resp ε α).Within ask done ↔ done a := Iff.rfl

@[simp] theorem within_fail {e : ε} :
    (fail e : Program Req Resp ε α).Within ask done := trivial

@[simp] theorem within_abort {m : String} :
    (abort m : Program Req Resp ε α).Within ask done := trivial

@[simp] theorem within_call {r : Req} {k : Resp r → Program Req Resp ε α} :
    (call r k).Within ask done ↔ ask r ∧ ∀ x, (k x).Within ask done := Iff.rfl

theorem Within.mono {p : Program Req Resp ε α} {ask' : Req → Prop} {done' : α → Prop}
    (h : p.Within ask done) (ha : ∀ r, ask r → ask' r) (hd : ∀ a, done a → done' a) :
    p.Within ask' done' := by
  induction p with
  | ret a => exact hd a h
  | fail e => trivial
  | abort m => trivial
  | call r k ih => exact ⟨ha r h.1, fun x => ih x (h.2 x)⟩

theorem within_any (p : Program Req Resp ε α) : p.Within (fun _ => True) fun _ => True := by
  induction p with
  | ret a => trivial
  | fail e => trivial
  | abort m => trivial
  | call r k ih => exact ⟨trivial, ih⟩

theorem Within.bind {p : Program Req Resp ε α} {f : α → Program Req Resp ε β} {post : β → Prop}
    (hp : p.Within ask done) (hf : ∀ a, done a → (f a).Within ask post) :
    (p >>= f).Within ask post := by
  induction p with
  | ret a => exact hf a hp
  | fail e => trivial
  | abort m => trivial
  | call r k ih => exact ⟨hp.1, fun x => ih x (hp.2 x)⟩

theorem Within.attempt {p : Program Req Resp ε α}
    (h : p.Within ask done) :
    p.attempt.Within ask fun r => ∀ a, r = .ok a → done a := by
  induction p with
  | ret a => intro b hb; cases hb; exact h
  | fail e => intro b hb; cases hb
  | abort m => trivial
  | call r k ih => exact ⟨h.1, fun x => ih x (h.2 x)⟩

theorem within_ofExcept {x : Except ε α} (h : ∀ a, x = .ok a → done a) :
    (ofExcept x : Program Req Resp ε α).Within ask done := by
  cases x with
  | ok a => exact h a rfl
  | error e => trivial

theorem within_forEach {l : List ι} {f : ι → Program Req Resp ε Unit}
    (h : ∀ i ∈ l, (f i).Within ask fun _ => True) :
    (forEach l f).Within ask fun _ => True := by
  induction l with
  | nil => trivial
  | cons i is ih =>
    exact (h i List.mem_cons_self).bind fun _ _ =>
      ih fun j hj => h j (List.mem_cons_of_mem i hj)

theorem within_collect {l : List ι} {f : ι → Program Req Resp ε α}
    (h : ∀ i ∈ l, (f i).Within ask done) :
    (collect l f).Within ask fun as => ∀ a ∈ as, done a := by
  induction l with
  | nil => intro a ha; cases ha
  | cons i is ih =>
    refine (h i List.mem_cons_self).bind fun a ha => ?_
    refine (ih fun j hj => h j (List.mem_cons_of_mem i hj)).bind fun as has => ?_
    intro b hb
    rcases List.mem_cons.mp hb with rfl | hb
    · exact ha
    · exact has b hb

/-! ## Programs that do not panic -/

/-- The program can return the result, with answers that are proper. -/
def CanReturn (proper : (r : Req) → Resp r → Prop) : Program Req Resp ε α → α → Prop
  | .ret b, a => b = a
  | .fail _, _ => False
  | .abort _, _ => False
  | .call r k, a => ∃ x, proper r x ∧ (k x).CanReturn proper a

/-- The program never panics, as long as the answers are proper. -/
def Sturdy (proper : (r : Req) → Resp r → Prop) : Program Req Resp ε α → Prop
  | .ret _ => True
  | .fail _ => True
  | .abort _ => False
  | .call r k => ∀ x, proper r x → (k x).Sturdy proper

section Sturdy

variable {proper : (r : Req) → Resp r → Prop}

@[simp] theorem sturdy_ret {a : α} : (ret a : Program Req Resp ε α).Sturdy proper := trivial

@[simp] theorem sturdy_fail {e : ε} : (fail e : Program Req Resp ε α).Sturdy proper := trivial

@[simp] theorem sturdy_abort {m : String} :
    ¬(abort m : Program Req Resp ε α).Sturdy proper := id

/-- A sequence is sturdy if its first part is, and its second part for every result of the
first. -/
theorem sturdy_bind {p : Program Req Resp ε α} {f : α → Program Req Resp ε β} :
    (p >>= f).Sturdy proper ↔
      p.Sturdy proper ∧ ∀ a, p.CanReturn proper a → (f a).Sturdy proper := by
  induction p with
  | ret a => exact ⟨fun h => ⟨trivial, fun b hb => hb ▸ h⟩, fun h => h.2 a rfl⟩
  | fail e => exact ⟨fun _ => ⟨trivial, nofun⟩, fun _ => trivial⟩
  | abort m => exact ⟨fun h => h.elim, fun h => h.1⟩
  | call r k ih =>
    constructor
    · intro h
      refine ⟨fun x hx => ((ih x).mp (h x hx)).1, ?_⟩
      rintro a ⟨x, hx, ha⟩
      exact ((ih x).mp (h x hx)).2 a ha
    · rintro ⟨hp, hf⟩ x hx
      exact (ih x).mpr ⟨hp x hx, fun a ha => hf a ⟨x, hx, ha⟩⟩

theorem Sturdy.bind {p : Program Req Resp ε α} {f : α → Program Req Resp ε β}
    (hp : p.Sturdy proper) (hf : ∀ a, (f a).Sturdy proper) : (p >>= f).Sturdy proper :=
  sturdy_bind.mpr ⟨hp, fun a _ => hf a⟩

theorem Sturdy.attempt {p : Program Req Resp ε α} (h : p.Sturdy proper) :
    p.attempt.Sturdy proper := by
  induction p with
  | ret a => trivial
  | fail e => trivial
  | abort m => exact h
  | call r k ih => exact fun x hx => ih x (h x hx)

theorem canReturn_bind {p : Program Req Resp ε α} {f : α → Program Req Resp ε β} {b : β} :
    (p >>= f).CanReturn proper b ↔ ∃ a, p.CanReturn proper a ∧ (f a).CanReturn proper b := by
  induction p with
  | ret a => exact ⟨fun h => ⟨a, rfl, h⟩, fun ⟨_, ha, h⟩ => ha ▸ h⟩
  | fail e => exact ⟨nofun, nofun⟩
  | abort m => exact ⟨nofun, nofun⟩
  | call r k ih =>
    constructor
    · rintro ⟨x, hx, h⟩
      obtain ⟨a, ha, hb⟩ := (ih x).mp h
      exact ⟨a, ⟨x, hx, ha⟩, hb⟩
    · rintro ⟨a, ⟨x, hx, ha⟩, hb⟩
      exact ⟨x, hx, (ih x).mpr ⟨a, ha, hb⟩⟩

/-- The results of a loop come from its rounds. -/
theorem mem_of_canReturn_collect {l : List ι} {f : ι → Program Req Resp ε α} {as : List α} {a : α}
    (h : (collect l f).CanReturn proper as) (ha : a ∈ as) : ∃ i ∈ l, (f i).CanReturn proper a := by
  induction l generalizing as with
  | nil =>
    cases h
    cases ha
  | cons i is ih =>
    obtain ⟨b, hb, h⟩ := canReturn_bind.mp h
    obtain ⟨bs, hbs, rfl⟩ := canReturn_bind.mp h
    rcases List.mem_cons.mp ha with rfl | ha
    · exact ⟨i, List.mem_cons_self, hb⟩
    · obtain ⟨j, hj, hr⟩ := ih hbs ha
      exact ⟨j, List.mem_cons_of_mem _ hj, hr⟩

theorem exists_canReturn_collect {l : List ι} {f : ι → Program Req Resp ε α} :
    (∃ as, (collect l f).CanReturn proper as) ↔ ∀ i ∈ l, ∃ a, (f i).CanReturn proper a := by
  induction l with
  | nil => exact ⟨fun _ => nofun, fun _ => ⟨[], rfl⟩⟩
  | cons i is ih =>
    rw [List.forall_mem_cons, ← ih]
    constructor
    · rintro ⟨as, h⟩
      obtain ⟨a, ha, h⟩ := canReturn_bind.mp h
      obtain ⟨as', has, -⟩ := canReturn_bind.mp h
      exact ⟨⟨a, ha⟩, as', has⟩
    · rintro ⟨⟨a, ha⟩, as, has⟩
      exact ⟨a :: as, canReturn_bind.mpr ⟨a, ha, canReturn_bind.mpr ⟨as, has, rfl⟩⟩⟩

/-- A loop is sturdy if every round is that comes after rounds which can all return. -/
theorem sturdy_collect {l : List ι} {f : ι → Program Req Resp ε α} :
    (collect l f).Sturdy proper ↔ ∀ before i after, l = before ++ i :: after →
      (∀ j ∈ before, ∃ a, (f j).CanReturn proper a) → (f i).Sturdy proper := by
  induction l with
  | nil =>
    refine ⟨fun _ before i after h => ?_, fun _ => trivial⟩
    cases before <;> cases h
  | cons j js ih =>
    unfold collect
    rw [sturdy_bind]
    constructor
    · rintro ⟨hj, hrest⟩ before i after h hr
      cases before with
      | nil =>
        cases h
        exact hj
      | cons b bs =>
        cases h
        obtain ⟨a, ha⟩ := hr j List.mem_cons_self
        exact ih.mp (sturdy_bind.mp (hrest a ha)).1 bs i after rfl fun k hk =>
          hr k (List.mem_cons_of_mem _ hk)
    · intro h
      refine ⟨h [] j js rfl nofun, fun a ha => Sturdy.bind (ih.mpr ?_) fun _ => trivial⟩
      intro before i after hl hr
      refine h (j :: before) i after (by rw [hl, List.cons_append]) fun k hk => ?_
      rcases List.mem_cons.mp hk with rfl | hk
      · exact ⟨a, ha⟩
      · exact hr k hk

end Sturdy

/-! ## A program run alone -/

/-- How a program that ended did end. -/
inductive Outcome (ε α : Type) : Type
  | ok (a : α)
  | err (e : ε)
  | aborted (msg : String)

/-- How a result ends a program. -/
def Outcome.of : Except ε α → Outcome ε α
  | .ok a => .ok a
  | .error e => .err e

/-- `Ends exec p s o t`: run alone from the state `s`, the program ends as `o` in the
state `t`. `exec s r x t` says that `s` can answer the request `r` by `x` and become `t`. -/
def Ends {σ : Type} (exec : σ → (r : Req) → Resp r → σ → Prop) :
    Program Req Resp ε α → σ → Outcome ε α → σ → Prop
  | .ret a, s, o, t => o = .ok a ∧ t = s
  | .fail e, s, o, t => o = .err e ∧ t = s
  | .abort m, s, o, t => o = .aborted m ∧ t = s
  | .call r k, s, o, t => ∃ x s₁, exec s r x s₁ ∧ (k x).Ends exec s₁ o t

section Ends

variable {σ : Type} {exec : σ → (r : Req) → Resp r → σ → Prop}

@[simp] theorem ends_ret {a : α} {s t : σ} {o : Outcome ε α} :
    (ret a : Program Req Resp ε α).Ends exec s o t ↔ o = .ok a ∧ t = s := Iff.rfl

@[simp] theorem ends_fail {e : ε} {s t : σ} {o : Outcome ε α} :
    (fail e : Program Req Resp ε α).Ends exec s o t ↔ o = .err e ∧ t = s := Iff.rfl

@[simp] theorem ends_abort {m : String} {s t : σ} {o : Outcome ε α} :
    (abort m : Program Req Resp ε α).Ends exec s o t ↔ o = .aborted m ∧ t = s := Iff.rfl

@[simp] theorem ends_call {r : Req} {k : Resp r → Program Req Resp ε α} {s t : σ}
    {o : Outcome ε α} :
    (call r k).Ends exec s o t ↔ ∃ x s₁, exec s r x s₁ ∧ (k x).Ends exec s₁ o t := Iff.rfl

theorem Ends.mono {exec' : σ → (r : Req) → Resp r → σ → Prop}
    (he : ∀ s r x t, exec s r x t → exec' s r x t) {p : Program Req Resp ε α} {s t : σ}
    {o : Outcome ε α} (h : p.Ends exec s o t) : p.Ends exec' s o t := by
  induction p generalizing s with
  | ret a => exact h
  | fail e => exact h
  | abort m => exact h
  | call r k ih =>
    obtain ⟨x, s₁, hx, hk⟩ := h
    exact ⟨x, s₁, he _ _ _ _ hx, ih x hk⟩

/-- A sequence ends through its first part: either that part returned and the rest ended
so, or the first part ended the whole. -/
theorem ends_bind {p : Program Req Resp ε α} {f : α → Program Req Resp ε β} {s t : σ}
    {o : Outcome ε β} :
    (p >>= f).Ends exec s o t ↔
      (∃ a s₁, p.Ends exec s (.ok a) s₁ ∧ (f a).Ends exec s₁ o t) ∨
      (∃ e, p.Ends exec s (.err e) t ∧ o = .err e) ∨
      (∃ m, p.Ends exec s (.aborted m) t ∧ o = .aborted m) := by
  induction p generalizing s with
  | ret a => simp [and_assoc]
  | fail e => simp [and_assoc, and_comm]
  | abort m => simp [and_assoc, and_comm]
  | call r k ih =>
    simp only [call_bind, ends_call, ih]
    constructor
    · rintro ⟨x, s₁, hx, ⟨a, s₂, ha, hf⟩ | ⟨e, he, ho⟩ | ⟨m, hm, ho⟩⟩
      · exact .inl ⟨a, s₂, ⟨x, s₁, hx, ha⟩, hf⟩
      · exact .inr (.inl ⟨e, ⟨x, s₁, hx, he⟩, ho⟩)
      · exact .inr (.inr ⟨m, ⟨x, s₁, hx, hm⟩, ho⟩)
    · rintro (⟨a, s₂, ⟨x, s₁, hx, ha⟩, hf⟩ | ⟨e, ⟨x, s₁, hx, he⟩, ho⟩ | ⟨m, ⟨x, s₁, hx, hm⟩, ho⟩)
      · exact ⟨x, s₁, hx, .inl ⟨a, s₂, ha, hf⟩⟩
      · exact ⟨x, s₁, hx, .inr (.inl ⟨e, he, ho⟩)⟩
      · exact ⟨x, s₁, hx, .inr (.inr ⟨m, hm, ho⟩)⟩

/-- After a part that returns a known result and changes nothing. -/
theorem ends_bind_of_reads {p : Program Req Resp ε α} {f : α → Program Req Resp ε β} {s t : σ}
    {o : Outcome ε β} {a : α} (hp : ∀ o t, p.Ends exec s o t → o = .ok a ∧ t = s)
    (h : (p >>= f).Ends exec s o t) : (f a).Ends exec s o t := by
  rcases ends_bind.mp h with ⟨b, s₁, hb, hf⟩ | ⟨e, he, -⟩ | ⟨m, hm, -⟩
  · obtain ⟨ho, rfl⟩ := hp _ _ hb
    cases ho
    exact hf
  · cases (hp _ _ he).1
  · cases (hp _ _ hm).1

theorem ends_attempt {p : Program Req Resp ε α} {s t : σ} {o : Outcome ε (Except ε α)} :
    p.attempt.Ends exec s o t ↔
      (∃ a, p.Ends exec s (.ok a) t ∧ o = .ok (.ok a)) ∨
      (∃ e, p.Ends exec s (.err e) t ∧ o = .ok (.error e)) ∨
      (∃ m, p.Ends exec s (.aborted m) t ∧ o = .aborted m) := by
  induction p generalizing s with
  | ret a => simp [attempt, and_assoc, and_comm]
  | fail e => simp [attempt, and_assoc, and_comm]
  | abort m => simp [attempt, and_assoc, and_comm]
  | call r k ih =>
    simp only [attempt, ends_call, ih]
    constructor
    · rintro ⟨x, s₁, hx, ⟨a, ha, ho⟩ | ⟨e, he, ho⟩ | ⟨m, hm, ho⟩⟩
      · exact .inl ⟨a, ⟨x, s₁, hx, ha⟩, ho⟩
      · exact .inr (.inl ⟨e, ⟨x, s₁, hx, he⟩, ho⟩)
      · exact .inr (.inr ⟨m, ⟨x, s₁, hx, hm⟩, ho⟩)
    · rintro (⟨a, ⟨x, s₁, hx, ha⟩, ho⟩ | ⟨e, ⟨x, s₁, hx, he⟩, ho⟩ | ⟨m, ⟨x, s₁, hx, hm⟩, ho⟩)
      · exact ⟨x, s₁, hx, .inl ⟨a, ha, ho⟩⟩
      · exact ⟨x, s₁, hx, .inr (.inl ⟨e, he, ho⟩)⟩
      · exact ⟨x, s₁, hx, .inr (.inr ⟨m, hm, ho⟩)⟩

/-- A run in a state with more in it is a run in what is seen of that state. -/
theorem Ends.map {τ : Type} {exec' : τ → (r : Req) → Resp r → τ → Prop} (view : σ → τ)
    (hx : ∀ s r x t, exec s r x t → exec' (view s) r x (view t)) {p : Program Req Resp ε α} {s t : σ}
    {o : Outcome ε α} (h : p.Ends exec s o t) : p.Ends exec' (view s) o (view t) := by
  induction p generalizing s with
  | ret a => exact ⟨h.1, congrArg view h.2⟩
  | fail e => exact ⟨h.1, congrArg view h.2⟩
  | abort m => exact ⟨h.1, congrArg view h.2⟩
  | call r k ih =>
    obtain ⟨x, s₁, hs, hk⟩ := h
    exact ⟨x, view s₁, hx _ _ _ _ hs, ih x hk⟩

/-- The rounds of a loop that returns: one after the other, each with its result. -/
inductive Rounds (exec : σ → (r : Req) → Resp r → σ → Prop) (f : ι → Program Req Resp ε α) :
    σ → List ι → List α → σ → Prop
  | nil {s : σ} : Rounds exec f s [] [] s
  | cons {s s₁ t : σ} {i : ι} {is : List ι} {a : α} {as : List α} :
      (f i).Ends exec s (.ok a) s₁ → Rounds exec f s₁ is as t → Rounds exec f s (i :: is) (a :: as) t

theorem rounds_of_collect {l : List ι} {f : ι → Program Req Resp ε α} {s t : σ} {as : List α}
    (h : (collect l f).Ends exec s (.ok as) t) : Rounds exec f s l as t := by
  induction l generalizing s as with
  | nil =>
    obtain ⟨ho, rfl⟩ := h
    cases ho
    exact .nil
  | cons i is ih =>
    rcases ends_bind.mp h with ⟨a, s₁, ha, h⟩ | ⟨e, -, ho⟩ | ⟨m, -, ho⟩
    · rcases ends_bind.mp h with ⟨bs, s₂, hbs, ho, rfl⟩ | ⟨e, -, ho⟩ | ⟨m, -, ho⟩
      · cases ho
        exact .cons ha (ih hbs)
      · cases ho
      · cases ho
    · cases ho
    · cases ho

/-- A program whose requests can all be answered ends. -/
theorem Within.exists_ends {p : Program Req Resp ε α} {I : σ → Prop} (h : p.Within ask done)
    (hans : ∀ s r, ask r → I s → ∃ x t, exec s r x t ∧ I t) {s : σ} (hs : I s) :
    ∃ o t, p.Ends exec s o t ∧ I t := by
  induction p generalizing s with
  | ret a => exact ⟨_, s, ⟨rfl, rfl⟩, hs⟩
  | fail e => exact ⟨_, s, ⟨rfl, rfl⟩, hs⟩
  | abort m => exact ⟨_, s, ⟨rfl, rfl⟩, hs⟩
  | call r k ih =>
    obtain ⟨x, s₁, hx, hs₁⟩ := hans s r h.1 hs
    obtain ⟨o, t, ho, ht⟩ := ih x (h.2 x) hs₁
    exact ⟨o, t, ⟨x, s₁, hx, ho⟩, ht⟩

/-- A sequence ends when its first part does, and its second part from where that ends. -/
theorem exists_ends_bind {p : Program Req Resp ε α} {f : α → Program Req Resp ε β}
    {I J : σ → Prop} {s : σ} (hp : ∃ o t, p.Ends exec s o t ∧ I t)
    (hi : ∀ t, I t → J t)
    (hf : ∀ a t, I t → ∃ o u, (f a).Ends exec t o u ∧ J u) :
    ∃ o t, (p >>= f).Ends exec s o t ∧ J t := by
  obtain ⟨o, t, ho, ht⟩ := hp
  cases o with
  | ok a =>
    obtain ⟨o', u, ho', hu⟩ := hf a t ht
    exact ⟨o', u, ends_bind.mpr (.inl ⟨a, t, ho, ho'⟩), hu⟩
  | err e => exact ⟨.err e, t, ends_bind.mpr (.inr (.inl ⟨e, ho, rfl⟩)), hi t ht⟩
  | aborted m => exact ⟨.aborted m, t, ends_bind.mpr (.inr (.inr ⟨m, ho, rfl⟩)), hi t ht⟩

/-- A relation that every allowed request keeps, from the starting state on, holds at the end. -/
theorem Within.ends_invariant {p : Program Req Resp ε α} {I : σ → Prop}
    (h : p.Within ask done) (hstep : ∀ s r x t, ask r → I s → exec s r x t → I t)
    {s t : σ} {o : Outcome ε α} (hs : I s) (he : p.Ends exec s o t) :
    I t ∧ ∀ a, o = .ok a → done a := by
  induction p generalizing s with
  | ret a =>
    obtain ⟨rfl, rfl⟩ := he
    exact ⟨hs, fun b hb => by cases hb; exact h⟩
  | fail e =>
    obtain ⟨rfl, rfl⟩ := he
    exact ⟨hs, fun b hb => by cases hb⟩
  | abort m =>
    obtain ⟨rfl, rfl⟩ := he
    exact ⟨hs, fun b hb => by cases hb⟩
  | call r k ih =>
    obtain ⟨x, s₁, hx, he⟩ := he
    exact ih x (h.2 x) (hstep s r x s₁ h.1 hs hx) he

/-! ### What a program asks for -/

/-- In a run from the state `s`, the program makes the request in the state `t`. -/
def Asks (exec : σ → (r : Req) → Resp r → σ → Prop) :
    Program Req Resp ε α → σ → Req → σ → Prop
  | .ret _, _, _, _ => False
  | .fail _, _, _, _ => False
  | .abort _, _, _, _ => False
  | .call r k, s, r', t =>
    (r' = r ∧ t = s) ∨ ∃ x s₁, exec s r x s₁ ∧ (k x).Asks exec s₁ r' t

section Asks

variable {s t : σ} {r : Req}

@[simp] theorem asks_ret {a : α} : ¬(ret a : Program Req Resp ε α).Asks exec s r t := id

@[simp] theorem asks_fail {e : ε} : ¬(fail e : Program Req Resp ε α).Asks exec s r t := id

@[simp] theorem asks_abort {m : String} :
    ¬(abort m : Program Req Resp ε α).Asks exec s r t := id

@[simp] theorem asks_call {r' : Req} {k : Resp r' → Program Req Resp ε α} :
    (call r' k).Asks exec s r t ↔
      (r = r' ∧ t = s) ∨ ∃ x s₁, exec s r' x s₁ ∧ (k x).Asks exec s₁ r t := Iff.rfl

theorem asks_request {r' : Req} :
    (request r' : Program Req Resp ε (Resp r')).Asks exec s r t ↔ r = r' ∧ t = s := by
  simp [request]

/-- A sequence asks for what its first part asks for, and then for what the rest does. -/
theorem asks_bind {p : Program Req Resp ε α} {f : α → Program Req Resp ε β} :
    (p >>= f).Asks exec s r t ↔
      p.Asks exec s r t ∨ ∃ a s₁, p.Ends exec s (.ok a) s₁ ∧ (f a).Asks exec s₁ r t := by
  induction p generalizing s with
  | ret a => simp [and_assoc]
  | fail e => simp
  | abort m => simp
  | call r' k ih =>
    simp only [call_bind, asks_call, ih, ends_call]
    constructor
    · rintro (h | ⟨x, s₁, hx, h | ⟨a, s₂, ha, h⟩⟩)
      · exact .inl (.inl h)
      · exact .inl (.inr ⟨x, s₁, hx, h⟩)
      · exact .inr ⟨a, s₂, ⟨x, s₁, hx, ha⟩, h⟩
    · rintro ((h | ⟨x, s₁, hx, h⟩) | ⟨a, s₂, ⟨x, s₁, hx, ha⟩, h⟩)
      · exact .inl h
      · exact .inr ⟨x, s₁, hx, .inl h⟩
      · exact .inr ⟨x, s₁, hx, .inr ⟨a, s₂, ha, h⟩⟩

theorem asks_attempt {p : Program Req Resp ε α} :
    p.attempt.Asks exec s r t ↔ p.Asks exec s r t := by
  induction p generalizing s with
  | ret a => simp [attempt]
  | fail e => simp [attempt]
  | abort m => simp [attempt]
  | call r' k ih => simp only [attempt, asks_call, ih]

/-- A program asks for nothing that is not within its bounds. -/
theorem Within.asks {p : Program Req Resp ε α} (h : p.Within ask done)
    (ha : p.Asks exec s r t) : ask r := by
  induction p generalizing s with
  | ret a => cases ha
  | fail e => cases ha
  | abort m => cases ha
  | call r' k ih =>
    rcases ha with ⟨rfl, -⟩ | ⟨x, s₁, -, hk⟩
    · exact h.1
    · exact ih x (h.2 x) hk

end Asks

/-! ### What holds afterwards -/

/-- Whenever the program, run alone from the state, has ended, `post` holds. -/
def After (exec : σ → (r : Req) → Resp r → σ → Prop) (p : Program Req Resp ε α) (s : σ)
    (post : Outcome ε α → σ → Prop) : Prop := ∀ o t, p.Ends exec s o t → post o t

section After

variable {post post' : Outcome ε α → σ → Prop} {s : σ}

theorem after_ret {a : α} (h : post (.ok a) s) :
    After exec (ret a : Program Req Resp ε α) s post := by
  rintro o t ⟨rfl, rfl⟩
  exact h

theorem after_fail {e : ε} (h : post (.err e) s) :
    After exec (fail e : Program Req Resp ε α) s post := by
  rintro o t ⟨rfl, rfl⟩
  exact h

theorem after_abort {m : String} (h : post (.aborted m) s) :
    After exec (abort m : Program Req Resp ε α) s post := by
  rintro o t ⟨rfl, rfl⟩
  exact h

theorem after_call {r : Req} {k : Resp r → Program Req Resp ε α}
    (h : ∀ x t, exec s r x t → After exec (k x) t post) : After exec (call r k) s post := by
  rintro o t ⟨x, s₁, hx, hk⟩
  exact h x s₁ hx o t hk

theorem After.mono {p : Program Req Resp ε α} (h : After exec p s post)
    (hp : ∀ o t, post o t → post' o t) : After exec p s post' := fun o t he => hp o t (h o t he)

/-- The first part establishes `mid`, which says what the rest starts from. -/
theorem After.bind {p : Program Req Resp ε α} {f : α → Program Req Resp ε β}
    {post' : Outcome ε β → σ → Prop} (hp : After exec p s post)
    (hok : ∀ a t, post (.ok a) t → After exec (f a) t post')
    (herr : ∀ e t, post (.err e) t → post' (.err e) t)
    (habort : ∀ m t, post (.aborted m) t → post' (.aborted m) t) :
    After exec (p >>= f) s post' := by
  intro o t h
  rcases ends_bind.mp h with ⟨a, s₁, ha, hf⟩ | ⟨e, he, rfl⟩ | ⟨m, hm, rfl⟩
  · exact hok a s₁ (hp _ _ ha) o t hf
  · exact herr e t (hp _ _ he)
  · exact habort m t (hp _ _ hm)

/-- A part that establishes the same however it ends. -/
theorem After.then {p : Program Req Resp ε α} {f : α → Program Req Resp ε β} {I : σ → Prop}
    {post' : Outcome ε β → σ → Prop} (hp : After exec p s fun _ t => I t)
    (hok : ∀ a t, I t → After exec (f a) t post') (hend : ∀ o t, I t → post' o t) :
    After exec (p >>= f) s post' :=
  hp.bind hok (fun _ t h => hend _ t h) fun _ t h => hend _ t h

/-- An invariant of a loop. -/
theorem after_forEach {l : List ι} {f : ι → Program Req Resp ε Unit} {I : σ → Prop}
    (hs : I s) (hf : ∀ i ∈ l, ∀ t, I t → After exec (f i) t fun _ u => I u) :
    After exec (forEach l f) s fun _ t => I t := by
  induction l generalizing s with
  | nil => exact after_ret hs
  | cons i is ih =>
    refine (hf i List.mem_cons_self s hs).then (fun _ t ht => ?_) fun _ _ h => h
    exact ih ht fun j hj => hf j (List.mem_cons_of_mem _ hj)

theorem after_collect {l : List ι} {f : ι → Program Req Resp ε α} {I : σ → Prop}
    (hs : I s) (hf : ∀ i ∈ l, ∀ t, I t → After exec (f i) t fun _ u => I u) :
    After exec (collect l f) s fun _ t => I t := by
  induction l generalizing s with
  | nil => exact after_ret hs
  | cons i is ih =>
    refine (hf i List.mem_cons_self s hs).then (fun a t ht => ?_) fun _ _ h => h
    refine (ih ht fun j hj => hf j (List.mem_cons_of_mem _ hj)).then (fun as u hu => ?_)
      fun _ _ h => h
    exact after_ret hu

end After

/-! ### Runs that are broken off -/

/-- A run of the program from the state `s` may be broken off in the state `t`. -/
def Reaches (exec : σ → (r : Req) → Resp r → σ → Prop) : Program Req Resp ε α → σ → σ → Prop
  | .ret _, s, t => t = s
  | .fail _, s, t => t = s
  | .abort _, s, t => t = s
  | .call r k, s, t => t = s ∨ ∃ x s₁, exec s r x s₁ ∧ (k x).Reaches exec s₁ t

/-- In every run from the state, `I` holds wherever the run may be broken off, and `post` at
its end. -/
def Always (exec : σ → (r : Req) → Resp r → σ → Prop) (I : σ → Prop)
    (post : Outcome ε α → σ → Prop) : Program Req Resp ε α → σ → Prop
  | .ret a, s => I s ∧ post (.ok a) s
  | .fail e, s => I s ∧ post (.err e) s
  | .abort m, s => I s ∧ post (.aborted m) s
  | .call r k, s => I s ∧ ∀ x t, exec s r x t → (k x).Always exec I post t

theorem reaches_refl (p : Program Req Resp ε α) (s : σ) : p.Reaches exec s s := by
  cases p with
  | call r k => exact .inl rfl
  | _ => rfl

/-- A run that has ended cannot go on. -/
theorem Ends.reaches {p : Program Req Resp ε α} {s t : σ} {o : Outcome ε α}
    (h : p.Ends exec s o t) : p.Reaches exec s t := by
  induction p generalizing s with
  | ret a => exact h.2
  | fail e => exact h.2
  | abort m => exact h.2
  | call r k ih =>
    obtain ⟨x, s₁, hx, hk⟩ := h
    exact .inr ⟨x, s₁, hx, ih x hk⟩

section Always

variable {I : σ → Prop} {post post' : Outcome ε α → σ → Prop} {s t : σ}

theorem Always.reaches {p : Program Req Resp ε α} (h : p.Always exec I post s)
    (hr : p.Reaches exec s t) : I t := by
  induction p generalizing s with
  | ret a =>
    obtain rfl := hr
    exact h.1
  | fail e =>
    obtain rfl := hr
    exact h.1
  | abort m =>
    obtain rfl := hr
    exact h.1
  | call r k ih =>
    rcases hr with rfl | ⟨x, s₁, hx, hk⟩
    · exact h.1
    · exact ih x (h.2 x s₁ hx) hk

theorem Always.after {p : Program Req Resp ε α} (h : p.Always exec I post s) :
    After exec p s post := by
  intro o t he
  induction p generalizing s with
  | ret a =>
    obtain ⟨rfl, rfl⟩ := he
    exact h.2
  | fail e =>
    obtain ⟨rfl, rfl⟩ := he
    exact h.2
  | abort m =>
    obtain ⟨rfl, rfl⟩ := he
    exact h.2
  | call r k ih =>
    obtain ⟨x, s₁, hx, hk⟩ := he
    exact ih x (h.2 x s₁ hx) hk

theorem Always.mono {p : Program Req Resp ε α} (h : p.Always exec I post s)
    (hp : ∀ o t, post o t → post' o t) : p.Always exec I post' s := by
  induction p generalizing s with
  | ret a => exact ⟨h.1, hp _ _ h.2⟩
  | fail e => exact ⟨h.1, hp _ _ h.2⟩
  | abort m => exact ⟨h.1, hp _ _ h.2⟩
  | call r k ih => exact ⟨h.1, fun x t hx => ih x (h.2 x t hx)⟩

/-- The first part establishes what the rest starts from. -/
theorem Always.bind {p : Program Req Resp ε α} {f : α → Program Req Resp ε β}
    {post' : Outcome ε β → σ → Prop} (hp : p.Always exec I post s)
    (hok : ∀ a t, post (.ok a) t → (f a).Always exec I post' t)
    (herr : ∀ e t, post (.err e) t → post' (.err e) t)
    (habort : ∀ m t, post (.aborted m) t → post' (.aborted m) t) :
    (p >>= f).Always exec I post' s := by
  induction p generalizing s with
  | ret a => exact hok a s hp.2
  | fail e => exact ⟨hp.1, herr e s hp.2⟩
  | abort m => exact ⟨hp.1, habort m s hp.2⟩
  | call r k ih => exact ⟨hp.1, fun x t hx => ih x (hp.2 x t hx)⟩

/-- Each round of a loop establishes its own part and keeps those of the others. The end of a
loop that is left early is the end of a round. -/
theorem always_forEach {l : List ι} {f : ι → Program Req Resp ε Unit} (P : ι → σ → Prop)
    (K : σ → σ → Prop) (bad : Prop) (hrefl : ∀ t, K t t)
    (htrans : ∀ t u v, K t u → K u v → K t v) (hP : ∀ i t u, P i t → K t u → P i u) (hs : I s)
    (hf : ∀ i ∈ l, ∀ t, I t → K s t → (f i).Always exec I
      (fun o u => I u ∧ K t u ∧ (o = .ok () ∧ P i u ∨ o ≠ .ok () ∧ bad)) t) :
    (forEach l f).Always exec I
      (fun o u => I u ∧ K s u ∧ (o = .ok () ∧ (∀ i ∈ l, P i u) ∨ o ≠ .ok () ∧ bad)) s := by
  induction l generalizing s with
  | nil => exact ⟨hs, hs, hrefl s, .inl ⟨rfl, nofun⟩⟩
  | cons i is ih =>
    refine (hf i List.mem_cons_self s hs (hrefl s)).bind (fun _ t h => ?_) (fun e t h => ?_) fun m t h => ?_
    · obtain ⟨ht, hst, ⟨-, hi⟩ | ⟨hne, -⟩⟩ := h
      · have hrest := ih ht fun j hj u hu htu => hf j (List.mem_cons_of_mem _ hj) u hu (htrans _ _ _ hst htu)
        refine hrest.mono fun o u hu => ⟨hu.1, htrans _ _ _ hst hu.2.1, hu.2.2.imp ?_ id⟩
        rintro ⟨ho, hall⟩
        refine ⟨ho, fun j hj => ?_⟩
        rcases List.mem_cons.mp hj with rfl | hj
        · exact hP _ _ _ hi hu.2.1
        · exact hall j hj
      · exact absurd rfl hne
    · obtain ⟨ht, hst, ⟨ho, -⟩ | ⟨-, hbad⟩⟩ := h
      · cases ho
      · exact ⟨ht, hst, .inr ⟨nofun, hbad⟩⟩
    · obtain ⟨ht, hst, ⟨ho, -⟩ | ⟨-, hbad⟩⟩ := h
      · cases ho
      · exact ⟨ht, hst, .inr ⟨nofun, hbad⟩⟩

end Always

/-- Run a program to its end against a state that answers every request in one way. -/
def runWith (serve : σ → (r : Req) → Option (Resp r × σ)) :
    Program Req Resp ε α → σ → Option (Outcome ε α × σ)
  | .ret a, s => some (.ok a, s)
  | .fail e, s => some (.err e, s)
  | .abort m, s => some (.aborted m, s)
  | .call r k, s =>
    match serve s r with
    | some (x, t) => (k x).runWith serve t
    | none => none

theorem ends_of_runWith {serve : σ → (r : Req) → Option (Resp r × σ)}
    (hserve : ∀ s r x t, serve s r = some (x, t) → exec s r x t) {p : Program Req Resp ε α}
    {s t : σ} {o : Outcome ε α} (h : p.runWith serve s = some (o, t)) : p.Ends exec s o t := by
  induction p generalizing s with
  | ret a =>
    cases h
    exact ⟨rfl, rfl⟩
  | fail e =>
    cases h
    exact ⟨rfl, rfl⟩
  | abort m =>
    cases h
    exact ⟨rfl, rfl⟩
  | call r k ih =>
    simp only [runWith] at h
    split at h
    · next x u hx => exact ⟨x, u, hserve _ _ _ _ hx, ih x h⟩
    · cases h

/-- Against a state that answers every request the program comes to its end. -/
theorem exists_runWith (serve : σ → (r : Req) → Resp r × σ) (p : Program Req Resp ε α) (s : σ) :
    ∃ o t, p.runWith (fun s r => some (serve s r)) s = some (o, t) := by
  induction p generalizing s with
  | ret a => exact ⟨_, _, rfl⟩
  | fail e => exact ⟨_, _, rfl⟩
  | abort m => exact ⟨_, _, rfl⟩
  | call r k ih => exact ih (serve s r).1 (serve s r).2

end Ends

/-! ### A program among others -/

section Embed

variable {Req' : Type} {Resp' : Req' → Type} {ε' : Type} (f : Req → Req') (g : (r : Req) → Resp' (f r) → Resp r)
  (e : ε → ε')

/-- The program with its requests and errors as some of more. -/
def embed : Program Req Resp ε α → Program Req' Resp' ε' α
  | .ret a => ret a
  | .fail err => fail (e err)
  | .abort m => abort m
  | .call r k => call (f r) fun x => (k (g r x)).embed

theorem embed_bind (p : Program Req Resp ε α) (k : α → Program Req Resp ε β) :
    (p >>= k).embed f g e = p.embed f g e >>= fun a => (k a).embed f g e := by
  induction p with
  | ret a => rfl
  | fail err => rfl
  | abort m => rfl
  | call r k' ih => exact congrArg (call (f r)) (funext fun x => ih (g r x))

theorem embed_forEach (l : List ι) (k : ι → Program Req Resp ε Unit) :
    (forEach l k).embed f g e = forEach l fun i => (k i).embed f g e := by
  induction l with
  | nil => rfl
  | cons i is ih =>
    rw [forEach, forEach, embed_bind, ih]

end Embed

end Program

end Interaction
