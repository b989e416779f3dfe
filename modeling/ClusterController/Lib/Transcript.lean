import ClusterController.Lib.Program

/-!
# Transcripts

A transcript lists the requests of a run with their answers. `Plays` says what a program does
when it is answered so, whoever answers. `Answered` says that a state gives these answers. A run
of a program on a state is both at once (`ends_iff_plays`).
-/

namespace Interaction

variable {Req : Type} {Resp : Req → Type} {ε α β σ : Type}

/-- The requests of a run with their answers, the first one first. -/
abbrev Transcript (Req : Type) (Resp : Req → Type) := List (Sigma fun r : Req => Resp r)

namespace Program

/-- Answered as in the transcript, the program makes its requests and ends as `o`. -/
def Plays : Program Req Resp ε α → Transcript Req Resp → Outcome ε α → Prop
  | .ret a, tr, o => tr = [] ∧ o = .ok a
  | .fail e, tr, o => tr = [] ∧ o = .err e
  | .abort m, tr, o => tr = [] ∧ o = .aborted m
  | .call r k, tr, o => ∃ x rest, tr = ⟨r, x⟩ :: rest ∧ (k x).Plays rest o

/-- The states give the answers of the transcript. -/
inductive Answered (exec : σ → (r : Req) → Resp r → σ → Prop) : σ → Transcript Req Resp → σ → Prop
  | nil {s : σ} : Answered exec s [] s
  | cons {s s₁ t : σ} {r : Req} {x : Resp r} {rest : Transcript Req Resp} :
      exec s r x s₁ → Answered exec s₁ rest t → Answered exec s (⟨r, x⟩ :: rest) t

section Transcripts

variable {exec : σ → (r : Req) → Resp r → σ → Prop} {s t : σ} {tr : Transcript Req Resp}
  {p : Program Req Resp ε α} {f : α → Program Req Resp ε β} {ask : Req → Prop} {done : α → Prop}

/-- The first answer. -/
theorem Answered.uncons {r : Req} {x : Resp r} (h : Answered exec s (⟨r, x⟩ :: tr) t) :
    ∃ s₁, exec s r x s₁ ∧ Answered exec s₁ tr t := by
  cases h with
  | cons hx hrest => exact ⟨_, hx, hrest⟩

/-- Answers one after the other. -/
theorem answered_append {tr' : Transcript Req Resp} :
    Answered exec s (tr ++ tr') t ↔ ∃ s₁, Answered exec s tr s₁ ∧ Answered exec s₁ tr' t := by
  induction tr generalizing s with
  | nil =>
    constructor
    · exact fun h => ⟨s, .nil, h⟩
    · rintro ⟨s₁, h, h'⟩
      cases h
      exact h'
  | cons e tr ih =>
    constructor
    · intro h
      obtain ⟨s₁, hx, hrest⟩ := h.uncons
      obtain ⟨s₂, h₁, h₂⟩ := ih.mp hrest
      exact ⟨s₂, .cons hx h₁, h₂⟩
    · rintro ⟨s₂, h₁, h₂⟩
      obtain ⟨s₁, hx, hrest⟩ := h₁.uncons
      exact .cons hx (ih.mpr ⟨s₂, hrest, h₂⟩)

/-- A run is what a program plays and what states answer. -/
theorem ends_iff_plays {o : Outcome ε α} :
    p.Ends exec s o t ↔ ∃ tr, p.Plays tr o ∧ Answered exec s tr t := by
  induction p generalizing s with
  | ret a =>
    constructor
    · rintro ⟨ho, rfl⟩
      exact ⟨[], ⟨rfl, ho⟩, .nil⟩
    · rintro ⟨_, ⟨rfl, ho⟩, hans⟩
      cases hans
      exact ⟨ho, rfl⟩
  | fail e =>
    constructor
    · rintro ⟨ho, rfl⟩
      exact ⟨[], ⟨rfl, ho⟩, .nil⟩
    · rintro ⟨_, ⟨rfl, ho⟩, hans⟩
      cases hans
      exact ⟨ho, rfl⟩
  | abort m =>
    constructor
    · rintro ⟨ho, rfl⟩
      exact ⟨[], ⟨rfl, ho⟩, .nil⟩
    · rintro ⟨_, ⟨rfl, ho⟩, hans⟩
      cases hans
      exact ⟨ho, rfl⟩
  | call r k ih =>
    constructor
    · rintro ⟨x, s₁, hx, hk⟩
      obtain ⟨tr, hplays, hans⟩ := (ih x).mp hk
      exact ⟨⟨r, x⟩ :: tr, ⟨x, tr, rfl, hplays⟩, .cons hx hans⟩
    · rintro ⟨_, ⟨x, tr, rfl, hplays⟩, hans⟩
      obtain ⟨s₁, hx, hans⟩ := hans.uncons
      exact ⟨x, s₁, hx, (ih x).mpr ⟨tr, hplays, hans⟩⟩

/-- A sequence is played through its first part, or that part ends the whole. -/
theorem plays_bind {o : Outcome ε β} : (p >>= f).Plays tr o ↔
    (∃ a before rest, tr = before ++ rest ∧ p.Plays before (.ok a) ∧ (f a).Plays rest o) ∨
    (∃ e, p.Plays tr (.err e) ∧ o = .err e) ∨ ∃ m, p.Plays tr (.aborted m) ∧ o = .aborted m := by
  induction p generalizing tr with
  | ret a =>
    constructor
    · exact fun h => .inl ⟨a, [], tr, rfl, ⟨rfl, rfl⟩, h⟩
    · rintro (⟨b, before, rest, rfl, ⟨rfl, hb⟩, h⟩ | ⟨e, ⟨-, he⟩, -⟩ | ⟨m, ⟨-, hm⟩, -⟩)
      · cases hb
        exact h
      · cases he
      · cases hm
  | fail e =>
    constructor
    · exact fun h => .inr (.inl ⟨e, ⟨h.1, rfl⟩, h.2⟩)
    · rintro (⟨b, before, rest, -, ⟨-, hb⟩, -⟩ | ⟨e', ⟨rfl, he⟩, ho⟩ | ⟨m, ⟨-, hm⟩, -⟩)
      · cases hb
      · cases he
        exact ⟨rfl, ho⟩
      · cases hm
  | abort m =>
    constructor
    · exact fun h => .inr (.inr ⟨m, ⟨h.1, rfl⟩, h.2⟩)
    · rintro (⟨b, before, rest, -, ⟨-, hb⟩, -⟩ | ⟨e, ⟨-, he⟩, -⟩ | ⟨m', ⟨rfl, hm⟩, ho⟩)
      · cases hb
      · cases he
      · cases hm
        exact ⟨rfl, ho⟩
  | call r k ih =>
    constructor
    · rintro ⟨x, rest, rfl, h⟩
      rcases (ih x).mp h with ⟨a, before, after, rfl, ha, hf⟩ | ⟨e, he, ho⟩ | ⟨m, hm, ho⟩
      · exact .inl ⟨a, _, after, rfl, ⟨x, before, rfl, ha⟩, hf⟩
      · exact .inr (.inl ⟨e, ⟨x, rest, rfl, he⟩, ho⟩)
      · exact .inr (.inr ⟨m, ⟨x, rest, rfl, hm⟩, ho⟩)
    · rintro (⟨a, _, after, rfl, ⟨x, before, rfl, ha⟩, hf⟩ | ⟨e, ⟨x, rest, rfl, he⟩, ho⟩ |
        ⟨m, ⟨x, rest, rfl, hm⟩, ho⟩)
      · exact ⟨x, before ++ after, rfl, (ih x).mpr (.inl ⟨a, before, after, rfl, ha, hf⟩)⟩
      · exact ⟨x, rest, rfl, (ih x).mpr (.inr (.inl ⟨e, he, ho⟩))⟩
      · exact ⟨x, rest, rfl, (ih x).mpr (.inr (.inr ⟨m, hm, ho⟩))⟩

/-- A transcript holds only requests that the program can make. -/
theorem Within.plays {o : Outcome ε α} (h : p.Within ask done) (hp : p.Plays tr o) :
    ∀ e ∈ tr, ask e.1 := by
  induction p generalizing tr with
  | ret a =>
    rw [hp.1]
    simp
  | fail e =>
    rw [hp.1]
    simp
  | abort m =>
    rw [hp.1]
    simp
  | call r k ih =>
    obtain ⟨x, rest, rfl, hk⟩ := hp
    exact List.forall_mem_cons.mpr ⟨h.1, ih x (h.2 x) hk⟩

end Transcripts

/-! ## One answer for each request -/

/-- What follows a result. Nothing follows an error and an abort. -/
def Outcome.andThen : Outcome ε α → (α → Outcome ε β) → Outcome ε β
  | .ok a, f => f a
  | .err e, _ => .err e
  | .aborted m, _ => .aborted m

/-- How a program ends if each request has one answer. -/
def eval (answer : (r : Req) → Resp r) : Program Req Resp ε α → Outcome ε α
  | .ret a => .ok a
  | .fail e => .err e
  | .abort m => .aborted m
  | .call r k => (k (answer r)).eval answer

variable {answer : (r : Req) → Resp r}

theorem eval_bind (p : Program Req Resp ε α) (f : α → Program Req Resp ε β) :
    (p >>= f).eval answer = (p.eval answer).andThen fun a => (f a).eval answer := by
  induction p with
  | ret a => rfl
  | fail e => rfl
  | abort m => rfl
  | call r k ih => exact ih (answer r)

theorem eval_attempt (p : Program Req Resp ε α) : p.attempt.eval answer =
    match p.eval answer with
    | .ok a => .ok (.ok a)
    | .err e => .ok (.error e)
    | .aborted m => .aborted m := by
  induction p with
  | ret a => rfl
  | fail e => rfl
  | abort m => rfl
  | call r k ih => exact ih (answer r)

/-- How a program ends depends on the answers to its requests only. -/
theorem Within.eval_congr {answer' : (r : Req) → Resp r} {p : Program Req Resp ε α}
    {ask : Req → Prop} {done : α → Prop} (h : p.Within ask done)
    (hans : ∀ r, ask r → answer r = answer' r) : p.eval answer = p.eval answer' := by
  induction p with
  | ret a => rfl
  | fail e => rfl
  | abort m => rfl
  | call r k ih =>
    show (k (answer r)).eval answer = (k (answer' r)).eval answer'
    rw [hans r h.1]
    exact ih _ (h.2 _)

end Program

end Interaction
