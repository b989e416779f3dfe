import ClusterController.Lib.Interleaving

/-!
# Logs of runs

What a worker has been answered since it started is not part of the state. `Machine.logged`
is a machine with a log beside its state, so that the terms of a regime can speak of it. It
has the same runs (`Run.logged`), and every entry of its log stands for a step of the run
(`call_of_recent`).
-/

namespace Interaction

variable {W Req : Type} {Resp : Req → Type} {ε ρ σ χ ι η : Type}

/-- An answered request with the state that it was made in, or the start of a program. -/
inductive Entry (W Req : Type) (Resp : Req → Type) (σ : Type) : Type
  | call (w : W) (s : σ) (r : Req) (a : Resp r)
  | start (w : W)

/-- A log, the latest entry first. -/
abbrev Log (W Req : Type) (Resp : Req → Type) (σ : Type) := List (Entry W Req Resp σ)

/-- The machine with a log beside its state. -/
def Machine.logged (M : Machine W Req Resp ε ρ σ χ ι η) :
    Machine W Req Resp ε ρ (σ × Log W Req Resp σ) χ ι η where
  answer w s r x := (M.answer w s.1 r x).map fun p => (p.1, p.2, .call w s.1 r p.1 :: s.2)
  launch w s i := (M.launch w s.1 i).map fun p => (p.1, p.2, .start w :: s.2)
  release w s := (M.release w s.1, s.2)
  world s e := (M.world s.1 e).map fun t => (t, s.2)

/-- The entries of a worker since it was last started. -/
def recent [DecidableEq W] (w : W) : Log W Req Resp σ → Log W Req Resp σ
  | [] => []
  | .call v s r a :: l => if v = w then .call v s r a :: recent w l else recent w l
  | .start v :: l => if v = w then [] else recent w l

/-- The configuration with a log. -/
def Config.withLog (c : Config W Req Resp ε ρ σ) (log : Log W Req Resp σ) :
    Config W Req Resp ε ρ (σ × Log W Req Resp σ) := ⟨(c.state, log), c.threads⟩

/-- The configuration without its log. -/
def Config.plain (c : Config W Req Resp ε ρ (σ × Log W Req Resp σ)) : Config W Req Resp ε ρ σ :=
  ⟨c.state.1, c.threads⟩

variable {M : Machine W Req Resp ε ρ σ χ ι η} {allowed : σ → Event W Req χ ι η → Prop}
  [DecidableEq W]

section Recent

variable {w v : W} {log : Log W Req Resp σ} {s : σ} {r : Req} {a : Resp r}

theorem recent_call_self : recent w (.call w s r a :: log) = .call w s r a :: recent w log :=
  if_pos rfl

theorem recent_call_of_ne (h : v ≠ w) : recent w (.call v s r a :: log) = recent w log := if_neg h

theorem recent_start_of_ne (h : v ≠ w) : recent w (.start v :: log) = recent w log := if_neg h

/-- The recent entries are entries. -/
theorem mem_of_recent {e : Entry W Req Resp σ} (h : e ∈ recent w log) : e ∈ log := by
  induction log with
  | nil => cases h
  | cons e' log ih =>
    cases e' with
    | call v s r a =>
      by_cases hv : v = w
      · subst hv
        rw [recent_call_self] at h
        exact List.mem_cons.mpr ((List.mem_cons.mp h).imp_right ih)
      · rw [recent_call_of_ne hv] at h
        exact List.mem_cons_of_mem _ (ih h)
    | start v =>
      by_cases hv : v = w
      · subst hv
        rw [show recent v (.start v :: log) = [] from if_pos rfl] at h
        cases h
      · rw [recent_start_of_ne hv] at h
        exact List.mem_cons_of_mem _ (ih h)

end Recent

/-- What is allowed does not depend on the log. -/
abbrev unlogged (allowed : σ → Event W Req χ ι η → Prop) :
    σ × Log W Req Resp σ → Event W Req χ ι η → Prop := fun s e => allowed s.1 e

/-- A step of the machine is one of the logged machine. -/
theorem Machine.Step.logged {c d : Config W Req Resp ε ρ σ} {e : Event W Req χ ι η}
    (h : M.Step c e d) (log : Log W Req Resp σ) :
    ∃ log', M.logged.Step (c.withLog log) e (d.withLog log') := by
  cases h with
  | @call w r k x a t hw hx =>
    refine ⟨.call w c.state r a :: log, .call hw ?_⟩
    show (M.answer w c.state r x).map _ = _
    rw [hx]
    rfl
  | @start w i p t hw hl =>
    refine ⟨.start w :: log, .start hw ?_⟩
    show (M.launch w c.state i).map _ = _
    rw [hl]
    rfl
  | stop hw => exact ⟨log, .stop hw⟩
  | @world e t ht =>
    refine ⟨log, .world ?_⟩
    show (M.world c.state e).map _ = _
    rw [ht]
    rfl

/-- Every run of the machine is one of the logged machine. -/
theorem Machine.Run.logged {c d : Config W Req Resp ε ρ σ} (h : M.Run allowed c d) :
    ∃ log, M.logged.Run (unlogged allowed) (c.withLog []) (d.withLog log) := by
  induction h with
  | refl => exact ⟨[], .refl _⟩
  | tail _ ha hs ih =>
    obtain ⟨log, hr⟩ := ih
    obtain ⟨log', hs'⟩ := hs.logged log
    exact ⟨log', hr.tail ha hs'⟩

/-- A step of the logged machine is one of the machine, and says what it logs. -/
theorem Machine.Step.plain {c d : Config W Req Resp ε ρ (σ × Log W Req Resp σ)}
    {e : Event W Req χ ι η} (h : M.logged.Step c e d) :
    M.Step c.plain e d.plain ∧
      ((∃ w r x, ∃ a : Resp r, e = .call w r x ∧
          M.answer w c.state.1 r x = some (a, d.state.1) ∧
          d.state.2 = .call w c.state.1 r a :: c.state.2) ∨
        (∃ w i, e = .start w i ∧ d.state.2 = .start w :: c.state.2) ∨
        ((∀ w i, e ≠ .start w i) ∧ d.state.2 = c.state.2)) := by
  cases h with
  | @call w r k x a t hw hx =>
    obtain ⟨⟨b, u⟩, hu, he⟩ := Option.map_eq_some_iff.mp hx
    cases he
    exact ⟨.call hw hu, .inl ⟨w, r, x, b, rfl, hu, rfl⟩⟩
  | @start w i p t hw hl =>
    obtain ⟨⟨q, u⟩, hu, he⟩ := Option.map_eq_some_iff.mp hl
    cases he
    exact ⟨.start hw hu, .inr (.inl ⟨w, i, rfl, rfl⟩)⟩
  | stop hw => exact ⟨.stop hw, .inr (.inr ⟨nofun, rfl⟩)⟩
  | @world e t ht =>
    obtain ⟨u, hu, he⟩ := Option.map_eq_some_iff.mp ht
    cases he
    exact ⟨.world hu, .inr (.inr ⟨nofun, rfl⟩)⟩

/-- The allowed steps that do not start the worker anew. -/
def onward (allowed : σ → Event W Req χ ι η → Prop) (w : W) :
    σ → Event W Req χ ι η → Prop := fun s e => allowed s e ∧ ∀ i, e ≠ .start w i

/-- An answered request that is logged as recent was made in the run, and its worker has
not been started anew since. -/
theorem call_of_recent {c : Config W Req Resp ε ρ σ}
    {d : Config W Req Resp ε ρ (σ × Log W Req Resp σ)} {w : W} {u : σ} {r : Req} {a : Resp r}
    (h : M.logged.Run (unlogged allowed) (c.withLog []) d)
    (he : Entry.call w u r a ∈ recent w d.state.2) :
    ∃ c₁ c₂ x, M.Run allowed c c₁ ∧ c₁.state = u ∧ M.Step c₁ (.call w r x) c₂ ∧
      M.answer w u r x = some (a, c₂.state) ∧ M.Run (onward allowed w) c₂ d.plain := by
  suffices h : M.Run allowed c d.plain ∧ (Entry.call w u r a ∈ recent w d.state.2 →
      ∃ c₁ c₂ x, M.Run allowed c c₁ ∧ c₁.state = u ∧ M.Step c₁ (.call w r x) c₂ ∧
        M.answer w u r x = some (a, c₂.state) ∧ M.Run (onward allowed w) c₂ d.plain) from h.2 he
  clear he
  generalize hc : c.withLog [] = c' at h
  induction h with
  | refl =>
    subst hc
    exact ⟨.refl _, fun he => nomatch he⟩
  | @tail d e ev hr ha hs ih =>
    obtain ⟨hrun, hold⟩ := ih
    obtain ⟨hstep, hlog⟩ := hs.plain
    refine ⟨hrun.tail ha hstep, fun he => ?_⟩
    have hgo : (∀ i, ev ≠ .start w i) → Entry.call w u r a ∈ recent w d.state.2 →
        ∃ c₁ c₂ x, M.Run allowed c c₁ ∧ c₁.state = u ∧ M.Step c₁ (.call w r x) c₂ ∧
          M.answer w u r x = some (a, c₂.state) ∧ M.Run (onward allowed w) c₂ e.plain := by
      intro hno hin
      obtain ⟨c₁, c₂, x, hr₁, hu, hs₁, hx, hr₂⟩ := hold hin
      exact ⟨c₁, c₂, x, hr₁, hu, hs₁, hx, hr₂.tail ⟨ha, hno⟩ hstep⟩
    rcases hlog with ⟨v, r', x, a', rfl, hx, hl⟩ | ⟨v, i, rfl, hl⟩ | ⟨hno, hl⟩
    · rw [hl] at he
      by_cases hv : v = w
      · subst hv
        rw [recent_call_self] at he
        rcases List.mem_cons.mp he with heq | hin
        · cases heq
          exact ⟨d.plain, e.plain, x, hrun, rfl, hstep, hx, .refl _⟩
        · exact hgo nofun hin
      · rw [recent_call_of_ne hv] at he
        exact hgo nofun he
    · rw [hl] at he
      by_cases hv : v = w
      · subst hv
        rw [show recent v (.start v :: d.state.2) = [] from if_pos rfl] at he
        cases he
      · rw [recent_start_of_ne hv] at he
        refine hgo (fun j hj => ?_) he
        cases hj
        exact hv rfl
    · rw [hl] at he
      exact hgo (hno w) he

end Interaction
