import ClusterController.Lib.Program

/-!
# Interleaved programs and rely-guarantee reasoning

A `Machine` answers the requests of programs over a shared state. Each worker runs at
most one program at a time. A step lets one worker make one request, starts or stops a
worker, or lets the surroundings change the state, so a run is any interleaving.

A `Contract` fixes, for one worker, an invariant, what it may rely on between its own
requests and what each of its requests guarantees. `Contract.wp` says that a program
keeps the contract from a state on. `Regime.run_safe` is the rule: when every worker is
started under its contract and each guarantee implies the reliances of the others, then
the invariant and all guarantees hold along every run.
-/

namespace Interaction

variable {W Req : Type} {Resp : Req → Type} {ε ρ σ χ ι η α β : Type}

/-! ## Machines and runs -/

/-- The semantics of a set of workers `W` over states `σ`.

* `answer w s r x`: the answer to request `r` of worker `w` and the next state. The
  choice `x` resolves what the state leaves open. `none` means that `r` cannot be
  answered in this way, and a request that no choice answers blocks its worker.
* `launch w s i`: the program that worker `w` starts with on the occasion `i`.
* `release w s`: the state after the program of `w` is gone, ended or abandoned.
* `world s e`: the state after the event `e` of the surroundings. -/
structure Machine (W Req : Type) (Resp : Req → Type) (ε ρ σ χ ι η : Type) where
  answer : W → σ → (r : Req) → χ → Option (Resp r × σ)
  launch : W → σ → ι → Option (Program Req Resp ε ρ × σ)
  release : W → σ → σ
  world : σ → η → Option σ

/-- The shared state and the program that each worker has still to run. -/
structure Config (W Req : Type) (Resp : Req → Type) (ε ρ σ : Type) where
  state : σ
  threads : W → Option (Program Req Resp ε ρ)

/-- What happens in one step. -/
inductive Event (W Req χ ι η : Type) : Type
  | call (w : W) (r : Req) (x : χ)
  | start (w : W) (i : ι)
  | stop (w : W)
  | world (e : η)

variable {M : Machine W Req Resp ε ρ σ χ ι η} {allowed : σ → Event W Req χ ι η → Prop}

section Runs

variable [DecidableEq W]

/-- One step. `stop` covers a program that has ended and one that is abandoned half way. -/
inductive Machine.Step (M : Machine W Req Resp ε ρ σ χ ι η) :
    Config W Req Resp ε ρ σ → Event W Req χ ι η → Config W Req Resp ε ρ σ → Prop
  | call {c : Config W Req Resp ε ρ σ} {w : W} {r : Req} {k : Resp r → Program Req Resp ε ρ}
      {x : χ} {a : Resp r} {t : σ} :
      c.threads w = some (.call r k) → M.answer w c.state r x = some (a, t) →
      M.Step c (.call w r x) ⟨t, Function.update c.threads w (some (k a))⟩
  | start {c : Config W Req Resp ε ρ σ} {w : W} {i : ι} {p : Program Req Resp ε ρ} {t : σ} :
      c.threads w = none → M.launch w c.state i = some (p, t) →
      M.Step c (.start w i) ⟨t, Function.update c.threads w (some p)⟩
  | stop {c : Config W Req Resp ε ρ σ} {w : W} {p : Program Req Resp ε ρ} :
      c.threads w = some p →
      M.Step c (.stop w) ⟨M.release w c.state, Function.update c.threads w none⟩
  | world {c : Config W Req Resp ε ρ σ} {e : η} {t : σ} :
      M.world c.state e = some t → M.Step c (.world e) ⟨t, c.threads⟩

theorem Machine.Step.answered {c d : Config W Req Resp ε ρ σ} {w : W} {r : Req} {x : χ}
    (h : M.Step c (.call w r x) d) : ∃ a, M.answer w c.state r x = some (a, d.state) := by
  cases h with
  | call _ hx => exact ⟨_, hx⟩

/-- The runs all of whose steps are allowed in the state they are made in. -/
inductive Machine.Run (M : Machine W Req Resp ε ρ σ χ ι η)
    (allowed : σ → Event W Req χ ι η → Prop) :
    Config W Req Resp ε ρ σ → Config W Req Resp ε ρ σ → Prop
  | refl (c : Config W Req Resp ε ρ σ) : M.Run allowed c c
  | tail {c d e : Config W Req Resp ε ρ σ} {ev : Event W Req χ ι η} :
      M.Run allowed c d → allowed d.state ev → M.Step d ev e → M.Run allowed c e

/-- A run stays a run when more is allowed. -/
theorem Machine.Run.mono {allowed' : σ → Event W Req χ ι η → Prop}
    (ha : ∀ s e, allowed s e → allowed' s e) {c d : Config W Req Resp ε ρ σ}
    (h : M.Run allowed c d) : M.Run allowed' c d := by
  induction h with
  | refl => exact .refl _
  | tail _ he hs ih => exact ih.tail (ha _ _ he) hs

/-! ## Playing a run -/

/-- A command of a script: who moves, and how what is open is resolved. -/
inductive Command (W χ ι η : Type) : Type
  | call (w : W) (x : χ)
  | start (w : W) (i : ι)
  | stop (w : W)
  | world (e : η)

/-- Carry out one command, if it is possible and allowed. -/
def Machine.obey (M : Machine W Req Resp ε ρ σ χ ι η)
    (allowed : σ → Event W Req χ ι η → Prop) [∀ s e, Decidable (allowed s e)]
    (c : Config W Req Resp ε ρ σ) : Command W χ ι η → Option (Config W Req Resp ε ρ σ)
  | .call w x =>
    match c.threads w with
    | some (.call r k) =>
      if allowed c.state (.call w r x) then
        match M.answer w c.state r x with
        | some (a, t) => some ⟨t, Function.update c.threads w (some (k a))⟩
        | none => none
      else none
    | _ => none
  | .start w i =>
    match c.threads w with
    | none =>
      if allowed c.state (.start w i) then
        match M.launch w c.state i with
        | some (p, t) => some ⟨t, Function.update c.threads w (some p)⟩
        | none => none
      else none
    | some _ => none
  | .stop w =>
    match c.threads w with
    | some _ =>
      if allowed c.state (.stop w) then
        some ⟨M.release w c.state, Function.update c.threads w none⟩
      else none
    | none => none
  | .world e =>
    if allowed c.state (.world e) then
      match M.world c.state e with
      | some t => some ⟨t, c.threads⟩
      | none => none
    else none

/-- Carry out a script. -/
def Machine.play (M : Machine W Req Resp ε ρ σ χ ι η)
    (allowed : σ → Event W Req χ ι η → Prop) [∀ s e, Decidable (allowed s e)] :
    Config W Req Resp ε ρ σ → List (Command W χ ι η) → Option (Config W Req Resp ε ρ σ)
  | c, [] => some c
  | c, cmd :: cmds =>
    match M.obey allowed c cmd with
    | some d => M.play allowed d cmds
    | none => none

/-- A call that can be obeyed is a step that makes the next request of its worker. -/
theorem Machine.obey_call [∀ s e, Decidable (allowed s e)] {c d : Config W Req Resp ε ρ σ}
    {w : W} {x : χ} (h : M.obey allowed c (.call w x) = some d) :
    ∃ r, (c.threads w).bind Program.next? = some r ∧ allowed c.state (.call w r x) ∧
      M.Step c (.call w r x) d := by
  simp only [obey] at h
  split at h
  · next r k hw =>
    split at h
    · next ha =>
      split at h
      · next a t hx => cases h; exact ⟨r, by rw [hw]; rfl, ha, .call hw hx⟩
      · cases h
    · cases h
  · cases h

theorem Machine.obey_step [∀ s e, Decidable (allowed s e)] {c d : Config W Req Resp ε ρ σ}
    {cmd : Command W χ ι η} (h : M.obey allowed c cmd = some d) :
    ∃ e, allowed c.state e ∧ M.Step c e d := by
  cases cmd with
  | call w x =>
    obtain ⟨r, -, ha, hs⟩ := obey_call h
    exact ⟨_, ha, hs⟩
  | start w i =>
    simp only [obey] at h
    split at h
    · next hw =>
      split at h
      · next ha =>
        split at h
        · next p t hl => cases h; exact ⟨_, ha, .start hw hl⟩
        · cases h
      · cases h
    · cases h
  | stop w =>
    simp only [obey] at h
    split at h
    · next p hw =>
      split at h
      · next ha => cases h; exact ⟨_, ha, .stop hw⟩
      · cases h
    · cases h
  | world e =>
    simp only [obey] at h
    split at h
    · next ha =>
      split at h
      · next t ht => cases h; exact ⟨_, ha, .world ht⟩
      · cases h
    · cases h

/-- A script that can be played is a run. -/
theorem Machine.play_run [∀ s e, Decidable (allowed s e)] {c d : Config W Req Resp ε ρ σ}
    {cmds : List (Command W χ ι η)} (h : M.play allowed c cmds = some d) :
    M.Run allowed c d := by
  suffices ∀ b, M.Run allowed b c → M.Run allowed b d from this c (.refl c)
  induction cmds generalizing c with
  | nil => cases h; exact fun _ hb => hb
  | cons cmd cmds ih =>
    intro b hb
    simp only [play] at h
    split at h
    · next e he =>
      obtain ⟨ev, ha, hs⟩ := obey_step he
      exact ih h b (hb.tail ha hs)
    · cases h

/-- What a script reaches is reached by a run. -/
theorem Machine.play_reaches (allowed : σ → Event W Req χ ι η → Prop) [∀ s e, Decidable (allowed s e)] (c : Config W Req Resp ε ρ σ)
    (cmds : List (Command W χ ι η)) (P : Config W Req Resp ε ρ σ → Bool)
    (h : (M.play allowed c cmds).any P = true) : ∃ d, M.Run allowed c d ∧ P d = true := by
  cases hd : M.play allowed c cmds with
  | none => simp [hd] at h
  | some d => exact ⟨d, play_run hd, by simpa [hd] using h⟩

end Runs

/-! ## Weakest preconditions under interference -/

/-- The terms on which one worker runs: how its requests are answered, the invariant of
all states, how the state may change between its requests, and what each request does. -/
structure Contract (Req : Type) (Resp : Req → Type) (σ : Type) where
  exec : σ → (r : Req) → Resp r → σ → Prop
  inv : σ → Prop
  rely : σ → σ → Prop
  guar : σ → (r : Req) → σ → Prop

namespace Contract

variable {C : Contract Req Resp σ}

/-- From the state `s` on, every request of the program keeps the guarantee, and if the
program ends without a panic then `post` holds of its result and of the state. -/
def wp (C : Contract Req Resp σ) :
    Program Req Resp ε α → (Except ε α → σ → Prop) → σ → Prop
  | .ret a, post, s => post (.ok a) s
  | .fail e, post, s => post (.error e) s
  | .abort _, _, _ => True
  | .call r k, post, s => ∀ s₁, C.rely s s₁ → C.inv s₁ → ∀ a t, C.exec s₁ r a t →
      C.guar s₁ r t ∧ C.wp (k a) post t

@[simp] theorem wp_ret {a : α} {post : Except ε α → σ → Prop} {s : σ} :
    C.wp (.ret a : Program Req Resp ε α) post s ↔ post (.ok a) s := Iff.rfl

@[simp] theorem wp_fail {e : ε} {post : Except ε α → σ → Prop} {s : σ} :
    C.wp (.fail e : Program Req Resp ε α) post s ↔ post (.error e) s := Iff.rfl

@[simp] theorem wp_abort {m : String} {post : Except ε α → σ → Prop} {s : σ} :
    C.wp (.abort m : Program Req Resp ε α) post s := trivial

theorem wp_mono {p : Program Req Resp ε α} {post post' : Except ε α → σ → Prop} {s : σ}
    (h : C.wp p post s) (hp : ∀ x t, post x t → post' x t) : C.wp p post' s := by
  induction p generalizing s with
  | ret a => exact hp _ _ h
  | fail e => exact hp _ _ h
  | abort m => trivial
  | call r k ih =>
    intro s₁ hr hi a t he
    exact ⟨(h s₁ hr hi a t he).1, ih a (h s₁ hr hi a t he).2⟩

theorem wp_bind {p : Program Req Resp ε α} {f : α → Program Req Resp ε β}
    {post : Except ε β → σ → Prop} {s : σ}
    (h : C.wp p (fun x t => match x with
      | .ok a => C.wp (f a) post t
      | .error e => post (.error e) t) s) :
    C.wp (p >>= f) post s := by
  induction p generalizing s with
  | ret a => exact h
  | fail e => exact h
  | abort m => trivial
  | call r k ih =>
    intro s₁ hr hi a t he
    exact ⟨(h s₁ hr hi a t he).1, ih a (h s₁ hr hi a t he).2⟩

theorem wp_attempt {p : Program Req Resp ε α} {post : Except ε (Except ε α) → σ → Prop} {s : σ}
    (h : C.wp p (fun x t => post (.ok x) t) s) : C.wp p.attempt post s := by
  induction p generalizing s with
  | ret a => exact h
  | fail e => exact h
  | abort m => trivial
  | call r k ih =>
    intro s₁ hr hi a t he
    exact ⟨(h s₁ hr hi a t he).1, ih a (h s₁ hr hi a t he).2⟩

theorem wp_ofExcept {x : Except ε α} {post : Except ε α → σ → Prop} {s : σ} (h : post x s) :
    C.wp (.ofExcept x) post s := by
  cases x <;> exact h

/-- What others do before the next request does not matter. -/
theorem wp_rely {p : Program Req Resp ε α} {post : Except ε α → σ → Prop} {s t : σ}
    (htrans : ∀ a b c, C.rely a b → C.rely b c → C.rely a c)
    (hpost : ∀ x, post x s → post x t) (h : C.wp p post s) (hr : C.rely s t) :
    C.wp p post t := by
  cases p with
  | ret a => exact hpost _ h
  | fail e => exact hpost _ h
  | abort m => trivial
  | call r k => exact fun s₁ hr₁ => h s₁ (htrans s t s₁ hr hr₁)

/-- A contract on the part `f` of a state, with a stronger invariant, less interference and
a guarantee that follows from the old one for the requests that the program makes. -/
theorem wp_project {σ' : Type} {C' : Contract Req Resp σ'} (f : σ' → σ)
    {p : Program Req Resp ε α} {ask : Req → Prop} {done : α → Prop} {post : Except ε α → σ → Prop}
    (hp : p.Within ask done) (hexec : ∀ s r a t, C'.exec s r a t → C.exec (f s) r a (f t))
    (hinv : ∀ s, C'.inv s → C.inv (f s)) (hrely : ∀ s t, C'.rely s t → C.rely (f s) (f t))
    (hguar : ∀ s r a t, ask r → C'.inv s → C'.exec s r a t → C.guar (f s) r (f t) → C'.guar s r t)
    {s : σ'} (h : C.wp p post (f s)) : C'.wp p (fun x t => post x (f t)) s := by
  induction p generalizing s with
  | ret a => exact h
  | fail e => exact h
  | abort m => trivial
  | call r k ih =>
    intro s₁ hr hi a t he
    obtain ⟨hg, hk⟩ := h (f s₁) (hrely s s₁ hr) (hinv s₁ hi) a (f t) (hexec s₁ r a t he)
    exact ⟨hguar s₁ r a t hp.1 hi he hg, ih a (hp.2 a) hk⟩

/-- The same on the whole state. -/
theorem wp_weaken {C' : Contract Req Resp σ} {p : Program Req Resp ε α} {ask : Req → Prop}
    {done : α → Prop} {post : Except ε α → σ → Prop} (hp : p.Within ask done)
    (hexec : ∀ s r a t, C'.exec s r a t → C.exec s r a t)
    (hinv : ∀ s, C'.inv s → C.inv s) (hrely : ∀ s t, C'.rely s t → C.rely s t)
    (hguar : ∀ s r a t, ask r → C'.inv s → C'.exec s r a t → C.guar s r t → C'.guar s r t) {s : σ}
    (h : C.wp p post s) : C'.wp p post s :=
  wp_project id hp hexec hinv hrely hguar h

/-- Run a program on every element of a list, keeping a relation to the first state. -/
theorem wp_forEach {l : List ι} {f : ι → Program Req Resp ε Unit} {K : σ → σ → Prop}
    (htrans : ∀ a b c, K a b → K b c → K a c) {s : σ} (hs : K s s)
    (h : ∀ i ∈ l, ∀ t, K s t → C.wp (f i) (fun _ u => K t u) t) :
    C.wp (.forEach l f) (fun _ u => K s u) s := by
  suffices ∀ t, K s t → C.wp (.forEach l f) (fun _ u => K s u) t from this s hs
  induction l with
  | nil => exact fun t ht => ht
  | cons i is ih =>
    intro t ht
    refine wp_bind (wp_mono (h i List.mem_cons_self t ht) fun x u hu => ?_)
    have hsu : K s u := htrans s t u ht hu
    cases x with
    | ok a => exact ih (fun j hj => h j (List.mem_cons_of_mem i hj)) u hsu
    | error e => exact hsu

/-- A program whose requests are all harmless: each keeps the guarantee and a relation
`K` that the interference keeps too. -/
theorem wp_of_within {p : Program Req Resp ε α} {ask : Req → Prop} {done : α → Prop}
    {K : σ → σ → Prop} (hrefl : ∀ s, K s s) (htrans : ∀ a b c, K a b → K b c → K a c)
    (hrely : ∀ s t, C.rely s t → K s t)
    (hstep : ∀ s r a t, ask r → C.inv s → C.exec s r a t → C.guar s r t ∧ K s t)
    (h : p.Within ask done) (s : σ) :
    C.wp p (fun x t => K s t ∧ ∀ a, x = .ok a → done a) s := by
  induction p generalizing s with
  | ret a => exact ⟨hrefl s, fun b hb => by cases hb; exact h⟩
  | fail e => exact ⟨hrefl s, fun b hb => by cases hb⟩
  | abort m => trivial
  | call r k ih =>
    intro s₁ hr hi a t he
    obtain ⟨hg, hk⟩ := hstep s₁ r a t h.1 hi he
    refine ⟨hg, wp_mono (ih a (h.2 a) t) fun x u hx => ⟨?_, hx.2⟩⟩
    exact htrans _ _ _ (htrans _ _ _ (hrely _ _ hr) hk) hx.1

/-- The same from states with a property `I` that the requests and the interference keep. -/
theorem wp_of_within_from {p : Program Req Resp ε α} {ask : Req → Prop} {done : α → Prop}
    {K : σ → σ → Prop} {I : σ → Prop} (hrefl : ∀ s, K s s) (htrans : ∀ a b c, K a b → K b c → K a c)
    (hrely : ∀ s t, C.rely s t → K s t) (hkeep : ∀ s t, K s t → I s → I t)
    (hstep : ∀ s r a t, ask r → C.inv s → I s → C.exec s r a t → C.guar s r t ∧ K s t)
    (h : p.Within ask done) {s : σ} (hs : I s) :
    C.wp p (fun x t => K s t ∧ ∀ a, x = .ok a → done a) s := by
  induction p generalizing s with
  | ret a => exact ⟨hrefl s, fun b hb => by cases hb; exact h⟩
  | fail e => exact ⟨hrefl s, fun b hb => by cases hb⟩
  | abort m => trivial
  | call r k ih =>
    intro s₁ hr hi a t he
    have hs₁ : I s₁ := hkeep s s₁ (hrely s s₁ hr) hs
    obtain ⟨hg, hk⟩ := hstep s₁ r a t h.1 hi hs₁ he
    refine ⟨hg, wp_mono (ih a (h.2 a) (hkeep s₁ t hk hs₁)) fun x u hx => ⟨?_, hx.2⟩⟩
    exact htrans _ _ _ (htrans _ _ _ (hrely _ _ hr) hk) hx.1

end Contract

/-! ## The rule for a whole machine -/

/-- How a worker's requests are answered in the allowed steps of a machine. -/
def Machine.Exec (M : Machine W Req Resp ε ρ σ χ ι η)
    (allowed : σ → Event W Req χ ι η → Prop) (w : W) (s : σ) (r : Req) (a : Resp r) (t : σ) :
    Prop :=
  ∃ x, allowed s (.call w r x) ∧ M.answer w s r x = some (a, t)

/-- An invariant with the reliance and the guarantee of every worker. -/
structure Terms (W Req σ : Type) where
  inv : σ → Prop
  rely : W → σ → σ → Prop
  guar : W → σ → Req → σ → Prop

/-- The contract of one worker under given terms. -/
def Terms.contract (T : Terms W Req σ) (M : Machine W Req Resp ε ρ σ χ ι η)
    (allowed : σ → Event W Req χ ι η → Prop) (w : W) : Contract Req Resp σ where
  exec := M.Exec allowed w
  inv := T.inv
  rely := T.rely w
  guar := T.guar w

/-- Terms under which all workers of a machine can run together. -/
structure Regime (M : Machine W Req Resp ε ρ σ χ ι η)
    (allowed : σ → Event W Req χ ι η → Prop) extends Terms W Req σ where
  rely_refl : ∀ w s, rely w s s
  rely_trans : ∀ w a b c, rely w a b → rely w b c → rely w a c
  call_keeps : ∀ w s r a t, inv s → M.Exec allowed w s r a t → guar w s r t →
    inv t ∧ ∀ v, v ≠ w → rely v s t
  start_keeps : ∀ w s i p t, inv s → allowed s (.start w i) → M.launch w s i = some (p, t) →
    inv t ∧ (∀ v, v ≠ w → rely v s t) ∧ (toTerms.contract M allowed w).wp p (fun _ _ => True) t
  stop_keeps : ∀ w s, inv s → allowed s (.stop w) →
    inv (M.release w s) ∧ ∀ v, v ≠ w → rely v s (M.release w s)
  world_keeps : ∀ s e t, inv s → allowed s (.world e) → M.world s e = some t →
    inv t ∧ ∀ v, rely v s t

namespace Regime

/-- The invariant holds and every running program keeps its contract from here on. -/
def Holds (G : Regime M allowed) (c : Config W Req Resp ε ρ σ) : Prop :=
  G.inv c.state ∧ ∀ w p, c.threads w = some p →
    (G.contract M allowed w).wp p (fun _ _ => True) c.state

variable {G : Regime M allowed} {c d : Config W Req Resp ε ρ σ}

theorem holds_idle {s : σ} (h : G.inv s) : G.Holds ⟨s, fun _ => none⟩ :=
  ⟨h, fun _ _ hw => nomatch hw⟩

theorem wp_keep {w : W} {p : Program Req Resp ε ρ} {s t : σ}
    (h : (G.contract M allowed w).wp p (fun _ _ => True) s) (hr : G.rely w s t) :
    (G.contract M allowed w).wp p (fun _ _ => True) t :=
  Contract.wp_rely (G.rely_trans w) (fun _ _ => trivial) h hr

variable [DecidableEq W]

/-- The other workers keep their contracts when one worker's program is replaced. -/
theorem holds_update {w : W} {q : Option (Program Req Resp ε ρ)} {t : σ} (h : G.Holds c)
    (hi : G.inv t) (hr : ∀ v, v ≠ w → G.rely v c.state t)
    (hq : ∀ p, q = some p → (G.contract M allowed w).wp p (fun _ _ => True) t) :
    G.Holds ⟨t, Function.update c.threads w q⟩ := by
  refine ⟨hi, fun v p hv => ?_⟩
  by_cases hvw : v = w
  · subst hvw
    exact hq p (by simpa using hv)
  · have hv' : c.threads v = some p := by simpa [hvw] using hv
    exact wp_keep (h.2 v p hv') (hr v hvw)

theorem step_holds {e : Event W Req χ ι η} (h : G.Holds c) (ha : allowed c.state e)
    (hs : M.Step c e d) : G.Holds d := by
  cases hs with
  | @call w r k x a t hw hx =>
    have hexec : M.Exec allowed w c.state r a t := ⟨x, ha, hx⟩
    have hwp : (G.contract M allowed w).wp (.call r k) (fun _ _ => True) c.state := h.2 w _ hw
    -- The worker itself has done nothing since its last request, so its own reliance is
    -- only used through the guarantee of this one.
    obtain ⟨hg, hk⟩ := hwp c.state (G.rely_refl w c.state) h.1 a t hexec
    obtain ⟨hi, hr⟩ := G.call_keeps w c.state r a t h.1 hexec hg
    exact holds_update h hi hr fun p hp => by cases hp; exact hk
  | @start w i p t hw hl =>
    obtain ⟨hi, hr, hp⟩ := G.start_keeps w c.state i p t h.1 ha hl
    exact holds_update h hi hr fun q hq => by cases hq; exact hp
  | @stop w p hw =>
    obtain ⟨hi, hr⟩ := G.stop_keeps w c.state h.1 ha
    exact holds_update h hi hr fun q hq => nomatch hq
  | @world e t ht =>
    obtain ⟨hi, hr⟩ := G.world_keeps c.state e t h.1 ha ht
    exact ⟨hi, fun v p hv => wp_keep (h.2 v p hv) (hr v)⟩

/-- Every request made in a step keeps the guarantee of its worker. -/
theorem step_guar {w : W} {r : Req} {x : χ} (h : G.Holds c)
    (ha : allowed c.state (.call w r x)) (hs : M.Step c (.call w r x) d) :
    G.guar w c.state r d.state := by
  cases hs with
  | call hw hx => exact (h.2 w _ hw c.state (G.rely_refl w c.state) h.1 _ _ ⟨x, ha, hx⟩).1

/-- The rely-guarantee rule: along a run of allowed steps all contracts stay kept. -/
theorem run_holds (h : G.Holds c) (hr : M.Run allowed c d) : G.Holds d := by
  induction hr with
  | refl => exact h
  | tail _ ha hs ih => exact step_holds ih ha hs

theorem run_inv (h : G.Holds c) (hr : M.Run allowed c d) : G.inv d.state :=
  (run_holds h hr).1

end Regime

end Interaction
