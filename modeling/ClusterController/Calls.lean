import ClusterController.Fitting

/-!
# Single requests under a contract

What a write of an object, a call of librados or librbd and a transaction can do to the state, for any
terms. A request that fails or whose connection is lost may change nothing (`hsame`).
-/

namespace ClusterController

open Interaction (Program Terms)
open Interaction.Contract (wp_bind)
open Ovsdb (Json Consistent Operation)

section Calls

variable [Crates] {T : Terms Worker Request World} {allowed : World → ClusterEvent → Prop} {w : Worker}
  {s : World}

/-- A write of a whole object. -/
theorem contract_replace {κ : Kind} {n : Object κ} {writer : Writer}
    {post : Except Error (Object κ) → World → Prop}
    (hsame : ∀ s₁, T.rely w s s₁ → T.inv s₁ → T.guar w s₁ (.kube (.replace κ n writer)) s₁)
    (hok : ∀ s₁ r c', T.rely w s s₁ → T.inv s₁ → (s₁.kube κ).replace n = .ok (r, c') →
      T.guar w s₁ (.kube (.replace κ n writer)) (s₁.setKube κ c') ∧ post (.ok r) (s₁.setKube κ c'))
    (herr : ∀ e t, post (.error e) t) :
    (T.contract cluster allowed w).wp (kubeCall (.replace κ n writer)) post s := by
  intro s₁ hr hi a t hexec
  obtain ⟨x, -, ha⟩ := hexec
  have hd : x.deliver (.error .unreachable) s₁ (s₁.serveKube x (.replace κ n writer)) = (a, t) :=
    Option.some.inj ha
  simp only [World.serveKube] at hd
  cases hres : (s₁.kube κ).replace n with
  | error e =>
    rw [hres] at hd
    have hat : (∃ e', a = .error e') ∧ t = s₁ := by
      rcases Choice.deliver_cases x (.error .unreachable) s₁ (s₁.store κ (.error e)) with h | h | h <;>
        rw [h] at hd <;> cases hd <;> exact ⟨⟨_, rfl⟩, rfl⟩
    obtain ⟨⟨e', rfl⟩, rfl⟩ := hat
    exact ⟨hsame t hr hi, herr _ _⟩
  | ok p =>
    obtain ⟨r, c'⟩ := p
    rw [hres] at hd
    obtain ⟨hguar, hpost⟩ := hok s₁ r c' hr hi hres
    rcases Choice.deliver_cases x (.error .unreachable) s₁ (s₁.store κ (.ok (r, c'))) with h | h | h <;>
      rw [h] at hd <;> cases hd
    · exact ⟨hguar, hpost⟩
    · exact ⟨hsame s₁ hr hi, herr _ _⟩
    · exact ⟨hguar, herr _ _⟩

/-- A call of librados or librbd. -/
theorem contract_ceph {operation : String} {q : CephRequest} {post : Except Error q.Answer → World → Prop}
    (hsame : ∀ s₁, T.rely w s s₁ → T.inv s₁ → T.guar w s₁ (.ceph q) s₁)
    (hok : ∀ s₁ x, T.rely w s s₁ → T.inv s₁ → T.guar w s₁ (.ceph q) (s₁.serveCeph x q).2 ∧
      ∀ a, (s₁.serveCeph x q).1 = .ok a → post (.ok a) (s₁.serveCeph x q).2)
    (herr : ∀ e t, post (.error e) t) :
    (T.contract cluster allowed w).wp (cephCall operation q) post s := by
  intro s₁ hr hi a t hexec
  obtain ⟨x, -, ha⟩ := hexec
  have hd : x.deliver (.error x.code) s₁ (s₁.serveCeph x q) = (a, t) := Option.some.inj ha
  obtain ⟨hguar, hpost⟩ := hok s₁ x hr hi
  rcases Choice.deliver_cases x (.error x.code) s₁ (s₁.serveCeph x q) with h | h | h <;> rw [h] at hd
  · obtain ⟨hres, rfl⟩ := Prod.mk.inj hd
    cases a with
    | ok v => exact ⟨hguar, hpost v hres⟩
    | error e => exact ⟨hguar, herr _ _⟩
  · cases hd
    exact ⟨hsame s₁ hr hi, herr _ _⟩
  · cases hd
    exact ⟨hguar, herr _ _⟩

/-- A transaction on the northbound database. -/
theorem contract_transact {operations : List Operation} {post : Except Error (List Json) → World → Prop}
    (hsame : ∀ s₁, T.rely w s s₁ → T.inv s₁ → T.guar w s₁ (.transact operations) s₁)
    (hok : ∀ s₁ fresh answers db, T.rely w s s₁ → T.inv s₁ →
      s₁.northbound.transact northbound fresh operations = some (answers, db) →
      T.guar w s₁ (.transact operations) (s₁.setNorthbound db) ∧
        post (.ok answers) (s₁.setNorthbound db)) :
    (T.contract cluster allowed w).wp (transact operations) post s := by
  intro s₁ hr hi a t hexec
  obtain ⟨x, -, ha⟩ := hexec
  have hd : x.deliver none s₁ (s₁.serveTransact x operations) = (a, t) := Option.some.inj ha
  unfold World.serveTransact at hd
  cases hres : s₁.northbound.transact northbound x.fresh operations with
  | none =>
    rw [hres] at hd
    have hat : a = none ∧ t = s₁ := by
      rcases Choice.deliver_cases x none s₁ ((none : Option (List Json)), s₁) with h | h | h <;>
        rw [h] at hd <;> cases hd <;> exact ⟨rfl, rfl⟩
    obtain ⟨rfl, rfl⟩ := hat
    exact ⟨hsame t hr hi, trivial⟩
  | some p =>
    obtain ⟨answers, db⟩ := p
    rw [hres] at hd
    obtain ⟨hguar, hpost⟩ := hok s₁ x.fresh answers db hr hi hres
    rcases Choice.deliver_cases x none s₁ (some answers, s₁.setNorthbound db) with h | h | h <;>
      cases h.symm.trans hd
    · exact ⟨hguar, hpost⟩
    · exact ⟨hsame s₁ hr hi, trivial⟩
    · exact ⟨hguar, trivial⟩

/-- A list of the objects of a type names the rows that there are. -/
theorem contract_list (τ : Type) [OvnCommon τ] [OvnRow τ] {post : Except Error (List τ) → World → Prop}
    (hinv : ∀ s₁, T.inv s₁ → Consistent northbound s₁.northbound)
    (hsame : ∀ s₁, T.rely w s s₁ → T.inv s₁ → T.guar w s₁
      (.transact [.select (OvnCommon.ovnType τ) (listColumns (OvnCommon.ovnType τ))]) s₁)
    (hok : ∀ t, T.rely w s t → T.inv t →
      post (.ok (rowsOf τ t.northbound)) t) :
    (T.contract cluster allowed w).wp (ovnList τ) post s := by
  unfold ovnList listObjects
  rw [Program.bind_assoc']
  refine wp_bind (contract_transact hsame fun s₁ fresh answers db hr hi htr => ?_)
  obtain ⟨rfl, rfl⟩ := (hinv s₁ hi).select htr
  refine ⟨hsame s₁ hr hi, ?_⟩
  change (T.contract cluster allowed w).wp (Program.collect ((s₁.northbound (OvnCommon.ovnType τ)).map
    fun r => r.encode (listColumns (OvnCommon.ovnType τ))) (OvnCommon.deserialize (τ := τ))) _ _
  rw [collect_decode τ (hinv s₁ hi)]
  exact hok s₁ hr hi

end Calls

end ClusterController
