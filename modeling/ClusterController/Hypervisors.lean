import ClusterController.World

/-!
# Domains of the hypervisors

Where a domain is. Everything but a creation and the beginning of a migration takes
domains away and ends migrations (`Shrinks`). A domain that is on one host, or on the two
hosts of one migration in flight, stays so (`Single`), as long as it is created only where
it is or nowhere else (`OnlyAt`).
-/

namespace ClusterController

namespace Hypervisors

variable {l l' l'' : Hypervisors} {host g g' name d source destination : String}
  {m : Migration} {template : DomainTemplate}

theorem has_iff : l.has host name = true ↔
    ∃ x ∈ l.domains, x.host = host ∧ x.template.name = name := by
  unfold has
  simp

theorem has_start : (l.start host template).has g d = true ↔
    (host = g ∧ template.name = d) ∨ l.has g d = true := by
  rw [has_iff, has_iff]
  simp [start]

theorem has_drop : (l.drop host name).has g d = true ↔
    l.has g d = true ∧ ¬ (g = host ∧ d = name) := by
  rw [has_iff, has_iff]
  constructor
  · rintro ⟨x, hx, rfl, rfl⟩
    obtain ⟨hx, hn⟩ := List.mem_filter.mp hx
    refine ⟨⟨x, hx, rfl, rfl⟩, fun h => ?_⟩
    simp [h.1, h.2] at hn
  · rintro ⟨⟨x, hx, rfl, rfl⟩, hn⟩
    refine ⟨x, List.mem_filter.mpr ⟨hx, ?_⟩, rfl, rfl⟩
    simpa [imp_iff_not_or] using hn

theorem has_send : (l.send source destination name).has g d = true ↔
    l.has g d = true ∨ (g = destination ∧ d = name ∧ l.has source name = true) := by
  rw [has_iff, has_iff, has_iff]
  constructor
  · rintro ⟨x, hx, rfl, rfl⟩
    rcases List.mem_append.mp hx with hx | hx
    · obtain ⟨y, hy, rfl⟩ := List.mem_map.mp hx
      obtain ⟨hy, hn⟩ := List.mem_filter.mp hy
      simp only [Bool.and_eq_true, decide_eq_true_eq] at hn
      exact .inr ⟨rfl, hn.2, y, hy, hn.1, hn.2⟩
    · exact .inl ⟨x, hx, rfl, rfl⟩
  · rintro (⟨x, hx, rfl, rfl⟩ | ⟨rfl, rfl, x, hx, rfl, rfl⟩)
    · exact ⟨x, List.mem_append_right _ hx, rfl, rfl⟩
    · refine ⟨⟨g, x.template⟩, List.mem_append_left _ (List.mem_map.mpr ⟨x, ?_, rfl⟩), rfl, rfl⟩
      exact List.mem_filter.mpr ⟨hx, by simp⟩

@[simp] theorem migrations_start : (l.start host template).migrations = l.migrations := rfl
@[simp] theorem migrations_drop : (l.drop host name).migrations = l.migrations := rfl
@[simp] theorem has_finish : (l.finish m).has host name = l.has host name := rfl

theorem mem_migrations_finish {m' : Migration} :
    m' ∈ (l.finish m).migrations ↔ m' ∈ l.migrations ∧ m' ≠ m := by
  simp [finish]

theorem mem_migrations_send : m ∈ (l.send source destination name).migrations ↔
    m = ⟨name, source, destination⟩ ∨ m ∈ l.migrations := List.mem_cons

theorem busy_iff : l.busy host name = true ↔
    ∃ m ∈ l.migrations, m.domain = name ∧ (m.source = host ∨ m.destination = host) := by
  unfold busy
  simp

/-! ## Less of everything -/

/-- Domains and migrations only go. Where a migration goes, one of its ends has lost the
domain. -/
structure Shrinks (l l' : Hypervisors) : Prop where
  has : ∀ g d, l'.has g d = true → l.has g d = true
  migrations : ∀ m ∈ l'.migrations, m ∈ l.migrations
  ends : ∀ m ∈ l.migrations, m ∉ l'.migrations →
    l'.has m.source m.domain = true → l'.has m.destination m.domain = true → False

theorem Shrinks.refl (l : Hypervisors) : l.Shrinks l :=
  ⟨fun _ _ h => h, fun _ h => h, fun _ h hn => absurd h hn⟩

theorem Shrinks.trans (h : l.Shrinks l') (h' : l'.Shrinks l'') : l.Shrinks l'' := by
  refine ⟨fun g d hg => h.has g d (h'.has g d hg), fun m hm => h.migrations m (h'.migrations m hm),
    fun m hm hn hs hd => ?_⟩
  by_cases hm' : m ∈ l'.migrations
  · exact h'.ends m hm' hn hs hd
  · exact h.ends m hm hm' (h'.has _ _ hs) (h'.has _ _ hd)

theorem shrinks_drop (l : Hypervisors) (host name : String) : l.Shrinks (l.drop host name) :=
  ⟨fun _ _ h => (has_drop.mp h).1, fun _ h => h, fun _ h hn => absurd h hn⟩

/-- A migration that is over and has left one of its hosts. -/
theorem shrinks_finish_drop (h : host = m.source ∨ host = m.destination) :
    l.Shrinks ((l.finish m).drop host m.domain) := by
  refine ⟨fun g d hg => (has_drop.mp hg).1, fun m' hm => (mem_migrations_finish.mp hm).1,
    fun m' hm hn hs hd => ?_⟩
  have he : m' = m := by
    by_contra hne
    exact hn (mem_migrations_finish.mpr ⟨hm, hne⟩)
  subst he
  rcases h with rfl | rfl
  · exact (has_drop.mp hs).2 ⟨rfl, rfl⟩
  · exact (has_drop.mp hd).2 ⟨rfl, rfl⟩

theorem shrinks_complete (l : Hypervisors) (m : Migration) : l.Shrinks (l.complete m) :=
  shrinks_finish_drop (.inl rfl)

theorem shrinks_abort (l : Hypervisors) (m : Migration) : l.Shrinks (l.abort m) :=
  shrinks_finish_drop (.inr rfl)

theorem shrinks_stop (l : Hypervisors) (host name : String) : l.Shrinks (l.stop host name) := by
  suffices ∀ ms : List Migration, l.Shrinks (ms.foldl abort l) from
    (this _).trans (shrinks_drop _ host name)
  intro ms
  induction ms generalizing l with
  | nil => exact .refl l
  | cons m ms ih => exact (shrinks_abort l m).trans (ih (l.abort m))

theorem has_stop (l : Hypervisors) (host name : String) : (l.stop host name).has host name ≠ true :=
  fun h => (has_drop.mp h).2 ⟨rfl, rfl⟩

/-! ## Where a domain is -/

/-- The domain is on one host only and no migration of it is in flight. -/
def OnlyAt (l : Hypervisors) (d host : String) : Prop :=
  (∀ m ∈ l.migrations, m.domain ≠ d) ∧ ∀ g, l.has g d = true → g = host

/-- Some host has the domain, or a migration of it is in flight. -/
def Occupied (l : Hypervisors) (d : String) : Prop :=
  (∃ g, l.has g d = true) ∨ ∃ m ∈ l.migrations, m.domain = d

/-- The domain is on at most one host, or on the hosts of its only migration. -/
def Single (l : Hypervisors) (d : String) : Prop :=
  (∃ host, l.OnlyAt d host) ∨
  ∃ m ∈ l.migrations, m.domain = d ∧ (∀ m' ∈ l.migrations, m'.domain = d → m' = m) ∧
    ∀ g, l.has g d = true → g = m.source ∨ g = m.destination

theorem OnlyAt.of_vacant (h : ¬ l.Occupied d) (host : String) : l.OnlyAt d host :=
  ⟨fun m hm hd => h (.inr ⟨m, hm, hd⟩), fun g hg => absurd (.inl ⟨g, hg⟩) h⟩

theorem OnlyAt.vacant (h : l.OnlyAt d host) (hn : l.has host d ≠ true) : ¬ l.Occupied d := by
  rintro (⟨g, hg⟩ | ⟨m, hm, hd⟩)
  · have he : g = host := h.2 g hg
    exact hn (he ▸ hg)
  · exact h.1 m hm hd

theorem OnlyAt.shrink (h : l.OnlyAt d host) (hs : l.Shrinks l') : l'.OnlyAt d host :=
  ⟨fun m hm => h.1 m (hs.migrations m hm), fun g hg => h.2 g (hs.has g d hg)⟩

theorem Occupied.of_shrink (h : l'.Occupied d) (hs : l.Shrinks l') : l.Occupied d := by
  rcases h with ⟨g, hg⟩ | ⟨m, hm, hd⟩
  · exact .inl ⟨g, hs.has g d hg⟩
  · exact .inr ⟨m, hs.migrations m hm, hd⟩

theorem Single.shrink (h : l.Single d) (hs : l.Shrinks l') : l'.Single d := by
  rcases h with ⟨host, h⟩ | ⟨m, hm, rfl, hu, hg⟩
  · exact .inl ⟨host, h.shrink hs⟩
  · by_cases hm' : m ∈ l'.migrations
    · exact .inr ⟨m, hm', rfl, fun m' h => hu m' (hs.migrations m' h),
        fun g h => hg g (hs.has g _ h)⟩
    · left
      have hnone : ∀ m' ∈ l'.migrations, m'.domain ≠ m.domain := by
        intro m' h hd
        exact hm' (hu m' (hs.migrations m' h) hd ▸ h)
      -- One of the two ends has lost the domain, so the other is the only one.
      by_cases hsrc : l'.has m.source m.domain = true
      · refine ⟨m.source, hnone, fun g h => ?_⟩
        rcases hg g (hs.has g _ h) with he | he
        · exact he
        · exact (hs.ends m hm hm' hsrc (he ▸ h)).elim
      · refine ⟨m.destination, hnone, fun g h => ?_⟩
        rcases hg g (hs.has g _ h) with he | he
        · exact absurd (he ▸ h) hsrc
        · exact he

/-! ## A new domain, and a new migration -/

theorem OnlyAt.start (h : l.OnlyAt d host) (ht : template.name = d → g = host) :
    (l.start g template).OnlyAt d host := by
  refine ⟨h.1, fun g' hg' => ?_⟩
  rcases has_start.mp hg' with ⟨rfl, hd⟩ | hg'
  · exact ht hd
  · exact h.2 g' hg'

theorem Occupied.of_start (h : (l.start host template).Occupied d) :
    template.name = d ∨ l.Occupied d := by
  rcases h with ⟨g, hg⟩ | ⟨m, hm, hd⟩
  · rcases has_start.mp hg with ⟨-, ht⟩ | hg
    · exact .inl ht
    · exact .inr (.inl ⟨g, hg⟩)
  · exact .inr (.inr ⟨m, hm, hd⟩)

theorem Single.start (h : l.Single d) (ht : template.name = d → l.OnlyAt d host) :
    (l.start host template).Single d := by
  by_cases hd : template.name = d
  · exact .inl ⟨host, (ht hd).start fun _ => rfl⟩
  · rcases h with ⟨g, h⟩ | ⟨m, hm, hmd, hu, hg⟩
    · exact .inl ⟨g, h.start fun h => absurd h hd⟩
    · refine .inr ⟨m, hm, hmd, hu, fun g h => ?_⟩
      rcases has_start.mp h with ⟨-, ht⟩ | h
      · exact absurd ht hd
      · exact hg g h

theorem OnlyAt.send (h : l.OnlyAt d host) (hn : name ≠ d) :
    (l.send source destination name).OnlyAt d host := by
  refine ⟨fun m hm => ?_, fun g hg => ?_⟩
  · rcases mem_migrations_send.mp hm with rfl | hm
    · exact hn
    · exact h.1 m hm
  · rcases has_send.mp hg with hg | ⟨-, rfl, -⟩
    · exact h.2 g hg
    · exact absurd rfl hn

theorem Occupied.of_send (hs : l.has source name = true)
    (h : (l.send source destination name).Occupied d) : l.Occupied d := by
  rcases h with ⟨g, hg⟩ | ⟨m, hm, hd⟩
  · rcases has_send.mp hg with hg | ⟨-, rfl, -⟩
    · exact .inl ⟨g, hg⟩
    · exact .inl ⟨source, hs⟩
  · rcases mem_migrations_send.mp hm with rfl | hm
    · exact .inl ⟨source, by rw [← hd]; exact hs⟩
    · exact .inr ⟨m, hm, hd⟩

/-- libvirt starts a migration of a domain only where none of it is in flight. -/
theorem Single.send (h : l.Single d) (hs : l.has source name = true)
    (hb : l.busy source name ≠ true) : (l.send source destination name).Single d := by
  by_cases hd : name = d
  · subst hd
    rcases h with ⟨host, h⟩ | ⟨m, hm, hmd, hu, hg⟩
    · refine .inr ⟨⟨name, source, destination⟩, mem_migrations_send.mpr (.inl rfl), rfl,
        fun m' hm' hd' => ?_, fun g hg => ?_⟩
      · rcases mem_migrations_send.mp hm' with rfl | hm'
        · rfl
        · exact absurd hd' (h.1 m' hm')
      · rcases has_send.mp hg with hg | ⟨rfl, -, -⟩
        · exact .inl ((h.2 g hg).trans (h.2 source hs).symm)
        · exact .inr rfl
    · refine absurd (busy_iff.mpr ⟨m, hm, hmd, ?_⟩) hb
      rcases hg source hs with he | he
      · exact .inl he.symm
      · exact .inr he.symm
  · rcases h with ⟨host, h⟩ | ⟨m, hm, hmd, hu, hg⟩
    · exact .inl ⟨host, h.send hd⟩
    · refine .inr ⟨m, mem_migrations_send.mpr (.inr hm), hmd, fun m' hm' hd' => ?_, fun g hgd => ?_⟩
      · rcases mem_migrations_send.mp hm' with rfl | hm'
        · exact absurd hd' hd
        · exact hu m' hm' hd'
      · rcases has_send.mp hgd with hgd | ⟨-, rfl, -⟩
        · exact hg g hgd
        · exact absurd rfl hd

end Hypervisors

/-! ## What steps do to the hypervisors -/

namespace World

variable {s t : World} {w : Worker} {x : Choice}

/-- Only these two requests add anything. -/
theorem serveLibvirt_cases {host : String} {q : LibvirtRequest} {p : Option q.Answer × World}
    (h : s.serveLibvirt host q = some p) :
    s.hypervisors.Shrinks p.2.hypervisors ∨
    (∃ template, q = .createXml template ∧
      p.2.hypervisors = s.hypervisors.start host template) ∨
    ∃ d destination, q = .startMigration d destination ∧ s.hypervisors.has host d = true ∧
      s.hypervisors.busy host d ≠ true ∧
      p.2.hypervisors = s.hypervisors.send host destination d := by
  cases q with
  | listAllDomains =>
    cases h
    exact .inl (.refl _)
  | lookupByName d =>
    cases h
    exact .inl (.refl _)
  | isActive d =>
    cases h
    exact .inl (.refl _)
  | destroy d =>
    cases h
    left
    split
    · exact Hypervisors.shrinks_stop _ host d
    · exact .refl _
  | createXml template =>
    cases h
    split
    · exact .inl (.refl _)
    · exact .inr (.inl ⟨template, rfl, rfl⟩)
  | startMigration d destination =>
    cases h
    split
    · next hc =>
      simp only [Bool.and_eq_true, Bool.not_eq_true'] at hc
      exact .inr (.inr ⟨d, destination, rfl, hc.1.1, by simp [hc.1.2], rfl⟩)
    · exact .inl (.refl _)
  | awaitMigration d =>
    simp only [serveLibvirt] at h
    split at h
    · cases h
    · cases h
      exact .inl (.refl _)

theorem answer_hypervisors {r : Request} {a : r.Answer} (h : World.answer w s r x = some (a, t)) :
    s.hypervisors.Shrinks t.hypervisors ∨
    (∃ host template, r = .libvirt host (.createXml template) ∧
      t.hypervisors = s.hypervisors.start host template) ∨
    ∃ host d destination, r = .libvirt host (.startMigration d destination) ∧
      s.hypervisors.has host d = true ∧ s.hypervisors.busy host d ≠ true ∧
      t.hypervisors = s.hypervisors.send host destination d := by
  by_cases hq : ∃ host q, r = .libvirt host q
  · obtain ⟨host, q, rfl⟩ := hq
    simp only [answer] at h
    split at h
    · next served hs =>
      rcases Choice.deliver_state (Option.some.inj h) with rfl | rfl
      · exact .inl (.refl _)
      · rcases serveLibvirt_cases hs with hc | ⟨template, rfl, hc⟩ | ⟨d, destination, rfl, hc⟩
        · exact .inl hc
        · exact .inr (.inl ⟨host, template, rfl, hc⟩)
        · exact .inr (.inr ⟨host, d, destination, rfl, hc⟩)
    · cases h
  · left
    rw [(answer_frame h).hypervisors fun host q hr => hq ⟨host, q, hr⟩]
    exact .refl _

/-- A domain that is reported active is there. -/
theorem has_of_active {host d : String} {active : Bool}
    (h : World.answer w s (.libvirt host (.isActive d)) x = some (some active, t)) :
    s.hypervisors.has host d = true := by
  have hd : x.deliver none s (if s.hypervisors.has host d then some true else none, s)
      = (some active, t) := Option.some.inj h
  by_contra hne
  rw [if_neg hne] at hd
  rcases x.deliver_cases none s ((none : Option Bool), s) with h | h | h <;>
    rw [h] at hd <;> cases hd

theorem happen_hypervisors {e : WorldEvent} (h : s.happen e = some t) :
    s.hypervisors.Shrinks t.hypervisors := by
  cases e with
  | create κ k labels annotations spec =>
    obtain ⟨c, -, rfl⟩ := Option.map_eq_some_iff.mp h
    exact .refl _
  | edit κ k labels annotations spec =>
    obtain ⟨c, -, rfl⟩ := Option.map_eq_some_iff.mp h
    exact .refl _
  | delete κ k time =>
    obtain ⟨c, -, rfl⟩ := Option.map_eq_some_iff.mp h
    exact .refl _
  | assignAddress port address =>
    cases h
    exact .refl _
  | setNodeStatus k status =>
    simp only [happen] at h
    split at h <;> cases h
    exact .refl _
  | migrationCompletes m =>
    simp only [happen] at h
    split at h <;> cases h
    exact Hypervisors.shrinks_complete _ m
  | migrationAborts m =>
    simp only [happen] at h
    split at h <;> cases h
    exact Hypervisors.shrinks_abort _ m
  | domainStops host domain =>
    simp only [happen] at h
    split at h <;> cases h
    exact Hypervisors.shrinks_stop _ host domain
  | storeImage pool image =>
    simp only [happen] at h
    split at h <;> cases h
    exact .refl _

/-- An event is about objects or about domains. -/
theorem happen_frame {e : WorldEvent} (h : s.happen e = some t) :
    t.vms = s.vms ∨ t.hypervisors = s.hypervisors := by
  cases e with
  | create κ k labels annotations spec =>
    obtain ⟨c, -, rfl⟩ := Option.map_eq_some_iff.mp h
    exact .inr rfl
  | edit κ k labels annotations spec =>
    obtain ⟨c, -, rfl⟩ := Option.map_eq_some_iff.mp h
    exact .inr rfl
  | delete κ k time =>
    obtain ⟨c, -, rfl⟩ := Option.map_eq_some_iff.mp h
    exact .inr rfl
  | assignAddress port address =>
    cases h
    exact .inr rfl
  | setNodeStatus k status =>
    simp only [happen] at h
    split at h <;> cases h
    exact .inr rfl
  | _ =>
    simp only [happen] at h
    split at h <;> cases h
    exact .inl rfl

theorem hypervisors_of_changes {e : WorldEvent} {old new : VirtualMachine}
    (h : s.happen e = some t) (hc : s.vms.Changes t.vms old new) :
    t.hypervisors = s.hypervisors := by
  rcases happen_frame h with hv | hh
  · exact absurd hv hc.ne
  · exact hh

theorem release_hypervisors (w : Worker) (s : World) :
    (World.release w s).hypervisors = s.hypervisors := by
  unfold World.release
  split <;> rfl

end World

end ClusterController
