import OptionsData.Kit.Run

namespace Kit

variable {σ ι ν μ : Type*} {step : σ → ι → Option σ} {s t : σ} {actions : List ι}

section Parts

variable [AddCommMonoid μ] [DecidableEq ι] {tasks : Finset ι} (part : ι → σ → ν) (total : σ → μ)
  (holds : ι → ν → μ → Prop)

/-- Tasks that run side by side, each over a part of the state that the others leave alone, and that add to a common
total: what holds of each part and of what its task has added holds however the tasks are interleaved. -/
theorem run_parts (listed : ∀ s t i, step s i = some t → i ∈ tasks)
    (others : ∀ s t i j, step s i = some t → j ≠ i → part j t = part j s)
    (own : ∀ s t i, step s i = some t → ∃ more, total t = total s + more ∧
      ∀ added, holds i (part i s) added → holds i (part i t) (added + more))
    (starts : ∀ i ∈ tasks, holds i (part i s) 0) (reached : run step s actions = some t) :
    ∃ added : ι → μ, (∀ i ∈ tasks, holds i (part i t) (added i)) ∧ total t = total s + ∑ i ∈ tasks, added i := by
  have keep (u : σ) (i : ι) (v : σ) (good : ∃ added : ι → μ, (∀ j ∈ tasks, holds j (part j u) (added j)) ∧
      total u = total s + ∑ j ∈ tasks, added j) (taken : step u i = some v) :
      ∃ added : ι → μ, (∀ j ∈ tasks, holds j (part j v) (added j)) ∧ total v = total s + ∑ j ∈ tasks, added j := by
    obtain ⟨added, parts, sum⟩ := good
    obtain ⟨more, counted, kept⟩ := own u v i taken
    have member := listed u v i taken
    refine ⟨Function.update added i (added i + more), fun j inside => ?_, ?_⟩
    · by_cases same : j = i
      · subst same
        rw [Function.update_self]
        exact kept _ (parts j inside)
      · rw [Function.update_of_ne same, others u v i j taken same]
        exact parts j inside
    · rw [Finset.sum_update_of_mem member, counted, sum, Finset.sum_eq_add_sum_sdiff_singleton_of_mem member added]
      abel
  exact run_invariant keep ⟨fun _ => 0, starts, by simp⟩ reached

end Parts

theorem run_length_le {measure : σ → ℕ} (lowers : ∀ s t i, step s i = some t → measure t < measure s)
    (reached : run step s actions = some t) : actions.length + measure t ≤ measure s := by
  induction actions generalizing s with
  | nil =>
    cases reached
    simp
  | cons i actions ih =>
    obtain ⟨u, first, rest⟩ := run_cons_some.mp reached
    have less := lowers s u i first
    have later := ih rest
    rw [List.length_cons]
    omega

end Kit
