import RulesEnrichment.Lib.Machine

/-! # Simulations between machines

    A machine `M` simulates within `N` if every step of `M` is matched by
    some steps of `N`, possibly none, so that the states stay related. Then
    every legal run of `M` is matched by a legal run of `N`, and what holds
    of all reachable states of `N` carries over to `M`. -/

namespace StepMachine

universe u v w x

variable {σ : Type u} {ι : Type v} {τ : Type w} {κ : Type x}

/-- `R` relates the states of `M` to states of `N` that can follow them. -/
structure Simulates (M : Machine σ ι) (N : Machine τ κ) (R : σ → τ → Prop) : Prop where
  init : ∀ s, M.init s → ∃ t, N.init t ∧ R s t
  step : ∀ s t i, R s t → M.guard s i → ∃ js, N.Legal t js ∧ R (M.step s i) (N.run t js)

namespace Simulates

variable {M : Machine σ ι} {N : Machine τ κ} {R : σ → τ → Prop}

/-- **Simulation rule**: a legal run is matched by a legal run. -/
theorem run (h : Simulates M N R) {s : σ} {t : τ} {is : List ι} (hst : R s t)
    (hl : M.Legal s is) : ∃ js, N.Legal t js ∧ R (M.run s is) (N.run t js) := by
  -- on the inputs; the runs that match the steps are put end to end
  induction is generalizing s t with
  | nil => exact ⟨[], fun _ hp => absurd hp List.not_mem_nil, hst⟩
  | cons i is ih =>
    obtain ⟨hg, hl'⟩ := (M.legal_cons s i is).mp hl
    obtain ⟨js, hjs, hrel⟩ := h.step s t i hst hg
    obtain ⟨ks, hks, hrel'⟩ := ih hrel hl'
    refine ⟨js ++ ks, (N.legal_append t js ks).mpr ⟨hjs, hks⟩, ?_⟩
    rwa [N.run_append]

theorem reachable (h : Simulates M N R) {s : σ} (hs : M.Reachable s) :
    ∃ t, N.Reachable t ∧ R s t := by
  obtain ⟨s₀, is, hinit, hl, rfl⟩ := hs
  obtain ⟨t₀, ht₀, hrel₀⟩ := h.init s₀ hinit
  obtain ⟨js, hjs, hrel⟩ := h.run hrel₀ hl
  exact ⟨_, ⟨t₀, js, ht₀, hjs, rfl⟩, hrel⟩

/-- What holds of every reachable state of `N`, and depends only on what
    the relation keeps, holds of every reachable state of `M`. -/
theorem invariant (h : Simulates M N R) {P : τ → Prop} {Q : σ → Prop}
    (hP : ∀ t, N.Reachable t → P t) (hPQ : ∀ s t, R s t → P t → Q s) {s : σ}
    (hs : M.Reachable s) : Q s := by
  obtain ⟨t, ht, hrel⟩ := h.reachable hs
  exact hPQ s t hrel (hP t ht)

end Simulates

end StepMachine
