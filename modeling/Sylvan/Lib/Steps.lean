/-! # Runs of a step relation

`Run R n s t`: `n` steps of `R` lead from `s` to `t`. What every step keeps holds at the end of every run. A measure that every
step lowers bounds the runs, so that each of them goes on to a state that no step leaves. -/

/-- A run of `n` steps. -/
inductive Run {σ : Type} (R : σ → σ → Prop) : Nat → σ → σ → Prop where
  | nil (s : σ) : Run R 0 s s
  | snoc {n : Nat} {s t u : σ} : Run R n s t → R t u → Run R (n + 1) s u

/-- No step leaves `s`. -/
def Stuck {σ : Type} (R : σ → σ → Prop) (s : σ) : Prop := ∀ t, ¬R s t

namespace Run
variable {σ : Type} {R : σ → σ → Prop} {I : σ → Prop} {μ : σ → Nat} {n m : Nat} {s t u : σ}

/-- The rule of invariants. -/
theorem keeps (h : Run R n s t) (hs : I s) (hstep : ∀ s t, I s → R s t → I t) : I t := by
  induction h with
  | nil => exact hs
  | snoc _ hr ih => exact hstep _ _ (ih hs) hr

theorem append (h : Run R n s t) (h' : Run R m t u) : Run R (n + m) s u := by
  induction h' with
  | nil => exact h
  | snoc _ hr ih => exact (ih h).snoc hr

/-- A run is no longer than the measure of its start. -/
theorem length_le (h : Run R n s t) (hμ : ∀ s t, R s t → μ t < μ s) : n + μ t ≤ μ s := by
  induction h with
  | nil => omega
  | snoc _ hr ih =>
    have hlt := hμ _ _ hr
    omega

/-- Every state goes on to one that no step leaves. -/
theorem exists_stuck (hμ : ∀ s t, R s t → μ t < μ s) (s : σ) : ∃ n t, Run R n s t ∧ Stuck R t := by
  by_cases hs : Stuck R s
  · exact ⟨0, s, .nil s, hs⟩
  · have hex : ∃ t, R s t := by simpa [Stuck] using hs
    obtain ⟨t, hr⟩ := hex
    have hlt := hμ s t hr
    obtain ⟨n, u, hrun, hu⟩ := exists_stuck hμ t
    exact ⟨1 + n, u, ((Run.nil s).snoc hr).append hrun, hu⟩
termination_by μ s

end Run
