import Sylvan.Lib.Exec

/-! # Two computations side by side

`rwp lift x y Q E s t` is the weakest precondition of a pair: `x` run from `s` ends as `y` run from `t` does. Where both return,
`Q` relates their values and their states; where both return an error it is the same one, and `E` relates the states; and a
fault `g` of `y` is the fault `lift g` of `x`. Unlike `Refines`, it lets the values differ, and it says nothing of the states
after a fault.

`rwp.bind` goes on in both, `rwp.left` and `rwp.right` in one of them. -/

namespace Exec

section Pair
variable {σ τ ε φ ψ α β γ δ : Type} {lift : ψ → φ} {x : Exec σ ε φ α} {y : Exec τ ε ψ β} {Q Q' : α → β → σ → τ → Prop}
  {E E' : σ → τ → Prop} {s : σ} {t : τ}

def rwp (lift : ψ → φ) (x : Exec σ ε φ α) (y : Exec τ ε ψ β) (Q : α → β → σ → τ → Prop) (E : σ → τ → Prop) (s : σ) (t : τ) : Prop :=
  match x s, y t with
  | .ok a s', .ok b t' => Q a b s' t'
  | .error e s', .error e' t' => e = e' ∧ E s' t'
  | .fault f _, .fault g _ => f = lift g
  | _, _ => False

/-! ## Ends -/

@[simp] theorem rwp_error {e : ε} : rwp lift (error e) (error e) Q E s t ↔ E s t := ⟨And.right, fun h => ⟨rfl, h⟩⟩

@[simp] theorem rwp_fault {g : ψ} : rwp lift (fault (lift g) : Exec σ ε φ α) (fault g) Q E s t := rfl

theorem rwp.mono (h : rwp lift x y Q E s t) (hQ : ∀ a b s' t', Q a b s' t' → Q' a b s' t') (hE : ∀ s' t', E s' t' → E' s' t') :
    rwp lift x y Q' E' s t := by
  unfold rwp at h ⊢
  cases hx : x s <;> cases hy : y t <;> rw [hx, hy] at h
  case ok.ok => exact hQ _ _ _ _ h
  case error.error => exact h.imp_right (hE _ _)
  case fault.fault => exact h
  all_goals exact h.elim

/-- What is known of the ends of `y` besides. -/
theorem rwp.and_wp {P : β → τ → Prop} {P' : τ → Prop} (h : rwp lift x y Q E s t)
    (hy : wp (fun _ _ => True) y P (fun _ => P') t) :
    rwp lift x y (fun a b s' t' => Q a b s' t' ∧ P b t') (fun s' t' => E s' t' ∧ P' t') s t := by
  unfold wp at hy
  unfold rwp at h ⊢
  cases hx : x s <;> cases hyt : y t <;> rw [hx, hyt] at h <;> rw [hyt] at hy
  case ok.ok => exact ⟨h, hy⟩
  case error.error => exact ⟨h.1, h.2, hy⟩
  case fault.fault => exact h
  all_goals exact h.elim

theorem rwp.ok {a : α} {s' : σ} (h : rwp lift x y Q E s t) (hx : x s = .ok a s') : ∃ b t', y t = .ok b t' ∧ Q a b s' t' := by
  unfold rwp at h
  rw [hx] at h
  cases hy : y t <;> rw [hy] at h
  case ok => exact ⟨_, _, rfl, h⟩
  all_goals exact h.elim

theorem rwp.ok_right {b : β} {t' : τ} (h : rwp lift x y Q E s t) (hy : y t = .ok b t') : ∃ a s', x s = .ok a s' ∧ Q a b s' t' := by
  unfold rwp at h
  rw [hy] at h
  cases hx : x s <;> rw [hx] at h
  case ok => exact ⟨_, _, rfl, h⟩
  all_goals exact h.elim

theorem rwp.error {e : ε} {s' : σ} (h : rwp lift x y Q E s t) (hx : x s = .error e s') : ∃ t', y t = .error e t' ∧ E s' t' := by
  unfold rwp at h
  rw [hx] at h
  cases hy : y t <;> rw [hy] at h
  case error =>
    obtain ⟨rfl, h⟩ := h
    exact ⟨_, rfl, h⟩
  all_goals exact h.elim

/-! ## Sequences -/

section Sequence
variable {f : α → Exec σ ε φ γ} {g : β → Exec τ ε ψ δ} {R : γ → δ → σ → τ → Prop}

theorem rwp.bind (h : rwp lift x y Q E s t) (hfg : ∀ a b s' t', Q a b s' t' → rwp lift (f a) (g b) R E' s' t')
    (hE : ∀ s' t', E s' t' → E' s' t') : rwp lift (x >>= f) (y >>= g) R E' s t := by
  unfold rwp at h ⊢
  simp only [Bind.bind, Exec.bind]
  cases hx : x s <;> cases hy : y t <;> rw [hx, hy] at h
  case ok.ok => exact hfg _ _ _ _ h
  case error.error => exact h.imp_right (hE _ _)
  case fault.fault => exact h
  all_goals exact h.elim

/-- A step that only `x` makes. -/
theorem rwp.left {z : Exec τ ε ψ δ} (h : wp (fun _ _ => False) x (fun a s' => rwp lift (f a) z R E s' t) (fun _ _ => False) s) :
    rwp lift (x >>= f) z R E s t := by
  obtain ⟨a, s', hx, h⟩ := h.exists_ok
  unfold rwp at h ⊢
  rwa [bind_of_ok hx]

/-- A step that only `y` makes. -/
theorem rwp.right {z : Exec σ ε φ γ} (h : wp (fun _ _ => False) y (fun b t' => rwp lift z (g b) R E s t') (fun _ _ => False) t) :
    rwp lift z (y >>= g) R E s t := by
  obtain ⟨b, t', hy, h⟩ := h.exists_ok
  unfold rwp at h ⊢
  rwa [bind_of_ok hy]

/-- `x` alone is followed, to an end at which `y` is known to return. -/
theorem rwp.of_wp (h : wp (fun _ _ => False) x (fun a s' => ∃ b t', y t = .ok b t' ∧ Q a b s' t') (fun _ _ => False) s) :
    rwp lift x y Q E s t := by
  obtain ⟨a, s', hx, b, t', hy, h⟩ := h.exists_ok
  unfold rwp
  rw [hx, hy]
  exact h

/-- What comes behind `y` is not reached. -/
theorem rwp.right_fails {R : α → δ → σ → τ → Prop} (h : rwp lift x y (fun _ _ _ _ => False) E s t) : rwp lift x (y >>= g) R E s t := by
  unfold rwp at h ⊢
  simp only [Bind.bind, Exec.bind]
  cases hx : x s <;> cases hy : y t <;> rw [hx, hy] at h
  case error.error => exact h
  case fault.fault => exact h
  all_goals exact h.elim

theorem rwp_get {f : σ → Exec σ ε φ γ} {g : τ → Exec τ ε ψ δ} :
    rwp lift (get >>= f) (get >>= g) R E s t ↔ rwp lift (f s) (g t) R E s t := Iff.rfl

/-- The errors of both are values from here on. -/
theorem rwp.attempt_bind {f : Except ε α → Exec σ ε φ γ} {g : Except ε β → Exec τ ε ψ δ} (h : rwp lift x y Q E s t)
    (hok : ∀ a b s' t', Q a b s' t' → rwp lift (f (.ok a)) (g (.ok b)) R E' s' t')
    (herror : ∀ e s' t', E s' t' → rwp lift (f (.error e)) (g (.error e)) R E' s' t') :
    rwp lift (attempt x >>= f) (attempt y >>= g) R E' s t := by
  unfold rwp at h ⊢
  simp only [Bind.bind, Exec.bind, attempt]
  cases hx : x s <;> cases hy : y t <;> rw [hx, hy] at h
  case ok.ok => exact hok _ _ _ _ h
  case error.error =>
    obtain ⟨rfl, h⟩ := h
    exact herror _ _ _ h
  case fault.fault => exact h
  all_goals exact h.elim

end Sequence

/-! ## Branches and loops -/

theorem rwp.ite {c : Prop} [Decidable c] {x' : Exec σ ε φ α} {y' : Exec τ ε ψ β} (h : c → rwp lift x y Q E s t)
    (h' : ¬c → rwp lift x' y' Q E s t) : rwp lift (if c then x else x') (if c then y else y') Q E s t := by
  split
  · rename_i hc
    exact h hc
  · rename_i hc
    exact h' hc

theorem rwp.when {c : Prop} [Decidable c] {x : Exec σ ε φ Unit} {y : Exec τ ε ψ Unit} {Q : Unit → Unit → σ → τ → Prop}
    (h : c → rwp lift x y Q E s t) (h' : ¬c → Q () () s t) : rwp lift (Exec.when c x) (Exec.when c y) Q E s t := rwp.ite h h'

theorem rwp.catching {f : ε → Exec σ ε φ α} {g : ε → Exec τ ε ψ β} (h : rwp lift x y Q E s t)
    (hfg : ∀ e s' t', E s' t' → rwp lift (f e) (g e) Q E' s' t') :
    rwp lift (Exec.catching x f) (Exec.catching y g) Q E' s t := by
  unfold rwp at h ⊢
  simp only [Exec.catching]
  cases hx : x s <;> cases hy : y t <;> rw [hx, hy] at h
  case ok.ok => exact h
  case error.error =>
    obtain ⟨rfl, h⟩ := h
    exact hfg _ _ _ h
  case fault.fault => exact h
  all_goals exact h.elim

/-- `x` does something about its error, and returns the error again. -/
theorem rwp.catching_left {f : ε → Exec σ ε φ α} (h : rwp lift x y Q E s t)
    (hf : ∀ e s' t', E s' t' → wp (fun _ _ => False) (f e) (fun _ _ => False) (fun e' s'' => e' = e ∧ E' s'' t') s') :
    rwp lift (Exec.catching x f) y Q E' s t := by
  unfold rwp at h ⊢
  simp only [Exec.catching]
  cases hx : x s <;> cases hy : y t <;> rw [hx, hy] at h
  case ok.ok => exact h
  case error.error e s' e' t' =>
    obtain ⟨he, h⟩ := h
    obtain ⟨e'', s'', hfe, he', hE⟩ := (hf e s' t' h).exists_error
    rw [he'] at hfe
    subst he
    have herror : rwp lift (f e) (Exec.error e) Q E' s' t' := by
      unfold rwp
      rw [hfe]
      exact ⟨rfl, hE⟩
    exact herror
  case fault.fault => exact h
  all_goals exact h.elim

/-- A loop over a list, with a relation that every turn keeps. -/
theorem rwp_each {R : σ → τ → Prop} {f : γ → Exec σ ε φ Unit} {g : γ → Exec τ ε ψ Unit}
    (hfg : ∀ c s t, R s t → rwp lift (f c) (g c) (fun _ _ => R) E s t) :
    ∀ l s t, R s t → rwp lift (Exec.each l f) (Exec.each l g) (fun _ _ => R) E s t
  | [], _, _, h => h
  | c :: l, s, t, h => (hfg c s t h).bind (fun _ _ s' t' h => rwp_each hfg l s' t' h) fun _ _ => id

/-- Turns of two loops, with a relation that every turn keeps. -/
theorem rwp_turns {R : σ → τ → Prop} {x : Exec σ ε φ Int} {y : Exec τ ε ψ Int}
    (h : ∀ s t, R s t → rwp lift x y (fun a b s' t' => a = b ∧ R s' t') E s t) :
    ∀ n s t, R s t → rwp lift (Exec.turns x n) (Exec.turns y n) (fun a b s' t' => a = b ∧ R s' t') E s t
  | 0, _, _, hR => ⟨rfl, hR⟩
  | n + 1, s, t, hR => by
    refine (h s t hR).bind (fun a b s' t' hab => ?_) fun _ _ => id
    obtain ⟨rfl, hR'⟩ := hab
    exact rwp.ite (fun _ => rwp_turns h n s' t' hR') fun _ => ⟨rfl, hR'⟩

end Pair

end Exec
