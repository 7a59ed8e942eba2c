import Sylvan.Lib.Exec

/-! # Refinement of computations

`Refines lift stop R R' x y` relates a computation `x` to one `y` over other states: from states that `R` relates, `x` ends as
`y` does, with the same value or the same error, in states that `R'` relates. A fault `g` of `y` is the fault `lift g` of `x`.
Besides, `x` may meet a fault in `stop`, after which nothing is compared.

The rules follow the constructs of a program. `zoom` runs a computation on a part of the state. -/

namespace Exec

section Zoom
variable {σ τ ε δ φ ψ α : Type}

/-- Runs `x` on the part `get s` of the state, where its errors and its faults are some of those of the whole. -/
def zoom (get : σ → τ) (put : τ → σ → σ) (onError : ε → δ) (onFault : ψ → φ) (x : Exec τ ε ψ α) : Exec σ δ φ α := fun s =>
  match x (get s) with
  | .ok a t => .ok a (put t s)
  | .error e t => .error (onError e) (put t s)
  | .fault f t => .fault (onFault f) (put t s)

@[simp] theorem wp_zoom {get : σ → τ} {put : τ → σ → σ} {onError : ε → δ} {onFault : ψ → φ} {x : Exec τ ε ψ α}
    {F : φ → σ → Prop} {Q : α → σ → Prop} {E : δ → σ → Prop} {s : σ} :
    wp F (zoom get put onError onFault x) Q E s ↔
      wp (fun f t => F (onFault f) (put t s)) x (fun a t => Q a (put t s)) (fun e t => E (onError e) (put t s)) (get s) := by
  simp only [wp, zoom]
  cases x (get s) <;> exact Iff.rfl

end Zoom

section Refinement
variable {σ τ ε φ ψ α β : Type} {lift : ψ → φ} {stop : φ → Prop} {R R' R'' : σ → τ → Prop}

/-- How `x` may end where `y` ends so. -/
def Matches (lift : ψ → φ) (stop : φ → Prop) (R : σ → τ → Prop) : Outcome σ ε φ α → Outcome τ ε ψ α → Prop
  | .ok a s, .ok b t => a = b ∧ R s t
  | .error e s, .error e' t => e = e' ∧ R s t
  | .fault f s, .fault g t => stop f ∨ f = lift g ∧ R s t
  | .fault f _, _ => stop f
  | _, _ => False

/-- From states that `R` relates, `x` ends as `y` does. -/
def Refines (lift : ψ → φ) (stop : φ → Prop) (R R' : σ → τ → Prop) (x : Exec σ ε φ α) (y : Exec τ ε ψ α) : Prop :=
  ∀ s t, R s t → Matches lift stop R' (x s) (y t)

theorem Matches.mono {o : Outcome σ ε φ α} {p : Outcome τ ε ψ α} (h : Matches lift stop R o p) (hR : ∀ s t, R s t → R' s t) :
    Matches lift stop R' o p := by
  cases o <;> cases p
  case ok.ok => exact h.imp_right (hR _ _)
  case error.error => exact h.imp_right (hR _ _)
  case fault.fault => exact h.imp_right fun h => h.imp_right (hR _ _)
  case fault.ok => exact h
  case fault.error => exact h
  all_goals exact h.elim

/-- After a fault that only `x` meets, nothing is compared. -/
theorem Matches.of_stop {f : φ} {s : σ} {p : Outcome τ ε ψ α} (h : stop f) :
    Matches lift stop R (.fault f s : Outcome σ ε φ α) p := by
  cases p
  case fault => exact .inl h
  all_goals exact h

/-- `x` alone is followed, to an end at which `y` is known to end so. -/
theorem Matches.of_wp {x : Exec σ ε φ α} {y : Exec τ ε ψ α} {s : σ} {t : τ}
    (h : wp (fun f _ => stop f) x (fun a s' => ∃ t', y t = .ok a t' ∧ R s' t') (fun _ _ => False) s) :
    Matches lift stop R (x s) (y t) := by
  unfold wp at h
  cases hx : x s with
  | ok a s' =>
    rw [hx] at h
    obtain ⟨t', hy, hR⟩ := h
    rw [hy]
    exact ⟨rfl, hR⟩
  | error e s' =>
    rw [hx] at h
    exact h.elim
  | fault f s' =>
    rw [hx] at h
    exact .of_stop h

theorem Matches.ok {a : α} {s : σ} {p : Outcome τ ε ψ α} (h : Matches lift stop R (.ok a s : Outcome σ ε φ α) p) :
    ∃ t, p = .ok a t ∧ R s t := by
  cases p
  case ok =>
    obtain ⟨rfl, hst⟩ := h
    exact ⟨_, rfl, hst⟩
  all_goals exact h.elim

theorem Matches.error {e : ε} {s : σ} {p : Outcome τ ε ψ α} (h : Matches lift stop R (.error e s : Outcome σ ε φ α) p) :
    ∃ t, p = .error e t ∧ R s t := by
  cases p
  case error =>
    obtain ⟨rfl, hst⟩ := h
    exact ⟨_, rfl, hst⟩
  all_goals exact h.elim

theorem Matches.fault {f : φ} {s : σ} {p : Outcome τ ε ψ α} (h : Matches lift stop R (.fault f s : Outcome σ ε φ α) p) :
    stop f ∨ ∃ g t, f = lift g ∧ p = .fault g t ∧ R s t := by
  cases p
  case fault => exact h.imp_right fun h => ⟨_, _, h.1, rfl, h.2⟩
  all_goals exact .inl h

/-- What is known of the end of `y`. -/
theorem Matches.and_wp {x : Outcome σ ε φ α} {y : Exec τ ε ψ α} {P : τ → Prop} {t : τ} (h : Matches lift stop R x (y t))
    (hy : wp (fun _ => P) y (fun _ => P) (fun _ => P) t) : Matches lift stop (fun s t => R s t ∧ P t) x (y t) := by
  unfold wp at hy
  cases x <;> cases hyt : y t <;> rw [hyt] at h hy
  case ok.ok => exact ⟨h.1, h.2, hy⟩
  case error.error => exact ⟨h.1, h.2, hy⟩
  case fault.fault => exact h.imp_right fun h => ⟨h.1, h.2, hy⟩
  case fault.ok => exact h
  case fault.error => exact h
  all_goals exact h.elim

/-- A computation on a part of the state, beside one on the whole. -/
theorem Matches.zoom {ρ : Type} {get : ρ → σ} {put : σ → ρ → ρ} {R' : ρ → τ → Prop} {x : Exec σ ε ψ α} {y : Exec τ ε ψ α} {s : ρ} {t : τ}
    (h : Matches id (fun _ => False) R (x (get s)) (y t)) (hR : ∀ u t', R u t' → R' (put u s) t') :
    Matches lift stop R' (Exec.zoom get put id lift x s) (y t) := by
  simp only [Exec.zoom]
  cases hx : x (get s) <;> cases hy : y t <;> rw [hx, hy] at h
  case ok.ok => exact h.imp_right (hR _ _)
  case error.error => exact h.imp_right (hR _ _)
  case fault.fault =>
    obtain ⟨rfl, hst⟩ := h.resolve_left id
    exact .inr ⟨rfl, hR _ _ hst⟩
  all_goals exact h.elim

/-- One step, and then the rest from where the step ends. -/
theorem Matches.bind {x : Exec σ ε φ α} {y : Exec τ ε ψ α} {f : α → Exec σ ε φ β} {g : α → Exec τ ε ψ β} {s : σ} {t : τ}
    (h : Matches lift stop R' (x s) (y t)) (hR : ∀ s t, R' s t → R'' s t)
    (hf : ∀ a s' t', y t = .ok a t' → R' s' t' → Matches lift stop R'' (f a s') (g a t')) :
    Matches lift stop R'' ((x >>= f) s) ((y >>= g) t) := by
  simp only [Bind.bind, Exec.bind]
  cases hx : x s <;> cases hy : y t <;> rw [hx, hy] at h
  case ok.ok =>
    obtain ⟨rfl, hst⟩ := h
    exact hf _ _ _ hy hst
  case error.error => exact h.imp_right (hR _ _)
  case fault.ok => exact .of_stop h
  case fault.error => exact h
  case fault.fault => exact h.imp_right fun h => h.imp_right (hR _ _)
  all_goals exact h.elim

namespace Refines

theorem mono {Q Q' : σ → τ → Prop} {x : Exec σ ε φ α} {y : Exec τ ε ψ α} (h : Refines lift stop R R' x y)
    (hQ : ∀ s t, Q s t → R s t) (hQ' : ∀ s t, R' s t → Q' s t) : Refines lift stop Q Q' x y := fun s t hst =>
  (h s t (hQ s t hst)).mono hQ'

protected theorem pure {a : α} (hR : ∀ s t, R s t → R' s t) : Refines lift stop R R' (pure a) (pure a : Exec τ ε ψ α) :=
  fun s t hst => ⟨rfl, hR s t hst⟩

theorem error {e : ε} (hR : ∀ s t, R s t → R' s t) :
    Refines lift stop R R' (Exec.error e : Exec σ ε φ α) (Exec.error e : Exec τ ε ψ α) := fun s t hst => ⟨rfl, hR s t hst⟩

theorem fault {g : ψ} (hR : ∀ s t, R s t → R' s t) :
    Refines lift stop R R' (Exec.fault (lift g) : Exec σ ε φ α) (Exec.fault g : Exec τ ε ψ α) := fun s t hst =>
  .inr ⟨rfl, hR s t hst⟩

theorem modify {f : σ → σ} {g : τ → τ} (h : ∀ s t, R s t → R' (f s) (g t)) :
    Refines lift stop R R' (Exec.modify f : Exec σ ε φ Unit) (Exec.modify g : Exec τ ε ψ Unit) := fun s t hst =>
  ⟨rfl, h s t hst⟩

/-- The state is read first. -/
theorem get_bind {f : σ → Exec σ ε φ β} {g : τ → Exec τ ε ψ β} (h : ∀ s t, R s t → Matches lift stop R' (f s s) (g t t)) :
    Refines lift stop R R' (Exec.get >>= f) (Exec.get >>= g) := h

/-- One step, and then the rest. -/
protected theorem bind {x : Exec σ ε φ α} {y : Exec τ ε ψ α} {f : α → Exec σ ε φ β} {g : α → Exec τ ε ψ β}
    (hx : Refines lift stop R R' x y) (hR : ∀ s t, R' s t → R'' s t) (hf : ∀ a, Refines lift stop R' R'' (f a) (g a)) :
    Refines lift stop R R'' (x >>= f) (y >>= g) := fun s t hst =>
  (hx s t hst).bind hR fun a s' t' _ h => hf a s' t' h

/-- One step that keeps the relation, and then the rest. -/
theorem seq {x : Exec σ ε φ α} {y : Exec τ ε ψ α} {f : α → Exec σ ε φ β} {g : α → Exec τ ε ψ β}
    (hx : Refines lift stop R R x y) (hf : ∀ a, Refines lift stop R R (f a) (g a)) :
    Refines lift stop R R (x >>= f) (y >>= g) := hx.bind (fun _ _ => id) hf

theorem ite {c : Prop} [Decidable c] {x x' : Exec σ ε φ α} {y y' : Exec τ ε ψ α} (h : c → Refines lift stop R R' x y)
    (h' : ¬c → Refines lift stop R R' x' y') : Refines lift stop R R' (if c then x else x') (if c then y else y') := by
  split
  · exact h ‹_›
  · exact h' ‹_›

theorem when {c : Prop} [Decidable c] {x : Exec σ ε φ Unit} {y : Exec τ ε ψ Unit} (h : Refines lift stop R R' x y)
    (hR : ∀ s t, R s t → R' s t) : Refines lift stop R R' (Exec.when c x) (Exec.when c y) :=
  ite (fun _ => h) fun _ => .pure hR

theorem catching {x : Exec σ ε φ α} {y : Exec τ ε ψ α} {f : ε → Exec σ ε φ α} {g : ε → Exec τ ε ψ α}
    (hx : Refines lift stop R R' x y) (hf : ∀ e, Refines lift stop R' R' (f e) (g e)) :
    Refines lift stop R R' (Exec.catching x f) (Exec.catching y g) := by
  intro s t hst
  have h := hx s t hst
  simp only [Exec.catching]
  cases hxs : x s <;> cases hyt : y t <;> simp only [hxs, hyt] at h ⊢
  case error.error =>
    obtain ⟨rfl, hst'⟩ := h
    exact hf _ _ _ hst'
  case fault.error => exact .of_stop h
  all_goals first | exact h | exact h.elim

/-- A loop over a list, with a relation that every turn keeps. -/
theorem each {f : α → Exec σ ε φ Unit} {g : α → Exec τ ε ψ Unit} (h : ∀ a, Refines lift stop R R (f a) (g a)) :
    ∀ l, Refines lift stop R R (Exec.each l f) (Exec.each l g)
  | [] => .pure fun _ _ => id
  | a :: l => (h a).seq fun _ => each h l

theorem foldlM {f : β → α → Exec σ ε φ β} {g : β → α → Exec τ ε ψ β} (h : ∀ b a, Refines lift stop R R (f b a) (g b a)) :
    ∀ (l : List α) (b : β), Refines lift stop R R (l.foldlM f b) (l.foldlM g b)
  | [], _ => .pure fun _ _ => id
  | a :: l, b => (h b a).seq fun c => foldlM h l c

end Refines

end Refinement

end Exec
