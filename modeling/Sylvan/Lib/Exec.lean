import Mathlib.Logic.Basic
import Mathlib.Order.Defs.Unbundled

/-! # Computations with a state, errors and faults

`Exec σ ε φ α` is a computation over a state `σ`. It returns a value, returns an error, or ends on a
fault. An error is returned in a state, as the error code of a C function is, and its caller goes on from
there; after a fault (a failed assertion, a stray write) nothing goes on.

`wp F x Q E s` is the weakest precondition of `x`: run from `s`, a value is returned with `Q`, an error
with `E`, and a fault is met with `F`. The rules below run a computation symbolically. -/

namespace Exec

/-- How a computation ends. -/
inductive Outcome (σ ε φ α : Type) where
  | ok (a : α) (s : σ)
  | error (e : ε) (s : σ)
  | fault (f : φ) (s : σ)

namespace Outcome
variable {σ ε φ α : Type}

/-- The state that a computation ends in. -/
def state : Outcome σ ε φ α → σ
  | ok _ s => s
  | error _ s => s
  | fault _ s => s

def isOk : Outcome σ ε φ α → Bool
  | ok _ _ => true
  | _ => false

def value? : Outcome σ ε φ α → Option α
  | ok a _ => some a
  | _ => none

def error? : Outcome σ ε φ α → Option ε
  | error e _ => some e
  | _ => none

def fault? : Outcome σ ε φ α → Option φ
  | fault f _ => some f
  | _ => none

theorem eq_ok_of_isOk {o : Outcome σ ε φ Unit} (h : o.isOk = true) : o = ok () o.state := by
  cases o with
  | ok => rfl
  | error => cases h
  | fault => cases h

theorem eq_ok_of_value? {o : Outcome σ ε φ α} {a : α} (h : o.value? = some a) : o = ok a o.state := by
  cases o with
  | ok =>
    cases h
    rfl
  | error => cases h
  | fault => cases h

theorem eq_error_of_error? {o : Outcome σ ε φ α} {e : ε} (h : o.error? = some e) : o = error e o.state := by
  cases o with
  | ok => cases h
  | error =>
    cases h
    rfl
  | fault => cases h

theorem eq_fault_of_fault? {o : Outcome σ ε φ α} {f : φ} (h : o.fault? = some f) : o = fault f o.state := by
  cases o with
  | ok => cases h
  | error => cases h
  | fault =>
    cases h
    rfl

end Outcome

end Exec

/-- A computation from a state to an outcome. -/
def Exec (σ ε φ α : Type) : Type := σ → Exec.Outcome σ ε φ α

namespace Exec

section Operations
variable {σ ε φ α β : Type}

protected def pure (a : α) : Exec σ ε φ α := fun s => .ok a s

protected def bind (x : Exec σ ε φ α) (f : α → Exec σ ε φ β) : Exec σ ε φ β := fun s =>
  match x s with
  | .ok a s' => f a s'
  | .error e s' => .error e s'
  | .fault g s' => .fault g s'

instance : Monad (Exec σ ε φ) where
  pure := Exec.pure
  bind := Exec.bind

/-- Returns an error. -/
def error (e : ε) : Exec σ ε φ α := fun s => .error e s

/-- Ends on a fault. -/
def fault (f : φ) : Exec σ ε φ α := fun s => .fault f s

def get : Exec σ ε φ σ := fun s => .ok s s

def modify (g : σ → σ) : Exec σ ε φ Unit := fun s => .ok () (g s)

/-- Runs `x` where `c` holds, and does nothing elsewhere. -/
def when (c : Prop) [Decidable c] (x : Exec σ ε φ Unit) : Exec σ ε φ Unit :=
  if c then x else Exec.pure ()

/-- Runs `x` and returns what it returned, error or not. -/
def attempt (x : Exec σ ε φ α) : Exec σ ε φ (Except ε α) := fun s =>
  match x s with
  | .ok a s' => .ok (.ok a) s'
  | .error e s' => .ok (.error e) s'
  | .fault f s' => .fault f s'

/-- Runs `x`, and `f` on the error that it returns. -/
def catching (x : Exec σ ε φ α) (f : ε → Exec σ ε φ α) : Exec σ ε φ α := fun s =>
  match x s with
  | .ok a s' => .ok a s'
  | .error e s' => f e s'
  | .fault g s' => .fault g s'

/-- Runs `f` on each item in turn, up to the first error. -/
def each : List α → (α → Exec σ ε φ Unit) → Exec σ ε φ Unit
  | [], _ => Exec.pure ()
  | a :: l, f => Exec.bind (f a) fun _ => each l f

/-- Runs `x` until it returns other than 0, at most `n` times, and says whether it did. -/
def turns (x : Exec σ ε φ Int) : Nat → Exec σ ε φ Bool
  | 0 => Exec.pure false
  | n + 1 => Exec.bind x fun r => if r = 0 then turns x n else Exec.pure true

end Operations

/-! ## Laws -/

section Laws
variable {σ ε φ α β : Type}

protected theorem id_map (x : Exec σ ε φ α) : id <$> x = x := by
  funext s
  simp only [Functor.map, Exec.bind, Function.comp, id, Exec.pure]
  cases x s <;> rfl

protected theorem bind_assoc {γ : Type} (x : Exec σ ε φ α) (f : α → Exec σ ε φ β) (g : β → Exec σ ε φ γ) :
    x >>= f >>= g = x >>= fun a => f a >>= g := by
  funext s
  simp only [Bind.bind, Exec.bind]
  cases x s <;> rfl

instance : LawfulMonad (Exec σ ε φ) :=
  LawfulMonad.mk' (Exec σ ε φ) Exec.id_map (fun _ _ => rfl) Exec.bind_assoc

theorem bind_of_ok {x : Exec σ ε φ α} {f : α → Exec σ ε φ β} {s s' : σ} {a : α} (h : x s = .ok a s') : (x >>= f) s = f a s' := by
  simp only [Bind.bind, Exec.bind, h]

theorem bind_of_error {x : Exec σ ε φ α} {f : α → Exec σ ε φ β} {s s' : σ} {e : ε} (h : x s = .error e s') :
    (x >>= f) s = .error e s' := by
  simp only [Bind.bind, Exec.bind, h]

theorem bind_of_fault {x : Exec σ ε φ α} {f : α → Exec σ ε φ β} {s s' : σ} {g : φ} (h : x s = .fault g s') :
    (x >>= f) s = .fault g s' := by
  simp only [Bind.bind, Exec.bind, h]

theorem ok_of_bind {x : Exec σ ε φ α} {f : α → Exec σ ε φ β} {s t : σ} {b : β} (h : (x >>= f) s = .ok b t) :
    ∃ a u, x s = .ok a u ∧ f a u = .ok b t := by
  cases hx : x s with
  | ok a u =>
    rw [bind_of_ok hx] at h
    exact ⟨a, u, rfl, h⟩
  | error e u =>
    rw [bind_of_error hx] at h
    cases h
  | fault g u =>
    rw [bind_of_fault hx] at h
    cases h

theorem error_of_bind {x : Exec σ ε φ α} {f : α → Exec σ ε φ β} {s t : σ} {e : ε} (h : (x >>= f) s = .error e t) :
    x s = .error e t ∨ ∃ a u, x s = .ok a u ∧ f a u = .error e t := by
  cases hx : x s with
  | ok a u =>
    rw [bind_of_ok hx] at h
    exact .inr ⟨a, u, rfl, h⟩
  | error e u =>
    rw [bind_of_error hx] at h
    cases h
    exact .inl rfl
  | fault g u =>
    rw [bind_of_fault hx] at h
    cases h

theorem when_true {c : Prop} [Decidable c] {x : Exec σ ε φ Unit} (h : c) : when c x = x := if_pos h

theorem when_false {c : Prop} [Decidable c] {x : Exec σ ε φ Unit} (h : ¬c) : when c x = pure () := if_neg h

theorem each_append {f : α → Exec σ ε φ Unit} {l m : List α} : each (l ++ m) f = each l f >>= fun _ => each m f := by
  induction l with
  | nil => rfl
  | cons a l ih =>
    show (f a >>= fun _ => each (l ++ m) f) = (f a >>= fun _ => each l f) >>= fun _ => each m f
    rw [ih, bind_assoc]

/-- Items that nothing is done for can be left out. -/
theorem each_filterMap {g : α → Option β} {f : α → Exec σ ε φ Unit} {h : β → Exec σ ε φ Unit}
    (hnone : ∀ a, g a = none → f a = pure ()) (hsome : ∀ a b, g a = some b → f a = h b) {l : List α} :
    each l f = each (l.filterMap g) h := by
  induction l with
  | nil => rfl
  | cons a l ih =>
    show (f a >>= fun _ => each l f) = _
    cases hg : g a with
    | none => rw [hnone a hg, pure_bind, List.filterMap_cons_none hg, ih]
    | some b =>
      rw [hsome a b hg, List.filterMap_cons_some hg, ih]
      rfl

end Laws

/-! ## Weakest preconditions -/

section Wp
variable {σ ε φ α β : Type}

def wp (F : φ → σ → Prop) (x : Exec σ ε φ α) (Q : α → σ → Prop) (E : ε → σ → Prop) (s : σ) : Prop :=
  match x s with
  | .ok a s' => Q a s'
  | .error e s' => E e s'
  | .fault f s' => F f s'

/-- `x` returns from `s` in the state `s'`, with a value or with an error. -/
def Returns (x : Exec σ ε φ α) (s s' : σ) : Prop :=
  (∃ a, x s = .ok a s') ∨ ∃ e, x s = .error e s'

/-- `x` ends from `s` in the state `s'`, also on a fault. -/
def Ends (x : Exec σ ε φ α) (s s' : σ) : Prop := x.Returns s s' ∨ ∃ f, x s = .fault f s'

variable {F F' : φ → σ → Prop} {x : Exec σ ε φ α} {f : α → Exec σ ε φ β} {Q Q' : α → σ → Prop}
  {R : β → σ → Prop} {E E' : ε → σ → Prop} {s s' : σ}

@[simp] theorem wp_pure {a : α} : wp F (pure a) Q E s ↔ Q a s := Iff.rfl

@[simp] theorem wp_bind : wp F (x >>= f) R E s ↔ wp F x (fun a s' => wp F (f a) R E s') E s := by
  simp only [wp, Bind.bind, Exec.bind]
  cases x s <;> exact Iff.rfl

@[simp] theorem wp_error {e : ε} : wp F (error e : Exec σ ε φ α) Q E s ↔ E e s := Iff.rfl

@[simp] theorem wp_fault {g : φ} : wp F (fault g : Exec σ ε φ α) Q E s ↔ F g s := Iff.rfl

@[simp] theorem wp_get {Q : σ → σ → Prop} : wp F (get : Exec σ ε φ σ) Q E s ↔ Q s s := Iff.rfl

@[simp] theorem wp_modify {g : σ → σ} {Q : Unit → σ → Prop} :
    wp F (modify g : Exec σ ε φ Unit) Q E s ↔ Q () (g s) := Iff.rfl

@[simp] theorem wp_ite {c : Prop} [Decidable c] {y : Exec σ ε φ α} :
    wp F (if c then x else y) Q E s ↔ if c then wp F x Q E s else wp F y Q E s := by
  split <;> exact Iff.rfl

@[simp] theorem wp_when {c : Prop} [Decidable c] {x : Exec σ ε φ Unit} {Q : Unit → σ → Prop} :
    wp F (when c x) Q E s ↔ if c then wp F x Q E s else Q () s := by
  unfold when
  split <;> exact Iff.rfl

@[simp] theorem wp_attempt {Q : Except ε α → σ → Prop} :
    wp F (attempt x) Q E s ↔ wp F x (fun a s' => Q (.ok a) s') (fun e s' => Q (.error e) s') s := by
  simp only [wp, attempt]
  cases x s <;> exact Iff.rfl

@[simp] theorem wp_catching {h : ε → Exec σ ε φ α} :
    wp F (catching x h) Q E s ↔ wp F x Q (fun e s' => wp F (h e) Q E s') s := by
  simp only [wp, catching]
  cases x s <;> exact Iff.rfl

/-- A consequence of the postconditions is a consequence of the precondition. -/
theorem wp.mono (h : wp F x Q E s) (hQ : ∀ a s', Q a s' → Q' a s') (hE : ∀ e s', E e s' → E' e s')
    (hF : ∀ g s', F g s' → F' g s') : wp F' x Q' E' s := by
  unfold wp at h ⊢
  cases hx : x s with
  | ok a s' => rw [hx] at h; exact hQ a s' h
  | error e s' => rw [hx] at h; exact hE e s' h
  | fault g s' => rw [hx] at h; exact hF g s' h

theorem wp.imp (h : wp F x Q E s) (hQ : ∀ a s', Q a s' → Q' a s') (hE : ∀ e s', E e s' → E' e s') :
    wp F x Q' E' s :=
  h.mono hQ hE fun _ _ => id

/-- The rule of sequence: what `x` leaves is what `f` starts from. -/
theorem wp.bind (h : wp F x Q E s) (hf : ∀ a s', Q a s' → wp F (f a) R E' s') (hE : ∀ e s', E e s' → E' e s') :
    wp F (x >>= f) R E' s :=
  wp_bind.mpr (h.imp hf hE)

theorem wp.ok (h : wp F x Q E s) {a : α} (hx : x s = .ok a s') : Q a s' := by
  unfold wp at h
  rwa [hx] at h

theorem wp.error (h : wp F x Q E s) {e : ε} (hx : x s = .error e s') : E e s' := by
  unfold wp at h
  rwa [hx] at h

theorem wp.fault (h : wp F x Q E s) {g : φ} (hx : x s = .fault g s') : F g s' := by
  unfold wp at h
  rwa [hx] at h

theorem wp.returns {P : σ → Prop} (h : wp F x (fun _ => P) (fun _ => P) s) (hx : x.Returns s s') : P s' := by
  rcases hx with ⟨a, ha⟩ | ⟨e, he⟩
  · exact h.ok ha
  · exact h.error he

/-- A sequence returns where its first part fails, or its second part returns. -/
theorem Returns.of_bind (h : (x >>= f).Returns s s') : x.Returns s s' ∨ ∃ a t, x s = .ok a t ∧ (f a).Returns t s' := by
  rcases h with ⟨b, hb⟩ | ⟨e, he⟩
  · obtain ⟨a, t, ha, hb⟩ := ok_of_bind hb
    exact .inr ⟨a, t, ha, .inl ⟨b, hb⟩⟩
  · rcases error_of_bind he with he | ⟨a, t, ha, he⟩
    · exact .inl (.inr ⟨e, he⟩)
    · exact .inr ⟨a, t, ha, .inr ⟨e, he⟩⟩

/-- What is done with the value of `x` is left out. -/
theorem Returns.discard (h : x.Returns s s') {b : β} : (x >>= fun _ => (pure b : Exec σ ε φ β)).Returns s s' := by
  rcases h with ⟨a, ha⟩ | ⟨e, he⟩
  · exact .inl ⟨b, bind_of_ok ha⟩
  · exact .inr ⟨e, bind_of_error he⟩

theorem Returns.pure {a : α} (h : (pure a : Exec σ ε φ α).Returns s s') : s' = s := by
  rcases h with ⟨b, hb⟩ | ⟨e, he⟩
  · cases hb
    rfl
  · cases he

theorem wp.ends {P : σ → Prop} (h : wp (fun _ => P) x (fun _ => P) (fun _ => P) s) (hx : x.Ends s s') : P s' := by
  rcases hx with hx | ⟨f, hf⟩
  · exact h.returns hx
  · exact h.fault hf

/-- A computation satisfies its postconditions when every way it can end does. -/
theorem wp_of (hQ : ∀ a s', x s = .ok a s' → Q a s') (hE : ∀ e s', x s = .error e s' → E e s')
    (hF : ∀ g s', x s = .fault g s' → F g s') : wp F x Q E s := by
  unfold wp
  cases hx : x s with
  | ok a s' => exact hQ a s' hx
  | error e s' => exact hE e s' hx
  | fault g s' => exact hF g s' hx

/-- A run that is known. -/
theorem wp_of_eq_ok {a : α} (hx : x s = .ok a s') (h : Q a s') : wp F x Q E s := by
  unfold wp
  rwa [hx]

/-- Two sets of postconditions at once. -/
theorem wp.both (h : wp F x Q E s) (h' : wp F' x Q' E' s) :
    wp (fun g s' => F g s' ∧ F' g s') x (fun a s' => Q a s' ∧ Q' a s') (fun e s' => E e s' ∧ E' e s') s :=
  wp_of (fun _ _ hx => ⟨h.ok hx, h'.ok hx⟩) (fun _ _ hx => ⟨h.error hx, h'.error hx⟩) fun _ _ hx => ⟨h.fault hx, h'.fault hx⟩

/-- What cannot fail returns a value. -/
theorem wp.exists_ok (h : wp (fun _ _ => False) x Q (fun _ _ => False) s) : ∃ a s', x s = .ok a s' ∧ Q a s' := by
  unfold wp at h
  cases hx : x s with
  | ok a s' =>
    rw [hx] at h
    exact ⟨a, s', rfl, h⟩
  | error => rw [hx] at h; cases h
  | fault => rw [hx] at h; cases h

theorem wp.exists_error (h : wp (fun _ _ => False) x (fun _ _ => False) E s) : ∃ e s', x s = .error e s' ∧ E e s' := by
  unfold wp at h
  cases hx : x s with
  | error e s' =>
    rw [hx] at h
    exact ⟨e, s', rfl, h⟩
  | ok => rw [hx] at h; cases h
  | fault => rw [hx] at h; cases h

/-- The run that ends in the one state allowed. -/
theorem wp.eq_ok {x : Exec σ ε φ Unit} (h : wp (fun _ _ => False) x (fun _ t => t = s') (fun _ _ => False) s) : x s = .ok () s' := by
  obtain ⟨⟨⟩, t, hrun, rfl⟩ := h.exists_ok
  exact hrun

theorem not_wp_false : ¬wp (fun _ _ => False) x (fun _ _ => False) (fun _ _ => False) s := by
  unfold wp
  cases x s <;> exact id

theorem wp.and (h : wp F x Q E s) (h' : wp F' x Q' E' s) :
    wp F x (fun a s' => Q a s' ∧ Q' a s') (fun e s' => E e s' ∧ E' e s') s :=
  (h.both h').mono (fun _ _ => id) (fun _ _ => id) fun _ _ => And.left

end Wp

/-! ## Loops -/

section Each
variable {σ ε φ α : Type} {F : φ → σ → Prop} {E : ε → σ → Prop} {f : α → Exec σ ε φ Unit}

@[simp] theorem wp_each_nil {Q : Unit → σ → Prop} {s : σ} : wp F (each [] f) Q E s ↔ Q () s := Iff.rfl

@[simp] theorem wp_each_cons {a : α} {l : List α} {Q : Unit → σ → Prop} {s : σ} :
    wp F (each (a :: l) f) Q E s ↔ wp F (f a) (fun _ s' => wp F (each l f) Q E s') E s :=
  wp_bind

/-- The rule of a counting loop: the invariant `I k` holds before the `k`th turn. -/
theorem wp_each_range {I : Nat → σ → Prop} {f : Nat → Exec σ ε φ Unit} {n : Nat} {s : σ} (h0 : I 0 s)
    (step : ∀ k s, k < n → I k s → wp F (f k) (fun _ s' => I (k + 1) s') E s) :
    wp F (each (List.range n) f) (fun _ s' => I n s') E s := by
  suffices loop : ∀ m k s, k + m = n → I k s → wp F (each (List.range' k m) f) (fun _ s' => I n s') E s by
    rw [List.range_eq_range']
    exact loop n 0 s (by omega) h0
  intro m
  induction m with
  | zero =>
    intro k s hk hI
    obtain rfl : k = n := by omega
    exact hI
  | succ m ih =>
    intro k s hk hI
    rw [List.range'_succ, wp_each_cons]
    exact (step k s (by omega) hI).imp (fun _ s' hI' => ih (k + 1) s' (by omega) hI') fun _ _ => id

/-- A counting loop that returns has made every turn. -/
theorem each_range_ok {f : Nat → Exec σ ε φ Unit} {i n : Nat} {s t : σ} (h : each (List.range n) f s = .ok () t) (hi : i ≤ n) :
    ∃ u, each (List.range i) f s = .ok () u := by
  obtain ⟨m, rfl⟩ := Nat.exists_eq_add_of_le hi
  rw [List.range_add, each_append] at h
  cases hx : each (List.range i) f s with
  | ok a u => exact ⟨u, rfl⟩
  | error e u => cases (bind_of_error hx).symm.trans h
  | fault g u => cases (bind_of_fault hx).symm.trans h

/-- A counting loop ends with the first turn that returns an error. -/
theorem each_range_error {f : Nat → Exec σ ε φ Unit} {i n : Nat} {s t : σ} {e : ε} (h : each (List.range i) f s = .error e t)
    (hi : i ≤ n) : each (List.range n) f s = .error e t := by
  obtain ⟨m, rfl⟩ := Nat.exists_eq_add_of_le hi
  rw [List.range_add, each_append, bind_of_error h]

/-- The next turn of a counting loop -/
theorem each_range_succ {f : Nat → Exec σ ε φ Unit} {k : Nat} {s t : σ} (h : each (List.range k) f s = .ok () t) :
    each (List.range (k + 1)) f s = f k t := by
  rw [List.range_succ, each_append, bind_of_ok h]
  show (f k >>= fun _ => pure ()) t = f k t
  cases hx : f k t with
  | ok a u => exact bind_of_ok hx
  | error e u => exact bind_of_error hx
  | fault g u => exact bind_of_fault hx

/-- The rule of a counting loop that computes a value: the invariant `I k` holds of it before the `k`th turn. -/
theorem wp_foldlM_range {β : Type} {I : Nat → β → σ → Prop} {f : β → Nat → Exec σ ε φ β} {n : Nat} {b : β} {s : σ} (h0 : I 0 b s)
    (step : ∀ k b s, k < n → I k b s → wp F (f b k) (fun b' s' => I (k + 1) b' s') E s) :
    wp F ((List.range n).foldlM f b) (fun b' s' => I n b' s') E s := by
  suffices loop : ∀ m k b s, k + m = n → I k b s → wp F ((List.range' k m).foldlM f b) (fun b' s' => I n b' s') E s by
    rw [List.range_eq_range']
    exact loop n 0 b s (by omega) h0
  intro m
  induction m with
  | zero =>
    intro k b s hk hI
    obtain rfl : k = n := by omega
    exact hI
  | succ m ih =>
    intro k b s hk hI
    rw [List.range'_succ, List.foldlM_cons]
    exact (step k b s (by omega) hI).bind (fun b' s' hI' => ih (k + 1) b' s' (by omega) hI') fun _ _ => id

end Each

/-! ## Relations that a computation keeps -/

section Keeps
variable {σ ε φ α β : Type} {R : σ → σ → Prop}

/-- However `x` ends, the state that it ends in is related to the one that it started from. -/
def Keeps (R : σ → σ → Prop) (x : Exec σ ε φ α) : Prop :=
  ∀ s, wp (fun _ => R s) x (fun _ => R s) (fun _ => R s) s

theorem Keeps.modify {g : σ → σ} (h : ∀ s, R s (g s)) : Keeps R (modify g : Exec σ ε φ Unit) := h

theorem Keeps.ite {c : Prop} [Decidable c] {x y : Exec σ ε φ α} (hx : c → Keeps R x) (hy : ¬c → Keeps R y) :
    Keeps R (if c then x else y) := by
  split
  · rename_i h
    exact hx h
  · rename_i h
    exact hy h

theorem Keeps.attempt {x : Exec σ ε φ α} (hx : Keeps R x) : Keeps R (attempt x) := fun s => wp_attempt.mpr (hx s)

theorem Keeps.imp {R' : σ → σ → Prop} {x : Exec σ ε φ α} (hx : Keeps R x) (h : ∀ s t, R s t → R' s t) : Keeps R' x :=
  fun s => (hx s).mono (fun _ => h s) (fun _ => h s) fun _ => h s

variable [IsPreorder σ R]

theorem Keeps.pure (a : α) : Keeps R (pure a : Exec σ ε φ α) := fun s => refl_of R s

theorem Keeps.get : Keeps R (get : Exec σ ε φ σ) := fun s => refl_of R s

theorem Keeps.error (e : ε) : Keeps R (error e : Exec σ ε φ α) := fun s => refl_of R s

theorem Keeps.fault (g : φ) : Keeps R (fault g : Exec σ ε φ α) := fun s => refl_of R s

theorem Keeps.bind {x : Exec σ ε φ α} {f : α → Exec σ ε φ β} (hx : Keeps R x) (hf : ∀ a, Keeps R (f a)) :
    Keeps R (x >>= f) := fun s =>
  (hx s).bind (fun a s' hs => (hf a s').mono (fun _ _ => trans_of R hs) (fun _ _ => trans_of R hs)
    fun _ _ => trans_of R hs) fun _ _ => id

theorem Keeps.when {c : Prop} [Decidable c] {x : Exec σ ε φ Unit} (hx : c → Keeps R x) : Keeps R (when c x) :=
  Keeps.ite hx fun _ => Keeps.pure ()

theorem Keeps.catching {x : Exec σ ε φ α} {f : ε → Exec σ ε φ α} (hx : Keeps R x) (hf : ∀ e, Keeps R (f e)) :
    Keeps R (catching x f) := fun s =>
  wp_catching.mpr ((hx s).imp (fun _ _ => id) fun e s' hs => (hf e s').mono (fun _ _ => trans_of R hs)
    (fun _ _ => trans_of R hs) fun _ _ => trans_of R hs)

theorem Keeps.each {f : α → Exec σ ε φ Unit} (hf : ∀ a, Keeps R (f a)) : ∀ l, Keeps R (each l f)
  | [] => Keeps.pure ()
  | a :: l => Keeps.bind (hf a) fun _ => Keeps.each hf l

theorem Keeps.mapM {f : α → Exec σ ε φ β} (hf : ∀ a, Keeps R (f a)) (l : List α) : Keeps R (l.mapM f) := by
  induction l with
  | nil => exact Keeps.pure []
  | cons a l ih =>
    rw [List.mapM_cons]
    exact Keeps.bind (hf a) fun _ => Keeps.bind ih fun _ => Keeps.pure _

theorem Keeps.foldlM {f : β → α → Exec σ ε φ β} (hf : ∀ b a, Keeps R (f b a)) : ∀ (l : List α) (b : β), Keeps R (l.foldlM f b)
  | [], b => Keeps.pure b
  | a :: l, b => Keeps.bind (hf b a) fun b => Keeps.foldlM hf l b

end Keeps

/-! ## Faults and errors -/

section FailsWith
variable {σ ε φ α β : Type} {F F' : φ → σ → Prop} {E E' : ε → σ → Prop}

/-- Whatever state `x` starts from, `E` holds of each error that it returns and of the state it is returned in, and `F`
    of each fault. -/
def FailsWith (F : φ → σ → Prop) (E : ε → σ → Prop) (x : Exec σ ε φ α) : Prop := ∀ s, wp F x (fun _ _ => True) E s

theorem FailsWith.imp {x : Exec σ ε φ α} (hx : FailsWith F E x) (hF : ∀ g s, F g s → F' g s) (hE : ∀ e s, E e s → E' e s) :
    FailsWith F' E' x := fun s => (hx s).mono (fun _ _ => id) hE hF

theorem FailsWith.pure (a : α) : FailsWith F E (pure a : Exec σ ε φ α) := fun _ => trivial

theorem FailsWith.get : FailsWith F E (get : Exec σ ε φ σ) := fun _ => trivial

theorem FailsWith.modify (g : σ → σ) : FailsWith F E (modify g : Exec σ ε φ Unit) := fun _ => trivial

theorem FailsWith.fault {g : φ} (h : ∀ s, F g s) : FailsWith F E (fault g : Exec σ ε φ α) := h

theorem FailsWith.error {e : ε} (h : ∀ s, E e s) : FailsWith F E (error e : Exec σ ε φ α) := h

theorem FailsWith.ite {c : Prop} [Decidable c] {x y : Exec σ ε φ α} (hx : FailsWith F E x) (hy : FailsWith F E y) :
    FailsWith F E (if c then x else y) := by
  split
  · exact hx
  · exact hy

theorem FailsWith.when {c : Prop} [Decidable c] {x : Exec σ ε φ Unit} (hx : FailsWith F E x) : FailsWith F E (when c x) :=
  FailsWith.ite hx (FailsWith.pure ())

theorem FailsWith.bind {x : Exec σ ε φ α} {f : α → Exec σ ε φ β} (hx : FailsWith F E x) (hf : ∀ a, FailsWith F E (f a)) :
    FailsWith F E (x >>= f) := fun s => (hx s).bind (fun a t _ => hf a t) fun _ _ => id

/-- An attempt returns the errors as values. -/
theorem FailsWith.attempt {x : Exec σ ε φ α} (hx : FailsWith F E' x) : FailsWith F E (attempt x) := fun s =>
  wp_attempt.mpr ((hx s).imp (fun _ _ => id) fun _ _ _ => trivial)

/-- `f` goes on with the error of `x`, which is as `E'` says. -/
theorem FailsWith.attempt_bind {x : Exec σ ε φ α} {f : Except ε α → Exec σ ε φ β} (hx : FailsWith F E' x)
    (hok : ∀ a, FailsWith F E (f (.ok a))) (herr : ∀ e s, E' e s → wp F (f (.error e)) (fun _ _ => True) E s) :
    FailsWith F E (Exec.attempt x >>= f) := fun s =>
  wp_bind.mpr (wp_attempt.mpr ((hx s).imp (fun a t _ => hok a t) herr))

theorem FailsWith.catching {x : Exec σ ε φ α} {f : ε → Exec σ ε φ α} (hx : FailsWith F E' x)
    (hf : ∀ e s, E' e s → wp F (f e) (fun _ _ => True) E s) : FailsWith F E (catching x f) := fun s =>
  wp_catching.mpr ((hx s).imp (fun _ _ => id) hf)

theorem FailsWith.each {f : α → Exec σ ε φ Unit} (hf : ∀ a, FailsWith F E (f a)) : ∀ l, FailsWith F E (each l f)
  | [] => FailsWith.pure ()
  | a :: l => FailsWith.bind (hf a) fun _ => FailsWith.each hf l

theorem FailsWith.mapM {f : α → Exec σ ε φ β} (hf : ∀ a, FailsWith F E (f a)) (l : List α) : FailsWith F E (l.mapM f) := by
  induction l with
  | nil => exact FailsWith.pure []
  | cons a l ih =>
    rw [List.mapM_cons]
    exact FailsWith.bind (hf a) fun _ => FailsWith.bind ih fun _ => FailsWith.pure _

theorem FailsWith.foldlM {f : β → α → Exec σ ε φ β} (hf : ∀ b a, FailsWith F E (f b a)) :
    ∀ (l : List α) (b : β), FailsWith F E (l.foldlM f b)
  | [], b => FailsWith.pure b
  | a :: l, b => FailsWith.bind (hf b a) fun b => FailsWith.foldlM hf l b

/-- An error that a computation returns is one of those it fails with. -/
theorem FailsWith.of_error {x : Exec σ ε φ α} (hx : FailsWith F E x) {e : ε} {s t : σ} (h : x s = .error e t) : E e t :=
  (hx s).error h

end FailsWith

/-! ## Relations that are kept up to some faults -/

section KeepsTo
variable {σ ε φ α β : Type} {F : φ → Prop} {R : σ → σ → Prop}

/-- `x` keeps `R`, and each fault that it ends on is one of `F`. -/
structure KeepsTo (F : φ → Prop) (R : σ → σ → Prop) (x : Exec σ ε φ α) : Prop where
  keeps : Keeps R x
  faults : FailsWith (fun g _ => F g) (fun _ _ => True) x

theorem KeepsTo.both {x : Exec σ ε φ α} (hx : KeepsTo F R x) (s : σ) :
    wp (fun g t => F g ∧ R s t) x (fun _ => R s) (fun _ => R s) s :=
  ((hx.keeps s).both (hx.faults s)).mono (fun _ _ h => h.1) (fun _ _ h => h.1) fun _ _ h => ⟨h.2, h.1⟩

theorem KeepsTo.of_wp {x : Exec σ ε φ α} (h : ∀ s, wp (fun g t => F g ∧ R s t) x (fun _ => R s) (fun _ => R s) s) :
    KeepsTo F R x :=
  ⟨fun s => (h s).mono (fun _ _ => id) (fun _ _ => id) fun _ _ => And.right,
    fun s => (h s).mono (fun _ _ _ => trivial) (fun _ _ _ => trivial) fun _ _ => And.left⟩

theorem KeepsTo.modify {g : σ → σ} (h : ∀ s, R s (g s)) : KeepsTo F R (modify g : Exec σ ε φ Unit) :=
  ⟨Keeps.modify h, FailsWith.modify g⟩

theorem KeepsTo.ite {c : Prop} [Decidable c] {x y : Exec σ ε φ α} (hx : c → KeepsTo F R x) (hy : ¬c → KeepsTo F R y) :
    KeepsTo F R (if c then x else y) := by
  split
  · rename_i h
    exact hx h
  · rename_i h
    exact hy h

variable [IsPreorder σ R]

theorem KeepsTo.pure (a : α) : KeepsTo F R (pure a : Exec σ ε φ α) := ⟨Keeps.pure a, FailsWith.pure a⟩

theorem KeepsTo.get : KeepsTo F R (get : Exec σ ε φ σ) := ⟨Keeps.get, FailsWith.get⟩

theorem KeepsTo.error (e : ε) : KeepsTo F R (error e : Exec σ ε φ α) := ⟨Keeps.error e, FailsWith.error fun _ => trivial⟩

theorem KeepsTo.fault {g : φ} (h : F g) : KeepsTo F R (fault g : Exec σ ε φ α) := ⟨Keeps.fault g, FailsWith.fault fun _ => h⟩

theorem KeepsTo.bind {x : Exec σ ε φ α} {f : α → Exec σ ε φ β} (hx : KeepsTo F R x) (hf : ∀ a, KeepsTo F R (f a)) :
    KeepsTo F R (x >>= f) :=
  ⟨Keeps.bind hx.keeps fun a => (hf a).keeps, FailsWith.bind hx.faults fun a => (hf a).faults⟩

theorem KeepsTo.when {c : Prop} [Decidable c] {x : Exec σ ε φ Unit} (hx : c → KeepsTo F R x) : KeepsTo F R (when c x) :=
  KeepsTo.ite hx fun _ => KeepsTo.pure ()

theorem KeepsTo.each {f : α → Exec σ ε φ Unit} (hf : ∀ a, KeepsTo F R (f a)) (l : List α) : KeepsTo F R (each l f) :=
  ⟨Keeps.each (fun a => (hf a).keeps) l, FailsWith.each (fun a => (hf a).faults) l⟩

theorem KeepsTo.mapM {f : α → Exec σ ε φ β} (hf : ∀ a, KeepsTo F R (f a)) (l : List α) : KeepsTo F R (l.mapM f) :=
  ⟨Keeps.mapM (fun a => (hf a).keeps) l, FailsWith.mapM (fun a => (hf a).faults) l⟩

theorem KeepsTo.foldlM {f : β → α → Exec σ ε φ β} (hf : ∀ b a, KeepsTo F R (f b a)) (l : List α) (b : β) :
    KeepsTo F R (l.foldlM f b) :=
  ⟨Keeps.foldlM (fun b a => (hf b a).keeps) l b, FailsWith.foldlM (fun b a => (hf b a).faults) l b⟩

end KeepsTo

end Exec
