import Sylvan.Lib.SlotTable

/-! # Patches over a memory

A table of patches lies over a memory `m`. A patch that is on replaces the value at its address and
keeps the value it replaced; a patch that is off does nothing. `Hides` says which memory `f` the patches
hide, the one that is left when each of them is undone, and `Shows` that all of them put the same value
in its place. -/

namespace Overlay
open SlotTable

variable {α κ β : Type}

/-- The patches that are on hide the memory `f`: they keep its values, and elsewhere `m` is `f`. -/
structure Hides (key : α → κ) (saved : α → β) (on : α → Bool) (slot : Nat → α) (n : Nat)
    (m f : κ → β) : Prop where
  saved : ∀ i, i < n → on (slot i) = true → saved (slot i) = f (key (slot i))
  clear : ∀ k, (∀ i, i < n → on (slot i) = true → key (slot i) ≠ k) → m k = f k

/-- Each patch that is on puts `v` at its address. -/
def Shows (key : α → κ) (on : α → Bool) (v : β) (slot : Nat → α) (n : Nat) (m : κ → β) : Prop :=
  ∀ i, i < n → on (slot i) = true → m (key (slot i)) = v

/-- The memory that the patches hide. -/
def beneath [DecidableEq κ] (key : α → κ) (saved : α → β) (on : α → Bool) (slot : Nat → α) (n : Nat)
    (m : κ → β) (k : κ) : β :=
  match find (fun a => (key a, on a)) slot n (k, true) with
  | some i => saved (slot i)
  | none => m k

variable {key : α → κ} {saved : α → β} {on : α → Bool} {slot slot' : Nat → α} {n i : Nat} {m f : κ → β}
  {a : α} {v : β}

/-! ## The hidden memory -/

theorem hides_beneath [DecidableEq κ] (hd : Distinct key slot n) :
    Hides key saved on slot n m (beneath key saved on slot n m) where
  saved i hi hon := by
    obtain ⟨j, hj⟩ : ∃ j, find (fun a => (key a, on a)) slot n (key (slot i), on (slot i)) = some j :=
      find_isSome_of hi rfl
    obtain ⟨hjn, hjk⟩ := find_eq_some hj
    rw [hon] at hj
    rw [beneath, hj, hd j i hjn hi (congrArg Prod.fst hjk)]
  clear k hk := by
    have hnone : find (fun a => (key a, on a)) slot n (k, true) = none :=
      find_eq_none.mpr fun i hi h => hk i hi (congrArg Prod.snd h) (congrArg Prod.fst h)
    rw [beneath, hnone]

/-- Where every patch is off, nothing is hidden. -/
theorem Hides.eq_of_off (h : Hides key saved on slot n m f) (hoff : ∀ i, i < n → on (slot i) = false) : m = f :=
  funext fun k => h.clear k fun i hi hon => absurd hon (by rw [hoff i hi]; decide)

/-- A memory that no patch changes hides nothing else. -/
theorem hides_of_off (hoff : ∀ i, i < n → on (slot i) = false) : Hides key saved on slot n m m where
  saved i hi hon := absurd hon (by rw [hoff i hi]; decide)
  clear _ _ := rfl

/-! ## Operations -/

theorem Hides.congr (h : Hides key saved on slot n m f)
    (hs : ∀ i, i < n → key (slot' i) = key (slot i) ∧ saved (slot' i) = saved (slot i) ∧
      on (slot' i) = on (slot i)) :
    Hides key saved on slot' n m f where
  saved i hi hon := by
    obtain ⟨hk, hv, ho⟩ := hs i hi
    rw [ho] at hon
    rw [hk, hv, h.saved i hi hon]
  clear k hk := h.clear k fun i hi hon => by
    obtain ⟨hk', -, ho⟩ := hs i hi
    exact hk' ▸ hk i hi (ho.trans hon)

theorem Shows.congr (h : Shows key on v slot n m)
    (hs : ∀ i, i < n → key (slot' i) = key (slot i) ∧ on (slot' i) = on (slot i)) : Shows key on v slot' n m :=
  fun i hi hon => by
    obtain ⟨hk, ho⟩ := hs i hi
    rw [hk, h i hi (ho ▸ hon)]

/-- A patch is turned on: it keeps the value at its address, and `v` takes its place. -/
theorem Hides.turnOn [DecidableEq κ] (h : Hides key saved on slot n m f) (hd : Distinct key slot n) (hi : i < n)
    (hoff : on (slot i) = false) (hk : key a = key (slot i)) (hv : saved a = m (key (slot i))) (ha : on a = true) :
    Hides key saved on (Function.update slot i a) n (Function.update m (key (slot i)) v) f where
  saved j hj hon := by
    by_cases hji : j = i
    · rw [hji, Function.update_self, hv, hk]
      refine h.clear _ fun j hj hon hkey => ?_
      rw [hd j i hj hi hkey, hoff] at hon
      exact absurd hon (by decide)
    · rw [Function.update_of_ne hji] at hon ⊢
      exact h.saved j hj hon
  clear k hclear := by
    have hne : key (slot i) ≠ k := by
      have := hclear i hi (by rw [Function.update_self, ha])
      rwa [Function.update_self, hk] at this
    rw [Function.update_of_ne (Ne.symm hne)]
    refine h.clear k fun j hj hon => ?_
    by_cases hji : j = i
    · rw [hji]
      exact hne
    · have := hclear j hj (by rw [Function.update_of_ne hji, hon])
      rwa [Function.update_of_ne hji] at this

/-- A patch is turned off, and the value that it kept is put back. -/
theorem Hides.turnOff [DecidableEq κ] (h : Hides key saved on slot n m f) (hi : i < n) (hon : on (slot i) = true)
    (ha : on a = false) :
    Hides key saved on (Function.update slot i a) n (Function.update m (key (slot i)) (saved (slot i))) f where
  saved j hj hj' := by
    have hji : j ≠ i := fun hji => by
      rw [hji, Function.update_self, ha] at hj'
      exact absurd hj' (by decide)
    rw [Function.update_of_ne hji] at hj' ⊢
    exact h.saved j hj hj'
  clear k hclear := by
    by_cases hk : k = key (slot i)
    · rw [hk, Function.update_self, h.saved i hi hon]
    · rw [Function.update_of_ne hk]
      refine h.clear k fun j hj hj' => ?_
      by_cases hji : j = i
      · rw [hji]
        exact Ne.symm hk
      · have := hclear j hj (by rw [Function.update_of_ne hji, hj'])
        rwa [Function.update_of_ne hji] at this

/-- A patch that is on is not the one that was put in off. -/
theorem ne_of_on {i j : Nat} (ha : on a = false) (hon : on (Function.update slot i a j) = true) : j ≠ i := fun hji => by
  rw [hji, Function.update_self, ha] at hon
  exact absurd hon (by decide)

/-- A patch that is off is added after the last one. -/
theorem Hides.push (h : Hides key saved on slot n m f) (ha : on a = false) :
    Hides key saved on (Function.update slot n a) (n + 1) m f where
  saved j hj hon := by
    have hjn := ne_of_on ha hon
    rw [Function.update_of_ne hjn] at hon ⊢
    exact h.saved j (by omega) hon
  clear k hclear := h.clear k fun j hj hon => by
    have hjn : j ≠ n := by omega
    have := hclear j (by omega) (by rw [Function.update_of_ne hjn, hon])
    rwa [Function.update_of_ne hjn] at this

/-- A patch that is off is replaced by the last one. -/
theorem Hides.swapRemove (h : Hides key saved on slot n m f) (hi : i < n) (hoff : on (slot i) = false) :
    Hides key saved on (Function.update slot i (slot (n - 1))) (n - 1) m f where
  saved j hj hon := by
    obtain ⟨j', hj', -, heq⟩ := swapRemove_slot slot hi j hj
    rw [heq] at hon ⊢
    exact h.saved j' hj' hon
  clear k hclear := h.clear k fun j hj hon => by
    have hji : j ≠ i := fun hji => by
      rw [hji, hoff] at hon
      exact absurd hon (by decide)
    obtain ⟨j', hj', heq⟩ := swapRemove_mem slot hi hj hji
    exact heq ▸ hclear j' hj' (by rw [heq, hon])

theorem Shows.turnOn [DecidableEq κ] (h : Shows key on v slot n m) (hk : key a = key (slot i)) :
    Shows key on v (Function.update slot i a) n (Function.update m (key (slot i)) v) := fun j hj hon => by
  by_cases hji : j = i
  · rw [hji, Function.update_self, hk, Function.update_self]
  · rw [Function.update_of_ne hji] at hon ⊢
    by_cases hkey : key (slot j) = key (slot i)
    · rw [hkey, Function.update_self]
    · rw [Function.update_of_ne hkey, h j hj hon]

theorem Shows.turnOff [DecidableEq κ] (h : Shows key on v slot n m) (hd : Distinct key slot n) (hi : i < n)
    (ha : on a = false) {w : β} :
    Shows key on v (Function.update slot i a) n (Function.update m (key (slot i)) w) := fun j hj hon => by
  have hji := ne_of_on ha hon
  rw [Function.update_of_ne hji] at hon ⊢
  rw [Function.update_of_ne fun hkey => hji (hd j i hj hi hkey), h j hj hon]

theorem Shows.push (h : Shows key on v slot n m) (ha : on a = false) :
    Shows key on v (Function.update slot n a) (n + 1) m := fun j hj hon => by
  have hjn := ne_of_on ha hon
  rw [Function.update_of_ne hjn] at hon ⊢
  exact h j (by omega) hon

theorem Shows.swapRemove (h : Shows key on v slot n m) (hi : i < n) :
    Shows key on v (Function.update slot i (slot (n - 1))) (n - 1) m := fun j hj hon => by
  obtain ⟨j', hj', -, heq⟩ := swapRemove_slot slot hi j hj
  rw [heq] at hon ⊢
  exact h j' hj' hon

end Overlay
