import Mathlib.Data.List.AList

/-! # Heaps of cells

A heap holds the allocated cells by address. A field of the cells is read through `view`, a pointer field through
`link`, and `Agree π` says of two heaps that the same addresses are allocated and that their cells agree up to `π`. -/

/-- The allocated cells, by address. -/
abbrev Heap (P C : Type) : Type := AList fun _ : P => C

namespace Heap

variable {P C α β : Type} [DecidableEq P] {h h' h'' : Heap P C} {p q : P} {c : C} {f : C → C}

/-- Writes to the cell at `p`, where it is allocated. -/
def modify (h : Heap P C) (p : P) (f : C → C) : Heap P C :=
  match h.lookup p with
  | some c => h.insert p (f c)
  | none => h

/-- Writes to the cell that a pointer points to, where it is not null. -/
def modifyOpt (h : Heap P C) (r : Option P) (f : C → C) : Heap P C := r.elim h fun p => h.modify p f

/-- A field of the cell at an address. -/
def view (h : Heap P C) (g : C → α) (p : P) : Option α := (h.lookup p).map g

/-- A pointer field of the cell at an address. -/
def link (h : Heap P C) (g : C → Option P) (p : P) : Option P := (h.lookup p).bind g

/-- How many cells are allocated. -/
def size (h : Heap P C) : Nat := h.keys.length

/-- The cells of an array, where `addr k` is the address of the first one. -/
def array (addr : Nat → P) : Nat → List C → Heap P C
  | _, [] => ∅
  | k, c :: l => (array addr (k + 1) l).insert (addr k) c

/-! ## Reading -/

theorem exists_of_mem (hp : p ∈ h) : ∃ c, h.lookup p = some c := Option.isSome_iff_exists.mp (AList.lookup_isSome.mpr hp)

theorem mem_of_lookup (hc : h.lookup p = some c) : p ∈ h := AList.lookup_isSome.mp (by simp [hc])

theorem link_of_lookup {g : C → Option P} (hc : h.lookup p = some c) : h.link g p = g c := by
  simp [link, hc]

omit [DecidableEq P] in
/-- Distinct allocated addresses are no more than the allocated cells. -/
theorem length_le_size {l : List P} (hl : l.Nodup) (hmem : ∀ x ∈ l, x ∈ h) : l.length ≤ h.size := by
  have hsub : l ⊆ h.keys := fun x hx => AList.mem_keys.mp (hmem x hx)
  exact (List.subperm_of_subset hl hsub).length_le

/-! ## Arrays -/

theorem lookup_array {addr : Nat → P} (haddr : addr.Injective) : ∀ {l : List C} {k i : Nat}, k ≤ i →
    (array addr k l).lookup (addr i) = l[i - k]?
  | [], _, _, _ => rfl
  | c :: l, k, i, hki => by
    unfold array
    rcases Nat.eq_or_lt_of_le hki with rfl | hlt
    · rw [AList.lookup_insert, Nat.sub_self]
      rfl
    · have hne : addr i ≠ addr k := fun h => Nat.ne_of_gt hlt (haddr h)
      have hsub : i - k = i - (k + 1) + 1 := by omega
      rw [AList.lookup_insert_ne hne, lookup_array haddr hlt, hsub, List.getElem?_cons_succ]

theorem exists_of_mem_array {addr : Nat → P} : ∀ {l : List C} {k : Nat}, p ∈ array addr k l → ∃ i, p = addr i
  | [], _, hp => absurd hp (AList.notMem_empty p)
  | _ :: _, k, hp => ((AList.mem_insert _).mp hp).elim (fun h => ⟨k, h⟩) exists_of_mem_array

/-! ## Writing -/

theorem lookup_modify_self : (h.modify p f).lookup p = (h.lookup p).map f := by
  unfold modify
  cases hc : h.lookup p with
  | none => simpa using hc
  | some c => simp

theorem lookup_modify_ne (hpq : q ≠ p) : (h.modify p f).lookup q = h.lookup q := by
  unfold modify
  split
  · exact AList.lookup_insert_ne hpq
  · rfl

theorem lookup_modify : (h.modify p f).lookup q = if q = p then (h.lookup q).map f else h.lookup q := by
  split
  · rename_i hqp
    rw [hqp, lookup_modify_self]
  · rename_i hqp
    exact lookup_modify_ne hqp

@[simp] theorem mem_modify : q ∈ h.modify p f ↔ q ∈ h := by
  rw [← AList.lookup_isSome, ← AList.lookup_isSome, lookup_modify]
  split <;> simp

/-- A write to another field leaves a field as it is. -/
theorem view_modify_of_eq {g : C → α} (hf : ∀ c, g (f c) = g c) : (h.modify p f).view g = h.view g := by
  funext q
  simp only [view, lookup_modify]
  split
  · simp [Function.comp_def, hf]
  · rfl

theorem link_modify_of_eq {g : C → Option P} (hf : ∀ c, g (f c) = g c) : (h.modify p f).link g = h.link g := by
  funext q
  simp only [link, lookup_modify]
  split
  · cases h.lookup q <;> simp [hf]
  · rfl

/-- A write to a pointer field updates it at one address. -/
theorem link_modify {g : C → Option P} {v : Option P} (hp : p ∈ h) (hf : ∀ c, g (f c) = v) :
    (h.modify p f).link g = Function.update (h.link g) p v := by
  obtain ⟨c, hc⟩ := exists_of_mem hp
  funext q
  by_cases hqp : q = p
  · rw [hqp, Function.update_self]
    simp [link, lookup_modify_self, hc, hf]
  · rw [Function.update_of_ne hqp]
    simp [link, lookup_modify_ne hqp]

@[simp] theorem mem_modifyOpt {r : Option P} : q ∈ h.modifyOpt r f ↔ q ∈ h := by
  cases r with
  | none => exact Iff.rfl
  | some p => exact mem_modify

theorem lookup_modifyOpt_ne {r : Option P} (hr : r ≠ some q) : (h.modifyOpt r f).lookup q = h.lookup q := by
  cases r with
  | none => rfl
  | some p =>
    refine lookup_modify_ne ?_
    rintro rfl
    exact hr rfl

theorem link_modifyOpt_of_eq {g : C → Option P} {r : Option P} (hf : ∀ c, g (f c) = g c) : (h.modifyOpt r f).link g = h.link g := by
  cases r with
  | none => rfl
  | some p => exact link_modify_of_eq hf

/-! ## Heaps that agree up to a projection -/

/-- The same addresses are allocated, and their cells have the same `π`. -/
def Agree (π : C → β) (h h' : Heap P C) : Prop := ∀ p, (h'.lookup p).map π = (h.lookup p).map π

namespace Agree
variable {π : C → β}

theorem refl (h : Heap P C) : Agree π h h := fun _ => rfl

theorem trans (h₁ : Agree π h h') (h₂ : Agree π h' h'') : Agree π h h'' := fun p => (h₂ p).trans (h₁ p)

theorem modify (hf : ∀ c, π (f c) = π c) : Agree π h (h.modify p f) := fun _ => congrFun (view_modify_of_eq hf) _

theorem modifyOpt {r : Option P} (hf : ∀ c, π (f c) = π c) : Agree π h (h.modifyOpt r f) := by
  cases r with
  | none => exact refl h
  | some p => exact modify hf

/-- What the projection determines agrees too. -/
theorem imp {γ : Type} {ρ : C → γ} (ha : Agree π h h') (k : β → γ) (hk : ∀ c, ρ c = k (π c)) : Agree ρ h h' := fun p => by
  have hp := congrArg (Option.map k) (ha p)
  simp only [Option.map_map] at hp
  rwa [show ρ = k ∘ π from funext hk]

/-- The cells at an address. -/
theorem exists_lookup (ha : Agree π h h') (hc : h.lookup p = some c) : ∃ c', h'.lookup p = some c' ∧ π c' = π c :=
  Option.map_eq_some_iff.mp ((ha p).trans (by rw [hc]; rfl))

theorem mem_iff (ha : Agree π h h') : p ∈ h' ↔ p ∈ h := by
  have hp := congrArg Option.isSome (ha p)
  simp only [Option.isSome_map] at hp
  rw [← AList.lookup_isSome, ← AList.lookup_isSome, hp]

theorem view {g : C → α} (ha : Agree π h h') (k : β → α) (hg : ∀ c, g c = k (π c)) : h'.view g = h.view g :=
  funext (ha.imp k hg)

theorem link {g : C → Option P} (ha : Agree π h h') (k : β → Option P) (hg : ∀ c, g c = k (π c)) : h'.link g = h.link g := by
  funext p
  have hv := congrFun (ha.view k hg) p
  simp only [Heap.view] at hv
  simp only [Heap.link]
  cases hc : h.lookup p with
  | none =>
    rw [hc] at hv
    simp only [Option.map_none, Option.map_eq_none_iff] at hv
    simp [hv]
  | some c =>
    rw [hc] at hv
    obtain ⟨c', hc', hcc⟩ := Option.map_eq_some_iff.mp hv
    simp [hc', hcc]

end Agree

end Heap
