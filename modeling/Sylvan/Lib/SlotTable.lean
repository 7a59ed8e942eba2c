import Mathlib.Logic.Function.Basic

/-! # Tables in array slots

A table keeps its entries in the first `n` slots of an array, in no order: a search is linear, a new
entry goes to slot `n`, and a removed entry is replaced by the last one. Where no two entries have the
same key the table is a finite map, `lookup`, and each operation updates that map at one key. -/

namespace SlotTable

variable {α κ β : Type} {key : α → κ} {val : α → β} {slot slot' : Nat → α} {n i j : Nat} {k : κ}

/-- The first of `n` slots whose entry has key `k`. -/
def find [DecidableEq κ] (key : α → κ) (slot : Nat → α) (n : Nat) (k : κ) : Option Nat :=
  (List.range n).find? fun i => key (slot i) = k

/-- No two of the first `n` slots have the same key. -/
def Distinct (key : α → κ) (slot : Nat → α) (n : Nat) : Prop :=
  ∀ i j, i < n → j < n → key (slot i) = key (slot j) → i = j

instance [DecidableEq κ] : Decidable (Distinct key slot n) :=
  decidable_of_iff (∀ i, i < n → ∀ j, j < n → key (slot i) = key (slot j) → i = j)
    ⟨fun h i j hi => h i hi j, fun h i hi j => h i j hi⟩

/-- The map from keys to values that the first `n` slots hold. -/
def lookup [DecidableEq κ] (key : α → κ) (val : α → β) (slot : Nat → α) (n : Nat) (k : κ) : Option β :=
  (find key slot n k).map fun i => val (slot i)

/-! ## Distinct keys -/

theorem Distinct.congr (hd : Distinct key slot n) (h : ∀ i, i < n → key (slot' i) = key (slot i)) :
    Distinct key slot' n := fun i j hi hj hk => hd i j hi hj (by rwa [h i hi, h j hj] at hk)

theorem Distinct.zero : Distinct key slot 0 := fun _ _ hi => absurd hi (Nat.not_lt_zero _)

/-- An entry with a new key, in the slot after the last one, keeps the keys distinct. -/
theorem Distinct.push (hd : Distinct key slot n) {a : α} (ha : ∀ i, i < n → key (slot i) ≠ key a) :
    Distinct key (Function.update slot n a) (n + 1) := by
  intro i j hi hj hk
  by_cases hin : i = n <;> by_cases hjn : j = n
  · omega
  · rw [hin, Function.update_self, Function.update_of_ne hjn] at hk
    exact absurd hk.symm (ha j (by omega))
  · rw [hjn, Function.update_self, Function.update_of_ne hin] at hk
    exact absurd hk (ha i (by omega))
  · rw [Function.update_of_ne hin, Function.update_of_ne hjn] at hk
    exact hd i j (by omega) (by omega) hk

/-- Where the slots of the smaller table come from: slot `i` from the last one, the others from themselves. -/
theorem swapRemove_slot (slot : Nat → α) (hi : i < n) (j : Nat) (hj : j < n - 1) :
    ∃ j', j' < n ∧ j' ≠ i ∧ Function.update slot i (slot (n - 1)) j = slot j' := by
  by_cases hji : j = i
  · exact ⟨n - 1, by omega, by omega, by rw [hji, Function.update_self]⟩
  · exact ⟨j, by omega, hji, Function.update_of_ne hji _ _⟩

/-- Every entry other than the removed one stays. -/
theorem swapRemove_mem (slot : Nat → α) (hi : i < n) (hj : j < n) (hji : j ≠ i) :
    ∃ j', j' < n - 1 ∧ Function.update slot i (slot (n - 1)) j' = slot j := by
  by_cases hjn : j = n - 1
  · by_cases hin : i < n - 1
    · exact ⟨i, hin, by rw [Function.update_self, hjn]⟩
    · exact ⟨j, by omega, by rw [Function.update_of_ne hji]⟩
  · exact ⟨j, by omega, Function.update_of_ne hji _ _⟩

theorem Distinct.swapRemove (hd : Distinct key slot n) (hi : i < n) :
    Distinct key (Function.update slot i (slot (n - 1))) (n - 1) := by
  intro a b ha hb hk
  by_cases hai : a = i <;> by_cases hbi : b = i
  · omega
  · rw [hai, Function.update_self, Function.update_of_ne hbi] at hk
    have := hd (n - 1) b (by omega) (by omega) hk
    omega
  · rw [hbi, Function.update_self, Function.update_of_ne hai] at hk
    have := hd a (n - 1) (by omega) (by omega) hk
    omega
  · rw [Function.update_of_ne hai, Function.update_of_ne hbi] at hk
    exact hd a b (by omega) (by omega) hk

section Map
variable [DecidableEq κ]

/-! ## The search -/

theorem find_eq_some (h : find key slot n k = some i) : i < n ∧ key (slot i) = k :=
  ⟨List.mem_range.mp (List.mem_of_find?_eq_some h), by simpa using List.find?_some h⟩

theorem find_eq_none : find key slot n k = none ↔ ∀ i, i < n → key (slot i) ≠ k := by
  simp [find, List.find?_eq_none]

theorem find_isSome_of (hi : i < n) (hk : key (slot i) = k) : ∃ j, find key slot n k = some j := by
  cases h : find key slot n k with
  | some j => exact ⟨j, rfl⟩
  | none => exact absurd hk (find_eq_none.mp h i hi)

theorem Distinct.find_iff (hd : Distinct key slot n) : find key slot n k = some i ↔ i < n ∧ key (slot i) = k := by
  refine ⟨find_eq_some, fun ⟨hi, hk⟩ => ?_⟩
  obtain ⟨j, hj⟩ := find_isSome_of hi hk
  obtain ⟨hjn, hjk⟩ := find_eq_some hj
  rw [hj, hd j i hjn hi (hjk.trans hk.symm)]

theorem find_congr (h : ∀ i, i < n → key (slot' i) = key (slot i)) : find key slot' n k = find key slot n k := by
  unfold find
  have : ∀ l : List Nat, (∀ i ∈ l, i < n) →
      l.find? (fun i => key (slot' i) = k) = l.find? (fun i => key (slot i) = k) := by
    intro l
    induction l with
    | nil => intro _; rfl
    | cons i l ih =>
      intro hl
      rw [List.find?_cons, List.find?_cons, h i (hl i List.mem_cons_self),
        ih fun j hj => hl j (List.mem_cons_of_mem _ hj)]
  exact this _ fun i hi => List.mem_range.mp hi

/-! ## The map -/

theorem Distinct.lookup_iff (hd : Distinct key slot n) {v : β} :
    lookup key val slot n k = some v ↔ ∃ i, i < n ∧ key (slot i) = k ∧ val (slot i) = v := by
  simp only [lookup, Option.map_eq_some_iff, hd.find_iff, and_assoc]

theorem lookup_eq_none : lookup key val slot n k = none ↔ ∀ i, i < n → key (slot i) ≠ k := by
  simp only [lookup, Option.map_eq_none_iff, find_eq_none]

theorem lookup_congr (h : ∀ i, i < n → key (slot' i) = key (slot i) ∧ val (slot' i) = val (slot i)) :
    lookup key val slot' n k = lookup key val slot n k := by
  unfold lookup
  rw [find_congr fun i hi => (h i hi).1]
  cases hf : find key slot n k with
  | none => rfl
  | some i => rw [Option.map_some, Option.map_some, (h i (find_eq_some hf).1).2]

/-! ## Updates -/

/-- An entry that keeps its key updates the map at that key. -/
theorem Distinct.lookup_update (hd : Distinct key slot n) {a : α} (hi : i < n) (ha : key a = key (slot i)) :
    lookup key val (Function.update slot i a) n = Function.update (lookup key val slot n) (key a) (some (val a)) := by
  have hkeys : ∀ j, j < n → key (Function.update slot i a j) = key (slot j) := fun j _ => by
    by_cases hj : j = i
    · rw [hj, Function.update_self, ha]
    · rw [Function.update_of_ne hj]
  funext k
  unfold lookup
  rw [find_congr hkeys]
  by_cases hk : k = key a
  · rw [hk, Function.update_self, hd.find_iff.mpr ⟨hi, ha.symm⟩, Option.map_some, Function.update_self]
  · rw [Function.update_of_ne hk]
    cases hf : find key slot n k with
    | none => rfl
    | some j =>
      have hj : j ≠ i := fun h => hk (by rw [← (find_eq_some hf).2, h, ha])
      rw [Option.map_some, Option.map_some, Function.update_of_ne hj]

/-- An entry with a new key adds that key to the map. -/
theorem Distinct.lookup_push (hd : Distinct key slot n) {a : α} (ha : ∀ i, i < n → key (slot i) ≠ key a) :
    lookup key val (Function.update slot n a) (n + 1) =
      Function.update (lookup key val slot n) (key a) (some (val a)) := by
  have hold : ∀ j, j < n → Function.update slot n a j = slot j := fun j hj => Function.update_of_ne (by omega) _ _
  funext k
  apply Option.ext
  intro v
  rw [(hd.push ha).lookup_iff]
  by_cases hk : k = key a
  · rw [hk, Function.update_self, Option.some_inj]
    constructor
    · rintro ⟨i, hi, hik, hv⟩
      by_cases hin : i = n
      · rw [hin, Function.update_self] at hv
        exact hv
      · rw [hold i (by omega)] at hik
        exact absurd hik (ha i (by omega))
    · exact fun hv => ⟨n, by omega, by rw [Function.update_self], by rw [Function.update_self]; exact hv⟩
  · rw [Function.update_of_ne hk, hd.lookup_iff]
    constructor
    · rintro ⟨i, hi, hik, hv⟩
      have hin : i ≠ n := fun h => hk (by rw [← hik, h, Function.update_self])
      rw [hold i (by omega)] at hik hv
      exact ⟨i, by omega, hik, hv⟩
    · rintro ⟨i, hi, hik, hv⟩
      exact ⟨i, by omega, by rw [hold i hi]; exact hik, by rw [hold i hi]; exact hv⟩

/-- Replacing entry `i` by the last one deletes its key from the map, and no other. -/
theorem Distinct.lookup_swapRemove (hd : Distinct key slot n) (hi : i < n) :
    lookup key val (Function.update slot i (slot (n - 1))) (n - 1) =
      Function.update (lookup key val slot n) (key (slot i)) none := by
  funext k
  apply Option.ext
  intro v
  rw [(hd.swapRemove hi).lookup_iff]
  by_cases hk : k = key (slot i)
  · rw [hk, Function.update_self]
    refine iff_of_false ?_ (by simp)
    rintro ⟨j, hj, hjk, -⟩
    obtain ⟨j', hj', hne, heq⟩ := swapRemove_slot slot hi j hj
    rw [heq] at hjk
    exact hne (hd j' i hj' hi hjk)
  · rw [Function.update_of_ne hk, hd.lookup_iff]
    constructor
    · rintro ⟨j, hj, hjk, hv⟩
      obtain ⟨j', hj', -, heq⟩ := swapRemove_slot slot hi j hj
      rw [heq] at hjk hv
      exact ⟨j', hj', hjk, hv⟩
    · rintro ⟨j, hj, hjk, hv⟩
      have hji : j ≠ i := fun h => hk (by rw [← hjk, h])
      obtain ⟨j', hj', heq⟩ := swapRemove_mem slot hi hj hji
      exact ⟨j', hj', by rw [heq]; exact hjk, by rw [heq]; exact hv⟩

end Map

end SlotTable
