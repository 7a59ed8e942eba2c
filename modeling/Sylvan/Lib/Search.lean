import Mathlib.Logic.Basic

/-! # Binary search

`index c fuel l u` looks for an index from `l` up to `u` at which `c` is `.eq`, where `c i` says how the
key compares to what is at `i`: `.gt` sends the search to the right of `i`, and `.lt` to the left. -/

namespace Search

def index (c : Nat → Ordering) : Nat → Nat → Nat → Option Nat
  | 0, _, _ => none
  | fuel + 1, l, u =>
    if u ≤ l then none
    else match c ((l + u) / 2) with
      | .lt => index c fuel l ((l + u) / 2)
      | .gt => index c fuel ((l + u) / 2 + 1) u
      | .eq => some ((l + u) / 2)

/-- From `l` up to `u`, the key is first greater, then equal, then less. -/
def Falls (c : Nat → Ordering) (l u : Nat) : Prop :=
  ∀ i j, l ≤ i → i < j → j < u → (c i = .lt → c j = .lt) ∧ (c j = .gt → c i = .gt)

variable {c c' : Nat → Ordering} {fuel l u i : Nat}

/-- Wherever the search ends, it ends at a match, in any order of the items. -/
theorem index_some (h : index c fuel l u = some i) : l ≤ i ∧ i < u ∧ c i = .eq := by
  induction fuel generalizing l u with
  | zero => cases h
  | succ fuel ih =>
    unfold index at h
    split at h
    · cases h
    rename_i hlu
    have hmid : l ≤ (l + u) / 2 ∧ (l + u) / 2 < u := by omega
    split at h
    · obtain ⟨hl, hu, hc⟩ := ih h
      exact ⟨hl, Nat.lt_trans hu hmid.2, hc⟩
    · obtain ⟨hl, hu, hc⟩ := ih h
      exact ⟨Nat.le_trans hmid.1 (Nat.le_of_succ_le hl), hu, hc⟩
    · rename_i hc
      cases h
      exact ⟨hmid.1, hmid.2, hc⟩

/-- In order, a match is not passed over. -/
theorem index_ne_none (hfuel : u < l + fuel) (hc : Falls c l u) (hl : l ≤ i) (hu : i < u) (hi : c i = .eq) :
    index c fuel l u ≠ none := by
  induction fuel generalizing l u with
  | zero => omega
  | succ fuel ih =>
    unfold index
    rw [if_neg (by omega)]
    have hne : ∀ o, o ≠ .eq → c ((l + u) / 2) = o → (l + u) / 2 ≠ i := by
      intro o ho hmid heq
      exact ho (hmid.symm.trans (heq ▸ hi))
    split
    · rename_i hmid
      -- what lies beyond a greater item is greater too
      have hlt : i < (l + u) / 2 := by
        refine Nat.lt_of_not_le fun hle => ?_
        have := hne .lt (by simp) hmid
        have := (hc ((l + u) / 2) i (by omega) (by omega) hu).1 hmid
        simp [hi] at this
      exact ih (by omega) (fun i j hi hij hj => hc i j hi hij (by omega)) hl hlt
    · rename_i hmid
      have hgt : (l + u) / 2 < i := by
        refine Nat.lt_of_not_le fun hle => ?_
        have := hne .gt (by simp) hmid
        have := (hc i ((l + u) / 2) hl (by omega) (by omega)).2 hmid
        simp [hi] at this
      exact ih (by omega) (fun i j hi hij hj => hc i j (by omega) hij hj) (by omega) hu
    · simp

theorem index_isSome_iff (hc : Falls c 0 u) : (index c (u + 1) 0 u).isSome ↔ ∃ i, i < u ∧ c i = .eq := by
  constructor
  · intro h
    obtain ⟨i, hi⟩ := Option.isSome_iff_exists.mp h
    exact ⟨i, (index_some hi).2.1, (index_some hi).2.2⟩
  · rintro ⟨i, hu, hi⟩
    exact Option.isSome_iff_ne_none.mpr (index_ne_none (by omega) hc (Nat.zero_le i) hu hi)

end Search
