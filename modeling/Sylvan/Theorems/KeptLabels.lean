import Sylvan.Theorems.Resolution

/-! What becomes of the labels of a load, by the answers of the allocations: a symbol keeps its name if there is memory for the copy,
    and a table is given up where there is none for a block twice as large. -/

namespace Sylvan
open Exec

/-- A table of `n` symbols is full. -/
def Full (n : Nat) : Prop := ∃ k ≤ n, n = 256 * 2 ^ k

instance (n : Nat) : Decidable (Full n) := Nat.decidableExistsLE _

/-- How many allocations it takes to add `k` labels to a table of `n` symbols -/
def allocations : Nat → Nat → Nat
  | _, 0 => 0
  | n, k + 1 => if Full n then allocations (n + 1) k + 2 else allocations (n + 1) k + 1

/-- From time `now` on, the next `k` allocations succeed. -/
def Env.Allots (env : Env) (now k : Nat) : Prop := ∀ j < k, env.malloc (now + j) = true

instance (env : Env) (now k : Nat) : Decidable (env.Allots now k) := Nat.decidableBallLT k _

/-- The symbols for these labels in a table of `n` symbols, to which they are added from time `now` on -/
def keptSymbols (env : Env) : Nat → Nat → List Label → List Symbol
  | _, _, [] => []
  | now, n, label :: labels =>
    if Full n then
      if env.malloc now then
        ⟨if env.malloc (now + 1) then some label.1 else none, label.2⟩ :: keptSymbols env (now + 2) (n + 1) labels
      else []
    else ⟨if env.malloc now then some label.1 else none, label.2⟩ :: keptSymbols env (now + 1) (n + 1) labels

section
variable {env : Env} {s t : State} {E : Code → State → Prop} {id : TableId} {labels : List Label}
  {now n k : Nat}

/-! ### With memory for all -/

/-- The symbols for these labels in a new table, which takes none without a block -/
def keptInBlock (env : Env) (block : Bool) (now : Nat) (labels : List Label) : List Symbol :=
  if block then keptSymbols env now 0 labels else []

/-- There is memory for the labels, which are added to a new table from time `now` on. -/
def Env.Stores (env : Env) (block : Bool) (now : Nat) (labels : List Label) : Prop :=
  labels = [] ∨ block = true ∧ env.Allots now (allocations 0 labels.length)

/-- The tables are new, and whether they have a block is known. -/
structure Fresh (elf dwarf : Bool) (s : State) : Prop where
  elf : s.inf.table .elf = ⟨[], 256, if elf then 256 else 0⟩
  dwarf : s.inf.table .dwarf = ⟨[], 256, 256⟩ ∧ dwarf = true ∨
    (s.inf.table .dwarf = ⟨[], 256, 0⟩ ∨ s.inf.table .dwarf = ⟨[], 0, 0⟩) ∧ dwarf = false

/-- The symbols of the DWARF table before it is sorted, in a load that asks for its first block at time `first`, and whose walk begins
    at time `now` -/
def describedSymbols (env : Env) (path : Option String) (first now : Nat) : List Symbol :=
  keptInBlock env (env.malloc first && env.malloc (first + 1)) (now + 1) (describedLabels (env.dwarf now path))

/-- A load reads the DWARF information at time `now`, and asks `libelf` from time `next` on. -/
def LoadsAt (env : Env) (s : State) (now next : Nat) : Prop :=
  ∃ v w, symReset env s = .ok () v ∧ symWalk env s.inf.realpath v = .ok () w ∧ v.scratch.clock = now ∧ w.scratch.clock = next

theorem LoadsAt.unique {now' next' : Nat} {next : Nat} (h : LoadsAt env s now next) (h' : LoadsAt env s now' next') :
    now = now' ∧ next = next' := by
  obtain ⟨v, w, hv, hw, rfl, rfl⟩ := h
  obtain ⟨v', w', hv', hw', rfl, rfl⟩ := h'
  cases hv.symm.trans hv'
  cases hw.symm.trans hw'
  exact ⟨rfl, rfl⟩

end

end Sylvan
