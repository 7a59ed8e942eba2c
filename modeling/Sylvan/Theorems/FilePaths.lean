import Sylvan.Theorems.KeptLabels
import Sylvan.Theorems.Runs

/-! A new path of the executable: what is left of the path and of the tables where it is rejected, and what the tables hold
    where it is taken. -/

namespace Sylvan
open Exec

/-- `sylvan_get_label_addr` gives the address for the name. -/
def Answers (name : String) (addr : Addr) (s : State) : Prop := ∃ t, getLabelAddr name s = .ok addr t

/-- The tables have the same names, and a name has the same address. -/
structure SameLabels (s t : State) : Prop where
  names : ∀ id name, name ∈ (t.inf.table id).names ↔ name ∈ (s.inf.table id).names
  answers : ∀ name addr, Answers name addr t ↔ Answers name addr s

/-- The state with these symbols in the DWARF table, and none in the ELF table -/
def State.holding (s : State) (symbols : List Symbol) : State := (s.setTable .dwarf ⟨symbols, 0, 0⟩).setTable .elf ⟨[], 0, 0⟩

/-- Wherever the new path is set, `libelf` opens the file, and a load that ends finds memory for all labels; or it is the path that was
    set before, and the tables had what there is memory for of the labels of its DWARF information. -/
def Loads (env : Env) (s : State) : Option String → Prop
  | none => True
  | some filepath => ∀ u now next, switchPath env filepath s = .ok () u → LoadsAt env u now next →
    let path := u.inf.realpath
    let block := env.malloc u.scratch.clock
    (env.Opens next path → ∀ file, env.elf (next + 2) path = some file → (∃ t, symLoadTables env u = .ok () t) →
      env.Stores (block && env.malloc (u.scratch.clock + 1)) (now + 1) (describedLabels (env.dwarf now path)) ∧
        env.Stores block (next + 3) file.labels) ∧
    (¬env.Opens next path → path = s.inf.realpath ∧ SameLabels s (s.holding (describedSymbols env path u.scratch.clock now)))

section
variable {env : Env} {s t : State} {F : Fault → State → Prop} {E : Code → State → Prop} {id : TableId} {labels : List Label}
  {filepath : String}

/-! ### Answers -/

/-- A search does not depend on the state. -/
theorem bsearch_outcome (name : String) (symbols : List Symbol) (fuel l u : Nat) :
    (∃ r, ∀ s, bsearch name symbols fuel l u s = .ok r s) ∨ ∃ f, ∀ s, bsearch name symbols fuel l u s = .fault f s := by
  induction fuel generalizing l u with
  | zero => exact Or.inl ⟨none, fun _ => rfl⟩
  | succ fuel ih =>
    unfold bsearch
    split
    · exact Or.inl ⟨none, fun _ => rfl⟩
    · cases symbols[(l + u) / 2]? with
      | none => exact Or.inr ⟨_, fun _ => rfl⟩
      | some sym =>
        dsimp only
        cases sym.name with
        | none => exact Or.inr ⟨_, fun _ => rfl⟩
        | some other =>
          dsimp only
          cases strcmp name.toList other.toList with
          | lt => exact ih _ _
          | gt => exact ih _ _
          | eq => exact Or.inl ⟨some sym, fun _ => rfl⟩

theorem symLookup_of_ok {table : SymTable} {name : String} {r : Option Symbol} (h : symLookup table name s = .ok r t) :
    ∀ v, symLookup table name v = .ok r v := by
  unfold symLookup at *
  rcases bsearch_outcome name table.symbols (table.symbols.length + 1) 0 table.symbols.length with ⟨r', hr⟩ | ⟨f, hf⟩
  · cases (hr s).symm.trans h
    exact hr
  · cases (hf s).symm.trans h

theorem SameLabels.trans {u : State} (h : SameLabels s t) (h' : SameLabels t u) : SameLabels s u :=
  ⟨fun id name => (h'.names id name).trans (h.names id name), fun name addr => (h'.answers name addr).trans (h.answers name addr)⟩

/-! ### Setting the path -/

end

/-! ### Rejected paths -/

section
variable {env : Env} {s t u : State} {c : Code} {filepath : String}

end

end Sylvan
