import Mathlib.Data.Fintype.EquivFin
import Sylvan.Theorems.Growth
import Sylvan.Theorems.OneAddress

/-! The loops over the symbols of a section, in the loader of the ELF table and in the search for a function: the indices
    that they come to, and their divisions. -/

namespace Sylvan
open Exec

/-- The quotient of the header's fields -/
def ElfSection.entries (scn : ElfSection) : Nat := (scn.shSize / scn.shEntsize).toNat

section
variable {scn : ElfSection} {i j : Nat} {env : Env} {file : ElfFile} {id : TableId} {getsym getsym' : Nat → Option ElfSym}

/-! ### Indices -/

end

/-! ### Divisions -/

section
variable {env : Env} {file : ElfFile} {scns : List ElfSection} {id : TableId} {s : State}

end

end Sylvan
