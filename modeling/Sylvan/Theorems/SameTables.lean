import Sylvan.Theorems.Frames

/-! The calls that leave the symbol tables alone: all but those that load a file and the one that destroys
    the inferior. -/

namespace Sylvan
open Exec

structure SameTables (s t : State) : Prop where
  elf : t.inf.elfTable = s.inf.elfTable
  dwarf : t.inf.dwarfTable = s.inf.dwarfTable

instance : IsPreorder State SameTables where
  refl _ := ⟨rfl, rfl⟩
  trans _ _ _ h h' := ⟨h'.elf.trans h.elf, h'.dwarf.trans h.dwarf⟩

instance : IgnoresLife SameTables where
  scratch _ _ := ⟨rfl, rfl⟩
  image _ _ _ := ⟨rfl, rfl⟩
  event _ _ _ := ⟨rfl, rfl⟩
  inf _ _ elf dwarf := ⟨elf, dwarf⟩

theorem Op.sameTables {env : Env} (op : Op) (hload : ¬op.IsLoad) (hdestroy : op ≠ .destroy) : Keeps SameTables (op.call env) :=
  op.keeps_life hload hdestroy

end Sylvan
