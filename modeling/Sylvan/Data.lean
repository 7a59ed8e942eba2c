import Sylvan.Error
import Sylvan.Lib.ByteMemory
import Sylvan.Lib.SlotTable

/-! # Data of the library

The structures of `include/sylvan/breakpoint.h`, `symbol.h` and `inferior.h`, and what the library sees of
a traced process. -/

namespace Sylvan

abbrev Byte := ByteMemory.Byte

/-- `uintptr_t` -/
abbrev Addr := BitVec 64

/-- `long`, as `ptrace` transfers it. -/
abbrev Word := BitVec 64

abbrev Memory := ByteMemory.Memory 64

/-- `pid_t` -/
abbrev Pid := Int

/-! ## The traced process -/

/-- The registers of `struct user_regs_struct`. -/
inductive Reg where
  | r15 | r14 | r13 | r12 | rbp | rbx | r11 | r10 | r9 | r8 | rax | rcx | rdx | rsi | rdi | origRax | rip | cs | eflags
  | rsp | ss | fsBase | gsBase | ds | es | fs | gs
  deriving DecidableEq, Repr

/-- `struct user_regs_struct` -/
abbrev UserRegs := Reg → Word

/-- What `PTRACE_GETSIGINFO` tells of the last stop. -/
structure SigInfo where
  siSigno : Int
  siCode : Int
  deriving DecidableEq, Repr

/-- A process as its tracer sees it at a stop. -/
structure Process where
  mem : Memory
  regs : UserRegs
  siginfo : SigInfo

def Process.rip (p : Process) : Word := p.regs .rip

/-! ## Breakpoints -/

/-- `MAX_BREAKPOINTS` -/
abbrev maxBreakpoints : Nat := 256

/-- `struct sylvan_breakpoint` -/
structure Breakpoint where
  addr : Addr
  ogByte : Byte
  isEnabledLog : Bool
  isEnabledPhy : Bool
  deriving DecidableEq, Repr

/-- An entry of zeros, as `memset` leaves it. -/
instance : Inhabited Breakpoint := ⟨⟨0, 0, false, false⟩⟩

/-! ## Symbols -/

/-- `struct symbol`. The name is what `strdup` gave, `none` where it failed. -/
structure Symbol where
  name : Option String
  addr : Addr
  deriving DecidableEq, Repr

/-- `struct sylvan_sym_table`. `symbols` holds its first `count` entries, and `allocated` says for how many
    the block they are in has room. -/
structure SymTable where
  symbols : List Symbol
  capacity : Nat
  allocated : Nat
  deriving DecidableEq, Repr

/-! ## The inferior -/

/-- `sylvan_inferior_state_t` -/
inductive InferiorState where
  | none
  | terminated
  | running
  | exited
  | stopped
  deriving DecidableEq, Repr

/-- `struct sylvan_inferior` -/
structure Inferior where
  id : Int
  pid : Pid
  status : InferiorState
  realpath : Option String
  args : Option String
  isAttached : Bool
  breakpoints : Vector Breakpoint maxBreakpoints
  breakpointCount : Int
  elfTable : SymTable
  dwarfTable : SymTable

namespace Inferior

/-- The macro `isactive` of `breakpoint.c`. -/
def IsActive (inf : Inferior) : Prop := inf.status = .running ∨ inf.status = .stopped

instance (inf : Inferior) : Decidable inf.IsActive := inferInstanceAs (Decidable (_ ∨ _))

/-- `inf->breakpoints[i]` -/
def slot (inf : Inferior) (i : Nat) : Breakpoint := inf.breakpoints.toArray.getD i default

/-- `inf` with `b` stored in `inf->breakpoints[i]`. -/
def setSlot (inf : Inferior) (i : Nat) (b : Breakpoint) : Inferior :=
  { inf with breakpoints := inf.breakpoints.setIfInBounds i b }

/-- The number of entries in the table. -/
def count (inf : Inferior) : Nat := inf.breakpointCount.toNat

section Slots
variable {inf : Inferior} {i j : Nat} {b : Breakpoint}

theorem slot_setSlot (hi : i < maxBreakpoints) : (inf.setSlot i b).slot = Function.update inf.slot i b := by
  funext j
  simp only [slot, setSlot, Array.getD_eq_getD_getElem?, Vector.toArray_setIfInBounds,
    Array.getElem?_setIfInBounds, Vector.size_toArray, hi, if_true]
  by_cases h : i = j
  · rw [if_pos h, h, Function.update_self, Option.getD_some]
  · rw [if_neg h, Function.update_of_ne (Ne.symm h)]
    simp only [slot, Array.getD_eq_getD_getElem?]

@[simp] theorem setSlot_status : (inf.setSlot i b).status = inf.status := rfl
@[simp] theorem setSlot_pid : (inf.setSlot i b).pid = inf.pid := rfl
@[simp] theorem setSlot_isAttached : (inf.setSlot i b).isAttached = inf.isAttached := rfl
@[simp] theorem setSlot_realpath : (inf.setSlot i b).realpath = inf.realpath := rfl
@[simp] theorem setSlot_breakpointCount : (inf.setSlot i b).breakpointCount = inf.breakpointCount := rfl
@[simp] theorem setSlot_count : (inf.setSlot i b).count = inf.count := rfl
@[simp] theorem setSlot_isActive : (inf.setSlot i b).IsActive = inf.IsActive := rfl

end Slots

end Inferior

end Sylvan
