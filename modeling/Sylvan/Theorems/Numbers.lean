import Sylvan.Theorems.Refusals
import Sylvan.Theorems.TableMap

/-! Whether the number of a breakpoint selects the entry that `info_breakpoints` lists under it. -/

namespace Sylvan
open Exec

/-- `inf'` has the table of `inf`, with what is left in its free slots. -/
structure Inferior.SameTable (inf inf' : Inferior) : Prop where
  breakpoints : inf'.breakpoints = inf.breakpoints
  breakpointCount : inf'.breakpointCount = inf.breakpointCount

/-- The numbers that are refused with the table of `inf`. -/
def Inferior.RefusesNumber (inf : Inferior) (n : Int) : Prop :=
  Numeral.Overflows n ∨ asInt n < 0 ∨ inf.breakpointCount < asInt n ∨
    asInt n = inf.breakpointCount ∧ inf.count < maxBreakpoints ∧ breakpointFindByAddr inf (inf.slot inf.count).addr = none

/-- The commands that take the number of a breakpoint. -/
inductive NumberCommand where
  | enable
  | disable
  | delete
  deriving DecidableEq, Repr

namespace NumberCommand

def handler : NumberCommand → Handler
  | enable => .enableBreakpoint
  | disable => .disableBreakpoint
  | delete => .deleteBreakpoint

section
variable (env : UiEnv)

/-- The command acts on the breakpoint at `addr`. -/
def act (cmd : NumberCommand) (addr : Addr) : UiM Unit := do
  sys (setErrno 0)
  match cmd with
  | enable => toggleAt env false addr
  | disable => toggleAt env true addr
  | delete => deleteAt env addr

end

end NumberCommand

/-! ### The table -/

namespace Inferior
variable {inf inf' : Inferior} {n : Int} {addr : Addr} {i : Nat}

theorem SameTable.slot (h : inf.SameTable inf') : inf'.slot = inf.slot := by
  unfold Inferior.slot
  rw [h.breakpoints]

theorem SameTable.tableOk (h : inf.SameTable inf') (ht : inf.TableOk) : inf'.TableOk :=
  ht.congr h.breakpointCount fun i _ => by rw [h.slot]

theorem SameTable.count (h : inf.SameTable inf') : inf'.count = inf.count := count_congr h.breakpointCount

theorem SameTable.find (h : inf.SameTable inf') : breakpointFindByAddr inf' addr = breakpointFindByAddr inf addr := by
  unfold breakpointFindByAddr
  rw [h.slot, h.count]

end Inferior

/-! ### What the calls do to the address of an entry -/

section Calls
variable {env : UiEnv} {F : Fault → State → Prop} {s : State} {addr : Addr} {i : Nat}

end Calls

/-! ### Reading a number -/

section Read
variable {env : UiEnv} {command : Argv} {c : CStr} {s : Session} {n : Int} {cmd : NumberCommand} {text tooLarge : String}

/-- What a command does with the index of an entry -/
def NumberCommand.byId (env : UiEnv) : NumberCommand → Nat → UiM Unit
  | enable => toggleId env false
  | disable => toggleId env true
  | delete => deleteId env

/-- The session after `errno` was set to zero -/
def Session.cleared (s : Session) : Session := { s with state := s.state.withScratch (s.state.scratch.withErrno 0) }

end Read

/-! ### Selecting -/

section Select
variable {env : UiEnv} {s : Session} {inf : Inferior} {cmd : NumberCommand} {i : Nat} {addr : Addr} {n : Int} {text : String}

end Select

/-! ### Selecting something else -/

section Other
variable {env : UiEnv} {s : Session} {inf : Inferior} {cmd : NumberCommand} {i j : Nat} {addr : Addr} {n : Int} {text : CStr}
  {F : Fault → Session → Prop} {E : Int → Session → Prop}

/-- A command line with the number `text` -/
def NumberCommand.line (text : CStr) : Argv := ⟨[⟨"", by decide, []⟩, text], []⟩

end Other

end Sylvan
