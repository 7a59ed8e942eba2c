import Sylvan.Theorems.Addresses
import Sylvan.Theorems.OneAddress

/-! The two addresses that `disassemble` is called with, on the lines that name a range, a function or the instruction at
    `rip`. -/

namespace Sylvan
open Exec

/-! ### The call -/

section
variable {env : UiEnv} {s : Session} {name : String} {E : Int → Session → Prop}

end

/-! ### The lines -/

/-- The arguments of a line, each with what it names. -/
inductive DisassembleArgs where
  | range (first last : CStr) (startAddr endAddr : Addr) (starts : HexAddress first.text startAddr)
    (ends : HexAddress last.text endAddr) (ordered : startAddr < endAddr) (low : endAddr.toNat < 2 ^ 63)
  | function (name : CStr) (noOption : name.text ≠ "-c")
  | current (option : CStr) (isOption : option.text = "-c")

namespace DisassembleArgs

def tokens : DisassembleArgs → List CStr
  | range first last .. => [first, last]
  | function name _ => [name]
  | current option _ => [option]

/-- The line of a command with these arguments. -/
def line (args : DisassembleArgs) (command : CStr) (slots : List (Option CStr)) : Argv := ⟨command :: args.tokens, slots⟩

/-- The bounds of a function: its start, and the end that its size gives. -/
def ofFunction (env : UiEnv) (name : String) : UiM (Addr × Addr) := do
  match ← getFunctionBounds env (← inferior).realpath name with
  | none => leave 0
  | some (startAddr, size) => pure (startAddr, startAddr + size)

/-- The 15 bytes from `rip` -/
def fromRip (env : UiEnv) : UiM (Addr × Addr) := do
  let regs ← orLastError (readRegs env)
  pure (regs .rip, regs .rip + 15)

/-- `called` gives the addresses that the arguments name. For those of a range nothing is asked of the system and nothing is
    printed. -/
def Named (env : UiEnv) (s : Session) (called : UiM (Addr × Addr)) : DisassembleArgs → Prop
  | range _ _ startAddr endAddr .. =>
    ∃ e : Errno, called s = .ok (startAddr, endAddr) { s with state := s.state.withScratch (s.state.scratch.withErrno e) }
  | function name _ => called s = ofFunction env name.text s
  | current _ _ => called s = fromRip env s

section
variable {env : UiEnv} {s : Session} {command : CStr} {slots : List (Option CStr)}

end

end DisassembleArgs

end Sylvan
