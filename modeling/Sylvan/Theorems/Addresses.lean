import Sylvan.Theorems.Refusals
import Sylvan.Theorems.UserWrites

/-! Whether the commands that take an address agree on what an address is: `0x` and hexadecimal digits, of a value that
    fits in 64 bits and is not zero. -/

namespace Sylvan
open Exec

/-- `text` is an address, written in hexadecimal. -/
def HexAddress (text : String) (addr : Addr) : Prop :=
  ∃ digits, text.toList = '0' :: 'x' :: digits ∧ digits ≠ [] ∧ (∀ c ∈ digits, Numeral.isDigit 16 c) ∧
    Numeral.value 16 digits = addr.toNat ∧ addr ≠ 0

/-- The commands that take an address. -/
inductive AddressCommand where
  | breakpoint
  | enable
  | disable
  | delete
  | memoryRead
  | memoryWrite
  | disassemble
  deriving DecidableEq, Repr

namespace AddressCommand

def handler : AddressCommand → Handler
  | breakpoint => .breakpointSet
  | enable => .enableBreakpoint
  | disable => .disableBreakpoint
  | delete => .deleteBreakpoint
  | memoryRead => .readMemory
  | memoryWrite => .writeMemory
  | disassemble => .disassemble

/-- `c` is the address that follows `-a`. -/
def AfterOption (tokens : List CStr) (c : CStr) : Prop := ∃ t a rest, tokens = t :: a :: c :: rest ∧ a.text = "-a"

/-- Among the tokens of a command line, `c` is the address of the command. -/
def Gives : AddressCommand → List CStr → CStr → Prop
  | breakpoint, tokens, c => (∃ t, tokens = [t, c]) ∧ c.text.toList.head? = some '0'
  | enable, tokens, c => AfterOption tokens c
  | disable, tokens, c => AfterOption tokens c
  | delete, tokens, c => AfterOption tokens c
  | memoryRead, tokens, c =>
    (∃ t rest, tokens = t :: c :: rest ∧ c.startsWith "-t" = false) ∨
      ∃ t a rest, tokens = t :: a :: c :: rest ∧ a.startsWith "-t" = true
  | memoryWrite, tokens, c => ∃ t value rest, tokens = t :: c :: value :: rest
  | disassemble, tokens, c => ∃ t last rest, tokens = t :: c :: last :: rest

section
variable (env : UiEnv)

/-- What a command does with its address, which `addr` gives -/
def on : AddressCommand → Argv → UiM Addr → UiM Unit
  | breakpoint, _, addr => addr >>= setAt env
  | enable, _, addr => addr >>= toggleAt env false
  | disable, _, addr => addr >>= toggleAt env true
  | delete, _, addr => addr >>= deleteAt env
  | memoryRead, command, addr => do
    let pTable := (command.arg 1).any fun c => c.startsWith "-t"
    let numRows ← parseRows (if pTable then command.arg 3 else command.arg 2)
    readAt env pTable numRows (← addr)
  | memoryWrite, command, addr => addr >>= writeAt env (command.tokens.drop 2)
  | disassemble, command, addr => do
    let startAddr ← addr
    match command.arg 2 with
    | none => pure ()
    | some last => disassembleAt env startAddr (← parseEnd last startAddr)

/-- The command acts on `addr`. -/
def act (cmd : AddressCommand) (command : Argv) (addr : Addr) : UiM Unit :=
  cmd.on env command (do sys (setErrno 0); pure addr)

end

end AddressCommand

/-- Given the address `text`, a command acts on the address that it denotes, and it refuses a text that denotes none. -/
structure AddressCommand.Takes (cmd : AddressCommand) (text : String) : Prop where
  acts : ∀ addr, HexAddress text addr → ∀ (env : UiEnv) (command : Argv) (c : CStr), c.text = text → cmd.Gives command.tokens c →
    cmd.handler.body env command = cmd.act env command addr
  refuses : (∀ addr, ¬HexAddress text addr) → ∀ (env : UiEnv) (command : Argv) (c : CStr) (s : Session), c.text = text →
    cmd.Gives command.tokens c → Refuses (cmd.handler.body env command) s

namespace HexAddress
variable {text : String} {addr : Addr}

theorem ne_zero (h : HexAddress text addr) : (addr.toNat : Int) ≠ 0 := by
  obtain ⟨digits, -, -, -, -, hne⟩ := h
  intro hzero
  exact hne (BitVec.eq_of_toNat_eq (by simpa using hzero))

theorem head (h : HexAddress text addr) : text.toList.head? = some '0' := by
  obtain ⟨digits, htext, -⟩ := h
  rw [htext]
  rfl

/-- The prefix is part of the numeral. -/
theorem denotes (h : HexAddress text addr) : Numeral.Denotes 16 text.toList addr.toNat := by
  obtain ⟨digits, htext, hne, hdigit, hvalue, -⟩ := h
  have : Numeral.Denotes 16 _ _ := .mk [] [] ['0', 'x'] digits (by simp) (Or.inl rfl) (Or.inr ⟨rfl, Or.inl rfl⟩) hne hdigit
  rw [htext, ← hvalue]
  exact this

theorem unique {addr' : Addr} (h : HexAddress text addr) (h' : HexAddress text addr') : addr = addr' := by
  have := h.denotes.unique (by decide) h'.denotes
  exact BitVec.eq_of_toNat_eq (by omega)

end HexAddress

section Parses
variable {c : CStr} {mem : List Char} {x : UiM Addr} {outputs : List Output} {s : Session} {n : Int}

end Parses

section Commands
variable {env : UiEnv} {command : Argv} {c : CStr} {cmd : AddressCommand} {s : Session}

/-- A command line that gives the address `c`. -/
def AddressCommand.line (c : CStr) : AddressCommand → Argv
  | breakpoint => ⟨[.word "breakpoint" (by decide), c], []⟩
  | enable => ⟨[.word "enable" (by decide), .word "-a" (by decide), c], []⟩
  | disable => ⟨[.word "disable" (by decide), .word "-a" (by decide), c], []⟩
  | delete => ⟨[.word "delete" (by decide), .word "-a" (by decide), c], []⟩
  | memoryRead => ⟨[.word "memory_read" (by decide), .word "-t" (by decide), c], []⟩
  | memoryWrite => ⟨[.word "memory_write" (by decide), c, .word "1" (by decide)], []⟩
  | disassemble => ⟨[.word "disassemble" (by decide), c, .word "-1" (by decide)], []⟩

section Memory
variable {addr : Addr} {F : Fault → Session → Prop}

end Memory

section Skipping
variable (hbreakpoint : cmd ≠ .breakpoint) (hdisassemble : cmd ≠ .disassemble)
include hbreakpoint hdisassemble

end Skipping

/-! ### `breakpoint` -/

section Breakpoint

variable {text : CStr}

end Breakpoint

/-! ### `disassemble` -/

section Disassemble
variable {last : CStr} {rip addr : Addr} {n : Int}

end Disassemble

end Commands

end Sylvan
