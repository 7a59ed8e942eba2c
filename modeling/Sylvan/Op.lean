import Mathlib.Logic.Relation
import Sylvan.Inferior

/-! # Calls on an inferior, and runs of them

A run starts from an inferior that was just created, and goes on by calls that return. -/

namespace Sylvan

/-- The calls on a single breakpoint. -/
inductive BreakpointOp where
  | set (addr : Addr)
  | unset (addr : Addr)
  | enable (addr : Addr)
  | disable (addr : Addr)
  deriving DecidableEq, Repr

/-- The calls of `breakpoint.h` that may change the table. -/
inductive TableOp where
  | one (op : BreakpointOp)
  | clearall
  | resetPhybp
  | setallPhybp
  | unsetallPhybp
  deriving DecidableEq, Repr

/-- The calls of `inferior.h` and `breakpoint.h` that a debugger makes. -/
inductive Op where
  | attach (pid : Pid)
  | detach
  | run
  | cont
  | stepinst
  | getRegs
  | setRegs (regs : UserRegs)
  | setFilepath (path : Option String)
  | setArgs (args : Option String)
  | getMemory (addr : Addr)
  | setMemory (addr : Addr) (data : List Byte)
  | setBreakpointFunction (function : String)
  | breakpoint (op : BreakpointOp)
  | clearall
  | destroy

section
variable (env : Env)

def BreakpointOp.call : BreakpointOp → SylvanM Unit
  | set addr => breakpointSet env addr
  | unset addr => breakpointUnset env addr
  | enable addr => breakpointEnable env addr
  | disable addr => breakpointDisable env addr

def TableOp.call : TableOp → SylvanM Unit
  | one op => op.call env
  | clearall => breakpointClearall env
  | resetPhybp => breakpointResetPhybp
  | setallPhybp => breakpointSetallPhybp env
  | unsetallPhybp => breakpointUnsetallPhybp env

def Op.call : Op → SylvanM Unit
  | attach pid => Sylvan.attach env pid
  | detach => Sylvan.detach env
  | run => Sylvan.run env
  | cont => Sylvan.cont env
  | stepinst => Sylvan.stepinst env
  | getRegs => do let _ ← Sylvan.getRegs env
  | setRegs regs => Sylvan.setRegs env regs
  | setFilepath path => Sylvan.setFilepath env path
  | setArgs args => Sylvan.setArgs env args
  | getMemory addr => do let _ ← Sylvan.getMemory env addr
  | setMemory addr data => Sylvan.setMemory env addr data
  | setBreakpointFunction function => Sylvan.setBreakpointFunction env function
  | breakpoint op => op.call env
  | clearall => breakpointClearall env
  | destroy => inferiorDestroy env

/-- A call of `inferior.h` or `breakpoint.h` with `NULL` for a pointer that it needs. -/
def nullArgument : SylvanM Unit := setCode .invalidArgument

/-- The state after a successful `sylvan_inferior_create`. -/
def Created (s : State) : Prop :=
  ∃ s₀ : State, s₀.trace = [] ∧ s₀.freed = false ∧ inferiorCreate env s₀ = .ok () s

/-- A call on an inferior that is not destroyed yet, among those that `allowed` permits, returns. -/
def Step (allowed : State → Op → Prop) (s t : State) : Prop :=
  s.freed = false ∧ ∃ op, allowed s op ∧ (op.call env).Returns s t

/-- What calls that return lead to from a new inferior. -/
def Reachable (s : State) : Prop :=
  ∃ c, Created env c ∧ Relation.ReflTransGen (Step env fun _ _ => True) c s

end

/-! ## A system to run calls on -/

/-- The `si_code` of a trap that the kernel raised after a single step. -/
def TRAP_TRACE : Int := 2

/-- Every call succeeds, a wait finds the process stopped, and a process that goes on stops at the `int3` at
    address 4096, if there is one, or else where it was, as after a single step. -/
def Env.compliant : Env where
  retries := 1
  waitpid _ := .ok (.stopped 5)
  waitpidNohang _ := .ok none
  kill _ := none
  ptrace _ := none
  exec _ p :=
    if p.mem 4096 = 0xCC then { p with regs := Function.update p.regs .rip 4097, siginfo := ⟨SIGTRAP, SI_KERNEL⟩ }
    else { p with siginfo := ⟨SIGTRAP, TRAP_TRACE⟩ }
  fork _ := .ok ⟨7, by decide, ⟨fun _ => 0, fun _ => 0, ⟨SIGTRAP, 0⟩⟩⟩
  pipe _ := none
  close _ := none
  read _ := .ok []
  stale _ := []
  access _ _ := none
  realpath _ path := .ok path
  getenv _ _ := none
  malloc _ := true
  strerror _ := ""
  dwarf _ _ := none
  elfVersion _ := true
  openFile _ _ := none
  elf _ _ := some ⟨[], true⟩
  qsort _ symbols := symbols

/-- A state with a zeroed inferior, where each process has zeros in its memory and in its registers. -/
def State.blank : State where
  inf := zeroedInferior
  procs _ := ⟨fun _ => 0, fun _ => 0, ⟨SIGTRAP, 0⟩⟩
  trace := []
  inferiorIdx := 0
  inferiorCount := 0
  freed := false
  scratch := ⟨0, ⟨.ok, 0, ""⟩, 0⟩

/-- Every request of `ptrace` fails. -/
def Env.deaf : Env := { Env.compliant with ptrace := fun _ => some ⟨ESRCH, ESRCH_ne_zero⟩ }

/-- The state that `x` ends in. -/
def State.after {α : Type} (s : State) (x : SylvanM α) : State := (x s).state

/-- An inferior was created. -/
def State.created : State := State.blank.after (inferiorCreate .compliant)

/-- It was attached to process 7. -/
def State.attached : State := State.created.after (Sylvan.attach .compliant 7)

/-- Besides, there is a breakpoint at address 4096. -/
def State.withBreakpoint : State := State.attached.after (breakpointSet .compliant 4096)

/-- The process ran into it. -/
def State.hit : State := State.withBreakpoint.after (Sylvan.cont .compliant)

theorem State.after_ok {s : State} {x : SylvanM Unit} (h : (x s).isOk = true) : x s = .ok () (s.after x) :=
  Exec.Outcome.eq_ok_of_isOk h

theorem State.after_error {α : Type} {s : State} {x : SylvanM α} {c : Code} (h : (x s).error? = some c) :
    x s = .error c (s.after x) :=
  Exec.Outcome.eq_error_of_error? h

theorem Reachable.step {env : Env} {s t : State} (hs : Reachable env s) (op : Op) (hfreed : s.freed = false)
    (h : (op.call env).Returns s t) : Reachable env t := by
  obtain ⟨c, hc, hrun⟩ := hs
  exact ⟨c, hc, hrun.tail ⟨hfreed, op, trivial, h⟩⟩

theorem State.attached_reachable : Reachable .compliant State.attached :=
  Reachable.step ⟨State.created, ⟨State.blank, rfl, rfl, State.after_ok (by decide +kernel)⟩, Relation.ReflTransGen.refl⟩
    (.attach 7) (by decide +kernel) (Or.inl ⟨(), State.after_ok (by decide +kernel)⟩)

theorem State.withBreakpoint_reachable : Reachable .compliant State.withBreakpoint :=
  State.attached_reachable.step (.breakpoint (.set 4096)) (by decide +kernel) (Or.inl ⟨(), State.after_ok (by decide +kernel)⟩)

theorem State.hit_reachable : Reachable .compliant State.hit :=
  State.withBreakpoint_reachable.step .cont (by decide +kernel)
    (Or.inr ⟨.breakpointHit, State.after_error (by decide +kernel)⟩)

end Sylvan
