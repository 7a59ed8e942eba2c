import Mathlib.Algebra.Group.Int.Defs
import Sylvan.Breakpoint
import Sylvan.Symbol
import Sylvan.Utils

/-! # Inferiors (`lib/sylvan/inferior.c`)

The `int *status` parameters are left out: every caller passes `NULL`. -/

namespace Sylvan

/-- `inf->status = status` -/
def setStatus (status : InferiorState) : SylvanM Unit := Exec.modify fun s => s.setInf { s.inf with status }

/-- The inferior has no process any more. -/
def dissociate : SylvanM Unit :=
  Exec.modify fun s => s.setInf { s.inf with isAttached := false, pid := 0, status := .none }

section
variable (env : Env)

/-! ## The state of the process -/

/-- Where a stopped process stopped. -/
def reportStop : SylvanM Unit := do
  let info ← checked env .ptraceError "ptrace get siginfo" (Sys.ptraceGetsiginfo env)
  let regs ← checked env .ptraceGetregsFailed "ptrace get regs" (Sys.ptraceGetregs env)
  Exec.when (info.siCode ≠ SI_KERNEL) (setMessage .procStopped ("program stopped at " ++ hexAlt (regs .rip).toNat))
  let inf := (← Exec.get).inf
  match breakpointFindByAddr inf (regs .rip - 1) with
  | none => pure ()
  | some idx => setMessage .breakpointHit (s!"breakpoint {idx} at " ++ hexAlt (inf.slot idx).addr.toNat)

/-- A wait failed with `e`. -/
def waitFailed (e : Errno) : SylvanM Unit := do
  Exec.when (e ≠ ECHILD) (setErrnoMsg env .waitpidFailed "waitpid")
  let pid := (← Exec.get).inf.pid
  match ← Sys.kill env pid 0 with
  | .ok _ => setMessage .procNotAttached s!"Process {pid} exists but is not being traced"
  | .error e => do
    Exec.when (e ≠ ESRCH) (setErrnoMsg env .systemError "Can't check process status")
    dissociate
    let pid := (← Exec.get).inf.pid
    setMessage .procNotFound s!"Process {pid} doesn't exist"

/-- There is a status change. -/
def statusChanged (blocking : Bool) : WaitStatus → SylvanM Unit
  | .exited code => do
    let pid := (← Exec.get).inf.pid
    Exec.modify fun s => s.setInf { s.inf with status := .exited, pid := 0 }
    setMessage .procExited s!"Process {pid} exited with code {code}"
  | .signaled sig => do
    Exec.modify fun s => s.setInf { s.inf with status := .terminated, pid := 0 }
    let pid := (← Exec.get).inf.pid
    setMessage .procTerminated s!"Process {pid} terminated by signal {sig}"
  | .stopped _ => do
    setStatus .stopped
    if blocking then reportStop env else pure ()
  | .continued => setStatus .running
  | .unknown => assert False

def updateInfStatus (blocking : Bool) : SylvanM Unit := do
  let pid := (← Exec.get).inf.pid
  Exec.when (pid ≤ 0) (setMessage .invalidState "Program is not being run")
  if blocking then do
    match ← Sys.retry (Sys.waitpid env pid) env.retries with
    | .error e => waitFailed env e
    | .ok status => statusChanged env blocking status
  else do
    match ← Sys.retry (Sys.waitpidNohang env pid) env.retries with
    | .error e => waitFailed env e
    | .ok none => pure ()
    | .ok (some status) => statusChanged env blocking status

def updateWaitStatus : WaitStatus → SylvanM Unit
  | .stopped _ => setStatus .stopped
  | .exited _ => setStatus .exited
  | .signaled _ => setStatus .terminated
  | .continued => setStatus .running
  | .unknown => assert False

/-! ## Giving up a process -/

def kill : SylvanM Unit := do
  let inf := (← Exec.get).inf
  if ¬inf.IsActive then pure ()
  else do
    match ← Sys.kill env inf.pid SIGKILL with
    | .error e => do
      Exec.when (e ≠ ESRCH) (setErrnoMsg env .killFailed "kill")
      dissociate
    | .ok _ => do
      let _ ← checked env .waitpidFailed "waitpid" (Sys.retry (Sys.waitpid env inf.pid) env.retries)
      dissociate

/-- The part of `sylvan_detach` after the process was found to be there. -/
def release : SylvanM Unit := do
  breakpointUnsetallPhybp env
  handled (Sys.ptraceResume env .detach) fun e =>
    Exec.when (e ≠ ESRCH) (setErrnoMsg env .ptraceDetachFailed "ptrace detach")
  dissociate

def detach : SylvanM Unit := do
  let inf := (← Exec.get).inf
  Exec.when (¬inf.isAttached) (setMessage .procNotAttached "Process is not being traced")
  match ← Exec.attempt (updateInfStatus env false) with
  | .error code => Exec.when (code ≠ .procExited ∧ code ≠ .procTerminated) (Exec.error code)
  | .ok _ => release env

def terminateOrDetach : SylvanM Unit := do
  let inf := (← Exec.get).inf
  if ¬inf.IsActive then pure ()
  else
    Exec.catching (if ¬inf.isAttached then kill env else detach env) fun code =>
      Exec.when (code ≠ .procNotFound ∧ code ≠ .procExited ∧ code ≠ .procTerminated) (Exec.error code)

/-! ## Inferiors -/

/-- The `memset` of `sylvan_inferior_create`. -/
def zeroedInferior : Inferior where
  id := 0
  pid := 0
  status := .none
  realpath := none
  args := none
  isAttached := false
  breakpoints := Vector.replicate maxBreakpoints default
  breakpointCount := 0
  elfTable := ⟨[], 0, 0⟩
  dwarfTable := ⟨[], 0, 0⟩

/-- `sylvan_inferior_create`, whose inferior is the one that the calls after it are made on. -/
def inferiorCreate : SylvanM Unit := do
  Exec.when ((← Sys.malloc env) = false) (setCode .outOfMemory)
  Exec.modify fun s => s.setInf zeroedInferior
  symInit env
  Exec.modify fun s =>
    { s.setInf { s.inf with id := s.inferiorIdx } with
      inferiorIdx := s.inferiorIdx + 1, inferiorCount := s.inferiorCount + 1 }

def inferiorDestroy : SylvanM Unit := do
  terminateOrDetach env
  symDestroy
  Exec.modify fun s => { s.record .freed with freed := true, inferiorCount := s.inferiorCount - 1 }

/-! ## Attaching -/

/-- The status of a process that was attached to. -/
def attachedStatus (pid : Pid) : WaitStatus → SylvanM Unit
  | .stopped _ => setStatus .stopped
  | .continued => setStatus .running
  | .exited _ => setMessage .procExited s!"Process {pid} exited during attach"
  | .signaled _ => setMessage .procTerminated s!"Process {pid} terminated during attach"
  | .unknown => assert False

/-- The part of `sylvan_attach` after `PTRACE_ATTACH` succeeded. -/
def attachWait (pid : Pid) : SylvanM Unit := do
  let path ← Exec.attempt (realPathPid env pid)
  let status ← handled (Sys.retry (Sys.waitpid env pid) env.retries) fun e =>
    if e = ECHILD then setMessage .procNotFound s!"Process {pid} disappeared during attach"
    else setErrnoMsg env .waitpidFailed "waitpid"
  attachedStatus pid status
  Exec.modify fun s => s.setInf { s.inf with pid, isAttached := true, realpath := path.toOption }

def attach (pid : Pid) : SylvanM Unit := do
  handled (Sys.kill env pid 0) fun e =>
    if e = ESRCH then setMessage .procNotFound s!"Process {pid} does not exist"
    else setErrnoMsg env .systemError "Check process existence"
  terminateOrDetach env
  handled (Sys.ptraceAttach env pid) fun e =>
    if e = EPERM then setMessage .ptraceAttachFailed s!"Permission denied to attach to process {pid}"
    else if e = ESRCH then setMessage .procNotFound s!"Process {pid} does not exist"
    else setErrnoMsg env .ptraceAttachFailed "ptrace attach"
  attachWait env pid
  symLoadTables env
  breakpointResetPhybp
  breakpointSetallPhybp env

/-! ## Running -/

def isSpace (b : Byte) : Bool := b = 32 || (9 ≤ b && b ≤ 13)

def isDigit (b : Byte) : Bool := 48 ≤ b && b ≤ 57

/-- The digits at the start of `bs`, read after those that denote `n`, and what follows them. -/
def scanDigits (n : Nat) : List Byte → Nat × List Byte
  | [] => (n, [])
  | b :: bs => if isDigit b then scanDigits (10 * n + (b.toNat - 48)) bs else (n, b :: bs)

/-- `strtol` keeps to the range of a `long`, and `%d` stores the result in an `int`. -/
def toInt (n : Int) : Int := (BitVec.ofInt 32 (max (-2 ^ 63) (min n (2 ^ 63 - 1)))).toInt

/-- `%d` of `sscanf` -/
def scanInt (bs : List Byte) : Option (Int × List Byte) :=
  let bs := bs.dropWhile isSpace
  let sign : Int := if bs.head? = some 45 then -1 else 1
  let digits := if bs.head? = some 45 ∨ bs.head? = some 43 then bs.tail else bs
  if digits.head?.any isDigit then
    let (n, rest) := scanDigits 0 digits
    some (toInt (sign * n), rest)
  else none

/-- `sscanf(buf, "%d %d", &code, &child_errno)`, where both are converted. -/
def scanReport (bs : List Byte) : Option (Int × Int) := do
  let (code, rest) ← scanInt bs
  let (childErrno, _) ← scanInt rest
  some (code, childErrno)

/-- The parent's buffer. -/
def reportBufferSize : Nat := 128

/-- The child reported a failure in the bytes `report`. -/
def childFailed (report : List Byte) : SylvanM Unit := do
  let stale := env.stale (← Sys.tick)
  match scanReport ((report ++ stale.drop report.length).take reportBufferSize) with
  | none => setMessage .systemError "parse child error message"
  | some (code, childErrno) => do
    setErrno childErrno
    match Code.ofInt childErrno with
    | .ptraceError => setErrnoMsg env .ptraceError "ptrace in child"
    | .outOfMemory => setCode .outOfMemory
    | .invalidArgument => setMessage .invalidArgument "Invalid arguments for child process"
    | .fileNotFound => setMessage .fileNotFound "Executable file not found"
    | _ => returnCode (Code.ofInt code)

/-- The part of `handle_parent` after the pipe was closed without a report. -/
def childStarted (pid : Pid) : SylvanM Unit := do
  let status ← checked env .waitpidFailed "waitpid" (Sys.retry (Sys.waitpid env pid) env.retries)
  match status with
  | .exited code => setMessage .procChild s!"Child process exited with code {code}"
  | status => do
    updateWaitStatus status
    Exec.modify fun s => s.setInf { s.inf with pid, isAttached := false }
    breakpointResetPhybp
    breakpointSetallPhybp env
    checked env .ptraceContFailed "ptrace cont" (Sys.ptraceResume env .cont)
    updateInfStatus env true

def handleParent (pid : Pid) : SylvanM Unit := do
  checked env .systemError "close pipe" (Sys.plain env.close)
  let bytesRead ← Sys.retry (Sys.answered env.read) env.retries
  checked env .systemError "close pipe" (Sys.plain env.close)
  let bytes ← handled (pure bytesRead) fun _ => setErrnoMsg env .systemError "read from pipe"
  let report := bytes.take reportBufferSize
  if report ≠ [] then childFailed env report else childStarted env pid

def forkFailed : SylvanM Child := do
  let _ ← Sys.plain env.close
  let _ ← Sys.plain env.close
  setErrnoMsg env .forkFailed "fork"

def run : SylvanM Unit := do
  match (← Exec.get).inf.realpath with
  | none => setMessage .fileNotFound "No executable path specified"
  | some path => do
    let text := s!"File '{path}' is not executable"
    checked env .notExecutable text (Sys.plain fun t => env.access t path)
    kill env
    checked env .pipeFailed "pipe" (Sys.plain env.pipe)
    let child ← handled (Sys.fork env) fun _ => forkFailed env
    handleParent env child.pid

/-! ## Resuming -/

/-- The part of `sylvan_handle_breakpoint_at_current_addr` for the installed breakpoint at index `i`. -/
def stepOver (regs : UserRegs) (i : Nat) : SylvanM Unit := do
  checked env .ptraceSetregsFailed "ptrace set regs"
    (Sys.ptraceSetregs env (Function.update regs .rip (regs .rip - 1)))
  breakpointDisablePtr env i
  checked env .ptraceStepFailed "ptrace single step" (Sys.ptraceResume env .singlestep)
  updateInfStatus env true
  breakpointEnablePtr env i

def handleBreakpointAtCurrentAddr : SylvanM Unit := do
  let regs ← checked env .ptraceGetregsFailed "ptrace get regs" (Sys.ptraceGetregs env)
  let inf := (← Exec.get).inf
  match breakpointFindByAddr inf (regs .rip - 1) with
  | none => Exec.error .breakpointNotFound
  | some i => if ¬(inf.slot i).isEnabledPhy then Exec.error .breakpointNotFound else stepOver env regs i

def validateProcessState : SylvanM Unit := do
  updateInfStatus env false
  let inf := (← Exec.get).inf
  let pid := inf.pid
  Exec.when (inf.status ≠ .stopped)
    (if inf.status = .running then setMessage .procRunning s!"Process {pid} is already running"
      else setMessage .invalidState s!"Process {pid} is not in a stopped state")

/-- `handleBreakpointAtCurrentAddr`, told whether there was a breakpoint: its two callers return any other
    code. -/
def passBreakpoint : SylvanM Bool := do
  match ← Exec.attempt (handleBreakpointAtCurrentAddr env) with
  | .ok _ => pure true
  | .error code => if code = .breakpointNotFound then pure false else Exec.error code

/-- `sylvan_continue` -/
def cont : SylvanM Unit := do
  validateProcessState env
  let _ ← passBreakpoint env
  checked env .ptraceContFailed "ptrace cont" (Sys.ptraceResume env .cont)
  updateInfStatus env true

def stepinst : SylvanM Unit := do
  validateProcessState env
  if ← passBreakpoint env then pure ()
  else do
    checked env .ptraceStepFailed "ptrace single step" (Sys.ptraceResume env .singlestep)
    updateInfStatus env true

/-! ## Registers, paths and arguments -/

def getRegs : SylvanM UserRegs := do
  updateInfStatus env false
  Exec.when (¬(← Exec.get).inf.IsActive)
    (setMessage .invalidState "Cannot get registers: process is not running or stopped")
  checked env .ptraceGetregsFailed "ptrace get regs" (Sys.ptraceGetregs env)

def setRegs (regs : UserRegs) : SylvanM Unit := do
  updateInfStatus env false
  Exec.when (¬(← Exec.get).inf.IsActive)
    (setMessage .invalidState "Cannot set registers: process is not running or stopped")
  checked env .ptraceSetregsFailed "ptrace set regs" (Sys.ptraceSetregs env regs)

/-- `inf->realpath = path` -/
def setRealpath (path : Option String) : SylvanM Unit :=
  Exec.modify fun s => s.setInf { s.inf with realpath := path }

/-- `sylvan_set_filepath`, where `none` is `NULL` -/
def setFilepath : Option String → SylvanM Unit
  | none => setRealpath none
  | some filepath => do
    let newpath ← canonicalPath env filepath
    let short := cut 256 filepath
    let text :=
      if filepath.length ≤ 256 then s!"File '{filepath}' is not executable" else s!"File '{short}...' is not executable"
    checked env .notExecutable text (Sys.plain fun t => env.access t newpath)
    setRealpath (some newpath)
    symLoadTables env

/-- `sylvan_set_args`, where `none` is `NULL` -/
def setArgs : Option String → SylvanM Unit
  | none => Exec.modify fun s => s.setInf { s.inf with args := none }
  | some args => do
    Exec.when ((← Sys.malloc env) = false) (setCode .outOfMemory)
    Exec.modify fun s => s.setInf { s.inf with args := some args }

/-! ## Memory -/

def getMemory (addr : Addr) : SylvanM Word := do
  setErrno 0
  let data ← Sys.ptracePeek env addr
  Exec.when ((← getErrno) ≠ 0) (setErrnoMsg env .ptracePeekdataFailed ("Cannot read address " ++ hex addr.toNat))
  pure data

/-- `sylvan_set_errno_msg(SYLVANC_PTRACE_POKEDATA_FAILED, "cannot write at 0x%lx: %s", addr + offset)`: no argument is
    passed for `%s`. -/
def cannotWrite {α : Type} : SylvanM α := Exec.fault .missingArgument

/-- The part of `sylvan_set_memory` for the last bytes, fewer than eight. -/
def setMemoryTail (addr : Addr) (bytes : List Byte) : SylvanM Unit := do
  let current ← Exec.catching (getMemory env addr) fun _ => cannotWrite
  let mask : Word := (1 <<< (8 * bytes.length)) - 1
  let newData := (current &&& ~~~mask) ||| (ByteMemory.ofBytes 64 bytes &&& mask)
  handled (Sys.ptracePoke env addr newData) fun _ => cannotWrite

/-- The loop of `sylvan_set_memory` over words of eight bytes, and its tail. -/
def setMemoryWords : Addr → List Byte → SylvanM Unit
  | addr, b0 :: b1 :: b2 :: b3 :: b4 :: b5 :: b6 :: b7 :: bytes => do
    handled (Sys.ptracePoke env addr (ByteMemory.ofBytes 64 [b0, b1, b2, b3, b4, b5, b6, b7])) fun _ => cannotWrite
    setMemoryWords (addr + 8) bytes
  | addr, bytes => if bytes = [] then pure () else setMemoryTail env addr bytes

def setMemory (addr : Addr) (data : List Byte) : SylvanM Unit := do
  if data = [] then returnCode .ok
  else if addr = 0 then setErrnoMsg env .invalidArgument ("Invalid address 0x" ++ hex addr.toNat)
  else setMemoryWords env addr data

def setBreakpointFunction (function : String) : SylvanM Unit := do
  breakpointSet env (← getLabelAddr function)

end

end Sylvan
