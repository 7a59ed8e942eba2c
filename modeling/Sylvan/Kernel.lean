import Sylvan.Data
import Sylvan.Lib.Exec

/-! # The system below the library

The state that the library and the system share, and the system calls. What a call is answered is up to
the system: `Env` gives the answer of each call by the time of the call, a clock that every call
advances, so a statement about every `Env` is one about every outcome of every call. `PTRACE_PEEKTEXT` and
`PTRACE_POKETEXT` are little-endian accesses of eight bytes that fail without effect or succeed. A process
that is resumed goes on to its next stop at once; `Env.exec` says what it has become there.

`trace` records the signals, the waits and the requests that start, resume or release a process, each
request with the inferior and the process as they were when it was made. -/

namespace Sylvan

abbrev Errno := Int

def EPERM : Errno := 1
def ENOENT : Errno := 2
def ESRCH : Errno := 3
def EINTR : Errno := 4
def ECHILD : Errno := 10
def ENOMEM : Errno := 12

theorem ESRCH_ne_zero : ESRCH ≠ 0 := by decide

/-- The `errno` of a call that failed. -/
structure Failure where
  errno : Errno
  nonzero : errno ≠ 0
  deriving DecidableEq

def SIGTRAP : Int := 5
def SIGKILL : Int := 9

/-- The `si_code` of a trap that the kernel raised for an `int3`. -/
def SI_KERNEL : Int := 0x80

/-- A wait status, by the macro of `<sys/wait.h>` that accepts it. -/
inductive WaitStatus where
  | exited (code : Nat)
  | signaled (sig : Nat)
  | stopped (sig : Nat)
  | continued
  | unknown
  deriving DecidableEq, Repr

/-- The requests that start, resume or release a traced process. -/
inductive Request where
  | attach
  | detach
  | cont
  | singlestep
  deriving DecidableEq, Repr

/-- What the library asked of the system, and what it was told. -/
inductive Event where
  | kill (pid : Pid) (sig : Int) (failed : Option Errno)
  | waited (pid : Pid) (status : WaitStatus)
  | forked (pid : Pid) (image : Process)
  | request (req : Request) (pid : Pid) (inf : Inferior) (proc : Process) (failed : Option Errno)
  | freed

/-- Why a call does not return. -/
inductive Fault where
  | assertFailed
  | outOfBounds
  | nullDereference
  | divisionByZero
  | missingArgument
  /-- `strtok(NULL)` after the string that it goes on in was freed. -/
  | staleToken
  | interrupted
  deriving DecidableEq, Repr

/-- What a call leaves behind besides its effects: `errno`, `sylvan_last_error` and the time. -/
structure Scratch where
  errno : Errno
  lastError : ErrorContext
  clock : Nat

structure State where
  inf : Inferior
  procs : Pid → Process
  trace : List Event
  inferiorIdx : Int
  inferiorCount : Int
  freed : Bool
  scratch : Scratch

/-- A child as `fork` gives it to its parent, and what it has become at its first stop. -/
structure Child where
  pid : Pid
  pos : 0 < pid
  image : Process

/-! ## Files, as the libraries that read them show them -/

/-- A debugging entry of `libdwarf`: what `dwarf_tag`, `dwarf_diename` and `dwarf_lowpc` give for it. -/
structure Die where
  tag : Option Nat
  name : Option (Option String)
  lowpc : Option Addr
  deriving DecidableEq, Repr

/-- A step of `dwarf_next_cu_header_e`: an error, or a unit with the children `dwarf_child` finds. -/
inductive DwarfUnit where
  | error
  | unit (children : Option (List Die))
  deriving DecidableEq, Repr

/-- A symbol that `gelf_getsym` gives, with the name `elf_strptr` finds for it. -/
structure ElfSym where
  name : Option String
  stValue : Addr
  stSize : BitVec 64
  stShndx : Nat
  deriving DecidableEq, Repr

/-- A section: its header, if `gelf_getshdr` gives one, and its symbols, if `elf_getdata` finds data. -/
structure ElfSection where
  header : Bool
  shType : Nat
  shFlags : Nat
  shSize : BitVec 64
  shEntsize : BitVec 64
  data : Option (Nat → Option ElfSym)

/-- A file that `elf_begin` opened: its sections by index from 1, and whether `elf_getshdrstrndx` succeeds. -/
structure ElfFile where
  sections : List ElfSection
  shstrndx : Bool

/-! ## The system's answers -/

structure Env where
  /-- How many interrupted waits in a row a loop sits through. -/
  retries : Nat
  waitpid : Nat → Except Failure WaitStatus
  waitpidNohang : Nat → Except Failure (Option WaitStatus)
  kill : Nat → Option Failure
  ptrace : Nat → Option Failure
  exec : Nat → Process → Process
  fork : Nat → Except Failure Child
  pipe : Nat → Option Failure
  close : Nat → Option Failure
  read : Nat → Except Failure (List Byte)
  /-- What an uninitialised buffer holds. -/
  stale : Nat → List Byte
  access : Nat → String → Option Failure
  realpath : Nat → String → Except Failure String
  getenv : Nat → String → Option String
  /-- Whether an allocation succeeds. -/
  malloc : Nat → Bool
  strerror : Errno → String
  dwarf : Nat → Option String → Option (List DwarfUnit)
  elfVersion : Nat → Bool
  openFile : Nat → Option String → Option Failure
  elf : Nat → Option String → Option ElfFile
  qsort : Nat → List Symbol → List Symbol

/-- A call of the library: its error codes other than `SYLVANC_OK` are errors. -/
abbrev SylvanM (α : Type) := Exec State Code Fault α

/-! ## The state -/

namespace Scratch

def tick (x : Scratch) : Scratch := { x with clock := x.clock + 1 }

/-- A call that fails with `e`. -/
def fail (x : Scratch) (e : Failure) : Scratch := { x with clock := x.clock + 1, errno := e.errno }

/-- `errno` is set to `e`. -/
def withErrno (x : Scratch) (e : Errno) : Scratch := { x with errno := e }

/-- The last error becomes `code`, described by `text`. -/
def withError (x : Scratch) (code : Code) (text : String) : Scratch :=
  { x with lastError := { code, osErrno := x.errno, message := text } }

end Scratch

namespace State

/-- The process that the inferior's `pid` denotes. -/
def proc (s : State) : Process := s.procs s.inf.pid

/-- The process `pid` becomes `p`. -/
def setProc (s : State) (pid : Pid) (p : Process) : State := { s with procs := Function.update s.procs pid p }

def setInf (s : State) (inf : Inferior) : State := { s with inf }

def setMem (s : State) (m : Memory) : State := s.setProc s.inf.pid { s.proc with mem := m }

/-- `s` with another scratch part. -/
def withScratch (s : State) (x : Scratch) : State := { s with scratch := x }

def record (s : State) (e : Event) : State := { s with trace := s.trace ++ [e] }

end State

/-! ## Errors -/

section Errors
variable {α : Type}

def getErrno : SylvanM Errno := fun s => .ok s.scratch.errno s

def setErrno (e : Errno) : SylvanM Unit := Exec.modify fun s => s.withScratch (s.scratch.withErrno e)

/-- `sylvan_set_code`, for a code other than `SYLVANC_OK` that is returned at once -/
def setCode (code : Code) : SylvanM α := fun s =>
  .error code (s.withScratch (s.scratch.withError code (strerror code)))

/-- `sylvan_set_code`, for a code that is returned at once -/
def returnCode (code : Code) : SylvanM Unit :=
  if code = .ok then Exec.modify fun s => s.withScratch (s.scratch.withError code (strerror code))
  else setCode code

/-- `sylvan_set_message`, for a code that is returned at once -/
def setMessage (code : Code) (text : String) : SylvanM α := fun s =>
  .error code (s.withScratch (s.scratch.withError code (messageText text)))

/-- `sylvan_set_errno_msg`, for a code that is returned at once -/
def setErrnoMsg (env : Env) (code : Code) (text : String) : SylvanM α := fun s =>
  .error code (s.withScratch (s.scratch.withError code (errnoText text (env.strerror s.scratch.errno))))

/-- A failed system call is handled by `onError`, which is given its `errno`. -/
def handled (call : SylvanM (Except Errno α)) (onError : Errno → SylvanM α) : SylvanM α := do
  match ← call with
  | .ok a => pure a
  | .error e => onError e

/-- A failed system call is reported with `code` and `text`. -/
def checked (env : Env) (code : Code) (text : String) (call : SylvanM (Except Errno α)) : SylvanM α :=
  handled call fun _ => setErrnoMsg env code text

/-- `assert` -/
def assert (c : Prop) [Decidable c] : SylvanM Unit := Exec.when (¬c) (Exec.fault .assertFailed)

end Errors

/-! ## System calls -/

namespace Sys
variable (env : Env)

def tick : SylvanM Nat := fun s => .ok s.scratch.clock (s.withScratch s.scratch.tick)

/-- A call that fails or gives a value, and has no effect that the library sees. -/
def answered {α : Type} (answer : Nat → Except Failure α) : SylvanM (Except Errno α) := fun s =>
  match answer s.scratch.clock with
  | .ok a => .ok (.ok a) (s.withScratch s.scratch.tick)
  | .error e => .ok (.error e.errno) (s.withScratch (s.scratch.fail e))

/-- A call that only succeeds or fails. -/
def plain (answer : Nat → Option Failure) : SylvanM (Except Errno Unit) :=
  answered fun t => match answer t with
    | none => .ok ()
    | some e => .error e

def kill (pid : Pid) (sig : Int) : SylvanM (Except Errno Unit) := fun s =>
  match env.kill s.scratch.clock with
  | none => .ok (.ok ()) ((s.record (.kill pid sig none)).withScratch s.scratch.tick)
  | some e => .ok (.error e.errno) ((s.record (.kill pid sig (some e.errno))).withScratch (s.scratch.fail e))

/-- `waitpid(pid, &status, 0)` -/
def waitpid (pid : Pid) : SylvanM (Except Errno WaitStatus) := fun s =>
  match env.waitpid s.scratch.clock with
  | .ok st => .ok (.ok st) ((s.record (.waited pid st)).withScratch s.scratch.tick)
  | .error e => .ok (.error e.errno) (s.withScratch (s.scratch.fail e))

/-- `waitpid(pid, &status, WNOHANG)` -/
def waitpidNohang (pid : Pid) : SylvanM (Except Errno (Option WaitStatus)) := fun s =>
  match env.waitpidNohang s.scratch.clock with
  | .ok (some st) => .ok (.ok (some st)) ((s.record (.waited pid st)).withScratch s.scratch.tick)
  | .ok none => .ok (.ok none) (s.withScratch s.scratch.tick)
  | .error e => .ok (.error e.errno) (s.withScratch (s.scratch.fail e))

/-- `do { result = call } while (result == -1 && errno == EINTR)`, for at most `n` turns -/
def retry {α : Type} (call : SylvanM (Except Errno α)) : Nat → SylvanM (Except Errno α)
  | 0 => Exec.fault .interrupted
  | n + 1 => do
    match ← call with
    | .error e => if e = EINTR then retry call n else pure (.error e)
    | .ok a => pure (.ok a)

/-- `PTRACE_PEEKTEXT` and `PTRACE_PEEKDATA`: the word, or -1 and `errno`. -/
def ptracePeek (addr : Addr) : SylvanM Word := fun s =>
  match env.ptrace s.scratch.clock with
  | none => .ok (ByteMemory.peek 64 s.proc.mem addr) (s.withScratch (s.scratch.tick.withErrno 0))
  | some e => .ok (-1) (s.withScratch (s.scratch.fail e))

/-- `PTRACE_POKETEXT` and `PTRACE_POKEDATA` -/
def ptracePoke (addr : Addr) (data : Word) : SylvanM (Except Errno Unit) := fun s =>
  match env.ptrace s.scratch.clock with
  | none => .ok (.ok ()) ((s.setMem (ByteMemory.poke s.proc.mem addr data)).withScratch s.scratch.tick)
  | some e => .ok (.error e.errno) (s.withScratch (s.scratch.fail e))

def ptraceGetregs : SylvanM (Except Errno UserRegs) := fun s =>
  match env.ptrace s.scratch.clock with
  | none => .ok (.ok s.proc.regs) (s.withScratch s.scratch.tick)
  | some e => .ok (.error e.errno) (s.withScratch (s.scratch.fail e))

def ptraceSetregs (regs : UserRegs) : SylvanM (Except Errno Unit) := fun s =>
  match env.ptrace s.scratch.clock with
  | none => .ok (.ok ()) ((s.setProc s.inf.pid { s.proc with regs }).withScratch s.scratch.tick)
  | some e => .ok (.error e.errno) (s.withScratch (s.scratch.fail e))

def ptraceGetsiginfo : SylvanM (Except Errno SigInfo) := fun s =>
  match env.ptrace s.scratch.clock with
  | none => .ok (.ok s.proc.siginfo) (s.withScratch s.scratch.tick)
  | some e => .ok (.error e.errno) (s.withScratch (s.scratch.fail e))

/-- `PTRACE_CONT`, `PTRACE_SINGLESTEP` or `PTRACE_DETACH`: the process goes on from where it is. -/
def ptraceResume (req : Request) : SylvanM (Except Errno Unit) := fun s =>
  match env.ptrace s.scratch.clock with
  | none =>
    let s' := (s.record (.request req s.inf.pid s.inf s.proc none)).setProc s.inf.pid (env.exec s.scratch.clock s.proc)
    .ok (.ok ()) (s'.withScratch s.scratch.tick)
  | some e =>
    let s' := s.record (.request req s.inf.pid s.inf s.proc (some e.errno))
    .ok (.error e.errno) (s'.withScratch (s.scratch.fail e))

/-- Why `PTRACE_ATTACH` fails, if it does: only a positive `pid` names a process to attach to. -/
def attachFailure (pid : Pid) (t : Nat) : Option Failure :=
  if 0 < pid then env.ptrace t else some ⟨ESRCH, ESRCH_ne_zero⟩

/-- `PTRACE_ATTACH`. The process ran on its own until the stop that the request brings about. -/
def ptraceAttach (pid : Pid) : SylvanM (Except Errno Unit) := fun s =>
  match attachFailure env pid s.scratch.clock with
  | none =>
    let image := env.exec s.scratch.clock (s.procs pid)
    let s' := (s.record (.request .attach pid s.inf image none)).setProc pid image
    .ok (.ok ()) (s'.withScratch s.scratch.tick)
  | some e =>
    let s' := s.record (.request .attach pid s.inf (s.procs pid) (some e.errno))
    .ok (.error e.errno) (s'.withScratch (s.scratch.fail e))

/-- `fork` in the parent. The child is a new process. -/
def fork : SylvanM (Except Errno Child) := fun s =>
  match env.fork s.scratch.clock with
  | .ok child =>
    let s' := (s.record (.forked child.pid child.image)).setProc child.pid child.image
    .ok (.ok child) (s'.withScratch s.scratch.tick)
  | .error e => .ok (.error e.errno) (s.withScratch (s.scratch.fail e))

/-- `malloc`, `realloc` and `strdup`: whether there was memory. -/
def malloc : SylvanM Bool := do return env.malloc (← tick)

end Sys

end Sylvan
