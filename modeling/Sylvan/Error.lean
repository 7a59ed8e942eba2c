/-! # Error codes and messages

The codes of `include/sylvan/error.h`, their descriptions, and how the texts of messages are rendered and
cut to the message buffer (`lib/sylvan/error.c`). A C string is a `String` whose characters are its
bytes. -/

namespace Sylvan

/-- `sylvan_code_t`. A number that names no code is kept as it is. -/
inductive Code where
  | ok
  | error
  | outOfMemory
  | invalidArgument
  | invalidState
  | fileNotFound
  | procError
  | procNotFound
  | procNotAttached
  | procAlreadyAttached
  | procExited
  | procTerminated
  | procRunning
  | procStopped
  | procZombie
  | procChild
  | systemError
  | forkFailed
  | pipeFailed
  | waitpidFailed
  | execFailed
  | killFailed
  | notExecutable
  | ptraceError
  | ptraceAttachFailed
  | ptraceDetachFailed
  | ptraceContFailed
  | ptraceStepFailed
  | ptraceGetregsFailed
  | ptraceSetregsFailed
  | ptracePeektextFailed
  | ptracePoketextFailed
  | ptracePeekdataFailed
  | ptracePokedataFailed
  | breakpointError
  | breakpointAlreadyExists
  | breakpointNotFound
  | breakpointLimitReached
  | breakpointHit
  | symbolError
  | elfFailed
  | dwarfNotFound
  | symbolNotFound
  | unknown (n : Int)
  deriving DecidableEq, Repr

namespace Code

def value : Code → Int
  | ok => 0x000
  | error => 0x100
  | outOfMemory => 0x101
  | invalidArgument => 0x102
  | invalidState => 0x103
  | fileNotFound => 0x104
  | procError => 0x200
  | procNotFound => 0x201
  | procNotAttached => 0x202
  | procAlreadyAttached => 0x203
  | procExited => 0x204
  | procTerminated => 0x205
  | procRunning => 0x206
  | procStopped => 0x207
  | procZombie => 0x208
  | procChild => 0x209
  | systemError => 0x300
  | forkFailed => 0x301
  | pipeFailed => 0x302
  | waitpidFailed => 0x303
  | execFailed => 0x304
  | killFailed => 0x305
  | notExecutable => 0x306
  | ptraceError => 0x400
  | ptraceAttachFailed => 0x401
  | ptraceDetachFailed => 0x402
  | ptraceContFailed => 0x403
  | ptraceStepFailed => 0x404
  | ptraceGetregsFailed => 0x405
  | ptraceSetregsFailed => 0x406
  | ptracePeektextFailed => 0x407
  | ptracePoketextFailed => 0x408
  | ptracePeekdataFailed => 0x409
  | ptracePokedataFailed => 0x40a
  | breakpointError => 0x500
  | breakpointAlreadyExists => 0x501
  | breakpointNotFound => 0x502
  | breakpointLimitReached => 0x503
  | breakpointHit => 0x504
  | symbolError => 0x600
  | elfFailed => 0x601
  | dwarfNotFound => 0x602
  | symbolNotFound => 0x603
  | unknown n => n

/-- The codes that have a name. -/
def named : List Code :=
  [ok, error, outOfMemory, invalidArgument, invalidState, fileNotFound, procError, procNotFound, procNotAttached,
    procAlreadyAttached, procExited, procTerminated, procRunning, procStopped, procZombie, procChild, systemError,
    forkFailed, pipeFailed, waitpidFailed, execFailed, killFailed, notExecutable, ptraceError, ptraceAttachFailed,
    ptraceDetachFailed, ptraceContFailed, ptraceStepFailed, ptraceGetregsFailed, ptraceSetregsFailed,
    ptracePeektextFailed, ptracePoketextFailed, ptracePeekdataFailed, ptracePokedataFailed, breakpointError,
    breakpointAlreadyExists, breakpointNotFound, breakpointLimitReached, breakpointHit, symbolError, elfFailed,
    dwarfNotFound, symbolNotFound]

/-- The code that an `int` stands for. -/
def ofInt (n : Int) : Code := (named.find? fun c => c.value = n).getD (.unknown n)

end Code

/-- `sylvan_strerror` -/
def strerror : Code → String
  | .ok => "Ok"
  | .error => "Something went wrong"
  | .outOfMemory => "Out of memory"
  | .invalidArgument => "Invalid argument"
  | .invalidState => "Invalid operation in current state"
  | .fileNotFound => "File not found or not accessible"
  | .notExecutable => "File is not executable"
  | .procError => "Process error"
  | .procNotFound => "Process does not exist"
  | .procNotAttached => "Process is not being traced"
  | .procAlreadyAttached => "Process is already being traced"
  | .procExited => "Process has exited normally"
  | .procTerminated => "Process was terminated by signal"
  | .procRunning => "Process is running (not stopped)"
  | .procStopped => "Process is stopped"
  | .procZombie => "Process is in zombie state"
  | .procChild => "Error in child process"
  | .systemError => "System error"
  | .forkFailed => "Fork failed"
  | .pipeFailed => "Pipe creation failed"
  | .waitpidFailed => "Wait for process failed"
  | .execFailed => "Exec failed"
  | .killFailed => "Kill signal failed"
  | .ptraceError => "Ptrace operation failed"
  | .ptraceAttachFailed => "Could not attach to process"
  | .ptraceDetachFailed => "Could not detach from process"
  | .ptraceContFailed => "Could not continue process"
  | .ptraceStepFailed => "Single step failed"
  | .ptraceGetregsFailed => "Get registers failed"
  | .ptraceSetregsFailed => "Set registers failed"
  | .ptracePeektextFailed => "Could not read from memory"
  | .ptracePoketextFailed => "Could not write to memory"
  | .ptracePeekdataFailed => "Could not read from memory"
  | .ptracePokedataFailed => "Could not write to memory"
  | .breakpointError => "Breakpoint error"
  | .breakpointAlreadyExists => "Breapoint already exists"
  | .breakpointNotFound => "Breakpoint not found"
  | .breakpointLimitReached => "Too many breakpoints"
  | .breakpointHit => "Program hit a breakpoint"
  | .symbolError => "Error parsing symbols"
  | .elfFailed => "Could not read the elf file"
  | .dwarfNotFound => "Debug symbols not found"
  | .symbolNotFound => "Symbol not found"
  | .unknown _ => "Unknown error"

/-- `struct sylvan_error_context` -/
structure ErrorContext where
  code : Code
  osErrno : Int
  message : String

/-! ## Texts -/

/-- `%lx` -/
def hex (n : Nat) : String := String.ofList (Nat.toDigits 16 n)

/-- `%#lx`: zero has no prefix. -/
def hexAlt (n : Nat) : String := if n = 0 then "0" else "0x" ++ hex n

/-- At most `n` characters of `s`, as a precision or the size of a buffer leaves them. -/
def cut (n : Nat) (s : String) : String := String.ofList (s.toList.take n)

@[simp] theorem toList_cut (n : Nat) (s : String) : (cut n s).toList = s.toList.take n := String.toList_ofList

/-- A text that is short enough stays as it is. -/
theorem cut_of_length_le {n : Nat} {s : String} (h : s.length ≤ n) : cut n s = s := by
  unfold cut
  rw [List.take_of_length_le (by rwa [String.length_toList]), String.ofList_toList]

/-- `sizeof sylvan_errmsg_buffer` -/
def errmsgBufferSize : Nat := 2048

/-- The buffer after `sylvan_set_message` printed `text`: `vsnprintf` is given one byte less than it has. -/
def messageText (text : String) : String := cut (errmsgBufferSize - 1 - 1) text

/-- The buffer after `sylvan_set_errno_msg` printed `text` and, where room is left, the description of `errno`. -/
def errnoText (text errnoDescription : String) : String :=
  if text.length < errmsgBufferSize - 3 then cut (errmsgBufferSize - 1) (text ++ ": " ++ errnoDescription)
  else cut (errmsgBufferSize - 1) text

end Sylvan
