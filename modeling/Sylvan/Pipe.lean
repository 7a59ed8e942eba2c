import Sylvan.Child

/-! # The pipe between parent and child (`handle_parent` and `handle_child` of `lib/sylvan/inferior.c`)

After `fork` the two run at once. All they share is the pipe, and the parent waits for the child. A step is one call of one of
them, taken when the call returns: a `read` does not return while the pipe is empty and could still be written to, nor does
`waitpid` while the child goes on. Signals interrupt the parent in between. -/

namespace Sylvan

def SIGPIPE : Nat := 13

/-- The pipe, and which of its ends are open. -/
structure Pipe where
  content : List Byte
  parentReads : Bool
  parentWrites : Bool
  childReads : Bool
  childWrites : Bool

/-- The call that the child makes next. -/
inductive ChildState where
  | closeRead
  | traceme
  | malloc
  | wordexp (args : String)
  | dprintf (code : Code) (errno : Errno)
  /-- `close(wd)` of `exit_child` -/
  | closeReport (code : Code) (errno : Errno)
  /-- `close(wd)` of `handle_child` -/
  | closeWrite (argv : List String)
  | execvp (argv : List String)
  | ended (e : ChildEnd)
  /-- `SIGPIPE` ended the child. -/
  | killed

/-- What the parent has learned once it returns, or waited. -/
inductive ParentEnd where
  | closeFailed (e : Failure)
  | readFailed (e : Failure)
  | waitpidFailed (e : Failure)
  | reported (report : List Byte)
  | waited (status : WaitStatus)

/-- The call that the parent makes next. -/
inductive ParentState where
  | closeWrite
  | read
  | closeRead (bytesRead : Except Failure (List Byte))
  | waitpid
  | ended (e : ParentEnd)

/-- How the calls of the parent fail, if they do, but for `EINTR`. -/
structure ParentAnswers where
  closeWrite : Option Failure
  closeRead : Option Failure
  read : Option Failure
  waitpid : Option Failure

/-- Both processes, and how often a signal will come. -/
structure Processes where
  child : ChildState
  parent : ParentState
  pipe : Pipe
  signals : Nat

/-- The processes after `fork`. -/
def Processes.forked (signals : Nat) : Processes := ⟨.closeRead, .closeWrite, ⟨[], true, true, true, true⟩, signals⟩

/-- The kernel closes what a process that ends has open. -/
def Pipe.childGone (w : Pipe) : Pipe := { w with childReads := false, childWrites := false }

/-- A step of the child -/
def childStep (a : ChildAnswers) (path : String) (args : Option String) (w : Pipe) : ChildState → Option (ChildState × Pipe)
  | .closeRead =>
    if a.closeRead.isSome then some (.ended (.exit 1 none), w.childGone) else some (.traceme, { w with childReads := false })
  | .traceme =>
    match a.traceme with
    | some e => some (.dprintf .ptraceError e.errno, w)
    | none => some (.malloc, w)
  | .malloc =>
    if ¬a.malloc then some (.dprintf .outOfMemory ENOMEM, w)
    else
      match args with
      | none => some (.closeWrite [path ++ a.behind], w)
      | some args => some (.wordexp args, w)
  | .wordexp args =>
    match a.wordexp (path ++ " " ++ args) with
    | .error (res, errno) => some (.dprintf (if res = WRDE_NOSPACE then .outOfMemory else .invalidArgument) errno, w)
    | .ok argv => some (.closeWrite argv, w)
  | .dprintf code errno =>
    if ¬w.parentReads ∧ ¬w.childReads then some (.killed, w.childGone)
    else if a.write.isSome then some (.ended (.exit 1 none), w.childGone)
    else some (.closeReport code errno, { w with content := w.content ++ reportBytes code errno })
  | .closeReport code errno => some (.ended (.exit (if a.closeWrite.isSome then 1 else 0) (some (code, errno))), w.childGone)
  | .closeWrite argv =>
    if a.closeWrite.isSome then some (.ended (.exit 1 none), w.childGone) else some (.execvp argv, { w with childWrites := false })
  | .execvp argv => some (.ended (if (a.execvp path argv).isSome then .exit 1 none else .exec path argv), w)
  | .ended _ | .killed => none

/-- What `waitpid` says of a child. One that was replaced by a program is traced, and stops there. -/
def ChildState.status : ChildState → Option WaitStatus
  | .ended (.exit status _) => some (.exited status)
  | .ended (.exec _ _) => some (.stopped SIGTRAP.toNat)
  | .killed => some (.signaled SIGPIPE)
  | _ => none

/-- A step of the parent, if its call returns -/
def parentStep (p : ParentAnswers) (child : ChildState) (w : Pipe) : ParentState → Option (ParentState × Pipe)
  | .closeWrite =>
    match p.closeWrite with
    | some e => some (.ended (.closeFailed e), w)
    | none => some (.read, { w with parentWrites := false })
  | .read =>
    match p.read with
    | some e => some (.closeRead (.error e), w)
    | none =>
      if w.content ≠ [] then
        some (.closeRead (.ok (w.content.take reportBufferSize)), { w with content := w.content.drop reportBufferSize })
      else if w.parentWrites ∨ w.childWrites then none
      else some (.closeRead (.ok []), w)
  | .closeRead bytesRead =>
    match p.closeRead with
    | some e => some (.ended (.closeFailed e), w)
    | none =>
      let w := { w with parentReads := false }
      match bytesRead with
      | .error e => some (.ended (.readFailed e), w)
      | .ok report => some (if report ≠ [] then .ended (.reported report) else .waitpid, w)
  | .waitpid =>
    match p.waitpid with
    | some e => some (.ended (.waitpidFailed e), w)
    | none => child.status.map fun status => (.ended (.waited status), w)
  | .ended _ => none

/-- A step of either process, or a signal that interrupts the parent. -/
inductive PipeStep (a : ChildAnswers) (path : String) (args : Option String) (p : ParentAnswers) : Processes → Processes → Prop where
  | child {s : Processes} {c : ChildState} {w : Pipe} :
      childStep a path args s.pipe s.child = some (c, w) → PipeStep a path args p s { s with child := c, pipe := w }
  | parent {s : Processes} {q : ParentState} {w : Pipe} :
      parentStep p s.child s.pipe s.parent = some (q, w) → PipeStep a path args p s { s with parent := q, pipe := w }
  | signal {s : Processes} {n : Nat} :
      s.parent = .read ∨ s.parent = .waitpid → s.signals = n + 1 → PipeStep a path args p s { s with signals := n }

end Sylvan
