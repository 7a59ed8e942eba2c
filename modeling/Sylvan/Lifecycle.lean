import Mathlib.Logic.Relation
import Sylvan.Kernel
import Sylvan.Lib.Trail

/-! # The life of an inferior

What matters of an inferior to the processes it deals with: the process it has, where it has it from, and
what was asked of the system so far. `Life.Step` has one step for each thing that can become of these;
the calls of the library are sequences of such steps. -/

namespace Sylvan

structure Life where
  pid : Pid
  status : InferiorState
  isAttached : Bool
  trace : List Event

def State.life (s : State) : Life := ⟨s.inf.pid, s.inf.status, s.inf.isAttached, s.trace⟩

/-- What was asked of the system between `s` and `t`. -/
abbrev State.since (s t : State) : List Event := Trail.since State.trace s t

/-- None of the entries is marked as installed. -/
def Inferior.Cleared (inf : Inferior) : Prop := ∀ i, i < inf.count → (inf.slot i).isEnabledPhy = false

/-- A process that was waited for has become the inferior's with a status. -/
inductive Adopted : WaitStatus → InferiorState → Prop where
  | stopped (sig : Nat) : Adopted (.stopped sig) .stopped
  | continued : Adopted .continued .running

namespace Life

def IsActive (l : Life) : Prop := l.status = .running ∨ l.status = .stopped

def record (l : Life) (e : Event) : Life := { l with trace := l.trace ++ [e] }

def dissociated (l : Life) : Life := { l with pid := 0, status := .none, isAttached := false }

/-- What some steps need: to kill an attached process, to take or resume one, and to detach from a process that has
    some memory. -/
structure License where
  killAttached : Prop
  start : Prop
  detach : Pid → Memory → Prop

/-- Nothing is kept from happening. -/
abbrev License.free : License := ⟨True, True, fun _ _ => True⟩

inductive Step (may : License) (l : Life) : Life → Prop where
  | probed (pid : Pid) (failed : Option Errno) : Step may l (l.record (.kill pid 0 failed))
  | noticed (pid : Pid) (st : WaitStatus) (gone : ∀ status, ¬Adopted st status) (idle : ¬l.IsActive ∨ st = .unknown) :
    Step may l (l.record (.waited pid st))
  | stopped (sig : Nat) (live : 0 < l.pid) :
    Step may l { l.record (.waited l.pid (.stopped sig)) with status := .stopped }
  | running (live : 0 < l.pid) : Step may l { l.record (.waited l.pid .continued) with status := .running }
  | exited (code : Nat) (live : 0 < l.pid) :
    Step may l { l.record (.waited l.pid (.exited code)) with status := .exited, pid := 0 }
  | terminated (sig : Nat) (live : 0 < l.pid) :
    Step may l { l.record (.waited l.pid (.signaled sig)) with status := .terminated, pid := 0 }
  | lost (live : 0 < l.pid) : Step may l (l.record (.kill l.pid 0 (some ESRCH))).dissociated
  | signaled (failed : Option Errno) (active : l.IsActive) (own : may.killAttached ∨ l.isAttached = false) :
    Step may l (l.record (.kill l.pid SIGKILL failed))
  | killed (active : l.IsActive) (own : may.killAttached ∨ l.isAttached = false) :
    Step may l (l.record (.kill l.pid SIGKILL (some ESRCH))).dissociated
  | reaped (st : WaitStatus) (active : l.IsActive) (own : may.killAttached ∨ l.isAttached = false) :
    Step may l (l.record (.waited l.pid st)).dissociated
  | refused (inf : Inferior) (proc : Process) (failed : Errno) (active : l.IsActive) (attached : l.isAttached = true)
    (cleared : inf.Cleared) (clean : may.detach l.pid proc.mem) (there : failed ≠ ESRCH) :
    Step may l (l.record (.request .detach l.pid inf proc (some failed)))
  | released (inf : Inferior) (proc : Process) (failed : Option Errno) (active : l.IsActive)
    (attached : l.isAttached = true) (cleared : inf.Cleared) (clean : may.detach l.pid proc.mem)
    (gone : failed = none ∨ failed = some ESRCH) :
    Step may l (l.record (.request .detach l.pid inf proc failed)).dissociated
  | asked (start : may.start) (pid : Pid) (inf : Inferior) (proc : Process) (failed : Option Errno) (idle : ¬l.IsActive) :
    Step may l (l.record (.request .attach pid inf proc failed))
  | attached (start : may.start) (pid : Pid) (inf : Inferior) (proc : Process) (st : WaitStatus) (status : InferiorState) (idle : ¬l.IsActive)
    (pos : 0 < pid) (adopted : Adopted st status) :
    Step may l { (l.record (.request .attach pid inf proc none)).record (.waited pid st) with
      pid, status, isAttached := true }
  | forked (start : may.start) (pid : Pid) (image : Process) (idle : ¬l.IsActive) : Step may l (l.record (.forked pid image))
  | spawned (start : may.start) (pid : Pid) (image : Process) (st : WaitStatus) (status : InferiorState) (idle : ¬l.IsActive)
    (pos : 0 < pid) (adopted : Adopted st status) :
    Step may l { (l.record (.forked pid image)).record (.waited pid st) with pid, status, isAttached := false }
  | resumed (start : may.start) (req : Request) (inf : Inferior) (proc : Process) (failed : Option Errno) (hreq : req = .cont ∨ req = .singlestep) :
    Step may l (l.record (.request req l.pid inf proc failed))
  | destroyed (idle : ¬l.IsActive) : Step may l (l.record .freed)

end Life

end Sylvan
