import Sylvan.Theorems.Frames

/-! The fields of the inferior that are pointers in memory: its path, its arguments and its two symbol tables. The calls that
    neither allocate nor free leave what they stand for as it was. -/

namespace Sylvan
open Exec

/-- What the pointers of an inferior stand for -/
structure Owned where
  realpath : Option String
  args : Option String
  elfTable : SymTable
  dwarfTable : SymTable

namespace Inferior

def owned (inf : Inferior) : Owned := ⟨inf.realpath, inf.args, inf.elfTable, inf.dwarfTable⟩

def withOwned (inf : Inferior) (o : Owned) : Inferior :=
  { inf with realpath := o.realpath, args := o.args, elfTable := o.elfTable, dwarfTable := o.dwarfTable }

end Inferior

def SameOwned (s t : State) : Prop := t.inf.owned = s.inf.owned

instance : IsPreorder State SameOwned where
  refl _ := rfl
  trans _ _ _ h h' := Eq.trans h' h

instance : IgnoresImages SameOwned where
  scratch _ _ := rfl
  image _ _ _ := rfl

section
variable {env : Env} {s t : State} {pid : Pid} {c : Option Code}

/-! ### The process of the inferior -/

theorem sameOwned_setInf {g : State → Inferior} (h : ∀ s, (g s).owned = s.inf.owned) :
    Keeps SameOwned (Exec.modify fun s => s.setInf (g s) : SylvanM Unit) := Keeps.modify h

theorem sameOwned_setStatus {status : InferiorState} : Keeps SameOwned (setStatus status) := sameOwned_setInf fun _ => rfl

theorem sameOwned_dissociate : Keeps SameOwned dissociate := sameOwned_setInf fun _ => rfl

theorem Waits.sameOwned (hw : Waits s c t) : SameOwned s t := by
  cases hw <;> rfl

theorem State.Edited.sameOwned (h : s.Edited t) : SameOwned s t := by
  unfold SameOwned
  rw [h.inf]
  rfl

theorem sameOwned_kill_call {sig : Int} : Keeps SameOwned (Sys.kill env pid sig) := fun _ => wp_kill (fun _ => rfl) fun _ _ => rfl

theorem sameOwned_waitpid : Keeps SameOwned (Sys.waitpid env pid) := fun _ => wp_waitpid (fun _ _ _ => rfl) fun _ _ => rfl

theorem sameOwned_ptraceResume {req : Request} : Keeps SameOwned (Sys.ptraceResume env req) := fun _ =>
  wp_ptraceResume (fun _ _ => rfl) fun _ _ => rfl

theorem sameOwned_ptraceAttach : Keeps SameOwned (Sys.ptraceAttach env pid) := fun _ =>
  wp_ptraceAttach (fun _ _ _ => rfl) fun _ _ => rfl

theorem sameOwned_fork : Keeps SameOwned (Sys.fork env) := fun _ => wp_fork (fun _ _ => rfl) fun _ _ => rfl

theorem sameOwned_updateInfStatus {blocking : Bool} : Keeps SameOwned (updateInfStatus env blocking) := fun _ =>
  (wp_updateInfStatus (F := fun _ t => SameOwned _ t) (fun _ => rfl) fun _ _ _ => rfl).imp
    (fun _ _ hw => hw.sameOwned) fun _ _ hw => hw.sameOwned

theorem sameOwned_kill : Keeps SameOwned (kill env) := by
  refine Keeps.bind Keeps.get fun _ => Keeps.ite (fun _ => Keeps.pure _) fun _ => Keeps.bind sameOwned_kill_call fun r => ?_
  cases r with
  | ok _ => exact Keeps.bind (keeps_checked (keeps_retry sameOwned_waitpid _)) fun _ => sameOwned_dissociate
  | error e => exact Keeps.bind (Keeps.when fun _ => keeps_setErrnoMsg) fun _ => sameOwned_dissociate

instance : KeptByCalls SameOwned where
  edited := State.Edited.sameOwned
  request _ _ _ := sameOwned_ptraceResume
  dissociate := sameOwned_dissociate
  wait _ _ := sameOwned_updateInfStatus
  kill _ := sameOwned_kill

/-! ### A new process -/

theorem sameOwned_updateWaitStatus : ∀ st, Keeps SameOwned (updateWaitStatus st)
  | .stopped _ | .continued | .exited _ | .signaled _ => sameOwned_setStatus
  | .unknown => keeps_assert

theorem sameOwned_childStarted : Keeps SameOwned (childStarted env pid) := by
  refine Keeps.bind (keeps_checked (keeps_retry sameOwned_waitpid _)) fun st => ?_
  cases st with
  | exited code => exact keeps_setMessage
  | signaled sig | stopped sig | continued | unknown =>
    exact Keeps.bind (sameOwned_updateWaitStatus _) fun _ => Keeps.bind (sameOwned_setInf fun _ => rfl) fun _ =>
      Keeps.bind (keeps_edited edited_breakpointResetPhybp) fun _ => Keeps.bind (keeps_edited edited_setallPhybp) fun _ =>
        keeps_resume Request.noConfusion

theorem sameOwned_handleParent : Keeps SameOwned (handleParent env pid) :=
  Keeps.bind (keeps_checked keeps_plain) fun _ => Keeps.bind (keeps_retry keeps_answered _) fun _ =>
    Keeps.bind (keeps_checked keeps_plain) fun _ =>
      Keeps.bind (keeps_handled (Keeps.pure _) fun _ => keeps_setErrnoMsg) fun _ =>
        Keeps.ite (fun _ => keeps_childFailed) fun _ => sameOwned_childStarted

theorem sameOwned_run : Keeps SameOwned (run env) := by
  refine Keeps.bind Keeps.get fun s => ?_
  cases s.inf.realpath with
  | none => exact keeps_setMessage
  | some path =>
    exact Keeps.bind (keeps_checked keeps_plain) fun _ => Keeps.bind sameOwned_kill fun _ =>
      Keeps.bind (keeps_checked keeps_plain) fun _ =>
        Keeps.bind (keeps_handled sameOwned_fork fun _ => Keeps.bind keeps_plain fun _ =>
          Keeps.bind keeps_plain fun _ => keeps_setErrnoMsg) fun _ => sameOwned_handleParent

end

end Sylvan
