import Sylvan.Op
import Sylvan.Theorems.PipeRuns

/-! # The parent alone

`handleParent` is the parent with its calls answered by an environment. Where they are answered as in a run of both processes, it
does what the parent of that run does. -/

namespace Sylvan
open Exec

/-- What `handle_parent` does once it knows. -/
def ParentEnd.goesOn (env : Env) (pid : Pid) : ParentEnd → SylvanM Unit
  | .closeFailed _ => setErrnoMsg env .systemError "close pipe"
  | .readFailed _ => setErrnoMsg env .systemError "read from pipe"
  | .reported report => childFailed env report
  | .waitpidFailed _ | .waited _ => childStarted env pid

/-- The calls that `handle_parent` makes from the time `time` on are answered so: `k` times a signal interrupts `read`. -/
structure Env.Gives (env : Env) (p : ParentAnswers) (report : List Byte) (time k : Nat) : Prop where
  closeWrite : env.close time = p.closeWrite
  interrupted : ∀ i, i < k → ∃ f, env.read (time + 1 + i) = .error f ∧ f.errno = EINTR
  read : env.read (time + 1 + k) = p.read.elim (.ok report) .error
  closeRead : env.close (time + 1 + k + 1) = p.closeRead
  retries : k < env.retries

/-- What an answer to a call leaves in `errno`. -/
def Scratch.answer (x : Scratch) (failed : Option Failure) : Scratch := failed.elim x.tick x.fail

/-- `k` calls were interrupted. -/
def Scratch.interrupted (x : Scratch) (k : Nat) : Scratch :=
  { x with clock := x.clock + k, errno := if k = 0 then x.errno else EINTR }

/-- What the calls of `handle_parent` leave, up to the one that fails or the last. -/
def ParentAnswers.leave (p : ParentAnswers) (k : Nat) (x : Scratch) : Scratch :=
  match p.closeWrite with
  | some f => x.fail f
  | none => ((x.tick.interrupted k).answer p.read).answer p.closeRead

section Parent
variable {env : Env} {pid : Pid} {s : State} {p : ParentAnswers} {k : Nat} {text : String} {code : Code}

theorem interrupted_succ {x : Scratch} {f : Failure} (h : f.errno = EINTR) : x.interrupted (k + 1) = (x.fail f).interrupted k := by
  unfold Scratch.interrupted Scratch.fail
  rw [if_neg (Nat.succ_ne_zero k), h, Nat.add_assoc, Nat.add_comm 1 k]
  split <;> rfl

theorem plain_of_none {answer : Nat → Option Failure} (h : answer s.scratch.clock = none) :
    Sys.plain answer s = .ok (.ok ()) (s.withScratch s.scratch.tick) := by
  simp only [Sys.plain, Sys.answered, h]

theorem plain_of_some {answer : Nat → Option Failure} {f : Failure} (h : answer s.scratch.clock = some f) :
    Sys.plain answer s = .ok (.error f.errno) (s.withScratch (s.scratch.fail f)) := by
  simp only [Sys.plain, Sys.answered, h]

theorem answered_of_error {α : Type} {answer : Nat → Except Failure α} {f : Failure} {y : Scratch} (h : answer y.clock = .error f) :
    Sys.answered answer (s.withScratch y) = .ok (.error f.errno) (s.withScratch (y.fail f)) := by
  simp only [Sys.answered, State.withScratch, h]

theorem answered_of_ok {α : Type} {answer : Nat → Except Failure α} {x : α} {y : Scratch} (h : answer y.clock = .ok x) :
    Sys.answered answer (s.withScratch y) = .ok (.ok x) (s.withScratch y.tick) := by
  simp only [Sys.answered, State.withScratch, h]

theorem checked_of_none {answer : Nat → Option Failure} (h : answer s.scratch.clock = none) :
    checked env code text (Sys.plain answer) s = .ok () (s.withScratch s.scratch.tick) := by
  unfold checked handled
  rw [bind_of_ok (plain_of_none h)]
  rfl

theorem checked_of_some {answer : Nat → Option Failure} {f : Failure} (h : answer s.scratch.clock = some f) :
    checked env code text (Sys.plain answer) s = setErrnoMsg env code text (s.withScratch (s.scratch.fail f)) := by
  unfold checked handled
  rw [bind_of_ok (plain_of_some h)]

/-- A call that is interrupted is made again. -/
theorem retry_interrupted {α : Type} (answer : Nat → Except Failure α) : ∀ {k m : Nat} {y : Scratch}, k < m →
    (∀ i, i < k → ∃ f, answer (y.clock + i) = .error f ∧ f.errno = EINTR) → ∃ m',
      Sys.retry (Sys.answered answer) m (s.withScratch y) = Sys.retry (Sys.answered answer) (m' + 1) (s.withScratch (y.interrupted k))
  | 0, m, y, hm, _ => by
    obtain ⟨m, rfl⟩ := Nat.exists_eq_succ_of_ne_zero (Nat.ne_of_gt hm)
    exact ⟨m, rfl⟩
  | k + 1, 0, _, hm, _ => absurd hm (Nat.not_lt_zero _)
  | k + 1, m + 1, y, hm, hint => by
    obtain ⟨f, hf, heintr⟩ := hint 0 (Nat.succ_pos k)
    have hnext : ∀ i, i < k → ∃ f, answer (y.clock + 1 + i) = .error f ∧ f.errno = EINTR := fun i hi => by
      rw [Nat.add_right_comm]
      exact hint (i + 1) (Nat.succ_lt_succ hi)
    obtain ⟨m', hrun⟩ := retry_interrupted answer (y := y.fail f) (Nat.lt_of_succ_lt_succ hm) hnext
    refine ⟨m', ?_⟩
    rw [interrupted_succ heintr, Sys.retry, bind_of_ok (answered_of_error (y := y) hf)]
    dsimp only
    rw [if_pos heintr, hrun]

/-- The `read` of `handle_parent`, with those that were interrupted. -/
theorem read_of_gives {report : List Byte} {time : Nat} {y : Scratch} (h : env.Gives p report time k)
    (hread : ∀ f, p.read = some f → f.errno ≠ EINTR) (htime : y.clock = time + 1) :
    Sys.retry (Sys.answered env.read) env.retries (s.withScratch y) =
      .ok (p.read.elim (.ok report) fun f => .error f.errno) (s.withScratch ((y.interrupted k).answer p.read)) := by
  have hinterrupted := h.interrupted
  rw [← htime] at hinterrupted
  obtain ⟨m, hrun⟩ := retry_interrupted (s := s) env.read h.retries hinterrupted
  have hanswer : env.read (y.interrupted k).clock = p.read.elim (.ok report) .error := by
    rw [← h.read, ← htime]
    rfl
  rw [hrun, Sys.retry]
  cases hp : p.read with
  | none =>
    rw [hp] at hanswer
    rw [bind_of_ok (answered_of_ok hanswer)]
    rfl
  | some f =>
    rw [hp] at hanswer
    rw [bind_of_ok (answered_of_error hanswer)]
    dsimp only
    rw [if_neg (hread f hp)]
    rfl

/-- Where its calls are answered so, `handle_parent` goes on as the parent that runs after the child. -/
theorem handleParent_after (pid : Pid) {r : ChildEnd} (h : env.Gives p r.report s.scratch.clock k) (hread : ∀ f, p.read = some f → f.errno ≠ EINTR) :
    handleParent env pid s = (parentAfter p r).goesOn env pid (s.withScratch (p.leave k s.scratch)) := by
  unfold handleParent ParentAnswers.leave
  cases hp : p.closeWrite with
  | some f =>
    rw [bind_of_error (checked_of_some (h.closeWrite.trans hp))]
    simp only [parentAfter, hp]
    rfl
  | none =>
    rw [bind_of_ok (checked_of_none (h.closeWrite.trans hp))]
    rw [bind_of_ok (read_of_gives (s := s) (y := s.scratch.tick) h hread rfl)]
    have hclose : env.close ((s.scratch.tick.interrupted k).answer p.read).clock = p.closeRead := by
      rw [← h.closeRead]
      cases p.read <;> rfl
    cases hp' : p.closeRead with
    | some f =>
      rw [bind_of_error (checked_of_some (hclose.trans hp'))]
      simp only [parentAfter, hp, hp']
      rfl
    | none =>
      rw [bind_of_ok (checked_of_none (hclose.trans hp'))]
      cases hr : p.read with
      | some f =>
        simp only [parentAfter, hp, hp', hr]
        rfl
      | none =>
        simp only [parentAfter, hp, hp', hr]
        show (if r.report.take reportBufferSize ≠ [] then _ else childStarted env pid) _ = _
        split
        · rfl
        · cases p.waitpid <;> rfl

/-- The sequential model of `handle_parent` is sound: however the two processes interleave, it goes on as the parent of the run
    does, if its calls are answered as they were there. -/
theorem handleParent_agrees {a : ChildAnswers} {path : String} {args : Option String} {n signals : Nat} {t : Processes}
    (hrun : Run (PipeStep a path args p) n (.forked signals) t) (hstuck : Stuck (PipeStep a path args p) t)
    (h : env.Gives p (handleChild a path args).report s.scratch.clock k) (hread : ∀ f, p.read = some f → f.errno ≠ EINTR) :
    ∃ e, t.parent = .ended e ∧ handleParent env pid s = e.goesOn env pid (s.withScratch (p.leave k s.scratch)) :=
  ⟨_, ((PipeInv.of_run hrun).of_stuck hstuck).1, handleParent_after pid h hread⟩

/-- A child that may not be traced reports it. -/
def Env.relaying : Env := { Env.compliant with read := fun _ => .ok (reportBytes .ptraceError EPERM) }

theorem handleParent_agrees_refused : handleParent .relaying 7 .blank =
    childFailed .relaying (reportBytes .ptraceError EPERM) (State.blank.withScratch State.blank.scratch.tick.tick.tick) := by
  obtain ⟨n, t, hrun, hstuck⟩ := exists_run
  have hgives : Env.relaying.Gives .plain (handleChild .refused "/bin/true" none).report State.blank.scratch.clock 0 :=
    ⟨rfl, nofun, rfl, rfl, by decide⟩
  have hend : t.parent = .ended (.reported (reportBytes .ptraceError EPERM)) := ((PipeInv.of_run hrun).of_stuck hstuck).1
  obtain ⟨e, he, heq⟩ := @handleParent_agrees .relaying 7 .blank .plain 0 _ _ _ _ _ _ hrun hstuck hgives nofun
  rw [hend] at he
  cases he
  exact heq

end Parent

end Sylvan
