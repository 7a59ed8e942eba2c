import Mathlib.Data.List.Basic
import Sylvan.Lib.Steps
import Sylvan.Pipe

/-! # Runs of parent and child

Whatever the order in which parent and child take their steps, no run is long, none ends in a deadlock, and the parent returns
what it would return if it had run after the child. Until then it never sees anything but the one report of the child. -/

namespace Sylvan

/-! ### What the child comes to -/

/-- What the parent can read of a child that ends so. -/
def ChildEnd.report : ChildEnd → List Byte
  | .exit _ (some (code, errno)) => reportBytes code errno
  | _ => []

def ChildEnd.status : ChildEnd → WaitStatus
  | .exit status _ => .exited status
  | .exec _ _ => .stopped SIGTRAP.toNat

section Child
variable (a : ChildAnswers) (path : String)

/-- `handle_child` from `wordexp` on -/
def fromWordexp (args : String) : ChildEnd :=
  match a.wordexp (path ++ " " ++ args) with
  | .error (res, errno) => exitChild a (if res = WRDE_NOSPACE then .outOfMemory else .invalidArgument) errno
  | .ok argv => startProgram a path argv

/-- `handle_child` from `malloc` on -/
def fromMalloc (args : Option String) : ChildEnd :=
  if ¬a.malloc then exitChild a .outOfMemory ENOMEM
  else
    match args with
    | none => startProgram a path [path ++ a.behind]
    | some args => fromWordexp a path args

/-- `handle_child` from `ptrace` on -/
def fromTraceme (args : Option String) : ChildEnd :=
  match a.traceme with
  | some e => exitChild a .ptraceError e.errno
  | none => fromMalloc a path args

/-- How the child ends from here, if no signal ends it. -/
def ChildState.outcome (args : Option String) : ChildState → ChildEnd
  | .closeRead | .killed => handleChild a path args
  | .traceme => fromTraceme a path args
  | .malloc => fromMalloc a path args
  | .wordexp args => fromWordexp a path args
  | .dprintf code errno => exitChild a code errno
  | .closeReport code errno => .exit (if a.closeWrite.isSome then 1 else 0) (some (code, errno))
  | .closeWrite argv => startProgram a path argv
  | .execvp argv => if (a.execvp path argv).isSome then .exit 1 none else .exec path argv
  | .ended e => e

end Child

/-- What the child has written. -/
def ChildState.sent : ChildState → List Byte
  | .closeReport code errno => reportBytes code errno
  | .ended e => e.report
  | _ => []

/-- The child will not write. -/
def ChildState.Past : ChildState → Prop
  | .closeReport _ _ | .execvp _ | .ended _ => True
  | _ => False

/-- The child has the end of the pipe that is written to. -/
def ChildState.writes : ChildState → Bool
  | .execvp _ | .ended _ | .killed => false
  | _ => true

section Protocol
variable {a : ChildAnswers} {path : String} {args : Option String} {p : ParentAnswers} {s t : Processes} {c c' : ChildState}
  {w w' : Pipe} {q q' : ParentState} {n signals : Nat}

/-- What a step of the child can do. -/
structure ChildMove (a : ChildAnswers) (path : String) (args : Option String) (c c' : ChildState) (w w' : Pipe) : Prop where
  outcome : c' = .killed ∨ c'.outcome a path args = c.outcome a path args
  killed : c' = .killed → w.parentReads = false ∧ ¬c.Past
  sent : ∃ bytes, w'.content = w.content ++ bytes ∧ c'.sent = c.sent ++ bytes ∧ (c.Past → bytes = [] ∧ c'.Past)
  writes : w.childWrites = c.writes → w'.childWrites = c'.writes
  parentReads : w'.parentReads = w.parentReads
  parentWrites : w'.parentWrites = w.parentWrites

/-- A step that writes nothing. -/
theorem ChildMove.quiet (houtcome : c'.outcome a path args = c.outcome a path args) (hsent : c'.sent = c.sent) (hpast : c.Past → c'.Past)
    (hwrites : w.childWrites = c.writes → w'.childWrites = c'.writes) (hcontent : w'.content = w.content)
    (hparent : w'.parentReads = w.parentReads ∧ w'.parentWrites = w.parentWrites) (hlives : c' ≠ .killed) :
    ChildMove a path args c c' w w' :=
  ⟨.inr houtcome, fun h => absurd h hlives, ⟨[], by rw [hcontent, List.append_nil], by rw [hsent, List.append_nil], fun h => ⟨rfl, hpast h⟩⟩, hwrites,
    hparent.1, hparent.2⟩

theorem handleChild_eq : handleChild a path args = if a.closeRead.isSome then .exit 1 none else fromTraceme a path args := rfl

theorem ChildMove.of_childStep (h : childStep a path args w c = some (c', w')) : ChildMove a path args c c' w w' := by
  cases c with
  | closeRead =>
    simp only [childStep] at h
    split at h <;> rename_i hclose <;> cases h
    · exact .quiet (by simp [ChildState.outcome, handleChild_eq, hclose]) rfl False.elim (fun _ => rfl) rfl ⟨rfl, rfl⟩ (by simp)
    · exact .quiet (by simp [ChildState.outcome, handleChild_eq, hclose]) rfl False.elim id rfl ⟨rfl, rfl⟩ (by simp)
  | traceme =>
    simp only [childStep] at h
    split at h <;> rename_i htrace <;> cases h
    · exact .quiet (by simp [ChildState.outcome, fromTraceme, htrace]) rfl False.elim id rfl ⟨rfl, rfl⟩ (by simp)
    · exact .quiet (by simp [ChildState.outcome, fromTraceme, htrace]) rfl False.elim id rfl ⟨rfl, rfl⟩ (by simp)
  | malloc =>
    simp only [childStep] at h
    split at h
    · rename_i hmalloc
      cases h
      exact .quiet (by simp only [ChildState.outcome, fromMalloc, if_pos hmalloc]) rfl False.elim id rfl ⟨rfl, rfl⟩ (by simp)
    · rename_i hmalloc
      split at h <;> cases h
      · exact .quiet (by simp only [ChildState.outcome, fromMalloc, if_neg hmalloc]) rfl False.elim id rfl ⟨rfl, rfl⟩ (by simp)
      · exact .quiet (by simp only [ChildState.outcome, fromMalloc, if_neg hmalloc]) rfl False.elim id rfl ⟨rfl, rfl⟩ (by simp)
  | wordexp line =>
    simp only [childStep] at h
    split at h <;> rename_i hwords <;> cases h
    · exact .quiet (by simp only [ChildState.outcome, fromWordexp, hwords]) rfl False.elim id rfl ⟨rfl, rfl⟩ (by simp)
    · exact .quiet (by simp only [ChildState.outcome, fromWordexp, hwords]) rfl False.elim id rfl ⟨rfl, rfl⟩ (by simp)
  | dprintf code errno =>
    simp only [childStep] at h
    split at h
    · rename_i hends
      cases h
      refine ⟨.inl rfl, fun _ => ⟨by simpa using hends.1, id⟩, ⟨[], (List.append_nil _).symm, rfl, False.elim⟩, fun _ => rfl, rfl, rfl⟩
    · split at h <;> rename_i hwrite <;> cases h
      · exact .quiet (by simp [ChildState.outcome, exitChild, hwrite]) rfl False.elim (fun _ => rfl) rfl ⟨rfl, rfl⟩ (by simp)
      · refine ⟨.inr ?_, fun h => by simp at h, ⟨reportBytes code errno, rfl, rfl, False.elim⟩, id, rfl, rfl⟩
        simp [ChildState.outcome, exitChild, hwrite]
  | closeReport code errno =>
    cases h
    exact .quiet rfl rfl (fun _ => trivial) (fun _ => rfl) rfl ⟨rfl, rfl⟩ (by simp)
  | closeWrite argv =>
    simp only [childStep] at h
    split at h <;> rename_i hclose <;> cases h
    · exact .quiet (by simp [ChildState.outcome, startProgram, hclose]) rfl False.elim (fun _ => rfl) rfl ⟨rfl, rfl⟩ (by simp)
    · exact .quiet (by simp [ChildState.outcome, startProgram, hclose]) rfl False.elim (fun _ => rfl) rfl ⟨rfl, rfl⟩ (by simp)
  | execvp argv =>
    cases h
    refine .quiet rfl ?_ (fun _ => trivial) id rfl ⟨rfl, rfl⟩ (by simp)
    simp only [ChildState.sent]
    split <;> rfl
  | ended e => cases h
  | killed => cases h

/-! ### What the parent knows -/

/-- The parent has read what the child wrote, which will not write again. -/
def Received (c : ChildState) (report : List Byte) : Prop := c.Past ∧ report = c.sent.take reportBufferSize

/-- What the parent returns with is what it was answered. -/
def ParentEnd.Known (p : ParentAnswers) (c : ChildState) : ParentEnd → Prop
  | .closeFailed e => p.closeWrite = some e ∨ p.closeWrite = none ∧ p.closeRead = some e
  | .readFailed e => p.closeWrite = none ∧ p.closeRead = none ∧ p.read = some e
  | .waitpidFailed e => p.closeWrite = none ∧ p.closeRead = none ∧ p.read = none ∧ p.waitpid = some e ∧ Received c []
  | .reported report => p.closeWrite = none ∧ p.closeRead = none ∧ p.read = none ∧ report ≠ [] ∧ Received c report
  | .waited status => p.closeWrite = none ∧ p.closeRead = none ∧ p.read = none ∧ p.waitpid = none ∧ Received c [] ∧ c.status = some status

/-- So is what it knows before. -/
def ParentState.Known (p : ParentAnswers) (c : ChildState) (w : Pipe) : ParentState → Prop
  | .closeWrite => w.content = c.sent
  | .read => p.closeWrite = none ∧ w.parentWrites = false ∧ w.content = c.sent
  | .closeRead (.error e) => p.closeWrite = none ∧ p.read = some e
  | .closeRead (.ok report) => p.closeWrite = none ∧ p.read = none ∧ Received c report
  | .waitpid => p.closeWrite = none ∧ p.closeRead = none ∧ p.read = none ∧ Received c []
  | .ended e => e.Known p c

/-- What holds of the processes in every state. -/
structure PipeInv (a : ChildAnswers) (path : String) (args : Option String) (p : ParentAnswers) (s : Processes) : Prop where
  outcome : s.child.outcome a path args = handleChild a path args
  killed : s.child = .killed → p.read.isSome
  shut : s.pipe.parentReads = false → p.read.isSome ∨ s.child.Past
  writes : s.pipe.childWrites = s.child.writes
  known : s.parent.Known p s.child s.pipe

theorem past_of_sent (h : c.sent ≠ []) : c.Past := by
  cases c with
  | closeReport | ended => trivial
  | _ => exact absurd rfl h

theorem past_of_writes (h : c.writes = false) (hc : c ≠ .killed) : c.Past := by
  cases c with
  | execvp | ended => trivial
  | killed => exact absurd rfl hc
  | _ => cases h

theorem ended_of_status {status : WaitStatus} (h : c.status = some status) : (∃ e, c = .ended e) ∨ c = .killed := by
  cases c with
  | ended e => exact .inl ⟨e, rfl⟩
  | killed => exact .inr rfl
  | _ => cases h

theorem childStep_of_ended (h : (∃ e, c = .ended e) ∨ c = .killed) : childStep a path args w c = none := by
  rcases h with ⟨e, rfl⟩ | rfl
  · rfl
  · rfl

theorem Received.move {report : List Byte} (h : Received c report) (hm : ChildMove a path args c c' w w') : Received c' report := by
  obtain ⟨bytes, -, hsent, hpast⟩ := hm.sent
  obtain ⟨rfl, hc'⟩ := hpast h.1
  refine ⟨hc', ?_⟩
  rw [hsent, List.append_nil]
  exact h.2

/-- A step of the child leaves what the parent knows. -/
theorem Known.move (h : q.Known p c w) (hstep : childStep a path args w c = some (c', w')) : q.Known p c' w' := by
  have hm := ChildMove.of_childStep hstep
  obtain ⟨bytes, hcontent, hsent, -⟩ := hm.sent
  have hsame : w.content = c.sent → w'.content = c'.sent := fun heq => by rw [hcontent, hsent, heq]
  cases q with
  | closeWrite => exact hsame h
  | read => exact ⟨h.1, hm.parentWrites.trans h.2.1, hsame h.2.2⟩
  | closeRead bytesRead =>
    cases bytesRead with
    | error => exact h
    | ok => exact ⟨h.1, h.2.1, h.2.2.move hm⟩
  | waitpid => exact ⟨h.1, h.2.1, h.2.2.1, h.2.2.2.move hm⟩
  | ended e =>
    cases e with
    | closeFailed | readFailed => exact h
    | waitpidFailed => exact ⟨h.1, h.2.1, h.2.2.1, h.2.2.2.1, h.2.2.2.2.move hm⟩
    | reported => exact ⟨h.1, h.2.1, h.2.2.1, h.2.2.2.1, h.2.2.2.2.move hm⟩
    | waited =>
      rw [childStep_of_ended (ended_of_status h.2.2.2.2.2)] at hstep
      cases hstep

theorem PipeInv.child (h : PipeInv a path args p s) (hstep : childStep a path args s.pipe s.child = some (c, w)) :
    PipeInv a path args p { s with child := c, pipe := w } := by
  have hm := ChildMove.of_childStep hstep
  refine ⟨?_, fun hkilled => ?_, fun hshut => ?_, hm.writes h.writes, Known.move h.known hstep⟩
  · rcases hm.outcome with rfl | heq
    · rfl
    · exact heq.trans h.outcome
  · obtain ⟨hshut, hpast⟩ := hm.killed hkilled
    exact (h.shut hshut).resolve_right hpast
  · obtain ⟨bytes, -, -, hpast⟩ := hm.sent
    exact (h.shut (hm.parentReads.symm.trans hshut)).imp_right fun hp => (hpast hp).2

/-- A step of the parent. -/
theorem PipeInv.parent (h : PipeInv a path args p s) (hstep : parentStep p s.child s.pipe s.parent = some (q, w)) :
    PipeInv a path args p { s with parent := q, pipe := w } := by
  obtain ⟨c, q₀, w₀, signals⟩ := s
  obtain ⟨houtcome, hkilled, hshut, hwrites, hknown⟩ := h
  dsimp only at houtcome hkilled hshut hwrites hknown hstep
  cases q₀ with
  | closeWrite =>
    simp only [parentStep] at hstep
    split at hstep <;> rename_i hclose <;> cases hstep
    · exact ⟨houtcome, hkilled, hshut, hwrites, .inl hclose⟩
    · exact ⟨houtcome, hkilled, hshut, hwrites, hclose, rfl, hknown⟩
  | read =>
    obtain ⟨hclose, hparent, hcontent⟩ := hknown
    simp only [parentStep] at hstep
    split at hstep
    · rename_i hread
      cases hstep
      exact ⟨houtcome, hkilled, hshut, hwrites, hclose, hread⟩
    · rename_i hread
      split at hstep
      · rename_i hne
        cases hstep
        refine ⟨houtcome, hkilled, hshut, hwrites, hclose, hread, past_of_sent (hcontent ▸ hne), ?_⟩
        rw [hcontent]
      · rename_i hempty
        split at hstep <;> rename_i hends <;> cases hstep
        have hnowrite : c.writes = false := by simpa [hwrites] using fun h => hends (.inr h)
        have hlives : c ≠ .killed := fun hc => by simpa [hread] using hkilled hc
        refine ⟨houtcome, hkilled, hshut, hwrites, hclose, hread, past_of_writes hnowrite hlives, ?_⟩
        rw [← hcontent, Decidable.not_not.mp hempty, List.take_nil]
  | closeRead bytesRead =>
    simp only [parentStep] at hstep
    split at hstep
    · rename_i hclose
      cases hstep
      cases bytesRead with
      | error => exact ⟨houtcome, hkilled, hshut, hwrites, .inr ⟨hknown.1, hclose⟩⟩
      | ok => exact ⟨houtcome, hkilled, hshut, hwrites, .inr ⟨hknown.1, hclose⟩⟩
    · rename_i hclose
      cases bytesRead with
      | error e =>
        cases hstep
        exact ⟨houtcome, hkilled, fun _ => .inl (by simp [hknown.2]), hwrites, hknown.1, hclose, hknown.2⟩
      | ok report =>
        cases hstep
        refine ⟨houtcome, hkilled, fun _ => .inr hknown.2.2.1, hwrites, ?_⟩
        dsimp only
        split
        · rename_i hne
          exact ⟨hknown.1, hclose, hknown.2.1, hne, hknown.2.2⟩
        · rename_i hempty
          rw [Decidable.not_not.mp hempty] at hknown
          exact ⟨hknown.1, hclose, hknown.2.1, hknown.2.2⟩
  | waitpid =>
    obtain ⟨hclose, hclose', hread, hreceived⟩ := hknown
    simp only [parentStep] at hstep
    split at hstep
    · rename_i hwait
      cases hstep
      exact ⟨houtcome, hkilled, hshut, hwrites, hclose, hclose', hread, hwait, hreceived⟩
    · rename_i hwait
      obtain ⟨status, hstatus, heq⟩ := Option.map_eq_some_iff.mp hstep
      cases heq
      exact ⟨houtcome, hkilled, hshut, hwrites, hclose, hclose', hread, hwait, hreceived, hstatus⟩
  | ended e => cases hstep

theorem PipeInv.step (h : PipeInv a path args p s) (hstep : PipeStep a path args p s t) : PipeInv a path args p t := by
  cases hstep with
  | child hchild => exact h.child hchild
  | parent hparent => exact h.parent hparent
  | signal => exact ⟨h.outcome, h.killed, h.shut, h.writes, h.known⟩

theorem PipeInv.forked : PipeInv a path args p (.forked signals) := ⟨rfl, nofun, nofun, rfl, rfl⟩

theorem PipeInv.of_run (h : Run (PipeStep a path args p) n (.forked signals) t) : PipeInv a path args p t :=
  h.keeps .forked fun _ _ => PipeInv.step

/-! ### How long a run is -/

/-- How many calls the child makes at most. -/
def ChildState.left : ChildState → Nat
  | .closeRead => 6
  | .traceme => 5
  | .malloc => 4
  | .wordexp _ => 3
  | .dprintf _ _ | .closeWrite _ => 2
  | .closeReport _ _ | .execvp _ => 1
  | .ended _ | .killed => 0

/-- How many calls the parent makes at most, but for those that are interrupted. -/
def ParentState.left : ParentState → Nat
  | .closeWrite => 4
  | .read => 3
  | .closeRead _ => 2
  | .waitpid => 1
  | .ended _ => 0

def Processes.left (s : Processes) : Nat := s.child.left + s.parent.left + s.signals

theorem left_childStep (h : childStep a path args w c = some (c', w')) : c'.left < c.left := by
  unfold childStep at h
  split at h <;> (try split at h) <;> (try split at h) <;> cases h <;> simp [ChildState.left]

theorem left_parentStep (h : parentStep p c w q = some (q', w')) : q'.left < q.left := by
  cases q with
  | closeWrite =>
    simp only [parentStep] at h
    split at h <;> cases h <;> simp [ParentState.left]
  | read =>
    simp only [parentStep] at h
    split at h
    · cases h
      simp [ParentState.left]
    · split at h
      · cases h
        simp [ParentState.left]
      · split at h <;> cases h
        simp [ParentState.left]
  | closeRead bytesRead =>
    simp only [parentStep] at h
    split at h
    · cases h
      simp [ParentState.left]
    · split at h <;> cases h
      · simp [ParentState.left]
      · split <;> simp [ParentState.left]
  | waitpid =>
    simp only [parentStep] at h
    split at h
    · cases h
      simp [ParentState.left]
    · obtain ⟨status, -, heq⟩ := Option.map_eq_some_iff.mp h
      cases heq
      simp [ParentState.left]
  | ended => cases h

theorem left_step : ∀ s t, PipeStep a path args p s t → t.left < s.left := by
  intro s t h
  unfold Processes.left
  cases h with
  | child h =>
    have hlt := left_childStep h
    dsimp only
    omega
  | parent h =>
    have hlt := left_parentStep h
    dsimp only
    omega
  | signal _ h =>
    dsimp only
    omega

/-! ### The end of a run -/

theorem ended_of_childStep (h : childStep a path args w c = none) : (∃ e, c = .ended e) ∨ c = .killed := by
  cases c with
  | ended e => exact .inl ⟨e, rfl⟩
  | killed => exact .inr rfl
  | closeReport | execvp => cases h
  | _ =>
    simp only [childStep] at h
    split at h <;> (try split at h) <;> cases h

/-- The parent is held up by the child only. -/
theorem ended_of_parentStep (h : PipeInv a path args p s) (hchild : (∃ e, s.child = .ended e) ∨ s.child = .killed)
    (hstep : parentStep p s.child s.pipe s.parent = none) : ∃ e, s.parent = .ended e := by
  obtain ⟨c, q, w, signals⟩ := s
  obtain ⟨-, -, -, hwrites, hknown⟩ := h
  dsimp only at hchild hwrites hknown hstep ⊢
  have hnowrite : c.writes = false := by
    rcases hchild with ⟨e, rfl⟩ | rfl
    · rfl
    · rfl
  have hstatus : ∃ status, c.status = some status := by
    rcases hchild with ⟨_ | _, rfl⟩ | rfl
    · exact ⟨_, rfl⟩
    · exact ⟨_, rfl⟩
    · exact ⟨_, rfl⟩
  cases q with
  | ended e => exact ⟨e, rfl⟩
  | closeWrite =>
    simp only [parentStep] at hstep
    split at hstep <;> cases hstep
  | read =>
    simp only [parentStep, hknown.2.1, hwrites, hnowrite] at hstep
    split at hstep
    · cases hstep
    · split at hstep
      · cases hstep
      · simp at hstep
  | closeRead =>
    simp only [parentStep] at hstep
    split at hstep
    · cases hstep
    · split at hstep <;> cases hstep
  | waitpid =>
    obtain ⟨status, hstatus⟩ := hstatus
    simp only [parentStep, hstatus] at hstep
    split at hstep <;> cases hstep

/-- What the parent returns with if it runs once the child has ended. -/
def parentAfter (p : ParentAnswers) (e : ChildEnd) : ParentEnd :=
  match p.closeWrite, p.closeRead, p.read with
  | some f, _, _ => .closeFailed f
  | none, some f, _ => .closeFailed f
  | none, none, some f => .readFailed f
  | none, none, none =>
    if e.report.take reportBufferSize ≠ [] then .reported (e.report.take reportBufferSize)
    else
      match p.waitpid with
      | some f => .waitpidFailed f
      | none => .waited e.status

theorem Received.report {e : ChildEnd} {report : List Byte} (h : Received (.ended e) report) : report = e.report.take reportBufferSize := h.2

theorem status_ended {e : ChildEnd} : (ChildState.ended e).status = some e.status := by
  cases e <;> rfl

/-- What is known in the end. -/
theorem parentAfter_of_known {e : ParentEnd} {r : ChildEnd} (h : e.Known p c) (hc : c = .ended r ∨ c = .killed ∧ p.read.isSome) :
    e = parentAfter p r := by
  -- a child that a signal ended comes after a `read` that failed
  have hended : p.read = none → c = .ended r := fun hread => hc.resolve_right fun h => by simp [hread] at h
  cases e with
  | closeFailed f =>
    rcases h with h | ⟨h, h'⟩
    · simp only [parentAfter, h]
    · simp only [parentAfter, h, h']
  | readFailed f =>
    obtain ⟨h₁, h₂, h₃⟩ := h
    simp only [parentAfter, h₁, h₂, h₃]
  | waitpidFailed f =>
    obtain ⟨h₁, h₂, h₃, hwait, hreceived⟩ := h
    rw [hended h₃] at hreceived
    simp [parentAfter, h₁, h₂, h₃, hwait, ← hreceived.report]
  | reported report =>
    obtain ⟨h₁, h₂, h₃, hne, hreceived⟩ := h
    rw [hended h₃] at hreceived
    simp [parentAfter, h₁, h₂, h₃, hne, ← hreceived.report]
  | waited status =>
    obtain ⟨h₁, h₂, h₃, hwait, hreceived, hstatus⟩ := h
    rw [hended h₃, status_ended] at hstatus
    rw [hended h₃] at hreceived
    simp [parentAfter, h₁, h₂, h₃, hwait, ← hreceived.report, Option.some.inj hstatus]

/-- Where a run stops, neither process is held up by the other. -/
theorem PipeInv.of_stuck (h : PipeInv a path args p t) (hstuck : Stuck (PipeStep a path args p) t) :
    t.parent = .ended (parentAfter p (handleChild a path args)) ∧
      (t.child = .ended (handleChild a path args) ∨ t.child = .killed ∧ p.read.isSome) := by
  have hchild := ended_of_childStep (Option.eq_none_iff_forall_ne_some.mpr fun _ hstep => hstuck _ (.child hstep))
  have hparent := ended_of_parentStep h hchild (Option.eq_none_iff_forall_ne_some.mpr fun _ hstep => hstuck _ (.parent hstep))
  have hends : t.child = .ended (handleChild a path args) ∨ t.child = .killed ∧ p.read.isSome := by
    rcases hchild with ⟨r, hr⟩ | hkilled
    · have hout := h.outcome
      rw [hr] at hout ⊢
      exact .inl (congrArg _ hout)
    · exact .inr ⟨hkilled, h.killed hkilled⟩
  obtain ⟨e, he⟩ := hparent
  have hknown := h.known
  rw [he] at hknown ⊢
  exact ⟨congrArg _ (parentAfter_of_known hknown hends), hends⟩

/-- Every run is short, and where it stops the child has ended and the parent returns what it would have returned after it. Only
    where `read` failed, the child may have been ended by `SIGPIPE`. -/
theorem pipe_agrees (h : Run (PipeStep a path args p) n (.forked signals) t) :
    n ≤ 10 + signals ∧ (Stuck (PipeStep a path args p) t →
      t.parent = .ended (parentAfter p (handleChild a path args)) ∧
        (t.child = .ended (handleChild a path args) ∨ t.child = .killed ∧ p.read.isSome)) :=
  ⟨Nat.le_trans (Nat.le_add_right _ _) (h.length_le left_step), (PipeInv.of_run h).of_stuck⟩

/-- The child may not be traced. -/
def ChildAnswers.refused : ChildAnswers where
  closeRead := none
  closeWrite := none
  write := none
  traceme := some ⟨EPERM, by decide⟩
  malloc := true
  behind := ""
  wordexp _ := .ok []
  execvp _ _ := none

/-- Nothing fails. -/
def ParentAnswers.plain : ParentAnswers := ⟨none, none, none, none⟩

theorem exists_run : ∃ n t, Run (PipeStep .refused "/bin/true" none .plain) n (.forked 3) t ∧ Stuck (PipeStep .refused "/bin/true" none .plain) t :=
  Run.exists_stuck left_step _

theorem pipe_agrees_refused : ∃ t, Stuck (PipeStep .refused "/bin/true" none .plain) t ∧
    t.parent = .ended (.reported (reportBytes .ptraceError EPERM)) := by
  obtain ⟨n, t, hrun, hstuck⟩ := exists_run
  exact ⟨t, hstuck, ((pipe_agrees hrun).2 hstuck).1⟩

/-! ### What is seen before -/

theorem sent_of_past (h : c.Past) : c.sent = (c.outcome a path args).report := by
  cases c with
  | closeReport | ended => rfl
  | execvp argv =>
    simp only [ChildState.sent, ChildState.outcome]
    split <;> rfl
  | _ => exact h.elim

theorem PipeInv.received {report : List Byte} (h : PipeInv a path args p s) (hr : Received s.child report) :
    report = (handleChild a path args).report.take reportBufferSize := by
  rw [hr.2, sent_of_past hr.1, h.outcome]

theorem nil_of_take {report : List Byte} (h : [] = report.take reportBufferSize) : report = [] := by
  cases report with
  | nil => rfl
  | cons => cases h

/-- In every state of a run: what the parent has read is the report of the child, all of it and once. If it goes on to wait, the
    child has nothing to report and will not write. `SIGPIPE` ends the child only where `read` failed. And the parent waits
    until the child has ended or was replaced by the program. -/
theorem pipe_safe (h : Run (PipeStep a path args p) n (.forked signals) t) :
    (∀ report, t.parent = .closeRead (.ok report) ∨ t.parent = .ended (.reported report) →
      report = (handleChild a path args).report.take reportBufferSize) ∧
    (t.parent = .waitpid → (handleChild a path args).report = [] ∧ t.child.Past) ∧
    (t.child = .killed → p.read.isSome) ∧
    ∀ status, t.parent = .ended (.waited status) → t.child = .ended (handleChild a path args) ∧ status = (handleChild a path args).status := by
  have hinv := PipeInv.of_run h
  have hknown := hinv.known
  refine ⟨fun report hparent => ?_, fun hparent => ?_, hinv.killed, fun status hparent => ?_⟩
  · rcases hparent with hparent | hparent <;> rw [hparent] at hknown
    · exact hinv.received hknown.2.2
    · exact hinv.received hknown.2.2.2.2
  · rw [hparent] at hknown
    exact ⟨nil_of_take (hinv.received hknown.2.2.2), hknown.2.2.2.1⟩
  · rw [hparent] at hknown
    obtain ⟨-, -, hread, -, hreceived, hstatus⟩ := hknown
    rcases ended_of_status hstatus with ⟨r, hr⟩ | hkilled
    · have hout := hinv.outcome
      rw [hr] at hout hstatus ⊢
      obtain rfl : r = handleChild a path args := hout
      exact ⟨rfl, by simpa [status_ended] using hstatus.symm⟩
    · simpa [hread] using hinv.killed hkilled

theorem pipe_safe_refused : ∃ n t, Run (PipeStep .refused "/bin/true" none .plain) n (.forked 3) t ∧ t.child ≠ .killed := by
  obtain ⟨n, t, hrun, -⟩ := exists_run
  exact ⟨n, t, hrun, fun hkilled => nomatch (pipe_safe hrun).2.2.1 hkilled⟩

end Protocol

end Sylvan
