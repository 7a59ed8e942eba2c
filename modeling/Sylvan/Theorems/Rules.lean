import Sylvan.Inferior

/-! Rules for the system calls and for the ways an error is returned. A call that the library only learns
    an answer from changes nothing but the scratch part of the state, and its rule asks for the
    postcondition at every scratch part. -/

namespace Sylvan
open Exec

section
variable {α : Type} {F : Fault → State → Prop} {Q : α → State → Prop} {E : Code → State → Prop} {s : State}

/-! ### Errors -/

@[simp] theorem wp_setMessage {code : Code} {text : String} :
    wp F (setMessage code text : SylvanM α) Q E s ↔
      E code (s.withScratch (s.scratch.withError code (messageText text))) := Iff.rfl

@[simp] theorem wp_setCode {code : Code} :
    wp F (setCode code : SylvanM α) Q E s ↔ E code (s.withScratch (s.scratch.withError code (strerror code))) :=
  Iff.rfl

@[simp] theorem wp_setErrnoMsg {env : Env} {code : Code} {text : String} :
    wp F (setErrnoMsg env code text : SylvanM α) Q E s ↔
      E code (s.withScratch (s.scratch.withError code (errnoText text (env.strerror s.scratch.errno)))) := Iff.rfl

@[simp] theorem wp_getErrno {Q : Errno → State → Prop} : wp F getErrno Q E s ↔ Q s.scratch.errno s := Iff.rfl

@[simp] theorem wp_setErrno {e : Errno} {Q : Unit → State → Prop} :
    wp F (setErrno e) Q E s ↔ Q () (s.withScratch (s.scratch.withErrno e)) := Iff.rfl

theorem wp_returnCode {code : Code} {Q : Unit → State → Prop} (hQ : ∀ x, Q () (s.withScratch x))
    (hE : ∀ x, E code (s.withScratch x)) : wp F (returnCode code) Q E s := by
  unfold returnCode
  split
  · exact hQ _
  · exact hE _

@[simp] theorem wp_assert {c : Prop} [Decidable c] {Q : Unit → State → Prop} :
    wp F (assert c) Q E s ↔ if c then Q () s else F .assertFailed s := by
  unfold assert
  rw [wp_when, wp_fault]
  by_cases h : c <;> simp [h]

theorem wp_handled {call : SylvanM (Except Errno α)} {onError : Errno → SylvanM α}
    (h : wp F call (fun r t => match r with | .ok a => Q a t | .error e => wp F (onError e) Q E t) E s) :
    wp F (handled call onError) Q E s := by
  refine h.bind (fun r t hr => ?_) fun _ _ => id
  cases r with
  | ok a => exact hr
  | error e => exact hr

theorem wp_checked {env : Env} {code : Code} {text : String} {call : SylvanM (Except Errno α)}
    (h : wp F call (fun r t => match r with | .ok a => Q a t | .error _ => ∀ x, E code (t.withScratch x)) E s) :
    wp F (checked env code text call) Q E s := by
  refine wp_handled (h.imp (fun r t hr => ?_) fun _ _ => id)
  cases r with
  | ok a => exact hr
  | error e => exact hr _

section Answers
variable {env : Env} {code : Code} {text : String} {call : SylvanM (Except Errno α)} {t : State}

theorem checked_ok {a : α} (h : call s = .ok (.ok a) t) : checked env code text call s = .ok a t := by
  unfold checked handled
  rw [bind_of_ok h]
  rfl

end Answers

end

/-! ### System calls -/

/-- Some request of `ptrace` fails. -/
def Env.Refuses (env : Env) : Prop := ∃ n e, env.ptrace n = some e

/-- Some wait is answered with `st`. -/
def Env.Tells (env : Env) (st : WaitStatus) : Prop :=
  (∃ n, env.waitpid n = .ok st) ∨ ∃ n, env.waitpidNohang n = .ok (some st)

section Calls
variable {α : Type} {env : Env} {F : Fault → State → Prop} {E : Code → State → Prop} {s : State} {pid : Pid}

@[simp] theorem wp_tick {Q : Nat → State → Prop} :
    wp F Sys.tick Q E s ↔ Q s.scratch.clock (s.withScratch s.scratch.tick) := Iff.rfl

theorem wp_malloc_iff {Q : Bool → State → Prop} :
    wp F (Sys.malloc env) Q E s ↔ Q (env.malloc s.scratch.clock) (s.withScratch s.scratch.tick) := Iff.rfl

theorem wp_malloc {Q : Bool → State → Prop} (h : ∀ b x, Q b (s.withScratch x)) : wp F (Sys.malloc env) Q E s :=
  wp_malloc_iff.mpr (h _ _)

theorem wp_answered {answer : Nat → Except Failure α} {Q : Except Errno α → State → Prop}
    (h : ∀ r x, Q r (s.withScratch x)) : wp F (Sys.answered answer) Q E s := by
  unfold wp Sys.answered
  cases answer s.scratch.clock with
  | error e => exact h _ _
  | ok a => exact h _ _

theorem wp_answered_answer {answer : Nat → Except Failure α} {Q : Except Errno α → State → Prop}
    (hok : ∀ a, answer s.scratch.clock = .ok a → Q (.ok a) (s.withScratch s.scratch.tick))
    (herr : ∀ e, answer s.scratch.clock = .error e → Q (.error e.errno) (s.withScratch (s.scratch.fail e))) :
    wp F (Sys.answered answer) Q E s := by
  unfold wp Sys.answered
  cases h : answer s.scratch.clock with
  | error e => exact herr e h
  | ok a => exact hok a h

theorem wp_plain {answer : Nat → Option Failure} {Q : Except Errno Unit → State → Prop}
    (h : ∀ r x, Q r (s.withScratch x)) : wp F (Sys.plain answer) Q E s := wp_answered h

theorem wp_plain_answer {answer : Nat → Option Failure} {Q : Except Errno Unit → State → Prop}
    (hok : answer s.scratch.clock = none → Q (.ok ()) (s.withScratch s.scratch.tick))
    (herr : ∀ e, answer s.scratch.clock = some e → Q (.error e.errno) (s.withScratch (s.scratch.fail e))) :
    wp F (Sys.plain answer) Q E s := by
  unfold wp Sys.plain Sys.answered
  cases h : answer s.scratch.clock with
  | none =>
    simp only [h]
    exact hok h
  | some e =>
    simp only [h]
    exact herr e h

/-- A call that succeeds was granted. -/
theorem wp_plain_granted {answer : Nat → Option Failure} {Q : Except Errno Unit → State → Prop}
    (hok : answer s.scratch.clock = none → ∀ x, Q (.ok ()) (s.withScratch x))
    (herr : ∀ e x, Q (.error e) (s.withScratch x)) : wp F (Sys.plain answer) Q E s :=
  wp_plain_answer (fun h => hok h _) fun _ _ => herr _ _

theorem wp_kill {sig : Int} {Q : Except Errno Unit → State → Prop}
    (hok : ∀ x, Q (.ok ()) ((s.record (.kill pid sig none)).withScratch x))
    (herr : ∀ e x, Q (.error e) ((s.record (.kill pid sig (some e))).withScratch x)) :
    wp F (Sys.kill env pid sig) Q E s := by
  unfold wp Sys.kill
  cases env.kill s.scratch.clock with
  | none => exact hok _
  | some e => exact herr _ _

theorem wp_waitpid {Q : Except Errno WaitStatus → State → Prop}
    (hok : ∀ st x, (∃ n, env.waitpid n = .ok st) → Q (.ok st) ((s.record (.waited pid st)).withScratch x))
    (herr : ∀ e x, Q (.error e) (s.withScratch x)) : wp F (Sys.waitpid env pid) Q E s := by
  unfold wp Sys.waitpid
  cases h : env.waitpid s.scratch.clock with
  | error e => exact herr _ _
  | ok a => exact hok _ _ ⟨_, h⟩

theorem wp_waitpidNohang {Q : Except Errno (Option WaitStatus) → State → Prop}
    (hsome : ∀ st x, (∃ n, env.waitpidNohang n = .ok (some st)) → Q (.ok (some st)) ((s.record (.waited pid st)).withScratch x))
    (hnone : ∀ x, Q (.ok none) (s.withScratch x))
    (herr : ∀ e x, (∃ n f, env.waitpidNohang n = .error f ∧ f.errno = e) → Q (.error e) (s.withScratch x)) :
    wp F (Sys.waitpidNohang env pid) Q E s := by
  unfold wp Sys.waitpidNohang
  rcases h : env.waitpidNohang s.scratch.clock with e | _ | st
  · exact herr _ _ ⟨_, e, h, rfl⟩
  · exact hnone _
  · exact hsome _ _ ⟨_, h⟩

/-- A loop that retries interrupted calls ends with what its last call was answered. -/
theorem wp_retry {call : SylvanM (Except Errno α)} {Q : Except Errno α → State → Prop}
    (hF : ∀ x, F .interrupted (s.withScratch x)) (n : Nat)
    (h : ∀ x, wp F call (fun r t => (r ≠ .error EINTR → Q r t) ∧ ((∃ e, r = .error e) → ∃ y, t = (s.withScratch y))) E
      (s.withScratch x)) :
    wp F (Sys.retry call n) Q E s := by
  suffices loop : ∀ x, wp F (Sys.retry call n) Q E (s.withScratch x) from loop s.scratch
  induction n with
  | zero => exact hF
  | succ n ih =>
    intro x
    refine (h x).bind ?_ fun _ _ => id
    intro r t hpost
    obtain ⟨hQ, hquiet⟩ := hpost
    cases r with
    | ok a => exact hQ fun h => by cases h
    | error e =>
      obtain ⟨y, rfl⟩ := hquiet ⟨e, rfl⟩
      dsimp only
      split
      · exact ih y
      · rename_i he
        exact hQ fun h => he (Except.error.inj h)

theorem wp_retry_waitpid {Q : Except Errno WaitStatus → State → Prop} {n : Nat}
    (hF : ∀ x, F .interrupted (s.withScratch x))
    (hok : ∀ st x, (∃ n, env.waitpid n = .ok st) → Q (.ok st) ((s.record (.waited pid st)).withScratch x))
    (herr : ∀ e x, Q (.error e) (s.withScratch x)) : wp F (Sys.retry (Sys.waitpid env pid) n) Q E s :=
  wp_retry hF n fun _ => wp_waitpid (fun st y hst => ⟨fun _ => hok st y hst, fun ⟨_, h⟩ => by cases h⟩)
    fun e y => ⟨fun _ => herr e y, fun _ => ⟨y, rfl⟩⟩

/-- A wait that fails leaves its `errno`. -/
theorem wp_retry_waitpid_errno {Q : Except Errno WaitStatus → State → Prop} {n : Nat}
    (hF : ∀ x, F .interrupted (s.withScratch x)) (hok : ∀ st x, Q (.ok st) ((s.record (.waited pid st)).withScratch x))
    (herr : ∀ x, Q (.error x.errno) (s.withScratch x)) : wp F (Sys.retry (Sys.waitpid env pid) n) Q E s := by
  refine wp_retry hF n fun x => ?_
  unfold wp Sys.waitpid
  cases env.waitpid (s.withScratch x).scratch.clock with
  | error e => exact ⟨fun _ => herr (x.fail e), fun _ => ⟨_, rfl⟩⟩
  | ok st => exact ⟨fun _ => hok st _, fun ⟨_, h⟩ => by cases h⟩

theorem wp_retry_waitpidNohang {Q : Except Errno (Option WaitStatus) → State → Prop} {n : Nat}
    (hF : ∀ x, F .interrupted (s.withScratch x))
    (hsome : ∀ st x, (∃ n, env.waitpidNohang n = .ok (some st)) → Q (.ok (some st)) ((s.record (.waited pid st)).withScratch x))
    (hnone : ∀ x, Q (.ok none) (s.withScratch x))
    (herr : ∀ e x, e ≠ EINTR → (∃ n f, env.waitpidNohang n = .error f ∧ f.errno = e) → Q (.error e) (s.withScratch x)) :
    wp F (Sys.retry (Sys.waitpidNohang env pid) n) Q E s :=
  wp_retry hF n fun _ => wp_waitpidNohang (fun st y hst => ⟨fun _ => hsome st y hst, fun ⟨_, h⟩ => by cases h⟩)
    (fun y => ⟨fun _ => hnone y, fun ⟨_, h⟩ => by cases h⟩) fun e y he =>
      ⟨fun hne => herr e y (fun h => hne (h ▸ rfl)) he, fun _ => ⟨y, rfl⟩⟩

theorem wp_ptracePeek {addr : Addr} {Q : Word → State → Prop}
    (hok : ∀ x, x.errno = 0 → Q (ByteMemory.peek 64 s.proc.mem addr) (s.withScratch x))
    (herr : ∀ x, x.errno ≠ 0 → Q (-1) (s.withScratch x)) : wp F (Sys.ptracePeek env addr) Q E s := by
  unfold wp Sys.ptracePeek
  cases env.ptrace s.scratch.clock with
  | none => exact hok _ rfl
  | some e => exact herr _ e.nonzero

theorem wp_ptracePoke {addr : Addr} {data : Word} {Q : Except Errno Unit → State → Prop}
    (hok : ∀ x, Q (.ok ()) ((s.setMem (ByteMemory.poke s.proc.mem addr data)).withScratch x))
    (herr : ∀ e x, Q (.error e) (s.withScratch x)) : wp F (Sys.ptracePoke env addr data) Q E s := by
  unfold wp Sys.ptracePoke
  cases env.ptrace s.scratch.clock with
  | none => exact hok _
  | some e => exact herr _ _

theorem ptracePoke_granted {addr : Addr} {w : Word} (h : env.ptrace s.scratch.clock = none) :
    Sys.ptracePoke env addr w s =
      .ok (.ok ()) ((s.setMem (ByteMemory.poke s.proc.mem addr w)).withScratch s.scratch.tick) := by
  rw [Sys.ptracePoke, h]

theorem ptracePoke_refused {addr : Addr} {w : Word} (h : env.ptrace s.scratch.clock ≠ none) :
    ∃ e x, Sys.ptracePoke env addr w s = .ok (.error e) (s.withScratch x) := by
  obtain ⟨e, he⟩ := Option.ne_none_iff_exists'.mp h
  refine ⟨e.errno, s.scratch.fail e, ?_⟩
  rw [Sys.ptracePoke, he]

theorem poke_granted {code : Code} {text : String} {addr : Addr} {w : Word} (h : env.ptrace s.scratch.clock = none) :
    checked env code text (Sys.ptracePoke env addr w) s =
      .ok () ((s.setMem (ByteMemory.poke s.proc.mem addr w)).withScratch s.scratch.tick) :=
  checked_ok (ptracePoke_granted h)

theorem wp_ptraceGetregs {Q : Except Errno UserRegs → State → Prop}
    (hok : ∀ x, Q (.ok s.proc.regs) (s.withScratch x))
    (herr : env.Refuses → ∀ e x, Q (.error e) (s.withScratch x)) : wp F (Sys.ptraceGetregs env) Q E s := by
  unfold wp Sys.ptraceGetregs
  cases h : env.ptrace s.scratch.clock with
  | none => exact hok _
  | some e => exact herr ⟨_, _, h⟩ _ _

theorem wp_ptraceSetregs {regs : UserRegs} {Q : Except Errno Unit → State → Prop}
    (hok : ∀ x, Q (.ok ()) ((s.setProc s.inf.pid { s.proc with regs }).withScratch x))
    (herr : env.Refuses → ∀ e x, Q (.error e) (s.withScratch x)) : wp F (Sys.ptraceSetregs env regs) Q E s := by
  unfold wp Sys.ptraceSetregs
  cases h : env.ptrace s.scratch.clock with
  | none => exact hok _
  | some e => exact herr ⟨_, _, h⟩ _ _

theorem wp_ptraceGetsiginfo {Q : Except Errno SigInfo → State → Prop}
    (hok : ∀ x, Q (.ok s.proc.siginfo) (s.withScratch x))
    (herr : ∀ e x, Q (.error e) (s.withScratch x)) : wp F (Sys.ptraceGetsiginfo env) Q E s := by
  unfold wp Sys.ptraceGetsiginfo
  cases env.ptrace s.scratch.clock with
  | none => exact hok _
  | some e => exact herr _ _

theorem wp_ptraceResume {req : Request} {Q : Except Errno Unit → State → Prop}
    (hok : ∀ t x, Q (.ok ())
      (((s.record (.request req s.inf.pid s.inf s.proc none)).setProc s.inf.pid (env.exec t s.proc)).withScratch x))
    (herr : ∀ e x, Q (.error e) ((s.record (.request req s.inf.pid s.inf s.proc (some e))).withScratch x)) :
    wp F (Sys.ptraceResume env req) Q E s := by
  unfold wp Sys.ptraceResume
  cases env.ptrace s.scratch.clock with
  | none => exact hok _ _
  | some e => exact herr _ _

/-- `ptrace` was asked to resume the process, and answered with `failed`. -/
structure State.Asked (s t : State) (req : Request) (failed : Option Errno) : Prop where
  trace : t.trace = s.trace ++ [.request req s.inf.pid s.inf s.proc failed]
  inf : t.inf = s.inf

/-- The process has gone on, or the request was refused. -/
theorem wp_resumeRequest {req : Request} {code : Code} {text : String} {Q : Unit → State → Prop}
    (hok : ∀ now t, s.Asked t req none → t.proc = env.exec now s.proc → Q () t)
    (herr : ∀ e t, s.Asked t req (some e) → E code t) : wp F (checked env code text (Sys.ptraceResume env req)) Q E s := by
  refine wp_checked (wp_ptraceResume (fun now x => ?_) fun e x y => ?_)
  · exact hok now _ ⟨rfl, rfl⟩ (Function.update_self ..)
  · exact herr e _ ⟨rfl, rfl⟩

theorem wp_ptraceAttach {Q : Except Errno Unit → State → Prop}
    (hok : ∀ p x, 0 < pid → Q (.ok ())
      (((s.record (.request .attach pid s.inf p none)).setProc pid p).withScratch x))
    (herr : ∀ e x, Q (.error e) ((s.record (.request .attach pid s.inf (s.procs pid) (some e))).withScratch x)) :
    wp F (Sys.ptraceAttach env pid) Q E s := by
  unfold wp Sys.ptraceAttach
  cases h : Sys.attachFailure env pid s.scratch.clock with
  | some e => exact herr _ _
  | none =>
    refine hok _ _ ?_
    by_cases hpid : 0 < pid
    · exact hpid
    · simp [Sys.attachFailure, hpid] at h

theorem wp_fork {Q : Except Errno Child → State → Prop}
    (hok : ∀ c x, Q (.ok c) (((s.record (.forked c.pid c.image)).setProc c.pid c.image).withScratch x))
    (herr : ∀ e x, Q (.error e) (s.withScratch x)) : wp F (Sys.fork env) Q E s := by
  unfold wp Sys.fork
  cases env.fork s.scratch.clock with
  | error e => exact herr _ _
  | ok a => exact hok _ _

end Calls

/-! ### States -/

section States
variable {s : State} {x y : Scratch} {inf : Inferior} {pid : Pid} {p : Process} {m : Memory} {e : Event}

@[simp] theorem setProc_inf : (s.setProc pid p).inf = s.inf := rfl
@[simp] theorem setProc_trace : (s.setProc pid p).trace = s.trace := rfl
@[simp] theorem setMem_inf : (s.setMem m).inf = s.inf := rfl
@[simp] theorem setMem_trace : (s.setMem m).trace = s.trace := rfl
@[simp] theorem setInf_inf : (s.setInf inf).inf = inf := rfl
@[simp] theorem setInf_procs : (s.setInf inf).procs = s.procs := rfl
@[simp] theorem setInf_trace : (s.setInf inf).trace = s.trace := rfl
@[simp] theorem record_inf : (s.record e).inf = s.inf := rfl
@[simp] theorem record_procs : (s.record e).procs = s.procs := rfl
@[simp] theorem record_proc : (s.record e).proc = s.proc := rfl
@[simp] theorem record_trace : (s.record e).trace = s.trace ++ [e] := rfl
@[simp] theorem withScratch_inf : (s.withScratch x).inf = s.inf := rfl
@[simp] theorem withScratch_procs : (s.withScratch x).procs = s.procs := rfl
@[simp] theorem withScratch_proc : (s.withScratch x).proc = s.proc := rfl
@[simp] theorem withScratch_scratch : (s.withScratch x).scratch = x := rfl
@[simp] theorem withScratch_trace : (s.withScratch x).trace = s.trace := rfl

@[simp] theorem Scratch.tick_clock : x.tick.clock = x.clock + 1 := rfl

@[simp] theorem setProc_proc : (s.setProc s.inf.pid p).proc = p := by
  simp only [State.proc, State.setProc, Function.update_self]

@[simp] theorem setMem_proc : (s.setMem m).proc = { s.proc with mem := m } := setProc_proc

theorem setInf_proc (h : inf.pid = s.inf.pid) : (s.setInf inf).proc = s.proc := by
  simp only [State.proc, setInf_inf, setInf_procs, h]

end States

end Sylvan
