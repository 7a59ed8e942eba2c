import Sylvan.Theorems.Patches

/-! How a wait ends (`Waits`), and how the functions that give up a process end (`Yields`). -/

namespace Sylvan
open Exec

namespace State

/-- A status of the inferior's process was read. -/
def noticed (s : State) (st : WaitStatus) : State := s.record (.waited s.inf.pid st)

def withStatus (s : State) (status : InferiorState) : State := s.setInf { s.inf with status }

/-- The process ended. -/
def ended (s : State) (status : InferiorState) : State := s.setInf { s.inf with status, pid := 0 }

/-- The inferior has no process any more. -/
def dissociated (s : State) : State := s.setInf { s.inf with isAttached := false, pid := 0, status := .none }

end State

/-- The codes by which a caller is told that the process is gone. -/
def Code.IsGone (c : Code) : Prop := c = .procNotFound ∨ c = .procExited ∨ c = .procTerminated

instance (c : Code) : Decidable c.IsGone := inferInstanceAs (Decidable (_ ∨ _ ∨ _))

/-- What `sylvan_update_inf_status` makes of `s` when it returns: `none` for `SYLVANC_OK`, or another code. -/
inductive Waits (s : State) : Option Code → State → Prop where
  | unchanged (x : Scratch) (live : 0 < s.inf.pid) : Waits s none (s.withScratch x)
  | stopped (sig : Nat) (x : Scratch) (live : 0 < s.inf.pid) :
    Waits s none (((s.noticed (.stopped sig)).withStatus .stopped).withScratch x)
  | stoppedFor (code : Code) (sig : Nat) (x : Scratch) (live : 0 < s.inf.pid)
    (hcode : ¬code.IsGone) :
    Waits s (some code) (((s.noticed (.stopped sig)).withStatus .stopped).withScratch x)
  | running (x : Scratch) (live : 0 < s.inf.pid) :
    Waits s none (((s.noticed .continued).withStatus .running).withScratch x)
  | exited (code : Nat) (x : Scratch) (live : 0 < s.inf.pid) :
    Waits s (some .procExited) (((s.noticed (.exited code)).ended .exited).withScratch x)
  | terminated (sig : Nat) (x : Scratch) (live : 0 < s.inf.pid) :
    Waits s (some .procTerminated) (((s.noticed (.signaled sig)).ended .terminated).withScratch x)
  | failed (code : Code) (x : Scratch)
    (hcode : ¬code.IsGone) :
    Waits s (some code) (s.withScratch x)
  | untraced (code : Code) (failed : Option Errno) (x : Scratch) (live : 0 < s.inf.pid)
    (hcode : ¬code.IsGone) :
    Waits s (some code) ((s.record (.kill s.inf.pid 0 failed)).withScratch x)
  | lost (x : Scratch) (live : 0 < s.inf.pid) :
    Waits s (some .procNotFound) (((s.record (.kill s.inf.pid 0 (some ESRCH))).dissociated).withScratch x)

theorem Waits.breakpoints {s t : State} {c : Option Code} (hw : Waits s c t) : t.inf.breakpoints = s.inf.breakpoints := by
  cases hw <;> rfl

/-- A wait that succeeds leaves a live process. -/
theorem Waits.isActive {s t : State} (hw : Waits s none t) (hlive : 0 < s.inf.pid → s.inf.IsActive) : t.inf.IsActive := by
  cases hw with
  | unchanged x live => exact hlive live
  | stopped sig x live => exact Or.inr rfl
  | running x live => exact Or.inl rfl

section
variable {env : Env} {F : Fault → State → Prop} {s t : State} {Q : Unit → State → Prop} {E : Code → State → Prop}

/-- Where a process stopped is reported without an effect. -/
theorem wp_reportStop (hok : ∀ x, Q () (s.withScratch x))
    (herr : ∀ c x, ¬c.IsGone → E c (s.withScratch x)) :
    wp F (reportStop env) Q E s := by
  unfold reportStop
  rw [wp_bind]
  refine wp_checked (wp_ptraceGetsiginfo (fun x => ?_) fun e x y => herr _ _ (by simp [Code.IsGone]))
  dsimp only
  rw [wp_bind]
  refine wp_checked (wp_ptraceGetregs (fun y => ?_) fun _ e x y => herr _ _ (by simp [Code.IsGone]))
  dsimp only
  rw [wp_bind, wp_when]
  split
  · exact herr _ _ (by simp [Code.IsGone])
  · rw [wp_bind, wp_get]
    split
    · exact hok y
    · exact herr _ _ (by simp [Code.IsGone])

theorem wp_waitFailed (live : 0 < s.inf.pid) {e : Errno} {x : Scratch} :
    wp F (waitFailed env e) (fun _ t => Waits s none t) (fun c t => Waits s (some c) t) (s.withScratch x) := by
  unfold waitFailed
  rw [wp_bind, wp_when]
  split
  · exact .failed _ _ (by simp [Code.IsGone])
  rw [wp_bind, wp_get, wp_bind]
  refine wp_kill (fun x => .untraced _ none _ live (by simp [Code.IsGone])) fun e x => ?_
  rw [wp_bind, wp_when]
  split
  · exact .untraced _ (some e) _ live (by simp [Code.IsGone])
  · rename_i he
    obtain rfl := not_not.mp he
    exact .lost _ live

theorem wp_statusChanged (live : 0 < s.inf.pid) {blocking : Bool} {st : WaitStatus} {x : Scratch}
    (hF : st = .unknown → ∀ x, F .assertFailed ((s.noticed .unknown).withScratch x)) :
    wp F (statusChanged env blocking st) (fun _ t => Waits s none t) (fun c t => Waits s (some c) t)
      ((s.noticed st).withScratch x) := by
  cases st with
  | exited code => exact .exited code _ live
  | signaled sig => exact .terminated sig _ live
  | stopped sig =>
    unfold statusChanged
    rw [wp_bind]
    show wp F _ _ _ (((s.noticed (.stopped sig)).withStatus .stopped).withScratch x)
    rw [wp_ite]
    split
    · exact wp_reportStop (fun y => .stopped sig y live) fun c y hc => .stoppedFor c sig y live hc
    · exact .stopped sig x live
  | continued => exact .running x live
  | unknown => exact hF rfl x

theorem wp_updateInfStatus {blocking : Bool} (hF : ∀ x, F .interrupted (s.withScratch x))
    (hF' : 0 < s.inf.pid → env.Tells .unknown → ∀ x, F .assertFailed ((s.noticed .unknown).withScratch x)) :
    wp F (updateInfStatus env blocking) (fun _ t => Waits s none t) (fun c t => Waits s (some c) t) s := by
  unfold updateInfStatus
  rw [wp_bind, wp_get, wp_bind, wp_when]
  split
  · exact .failed _ _ (by simp [Code.IsGone])
  rename_i hpid
  have live : 0 < s.inf.pid := Int.not_le.mp hpid
  rw [wp_ite]
  split
  · rw [wp_bind]
    exact wp_retry_waitpid hF (fun st x hst => wp_statusChanged live fun h => hF' live (Or.inl (h ▸ hst)))
      fun e x => wp_waitFailed live
  · rw [wp_bind]
    exact wp_retry_waitpidNohang hF (fun st x hst => wp_statusChanged live fun h => hF' live (Or.inr (h ▸ hst)))
      (fun x => .unchanged x live) fun e x _ _ => wp_waitFailed live

end

end Sylvan
