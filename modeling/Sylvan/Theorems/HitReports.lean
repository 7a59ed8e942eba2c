import Sylvan.Op
import Sylvan.Theorems.Breakpoints

/-! What a wait that sees a stop reports. The code looks at the `si_code` and at `rip` only, so a stop by another
    signal, or at the address of an entry that is not installed, passes for a hit. -/

namespace Sylvan
open Exec

/-- A blocking `sylvan_update_inf_status` finds that the process was stopped by `sig`, at state `t`, and may ask where. -/
structure SeesStop (env : Env) (s : State) (sig : Nat) (t : State) : Prop where
  traced : 0 < s.inf.pid
  waited : Sys.retry (Sys.waitpid env s.inf.pid) env.retries s = .ok (.ok (.stopped sig)) t
  siginfo : env.ptrace t.scratch.clock = none
  regs : env.ptrace (t.scratch.clock + 1) = none

/-- The stop is the one after the `int3` that entry `i` put there. -/
structure HitOf (s : State) (sig : Nat) (i : Nat) : Prop where
  signal : (sig : Int) = SIGTRAP
  kernel : s.proc.siginfo.siCode = SI_KERNEL
  lt : i < s.inf.count
  installed : (s.inf.slot i).isEnabledPhy = true
  entry : (s.inf.slot i).addr = s.proc.rip - 1

/-- A hit is reported when there is one, and then by its number. -/
structure ReportsHits (env : Env) (s : State) (sig : Nat) : Prop where
  complete : ∀ i, HitOf s sig i → ∃ u, updateInfStatus env true s = .error .breakpointHit u
  sound : ∀ u, updateInfStatus env true s = .error .breakpointHit u → ∃ i, HitOf s sig i ∧
    u.scratch.lastError.message = messageText (s!"breakpoint {i} at " ++ hexAlt (s.inf.slot i).addr.toNat)

section
variable {env : Env} {s t : State} {sig i : Nat}

/-! ### The report -/

theorem siginfo_granted (h : env.ptrace s.scratch.clock = none) {code : Code} {text : String} :
    checked env code text (Sys.ptraceGetsiginfo env) s = .ok s.proc.siginfo (s.withScratch s.scratch.tick) := by
  refine checked_ok ?_
  rw [Sys.ptraceGetsiginfo, h]

theorem getregs_granted (h : env.ptrace s.scratch.clock = none) {code : Code} {text : String} :
    checked env code text (Sys.ptraceGetregs env) s = .ok s.proc.regs (s.withScratch s.scratch.tick) := by
  refine checked_ok ?_
  rw [Sys.ptraceGetregs, h]

theorem reportStop_other (h0 : env.ptrace s.scratch.clock = none) (h1 : env.ptrace (s.scratch.clock + 1) = none)
    (hother : s.proc.siginfo.siCode ≠ SI_KERNEL) : ∃ u, reportStop env s = .error .procStopped u := by
  have hregs : env.ptrace (s.withScratch s.scratch.tick).scratch.clock = none := h1
  unfold reportStop
  rw [bind_of_ok (siginfo_granted h0), bind_of_ok (getregs_granted hregs), when_true hother]
  exact ⟨_, rfl⟩

/-- A stop that the kernel raised is looked up in the table. -/
theorem reportStop_kernel (h0 : env.ptrace s.scratch.clock = none) (h1 : env.ptrace (s.scratch.clock + 1) = none)
    (hkernel : s.proc.siginfo.siCode = SI_KERNEL) :
    (breakpointFindByAddr s.inf (s.proc.rip - 1) = none → ∃ u, reportStop env s = .ok () u) ∧
    ∀ i, breakpointFindByAddr s.inf (s.proc.rip - 1) = some i → ∃ u, reportStop env s = .error .breakpointHit u ∧
      u.scratch.lastError.message = messageText (s!"breakpoint {i} at " ++ hexAlt (s.inf.slot i).addr.toNat) := by
  have hregs : env.ptrace (s.withScratch s.scratch.tick).scratch.clock = none := h1
  unfold reportStop
  rw [bind_of_ok (siginfo_granted h0), bind_of_ok (getregs_granted hregs), when_false (not_not.mpr hkernel), pure_bind]
  refine ⟨fun hnone => ⟨s.withScratch s.scratch.tick.tick, Eq.trans (bind_of_ok rfl) ?_⟩,
    fun i hi => ⟨s.withScratch (s.scratch.tick.tick.withError .breakpointHit _), Eq.trans (bind_of_ok rfl) ?_, rfl⟩⟩
  · rw [withScratch_inf, withScratch_inf, withScratch_proc, show s.proc.regs .rip = s.proc.rip from rfl, hnone]
    rfl
  · rw [withScratch_inf, withScratch_inf, withScratch_proc, show s.proc.regs .rip = s.proc.rip from rfl, hi]
    rfl

/-! ### The wait -/

theorem SeesStop.state (h : SeesStop env s sig t) : ∃ x, t = (s.record (.waited s.inf.pid (.stopped sig))).withScratch x := by
  have hwp : wp (fun _ _ => True) (Sys.retry (Sys.waitpid env s.inf.pid) env.retries)
      (fun r t => ∀ st, r = .ok st → ∃ x, t = (s.record (.waited s.inf.pid st)).withScratch x) (fun _ _ => True) s :=
    wp_retry_waitpid (fun _ => trivial) (fun st x _ st' hst => by cases hst; exact ⟨x, rfl⟩) fun _ _ st hst => by cases hst
  exact hwp.ok h.waited _ rfl

theorem SeesStop.update (h : SeesStop env s sig t) :
    updateInfStatus env true s = reportStop env (t.setInf { t.inf with status := .stopped }) := by
  have hguard : Exec.when (s.inf.pid ≤ 0) (setMessage .invalidState "Program is not being run") s = .ok () s := by
    rw [when_false (Int.not_le.mpr h.traced)]
    rfl
  unfold updateInfStatus
  rw [bind_of_ok (show Exec.get s = .ok s s from rfl), bind_of_ok hguard]
  rw [if_pos rfl, bind_of_ok h.waited]
  rfl

theorem SeesStop.inf (h : SeesStop env s sig t) : t.inf = s.inf := by
  obtain ⟨x, rfl⟩ := h.state
  rfl

theorem SeesStop.proc (h : SeesStop env s sig t) : (t.setInf { t.inf with status := .stopped }).proc = s.proc := by
  obtain ⟨x, rfl⟩ := h.state
  rfl

/-- What the code takes for a hit of entry `i`: the kernel raised the stop, and the entry is for the address before
    `rip`. -/
structure TakenFor (s : State) (i : Nat) : Prop where
  kernel : s.proc.siginfo.siCode = SI_KERNEL
  lt : i < s.inf.count
  entry : (s.inf.slot i).addr = s.proc.rip - 1

theorem HitOf.taken (h : HitOf s sig i) : TakenFor s i := ⟨h.kernel, h.lt, h.entry⟩

section Distinct
variable (h : SeesStop env s sig t) (hd : SlotTable.Distinct Breakpoint.addr s.inf.slot s.inf.count)
include h hd

/-- What is taken for a hit is reported as one. -/
theorem hit_of_taken (htaken : TakenFor s i) : ∃ u, updateInfStatus env true s = .error .breakpointHit u ∧
    u.scratch.lastError.message = messageText (s!"breakpoint {i} at " ++ hexAlt (s.inf.slot i).addr.toNat) := by
  have hreport := (reportStop_kernel (s := t.setInf { t.inf with status := .stopped }) h.siginfo h.regs (by rw [h.proc]; exact htaken.kernel)).2 i
  rw [h.proc, setInf_inf] at hreport
  obtain ⟨u, hu, hmessage⟩ := hreport (h.inf.symm ▸ hd.find_iff.mpr ⟨htaken.lt, htaken.entry⟩)
  exact ⟨u, h.update.trans hu, h.inf ▸ hmessage⟩

/-- What is reported as a hit was taken for one. -/
theorem taken_of_hit {u : State} (hrun : updateInfStatus env true s = .error .breakpointHit u) : ∃ i, TakenFor s i := by
  rw [h.update] at hrun
  by_cases hkernel : s.proc.siginfo.siCode = SI_KERNEL
  · have hreport := (reportStop_kernel (s := t.setInf { t.inf with status := .stopped }) h.siginfo h.regs (by rw [h.proc]; exact hkernel)).1
    cases hfind : breakpointFindByAddr s.inf (s.proc.rip - 1) with
    | none =>
      obtain ⟨v, hv⟩ := hreport (by rw [h.proc]; exact h.inf.symm ▸ hfind)
      cases hv.symm.trans hrun
    | some i =>
      obtain ⟨hi, haddr⟩ := hd.find_iff.mp hfind
      exact ⟨i, hkernel, hi, haddr⟩
  · obtain ⟨v, hv⟩ := reportStop_other (s := t.setInf { t.inf with status := .stopped }) h.siginfo h.regs (by rw [h.proc]; exact hkernel)
    cases hv.symm.trans hrun

end Distinct

/-- The reports are right unless what is taken for a hit is another signal, or an entry that is not installed. -/
theorem hits_reported_iff (env : Env) (s t : State) (sig : Nat) (h : SeesStop env s sig t)
    (hd : SlotTable.Distinct Breakpoint.addr s.inf.slot s.inf.count) :
    ReportsHits env s sig ↔
      ¬∃ i, TakenFor s i ∧ ¬((sig : Int) = SIGTRAP ∧ (s.inf.slot i).isEnabledPhy = true) := by
  constructor
  · rintro hreports ⟨i, htaken, hwrong⟩
    obtain ⟨u, hu, -⟩ := hit_of_taken h hd htaken
    obtain ⟨j, hj, -⟩ := hreports.sound u hu
    obtain rfl : j = i := hd j i hj.lt htaken.lt (hj.entry.trans htaken.entry.symm)
    exact hwrong ⟨hj.signal, hj.installed⟩
  · intro hright
    refine ⟨fun i hi => ?_, fun u hu => ?_⟩
    · obtain ⟨u, hu, -⟩ := hit_of_taken h hd hi.taken
      exact ⟨u, hu⟩
    · obtain ⟨i, htaken⟩ := taken_of_hit h hd hu
      obtain ⟨hsig, hphy⟩ : (sig : Int) = SIGTRAP ∧ (s.inf.slot i).isEnabledPhy = true :=
        Classical.not_not.mp fun hwrong => hright ⟨i, htaken, hwrong⟩
      obtain ⟨v, hv, hmessage⟩ := hit_of_taken h hd htaken
      cases hv.symm.trans hu
      exact ⟨i, ⟨hsig, htaken.kernel, htaken.lt, hphy, htaken.entry⟩, hmessage⟩

end

/-- A wait is told that `sig` stopped the process. -/
def Env.stopping (sig : Nat) : Env := { Env.compliant with waitpid := fun _ => .ok (.stopped sig) }

/-- Process 7 after the address of the breakpoint, with a stop that the kernel raised -/
def State.stopAfter (s : State) : State :=
  s.setProc 7 { s.proc with regs := Function.update s.proc.regs .rip 4097, siginfo := ⟨SIGTRAP, SI_KERNEL⟩ }

theorem sees_stop {s : State} (sig : Nat) (hpid : s.inf.pid = 7) :
    SeesStop (Env.stopping sig) s sig ((s.record (.waited s.inf.pid (.stopped sig))).withScratch s.scratch.tick) :=
  ⟨by rw [hpid]; decide, rfl, rfl, rfl⟩

theorem hits_reported_iff_hit : ReportsHits (Env.stopping 5) State.withBreakpoint.stopAfter 5 := by
  refine (hits_reported_iff (Env.stopping 5) State.withBreakpoint.stopAfter _ 5 (sees_stop 5 (by decide +kernel)) (by decide +kernel)).mpr ?_
  rintro ⟨i, htaken, hwrong⟩
  obtain rfl : i = 0 := by
    have hone : State.withBreakpoint.stopAfter.inf.count = 1 := by decide +kernel
    have hlt := htaken.lt
    omega
  exact hwrong ⟨rfl, by decide +kernel⟩

/-- The breakpoint at address 4096 was disabled. -/
def State.withDisabled : State := State.withBreakpoint.after (breakpointDisable .compliant 4096)

/-- A fault of the process is reported as a hit, and so is its own `int3` at the address of a disabled entry. -/
theorem false_hits :
    (SlotTable.Distinct Breakpoint.addr State.withBreakpoint.stopAfter.inf.slot State.withBreakpoint.stopAfter.inf.count ∧
      ¬ReportsHits (Env.stopping 11) State.withBreakpoint.stopAfter 11) ∧
    (SlotTable.Distinct Breakpoint.addr State.withDisabled.stopAfter.inf.slot State.withDisabled.stopAfter.inf.count ∧
      ¬ReportsHits (Env.stopping 5) State.withDisabled.stopAfter 5) := by
  refine ⟨⟨by decide +kernel, fun h => ?_⟩, ⟨by decide +kernel, fun h => ?_⟩⟩
  · obtain ⟨i, hi, -⟩ := h.sound _ (State.after_error (by decide +kernel))
    exact absurd hi.signal (by decide)
  · obtain ⟨i, hi, -⟩ := h.sound _ (State.after_error (by decide +kernel))
    obtain rfl : i = 0 := by
      have hone : State.withDisabled.stopAfter.inf.count = 1 := by decide +kernel
      have := hi.lt
      omega
    exact absurd hi.installed (by decide +kernel)

end Sylvan
