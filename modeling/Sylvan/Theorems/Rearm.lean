import Sylvan.Theorems.AfterHit

/-! A breakpoint that is stepped over stays disarmed. The wait for the step reports every stop by a nonzero code,
    which `sylvan_handle_breakpoint_at_current_addr` takes for a failure and returns before it enables the
    breakpoint again. -/

namespace Sylvan
open Exec Trail

/-- Entry `i` is enabled and installed in a process with the memory `m`, and the other entries are those of `old`. -/
structure Rearmed (old : Inferior) (i : Nat) (inf : Inferior) (m : Memory) : Prop where
  log : (inf.slot i).isEnabledLog = true
  phy : (inf.slot i).isEnabledPhy = true
  trap : m (old.slot i).addr = 0xCC
  count : inf.breakpointCount = old.breakpointCount
  others : ∀ j, j < old.count → j ≠ i → inf.slot j = old.slot j

/-- A wait that does not block finds no change, or another stop. -/
def Env.FindsStopped (env : Env) : Prop :=
  ∀ n, match env.waitpidNohang n with
    | .ok none => True
    | .ok (some st) => ∃ sig, st = .stopped sig
    | .error e => e.errno = EINTR

/-- The requests of `PTRACE_CONT`. -/
def Event.continues : Event → Option (Inferior × Process)
  | .request .cont _ inf proc _ => some (inf, proc)
  | _ => none

/-- From `s` to `t` no `PTRACE_CONT` was requested. -/
abbrev NotContinued (s t : State) : Prop := Trail.Adds State.trace Event.continues s t []

section
variable {env : Env} {F : Fault → State → Prop} {s t u : State} {i : Nat} {addr : Addr} {orig : Byte}

theorem picksRequests_continues : PicksRequests Event.continues := ⟨fun _ _ _ => rfl, fun _ _ => rfl⟩

/-! ### Waiting -/

theorem wp_reportStop_trapped (hcode : s.proc.siginfo.siCode ≠ SI_KERNEL) :
    wp F (reportStop env) (fun _ _ => False) (fun c _ => c ≠ .breakpointNotFound) s := by
  unfold reportStop
  rw [wp_bind]
  refine wp_checked (wp_ptraceGetsiginfo (fun x => ?_) fun e x y => by simp)
  dsimp only
  rw [wp_bind]
  refine wp_checked (wp_ptraceGetregs (fun y => ?_) fun _ e x y => by simp)
  dsimp only
  rw [wp_bind, wp_when, if_pos hcode]
  simp

/-- A wait for a process that stops, but not for an `int3`, never returns `SYLVANC_OK`, and no code of it stands
    for a breakpoint that was not found. -/
theorem wp_updateInfStatus_trapped (hwait : ∀ n, env.waitpid n ≠ .ok .continued)
    (hcode : s.proc.siginfo.siCode ≠ SI_KERNEL) :
    wp (fun _ _ => True) (updateInfStatus env true) (fun _ _ => False) (fun c _ => c ≠ .breakpointNotFound) s := by
  unfold updateInfStatus
  rw [wp_bind, wp_get, wp_bind, wp_when]
  split
  · simp
  rw [wp_ite, if_pos rfl, wp_bind]
  refine wp_retry_waitpid (fun _ => trivial) (fun st x hst => ?_) fun e x => ?_
  · cases st with
    | exited code => simp [statusChanged]
    | signaled sig => simp [statusChanged]
    | stopped sig =>
      unfold statusChanged
      rw [wp_bind]
      show wp _ _ _ _ (((s.noticed (.stopped sig)).withStatus .stopped).withScratch x)
      rw [wp_ite, if_pos rfl]
      exact wp_reportStop_trapped hcode
    | continued =>
      obtain ⟨n, hn⟩ := hst
      exact absurd hn (hwait n)
    | unknown => trivial
  · unfold waitFailed
    rw [wp_bind, wp_when]
    split
    · simp
    rw [wp_bind, wp_get, wp_bind]
    refine wp_kill (fun _ => (by decide : Code.procNotAttached ≠ .breakpointNotFound)) fun e x => ?_
    rw [wp_bind, wp_when]
    split
    · simp
    · simp [dissociate]

/-- A stopped process may be resumed. -/
theorem wp_validateProcessState_stopped (hpoll : env.FindsStopped) (live : 0 < s.inf.pid) (hst : s.inf.status = .stopped) :
    wp (fun _ _ => True) (validateProcessState env) (fun _ _ => True) (fun _ _ => False) s := by
  have hend : ∀ t : State, t.inf.status = .stopped → wp (fun _ _ => True) (do
      let inf := (← Exec.get).inf
      let pid := inf.pid
      Exec.when (inf.status ≠ .stopped)
        (if inf.status = .running then setMessage .procRunning s!"Process {pid} is already running"
          else setMessage .invalidState s!"Process {pid} is not in a stopped state")) (fun _ _ => True) (fun _ _ => False) t := by
    intro t ht
    rw [wp_bind, wp_get, wp_when, if_neg (not_not.mpr ht)]
    trivial
  unfold validateProcessState updateInfStatus
  rw [wp_bind, wp_bind, wp_get, wp_bind, wp_when, if_neg (Int.not_le.mpr live), wp_ite, if_neg (by decide), wp_bind]
  refine wp_retry_waitpidNohang (fun _ => trivial) (fun st x hsome => ?_) (fun x => hend _ hst) fun e x he hfailed => ?_
  · obtain ⟨n, hn⟩ := hsome
    have hpoll := hpoll n
    rw [hn] at hpoll
    obtain ⟨sig, rfl⟩ := hpoll
    exact hend (((s.noticed (.stopped sig)).withStatus .stopped).withScratch x) rfl
  · obtain ⟨n, f, hn, hf⟩ := hfailed
    have hpoll := hpoll n
    rw [hn] at hpoll
    exact absurd (hf.symm.trans hpoll) he

/-! ### Stepping over the breakpoint -/

theorem disarming_slot (hi : i < maxBreakpoints) : ((s.disarming i).inf.slot i).isEnabledLog = false := by
  unfold State.disarming
  rw [State.setLog_inf, Inferior.setLog, Inferior.slot_setSlot_self hi]

theorem stepping_slot (hi : i < maxBreakpoints) : ((s.stepping i).inf.slot i).isEnabledLog = false := by
  unfold State.stepping
  rw [State.uninstall_inf, Inferior.clearPhy, Inferior.slot_setSlot_self hi]
  exact disarming_slot hi

/-- From a process that is stopped after an installed breakpoint, whatever `tail` is. -/
theorem wp_resumption_trapped {tail : Bool → SylvanM Unit} (hhit : s.HitAt addr orig) (hi : s.inf.InstalledAt addr i)
    (hgranted : ¬env.Refuses) (hpoll : env.FindsStopped) (hwait : ∀ n, env.waitpid n ≠ .ok .continued)
    (hstep : ∀ n p, p.rip = addr → p.mem addr = (s.inf.slot i).ogByte → (env.exec n p).siginfo.siCode ≠ SI_KERNEL) :
    wp (fun _ t => NotContinued s t) (do
      validateProcessState env
      let b ← passBreakpoint env
      tail b) (fun _ _ => False) (fun _ t => NotContinued s t ∧ (t.inf.slot i).isEnabledLog = false) s := by
  have hstays : wp (fun _ t => NotContinued s t) (validateProcessState env)
      (fun _ t => s.Stays t ∧ t.inf.status = .stopped ∧ NotContinued s t) (fun _ _ => True) s :=
    wp_validateProcessState picksRequests_continues (fun _ _ h => h) fun _ _ _ => trivial
  have hvalid := hstays.and (wp_validateProcessState_stopped hpoll hhit.live hhit.stopped)
  rw [wp_bind]
  refine hvalid.imp ?_ fun _ _ h => h.2.elim
  intro _ u hpost
  obtain ⟨⟨hstays, hst, hquiet⟩, _⟩ := hpost
  rw [wp_bind]
  unfold passBreakpoint
  rw [wp_bind, wp_attempt]
  have hproc : u.proc = s.proc := hstays.proc
  have hback : u.proc.rip - 1 = addr := by
    rw [hproc, hhit.rip]
    bv_omega
  have htu := hstays.entries.tableOk hhit.tableOk
  have hiu : u.inf.InstalledAt addr i := hstays.installedAt.mpr hi
  have hmax := htu.lt hiu.lt
  have hfound : ∀ j, u.inf.InstalledAt (u.proc.rip - 1) j → j = i := fun j hj =>
    Option.some.inj (hj.1.symm.trans (hback.symm ▸ hiu.1))
  refine wp_handleBreakpointAtCurrentAddr htu (Or.inr hst) (fun hnone x => ?_) (fun hrefuses => absurd hrefuses hgranted)
    (fun j hj c x hc => ?_) fun j hj x => ?_
  · exact absurd (hback.symm ▸ hiu) (hnone i)
  · obtain rfl := hfound j hj
    dsimp only
    rw [wp_ite, if_neg hc]
    exact ⟨hquiet, disarming_slot hmax⟩
  · obtain rfl := hfound j hj
    generalize hw : (u.stepping j).withScratch x = w
    have hwquiet : NotContinued s w := hquiet.quiet (adds_of_eq (by rw [← hw]; rfl))
    have hwlog : (w.inf.slot j).isEnabledLog = false := hw ▸ stepping_slot hmax
    have hwproc : w.proc.rip = addr ∧ w.proc.mem addr = (s.inf.slot j).ogByte := by
      have : w.proc = (u.stepping j).proc := by rw [← hw]; rfl
      have hstep := stepping_at hmax (hiu.addr_eq.trans hback.symm)
      rwa [← this, hback, hstays.slot] at hstep
    rw [wp_bind]
    refine wp_resumeRequest (fun now v hv hvproc => ?_) fun e v hv => ?_
    · have hvquiet : NotContinued w v := adds_skipped hv.trace rfl
      have htrapped := wp_updateInfStatus_trapped (s := v) hwait (hvproc ▸ hstep now w.proc hwproc.1 hwproc.2)
      have hquiet' : ∀ z, NotContinued v z → NotContinued s z := fun z hz => (hwquiet.quiet hvquiet).quiet hz
      rw [wp_bind]
      refine ((wp_updateInfStatus (F := fun _ t => NotContinued s t) (fun x => hquiet' _ (adds_of_eq rfl)) fun _ _ x =>
        hquiet' _ (adds_skipped (e := .waited v.inf.pid .unknown) rfl rfl)).and htrapped).imp (fun _ _ h => h.2.elim)
        ?_
      intro c z hpost
      obtain ⟨hz, hc⟩ := hpost
      rw [wp_ite, if_neg hc]
      refine ⟨hquiet' z (hz.adds picksRequests_continues), ?_⟩
      rw [Inferior.slot, hz.breakpoints, hv.inf]
      exact hwlog
    · dsimp only
      rw [wp_ite, if_neg (by decide)]
      exact ⟨hwquiet.quiet (adds_skipped hv.trace rfl), hv.inf ▸ hwlog⟩

/-- After a hit, where every request succeeds and the single step ends in a trace trap, `sylvan_stepinst` never
    returns with the breakpoint armed, and `sylvan_continue` never gets to `PTRACE_CONT`. -/
theorem never_rearmed (hhit : s.HitAt addr orig) (hi : s.inf.InstalledAt addr i)
    (hgranted : ¬env.Refuses) (hpoll : env.FindsStopped) (hwait : ∀ n, env.waitpid n ≠ .ok .continued)
    (hstep : ∀ n p, p.rip = addr → p.mem addr = (s.inf.slot i).ogByte → (env.exec n p).siginfo.siCode ≠ SI_KERNEL) :
    (∀ t, (stepinst env).Returns s t → ¬Rearmed s.inf i t.inf t.proc.mem) ∧
    ∀ t, (cont env).Ends s t → ∀ pid inf proc failed, Event.request .cont pid inf proc failed ∉ s.since t := by
  constructor
  · intro t hret hrearmed
    have hstepinst : wp (fun _ t => NotContinued s t) (stepinst env) (fun _ _ => False)
        (fun _ t => NotContinued s t ∧ (t.inf.slot i).isEnabledLog = false) s :=
      wp_resumption_trapped hhit hi hgranted hpoll hwait hstep
    have hlog : (t.inf.slot i).isEnabledLog = false :=
      wp.returns (P := fun t => (t.inf.slot i).isEnabledLog = false)
        (hstepinst.imp (fun _ _ h => h.elim) fun _ _ h => h.2) hret
    rw [hrearmed.log] at hlog
    cases hlog
  · intro t hends pid inf proc failed hmem
    have hcont : wp (fun _ t => NotContinued s t) (cont env) (fun _ _ => False)
        (fun _ t => NotContinued s t ∧ (t.inf.slot i).isEnabledLog = false) s :=
      wp_resumption_trapped hhit hi hgranted hpoll hwait hstep
    have hquiet : NotContinued s t :=
      wp.ends (P := fun t => NotContinued s t) (hcont.imp (fun _ _ h => h.elim) fun _ _ h => h.1) hends
    cases hquiet.mem hmem rfl

theorem never_rearmed_hit :
    (∀ t, (stepinst .compliant).Returns State.hit t → ¬Rearmed State.hit.inf 0 t.inf t.proc.mem) ∧
      ∀ t, (cont .compliant).Ends State.hit t → ∀ pid inf proc failed,
        Event.request .cont pid inf proc failed ∉ State.hit.since t := by
  refine never_rearmed State.hit_hitAt ⟨by decide +kernel, by decide +kernel⟩ ?_ (fun _ => trivial) (fun _ h => by cases h) ?_
  · rintro ⟨n, e, h⟩
    cases h
  · intro n p hrip hmem
    have hbyte : (State.hit.inf.slot 0).ogByte = 0 := by decide +kernel
    have htrap : p.mem 4096 ≠ 0xCC := by
      rw [hmem, hbyte]
      decide
    simp only [Env.compliant, if_neg htrap]
    decide

/-- The step over the breakpoint is made, and its stop is returned as an error, with the breakpoint disarmed. -/
theorem step_over_disarms :
    Reachable .compliant State.hit ∧ State.hit.HitAt 4096 0 ∧
      (∀ op ∈ [stepinst .compliant, cont .compliant],
        (op State.hit).error? = some .procStopped ∧ (State.hit.after op).proc.siginfo.siCode = TRAP_TRACE ∧
          (State.hit.after op).inf.slot 0 = ⟨4096, 0, false, false⟩ ∧ (State.hit.after op).proc.mem 4096 = 0) :=
  ⟨State.hit_reachable, State.hit_hitAt, by
    intro op hop
    rcases List.mem_pair.mp hop with rfl | rfl <;> decide +kernel⟩

end

end Sylvan
