import Sylvan.Theorems.Rewind
import Sylvan.Theorems.TableMap

/-! What a process that hit a breakpoint executes first when it goes on. The hit is recorded nowhere:
    `sylvan_continue` and `sylvan_stepinst` find the breakpoint in the table, if it is there still, and
    `sylvan_detach` does not look for it. -/

namespace Sylvan
open Exec Trail

section
variable {env : Env} {s t u : State} {addr : Addr} {orig : Byte} {proc : Process} {α : Type}

/-! ### Releasing -/

theorem silent_setErrnoMsg {code : Code} {text : String} : Keeps Silent (setErrnoMsg env code text : SylvanM α) := fun _ =>
  adds_of_eq rfl

theorem silent_dissociate : Keeps Silent dissociate := Keeps.modify fun _ => adds_of_eq rfl

theorem silent_kill : Keeps Silent (kill env) := by
  unfold kill
  refine Keeps.bind Keeps.get fun s => Keeps.ite (fun _ => Keeps.pure _) fun _ => ?_
  refine Keeps.bind (fun _ => wp_kill (fun _ => ?_) fun _ _ => ?_) fun r => ?_
  · exact adds_skipped rfl rfl
  · exact adds_skipped rfl rfl
  cases r with
  | error e => exact Keeps.bind (Keeps.when fun _ => silent_setErrnoMsg) fun _ => silent_dissociate
  | ok =>
    refine Keeps.bind (fun _ => wp_checked (wp_retry_waitpid (fun _ => ?_) (fun _ _ _ => ?_) fun _ _ _ => ?_))
      fun _ => silent_dissociate
    · exact adds_of_eq rfl
    · exact adds_skipped rfl rfl
    · exact adds_of_eq rfl

/-- A released process goes on from where it is. -/
theorem wp_release_first :
    wp (fun _ v => FirstGoes (·.rip = t.proc.rip) t v) (release env) (fun _ v => FirstGoes (·.rip = t.proc.rip) t v)
      (fun _ v => FirstGoes (·.rip = t.proc.rip) t v) t := by
  unfold release
  rw [wp_bind]
  refine (edited_unsetallPhybp t).mono (fun _ u hed => ?_) (fun _ u hed => .of_silent hed.silent) fun _ u hed => .of_silent hed.silent
  have hrip : u.proc.rip = t.proc.rip := by rw [hed.proc]; rfl
  have hsilent : ∀ v, Silent u v → FirstGoes (·.rip = t.proc.rip) t v := fun v hv => .of_silent (trans_of Silent hed.silent hv)
  rw [wp_bind]
  refine wp_handled (wp_ptraceResume (fun now x => ?_) fun e x => ?_)
  · have hgone : Resumed u ((u.record (.request .detach u.inf.pid u.inf u.proc none)).setProc u.inf.pid (env.exec now u.proc))
        [u.proc] := adds_picked (e := .request .detach u.inf.pid u.inf u.proc none) rfl rfl
    exact .of_cons (Adds.trans hed.silent hgone) hrip
  · have hrefused : ∀ v : State, v.trace = u.trace ++ [.request .detach u.inf.pid u.inf u.proc (some e)] → Silent u v := fun v hv =>
      adds_skipped hv rfl
    dsimp only
    rw [wp_when]
    split
    · exact hsilent _ (hrefused _ rfl)
    · exact hsilent _ (hrefused _ rfl)

theorem wp_detach_first :
    wp (fun _ v => FirstGoes (·.rip = t.proc.rip) t v) (detach env) (fun _ v => FirstGoes (·.rip = t.proc.rip) t v)
      (fun _ v => FirstGoes (·.rip = t.proc.rip) t v) t := by
  unfold detach
  rw [wp_bind, wp_get, wp_bind, wp_when]
  split
  · exact .of_silent (adds_of_eq rfl)
  rw [wp_bind, wp_attempt]
  refine (wp_updateInfStatus (fun x => .of_silent (adds_of_eq rfl)) fun _ _ x =>
    .of_silent (adds_skipped (e := .waited t.inf.pid .unknown) rfl rfl)).imp (fun _ u hw => ?_) fun c u hw => ?_
  · have hsilent : Silent t u := hw.resumed
    have hrip : u.proc.rip = t.proc.rip := by rw [hw.stays.proc]
    exact wp_release_first.mono (fun _ _ h => hsilent.firstGoes h fun _ hp => hp.trans hrip)
      (fun _ _ h => hsilent.firstGoes h fun _ hp => hp.trans hrip) fun _ _ h => hsilent.firstGoes h fun _ hp => hp.trans hrip
  · dsimp only
    rw [wp_when]
    split
    · exact .of_silent hw.resumed
    · exact .of_silent hw.resumed

theorem wp_destroy_first :
    wp (fun _ v => FirstGoes (·.rip = t.proc.rip) t v) (inferiorDestroy env) (fun _ v => FirstGoes (·.rip = t.proc.rip) t v)
      (fun _ v => FirstGoes (·.rip = t.proc.rip) t v) t := by
  unfold inferiorDestroy
  rw [wp_bind]
  refine (?_ : wp _ (terminateOrDetach env) (fun _ v => FirstGoes (·.rip = t.proc.rip) t v)
    (fun _ v => FirstGoes (·.rip = t.proc.rip) t v) t).imp (fun _ u hu => ?_) fun _ _ => id
  · unfold terminateOrDetach
    rw [wp_bind, wp_get, wp_ite]
    split
    · exact .of_silent (refl_of Silent t)
    · rw [wp_catching]
      refine (?_ : wp _ _ (fun _ v => FirstGoes (·.rip = t.proc.rip) t v)
        (fun _ v => FirstGoes (·.rip = t.proc.rip) t v) t).imp (fun _ _ => id) fun c u hu => ?_
      · rw [wp_ite]
        split
        · exact (silent_kill t).mono (fun _ _ h => .of_silent h) (fun _ _ h => .of_silent h) fun _ _ h => .of_silent h
        · exact wp_detach_first
      · rw [wp_when]
        split <;> exact hu
  · rw [wp_bind]
    exact (keeps_symDestroy (R := Aside) u).mono (fun _ v hv => (hu.quiet hv.silent).quiet (adds_skipped (e := .freed) rfl rfl))
      (fun _ v hv => hu.quiet hv.silent) fun _ v hv => hu.quiet hv.silent

/-! ### After a breakpoint was hit -/

/-- The process stopped for the `int3` of an installed breakpoint at `addr`, which replaced `orig`. -/
structure State.HitAt (s : State) (addr : Addr) (orig : Byte) : Prop where
  tableOk : s.inf.TableOk
  live : 0 < s.inf.pid
  stopped : s.inf.status = .stopped
  rip : s.proc.rip = addr + 1
  trap : s.proc.mem addr = 0xCC
  signal : s.proc.siginfo.siCode = SI_KERNEL
  installed : ∃ i, s.inf.InstalledAt addr i ∧ (s.inf.slot i).ogByte = orig

/-- A call on a breakpoint succeeds. -/
def EditStep (env : Env) (s t : State) : Prop := ∃ op : BreakpointOp, op.call env s = .ok () t

/-- The ways to let a process go on. -/
inductive Resumption where
  | cont
  | stepinst
  | detach
  | destroy
  deriving DecidableEq, Repr

def Resumption.op : Resumption → Op
  | cont => .cont
  | stepinst => .stepinst
  | detach => .detach
  | destroy => .destroy

/-- The call looks for breakpoints, and finds one at `addr` that is installed over `orig`. -/
def Resumption.Rewinds (t : State) (addr : Addr) (orig : Byte) : Resumption → Prop
  | cont => ∃ i, t.inf.InstalledAt addr i ∧ (t.inf.slot i).ogByte = orig
  | stepinst => ∃ i, t.inf.InstalledAt addr i ∧ (t.inf.slot i).ogByte = orig
  | detach => False
  | destroy => False

theorem edits_keep (ht : s.inf.TableOk) (h : Relation.ReflTransGen (EditStep env) s t) :
    t.inf.TableOk ∧ t.proc.rip = s.proc.rip := by
  induction h with
  | refl => exact ⟨ht, rfl⟩
  | tail _ hstep ih =>
    obtain ⟨op, hop⟩ := hstep
    obtain ⟨htu, hrip⟩ := ih
    have hed := (op.edited _).ok hop
    refine ⟨((op.wp_map (F := fun _ _ => True) htu).ok hop).1, ?_⟩
    rw [hed.proc]
    exact hrip

/-- After a hit at `addr`, and after any calls on breakpoints that succeed, a resumed or released process first
    executes the original instruction just where the resuming call finds the breakpoint at `addr` still
    installed over the original byte. -/
theorem original_instruction_first_iff (hhit : s.HitAt addr orig) (hedits : Relation.ReflTransGen (EditStep env) s t)
    {r : Resumption} (hends : (r.op.call env).Ends t u) (hfirst : t.firstResumed u = some proc) :
    proc.rip = addr ∧ proc.mem addr = orig ↔ r.Rewinds t addr orig := by
  obtain ⟨ht, hrip⟩ := edits_keep hhit.tableOk hedits
  have hripA : t.proc.rip = addr + 1 := hrip.trans hhit.rip
  have hback : t.proc.rip - 1 = addr := by rw [hripA]; bv_omega
  have hne : addr + 1 ≠ addr := by bv_omega
  have hgo : t.GoesOn proc → (proc.rip = addr ∧ proc.mem addr = orig ↔
      ∃ i, t.inf.InstalledAt addr i ∧ (t.inf.slot i).ogByte = orig) := by
    intro hgo
    constructor
    · rintro ⟨hproc, hmem⟩
      by_contra hnone
      by_cases hat : ∃ i, t.inf.InstalledAt addr i
      · obtain ⟨i, hi⟩ := hat
        have hbyte := (hgo.back i (hback.symm ▸ hi)).2
        rw [hback, hmem] at hbyte
        exact hnone ⟨i, hi, hbyte.symm⟩
      · have hhere := hgo.stay fun i hi => hat ⟨i, hback ▸ hi⟩
        rw [hproc, hripA] at hhere
        exact hne hhere.symm
    · rintro ⟨i, hi, rfl⟩
      have hgoes := hgo.back i (hback.symm ▸ hi)
      rw [hback] at hgoes
      exact hgoes
  have hstill : proc.rip = t.proc.rip → ¬(proc.rip = addr ∧ proc.mem addr = orig) := by
    rintro heq ⟨hproc, -⟩
    rw [heq, hripA] at hproc
    exact hne hproc
  cases r with
  | cont => exact hgo (((wp_cont_first ht).ends hends).firstResumed hfirst)
  | stepinst => exact hgo (((wp_stepinst_first ht).ends hends).firstResumed hfirst)
  | detach => exact iff_of_false (hstill ((wp_detach_first.ends hends).firstResumed hfirst)) id
  | destroy => exact iff_of_false (hstill ((wp_destroy_first.ends hends).firstResumed hfirst)) id

theorem State.hit_hitAt : State.hit.HitAt 4096 0 where
  tableOk := by decide +kernel
  live := by decide +kernel
  stopped := by decide +kernel
  rip := by decide +kernel
  trap := by decide +kernel
  signal := by decide +kernel
  installed := ⟨0, ⟨by decide +kernel, by decide +kernel⟩, by decide +kernel⟩

theorem original_instruction_first_iff_cont :
    let t := State.hit.after (breakpointSet .compliant 8192)
    ∃ proc, t.firstResumed (t.after (cont .compliant)) = some proc ∧ proc.rip = 4096 ∧ proc.mem 4096 = 0 := by
  intro t
  obtain ⟨proc, hproc⟩ : ∃ proc, t.firstResumed (t.after (cont .compliant)) = some proc := Option.isSome_iff_exists.mp (by decide +kernel)
  have hedit : EditStep .compliant State.hit t := ⟨.set 8192, State.after_ok (by decide +kernel)⟩
  have hends : (Resumption.cont.op.call .compliant).Ends t (t.after (cont .compliant)) :=
    Or.inl (Or.inr ⟨.procStopped, State.after_error (by decide +kernel)⟩)
  exact ⟨proc, hproc, (original_instruction_first_iff State.hit_hitAt (.single hedit) hends hproc).mpr
    ⟨0, ⟨by decide +kernel, by decide +kernel⟩, by decide +kernel⟩⟩

/-- A process that hit a breakpoint is released after it, and goes on after it where the breakpoint was unset. -/
theorem original_instruction_skipped :
    let t := State.hit.after (breakpointUnset .compliant 4096)
    Reachable .compliant State.hit ∧ State.hit.HitAt 4096 0 ∧
      (State.hit.firstResumed (State.hit.after (detach .compliant))).map Process.rip = some 4097 ∧
      (breakpointUnset .compliant 4096 State.hit).isOk = true ∧
      (t.firstResumed (t.after (cont .compliant))).map Process.rip = some 4097 :=
  ⟨State.hit_reachable, State.hit_hitAt, by decide +kernel, by decide +kernel, by decide +kernel⟩

end

end Sylvan
