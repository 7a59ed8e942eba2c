import Sylvan.Op
import Sylvan.Theorems.Aside
import Sylvan.Theorems.Stepping

/-! Whether a process is set back before it goes on. `sylvan_continue` and `sylvan_stepinst` set it back just where
    the entry for `rip - 1` is installed, whatever the process stopped for. -/

namespace Sylvan
open Exec Trail

/-- If the process went on between `s` and `t`, it first went on as `P` says. -/
def FirstGoes (P : Process → Prop) (s t : State) : Prop := ∃ ps, Resumed s t ps ∧ ∀ p, ps.head? = some p → P p

/-- The process is set back over the entry before its `rip` where that is installed, whose saved byte is put back. -/
structure State.GoesOn (t : State) (proc : Process) : Prop where
  back : ∀ i, t.inf.InstalledAt (t.proc.rip - 1) i →
    proc.rip = t.proc.rip - 1 ∧ proc.mem (t.proc.rip - 1) = (t.inf.slot i).ogByte
  stay : (∀ i, ¬t.inf.InstalledAt (t.proc.rip - 1) i) → proc.rip = t.proc.rip

/-- From `s` to `t` no process goes on. -/
def Silent (s t : State) : Prop := Resumed s t []

instance : IsPreorder State Silent where
  refl := Adds.refl
  trans _ _ _ h h' := Adds.quiet h h'

section
variable {env : Env} {P P' : Process → Prop} {s t u v : State} {i : Nat} {addr : Addr} {orig : Byte} {proc : Process}
  {ps : List Process} {α : Type}

/-! ### The first process that goes on -/

theorem FirstGoes.of_silent (h : Silent s t) : FirstGoes P s t := ⟨[], h, fun _ hp => by cases hp⟩

theorem FirstGoes.of_cons (h : Resumed s t (proc :: ps)) (hp : P proc) : FirstGoes P s t :=
  ⟨proc :: ps, h, fun _ heq => Option.some.inj heq ▸ hp⟩

theorem FirstGoes.quiet (h : FirstGoes P s t) (h' : Silent t u) : FirstGoes P s u := by
  obtain ⟨ps, hps, hp⟩ := h
  exact ⟨ps, hps.quiet h', hp⟩

theorem Silent.firstGoes (h : Silent s t) (h' : FirstGoes P' t u) (hP : ∀ p, P' p → P p) : FirstGoes P s u := by
  obtain ⟨ps, hps, hp⟩ := h'
  exact ⟨ps, List.nil_append ps ▸ h.trans hps, fun p heq => hP p (hp p heq)⟩

/-- Once the process went on as `P` says, nothing that follows changes that. -/
theorem FirstGoes.of_grows (h : Resumed s t (proc :: ps)) (hp : P proc) (h' : Grows t u) : FirstGoes P s u := by
  obtain ⟨ps', hps'⟩ := h'
  exact of_cons (h.trans hps') hp

theorem FirstGoes.firstResumed (h : FirstGoes P s t) (hp : s.firstResumed t = some proc) : P proc := by
  obtain ⟨ps, hps, hfirst⟩ := h
  exact hfirst proc (hps.findSome?.symm.trans hp)

theorem Aside.silent (h : Aside s t) : Silent s t := adds_of_eq (congrArg Life.trace h.life)

theorem State.Edited.silent (h : s.Edited t) : Silent s t := adds_of_eq h.trace

theorem grows_resume {req : Request} {code : Code} {text : String} :
    Keeps Grows (checked env code text (Sys.ptraceResume env req)) := fun _ =>
  wp_resumeRequest (fun _ _ h _ => ⟨_, [_], h.trace, rfl⟩) fun _ _ h => ⟨_, [_], h.trace, rfl⟩

theorem grows_enablePtr : Keeps Grows (breakpointEnablePtr env i) := edited_enablePtr.imp fun _ _ h => ⟨_, h.silent⟩

/-! ### Resuming -/

/-- The process goes on from where it is. -/
theorem wp_resume_first {req : Request} {code : Code} {text : String} (hreq : req ≠ .attach) :
    wp (fun _ v => FirstGoes (· = u.proc) u v) (do
      checked env code text (Sys.ptraceResume env req)
      updateInfStatus env true) (fun _ v => FirstGoes (· = u.proc) u v) (fun _ v => FirstGoes (· = u.proc) u v) u := by
  rw [wp_bind]
  refine wp_resumeRequest (fun _ v hv _ => ?_) fun e v hv => ?_
  · have hgone : Resumed u v [u.proc] := adds_picked hv.trace (by cases req <;> first | rfl | exact absurd rfl hreq)
    exact (grows_updateInfStatus v).mono (fun _ _ hg => .of_grows hgone rfl hg) (fun _ _ hg => .of_grows hgone rfl hg)
      fun _ _ hg => .of_grows hgone rfl hg
  · exact .of_silent (adds_skipped hv.trace (by cases req <;> rfl))

/-- `sylvan_continue` and `sylvan_stepinst` differ in what they do once a breakpoint at `rip` is passed. -/
theorem wp_resumption {tail : Bool → SylvanM Unit} (ht : t.inf.TableOk) (hgrows : ∀ b, Keeps Grows (tail b))
    (htail : ∀ u, wp (fun _ v => FirstGoes (· = u.proc) u v) (tail false) (fun _ v => FirstGoes (· = u.proc) u v)
      (fun _ v => FirstGoes (· = u.proc) u v) u) :
    wp (fun _ v => FirstGoes t.GoesOn t v) (do
      validateProcessState env
      let b ← passBreakpoint env
      tail b) (fun _ v => FirstGoes t.GoesOn t v) (fun _ v => FirstGoes t.GoesOn t v) t := by
  rw [wp_bind]
  refine (wp_validateProcessState picksRequests_resumed (fun _ _ h => .of_silent h) fun _ _ h => .of_silent h).imp
    ?_ fun _ _ => id
  intro _ u hpost
  obtain ⟨hstays, hst, hquiet⟩ := hpost
  rw [wp_bind]
  unfold passBreakpoint
  rw [wp_bind, wp_attempt]
  have hproc : u.proc = t.proc := hstays.proc
  have hat : ∀ {i}, u.inf.InstalledAt (u.proc.rip - 1) i → t.inf.InstalledAt (t.proc.rip - 1) i := fun h =>
    hproc ▸ hstays.installedAt.mp h
  have htu := hstays.entries.tableOk ht
  refine wp_handleBreakpointAtCurrentAddr htu (Or.inr hst) (fun hnone x => ?_) (fun _ c x hc => ?_) (fun i hi c x hc => ?_)
    fun i hi x => ?_
  · dsimp only
    rw [wp_ite, if_pos rfl]
    have hhere : ∀ p, p = (u.withScratch x).proc → t.GoesOn p := by
      rintro p rfl
      refine ⟨fun i hi => absurd ?_ (hnone i), fun _ => congrArg Process.rip hproc⟩
      rw [hproc]
      exact hstays.installedAt.mpr hi
    have hsilent : Silent t (u.withScratch x) := hquiet
    exact (htail (u.withScratch x)).mono (fun _ _ h => hsilent.firstGoes h hhere) (fun _ _ h => hsilent.firstGoes h hhere)
      fun _ _ h => hsilent.firstGoes h hhere
  · dsimp only
    rw [wp_ite, if_neg hc]
    exact .of_silent hquiet
  · dsimp only
    rw [wp_ite, if_neg hc]
    exact .of_silent hquiet
  · -- The process steps from the address of the entry, whose byte is put back.
    generalize hw : (u.stepping i).withScratch x = w
    have hwproc : w.proc = (u.stepping i).proc := by rw [← hw]; rfl
    have hwsilent : Silent t w := hquiet.quiet (adds_of_eq (by rw [← hw]; rfl))
    have hgo : t.GoesOn w.proc := by
      rw [hwproc]
      refine ⟨fun j hj => ?_, fun hnone => absurd (hat hi) (hnone i)⟩
      have hij : j = i := by
        have := hj.1.symm.trans (hat hi).1
        exact Option.some.inj this
      subst hij
      have hstep := stepping_at (htu.lt hi.lt) hi.addr_eq
      rwa [hproc, hstays.slot] at hstep
    rw [wp_bind]
    refine wp_resumeRequest (fun _ v hv _ => ?_) fun e v hv => ?_
    · have hgone : Resumed t v [w.proc] := hwsilent.trans (adds_picked hv.trace rfl)
      have hdone : ∀ v', Grows v v' → FirstGoes t.GoesOn t v' := fun v' hg => .of_grows hgone hgo hg
      have htails : ∀ b v', Grows v v' → wp (fun _ v => FirstGoes t.GoesOn t v) (tail b) (fun _ v => FirstGoes t.GoesOn t v)
          (fun _ v => FirstGoes t.GoesOn t v) v' := fun b v' hg =>
        (hgrows b v').mono (fun _ _ h => hdone _ (trans_of Grows hg h)) (fun _ _ h => hdone _ (trans_of Grows hg h))
          fun _ _ h => hdone _ (trans_of Grows hg h)
      refine ((Keeps.bind grows_updateInfStatus fun _ => grows_enablePtr) v).mono (fun _ v' hg => ?_) (fun c v' hg => ?_)
        fun _ v' hg => hdone v' hg
      · exact htails true v' hg
      · rw [wp_ite]
        split
        · exact htails false v' hg
        · exact hdone v' hg
    · dsimp only
      rw [wp_ite, if_neg (by decide)]
      exact .of_silent (hwsilent.quiet (adds_skipped hv.trace rfl))

theorem wp_cont_first (ht : t.inf.TableOk) :
    wp (fun _ v => FirstGoes t.GoesOn t v) (cont env) (fun _ v => FirstGoes t.GoesOn t v) (fun _ v => FirstGoes t.GoesOn t v) t :=
  wp_resumption ht (fun _ => Keeps.bind grows_resume fun _ => grows_updateInfStatus) fun _ => wp_resume_first (by decide)

theorem wp_stepinst_first (ht : t.inf.TableOk) :
    wp (fun _ v => FirstGoes t.GoesOn t v) (stepinst env) (fun _ v => FirstGoes t.GoesOn t v)
      (fun _ v => FirstGoes t.GoesOn t v) t :=
  wp_resumption ht (fun _ => Keeps.ite (fun _ => Keeps.pure _) fun _ => Keeps.bind grows_resume fun _ => grows_updateInfStatus)
    fun _ => wp_resume_first (by decide)

/-- `sylvan_continue` and `sylvan_stepinst` leave `rip` alone just where no entry for `rip - 1` is installed. -/
theorem no_rewind_iff (ht : t.inf.TableOk) {op : Op} (hop : op = .cont ∨ op = .stepinst) (hends : (op.call env).Ends t u)
    (hfirst : t.firstResumed u = some proc) :
    proc.rip = t.proc.rip ↔ ∀ i, ¬t.inf.InstalledAt (t.proc.rip - 1) i := by
  have hgo : t.GoesOn proc := by
    rcases hop with rfl | rfl
    · exact ((wp_cont_first ht).ends hends).firstResumed hfirst
    · exact ((wp_stepinst_first ht).ends hends).firstResumed hfirst
  constructor
  · intro hrip i hi
    have hback := (hgo.back i hi).1
    rw [hrip] at hback
    bv_omega
  · exact hgo.stay

theorem no_rewind_iff_cont :
    let t := State.withBreakpoint.after (setRegs .compliant fun _ => 4097)
    let u := t.after (cont .compliant)
    ∃ proc, t.firstResumed u = some proc ∧
      (proc.rip = t.proc.rip ↔ ∀ i, ¬t.inf.InstalledAt (t.proc.rip - 1) i) := by
  intro t u
  obtain ⟨proc, hproc⟩ : ∃ proc, t.firstResumed u = some proc := Option.isSome_iff_exists.mp (by decide +kernel)
  have hends : (Op.cont.call .compliant).Ends t u := Or.inl (Or.inr ⟨.procStopped, State.after_error (by decide +kernel)⟩)
  exact ⟨proc, hproc, no_rewind_iff (by decide +kernel) (Or.inl rfl) hends hproc⟩

/-- The user sets `rip` to an address after a breakpoint; the process goes on from the breakpoint. -/
theorem rewind_after_setRegs :
    let t := State.withBreakpoint.after (setRegs .compliant fun _ => 4097)
    Reachable .compliant t ∧ t.proc.siginfo.siCode ≠ SI_KERNEL ∧ t.proc.rip = 4097 ∧
      (t.firstResumed (t.after (cont .compliant))).map Process.rip = some 4096 :=
  ⟨State.withBreakpoint_reachable.step (.setRegs fun _ => 4097) (by decide +kernel)
    (Or.inl ⟨(), State.after_ok (by decide +kernel)⟩), by decide +kernel, by decide +kernel, by decide +kernel⟩

end

end Sylvan
