import Sylvan.Theorems.NewProcess
import Sylvan.Theorems.StatusPid

/-! The assertions of `breakpoint.c` demand a live process. Every call finds one there, but for `sylvan_run`
    where the first wait for the child finds that a signal killed it. -/

namespace Sylvan
open Exec Trail

/-- The first thing that was learned of a forked child is that a signal killed it. -/
def ChildKilled (s t : State) : Prop :=
  ∃ pid image sig, [Event.forked pid image, .waited pid (.signaled sig)] <:+: s.since t

section
variable {env : Env} {α : Type} {E : Code → State → Prop} {s t u v w : State} {pid : Pid} {image : Process} {es : List Event}

/-- Whatever `x` does from `s`, no assertion fails. -/
def Asserts (x : SylvanM α) (s : State) : Prop := wp Orderly x (fun _ _ => True) (fun _ _ => True) s

theorem Asserts.of_failsWith {x : SylvanM α} (h : FailsWith Orderly (Told env fun _ => True) x) : Asserts x s :=
  (h s).imp (fun _ _ => id) fun _ _ _ => trivial

theorem Asserts.of_wp {x : SylvanM α} {Q : α → State → Prop} (h : wp Orderly x Q E s) : Asserts x s :=
  h.imp (fun _ _ _ => trivial) fun _ _ _ => trivial

/-! ### Waiting -/

theorem wp_updateInfStatus_orderly (htold : ¬env.Tells .unknown) {blocking : Bool} :
    wp Orderly (updateInfStatus env blocking) (fun _ t => Waits s none t) (fun c t => Waits s (some c) t) s :=
  wp_updateInfStatus (fun _ => orderly_interrupted _) fun _ h => absurd h htold

/-! ### Giving up a process -/

theorem release_asserts (ht : s.inf.TableOk) (hact : s.inf.IsActive) : Asserts (release env) s := by
  unfold Asserts release
  rw [wp_bind]
  refine (wp_breakpointUnsetallPhybp ht hact).imp (fun _ t _ => ?_) fun _ _ _ => trivial
  rw [wp_bind]
  refine wp_handled (wp_ptraceResume (fun _ _ => trivial) fun e x => ?_)
  dsimp only
  rw [wp_when]
  split <;> trivial

theorem detach_asserts (htold : ¬env.Tells .unknown) (ht : s.inf.TableOk) (hlive : 0 < s.inf.pid → s.inf.IsActive) :
    Asserts (detach env) s := by
  unfold Asserts detach
  rw [wp_bind, wp_get, wp_bind, wp_when]
  split
  · trivial
  rw [wp_bind, wp_attempt]
  refine (wp_updateInfStatus_orderly htold).imp (fun _ t hw => ?_) fun c t hw => ?_
  · exact release_asserts (hw.entries.tableOk ht) (hw.isActive hlive)
  · dsimp only
    rw [wp_when]
    split <;> trivial

theorem terminateOrDetach_asserts (htold : ¬env.Tells .unknown) (ht : s.inf.TableOk)
    (hlive : 0 < s.inf.pid → s.inf.IsActive) : Asserts (terminateOrDetach env) s := by
  unfold Asserts terminateOrDetach
  rw [wp_bind, wp_get, wp_ite]
  split
  · trivial
  rw [wp_catching]
  refine (?_ : wp Orderly _ (fun _ _ => True) (fun _ _ => True) s).imp (fun _ _ _ => trivial) fun c t _ => ?_
  · rw [wp_ite]
    split
    · exact Asserts.of_failsWith told_killProcess
    · exact detach_asserts htold ht hlive
  · rw [wp_when]
    split <;> trivial

theorem destroy_asserts (htold : ¬env.Tells .unknown) (ht : s.inf.TableOk) (hlive : 0 < s.inf.pid → s.inf.IsActive) :
    Asserts (inferiorDestroy env) s := by
  unfold Asserts inferiorDestroy
  rw [wp_bind]
  refine (terminateOrDetach_asserts htold ht hlive).imp (fun _ t _ => ?_) fun _ _ _ => trivial
  rw [wp_bind]
  exact trivial

/-! ### Attaching -/

theorem attachWait_asserts (htold : ¬env.Tells .unknown) : Asserts (attachWait env pid) s := by
  unfold Asserts attachWait
  rw [wp_bind, wp_attempt]
  have hwait : ∀ (path : Except Code String) u, Asserts (do
      let status ← handled (Sys.retry (Sys.waitpid env pid) env.retries) fun e =>
        if e = ECHILD then setMessage .procNotFound s!"Process {pid} disappeared during attach"
        else setErrnoMsg env .waitpidFailed "waitpid"
      attachedStatus pid status
      Exec.modify fun s => s.setInf { s.inf with pid, isAttached := true, realpath := path.toOption }) u := by
    intro path u
    unfold Asserts
    rw [wp_bind]
    refine wp_handled (wp_retry_waitpid (fun _ => orderly_interrupted _) (fun st x hst => ?_) fun e x => ?_)
    · dsimp only
      rw [wp_bind]
      cases st with
      | unknown => exact absurd (Or.inl hst) htold
      | _ => trivial
    · dsimp only
      rw [wp_ite]
      split <;> trivial
  have hpath : FailsWith Orderly (Told env fun _ => True) (realPathPid env pid) := told_realPath
  exact (hpath s).imp (fun path u _ => hwait (.ok path) u) fun c u _ => hwait (.error c) u

/-- What is left to do for a live process. -/
theorem reinstall_asserts (ht : s.inf.TableOk) (hact : s.inf.IsActive) : Asserts (do
    breakpointResetPhybp
    breakpointSetallPhybp env) s := by
  unfold Asserts
  rw [wp_bind]
  refine (wp_breakpointResetPhybp (E := fun _ _ => True) ht).imp ?_ fun _ _ => id
  intro _ t hpost
  obtain ⟨hed, hse, -⟩ := hpost
  exact Asserts.of_wp (wp_breakpointSetallPhybp (hse.tableOk ht) (hed.isActive.mpr hact))

theorem attach_asserts (htold : ¬env.Tells .unknown) (ht : s.inf.TableOk) (hlive : 0 < s.inf.pid → s.inf.IsActive) :
    Asserts (attach env pid) s := by
  refine wp_attach (fun _ _ _ => trivial) fun x => ?_
  generalize hv : (s.record (.kill pid 0 none)).withScratch x = v
  have hvinf : v.inf = s.inf := by rw [← hv]; rfl
  have htv : v.inf.TableOk := hvinf ▸ ht
  have hlivev : 0 < v.inf.pid → v.inf.IsActive := hvinf ▸ hlive
  have hlives : Lives .free v.life v := Relation.ReflTransGen.refl
  refine ((terminateOrDetach_asserts htold htv hlivev).and (wp_terminateOrDetach_life hlives htv Life.License.leaves_free)).imp ?_
    fun _ _ _ => trivial
  intro _ t hpost
  have htt : t.inf.TableOk := hpost.2.1.entries.tableOk htv
  refine ⟨fun _ _ _ => trivial, fun p z hz => ?_⟩
  unfold attachTaken
  rw [wp_bind]
  refine ((attachWait_asserts htold).and (wp_attachWait (F := fun _ _ => True) fun _ _ _ => trivial)).imp ?_
    fun _ _ _ => trivial
  intro _ u hpost
  have htaken := hpost.2
  have htu : u.inf.TableOk := htaken.entries.tableOk (hz.inf ▸ htt)
  rw [wp_bind]
  refine (wp_quiet keeps_symLoadTables told_symLoadTables).mono (fun _ w hw => ?_) (fun _ _ _ => trivial)
    fun _ _ h => h.2
  exact reinstall_asserts (hw.entries.tableOk htu) (hw.isActive.mpr htaken.isActive)

/-! ### Resuming -/

theorem wp_resume_orderly (htold : ¬env.Tells .unknown) {req : Request} {code : Code} {text : String} :
    wp Orderly (do
      checked env code text (Sys.ptraceResume env req)
      updateInfStatus env true) (fun _ t => s.inf.SameEntries t.inf) (fun _ _ => True) s := by
  rw [wp_bind]
  refine wp_checked (wp_ptraceResume (fun _ _ => ?_) fun _ _ _ => trivial)
  exact (wp_updateInfStatus_orderly htold).imp (fun _ _ hw => hw.entries) fun _ _ _ => trivial

theorem wp_validateProcessState_orderly (htold : ¬env.Tells .unknown) :
    wp Orderly (validateProcessState env) (fun _ t => s.inf.SameEntries t.inf) (fun _ _ => True) s := by
  unfold validateProcessState
  rw [wp_bind]
  refine (wp_updateInfStatus_orderly htold).imp (fun _ t hw => ?_) fun _ _ _ => trivial
  rw [wp_bind, wp_get, wp_when, wp_ite]
  split
  · split <;> trivial
  · exact hw.entries

theorem stepOver_asserts (htold : ¬env.Tells .unknown) {regs : UserRegs} {i : Nat} (ht : s.inf.TableOk) (hi : i < s.inf.count) :
    Asserts (stepOver env regs i) s := by
  unfold Asserts stepOver
  rw [wp_bind]
  refine wp_checked (wp_ptraceSetregs (fun x => ?_) fun _ e x y => trivial)
  dsimp only
  generalize hv : (s.setProc s.inf.pid { s.proc with regs := Function.update regs .rip (regs .rip - 1) }).withScratch x = v
  have hvinf : v.inf = s.inf := by rw [← hv]; rfl
  have htv : v.inf.TableOk := hvinf ▸ ht
  have hiv : i < v.inf.count := hvinf ▸ hi
  rw [wp_bind]
  refine (wp_breakpointDisablePtr_patched htv hiv).imp ?_ fun _ _ _ => trivial
  intro _ t hpost
  have htt : t.inf.TableOk := hpost.1.tableOk (setLog_tableOk htv hiv)
  have hit : i < t.inf.count := by
    rw [Inferior.count_congr hpost.1.count]
    exact hiv
  have hres := @wp_resume_orderly env t htold .singlestep .ptraceStepFailed "ptrace single step"
  rw [wp_bind] at hres ⊢
  refine hres.imp (fun _ u hu => wp_bind.mpr (hu.imp (fun _ w hw => ?_) fun _ _ _ => trivial)) fun _ _ _ => trivial
  have hiw : i < w.inf.count := by rwa [Inferior.count_congr hw.count]
  exact Asserts.of_wp (wp_breakpointEnablePtr_patched (hw.tableOk htt) hiw)

theorem wp_passBreakpoint_asserts (htold : ¬env.Tells .unknown) (ht : s.inf.TableOk) : Asserts (passBreakpoint env) s := by
  unfold Asserts passBreakpoint
  rw [wp_bind, wp_attempt]
  refine (?_ : Asserts (handleBreakpointAtCurrentAddr env) s).imp (fun _ _ _ => trivial) fun c t _ => ?_
  · unfold Asserts handleBreakpointAtCurrentAddr
    rw [wp_bind]
    refine wp_checked (wp_ptraceGetregs (fun x => ?_) fun _ e x y => trivial)
    dsimp only
    rw [wp_bind, wp_get]
    cases hfind : breakpointFindByAddr (s.withScratch x).inf (s.proc.regs .rip - 1) with
    | none => trivial
    | some i =>
      dsimp only
      rw [wp_ite]
      split
      · trivial
      · exact stepOver_asserts (s := s.withScratch x) htold ht (Inferior.find_some hfind).1
  · dsimp only
    rw [wp_ite]
    split <;> trivial

theorem cont_asserts (htold : ¬env.Tells .unknown) (ht : s.inf.TableOk) : Asserts (cont env) s := by
  unfold Asserts cont
  rw [wp_bind]
  refine (wp_validateProcessState_orderly htold).imp (fun _ t hse => ?_) fun _ _ _ => trivial
  rw [wp_bind]
  refine (wp_passBreakpoint_asserts htold (hse.tableOk ht)).imp (fun _ u _ => ?_) fun _ _ _ => trivial
  exact Asserts.of_wp (wp_resume_orderly htold)

theorem stepinst_asserts (htold : ¬env.Tells .unknown) (ht : s.inf.TableOk) : Asserts (stepinst env) s := by
  unfold Asserts stepinst
  rw [wp_bind]
  refine (wp_validateProcessState_orderly htold).imp (fun _ t hse => ?_) fun _ _ _ => trivial
  rw [wp_bind]
  refine (wp_passBreakpoint_asserts htold (hse.tableOk ht)).imp (fun b u _ => ?_) fun _ _ _ => trivial
  rw [wp_ite]
  split
  · trivial
  · exact Asserts.of_wp (wp_resume_orderly htold)

/-! ### Running -/

/-- In a list with one entry that `P` holds of, what follows an entry that `P` holds of is what follows that one. -/
theorem head?_of_adjacent {β : Type} {P : β → Prop} {x y z : β} {l r : List β} (hx : P x) (hl : ∀ e ∈ l, ¬P e)
    (hr : ∀ e ∈ r, ¬P e) (h : [x, y] <:+: l ++ z :: r) : r.head? = some y := by
  obtain ⟨p, q, h⟩ := h
  induction l generalizing p with
  | nil =>
    cases p with
    | nil =>
      simp only [List.nil_append, List.cons_append, List.cons.injEq] at h
      rw [← h.2]
      rfl
    | cons a p =>
      simp only [List.nil_append, List.cons_append, List.cons.injEq] at h
      have hmem : x ∈ r := by
        rw [← h.2]
        simp
      exact absurd hx (hr x hmem)
  | cons b l ih =>
    cases p with
    | nil =>
      simp only [List.nil_append, List.cons_append, List.cons.injEq] at h
      exact absurd (h.1 ▸ hx) (hl b List.mem_cons_self)
    | cons a p =>
      simp only [List.cons_append, List.cons.injEq] at h
      exact ih (fun e he => hl e (List.mem_cons_of_mem b he)) p h.2

/-- The events `es` that started a process tell of no fork. -/
def NoFork (es : List Event) : Prop := ∀ pid image, Event.forked pid image ∉ es

theorem Logs.noFork (h : Logs s t es) (hes : NoFork es) : ∃ seg, t.trace = s.trace ++ seg ∧ NoFork seg := by
  obtain ⟨seg, htrace, hseg⟩ := h
  refine ⟨seg, htrace, fun pid image hmem => hes pid image ?_⟩
  rw [← hseg]
  exact List.mem_filterMap.mpr ⟨_, hmem, rfl⟩

theorem not_childKilled_of_noFork (h : Logs s t es) (hes : NoFork es) : ¬ChildKilled s t := by
  obtain ⟨seg, htrace, hseg⟩ := Logs.noFork h hes
  rintro ⟨pid, image, sig, hadj⟩
  rw [State.since, Trail.since, htrace, List.drop_left] at hadj
  exact hseg pid image (hadj.subset List.mem_cons_self)

/-- What `sylvan_run` has seen of its child is told by what came right after the fork. -/
theorem since_of_fork (hw : Logs s w []) (hu : u.trace = w.trace ++ [.forked pid image]) (seg : List Event)
    (ht : t.trace = u.trace ++ seg) : ∃ l, NoFork l ∧ s.since t = l ++ .forked pid image :: seg := by
  obtain ⟨l, hl, hquiet⟩ := Logs.noFork hw fun _ _ => List.not_mem_nil
  refine ⟨l, hquiet, ?_⟩
  rw [State.since, Trail.since, ht, hu, hl]
  simp only [List.append_assoc, List.drop_left, List.singleton_append]

theorem not_childKilled_of_fork (hw : Logs s w []) (hu : u.trace = w.trace ++ [.forked pid image]) (seg : List Event)
    (ht : t.trace = u.trace ++ seg) (hseg : NoFork seg) (hhead : ∀ pid sig, seg.head? ≠ some (.waited pid (.signaled sig))) :
    ¬ChildKilled s t := by
  obtain ⟨l, hl, hsince⟩ := since_of_fork hw hu seg ht
  rintro ⟨pid', image', sig, hadj⟩
  rw [hsince] at hadj
  refine hhead pid' sig (head?_of_adjacent (P := fun e => ∃ pid image, e = Event.forked pid image) ⟨pid', image', rfl⟩
    ?_ ?_ hadj)
  · rintro e he ⟨p, i, rfl⟩
    exact hl p i he
  · rintro e he ⟨p, i, rfl⟩
    exact hseg p i he

/-- `x` ends on a failed assertion just where the child of the run from `s` was killed. -/
def AssertsIff (s : State) (x : SylvanM Unit) (t : State) : Prop :=
  wp (fun f u => f = .assertFailed ↔ ChildKilled s u) x (fun _ u => ¬ChildKilled s u) (fun _ u => ¬ChildKilled s u) t

/-- The child was seen to be there, and goes on. -/
theorem taken_assertsIff (htold : ¬env.Tells .unknown) (hw : Logs s w []) (hu : u.trace = w.trace ++ [.forked pid image])
    (hok : u.inf.TableOk) (htaken : Taken pid false u t) : AssertsIff s (childTaken env) t := by
  obtain ⟨st, status, hst, hlife⟩ := htaken.life
  have hseen : ∀ v es, Logs t v es → NoFork es → ¬ChildKilled s v := by
    intro v es hv hes
    obtain ⟨seg, htrace, hseg⟩ := Logs.noFork hv hes
    have ht : t.trace = u.trace ++ [.waited pid st] := congrArg Life.trace hlife
    refine not_childKilled_of_fork hw hu (.waited pid st :: seg) ?_ (fun p i hmem => ?_) fun p sig heq => ?_
    · rw [htrace, ht, List.append_assoc, List.singleton_append]
    · rcases List.mem_cons.mp hmem with h | h
      · cases h
      · exact hseg p i h
    · cases heq
      cases hst
  have hokt := htaken.entries.tableOk hok
  have hedited : ∀ v, t.Edited v → ¬ChildKilled s v := fun v hv => hseen v [] (adds_of_eq hv.trace) fun _ _ => List.not_mem_nil
  unfold AssertsIff childTaken
  rw [wp_bind]
  refine (wp_breakpointResetPhybp (E := fun _ u => ¬ChildKilled s u) hokt).imp ?_ fun _ _ => id
  intro _ v hpost
  obtain ⟨hed, hse, -⟩ := hpost
  rw [wp_bind]
  refine (wp_breakpointSetallPhybp (hse.tableOk hokt) (hed.isActive.mpr htaken.isActive)).imp (fun _ z hpost => ?_)
    fun _ z hpost => hedited z (hed.trans hpost.1.toEdited)
  have hz : t.Edited z := hed.trans hpost.1.toEdited
  have hcont : ∀ failed y, y.trace = z.trace ++ [.request .cont z.inf.pid z.inf z.proc failed] →
      Logs t y [.request .cont z.inf.pid z.inf z.proc failed] := fun failed y hy =>
    (adds_of_eq hz.trace : Logs t z []).trans (adds_picked (e := .request .cont z.inf.pid z.inf z.proc failed) hy rfl)
  have hquiet : ∀ failed, NoFork [.request .cont z.inf.pid z.inf z.proc failed] := fun failed p i hmem => by
    cases List.mem_singleton.mp hmem
  rw [wp_bind]
  refine wp_resumeRequest (fun _ v hv _ => ?_) fun e v hv => hseen v _ (hcont (some e) v hv.trace) (hquiet _)
  have hlogs := hcont none v hv.trace
  exact ((wp_updateInfStatus_orderly htold).both (wp_updateInfStatus_logs hlogs)).mono
    (fun _ y hy => hseen y _ hy.2 (hquiet none)) (fun _ y hy => hseen y _ hy.2 (hquiet none)) fun f y hy =>
      iff_of_false hy.1 (hseen y _ hy.2 (hquiet none))

theorem childStarted_assertsIff (htold : ¬env.Tells .unknown) (hw : Logs s w []) (hu : u.trace = w.trace ++ [.forked pid image])
    (hok : u.inf.TableOk) : AssertsIff s (childStarted env pid) u := by
  have hforked : ∀ v : State, v.trace = u.trace → ¬ChildKilled s v := fun v hv =>
    not_childKilled_of_fork hw hu [] (by rw [hv, List.append_nil]) (fun _ _ => List.not_mem_nil) nofun
  refine wp_childStarted hok (fun _ => iff_of_false nofun (hforked _ rfl)) (fun _ _ => hforked _ rfl) (fun code x => ?_)
    (fun sig v hv => iff_of_true rfl ?_) (fun h => absurd h htold) fun t htaken => taken_assertsIff htold hw hu hok htaken
  · refine not_childKilled_of_fork hw hu [.waited pid (.exited code)] rfl (fun p i hmem => ?_) fun p sig h => ?_
    · cases List.mem_singleton.mp hmem
    · cases h
  · obtain ⟨l, -, hsince⟩ := since_of_fork hw hu [.waited pid (.signaled sig)] hv
    exact ⟨pid, image, sig, l, [], by rw [hsince, List.append_nil]⟩

theorem run_assertsIff (htold : ¬env.Tells .unknown) (ht : s.inf.TableOk) : AssertsIff s (run env) s := by
  have hquiet : ∀ v, Logs s v [] → ¬ChildKilled s v := fun v hv => not_childKilled_of_noFork hv fun _ _ => List.not_mem_nil
  refine wp_run (fun _ _ => hquiet _ (adds_of_eq rfl)) fun path _ _ x => ?_
  have hlives : Lives ⟨True, False, fun _ _ => True⟩ s.life (s.withScratch x) := Relation.ReflTransGen.refl
  have hkill : FailsWith Orderly (Told env fun _ => True) (kill env) := told_killProcess
  refine ((hkill _).both (wp_kill_life hlives fun _ => Or.inl trivial)).mono ?_
    (fun _ u hpost => hquiet u hpost.2.1.lives.ended.logs) fun f u hf => iff_of_false hf.1 (hquiet u hf.2.logs)
  intro _ t hpost
  obtain ⟨-, hl, -⟩ := hpost
  have hlogs : Logs s t [] := hl.lives.ended.logs
  have hse : s.inf.SameEntries t.inf := hl.entries
  refine ⟨fun _ _ => hquiet _ (hlogs.quiet (adds_of_eq rfl)), fun child z hz => ?_⟩
  have htz : z.inf.TableOk := hz.inf ▸ hse.tableOk ht
  have hforked : ∀ y, Aside z y → ¬ChildKilled s y := fun y hy =>
    not_childKilled_of_fork hlogs hz.trace [] (by rw [List.append_nil]; exact congrArg Life.trace hy.life)
      (fun _ _ => List.not_mem_nil) nofun
  refine wp_handleParent (fun y hy => ⟨hforked y hy, fun _ => hforked y hy, fun f hf => iff_of_false hf (hforked y hy)⟩) fun y hy => ?_
  have hytrace : y.trace = t.trace ++ [.forked child.pid child.image] := (congrArg Life.trace hy.life).trans hz.trace
  exact childStarted_assertsIff htold hlogs hytrace (hy.entries.tableOk htz)

/-! ### Every call -/

/-- A call that looks at the process first. -/
theorem checkedAccess_asserts {y : SylvanM α} {code : Code} {text : String} (htold : ¬env.Tells .unknown)
    (hy : FailsWith Orderly (Told env fun _ => True) y) : Asserts (do
      updateInfStatus env false
      Exec.when (¬(← Exec.get).inf.IsActive) (setMessage code text)
      y) s := by
  unfold Asserts
  rw [wp_bind]
  refine (wp_updateInfStatus_orderly htold).imp (fun _ t _ => ?_) fun _ _ _ => trivial
  rw [wp_bind, wp_get, wp_bind, wp_when]
  split
  · trivial
  · exact Asserts.of_failsWith hy

/-- Every call but `sylvan_run` finds a live process wherever it asserts one. -/
theorem Op.asserts (op : Op) (htold : ¬env.Tells .unknown) (ht : s.inf.TableOk) (hlive : 0 < s.inf.pid → s.inf.IsActive)
    (hop : op ≠ .run) : Asserts (op.call env) s := by
  cases op with
  | attach pid => exact attach_asserts htold ht hlive
  | detach => exact detach_asserts htold ht hlive
  | run => exact absurd rfl hop
  | cont => exact cont_asserts htold ht
  | stepinst => exact stepinst_asserts htold ht
  | getRegs => exact wp_bind.mpr (checkedAccess_asserts htold (told_checkedLiteral told_ptraceGetregs rfl))
  | setRegs regs => exact checkedAccess_asserts htold (told_checkedLiteral told_ptraceSetregs rfl)
  | setFilepath path => exact Asserts.of_failsWith fun _ => told_setFilepath fun _ _ => trivial
  | setArgs args => exact Asserts.of_failsWith told_setArgs
  | getMemory addr => exact Asserts.of_failsWith (FailsWith.bind told_getMemory fun _ => FailsWith.pure _)
  | setMemory addr data => exact Asserts.of_failsWith told_setMemory
  | setBreakpointFunction function =>
    unfold Asserts
    have hquiet : FailsWith Orderly (Told env fun _ => True) (getLabelAddr function) := fun _ => told_getLabelAddr fun _ _ => trivial
    refine wp_bind.mpr ((wp_quiet keeps_getLabelAddr hquiet).mono (fun addr t hl => ?_)
      (fun _ _ _ => trivial) fun _ _ h => h.2)
    exact Asserts.of_wp (wp_breakpointSet_map (hl.entries.tableOk ht))
  | breakpoint op => exact Asserts.of_wp (op.wp_map ht)
  | clearall => exact Asserts.of_wp (wp_breakpointClearall_map ht)
  | destroy => exact destroy_asserts htold ht hlive

/-- In every reachable state, where each wait is answered with a status that tells something: a call ends on a
    failed assertion just if it is `sylvan_run` and the first wait for its child says that a signal killed it. -/
theorem assertions_hold_iff (hs : Reachable env s) (htold : ¬env.Tells .unknown) (op : Op) :
    (∀ t, op.call env s ≠ .fault .assertFailed t) ↔ ¬(op = .run ∧ ChildKilled s (s.after (op.call env))) := by
  obtain ⟨c, hc, hrun⟩ := hs
  have hwent : Went .free ⟨0, .none, false, []⟩ s := went_of_run (fun _ _ _ => Or.inl trivial) trivial (fun _ => Life.License.leaves_free) hc hrun
  have hagrees : s.life.Agrees := Life.Agrees.new.run hwent.lives
  have ht := hwent.tableOk
  by_cases hop : op = .run
  · subst hop
    have hiff := run_assertsIff htold ht
    cases hx : run env s with
    | ok a t =>
      have hafter : s.after (Op.run.call env) = t := congrArg Outcome.state hx
      refine iff_of_true (fun u hu => ?_) fun h => hiff.ok hx (hafter ▸ h.2)
      cases hx.symm.trans hu
    | error e t =>
      have hafter : s.after (Op.run.call env) = t := congrArg Outcome.state hx
      refine iff_of_true (fun u hu => ?_) fun h => hiff.error hx (hafter ▸ h.2)
      cases hx.symm.trans hu
    | fault f t =>
      have hafter : s.after (Op.run.call env) = t := congrArg Outcome.state hx
      rw [not_congr (and_iff_right rfl), hafter, ← hiff.fault hx]
      constructor
      · intro hno heq
        exact hno t (heq ▸ hx)
      · intro hne u hu
        cases hx.symm.trans hu
        exact hne rfl
  · refine iff_of_true (fun t hx => ?_) fun h => hop h.1
    exact (op.asserts htold ht hagrees.live.mpr hop).fault hx rfl

/-- The process that the inferior is attached to stops at a breakpoint. -/
theorem assertions_hold_iff_cont : ¬∃ t, cont .compliant State.withBreakpoint = .fault .assertFailed t := by
  rintro ⟨t, ht⟩
  have htold : ¬Env.compliant.Tells .unknown := by simp [Env.Tells, Env.compliant]
  exact (assertions_hold_iff State.withBreakpoint_reachable htold .cont).mpr (fun h => by cases h.1) t ht

/-- A system where a signal kills each child before it gets to run. -/
def Env.killing : Env := { Env.compliant with waitpid := fun _ => .ok (.signaled 9) }

/-- An inferior with a program to run. -/
def State.loaded : State := (State.blank.after (inferiorCreate .killing)).after (setFilepath .killing (some "/bin/true"))

theorem State.loaded_reachable : Reachable .killing State.loaded :=
  Reachable.step ⟨_, ⟨State.blank, rfl, rfl, State.after_ok (by decide +kernel)⟩, Relation.ReflTransGen.refl⟩
    (.setFilepath (some "/bin/true")) (by decide +kernel) (Or.inl ⟨(), State.after_ok (by decide +kernel)⟩)

/-- `sylvan_run` ends on a failed assertion when a signal kills the child before its first stop. -/
theorem run_asserts_dead_child :
    Reachable .killing State.loaded ∧ ¬Env.killing.Tells .unknown ∧
      ∃ t, run .killing State.loaded = .fault .assertFailed t := by
  refine ⟨State.loaded_reachable, by simp [Env.Tells, Env.killing, Env.compliant], State.loaded.after (run .killing), ?_⟩
  have h : (run .killing State.loaded).fault? = some .assertFailed := by decide +kernel
  exact Outcome.eq_fault_of_fault? h

end

end Sylvan
