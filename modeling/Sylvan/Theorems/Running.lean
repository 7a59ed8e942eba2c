import Sylvan.Theorems.Life

/-! Starting a program and resuming a process are sequences of lifecycle steps, however they end. -/

namespace Sylvan
open Exec

section
variable {env : Env} {may : Life.License} {l : Life} {s t u : State} {pid : Pid}

/-! ### A child that was started -/

/-- What `handle_parent` does with a child once it has become the inferior's process -/
def childTaken (env : Env) : SylvanM Unit := do
  breakpointResetPhybp
  breakpointSetallPhybp env
  checked env .ptraceContFailed "ptrace cont" (Sys.ptraceResume env .cont)
  updateInfStatus env true

/-- A child that was killed is no live process, which `sylvan_breakpoint_setall_phybp` asserts. -/
theorem wp_childTaken_dead {F : Fault → State → Prop} {Q : Unit → State → Prop} {E : Code → State → Prop} (ht : s.inf.TableOk)
    (hact : ¬s.inf.IsActive) (hF : ∀ v, v.trace = s.trace → F .assertFailed v) : wp F (childTaken env) Q E s := by
  unfold childTaken
  rw [wp_bind]
  refine (wp_breakpointResetPhybp (E := E) ht).imp ?_ fun _ _ => id
  intro _ v hpost
  obtain ⟨hed, -⟩ := hpost
  unfold breakpointSetallPhybp
  rw [wp_bind, wp_bind, wp_get, wp_bind, wp_assert, if_neg fun h => hact (hed.isActive.mp h)]
  exact hF v hed.trace

/-- The child has ended, or was killed, or has become the inferior's process. -/
theorem wp_childStarted {F : Fault → State → Prop} {Q : Unit → State → Prop} {E : Code → State → Prop} (ht : u.inf.TableOk)
    (hinterrupted : ∀ x, F .interrupted (u.withScratch x)) (hfailed : ∀ c x, E c (u.withScratch x))
    (hexited : ∀ code x, E .procChild ((u.record (.waited pid (.exited code))).withScratch x))
    (hkilled : ∀ sig v, v.trace = u.trace ++ [.waited pid (.signaled sig)] → F .assertFailed v)
    (hunknown : env.Tells .unknown → ∀ x, F .assertFailed ((u.record (.waited pid .unknown)).withScratch x))
    (htaken : ∀ t, Taken pid false u t → wp F (childTaken env) Q E t) : wp F (childStarted env pid) Q E u := by
  unfold childStarted
  rw [wp_bind]
  refine wp_checked (wp_retry_waitpid hinterrupted (fun st x htold => ?_) fun e x y => hfailed _ y)
  cases st with
  | exited code => exact hexited code _
  | signaled sig =>
    refine wp_childTaken_dead ?_ ?_ fun v hv => hkilled sig v hv
    · have hsame : u.inf.SameEntries { u.inf with pid, status := .terminated, isAttached := false } := ⟨rfl, fun _ => ⟨rfl, rfl⟩⟩
      exact hsame.tableOk ht
    · rintro (h | h) <;> cases h
  | stopped sig => exact htaken _ ⟨⟨_, .stopped, .stopped sig, rfl⟩, rfl, rfl, rfl⟩
  | continued => exact htaken _ ⟨⟨_, .running, .continued, rfl⟩, rfl, rfl, rfl⟩
  | unknown => exact hunknown (Or.inl htold) x

/-! ### Running -/

/-- The process is let go on to its next stop. -/
theorem wp_resume_life {req : Request} {code : Code} {text : String} (h : Lives may l s) (start : may.start)
    (hreq : req = .cont ∨ req = .singlestep) :
    wp (fun _ => Ended may l) (do
      checked env code text (Sys.ptraceResume env req)
      updateInfStatus env true) (fun _ t => Lived may l s t) (fun _ t => Lived may l s t) s := by
  rw [wp_bind]
  have hasked : ∀ failed v, s.Asked v req failed → Lived may l s v := by
    intro failed v hv
    have hlife : v.life = s.life.record (.request req s.inf.pid s.inf s.proc failed) := by
      rw [State.life, hv.inf, hv.trace]
      rfl
    refine ⟨h.step (hlife ▸ .resumed start req s.inf s.proc failed hreq), ?_⟩
    rw [hv.inf]
    exact ⟨rfl, fun _ => ⟨rfl, rfl⟩⟩
  refine wp_resumeRequest (fun _ v hv _ => ?_) fun e v hv => hasked (some e) v hv
  have hlived := hasked none v hv
  exact (wp_updateInfStatus_life hlived.lives).imp (fun _ _ hw => ⟨hw.lives hlived.lives, hlived.entries.trans hw.entries⟩)
    fun _ _ hw => ⟨hw.lives hlived.lives, hlived.entries.trans hw.entries⟩

/-- What `handle_parent` does with the status of its child: it has the child, or the child is gone, or was
    killed and is taken all the same. -/
theorem wp_childStarted_life {image : Process} (h : Lives may l s) (start : may.start) (hidle : ¬s.inf.IsActive) (ht : s.inf.TableOk)
    (hpos : 0 < pid) (hu : u.life = s.life.record (.forked pid image)) (hse : s.inf.SameEntries u.inf) :
    wp (fun _ => Ended may l) (childStarted env pid) (fun _ t => Lived may l s t) (fun _ t => Lived may l s t) u := by
  have hforked : Lives may l u := h.step (hu ▸ .forked start pid image hidle)
  have huidle : ¬u.life.IsActive := by
    rw [hu]
    exact hidle
  have htrace : u.trace = s.trace ++ [.forked pid image] := congrArg Life.trace hu
  have hnoticed : ∀ st, (∀ status, ¬Adopted st status) → Lives may l (u.record (.waited pid st)) := fun st hst =>
    hforked.step (.noticed pid st hst (Or.inl huidle))
  refine wp_childStarted (hse.tableOk ht) (fun _ => hforked.ended) (fun _ _ => ⟨hforked, hse⟩) (fun code _ => ?_) (fun sig v hv => ?_)
    (fun _ _ => (hnoticed .unknown nofun).ended) fun t htaken => ?_
  · exact ⟨hnoticed (.exited code) nofun, hse⟩
  · obtain ⟨l', hl', htrace'⟩ := (hnoticed (.signaled sig) nofun).ended
    exact ⟨l', hl', htrace'.trans hv.symm⟩
  · obtain ⟨st, status, hst, hlife⟩ := htaken.life
    have hl : Lives may l t := by
      refine h.step ?_
      rw [hlife, htrace]
      exact .spawned start pid image st status hidle hpos hst
    have hset := hse.trans htaken.entries
    have hre := @wp_reinstall_life env may l t hl (hset.tableOk ht)
    unfold childTaken
    rw [wp_bind] at hre ⊢
    refine hre.imp (fun _ v hv => wp_bind.mpr (hv.imp (fun _ w hw => ?_) fun _ w hw => ⟨hw.lives, hset.trans hw.entries⟩))
      fun _ v hv => ⟨hv.lives, hset.trans hv.entries⟩
    have hsw := hset.trans hw.entries
    exact (wp_resume_life hw.lives start (Or.inl rfl)).imp (fun _ _ hr => ⟨hr.lives, hsw.trans hr.entries⟩)
      fun _ _ hr => ⟨hr.lives, hsw.trans hr.entries⟩

theorem wp_handleParent_life {image : Process} (h : Lives may l s) (start : may.start) (hidle : ¬s.inf.IsActive) (ht : s.inf.TableOk)
    (hpos : 0 < pid) (hu : u.life = s.life.record (.forked pid image)) (hse : s.inf.SameEntries u.inf) :
    wp (fun _ => Ended may l) (handleParent env pid) (fun _ t => Lived may l s t) (fun _ t => Lived may l s t) u := by
  have hforked : ∀ v, Aside u v → Lived may l s v := fun v hv =>
    ⟨(h.step (hu ▸ .forked start pid image hidle)).of_life hv.life, hse.trans hv.entries⟩
  refine wp_handleParent (fun v hv => ⟨hforked v hv, fun _ => hforked v hv, fun _ _ => (hforked v hv).lives.ended⟩)
    fun v hv => ?_
  exact wp_childStarted_life h start hidle ht hpos (hv.life.trans hu) (hse.trans hv.entries)

/-- `fork` gave a child. -/
structure Forked (child : Child) (t u : State) : Prop where
  inf : u.inf = t.inf
  trace : u.trace = t.trace ++ [.forked child.pid child.image]
  image : u.procs child.pid = child.image

theorem Forked.life {child : Child} (h : Forked child t u) : u.life = t.life.record (.forked child.pid child.image) := by
  rw [State.life, h.inf, h.trace]
  rfl

/-- The rule for `sylvan_run`: what holds where the inferior's process was killed, and where a child was forked then. -/
theorem wp_run {F : Fault → State → Prop} {Q : Unit → State → Prop} {E : Code → State → Prop}
    (hrefused : ∀ c x, E c (s.withScratch x))
    (hkill : ∀ path, s.inf.realpath = some path → env.access s.scratch.clock path = none → ∀ x,
      wp F (kill env) (fun _ t => (∀ c y, E c (t.withScratch y)) ∧
        ∀ child u, Forked child t u → wp F (handleParent env child.pid) Q E u) E (s.withScratch x)) :
    wp F (run env) Q E s := by
  unfold run
  rw [wp_bind, wp_get]
  dsimp only
  split
  · exact hrefused _ _
  rename_i path hpath
  rw [wp_bind]
  refine wp_checked (wp_plain_granted (fun haccess x => ?_) fun e x y => hrefused _ y)
  dsimp only
  rw [wp_bind]
  refine (hkill path hpath haccess x).imp (fun _ t ht => ?_) fun _ _ => id
  rw [wp_bind]
  refine wp_checked (wp_plain fun r y => ?_)
  cases r with
  | error e => exact fun z => ht.1 _ z
  | ok =>
    dsimp only
    rw [wp_bind]
    refine wp_handled (wp_fork (fun child z => ?_) fun e z => wp_forkFailed fun v => ht.1 _ v)
    exact ht.2 child _ ⟨rfl, rfl, Function.update_self ..⟩

/-- `sylvan_run` kills the process that the inferior has, unless it returns before. -/
theorem wp_run_life (h : Lives may l s) (start : may.start) (ht : s.inf.TableOk)
    (own : may.killAttached ∨ (s.inf.isAttached = true → s.inf.IsActive → ∀ path, s.inf.realpath = some path →
      env.access s.scratch.clock path ≠ none)) :
    wp (fun _ => Ended may l) (run env) (fun _ t => Lived may l s t) (fun _ t => Lived may l s t) s := by
  refine wp_run (fun _ _ => ⟨h, Inferior.SameEntries.refl _⟩) fun path hpath haccess x => ?_
  have hown : s.inf.IsActive → may.killAttached ∨ s.inf.isAttached = false := fun hact =>
    own.imp id fun hspare => by
      cases hatt : s.inf.isAttached with
      | false => rfl
      | true => exact absurd haccess (hspare hatt hact path hpath)
  refine (wp_kill_life (s := s.withScratch x) h hown).imp (fun _ t hpost => ?_)
    fun _ t hpost => ⟨hpost.1.lives, hpost.1.entries⟩
  obtain ⟨hkilled, hidle⟩ := hpost
  have hse : s.inf.SameEntries t.inf := hkilled.entries
  refine ⟨fun _ _ => ⟨hkilled.lives, hse⟩, fun child u hu => ?_⟩
  have hseu : t.inf.SameEntries u.inf := by
    rw [hu.inf]
    exact Inferior.SameEntries.refl _
  exact (wp_handleParent_life hkilled.lives start hidle (hse.tableOk ht) child.pos hu.life hseu).imp
    (fun _ _ hr => ⟨hr.lives, hse.trans hr.entries⟩) fun _ _ hr => ⟨hr.lives, hse.trans hr.entries⟩

/-! ### Resuming -/

/-- What a call that may change the table has made of `s`. -/
structure Went (may : Life.License) (l : Life) (t : State) : Prop where
  lives : Lives may l t
  tableOk : t.inf.TableOk

theorem Lived.went (h : Lived may l s t) (ht : s.inf.TableOk) : Went may l t := ⟨h.lives, h.entries.tableOk ht⟩

theorem wp_validateProcessState_life (h : Lives may l s) :
    wp (fun _ => Ended may l) (validateProcessState env) (fun _ t => Lived may l s t) (fun _ t => Lived may l s t) s := by
  unfold validateProcessState
  rw [wp_bind]
  refine (wp_updateInfStatus_life h).imp (fun _ t hw => ?_) fun _ t hw => hw.lived h
  have hl := hw.lived h
  rw [wp_bind, wp_get, wp_when, wp_ite]
  split
  · split <;> exact ⟨hl.lives, hl.entries⟩
  · exact hl

theorem wp_stepOver_life {regs : UserRegs} {i : Nat} (h : Lives may l s) (start : may.start) (ht : s.inf.TableOk) (hi : i < s.inf.count) :
    wp (fun _ => Ended may l) (stepOver env regs i) (fun _ t => Went may l t) (fun _ t => Went may l t) s := by
  unfold stepOver
  rw [wp_bind]
  refine wp_checked (wp_ptraceSetregs (fun x => ?_) fun _ e x y => ⟨h, ht⟩)
  dsimp only
  generalize hv : (s.setProc s.inf.pid { s.proc with regs := Function.update regs .rip (regs .rip - 1) }).withScratch x = v
  have hvinf : v.inf = s.inf := by rw [← hv]; rfl
  have hl : Lives may l v := by rw [← hv]; exact h
  have htv : v.inf.TableOk := hvinf ▸ ht
  have hiv : i < v.inf.count := hvinf ▸ hi
  have hstored : ∀ b t, (v.setLog i b).Patched t → Went may l t := fun b t hp =>
    ⟨hl.of_life (hp.life.trans State.edited_setLog.life), hp.tableOk (setLog_tableOk htv hiv)⟩
  rw [wp_bind]
  refine (wp_breakpointDisablePtr_patched htv hiv).imp ?_ fun _ t hp => hstored false t hp
  intro _ t hpost
  obtain ⟨hp, _⟩ := hpost
  have hstored := hstored false t hp
  have htt := hstored.tableOk
  have hres := @wp_resume_life env may l t .singlestep .ptraceStepFailed "ptrace single step" hstored.lives start (Or.inr rfl)
  rw [wp_bind] at hres ⊢
  refine hres.imp (fun _ u hu => wp_bind.mpr (hu.imp (fun _ w hw => ?_) fun _ w hw => hw.went htt)) fun _ u hu => hu.went htt
  have htw := hw.entries.tableOk htt
  have hiw : i < w.inf.count := by
    rw [Inferior.count_congr hw.entries.count, Inferior.count_congr hp.count]
    exact hiv
  have henabled : ∀ z, (w.setLog i true).Patched z → Went may l z := fun z hz =>
    ⟨hw.lives.of_life (hz.life.trans State.edited_setLog.life), hz.tableOk (setLog_tableOk htw hiw)⟩
  exact (wp_breakpointEnablePtr_patched htw hiw).imp (fun _ z hz => henabled z hz.1) fun _ => henabled

theorem wp_passBreakpoint_life (h : Lives may l s) (start : may.start) (ht : s.inf.TableOk) :
    wp (fun _ => Ended may l) (passBreakpoint env) (fun _ t => Went may l t) (fun _ t => Went may l t) s := by
  have hwent : ∀ x, Went may l (s.withScratch x) := fun x => ⟨h, ht⟩
  unfold passBreakpoint
  rw [wp_bind, wp_attempt]
  refine (?_ : wp _ (handleBreakpointAtCurrentAddr env) (fun _ t => Went may l t) (fun _ t => Went may l t) s).imp
    (fun _ _ => id) fun c t hwt => ?_
  · unfold handleBreakpointAtCurrentAddr
    rw [wp_bind]
    refine wp_checked (wp_ptraceGetregs (fun x => ?_) fun _ e x y => hwent y)
    dsimp only
    rw [wp_bind, wp_get]
    cases hfind : breakpointFindByAddr (s.withScratch x).inf (s.proc.regs .rip - 1) with
    | none => exact hwent x
    | some i =>
      dsimp only
      rw [wp_ite]
      split
      · exact hwent x
      · exact wp_stepOver_life (s := s.withScratch x) h start ht (Inferior.find_some hfind).1
  · dsimp only
    rw [wp_ite]
    split <;> exact hwt

theorem wp_cont_life (h : Lives may l s) (start : may.start) (ht : s.inf.TableOk) :
    wp (fun _ => Ended may l) (cont env) (fun _ t => Went may l t) (fun _ t => Went may l t) s := by
  unfold cont
  rw [wp_bind]
  refine (wp_validateProcessState_life h).imp (fun _ t hl => ?_) fun _ t hl => hl.went ht
  rw [wp_bind]
  refine (wp_passBreakpoint_life hl.lives start (hl.entries.tableOk ht)).imp (fun _ u hu => ?_) fun _ _ => id
  exact (wp_resume_life hu.lives start (Or.inl rfl)).imp (fun _ _ hr => hr.went hu.tableOk) fun _ _ hr => hr.went hu.tableOk

theorem wp_stepinst_life (h : Lives may l s) (start : may.start) (ht : s.inf.TableOk) :
    wp (fun _ => Ended may l) (stepinst env) (fun _ t => Went may l t) (fun _ t => Went may l t) s := by
  unfold stepinst
  rw [wp_bind]
  refine (wp_validateProcessState_life h).imp (fun _ t hl => ?_) fun _ t hl => hl.went ht
  rw [wp_bind]
  refine (wp_passBreakpoint_life hl.lives start (hl.entries.tableOk ht)).imp (fun b u hu => ?_) fun _ _ => id
  rw [wp_ite]
  split
  · exact hu
  · exact (wp_resume_life hu.lives start (Or.inr rfl)).imp (fun _ _ hr => hr.went hu.tableOk) fun _ _ hr => hr.went hu.tableOk

end

end Sylvan
