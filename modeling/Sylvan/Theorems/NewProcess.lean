import Sylvan.Theorems.Runs

/-! A new process gets all the breakpoints of the table. `sylvan_attach` and `sylvan_run` forget which entries
    were installed and then install each of them, whether it is enabled or not. -/

namespace Sylvan
open Exec Trail

/-- The physical state of each entry is its logical state, and the process holds `int3` at the addresses of the
    enabled entries, and the bytes of `image` elsewhere. -/
structure Inferior.Follows (inf : Inferior) (m image : Memory) : Prop where
  phy : ∀ i, i < inf.count → (inf.slot i).isEnabledPhy = (inf.slot i).isEnabledLog
  mem : ∀ a, m a = if inf.logMap a = some true then 0xCC else image a

def Inferior.AllEnabled (inf : Inferior) : Prop := ∀ i, i < inf.count → (inf.slot i).isEnabledLog = true

/-- Every entry of the table `old` is installed in the process that had the memory `image`. -/
structure Rebuilt (old inf : Inferior) (m image : Memory) : Prop extends Inferior.SameEntries old inf where
  phy : ∀ i, i < inf.count → (inf.slot i).isEnabledPhy = true
  hides : Overlay.Hides Breakpoint.addr Breakpoint.ogByte Breakpoint.isEnabledPhy inf.slot inf.count m image
  shows : Overlay.Shows Breakpoint.addr Breakpoint.isEnabledPhy 0xCC inf.slot inf.count m

/-- The events by which a process becomes the inferior's, or goes on. -/
def Event.starting : Event → Option Event
  | .forked pid image => some (.forked pid image)
  | .request .attach pid inf proc failed => some (.request .attach pid inf proc failed)
  | .request .cont pid inf proc failed => some (.request .cont pid inf proc failed)
  | _ => none

/-- From `s` to `t` the events `es`, and no others, started a process. -/
abbrev Logs (s t : State) (es : List Event) : Prop := Trail.Adds State.trace Event.starting s t es

section
variable {env : Env} {P : Prop} {D : Pid → Memory → Prop} {l l' : Life} {s t u v : State} {x : Scratch} {pid : Pid} {e : Event} {es es' : List Event}
  {old inf : Inferior} {m image : Memory}

theorem Rebuilt.follows_iff (h : Rebuilt old inf m image) (ht : old.TableOk) : inf.Follows m image ↔ old.AllEnabled := by
  have hcount : inf.count = old.count := Inferior.count_congr h.count
  have hlog : ∀ i, (inf.slot i).isEnabledLog = (old.slot i).isEnabledLog := fun i => (h.entry i).2
  have hok : inf.TableOk := h.toSameEntries.tableOk ht
  constructor
  · intro hf i hi
    rw [← hlog, ← hf.phy i (hcount ▸ hi)]
    exact h.phy i (hcount ▸ hi)
  · intro hall
    refine ⟨fun i hi => ?_, fun a => ?_⟩
    · rw [h.phy i hi, hlog, hall i (hcount ▸ hi)]
    split
    · rename_i hmap
      obtain ⟨i, hi, rfl, -⟩ := hok.logMap_eq_some.mp hmap
      exact h.shows i hi (h.phy i hi)
    · rename_i hmap
      refine h.hides.clear a fun i hi _ haddr => hmap (hok.logMap_eq_some.mpr ⟨i, hi, haddr, ?_⟩)
      rw [hlog, hall i (hcount ▸ hi)]

/-! ### What is asked of the system -/

theorem Event.starting_eq {e' : Event} (h : e'.starting = some e) : e' = e := by
  unfold starting at h
  split at h
  · exact Option.some.inj h
  · exact Option.some.inj h
  · exact Option.some.inj h
  · cases h

theorem mem_since_iff (h : Logs s t es) (he : e.starting = some e) : e ∈ s.since t ↔ e ∈ es := by
  constructor
  · exact fun hmem => h.mem hmem he
  · intro hmem
    obtain ⟨e', hmem', heq⟩ := h.exists_mem hmem
    exact Event.starting_eq heq ▸ hmem'

/-- No lifecycle step that needs no license to start starts a process. -/
theorem Life.Step.starts (h : Life.Step ⟨P, False, D⟩ l l') : ∃ e : Event, l'.trace = l.trace ++ [e] ∧ e.starting = none := by
  cases h with
  | asked start => cases start
  | attached start => cases start
  | forked start => cases start
  | spawned start => cases start
  | resumed start => cases start
  | probed | noticed | stopped | running | exited | terminated | lost | signaled | killed | reaped | refused | released |
    destroyed => exact ⟨_, rfl, rfl⟩

theorem Ended.logs (h : Ended ⟨P, False, D⟩ s.life t) : Logs s t [] := by
  obtain ⟨l, hl, htrace⟩ := h
  suffices ∃ seg, l.trace = s.trace ++ seg ∧ seg.filterMap Event.starting = [] by
    obtain ⟨seg, hl, hseg⟩ := this
    exact ⟨seg, htrace ▸ hl, hseg⟩
  clear htrace
  induction hl with
  | refl => exact ⟨[], (List.append_nil _).symm, rfl⟩
  | tail _ hs ih =>
    obtain ⟨seg, htrace, hseg⟩ := ih
    obtain ⟨e, he, hquiet⟩ := hs.starts
    refine ⟨seg ++ [e], by rw [he, htrace, List.append_assoc], ?_⟩
    rw [List.filterMap_append, hseg, List.filterMap_cons_none hquiet, List.filterMap_nil, List.nil_append]

theorem Aside.logs (h : Aside s t) : Logs s t [] := adds_of_eq (congrArg Life.trace h.life)

theorem wp_updateInfStatus_logs {blocking : Bool} (h : Logs s t es) :
    wp (fun _ u => Logs s u es) (updateInfStatus env blocking) (fun _ u => Logs s u es) (fun _ u => Logs s u es) t := by
  have hl : Lives ⟨True, False, fun _ _ => True⟩ t.life t := Relation.ReflTransGen.refl
  exact (wp_updateInfStatus_life hl).mono (fun _ u hw => h.quiet (hw.lives hl).ended.logs)
    (fun _ u hw => h.quiet (hw.lives hl).ended.logs) fun _ u hu => h.quiet hu.logs

/-! ### Rebuilding -/

/-- `sylvan_breakpoint_reset_phybp` and `sylvan_breakpoint_setall_phybp` install every entry. -/
theorem wp_reinstall_rebuilt {F : Fault → State → Prop} {Q : Unit → State → Prop} {E : Code → State → Prop}
    (ht : s.inf.TableOk) (hF : ∀ f t, s.Edited t → F f t) (hE : ∀ c t, s.Edited t → E c t)
    (hQ : ∀ t, s.Edited t → Rebuilt s.inf t.inf t.proc.mem s.proc.mem → Q () t) :
    wp F (do
      breakpointResetPhybp
      breakpointSetallPhybp env) Q E s := by
  rw [wp_bind]
  refine (wp_breakpointResetPhybp ht).imp ?_ fun _ _ => id
  intro _ t hpost
  obtain ⟨hed, hse, hproc, hoff⟩ := hpost
  have hcount : t.inf.count = s.inf.count := Inferior.count_congr hse.count
  have hnone : ∀ i, i < t.inf.count → (t.inf.slot i).isEnabledPhy = false := fun i hi => hoff i (hcount ▸ hi)
  by_cases hact : t.inf.IsActive
  · refine (wp_breakpointSetallPhybp (hse.tableOk ht) hact).imp ?_
      fun c u hpost => hE c u (hed.trans hpost.1.toEdited)
    intro _ u hpost
    obtain ⟨hp, hphy⟩ := hpost
    refine hQ u (hed.trans hp.toEdited) ⟨hse.trans hp.toSameEntries, fun i hi => ?_, ?_, ?_⟩
    · exact hphy i (by rwa [Inferior.count_congr hp.count] at hi)
    · have hides : t.Hides s.proc.mem := hproc ▸ Overlay.hides_of_off hnone
      exact hp.hides _ hides
    · refine hp.shows fun i hi hon => ?_
      rw [hnone i hi] at hon
      cases hon
  · unfold breakpointSetallPhybp
    rw [wp_bind, wp_get, wp_bind, wp_assert, if_neg hact]
    exact hF _ t hed

theorem Rebuilt.of_entries (h : Rebuilt t.inf inf m image) (hse : s.inf.SameEntries t.inf) : Rebuilt s.inf inf m image :=
  ⟨hse.trans h.toSameEntries, h.phy, h.hides, h.shows⟩

/-- An attachment that succeeds asked for one process, and installed every entry in it. -/
theorem wp_attach_rebuilt {F : Fault → State → Prop} {E : Code → State → Prop} (ht : s.inf.TableOk) (hF : ∀ f t, F f t) (hE : ∀ c t, E c t) :
    wp F (attach env pid)
      (fun _ t => ∃ inf image, Logs s t [.request .attach pid inf image none] ∧ Rebuilt s.inf t.inf t.proc.mem image.mem)
      E s := by
  refine wp_attach (fun c _ _ => hE c _) fun x => ?_
  generalize hs₁ : (s.record (.kill pid 0 none)).withScratch x = s₁
  have hlogs₁ : Logs s s₁ [] := hs₁ ▸ adds_skipped (e := .kill pid 0 none) rfl rfl
  have hinf : s₁.inf = s.inf := hs₁ ▸ rfl
  have hlives : Lives ⟨True, False, fun _ _ => True⟩ s₁.life s₁ := Relation.ReflTransGen.refl
  refine (wp_terminateOrDetach_life hlives (hinf ▸ ht) fun _ _ => trivial).mono ?_ (fun _ _ _ => hE _ _) fun _ _ _ => hF _ _
  intro _ t hpost
  obtain ⟨hl, hidle⟩ := hpost
  have hlogs : Logs s t [] := hlogs₁.quiet hl.lives.ended.logs
  have hse : s.inf.SameEntries t.inf := hinf ▸ hl.entries
  refine ⟨fun c _ _ => hE c _, fun p v hv => ?_⟩
  have hlogsv : Logs s v [.request .attach pid t.inf p none] := hlogs.trans (adds_picked hv.trace rfl)
  unfold attachTaken
  rw [wp_bind]
  refine (wp_attachWait fun f u _ => hF f u).imp (fun _ u hu => ?_) fun _ _ _ => hE _ _
  obtain ⟨st, status, -, hlife⟩ := hu.life
  have hlogsu : Logs v u [] := adds_skipped (e := .waited pid st) (congrArg Life.trace hlife) rfl
  have huproc : u.proc = p := by
    have hpid : u.inf.pid = pid := congrArg Life.pid hlife
    rw [State.proc, hpid, hu.procs, hv.image]
  have hseu : s.inf.SameEntries u.inf := hse.trans (hv.inf ▸ hu.entries)
  rw [wp_bind]
  refine (keeps_symLoadTables (R := Aside) u).mono (fun _ w hw => ?_) (fun _ _ _ => hE _ _) fun _ _ _ => hF _ _
  have hwproc : w.proc = p := by
    have hpid : w.inf.pid = u.inf.pid := congrArg Life.pid hw.life
    rw [State.proc, hpid, hw.procs]
    exact huproc
  have hsew := hseu.trans hw.entries
  refine wp_reinstall_rebuilt (hsew.tableOk ht) (fun f t _ => hF f t) (fun c t _ => hE c t) fun z hed hre => ?_
  have hlogsz : Logs s z _ := ((hlogsv.quiet hlogsu).quiet hw.logs).quiet (adds_of_eq hed.trace)
  exact ⟨t.inf, p, hlogsz, hwproc ▸ hre.of_entries hsew⟩

/-! ### Starting a program -/

/-- What `sylvan_run` started: nothing, a child, or a child that has all the breakpoints when it goes on. -/
inductive Ran (old : Inferior) : List Event → Prop where
  | nothing : Ran old []
  | forked (pid : Pid) (image : Process) : Ran old [.forked pid image]
  | continued (pid : Pid) (image : Process) (pid' : Pid) (inf : Inferior) (proc : Process) (failed : Option Errno)
    (rebuilt : Rebuilt old inf proc.mem image.mem) :
    Ran old [.forked pid image, .request .cont pid' inf proc failed]

/-- From `s` to `t` there is what `sylvan_run` may have started. -/
def State.Ran (s t : State) : Prop := ∃ es, Logs s t es ∧ Sylvan.Ran s.inf es

theorem wp_childStarted_ran {image : Process} (ht : s.inf.TableOk) (hu : Logs s u [.forked pid image])
    (hproc : u.procs pid = image) (hse : s.inf.SameEntries u.inf) :
    wp (fun _ t => s.Ran t) (childStarted env pid) (fun _ t => s.Ran t) (fun _ t => s.Ran t) u := by
  have hforked : ∀ t, Logs u t [] → s.Ran t := fun t h => ⟨_, hu.quiet h, .forked pid image⟩
  have hwaited : ∀ st (t : State), t.trace = u.trace ++ [.waited pid st] → Logs u t [] := fun st t h =>
    adds_skipped (e := .waited pid st) h rfl
  refine wp_childStarted (hse.tableOk ht) (fun _ => hforked _ (adds_of_eq rfl)) (fun _ _ => hforked _ (adds_of_eq rfl))
    (fun code _ => hforked _ (hwaited (.exited code) _ rfl)) (fun sig v hv => hforked v (hwaited (.signaled sig) v hv))
    (fun _ _ => hforked _ (hwaited .unknown _ rfl)) fun t htaken => ?_
  obtain ⟨st, status, -, hlife⟩ := htaken.life
  have hlogst : Logs u t [] := hwaited st t (congrArg Life.trace hlife)
  have hset : s.inf.SameEntries t.inf := hse.trans htaken.entries
  have himage : t.proc = image := by
    have hpid : t.inf.pid = pid := congrArg Life.pid hlife
    rw [State.proc, hpid, htaken.procs, hproc]
  have hedited : ∀ v, t.Edited v → Logs u v [] := fun v hv => hlogst.quiet (adds_of_eq hv.trace)
  have hre : wp (fun _ t => s.Ran t) (do
      breakpointResetPhybp
      breakpointSetallPhybp env) (fun _ v => t.Edited v ∧ Rebuilt s.inf v.inf v.proc.mem image.mem)
      (fun _ t => s.Ran t) t :=
    wp_reinstall_rebuilt (hset.tableOk ht) (fun _ v hv => hforked v (hedited v hv)) (fun _ v hv => hforked v (hedited v hv))
      fun v hv hre => ⟨hv, himage ▸ hre.of_entries hset⟩
  unfold childTaken
  rw [wp_bind] at hre ⊢
  refine hre.imp (fun _ v hv => wp_bind.mpr (hv.imp ?_ fun _ _ => id)) fun _ _ => id
  intro _ w hpost
  obtain ⟨hed, hrebuilt⟩ := hpost
  have hlogsw : Logs s w [.forked pid image] := hu.quiet (hedited w hed)
  have hcont : ∀ failed v, v.trace = w.trace ++ [.request .cont w.inf.pid w.inf w.proc failed] →
      Logs s v [.forked pid image, .request .cont w.inf.pid w.inf w.proc failed] := fun failed v hv =>
    hlogsw.trans (adds_picked (e := .request .cont w.inf.pid w.inf w.proc failed) hv rfl)
  rw [wp_bind]
  refine wp_resumeRequest (fun _ v hv _ => ?_) fun e v hv => ?_
  · exact (wp_updateInfStatus_logs (hcont none v hv.trace)).mono (fun _ v hv => ⟨_, hv, .continued _ _ _ _ _ _ hrebuilt⟩)
      (fun _ v hv => ⟨_, hv, .continued _ _ _ _ _ _ hrebuilt⟩) fun _ v hv => ⟨_, hv, .continued _ _ _ _ _ _ hrebuilt⟩
  · exact ⟨_, hcont (some e) v hv.trace, .continued _ _ _ _ _ _ hrebuilt⟩

theorem wp_handleParent_ran {image : Process} (ht : s.inf.TableOk) (hu : Logs s u [.forked pid image])
    (hproc : u.procs pid = image) (hse : s.inf.SameEntries u.inf) :
    wp (fun _ t => s.Ran t) (handleParent env pid) (fun _ t => s.Ran t) (fun _ t => s.Ran t) u := by
  have hran : ∀ t, Aside u t → s.Ran t := fun t h => ⟨_, hu.quiet h.logs, .forked pid image⟩
  refine wp_handleParent (fun v hv => ⟨hran v hv, fun _ => hran v hv, fun _ _ => hran v hv⟩) fun v hv => ?_
  exact wp_childStarted_ran ht (hu.quiet hv.logs) (by rw [hv.procs, hproc]) (hse.trans hv.entries)

theorem wp_run_ran (ht : s.inf.TableOk) :
    wp (fun _ t => s.Ran t) (run env) (fun _ t => s.Ran t) (fun _ t => s.Ran t) s := by
  have hran : ∀ t, Logs s t [] → s.Ran t := fun t h => ⟨[], h, .nothing⟩
  refine wp_run (fun _ _ => hran _ (adds_of_eq rfl)) fun path _ _ x => ?_
  have hlives : Lives ⟨True, False, fun _ _ => True⟩ s.life (s.withScratch x) := Relation.ReflTransGen.refl
  refine (wp_kill_life hlives fun _ => Or.inl trivial).mono ?_ (fun _ u hpost => hran u hpost.1.lives.ended.logs)
    fun _ u hu => hran u hu.logs
  intro _ t hpost
  obtain ⟨hl, -⟩ := hpost
  have hlogs : Logs s t [] := hl.lives.ended.logs
  refine ⟨fun _ _ => hran _ (hlogs.quiet (adds_of_eq rfl)), fun child u hu => ?_⟩
  refine wp_handleParent_ran ht (hlogs.trans (adds_picked hu.trace rfl)) hu.image ?_
  rw [hu.inf]
  exact hl.entries

/-- In every reachable state: when an attachment succeeds, and when the process that `sylvan_run` started goes
    on, the physical states and the process's memory follow the logical states just where every entry of the table
    is enabled. -/
theorem new_process_follows_iff (hs : Reachable env s) :
    (∀ pid t, attach env pid s = .ok () t →
      ∃ inf image, Event.request .attach pid inf image none ∈ s.since t ∧
        (∀ inf' image', Event.request .attach pid inf' image' none ∈ s.since t → image'.mem = image.mem) ∧
        (t.inf.Follows t.proc.mem image.mem ↔ s.inf.AllEnabled)) ∧
    ∀ t, (run env).Ends s t → ∀ pid image pid' inf proc failed,
      Event.forked pid image ∈ s.since t → Event.request .cont pid' inf proc failed ∈ s.since t →
        (inf.Follows proc.mem image.mem ↔ s.inf.AllEnabled) := by
  obtain ⟨c, hc, hrun⟩ := hs
  have hw : Went .free ⟨0, .none, false, []⟩ s := went_of_run (fun _ _ _ => Or.inl trivial) trivial (fun _ => Life.License.leaves_free) hc hrun
  have ht := hw.tableOk
  refine ⟨fun pid t hok => ?_, fun t hends pid image pid' inf proc failed hforked hcont => ?_⟩
  · obtain ⟨inf, image, hlogs, hre⟩ :=
      (wp_attach_rebuilt (F := fun _ _ => True) (E := fun _ _ => True) ht (fun _ _ => trivial) fun _ _ => trivial).ok hok
    refine ⟨inf, image, (mem_since_iff hlogs rfl).mpr (List.mem_singleton_self _), fun inf' image' hmem => ?_, hre.follows_iff ht⟩
    cases List.mem_singleton.mp ((mem_since_iff hlogs rfl).mp hmem)
    rfl
  · obtain ⟨es, hlogs, hran⟩ := (wp_run_ran ht).ends hends
    rw [mem_since_iff hlogs rfl] at hforked hcont
    cases hran with
    | nothing => cases hforked
    | forked => simp at hcont
    | continued pid₁ image₁ pid₂ inf₁ proc₁ failed₁ hre =>
      simp at hforked hcont
      obtain ⟨rfl, rfl⟩ := hforked
      obtain ⟨rfl, rfl, rfl, rfl⟩ := hcont
      exact hre.follows_iff ht

/-- An inferior with a breakpoint is attached to another process. -/
theorem new_process_follows_iff_attach :
    let t := State.withBreakpoint.after (attach .compliant 8)
    ∃ inf image, Event.request .attach 8 inf image none ∈ State.withBreakpoint.since t ∧
      (t.inf.Follows t.proc.mem image.mem ↔ State.withBreakpoint.inf.AllEnabled) := by
  obtain ⟨inf, image, hmem, -, hiff⟩ := (new_process_follows_iff State.withBreakpoint_reachable).1 8 _
    (State.after_ok (by decide +kernel))
  exact ⟨inf, image, hmem, hiff⟩

/-- The breakpoint is disabled, and installed in the process that the inferior is attached to next. -/
theorem disabled_installed_in_new_process :
    let s := State.withBreakpoint.after (breakpointDisable .compliant 4096)
    Reachable .compliant s ∧ s.inf.logMap 4096 = some false ∧ (s.procs 8).mem 4096 = 0 ∧
      (attach .compliant 8 s).isOk = true ∧ (s.after (attach .compliant 8)).proc.mem 4096 = 0xCC := by
  refine ⟨?_, by decide +kernel, by decide +kernel, by decide +kernel, by decide +kernel⟩
  exact State.withBreakpoint_reachable.step (.breakpoint (.disable 4096)) (by decide +kernel)
    (Or.inl ⟨(), State.after_ok (by decide +kernel)⟩)

end

end Sylvan
