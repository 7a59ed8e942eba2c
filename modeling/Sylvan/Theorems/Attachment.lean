import Mathlib.Data.List.TakeWhile
import Sylvan.Theorems.NewProcess
import Sylvan.Theorems.StatusPid

/-! What becomes of the attachment to a process. `is_attached` stays behind where a wait finds that the process has
    ended, and only there (`Attends`); everywhere else an attached inferior has a live process. -/

namespace Sylvan
open Exec

def Event.AsksAttach : Event → Bool
  | .request .attach _ _ _ _ => true
  | _ => false

/-- The process has ended. -/
def WaitStatus.IsEnd : WaitStatus → Bool
  | .exited _ => true
  | .signaled _ => true
  | _ => false

/-- A wait found that the process `pid` has ended. -/
def Event.TellsEnd (pid : Pid) : Event → Bool
  | .waited pid' st => pid' = pid && st.IsEnd
  | _ => false

def EndSeen (pid : Pid) (es : List Event) : Prop := es.any (·.TellsEnd pid) = true

/-- A wait found that the process to which the inferior was attached has ended, before the call asked to be attached
    to another. -/
def FoundEnded (s t : State) : Prop :=
  s.inf.isAttached = true ∧ EndSeen s.inf.pid ((s.since t).takeWhile fun e => !e.AsksAttach)

instance (s t : State) : Decidable (FoundEnded s t) := inferInstanceAs (Decidable (_ ∧ _ = true))

/-- An attached inferior has a live process. -/
def Inferior.AttachedLive (inf : Inferior) : Prop := inf.isAttached = true → inf.IsActive

def SameLife (s t : State) : Prop := t.life = s.life

instance : IsPreorder State SameLife where
  refl _ := rfl
  trans _ _ _ h h' := Eq.trans h' h

/-- If `t` has an attached inferior, `s` has one, and its process is live still. -/
def Clings (s t : State) : Prop :=
  t.inf.isAttached = true → s.inf.isAttached = true ∧ (s.inf.IsActive → t.inf.IsActive)

instance : IsPreorder State Clings where
  refl _ h := ⟨h, id⟩
  trans _ _ _ h h' hu :=
    have ht := h' hu
    have hs := h ht.1
    ⟨hs.1, fun hact => ht.2 (hs.2 hact)⟩

/-- What the events `es` have made of the attachment in `s`. -/
inductive Fate (s t : State) (es : List Event) : Prop where
  | same (isAttached : t.inf.isAttached = s.inf.isAttached) (pid : t.inf.pid = s.inf.pid)
    (active : s.inf.IsActive → t.inf.IsActive) (unseen : ¬EndSeen s.inf.pid es)
  | gone (isAttached : t.inf.isAttached = false) (pid : t.inf.pid = 0)
  | stale (attached : s.inf.isAttached = true) (live : 0 < s.inf.pid) (seen : EndSeen s.inf.pid es)
    (isAttached : t.inf.isAttached = true) (pid : t.inf.pid = 0)

/-- None of `es` asks to be attached to a process. -/
def AsksNothing (es : List Event) : Prop := ∀ e ∈ es, e.AsksAttach = false

instance (es : List Event) : Decidable (AsksNothing es) := inferInstanceAs (Decidable (∀ e ∈ es, _ = _))

/-- From `s` to `t` the inferior dealt with the process that it had. -/
def Attends (s t : State) : Prop := ∃ es, t.trace = s.trace ++ es ∧ AsksNothing es ∧ Fate s t es

section
variable {env : Env} {α : Type} {s t u v : State} {c : Option Code} {pid : Pid} {es es' : List Event} {e : Event}
  {x : Scratch} {id : TableId}

/-! ### Events -/

theorem not_endSeen_nil : ¬EndSeen pid [] := by simp [EndSeen]

theorem endSeen_append : EndSeen pid (es ++ es') ↔ EndSeen pid es ∨ EndSeen pid es' := by simp [EndSeen]

theorem endSeen_singleton : EndSeen pid [e] ↔ e.TellsEnd pid = true := by simp [EndSeen]

theorem tellsEnd_waited {st : WaitStatus} : (Event.waited pid st).TellsEnd pid = st.IsEnd := by simp [Event.TellsEnd]

theorem asksNothing_nil : AsksNothing [] := fun _ h => absurd h List.not_mem_nil

theorem asksNothing_singleton (h : e.AsksAttach = false) : AsksNothing [e] := fun _ he => List.mem_singleton.mp he ▸ h

theorem AsksNothing.append (h : AsksNothing es) (h' : AsksNothing es') : AsksNothing (es ++ es') := fun e he =>
  (List.mem_append.mp he).elim (h e) (h' e)

/-! ### Steps -/

theorem Fate.trans (h : Fate s t es) (h' : Fate t u es') : Fate s u (es ++ es') := by
  cases h with
  | same hatt hpid hact hunseen =>
    cases h' with
    | same hatt' hpid' hact' hunseen' =>
      refine .same (hatt'.trans hatt) (hpid'.trans hpid) (fun h => hact' (hact h)) fun hseen => ?_
      rcases endSeen_append.mp hseen with hseen | hseen
      · exact hunseen hseen
      · exact hunseen' (hpid ▸ hseen)
    | gone hatt' hpid' => exact .gone hatt' hpid'
    | stale hatt₀ hlive hseen hatt' hpid' =>
      exact .stale (hatt ▸ hatt₀) (hpid ▸ hlive) (endSeen_append.mpr (Or.inr (hpid ▸ hseen))) hatt' hpid'
  | gone hatt hpid =>
    cases h' with
    | same hatt' hpid' _ _ => exact .gone (hatt'.trans hatt) (hpid'.trans hpid)
    | gone hatt' hpid' => exact .gone hatt' hpid'
    | stale hatt₀ => cases hatt.symm.trans hatt₀
  | stale hatt₀ hlive hseen hatt hpid =>
    have hseen' := endSeen_append.mpr (Or.inl hseen : EndSeen s.inf.pid es ∨ EndSeen s.inf.pid es')
    cases h' with
    | same hatt' hpid' _ _ => exact .stale hatt₀ hlive hseen' (hatt'.trans hatt) (hpid'.trans hpid)
    | gone hatt' hpid' => exact .gone hatt' hpid'
    | stale _ _ _ hatt' hpid' => exact .stale hatt₀ hlive hseen' hatt' hpid'

theorem attends_of_life (h : t.life = s.life) : Attends s t := by
  refine ⟨[], (congrArg Life.trace h).trans (List.append_nil _).symm, asksNothing_nil, ?_⟩
  have hstatus : t.inf.status = s.inf.status := congrArg Life.status h
  refine .same (congrArg Life.isAttached h) (congrArg Life.pid h) (fun hact => ?_) not_endSeen_nil
  unfold Inferior.IsActive
  rwa [hstatus]

instance : IsPreorder State Attends where
  refl _ := attends_of_life rfl
  trans s t u h h' := by
    obtain ⟨es, htrace, hquiet, hfate⟩ := h
    obtain ⟨es', htrace', hquiet', hfate'⟩ := h'
    exact ⟨es ++ es', by rw [htrace', htrace, List.append_assoc], hquiet.append hquiet', hfate.trans hfate'⟩

theorem Aside.attends (h : Aside s t) : Attends s t := attends_of_life h.life

theorem State.Edited.attends (h : s.Edited t) : Attends s t := attends_of_life h.life

theorem Accessed.attends (h : Accessed s t) : Attends s t :=
  attends_of_life (by unfold State.life; rw [h.inf, h.trace])

/-- An event that tells of no end, and is no request to be attached to a process. -/
theorem attends_event (htrace : t.trace = s.trace ++ [e]) (hinf : t.inf = s.inf) (he : e.AsksAttach = false)
    (hend : e.TellsEnd s.inf.pid = false) : Attends s t :=
  ⟨[e], htrace, asksNothing_singleton he,
    .same (hinf ▸ rfl) (hinf ▸ rfl) (hinf ▸ id) (by rw [endSeen_singleton, hend]; exact Bool.false_ne_true)⟩

/-- A wait that found that the process has not ended. -/
theorem attends_waited (st : WaitStatus) (htrace : t.trace = s.trace ++ [.waited s.inf.pid st]) (hst : st.IsEnd = false)
    (hatt : t.inf.isAttached = s.inf.isAttached) (hpid : t.inf.pid = s.inf.pid) (hact : s.inf.IsActive → t.inf.IsActive) :
    Attends s t :=
  ⟨_, htrace, asksNothing_singleton rfl,
    .same hatt hpid hact (by rw [endSeen_singleton, tellsEnd_waited, hst]; exact Bool.false_ne_true)⟩

/-- A wait that found that the process has ended. -/
theorem attends_ended (st : WaitStatus) (htrace : t.trace = s.trace ++ [.waited s.inf.pid st]) (hst : st.IsEnd = true)
    (hatt : t.inf.isAttached = s.inf.isAttached) (live : 0 < s.inf.pid) (hpid : t.inf.pid = 0) : Attends s t := by
  refine ⟨_, htrace, asksNothing_singleton rfl, ?_⟩
  cases hs : s.inf.isAttached with
  | true => exact .stale hs live (endSeen_singleton.mpr (tellsEnd_waited.trans hst)) (hatt.trans hs) hpid
  | false => exact .gone (hatt.trans hs) hpid

/-- The inferior gives up its process. -/
theorem attends_gone (es : List Event) (htrace : t.trace = s.trace ++ es) (hes : AsksNothing es)
    (hatt : t.inf.isAttached = false) (hpid : t.inf.pid = 0) : Attends s t := ⟨es, htrace, hes, .gone hatt hpid⟩

theorem Waits.attends (hw : Waits s c t) : Attends s t := by
  cases hw with
  | unchanged x live => exact attends_of_life rfl
  | stopped sig x live => exact attends_waited (.stopped sig) rfl rfl rfl rfl fun _ => Or.inr rfl
  | stoppedFor code sig x live => exact attends_waited (.stopped sig) rfl rfl rfl rfl fun _ => Or.inr rfl
  | running x live => exact attends_waited .continued rfl rfl rfl rfl fun _ => Or.inl rfl
  | exited code x live => exact attends_ended (.exited code) rfl rfl rfl live rfl
  | terminated sig x live => exact attends_ended (.signaled sig) rfl rfl rfl live rfl
  | failed code x => exact attends_of_life rfl
  | untraced code failed x live => exact attends_event (e := .kill s.inf.pid 0 failed) rfl rfl rfl rfl
  | lost x live => exact attends_gone [.kill s.inf.pid 0 (some ESRCH)] rfl (asksNothing_singleton rfl) rfl rfl

/-- Nothing attaches an inferior but `sylvan_attach`. -/
theorem Attends.unattached (h : Attends s t) (hs : s.inf.isAttached = false) : t.inf.isAttached = false := by
  obtain ⟨es, -, -, hfate⟩ := h
  cases hfate with
  | same hatt => exact hatt.trans hs
  | gone hatt => exact hatt
  | stale hatt => cases hs.symm.trans hatt

/-! ### The calls -/

theorem attends_updateInfStatus {blocking : Bool} : Keeps Attends (updateInfStatus env blocking) := fun s =>
  (wp_updateInfStatus (F := fun _ t => Attends s t) (fun _ => attends_of_life rfl) fun _ _ _ =>
    attends_waited .unknown rfl rfl rfl rfl id).imp (fun _ _ hw => hw.attends) fun _ _ hw => hw.attends

theorem attends_dissociate : Keeps Attends dissociate := Keeps.modify fun s =>
  attends_gone (s := s) [] (List.append_nil _).symm asksNothing_nil rfl rfl

theorem attends_ptraceResume {req : Request} (hreq : req ≠ .attach) : Keeps Attends (Sys.ptraceResume env req) := fun s => by
  have hquiet : ∀ failed, Event.AsksAttach (.request req s.inf.pid s.inf s.proc failed) = false := by
    intro failed
    cases req with
    | attach => exact absurd rfl hreq
    | detach | cont | singlestep => rfl
  exact wp_ptraceResume (fun _ _ => attends_event rfl rfl (hquiet none) rfl) fun e _ => attends_event rfl rfl (hquiet (some e)) rfl

/-! ### Giving up a process -/

theorem attends_kill : Keeps Attends (kill env) := fun s => by
  unfold kill
  rw [wp_bind, wp_get, wp_ite]
  split
  · exact attends_of_life rfl
  rw [wp_bind]
  have hkilled : ∀ failed t, t.trace = s.trace ++ [.kill s.inf.pid SIGKILL failed] → t.inf = s.inf → Attends s t :=
    fun _ _ htrace hinf => attends_event htrace hinf rfl rfl
  refine wp_kill (fun x => ?_) fun e x => ?_
  · rw [wp_bind]
    refine wp_checked (wp_retry_waitpid (fun _ => hkilled none _ rfl rfl) (fun st x _ => ?_) fun _ _ _ => hkilled none _ rfl rfl)
    exact attends_gone [.kill s.inf.pid SIGKILL none, .waited s.inf.pid st] (List.append_assoc ..)
      (AsksNothing.append (asksNothing_singleton rfl) (asksNothing_singleton rfl) : AsksNothing ([_] ++ [_])) rfl rfl
  · rw [wp_bind, wp_when]
    split
    · exact hkilled (some e) _ rfl rfl
    · exact attends_gone [.kill s.inf.pid SIGKILL (some e)] rfl (asksNothing_singleton rfl) rfl rfl

instance : IgnoresTables Attends where
  scratch _ _ := attends_of_life rfl
  table s id table := (IgnoresTables.table (R := Aside) s id table).attends

instance : IgnoresPaths Attends where
  realpath _ _ := attends_of_life rfl
  args _ _ := attends_of_life rfl

instance : KeptByCalls Attends where
  image _ _ _ := attends_of_life rfl
  edited := State.Edited.attends
  request _ _ := attends_ptraceResume
  dissociate := attends_dissociate
  wait _ _ := attends_updateInfStatus
  kill _ := attends_kill

theorem attends_destroy : Keeps Attends (inferiorDestroy env) :=
  Keeps.bind keeps_terminateOrDetach fun _ => Keeps.bind keeps_symDestroy fun _ =>
    Keeps.modify fun _ => attends_event (e := .freed) rfl rfl rfl rfl

theorem Op.attends (op : Op) (hattach : ∀ pid, op ≠ .attach pid) (hrun : op ≠ .run) : Keeps Attends (op.call env) := by
  by_cases hload : ∃ path, op = .setFilepath path
  · obtain ⟨path, rfl⟩ := hload
    exact keeps_setFilepath
  by_cases hdestroy : op = .destroy
  · subst hdestroy
    exact attends_destroy
  · exact op.keeps hattach hrun (fun path h => hload ⟨path, h⟩) hdestroy

/-! ### Attaching -/

/-- How `sylvan_attach` goes on in `u`, where the inferior has given up the process that it had. -/
inductive AskedFor (pid : Pid) (u t : State) : Prop where
  | refused (inf : Inferior) (proc : Process) (e : Errno) (life : t.life = u.life.record (.request .attach pid inf proc (some e)))
  | unseen (inf : Inferior) (proc : Process) (life : t.life = u.life.record (.request .attach pid inf proc none))
  | ended (inf : Inferior) (proc : Process) (st : WaitStatus) (gone : ∀ status, ¬Adopted st status)
    (life : t.life = (u.life.record (.request .attach pid inf proc none)).record (.waited pid st))
  | taken (inf : Inferior) (proc : Process) (st : WaitStatus) (status : InferiorState) (adopted : Adopted st status)
    (life : t.life = ⟨pid, status, true, u.trace ++ [.request .attach pid inf proc none] ++ [.waited pid st]⟩)

/-- What holds after the inferior gave up its process, and after it asked for `pid`. -/
theorem wp_attach_asked {F : Fault → State → Prop} {Q : Unit → State → Prop} {E : Code → State → Prop}
    (hprobe : ∀ c e x, E c ((s.record (.kill pid 0 (some e))).withScratch x))
    (hyield : ∀ x, wp F (terminateOrDetach env)
      (fun _ u => ∀ t, AskedFor pid u t → Q () t ∧ (∀ c, E c t) ∧ ∀ f, F f t) E ((s.record (.kill pid 0 none)).withScratch x)) :
    wp F (attach env pid) Q E s := by
  refine wp_attach hprobe fun x => (hyield x).imp (fun _ u hu => ⟨fun c e y => ?_, fun p v hv => ?_⟩) fun _ _ => id
  · exact (hu _ (.refused u.inf (u.procs pid) e rfl)).2.1 c
  · have hmissed : ∀ w, Missed pid v w → AskedFor pid u w := by
      intro w hw
      rcases hw.life with h | ⟨st, hst, h⟩
      · exact .unseen u.inf p (h.trans hv.life)
      · exact .ended u.inf p st hst (by rw [h, hv.life])
    unfold attachTaken
    rw [wp_bind]
    refine (wp_attachWait fun f w hw => (hu w (hmissed w hw)).2.2 f).imp (fun _ w hw => ?_)
      fun c w hw => (hu w (hmissed w hw)).2.1 c
    obtain ⟨st, status, hst, hwlife⟩ := hw.life
    have htaken : ∀ z, z.life = w.life → AskedFor pid u z := fun z hz =>
      .taken u.inf p st status hst (by rw [hz, hwlife, hv.trace])
    have hlife : Keeps SameLife (do
        symLoadTables env
        breakpointResetPhybp
        breakpointSetallPhybp env) :=
      Keeps.bind ((keeps_symLoadTables (R := Aside)).imp fun _ _ h => h.life) fun _ =>
        Keeps.bind (edited_breakpointResetPhybp.imp fun _ _ h => h.life) fun _ => edited_setallPhybp.imp fun _ _ h => h.life
    exact (hlife w).mono (fun _ z hz => (hu z (htaken z hz)).1) (fun c z hz => (hu z (htaken z hz)).2.1 c)
      fun f z hz => (hu z (htaken z hz)).2.2 f

/-! ### Running -/

theorem clings_of_inf (h : t.inf = s.inf) : Clings s t := fun hatt => ⟨h ▸ hatt, h ▸ id⟩

theorem clings_of_unattached (h : t.inf.isAttached = false) : Clings s t := fun hatt => by
  rw [h] at hatt
  cases hatt

theorem Aside.clings (h : Aside s t) : Clings s t := fun hatt =>
  have hs : t.inf.isAttached = s.inf.isAttached := congrArg Life.isAttached h.life
  ⟨hs ▸ hatt, h.isActive.mpr⟩

instance : IgnoresScratch Clings where
  scratch _ _ := clings_of_inf rfl

theorem clings_waitpid : Keeps Clings (Sys.waitpid env pid) := fun _ =>
  wp_waitpid (fun _ _ _ => clings_of_inf rfl) fun _ _ => clings_of_inf rfl

theorem clings_kill : Keeps Clings (kill env) := by
  refine Keeps.bind Keeps.get fun _ => Keeps.ite (fun _ => Keeps.pure _) fun _ =>
    Keeps.bind (fun _ => wp_kill (fun _ => clings_of_inf rfl) fun _ _ => clings_of_inf rfl) fun r => ?_
  cases r with
  | error e =>
    exact Keeps.bind (Keeps.when fun _ => keeps_setErrnoMsg) fun _ => Keeps.modify fun _ => clings_of_unattached rfl
  | ok _ =>
    exact Keeps.bind (keeps_checked (keeps_retry clings_waitpid _)) fun _ => Keeps.modify fun _ => clings_of_unattached rfl

theorem clings_childStarted : Keeps Clings (childStarted env pid) := by
  refine Keeps.bind (keeps_checked (keeps_retry clings_waitpid _)) fun st => ?_
  have hstarted : Keeps Clings (do
      updateWaitStatus st
      Exec.modify fun s => s.setInf { s.inf with pid, isAttached := false }
      childTaken env) := by
    intro s
    -- From here on the inferior is not attached, whatever becomes of the child.
    have hrest : ∀ t : State, t.inf.isAttached = false →
        wp (fun _ => Clings s) (childTaken env) (fun _ => Clings s) (fun _ => Clings s) t := by
      intro t ht
      have hkeeps : Keeps Attends (childTaken env) :=
        Keeps.bind (keeps_edited edited_breakpointResetPhybp) fun _ => Keeps.bind (keeps_edited edited_setallPhybp) fun _ =>
          keeps_resume Request.noConfusion
      have hclings : ∀ u, Attends t u → Clings s u := fun u hu => clings_of_unattached (hu.unattached ht)
      exact (hkeeps t).mono (fun _ => hclings) (fun _ => hclings) fun _ => hclings
    cases st with
    | stopped sig => exact hrest _ rfl
    | exited code => exact hrest _ rfl
    | signaled sig => exact hrest _ rfl
    | continued => exact hrest _ rfl
    | unknown => exact clings_of_inf rfl
  cases st with
  | exited code => exact keeps_setMessage
  | signaled sig => exact hstarted
  | stopped sig => exact hstarted
  | continued => exact hstarted
  | unknown => exact hstarted

theorem clings_run : Keeps Clings (run env) := by
  refine Keeps.bind Keeps.get fun s => ?_
  dsimp only
  cases s.inf.realpath with
  | none => exact keeps_setMessage
  | some path =>
    refine Keeps.bind (keeps_checked keeps_plain) fun _ => Keeps.bind clings_kill fun _ =>
      Keeps.bind (keeps_checked keeps_plain) fun _ => Keeps.bind (fun _ => ?_) fun child => fun s => ?_
    · exact wp_handled (wp_fork (fun _ _ => clings_of_inf rfl) fun _ _ => wp_forkFailed fun _ => clings_of_inf rfl)
    · exact wp_handleParent (fun t ht => ⟨ht.clings, fun _ => ht.clings, fun _ _ => ht.clings⟩) fun t ht =>
        (clings_childStarted t).mono (fun _ _ => trans_of Clings ht.clings) (fun _ _ => trans_of Clings ht.clings)
          fun _ _ => trans_of Clings ht.clings

/-! ### Every call -/

theorem Attends.since (h : Attends s t) : ∃ es, s.since t = es ∧ AsksNothing es ∧ Fate s t es := by
  obtain ⟨es, htrace, hquiet, hfate⟩ := h
  exact ⟨es, by rw [State.since, Trail.since, htrace, List.drop_left], hquiet, hfate⟩

theorem AsksNothing.takeWhile (h : AsksNothing es) : es.takeWhile (fun e => !e.AsksAttach) = es :=
  List.takeWhile_eq_self_iff.mpr fun e he => by rw [h e he]; rfl

/-- What the call found of the process it had, it found before it asked for another. -/
theorem foundEnded_iff_of_attends (h : Attends s t) : FoundEnded s t ↔ s.inf.isAttached = true ∧ EndSeen s.inf.pid (s.since t) := by
  obtain ⟨es, hsince, hquiet, -⟩ := h.since
  unfold FoundEnded
  rw [hsince, hquiet.takeWhile]

/-- What the call found of the process it had, it found before it asked for another. -/
theorem foundEnded_iff_of_askedFor (h : Attends s u) (ha : AskedFor pid u t) :
    FoundEnded s t ↔ s.inf.isAttached = true ∧ EndSeen s.inf.pid (s.since u) := by
  obtain ⟨es, htrace, hquiet, -⟩ := h
  have hasked : ∃ inf proc failed seg, t.trace = u.trace ++ .request .attach pid inf proc failed :: seg := by
    cases ha with
    | refused inf proc e life => exact ⟨inf, proc, some e, [], congrArg Life.trace life⟩
    | unseen inf proc life => exact ⟨inf, proc, none, [], congrArg Life.trace life⟩
    | ended inf proc st gone life => exact ⟨inf, proc, none, [.waited pid st], (congrArg Life.trace life).trans (List.append_assoc ..)⟩
    | taken inf proc st status adopted life =>
      exact ⟨inf, proc, none, [.waited pid st], (congrArg Life.trace life).trans (List.append_assoc ..)⟩
  obtain ⟨inf, proc, failed, seg, htrace'⟩ := hasked
  have hsince : s.since t = es ++ .request .attach pid inf proc failed :: seg := by
    rw [State.since, Trail.since, htrace', htrace, List.append_assoc, List.drop_left]
  have hsince' : s.since u = es := by rw [State.since, Trail.since, htrace, List.drop_left]
  have hbefore : (s.since t).takeWhile (fun e => !e.AsksAttach) = es := by
    rw [hsince, List.takeWhile_append_of_pos fun e he => by rw [hquiet e he]; rfl]
    simp [Event.AsksAttach]
  unfold FoundEnded
  rw [hbefore, hsince']

theorem Attends.attachedLive (h : Attends s t) (hs : s.inf.AttachedLive)
    (hended : ¬(s.inf.isAttached = true ∧ EndSeen s.inf.pid (s.since t))) : t.inf.AttachedLive := by
  obtain ⟨es, hsince, -, hfate⟩ := h.since
  intro hatt
  cases hfate with
  | same hatt' hpid hact => exact hact (hs (hatt' ▸ hatt))
  | gone hatt' => cases hatt.symm.trans hatt'
  | stale hatt₀ hlive hseen => exact absurd ⟨hatt₀, hsince ▸ hseen⟩ hended

theorem Clings.attachedLive (h : Clings s t) (hs : s.inf.AttachedLive) : t.inf.AttachedLive := fun hatt =>
  have h := h hatt
  h.2 (hs h.1)

theorem AskedFor.attachedLive (h : AskedFor pid u t) (hu : u.inf.AttachedLive) : t.inf.AttachedLive := by
  have hsame : t.inf.isAttached = u.inf.isAttached → t.inf.status = u.inf.status → t.inf.AttachedLive := by
    intro hatt hstatus h
    unfold Inferior.IsActive
    rw [hstatus]
    exact hu (hatt ▸ h)
  cases h with
  | refused inf proc e life => exact hsame (congrArg Life.isAttached life) (congrArg Life.status life)
  | unseen inf proc life => exact hsame (congrArg Life.isAttached life) (congrArg Life.status life)
  | ended inf proc st gone life => exact hsame (congrArg Life.isAttached life) (congrArg Life.status life)
  | taken inf proc st status adopted life =>
    intro _
    have hstatus : t.inf.status = status := congrArg Life.status life
    cases adopted with
    | stopped => exact Or.inr hstatus
    | continued => exact Or.inl hstatus

/-- What one call of `sylvan_attach` leaves. -/
theorem attach_attachedLive (hs : s.inf.AttachedLive) :
    wp (fun _ t => ¬FoundEnded s t → t.inf.AttachedLive) (attach env pid) (fun _ t => ¬FoundEnded s t → t.inf.AttachedLive)
      (fun _ t => ¬FoundEnded s t → t.inf.AttachedLive) s := by
  have hprobed : ∀ failed t, t.trace = s.trace ++ [.kill pid 0 failed] → t.inf = s.inf → Attends s t := fun _ _ htrace hinf =>
    attends_event htrace hinf rfl rfl
  have hattends : ∀ t, Attends s t → ¬FoundEnded s t → t.inf.AttachedLive := fun t ht hfound =>
    ht.attachedLive hs (mt (foundEnded_iff_of_attends ht).mpr hfound)
  refine wp_attach_asked (fun c e x => hattends _ (hprobed (some e) _ rfl rfl)) fun x => ?_
  have hstart : Attends s ((s.record (.kill pid 0 none)).withScratch x) := hprobed none _ rfl rfl
  have hasked : ∀ u t, Attends s u → AskedFor pid u t → ¬FoundEnded s t → t.inf.AttachedLive := fun u t hu ht hfound =>
    ht.attachedLive (hu.attachedLive hs (mt (foundEnded_iff_of_askedFor hu ht).mpr hfound))
  refine (keeps_terminateOrDetach (R := Attends) _).mono (fun _ u hu t ht => ?_) (fun _ u hu => hattends u (trans_of Attends hstart hu))
    fun _ u hu => hattends u (trans_of Attends hstart hu)
  have hsu := trans_of Attends hstart hu
  exact ⟨hasked u t hsu ht, fun _ => hasked u t hsu ht, fun _ => hasked u t hsu ht⟩

/-- The call does not find that the process which the inferior is attached to has ended, or is `sylvan_run`, which clears
    `is_attached` in any case. -/
def Op.FindsLive (env : Env) (s : State) (op : Op) : Prop := op = .run ∨ ¬FoundEnded s (s.after (op.call env))

theorem State.after_of_returns {y : SylvanM α} (h : y.Returns s t) : s.after y = t := by
  rcases h with ⟨a, h⟩ | ⟨e, h⟩ <;> rw [State.after, h] <;> rfl

/-- Every call leaves an attached inferior with a live process, unless it finds that the process has ended. -/
theorem Op.attachedLive (op : Op) (hs : s.inf.AttachedLive) (hop : op.FindsLive env s) (h : (op.call env).Returns s t) :
    t.inf.AttachedLive := by
  rw [Op.FindsLive, State.after_of_returns h] at hop
  by_cases hrun : op = .run
  · subst hrun
    exact Clings.attachedLive ((clings_run s).returns h) hs
  have hfound := hop.resolve_left hrun
  by_cases hattach : ∃ pid, op = .attach pid
  · obtain ⟨pid, rfl⟩ := hattach
    exact (attach_attachedLive hs).returns h hfound
  · have ht : Attends s t := (op.attends (fun pid h => hattach ⟨pid, h⟩) hrun s).returns h
    exact ht.attachedLive hs (mt (foundEnded_iff_of_attends ht).mpr hfound)

/-! ### Runs -/

theorem attachedLive_of_run (hs : Created env s) (hrun : Relation.ReflTransGen (Step env fun s op => op.FindsLive env s) s t) :
    t.inf.AttachedLive := by
  induction hrun with
  | refl =>
    have hlife := (created_life hs).1
    intro hatt
    cases hatt.symm.trans (congrArg Life.isAttached hlife)
  | tail _ hstep ih =>
    obtain ⟨-, op, hop, hret⟩ := hstep
    exact op.attachedLive ih hop hret

/-- In every run where no call finds that the process which the inferior is attached to has ended, an attached
    inferior has a process that is running or stopped, and is not attached any more once it was detached. -/
theorem attached_to_live_process (hs : Created env s)
    (hrun : Relation.ReflTransGen (Step env fun s op => op.FindsLive env s) s t) :
    (t.inf.isAttached = true → (t.inf.status = .running ∨ t.inf.status = .stopped) ∧ 0 < t.inf.pid) ∧
    ∀ u, detach env t = .ok () u → ¬FoundEnded t u → u.inf.isAttached = false := by
  have hlive := attachedLive_of_run hs hrun
  have hwent : Went .free ⟨0, .none, false, []⟩ t := went_of_run (fun _ _ _ => Or.inl trivial) trivial (fun _ => Life.License.leaves_free) hs hrun
  have hagrees : t.life.Agrees := Life.Agrees.new.run hwent.lives
  refine ⟨fun hatt => ⟨hlive hatt, hagrees.live.mp (hlive hatt)⟩, fun u hu hfound => ?_⟩
  have hattends : Attends t u := (keeps_detach (R := Attends) t).ok hu
  have hlives : Lives .free t.life t := Relation.ReflTransGen.refl
  have hidle : ¬u.inf.IsActive := ((wp_detach_life hlives hwent.tableOk Life.License.leaves_free).ok hu).2
  cases hatt : u.inf.isAttached with
  | false => rfl
  | true =>
    have hact := hattends.attachedLive hlive (mt (foundEnded_iff_of_attends hattends).mpr hfound) hatt
    exact absurd hact hidle

/-- An inferior is attached to a process, and detached. -/
theorem attached_to_live_process_detach :
    (0 < State.attached.inf.pid) ∧ (State.attached.after (detach .compliant)).inf.isAttached = false := by
  have h := @attached_to_live_process .compliant State.created State.attached
    ⟨State.blank, rfl, rfl, State.after_ok (by decide +kernel)⟩
    (Relation.ReflTransGen.single ⟨by decide +kernel, .attach 7, Or.inr (by decide +kernel),
      Or.inl ⟨(), State.after_ok (by decide +kernel)⟩⟩)
  exact ⟨(h.1 (by decide +kernel)).2, h.2 _ (State.after_ok (by decide +kernel)) (by decide +kernel)⟩

/-- A system where a process that is waited for without blocking has exited. -/
def Env.ending : Env := { Env.compliant with waitpidNohang := fun _ => .ok (some (.exited 0)) }

/-- An inferior that is attached to such a process. -/
def State.expiring : State := (State.blank.after (inferiorCreate .ending)).after (Sylvan.attach .ending 7)

theorem State.expiring_reachable : Reachable .ending State.expiring :=
  Reachable.step ⟨_, ⟨State.blank, rfl, rfl, State.after_ok (by decide +kernel)⟩, Relation.ReflTransGen.refl⟩
    (.attach 7) (by decide +kernel) (Or.inl ⟨(), State.after_ok (by decide +kernel)⟩)

/-- `sylvan_detach` finds that the process has exited, succeeds, and leaves the inferior attached to nothing. -/
theorem detach_leaves_attached :
    Reachable .ending (State.expiring.after (detach .ending)) ∧ (detach .ending State.expiring).isOk = true ∧
      (State.expiring.after (detach .ending)).inf.isAttached = true ∧
      (State.expiring.after (detach .ending)).inf.status = .exited ∧ (State.expiring.after (detach .ending)).inf.pid = 0 :=
  ⟨State.expiring_reachable.step .detach (by decide +kernel) (Or.inl ⟨(), State.after_ok (by decide +kernel)⟩),
    by decide +kernel, by decide +kernel, by decide +kernel, by decide +kernel⟩

end

end Sylvan
