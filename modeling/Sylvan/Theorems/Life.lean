import Sylvan.Theorems.Aside
import Sylvan.Theorems.Status

/-! The functions that give up a process, and those that take one, are sequences of lifecycle steps
    (`Life.Step`), however they end. -/

namespace Sylvan
open Exec

/-- Lifecycle steps lead from `l` to `s`. -/
def Lives (may : Life.License) (l : Life) (s : State) : Prop := Relation.ReflTransGen (Life.Step may) l s.life

/-- Lifecycle steps lead from `l` to what was asked of the system in `s`. -/
def Ended (may : Life.License) (l : Life) (s : State) : Prop :=
  ∃ l', Relation.ReflTransGen (Life.Step may) l l' ∧ l'.trace = s.trace

/-- What a call that gives up a process has made of `s`. -/
structure Lived (may : Life.License) (l : Life) (s t : State) : Prop where
  lives : Lives may l t
  entries : s.inf.SameEntries t.inf

section
variable {env : Env} {may : Life.License} {l : Life} {s t u : State} {x : Scratch} {c : Option Code} {pid : Pid}

theorem Lives.ended (h : Lives may l s) : Ended may l s := ⟨s.life, h, rfl⟩

theorem Lives.step (h : Lives may l s) (hs : Life.Step may s.life t.life) : Lives may l t := h.tail hs

theorem Lives.of_life (h : Lives may l s) (ht : t.life = s.life) : Lives may l t := by
  unfold Lives
  rw [ht]
  exact h

theorem State.Edited.life (h : s.Edited t) : t.life = s.life := by
  unfold State.life
  rw [h.pid, h.status, h.isAttached, h.trace]

theorem Aside.entries (h : Aside s t) : s.inf.SameEntries t.inf :=
  ⟨h.count, fun i => by simp only [Inferior.slot, h.breakpoints, and_self]⟩

/-- A call that leaves the life of the inferior alone. -/
theorem Lives.wp_aside {α : Type} {y : SylvanM α} (hy : Keeps Aside y) (h : Lives may l s) :
    wp (fun _ => Ended may l) y (fun _ t => Lived may l s t) (fun _ t => Lived may l s t) s :=
  (hy s).mono (fun _ _ ha => ⟨h.of_life ha.life, ha.entries⟩) (fun _ _ ha => ⟨h.of_life ha.life, ha.entries⟩)
    fun _ _ ha => (h.of_life ha.life).ended

/-! ### Waiting -/

theorem Waits.lives (hw : Waits s c t) (h : Lives may l s) : Lives may l t := by
  cases hw with
  | unchanged x live => exact h
  | stopped sig x live => exact h.step (.stopped sig live)
  | stoppedFor code sig x live => exact h.step (.stopped sig live)
  | running x live => exact h.step (.running live)
  | exited code x live => exact h.step (.exited code live)
  | terminated sig x live => exact h.step (.terminated sig live)
  | failed code x => exact h
  | untraced code failed x live => exact h.step (.probed _ failed)
  | lost x live => exact h.step (.lost live)

theorem Waits.entries (hw : Waits s c t) : s.inf.SameEntries t.inf := by
  cases hw <;> exact ⟨rfl, fun _ => ⟨rfl, rfl⟩⟩

theorem Waits.hides {f : Memory} (hw : Waits s none t) (hf : t.Hides f) : s.Hides f := by
  cases hw <;> exact hf

theorem Waits.pid_eq (hw : Waits s none t) : t.inf.pid = s.inf.pid := by
  cases hw <;> rfl

theorem Waits.lived (hw : Waits s c t) (h : Lives may l s) : Lived may l s t := ⟨hw.lives h, hw.entries⟩

theorem wp_updateInfStatus_life {blocking : Bool} (h : Lives may l s) :
    wp (fun _ => Ended may l) (updateInfStatus env blocking) (fun _ t => Waits s none t) (fun c t => Waits s (some c) t) s :=
  wp_updateInfStatus (fun x => h.ended) fun live _ x =>
    Lives.ended (h.step (.noticed _ _ (fun _ hst => by cases hst) (Or.inr rfl)))

/-! ### Giving up a process -/

/-- The process of the inferior may be left with the memory that the installed breakpoints hide. -/
def Life.License.Leaves (may : Life.License) (s : State) : Prop := ∀ m, s.Hides m → may.detach s.inf.pid m

theorem Life.License.leaves_free : License.free.Leaves s := fun _ _ => trivial

theorem dissociated_idle : ¬s.dissociated.inf.IsActive := by
  rintro (h | h) <;> cases h

theorem Lived.trans (h : Lived may l s t) (h' : Lived may l t u) : Lived may l s u :=
  ⟨h'.lives, h.entries.trans h'.entries⟩

/-- Once no breakpoint is installed any more, the memory is the one that they hid. -/
theorem State.Patched.hides_of_cleared (h : s.Patched t) (ht : s.inf.TableOk) (hcleared : t.inf.Cleared) : s.Hides t.proc.mem := by
  have hs : s.Hides _ := Overlay.hides_beneath ht.distinct
  have hmem := (h.hides _ hs).eq_of_off hcleared
  rwa [hmem]

theorem wp_kill_life (h : Lives may l s) (own : s.inf.IsActive → may.killAttached ∨ s.inf.isAttached = false) :
    wp (fun _ => Ended may l) (kill env) (fun _ t => Lived may l s t ∧ ¬t.inf.IsActive)
      (fun c t => Lived may l s t ∧ ¬c.IsGone) s := by
  unfold kill
  rw [wp_bind, wp_get, wp_ite]
  split
  · rename_i hact
    exact ⟨⟨h, Inferior.SameEntries.refl _⟩, hact⟩
  rename_i hact
  have hact : s.life.IsActive := not_not.mp hact
  have own := own hact
  rw [wp_bind]
  refine wp_kill (fun x => ?_) fun e x => ?_
  · have hk : Lives may l (s.record (.kill s.inf.pid SIGKILL none)) := h.step (.signaled none hact own)
    rw [wp_bind]
    refine wp_checked (wp_retry_waitpid (fun x => hk.ended) (fun st x _ => ?_) fun e x y =>
      ⟨⟨hk, ⟨rfl, fun _ => ⟨rfl, rfl⟩⟩⟩, by simp [Code.IsGone]⟩)
    exact ⟨⟨hk.step (.reaped st hact own), ⟨rfl, fun _ => ⟨rfl, rfl⟩⟩⟩, dissociated_idle⟩
  · rw [wp_bind, wp_when]
    split
    · exact ⟨⟨h.step (.signaled (some e) hact own), ⟨rfl, fun _ => ⟨rfl, rfl⟩⟩⟩, by simp [Code.IsGone]⟩
    · rename_i he
      obtain rfl := not_not.mp he
      exact ⟨⟨h.step (.killed hact own), ⟨rfl, fun _ => ⟨rfl, rfl⟩⟩⟩, dissociated_idle⟩

theorem wp_release_life (h : Lives may l s) (ht : s.inf.TableOk) (attached : s.inf.isAttached = true) (leaves : may.Leaves s) :
    wp (fun _ => Ended may l) (release env) (fun _ t => Lived may l s t ∧ ¬t.inf.IsActive)
      (fun c t => Lived may l s t ∧ ¬c.IsGone) s := by
  have hgone : ∀ c : Code, c.IsText → ¬c.IsGone := by
    rintro c (rfl | rfl) <;> simp [Code.IsGone]
  unfold release
  rw [wp_bind]
  by_cases hact : s.inf.IsActive
  · refine (wp_breakpointUnsetallPhybp ht hact).imp ?_
      fun c t hpost => ⟨⟨h.of_life hpost.1.life, hpost.1.toSameEntries⟩, hgone c hpost.2⟩
    intro _ t hpost
    obtain ⟨hp, hphy⟩ := hpost
    have hl : Lives may l t := h.of_life hp.life
    have hactive : t.life.IsActive := hp.isActive.mpr hact
    have hattached : t.life.isAttached = true := hp.isAttached.trans attached
    have hcleared : t.inf.Cleared := fun i hi => hphy i (by rwa [Inferior.count_congr hp.count] at hi)
    have hclean : may.detach t.inf.pid t.proc.mem := hp.pid ▸ leaves _ (hp.hides_of_cleared ht hcleared)
    rw [wp_bind]
    refine wp_handled (wp_ptraceResume (fun _ x => ?_) fun e x => ?_)
    · exact ⟨⟨hl.step (.released _ _ none hactive hattached hcleared hclean (Or.inl rfl)),
        hp.toSameEntries.trans ⟨rfl, fun _ => ⟨rfl, rfl⟩⟩⟩, dissociated_idle⟩
    · dsimp only
      rw [wp_when]
      split
      · rename_i he
        exact ⟨⟨hl.step (.refused _ _ e hactive hattached hcleared hclean he), hp.toSameEntries⟩, by simp [Code.IsGone]⟩
      · rename_i he
        obtain rfl := not_not.mp he
        exact ⟨⟨hl.step (.released _ _ _ hactive hattached hcleared hclean (Or.inr rfl)),
          hp.toSameEntries.trans ⟨rfl, fun _ => ⟨rfl, rfl⟩⟩⟩, dissociated_idle⟩
  · unfold breakpointUnsetallPhybp
    rw [wp_bind, wp_get, wp_bind, wp_assert, if_neg hact]
    exact h.ended

/-- A wait that finds the process gone leaves the inferior without one. -/
theorem Waits.idle {c : Code} (hw : Waits s (some c) t) (hc : c.IsGone) : ¬t.inf.IsActive := by
  cases hw with
  | stoppedFor code sig x live hcode => exact absurd hc hcode
  | exited code x live => rintro (h | h) <;> cases h
  | terminated sig x live => rintro (h | h) <;> cases h
  | failed code x hcode => exact absurd hc hcode
  | untraced code failed x live hcode => exact absurd hc hcode
  | lost x live => exact dissociated_idle

theorem Waits.isAttached (hw : Waits s none t) : t.inf.isAttached = s.inf.isAttached := by
  cases hw <;> rfl

theorem wp_detach_life (h : Lives may l s) (ht : s.inf.TableOk) (leaves : may.Leaves s) :
    wp (fun _ => Ended may l) (detach env) (fun _ t => Lived may l s t ∧ ¬t.inf.IsActive)
      (fun c t => Lived may l s t ∧ (c.IsGone → ¬t.inf.IsActive)) s := by
  unfold detach
  rw [wp_bind, wp_get, wp_bind, wp_when]
  split
  · exact ⟨⟨h, Inferior.SameEntries.refl _⟩, fun hc => absurd hc (by simp [Code.IsGone])⟩
  rename_i hattached
  have hattached : s.inf.isAttached = true := by simpa using hattached
  rw [wp_bind, wp_attempt]
  refine (wp_updateInfStatus_life h).imp (fun _ t hw => ?_) fun c t hw => ?_
  · have hl := hw.lived h
    have hleaves : may.Leaves t := fun m hm => hw.pid_eq ▸ leaves m (hw.hides hm)
    refine (wp_release_life hl.lives (hl.entries.tableOk ht) (hw.isAttached.trans hattached) hleaves).imp ?_ ?_
    · intro _ u hpost
      obtain ⟨hu, hidle⟩ := hpost
      exact ⟨hl.trans hu, hidle⟩
    · intro c u hpost
      obtain ⟨hu, hc⟩ := hpost
      exact ⟨hl.trans hu, fun hg => absurd hg hc⟩
  · dsimp only
    rw [wp_when]
    split
    · exact ⟨hw.lived h, hw.idle⟩
    · rename_i hc
      exact ⟨hw.lived h, hw.idle (Or.inr ((not_and_or.mp hc).imp not_not.mp not_not.mp))⟩

theorem wp_terminateOrDetach_life (h : Lives may l s) (ht : s.inf.TableOk) (leaves : may.Leaves s) :
    wp (fun _ => Ended may l) (terminateOrDetach env) (fun _ t => Lived may l s t ∧ ¬t.inf.IsActive)
      (fun _ t => Lived may l s t) s := by
  unfold terminateOrDetach
  rw [wp_bind, wp_get, wp_ite]
  split
  · rename_i hact
    exact ⟨⟨h, Inferior.SameEntries.refl _⟩, hact⟩
  · rw [wp_catching]
    refine (?_ : wp _ _ (fun _ t => Lived may l s t ∧ ¬t.inf.IsActive)
      (fun c t => Lived may l s t ∧ (c.IsGone → ¬t.inf.IsActive)) s).imp (fun _ _ => id) ?_
    · rw [wp_ite]
      split
      · rename_i hattached
        have hattached : s.inf.isAttached = false := by simpa using hattached
        refine (wp_kill_life h fun _ => Or.inr hattached).imp (fun _ _ => id) ?_
        intro c t hpost
        obtain ⟨hl, hc⟩ := hpost
        exact ⟨hl, fun hg => absurd hg hc⟩
      · exact wp_detach_life h ht leaves
    · intro c t hpost
      obtain ⟨hl, hidle⟩ := hpost
      rw [wp_when]
      split
      · exact hl
      · rename_i hc
        have hg : c.IsGone := by
          simp only [ne_eq, not_and_or, not_not] at hc
          exact hc
        exact ⟨hl, hidle hg⟩

/-! ### Taking a process -/

/-- The inferior got the process `pid`, whose wait status says that it is there. -/
structure Taken (pid : Pid) (attached : Bool) (s t : State) : Prop where
  life : ∃ st status, Adopted st status ∧ t.life = ⟨pid, status, attached, s.trace ++ [.waited pid st]⟩
  breakpoints : t.inf.breakpoints = s.inf.breakpoints
  count : t.inf.breakpointCount = s.inf.breakpointCount
  procs : t.procs = s.procs

/-- The process `pid` was waited for, if at all, with a status that says that it is not there. -/
structure Missed (pid : Pid) (s t : State) : Prop where
  life : t.life = s.life ∨ ∃ st, (∀ status, ¬Adopted st status) ∧ t.life = s.life.record (.waited pid st)
  entries : s.inf.SameEntries t.inf

theorem Aside.missed (h : Aside s t) : Missed pid s t := ⟨Or.inl h.life, h.entries⟩

theorem Taken.entries {attached : Bool} (h : Taken pid attached s t) : s.inf.SameEntries t.inf :=
  ⟨h.count, fun i => by simp only [Inferior.slot, h.breakpoints, and_self]⟩

/-- A process that was just taken is live. -/
theorem Taken.isActive {attached : Bool} (h : Taken pid attached s t) : t.inf.IsActive := by
  obtain ⟨st, status, hst, hlife⟩ := h.life
  have hstatus : t.inf.status = status := congrArg Life.status hlife
  cases hst with
  | stopped => exact Or.inr hstatus
  | continued => exact Or.inl hstatus

theorem Missed.lives (h : Missed pid s t) (hl : Lives may l s) (idle : ¬s.inf.IsActive) : Lives may l t := by
  rcases h.life with heq | ⟨st, hst, heq⟩
  · exact hl.of_life heq
  · exact hl.step (heq ▸ .noticed pid st hst (Or.inl idle))

theorem wp_attachedStatus {st : WaitStatus} {path : Except Code String} {F : Fault → State → Prop}
    (hF : ∀ t, Missed pid s t → F .assertFailed t) (hs : Aside s u) :
    wp F (do
      attachedStatus pid st
      Exec.modify fun s => s.setInf { s.inf with pid, isAttached := true, realpath := path.toOption })
      (fun _ t => Taken pid true s t) (fun _ t => Missed pid s t) ((u.record (.waited pid st)).withScratch x) := by
  have hrecord : (u.record (.waited pid st)).life = s.life.record (.waited pid st) := by
    rw [← hs.life]
    rfl
  have htrace : u.trace = s.trace := congrArg Life.trace hs.life
  have hmissed : (∀ status, ¬Adopted st status) → ∀ y, Missed pid s (((u.record (.waited pid st)).withScratch x).withScratch y) :=
    fun hst y => ⟨Or.inr ⟨st, hst, hrecord⟩, hs.entries⟩
  rw [wp_bind]
  cases st with
  | exited code => exact hmissed (fun _ h => by cases h) _
  | signaled sig => exact hmissed (fun _ h => by cases h) _
  | stopped sig =>
    refine ⟨⟨.stopped sig, .stopped, .stopped sig, ?_⟩, hs.breakpoints, hs.count, hs.procs⟩
    rw [← htrace]
    rfl
  | continued =>
    refine ⟨⟨.continued, .running, .continued, ?_⟩, hs.breakpoints, hs.count, hs.procs⟩
    rw [← htrace]
    rfl
  | unknown => exact hF _ (hmissed (fun _ h => by cases h) x)

theorem wp_attachWait {F : Fault → State → Prop} (hF : ∀ f t, Missed pid s t → F f t) :
    wp F (attachWait env pid) (fun _ t => Taken pid true s t) (fun _ t => Missed pid s t) s := by
  unfold attachWait
  rw [wp_bind]
  refine ((Keeps.attempt (keeps_realPath (R := Aside))) s).mono (fun path u hu => ?_) (fun _ _ hu => hu.missed)
    fun f _ hu => hF f _ hu.missed
  rw [wp_bind]
  have hscratch : ∀ x, Missed pid s (u.withScratch x) := fun x => (trans_of Aside hu aside_withScratch).missed
  refine wp_handled (wp_retry_waitpid (fun x => hF _ _ (hscratch x)) (fun st x _ => ?_) fun e x => ?_)
  · exact wp_attachedStatus (hF _) hu
  · dsimp only
    rw [wp_ite]
    split <;> exact hscratch _

/-- `PTRACE_ATTACH` was granted, for a process that is `p`. -/
structure Attaching (pid : Pid) (p : Process) (u v : State) : Prop where
  pos : 0 < pid
  inf : v.inf = u.inf
  trace : v.trace = u.trace ++ [.request .attach pid u.inf p none]
  image : v.procs pid = p

theorem Attaching.life {p : Process} (h : Attaching pid p u t) : t.life = u.life.record (.request .attach pid u.inf p none) := by
  rw [State.life, h.inf, h.trace]
  rfl

/-- What `sylvan_attach` does with a process that it asked for -/
def attachTaken (env : Env) (pid : Pid) : SylvanM Unit := do
  attachWait env pid
  symLoadTables env
  breakpointResetPhybp
  breakpointSetallPhybp env

/-- The rule for `sylvan_attach`: what holds where the inferior gives up its process, and where it asks for `pid`. -/
theorem wp_attach {F : Fault → State → Prop} {Q : Unit → State → Prop} {E : Code → State → Prop}
    (hprobe : ∀ c e x, E c ((s.record (.kill pid 0 (some e))).withScratch x))
    (hyield : ∀ x, wp F (terminateOrDetach env)
      (fun _ u => (∀ c e y, E c ((u.record (.request .attach pid u.inf (u.procs pid) (some e))).withScratch y)) ∧
        ∀ p v, Attaching pid p u v → wp F (attachTaken env pid) Q E v) E ((s.record (.kill pid 0 none)).withScratch x)) :
    wp F (attach env pid) Q E s := by
  unfold attach
  rw [wp_bind]
  refine wp_handled (wp_kill (fun x => ?_) fun e x => ?_)
  · dsimp only
    rw [wp_bind]
    refine (hyield x).imp (fun _ u hu => ?_) fun _ _ => id
    rw [wp_bind]
    refine wp_handled (wp_ptraceAttach (fun p y hpos => ?_) fun e y => ?_)
    · exact hu.2 p _ ⟨hpos, rfl, rfl, Function.update_self ..⟩
    · dsimp only
      rw [wp_ite, wp_ite]
      split
      · exact hu.1 _ e _
      · split <;> exact hu.1 _ e _
  · dsimp only
    rw [wp_ite]
    split <;> exact hprobe _ e _

/-- What is left of `sylvan_attach` and of `handle_parent` once the inferior has the process. -/
theorem wp_reinstall_life (h : Lives may l s) (ht : s.inf.TableOk) :
    wp (fun _ => Ended may l) (do
      breakpointResetPhybp
      breakpointSetallPhybp env) (fun _ t => Lived may l s t) (fun _ t => Lived may l s t) s := by
  rw [wp_bind]
  refine (wp_breakpointResetPhybp (E := fun _ t => Lived may l s t) ht).imp ?_ fun _ _ => id
  intro _ t hpost
  obtain ⟨hed, hse, _⟩ := hpost
  have hl : Lives may l t := h.of_life hed.life
  by_cases hact : t.inf.IsActive
  · have hlived : ∀ u, t.Patched u → Lived may l s u := fun u hp => ⟨hl.of_life hp.life, hse.trans hp.toSameEntries⟩
    exact (wp_breakpointSetallPhybp (hse.tableOk ht) hact).imp (fun _ u hpost => hlived u hpost.1) fun _ u hpost => hlived u hpost.1
  · unfold breakpointSetallPhybp
    rw [wp_bind, wp_get, wp_bind, wp_assert, if_neg hact]
    exact hl.ended

theorem wp_attach_life (h : Lives may l s) (start : may.start) (ht : s.inf.TableOk) (leaves : may.Leaves s) :
    wp (fun _ => Ended may l) (attach env pid) (fun _ t => Lived may l s t) (fun _ t => Lived may l s t) s := by
  refine wp_attach (fun c e x => ⟨h.step (.probed pid (some e)), ⟨rfl, fun _ => ⟨rfl, rfl⟩⟩⟩) fun x => ?_
  have hp : Lives may l (s.record (.kill pid 0 none)) := h.step (.probed pid none)
  refine (wp_terminateOrDetach_life (s := (s.record (.kill pid 0 none)).withScratch x) hp ht leaves).imp
    ?_ fun _ _ hl => ⟨hl.lives, hl.entries⟩
  intro _ t hpost
  obtain ⟨hl, hidle⟩ := hpost
  have hidle : ¬t.life.IsActive := hidle
  have hse : s.inf.SameEntries t.inf := hl.entries
  refine ⟨fun c e y => ⟨hl.lives.step (.asked start pid t.inf _ (some e) hidle), hse⟩, fun p v hv => ?_⟩
  have hasked : Lives may l v := hl.lives.step (hv.life ▸ .asked start pid t.inf p none hidle)
  have hvidle : ¬v.inf.IsActive := hv.inf ▸ hidle
  unfold attachTaken
  rw [wp_bind]
  refine (wp_attachWait fun f u hu => (hu.lives hasked hvidle).ended).imp (fun _ u hu => ?_)
    fun _ u hu => ⟨hu.lives hasked hvidle, hse.trans (hv.inf ▸ hu.entries)⟩
  have hse' : s.inf.SameEntries u.inf := hse.trans (hv.inf ▸ hu.entries)
  obtain ⟨st, status, hst, hulife⟩ := hu.life
  have hlu : Lives may l u := by
    refine hl.lives.step ?_
    rw [hulife, hv.trace]
    exact .attached start pid t.inf p st status hidle hv.pos hst
  rw [wp_bind]
  refine (hlu.wp_aside keeps_symLoadTables).imp (fun _ w hw => ?_) fun _ w hw => ⟨hw.lives, hse'.trans hw.entries⟩
  have hse'' := hse'.trans hw.entries
  exact (wp_reinstall_life hw.lives (hse''.tableOk ht)).imp (fun _ _ hl => ⟨hl.lives, hse''.trans hl.entries⟩)
    fun _ _ hl => ⟨hl.lives, hse''.trans hl.entries⟩

end

end Sylvan
