import Sylvan.Theorems.Attachment
import Sylvan.Theorems.Stepping

/-! What a failed `sylvan_attach` leaves. There is no way back in it: once the system has given hold of the process, an
    error leaves the process held; and where the release of the process before finds that this has ended, the inferior
    stays attached to nothing. -/

namespace Sylvan
open Exec

/-- Whether the process `pid` is traced after an event, if `traced` tells whether it was before. -/
def Event.traces (pid : Pid) (traced : Bool) : Event → Bool
  | .request .attach pid' _ _ failed => traced || decide (failed = none ∧ pid' = pid)
  | .request .detach pid' _ _ failed => traced && !decide (failed = none ∧ pid' = pid)
  | .waited pid' st => traced && !(decide (pid' = pid) && st.IsEnd)
  | .kill pid' _ failed => traced && !decide (failed = some ESRCH ∧ pid' = pid)
  | _ => traced

/-- The process `pid` is left traced by what happened between `s` and `t`: the system let the inferior attach to it, and
    since then it was neither detached from, nor found to have ended, nor did the system say to the wait after the request
    that there is no such process. -/
structure Held (pid : Pid) (s t : State) : Prop where
  traced : (s.since t).foldl (Event.traces pid) false = true
  known : ¬((∃ inf proc, (s.since t).getLast? = some (.request .attach pid inf proc none)) ∧ t.scratch.errno = ECHILD)

/-- The inferior is in no way attached to `pid`, but as it was in `s`, the process is not held, and whatever entry is
    marked as installed is so in the process that the inferior has. -/
structure LeavesNothing (pid : Pid) (s t : State) : Prop where
  apart : t.inf.isAttached = false ∧ (0 < pid → t.inf.pid ≠ pid) ∨ t.inf.isAttached = s.inf.isAttached ∧ t.inf.pid = s.inf.pid
  released : ¬Held pid s t
  installed : 0 < t.inf.pid → ∀ i, i < t.inf.count → (t.inf.slot i).isEnabledPhy = true →
    t.proc.mem (t.inf.slot i).addr = 0xCC

/-- No wait between `s` and `t` told of an end. -/
def NoEnd (s t : State) : Prop := ∃ es, t.trace = s.trace ++ es ∧ ∀ pid, ¬EndSeen pid es

instance : IsPreorder State NoEnd where
  refl _ := ⟨[], (List.append_nil _).symm, fun _ => not_endSeen_nil⟩
  trans _ _ _ := by
    rintro ⟨es, htrace, hes⟩ ⟨es', htrace', hes'⟩
    refine ⟨es ++ es', by rw [htrace', htrace, List.append_assoc], fun pid h => ?_⟩
    exact (endSeen_append.mp h).elim (hes pid) (hes' pid)

/-- The process has, at the addresses of the entries that are marked in `t`, what it had in `s`. -/
def Spares (s t : State) : Prop :=
  ∀ i, i < s.inf.count → (t.inf.slot i).isEnabledPhy = true →
    t.proc.mem (s.inf.slot i).addr = s.proc.mem (s.inf.slot i).addr

section
variable (env : Env) (pid : Pid) (s : State)

/-! ### What the system answers -/

/-- The system tells that there is a process `pid`, and lets the inferior give up the one that it has. -/
def Yields : Prop := ∃ s₁ u, Sys.kill env pid 0 s = .ok (.ok ()) s₁ ∧ terminateOrDetach env s₁ = .ok () u

/-- The system lets the inferior attach to `pid` as well, and answers the wait for it with `r`. -/
def Hands (r : Except Errno WaitStatus) : Prop :=
  ∃ s₁ u v path w w', Sys.kill env pid 0 s = .ok (.ok ()) s₁ ∧ terminateOrDetach env s₁ = .ok () u ∧
    Sys.ptraceAttach env pid u = .ok (.ok ()) v ∧ Exec.attempt (realPathPid env pid) v = .ok path w ∧
    Sys.retry (Sys.waitpid env pid) env.retries w = .ok r w'

/-- It hands over no process: if it lets the inferior attach to `pid`, the wait is told that there is no such process, or
    that it has ended. -/
def HandsNone : Prop := ∀ r, Hands env pid s r → r = .error ECHILD ∨ ∃ st, r = .ok st ∧ st.IsEnd = true

/-- The breakpoints of the process are removed up to the `i`th, when the inferior gives it up. -/
def Removes (i : Nat) : Prop :=
  s.inf.isAttached = true ∧ ∃ u v, updateInfStatus env false s = .ok () u ∧
    each (List.range (i + 1)) (breakpointRemovePhybp env) u = .ok () v

/-- So it is in a call of `sylvan_attach`. -/
def TakesOut (i : Nat) : Prop := ∃ s₁, Sys.kill env pid 0 s = .ok (.ok ()) s₁ ∧ Removes env s₁ i

/-- The system says of the process, when it is asked for its status, that it has ended. -/
def Gone : Prop := ∃ c u, updateInfStatus env false s = .error c u ∧ (c = .procExited ∨ c = .procTerminated)

/-- So it says in a call of `sylvan_attach`, of the process to which the inferior was attached. -/
def FindsGone : Prop := s.inf.isAttached = true ∧ ∃ s₁, Sys.kill env pid 0 s = .ok (.ok ()) s₁ ∧ Gone env s₁

end

/-- The inferior keeps the process that it has, and the marks of the entries of which `out` does not hold. -/
structure Withheld (out : Nat → Prop) (s t : State) : Prop extends Inferior.SameEntries s.inf t.inf where
  isAttached : t.inf.isAttached = s.inf.isAttached
  pid : t.inf.pid = s.inf.pid
  spares : Spares s t
  marks : ∀ i, i < s.inf.count → ((t.inf.slot i).isEnabledPhy = true ↔ (s.inf.slot i).isEnabledPhy = true ∧ ¬out i)

section
variable {env : Env} {F : Fault → State → Prop} {s t u v : State} {pid : Pid} {e : Event} {es : List Event} {c : Option Code} {i : Nat} {x : Scratch}
  {out : Nat → Prop} {r r' : Except Errno WaitStatus}

/-! ### Releasing -/

theorem noEnd_of_trace (h : t.trace = s.trace) : NoEnd s t := ⟨[], by rw [h, List.append_nil], fun _ => not_endSeen_nil⟩

theorem noEnd_event (h : t.trace = s.trace ++ [e]) (he : ∀ pid, e.TellsEnd pid = false) : NoEnd s t :=
  ⟨[e], h, fun pid => by rw [endSeen_singleton, he]; exact Bool.false_ne_true⟩

/-- A status that is no end was seen. -/
theorem noEnd_waited {st : WaitStatus} (h : t.trace = s.trace ++ [.waited pid st]) (hst : st.IsEnd = false) : NoEnd s t := by
  refine noEnd_event h fun pid' => ?_
  rw [Event.TellsEnd, hst, Bool.and_false]

theorem noEnd_request {req : Request} : Keeps NoEnd (Sys.ptraceResume env req) := fun _ =>
  wp_ptraceResume (fun _ _ => noEnd_event rfl fun _ => rfl) fun _ _ => noEnd_event rfl fun _ => rfl

instance : KeptByRelease NoEnd where
  scratch _ _ := noEnd_of_trace rfl
  image _ _ _ := noEnd_of_trace rfl
  edited h := noEnd_of_trace h.trace
  request _ _ _ := noEnd_request
  dissociate := Keeps.modify fun _ => noEnd_of_trace rfl

theorem Waits.noEnd_of_ok (hw : Waits s none t) : NoEnd s t := by
  cases hw with
  | unchanged => exact noEnd_of_trace rfl
  | stopped sig => exact @noEnd_waited _ _ _ (.stopped sig) rfl rfl
  | running => exact @noEnd_waited _ _ _ .continued rfl rfl

/-- The code tells whether an end was seen; the inferior stays attached where one was. -/
theorem Waits.end_of_error {c : Code} (hw : Waits s (some c) t) :
    ¬(c = .procExited ∨ c = .procTerminated) ∧ NoEnd s t ∨
      (c = .procExited ∨ c = .procTerminated) ∧ 0 < s.inf.pid ∧ EndSeen s.inf.pid (s.since t) ∧ t.inf.isAttached = s.inf.isAttached := by
  have hgone : ∀ {c : Code}, ¬c.IsGone → ¬(c = .procExited ∨ c = .procTerminated) := fun h h' => h (Or.inr h')
  have hseen : ∀ st : WaitStatus, t.trace = s.trace ++ [.waited s.inf.pid st] → st.IsEnd = true → EndSeen s.inf.pid (s.since t) :=
    fun _ htrace hst => by
      rw [State.since, Trail.since, htrace, List.drop_left, endSeen_singleton, tellsEnd_waited, hst]
  cases hw with
  | stoppedFor code sig x live hcode => exact Or.inl ⟨hgone hcode, @noEnd_waited _ _ _ (.stopped sig) rfl rfl⟩
  | exited code x live => exact Or.inr ⟨Or.inl rfl, live, hseen (.exited code) rfl rfl, rfl⟩
  | terminated sig x live => exact Or.inr ⟨Or.inr rfl, live, hseen (.signaled sig) rfl rfl, rfl⟩
  | failed code x hcode => exact Or.inl ⟨hgone hcode, noEnd_of_trace rfl⟩
  | untraced code failed x live hcode =>
    exact Or.inl ⟨hgone hcode, noEnd_event (e := .kill s.inf.pid 0 failed) rfl fun _ => rfl⟩
  | lost x live => exact Or.inl ⟨by simp, noEnd_event (e := .kill s.inf.pid 0 (some ESRCH)) rfl fun _ => rfl⟩

theorem EndSeen.of_noEnd (h : NoEnd s u) : ¬EndSeen pid (s.since u) := by
  obtain ⟨es, htrace, hes⟩ := h
  rw [State.since, Trail.since, htrace, List.drop_left]
  exact hes pid

theorem not_gone {u : Unit} (h : updateInfStatus env false s = .ok u t) : ¬Gone env s := by
  rintro ⟨c, u, hu, -⟩
  cases h.symm.trans hu

theorem gone_iff {c : Code} (h : updateInfStatus env false s = .error c t) : Gone env s ↔ c = .procExited ∨ c = .procTerminated := by
  constructor
  · rintro ⟨c', u, hu, hc⟩
    cases h.symm.trans hu
    exact hc
  · intro hc
    exact ⟨c, t, h, hc⟩

/-- There is an end to be seen just where the process is gone, and then the process is given up, but the inferior stays
    attached. -/
theorem wp_terminateOrDetach_gone (hlive : 0 < s.inf.pid → s.inf.IsActive) (hatt : s.inf.isAttached = true) :
    wp (fun _ _ => True) (terminateOrDetach env)
      (fun _ u => ¬Gone env s ∧ NoEnd s u ∨ Gone env s ∧ EndSeen s.inf.pid (s.since u) ∧ u.inf.isAttached = true)
      (fun _ _ => ¬Gone env s) s := by
  have hwaits : wp (fun _ _ => True) (updateInfStatus env false) (fun _ t => Waits s none t) (fun c t => Waits s (some c) t) s :=
    wp_updateInfStatus (fun _ => trivial) fun _ _ _ => trivial
  unfold terminateOrDetach
  rw [wp_bind, wp_get, wp_ite]
  split
  · rename_i hidle
    refine Or.inl ⟨?_, refl_of NoEnd s⟩
    rintro ⟨c, u, hu, hc⟩
    rcases (hwaits.error hu).end_of_error with ⟨hnot, -⟩ | ⟨-, hpos, -⟩
    · exact hnot hc
    · exact hidle (hlive hpos)
  rw [wp_catching]
  suffices hdetach : wp (fun _ _ => True) (detach env)
      (fun _ u => ¬Gone env s ∧ NoEnd s u ∨ Gone env s ∧ EndSeen s.inf.pid (s.since u) ∧ u.inf.isAttached = true)
      (fun _ u => ¬Gone env s ∧ NoEnd s u) s by
    refine hdetach.imp (fun _ _ => id) fun c u hu => ?_
    rw [wp_when]
    split
    · exact hu.1
    · exact Or.inl hu
  unfold detach
  rw [wp_bind, wp_get, wp_bind, wp_when, if_neg (by simp [hatt]), wp_bind, wp_attempt]
  refine wp_of (fun _ t ht => ?_) (fun c t ht => ?_) fun _ _ _ => trivial
  · have hnot := not_gone ht
    have hsame := (hwaits.ok ht).noEnd_of_ok
    exact (keeps_release (R := NoEnd) t).mono (fun _ _ h => Or.inl ⟨hnot, trans_of NoEnd hsame h⟩)
      (fun _ _ h => ⟨hnot, trans_of NoEnd hsame h⟩) fun _ _ _ => trivial
  · dsimp only
    rw [wp_when, gone_iff ht]
    rcases (hwaits.error ht).end_of_error with ⟨hnot, hsame⟩ | ⟨hc, -, hseen, hattached⟩
    · rw [if_pos (not_or.mp hnot)]
      exact ⟨hnot, hsame⟩
    · rw [if_neg (fun h => hc.elim h.1 h.2)]
      exact Or.inr ⟨hc, hseen, hattached.trans hatt⟩

/-! ### A process that is not given up -/

theorem withheld_of_eq (hinf : t.inf = s.inf) (hprocs : t.procs = s.procs) (hout : ∀ i, ¬out i) : Withheld out s t where
  toSameEntries := hinf ▸ Inferior.SameEntries.refl _
  isAttached := hinf ▸ rfl
  pid := hinf ▸ rfl
  spares := fun i _ _ => by rw [State.proc, State.proc, hinf, hprocs]
  marks := fun i _ => by rw [hinf]; exact (and_iff_left (hout i)).symm

theorem Waits.withheld {c : Code} (hw : Waits s (some c) t) (hc : ¬c.IsGone) (hout : ∀ i, ¬out i) : Withheld out s t := by
  have hgone : ∀ {c : Code}, ¬c.IsGone → c ≠ .procExited ∧ c ≠ .procTerminated ∧ c ≠ .procNotFound := fun h =>
    ⟨fun heq => h (heq ▸ Or.inr (Or.inl rfl)), fun heq => h (heq ▸ Or.inr (Or.inr rfl)), fun heq => h (heq ▸ Or.inl rfl)⟩
  cases hw with
  | stoppedFor code sig x live =>
    exact ⟨⟨rfl, fun _ => ⟨rfl, rfl⟩⟩, rfl, rfl, fun _ _ _ => rfl, fun i _ => (and_iff_left (hout i)).symm⟩
  | exited code x live => exact absurd rfl (hgone hc).1
  | terminated sig x live => exact absurd rfl (hgone hc).2.1
  | failed code x => exact withheld_of_eq rfl rfl hout
  | untraced code failed x live => exact withheld_of_eq rfl rfl hout
  | lost x live => exact absurd rfl (hgone hc).2.2

/-- Taking out one breakpoint leaves the memory at the addresses of the others alone. -/
theorem Spares.uninstall (hs : Spares s t) (hp : s.Patched t) (ht : s.inf.TableOk) (hi : i < s.inf.count) :
    Spares s ((t.uninstall i).withScratch x) := by
  intro j hj hphy
  have haddr : ∀ k, (t.inf.slot k).addr = (s.inf.slot k).addr := fun k => (hp.entry k).1
  have hphy : ((t.inf.clearPhy i).slot j).isEnabledPhy = true := hphy
  rw [Inferior.clearPhy, setSlot_isEnabledPhy (ht.lt hi)] at hphy
  split at hphy
  · cases hphy
  rename_i hne
  have hother : (s.inf.slot j).addr ≠ (t.inf.slot i).addr := by
    rw [haddr]
    exact fun heq => hne (ht.distinct j i hj hi heq)
  refine Eq.trans ?_ (hs j hj hphy)
  rw [withScratch_proc, State.uninstall_proc]
  exact Function.update_of_ne hother ..

theorem wp_removePhybp_spares (hp : s.Patched t) (hs : Spares s t) (ht : s.inf.TableOk) (hact : s.inf.IsActive) (hi : i < s.inf.count) :
    wp F (breakpointRemovePhybp env i)
      (fun _ u => (s.Patched u ∧ Spares s u) ∧ ∀ j, (u.inf.slot j).isEnabledPhy = if j = i then false else (t.inf.slot j).isEnabledPhy)
      (fun c u => (s.Patched u ∧ Spares s u) ∧ (∀ j, (u.inf.slot j).isEnabledPhy = (t.inf.slot j).isEnabledPhy) ∧ c.IsText) t := by
  have hit : i < t.inf.count := by rwa [Inferior.count_congr hp.count]
  refine wp_breakpointRemovePhybp (hp.isActive.mpr hact) (ht.lt hi) (fun hphy => ⟨⟨hp, hs⟩, isEnabledPhy_of_skipped hphy⟩)
    (fun hphy x => ⟨⟨?_, ?_⟩, setSlot_isEnabledPhy (ht.lt hi)⟩)
    fun _ c x hc => ⟨⟨hp.trans State.patched_withScratch, hs⟩, fun _ => rfl, hc⟩
  · exact hp.trans ((State.patched_uninstall (hp.tableOk ht) hit hphy).trans State.patched_withScratch)
  · exact hs.uninstall hp ht hi

/-- The loop takes out the breakpoints up to the first that it fails at, and leaves the marks from there on. -/
theorem wp_unsetallPhybp_spares (ht : s.inf.TableOk) (hact : s.inf.IsActive) :
    wp F (breakpointUnsetallPhybp env)
      (fun _ t => (s.Patched t ∧ Spares s t) ∧ ∀ i, i < s.inf.count →
        (t.inf.slot i).isEnabledPhy = false ∧ ∃ v, each (List.range (i + 1)) (breakpointRemovePhybp env) s = .ok () v)
      (fun c t => ((s.Patched t ∧ Spares s t) ∧ ∀ i, i < s.inf.count → ((t.inf.slot i).isEnabledPhy = true ↔
        (s.inf.slot i).isEnabledPhy = true ∧ ¬∃ v, each (List.range (i + 1)) (breakpointRemovePhybp env) s = .ok () v)) ∧ c.IsText) s := by
  unfold breakpointUnsetallPhybp
  rw [wp_bind, wp_get, wp_bind, wp_assert, if_pos hact]
  refine wp.imp (wp_each_range
    (I := fun k t => ((s.Patched t ∧ Spares s t) ∧ each (List.range k) (breakpointRemovePhybp env) s = .ok () t) ∧
      ∀ i, (t.inf.slot i).isEnabledPhy = if i < k then false else (s.inf.slot i).isEnabledPhy)
    ⟨⟨⟨State.Patched.refl s, fun _ _ _ => rfl⟩, rfl⟩, fun i => by simp⟩ ?_) (fun _ t hpost => ?_) fun _ _ => id
  · rintro k t hk ⟨⟨⟨hp, hs⟩, hrun⟩, hphy⟩
    have hremove := @wp_removePhybp_spares env (fun _ _ => False) s t k hp hs ht hact hk
    refine wp_of (fun _ u hu => ?_) (fun c u hu => ?_) fun f u hu => ?_
    · obtain ⟨hkept, hphy'⟩ := hremove.ok hu
      refine ⟨⟨hkept, (each_range_succ hrun).trans hu⟩, fun i => ?_⟩
      rw [hphy', hphy]
      by_cases hik : i = k
      · rw [if_pos hik, if_pos (by omega)]
      · rw [if_neg hik]
        by_cases hlt : i < k
        · rw [if_pos hlt, if_pos (by omega)]
        · rw [if_neg hlt, if_neg (by omega)]
    · obtain ⟨hkept, hphy', hc⟩ := hremove.error hu
      refine ⟨⟨hkept, fun i _ => ?_⟩, hc⟩
      rw [hphy', hphy]
      by_cases hlt : i < k
      · rw [if_pos hlt]
        exact iff_of_false Bool.false_ne_true fun h => h.2 (each_range_ok hrun hlt)
      · have herror := each_range_error ((each_range_succ hrun).trans hu) (n := i + 1) (by omega)
        rw [if_neg hlt, herror]
        exact (and_iff_left fun ⟨v, hv⟩ => by cases hv).symm
    · exact (hremove.fault hu).elim
  · obtain ⟨⟨hkept, hrun⟩, hphy⟩ := hpost
    exact ⟨hkept, fun i hi => ⟨by rw [hphy, if_pos hi], each_range_ok hrun hi⟩⟩

/-- Where the inferior fails to release its process, the marks that are left are those of the entries that were not taken
    out. -/
theorem wp_release_withheld (ht : s.inf.TableOk) (hact : s.inf.IsActive) :
    wp (fun _ _ => True) (release env) (fun _ _ => True) (fun c t =>
      Withheld (fun i => ∃ v, each (List.range (i + 1)) (breakpointRemovePhybp env) s = .ok () v) s t ∧ ¬c.IsGone) s := by
  unfold release
  rw [wp_bind]
  refine (wp_unsetallPhybp_spares ht hact).imp (fun _ t hpost => ?_) fun c t hpost => ?_
  · obtain ⟨⟨hp, hs⟩, hout⟩ := hpost
    rw [wp_bind]
    refine wp_handled (wp_ptraceResume (fun _ _ => trivial) fun e x => ?_)
    dsimp only
    rw [wp_when]
    split
    · refine ⟨⟨hp.toSameEntries, hp.isAttached, hp.pid, hs, fun i hi => ?_⟩, by simp [Code.IsGone]⟩
      obtain ⟨hoff, hremoved⟩ := hout i hi
      exact iff_of_false (fun h => Bool.false_ne_true (hoff.symm.trans h)) fun h => h.2 hremoved
    · trivial
  · obtain ⟨⟨⟨hp, hs⟩, hmarks⟩, hc⟩ := hpost
    refine ⟨⟨hp.toSameEntries, hp.isAttached, hp.pid, hs, hmarks⟩, ?_⟩
    rcases hc with h | h <;> simp [h, Code.IsGone]

theorem wp_detach_withheld (ht : s.inf.TableOk) (hlive : 0 < s.inf.pid → s.inf.IsActive) (hatt : s.inf.isAttached = true) :
    wp (fun _ _ => True) (detach env) (fun _ _ => True) (fun c t => c.IsGone ∨ Withheld (Removes env s) s t) s := by
  have hwaits : wp (fun _ _ => True) (updateInfStatus env false) (fun _ t => Waits s none t) (fun c t => Waits s (some c) t) s :=
    wp_updateInfStatus (fun _ => trivial) fun _ _ _ => trivial
  unfold detach
  rw [wp_bind, wp_get, wp_bind, wp_when, if_neg (by simp [hatt]), wp_bind, wp_attempt]
  refine wp_of (fun _ u hu => ?_) (fun c u hu => ?_) fun _ _ _ => trivial
  · have hw := hwaits.ok hu
    refine (wp_release_withheld (hw.entries.tableOk ht) (hw.isActive hlive)).imp (fun _ _ => id) fun c v hpost => Or.inr ?_
    obtain ⟨hv, -⟩ := hpost
    have hslot : u.inf.slot = s.inf.slot := hw.stays.slot
    have hcount : u.inf.count = s.inf.count := Inferior.count_congr hw.entries.count
    refine ⟨hw.entries.trans hv.toSameEntries, hv.isAttached.trans hw.isAttached, hv.pid.trans hw.pid_eq, fun i hi hphy => ?_,
      fun i hi => ?_⟩
    · rw [← hslot, ← hw.stays.proc]
      exact hv.spares i (hcount ▸ hi) hphy
    · rw [hv.marks i (hcount ▸ hi), hslot]
      refine and_congr_right fun _ => not_congr ⟨fun ⟨v, hv⟩ => ⟨hatt, u, v, hu, hv⟩, fun ⟨_, u', v, hu', hv⟩ => ?_⟩
      cases hu.symm.trans hu'
      exact ⟨v, hv⟩
  · have hw := hwaits.error hu
    dsimp only
    rw [wp_when]
    split
    · by_cases hc : c.IsGone
      · exact Or.inl hc
      · exact Or.inr (hw.withheld hc fun i ⟨_, u', v, hu', _⟩ => by cases hu.symm.trans hu')
    · trivial

/-- Where `sylvan_terminate_or_detach` fails, the inferior keeps its process. -/
theorem wp_terminateOrDetach_withheld (ht : s.inf.TableOk) (hlive : 0 < s.inf.pid → s.inf.IsActive) :
    wp (fun _ _ => True) (terminateOrDetach env) (fun _ _ => True) (fun _ t => Withheld (Removes env s) s t) s := by
  unfold terminateOrDetach
  rw [wp_bind, wp_get, wp_ite]
  split
  · trivial
  rename_i hact
  rw [wp_catching]
  refine (?_ : wp _ _ (fun _ _ => True) (fun c t => c.IsGone ∨ Withheld (Removes env s) s t) s).imp (fun _ _ => id) fun c t hpost => ?_
  · rw [wp_ite]
    split
    · rename_i hatt
      have hout : ∀ i, ¬Removes env s i := fun i h => hatt h.1
      unfold kill
      rw [wp_bind, wp_get, wp_ite, if_neg hact, wp_bind]
      refine wp_kill (fun x => ?_) fun e x => ?_
      · rw [wp_bind]
        exact wp_checked (wp_retry_waitpid (fun _ => trivial) (fun _ _ _ => trivial) fun _ _ _ => Or.inr (withheld_of_eq rfl rfl hout))
      · rw [wp_bind, wp_when]
        split
        · exact Or.inr (withheld_of_eq rfl rfl hout)
        · trivial
    · rename_i hatt
      exact wp_detach_withheld ht hlive (not_not.mp hatt)
  · rw [wp_when]
    split
    · rename_i hne
      refine hpost.resolve_left ?_
      rintro (h | h | h)
      · exact hne.1 h
      · exact hne.2.1 h
      · exact hne.2.2 h
    · trivial

/-! ### The target -/

/-- The answer is one, the system being what it is. -/
theorem Hands.unique (h : Hands env pid s r) (h' : Hands env pid s r') : r = r' := by
  obtain ⟨s₁, u, v, path, w, w', hkill, hyield, hattach, hpath, hwait⟩ := h
  obtain ⟨s₂, u₂, v₂, path₂, w₂, w₂', hkill', hyield', hattach', hpath', hwait'⟩ := h'
  cases hkill.symm.trans hkill'
  cases hyield.symm.trans hyield'
  cases hattach.symm.trans hattach'
  cases hpath.symm.trans hpath'
  cases hwait.symm.trans hwait'
  rfl

theorem Hands.handsNone_iff (h : Hands env pid s r) : HandsNone env pid s ↔ r = .error ECHILD ∨ ∃ st, r = .ok st ∧ st.IsEnd = true :=
  ⟨fun hnone => hnone r h, fun hr _ h' => h.unique h' ▸ hr⟩

theorem foldl_traces_of_asksNothing (pid : Pid) (h : AsksNothing es) : es.foldl (Event.traces pid) false = false := by
  induction es with
  | nil => rfl
  | cons e es ih =>
    rw [List.foldl_cons]
    have he := h e List.mem_cons_self
    have hfalse : Event.traces pid false e = false := by
      cases e with
      | request req =>
        cases req with
        | attach => cases he
        | detach | cont | singlestep => rfl
      | kill | waited | forked | freed => rfl
    rw [hfalse]
    exact ih fun e' he' => h e' (List.mem_cons_of_mem _ he')

theorem not_held_of_asksNothing (h : AsksNothing (s.since t)) : ¬Held pid s t := fun hheld => by
  have htraced := hheld.traced
  rw [foldl_traces_of_asksNothing pid h] at htraced
  cases htraced

/-- How a call goes on that asks for `pid` in `u`, with the answer that the wait is given. -/
inductive Answered (env : Env) (pid : Pid) (s u t : State) : Prop where
  | refused (inf : Inferior) (proc : Process) (e : Errno) (life : t.life = u.life.record (.request .attach pid inf proc (some e)))
    (unheard : ∀ r, ¬Hands env pid s r)
  | unseen (inf : Inferior) (proc : Process) (life : t.life = u.life.record (.request .attach pid inf proc none))
    (heard : Hands env pid s (.error t.scratch.errno))
  | ended (inf : Inferior) (proc : Process) (st : WaitStatus) (gone : ∀ status, ¬Adopted st status) (isEnd : st.IsEnd = true)
    (life : t.life = (u.life.record (.request .attach pid inf proc none)).record (.waited pid st)) (heard : Hands env pid s (.ok st))
  | taken (inf : Inferior) (proc : Process) (st : WaitStatus) (status : InferiorState) (adopted : Adopted st status)
    (life : t.life = ⟨pid, status, true, u.trace ++ [.request .attach pid inf proc none] ++ [.waited pid st]⟩)
    (heard : Hands env pid s (.ok st))

/-- The process is left traced just where the system hands it over. -/
theorem Answered.held_iff (h : Answered env pid s u t) (ha : Attends s u) : Held pid s t ↔ ¬HandsNone env pid s := by
  obtain ⟨es, hes, hquiet, -⟩ := ha
  have hfold := foldl_traces_of_asksNothing pid hquiet
  have hsince : ∀ {seg}, t.trace = u.trace ++ seg → s.since t = es ++ seg := fun h => by
    rw [State.since, Trail.since, h, hes, List.append_assoc, List.drop_left]
  cases h with
  | refused inf proc e life unheard =>
    have hnone : HandsNone env pid s := fun r hr => absurd hr (unheard r)
    refine iff_of_false (fun hheld => ?_) (not_not.mpr hnone)
    have htraced := hheld.traced
    rw [hsince (congrArg Life.trace life), List.foldl_append, hfold] at htraced
    simp [Event.traces] at htraced
  | unseen inf proc life heard =>
    have hlast := hsince (congrArg Life.trace life)
    rw [heard.handsNone_iff]
    constructor
    · rintro hheld (herr | ⟨st, hst, -⟩)
      · exact hheld.known ⟨⟨inf, proc, by rw [hlast, List.getLast?_concat]⟩, Except.error.inj herr⟩
      · cases hst
    · intro hhanded
      refine ⟨by rw [hlast, List.foldl_append, hfold]; simp [Event.traces], fun hknown => hhanded (Or.inl ?_)⟩
      rw [hknown.2]
  | ended inf proc st gone isEnd life heard =>
    refine iff_of_false (fun hheld => ?_) (not_not.mpr (heard.handsNone_iff.mpr (Or.inr ⟨st, rfl, isEnd⟩)))
    have htraced := hheld.traced
    rw [hsince ((congrArg Life.trace life).trans (List.append_assoc ..)), List.foldl_append, hfold] at htraced
    simp [Event.traces, isEnd] at htraced
  | taken inf proc st status adopted life heard =>
    have hend : st.IsEnd = false := by cases adopted <;> rfl
    have hlast := hsince ((congrArg Life.trace life).trans (List.append_assoc ..))
    refine iff_of_true ⟨by rw [hlast, List.foldl_append, hfold]; simp [Event.traces, hend], ?_⟩ ?_
    · rintro ⟨⟨inf', proc', hget⟩, -⟩
      rw [hlast] at hget
      simp at hget
    · rw [heard.handsNone_iff]
      rintro (herr | ⟨st', hst, hend'⟩)
      · cases herr
      · cases hst
        cases hend.symm.trans hend'

/-! ### A failed attach -/

/-- How a call of `sylvan_attach` fails: the inferior keeps the process that it had, or has given it up and asked for
    `pid`. -/
inductive Failed (env : Env) (pid : Pid) (s t : State) : Prop where
  | withheld (unyielding : ¬Yields env pid s) (present : ¬FindsGone env pid s) (attends : Attends s t)
    (kept : Withheld (TakesOut env pid s) s t)
  | asked (u : State) (yields : Yields env pid s) (attends : Attends s u) (idle : u.inf.pid = 0)
    (ends : s.inf.isAttached = true → ¬FindsGone env pid s ∧ NoEnd s u ∨
      FindsGone env pid s ∧ EndSeen s.inf.pid (s.since u) ∧ u.inf.isAttached = true) (answered : Answered env pid s u t)

theorem wp_attempt_realPathPid (env : Env) (pid : Pid) (v : State) :
    wp (fun _ _ => False) (Exec.attempt (realPathPid env pid)) (fun _ w => Aside v w) (fun _ _ => False) v := by
  refine wp_attempt.mpr ?_
  unfold realPathPid realPath
  refine wp_handled (wp_answered fun r x => ?_)
  cases r with
  | ok path => exact aside_withScratch
  | error e =>
    dsimp only
    rw [wp_ite]
    split <;> exact trans_of Aside aside_withScratch aside_withScratch

/-- Once the process is taken over, it stays that of the inferior. -/
theorem keeps_attachTaken_rest : Keeps SameLife (do
    symLoadTables env
    breakpointResetPhybp
    breakpointSetallPhybp env) :=
  Keeps.bind ((keeps_symLoadTables (R := Aside)).imp fun _ _ h => h.life) fun _ =>
    Keeps.bind (edited_breakpointResetPhybp.imp fun _ _ h => h.life) fun _ => edited_setallPhybp.imp fun _ _ h => h.life

/-- The wait for the process was answered, and its status taken over. -/
theorem attachTaken_answered {code : Code} {p : Process} (hv : Attaching pid p u v) (h : attachTaken env pid v = .error code t)
    (hheard : ∀ path w r w', Exec.attempt (realPathPid env pid) v = .ok path w →
      Sys.retry (Sys.waitpid env pid) env.retries w = .ok r w' → Hands env pid s r) : Answered env pid s u t := by
  obtain ⟨path, w, hpath, hw⟩ := (wp_attempt_realPathPid env pid v).exists_ok
  have hlife : w.life = u.life.record (.request .attach pid u.inf p none) := hw.life.trans hv.life
  suffices hwp : wp (fun _ _ => True) (attachTaken env pid) (fun _ _ => True) (fun _ t => Answered env pid s u t) v from hwp.error h
  unfold attachTaken attachWait
  rw [wp_bind, wp_bind]
  refine wp_of_eq_ok hpath ?_
  rw [wp_bind]
  have hheard : ∀ {r w'}, Sys.retry (Sys.waitpid env pid) env.retries w = .ok r w' → Hands env pid s r := hheard path w _ _ hpath
  have hwaits : wp (fun _ _ => True) (Sys.retry (Sys.waitpid env pid) env.retries)
      (fun r w' => (∀ e, r = .error e → ∃ x, x.errno = e ∧ w' = w.withScratch x) ∧
        ∀ st, r = .ok st → ∃ x, w' = (w.record (.waited pid st)).withScratch x) (fun _ _ => False) w :=
    wp_retry_waitpid_errno (fun _ => trivial) (fun st x => ⟨nofun, fun _ hst => ⟨x, Except.ok.inj hst ▸ rfl⟩⟩)
      fun x => ⟨fun _ he => ⟨x, Except.error.inj he, rfl⟩, nofun⟩
  unfold handled
  rw [wp_bind]
  refine wp_of (fun r w' hr => ?_) (fun _ _ hr => (hwaits.error hr).elim) fun _ _ _ => trivial
  obtain ⟨herrs, hsts⟩ := hwaits.ok hr
  cases r with
  | error e =>
    obtain ⟨x, rfl, rfl⟩ := herrs e rfl
    dsimp only
    rw [wp_ite]
    split <;> exact .unseen u.inf p hlife (hheard hr)
  | ok st =>
    obtain ⟨x, rfl⟩ := hsts st rfl
    have hended : (∀ status, ¬Adopted st status) → st.IsEnd = true → ∀ y, Answered env pid s u (((w.record (.waited pid st)).withScratch x).withScratch y) :=
      fun hgone hend y => .ended u.inf p st hgone hend (by rw [← hlife]; rfl) (hheard hr)
    have htaken : ∀ {status}, Adopted st status → wp (fun _ _ => True) (do
        symLoadTables env
        breakpointResetPhybp
        breakpointSetallPhybp env) (fun _ _ => True) (fun _ t => Answered env pid s u t)
        ((((w.record (.waited pid st)).withScratch x).setInf { w.inf with status }).setInf
          { w.inf with status, pid, isAttached := true, realpath := path.toOption }) := fun {status} hst => by
      refine (keeps_attachTaken_rest _).mono (fun _ _ _ => trivial) (fun _ z hz => ?_) fun _ _ _ => trivial
      refine .taken u.inf p st status hst (Eq.trans hz ?_) (hheard hr)
      have htrace : w.trace = u.trace ++ [.request .attach pid u.inf p none] := congrArg Life.trace hlife
      rw [← htrace]
      rfl
    dsimp only
    rw [wp_pure, wp_bind]
    cases st with
    | exited code => exact hended nofun rfl _
    | signaled sig => exact hended nofun rfl _
    | stopped sig => exact htaken (.stopped sig)
    | continued => exact htaken .continued
    | unknown => trivial

theorem kill_run {sig : Int} : (∃ x, Sys.kill env pid sig s = .ok (.ok ()) ((s.record (.kill pid sig none)).withScratch x)) ∨
    ∃ e x, Sys.kill env pid sig s = .ok (.error e) ((s.record (.kill pid sig (some e))).withScratch x) := by
  unfold Sys.kill
  cases env.kill s.scratch.clock with
  | none => exact Or.inl ⟨_, rfl⟩
  | some e => exact Or.inr ⟨_, _, rfl⟩

theorem ptraceAttach_run : (∃ p v, Attaching pid p s v ∧ Sys.ptraceAttach env pid s = .ok (.ok ()) v) ∨
    ∃ e x, Sys.ptraceAttach env pid s =
      .ok (.error e) ((s.record (.request .attach pid s.inf (s.procs pid) (some e))).withScratch x) := by
  have hwp : wp (fun _ _ => False) (Sys.ptraceAttach env pid) (fun r v => (∃ p, Attaching pid p s v ∧ r = .ok ()) ∨
      ∃ e x, r = .error e ∧ v = (s.record (.request .attach pid s.inf (s.procs pid) (some e))).withScratch x) (fun _ _ => False) s :=
    wp_ptraceAttach (fun p x hpos => Or.inl ⟨p, ⟨hpos, rfl, rfl, Function.update_self ..⟩, rfl⟩) fun e x => Or.inr ⟨e, x, rfl, rfl⟩
  obtain ⟨r, v, hrun, ⟨p, hv, rfl⟩ | ⟨e, x, rfl, rfl⟩⟩ := hwp.exists_ok
  · exact Or.inl ⟨p, v, hv, hrun⟩
  · exact Or.inr ⟨e, x, hrun⟩

/-- How a call fails once the inferior has given up its process -/
theorem wp_asked_answered {s₁ : State} (hkill : Sys.kill env pid 0 s = .ok (.ok ()) s₁) (hyield : terminateOrDetach env s₁ = .ok () u)
    {onError : Errno → SylvanM Unit} (herror : ∀ e v, wp (fun _ _ => True) (onError e) (fun _ _ => False)
      (fun _ t => ∃ x, t = v.withScratch x) v) :
    wp (fun _ _ => True) (do
      handled (Sys.ptraceAttach env pid) onError
      attachTaken env pid) (fun _ _ => True) (fun _ t => Answered env pid s u t) u := by
  have hhands : ∀ {r}, Hands env pid s r → ∃ v path w w', Sys.ptraceAttach env pid u = .ok (.ok ()) v ∧
      Exec.attempt (realPathPid env pid) v = .ok path w ∧ Sys.retry (Sys.waitpid env pid) env.retries w = .ok r w' := by
    rintro r ⟨s₂, u₂, v, path, w, w', hkill', hyield', hrest⟩
    cases hkill.symm.trans hkill'
    cases hyield.symm.trans hyield'
    exact ⟨v, path, w, w', hrest⟩
  unfold handled
  rw [wp_bind, wp_bind]
  rcases @ptraceAttach_run env u pid with ⟨p, v, hv, hattach⟩ | ⟨e, x, hattach⟩
  · refine wp_of_eq_ok hattach ?_
    dsimp only
    rw [wp_pure]
    refine wp_of (fun _ _ _ => trivial) (fun code t h => ?_) fun _ _ _ => trivial
    exact attachTaken_answered hv h fun path w r w' hpath hwait => ⟨s₁, u, v, path, w, w', hkill, hyield, hattach, hpath, hwait⟩
  · refine wp_of_eq_ok hattach ?_
    refine (herror e _).imp (fun _ _ h => h.elim) fun _ t ht => ?_
    obtain ⟨y, rfl⟩ := ht
    refine .refused u.inf (u.procs pid) e rfl fun r hr => ?_
    obtain ⟨v, -, -, -, hattach', -⟩ := hhands hr
    cases hattach.symm.trans hattach'

/-- What there is to say of a call whose first question is answered with yes -/
theorem takesOut_iff {s₁ : State} (hkill : Sys.kill env pid 0 s = .ok (.ok ()) s₁) : TakesOut env pid s i ↔ Removes env s₁ i := by
  constructor
  · rintro ⟨s₂, hkill', hremoves⟩
    cases hkill.symm.trans hkill'
    exact hremoves
  · intro hremoves
    exact ⟨s₁, hkill, hremoves⟩

theorem findsGone_iff {s₁ : State} (hkill : Sys.kill env pid 0 s = .ok (.ok ()) s₁) :
    FindsGone env pid s ↔ s.inf.isAttached = true ∧ Gone env s₁ := by
  constructor
  · rintro ⟨hatt, s₂, hkill', hgone⟩
    cases hkill.symm.trans hkill'
    exact ⟨hatt, hgone⟩
  · rintro ⟨hatt, hgone⟩
    exact ⟨hatt, s₁, hkill, hgone⟩

theorem seen_iff_findsGone {s₁ : State} (hkill : Sys.kill env pid 0 s = .ok (.ok ()) s₁) (hinf : s₁.inf = s.inf)
    (htrace : s₁.trace = s.trace ++ [.kill pid 0 none]) (hlive : 0 < s₁.inf.pid → s₁.inf.IsActive)
    (hu : terminateOrDetach env s₁ = .ok () u) (hattends : Attends s₁ u) (hatt : s.inf.isAttached = true) :
    ¬FindsGone env pid s ∧ NoEnd s u ∨ FindsGone env pid s ∧ EndSeen s.inf.pid (s.since u) ∧ u.inf.isAttached = true := by
  rw [findsGone_iff hkill, and_iff_right hatt]
  rcases (wp_terminateOrDetach_gone hlive (hinf ▸ hatt)).ok hu with ⟨hnot, hsame⟩ | ⟨hgone, hseen, hstays⟩
  · exact Or.inl ⟨hnot, trans_of NoEnd (noEnd_event htrace fun _ => rfl) hsame⟩
  · refine Or.inr ⟨hgone, ?_, hstays⟩
    obtain ⟨es, hes, -⟩ := hattends
    rw [State.since, Trail.since, hes, List.drop_left] at hseen
    rw [State.since, Trail.since, hes, htrace, List.append_assoc, List.drop_left, ← hinf]
    exact endSeen_append.mpr (Or.inr hseen)

/-- And of one where it is answered with no -/
theorem withheld_of_refused {e : Errno} (hkill : Sys.kill env pid 0 s = .ok (.error e) u) (hu : Attends s t) (hinf : t.inf = s.inf)
    (hprocs : t.procs = s.procs) : Failed env pid s t := by
  refine .withheld ?_ ?_ hu (withheld_of_eq hinf hprocs fun i => ?_)
  · rintro ⟨s₁, u, hkill', -⟩
    cases hkill.symm.trans hkill'
  · rintro ⟨-, s₁, hkill', -⟩
    cases hkill.symm.trans hkill'
  · rintro ⟨s₁, hkill', -⟩
    cases hkill.symm.trans hkill'

/-- A call of `sylvan_attach` that fails in a reachable state -/
theorem attach_failed (hs : Reachable env s) {code : Code} (h : attach env pid s = .error code t) : Failed env pid s t := by
  obtain ⟨c, hc, hrun⟩ := hs
  have hwent : Went .free ⟨0, .none, false, []⟩ s :=
    went_of_run (fun _ _ _ => Or.inl trivial) trivial (fun _ => Life.License.leaves_free) hc hrun
  have hlive : 0 < s.inf.pid → s.inf.IsActive := (Life.Agrees.new.run hwent.lives).live.mpr
  have hprobed : ∀ failed t, t.trace = s.trace ++ [.kill pid 0 failed] → t.inf = s.inf → Attends s t := fun _ _ htrace hinf =>
    attends_event htrace hinf rfl rfl
  suffices hwp : wp (fun _ _ => True) (attach env pid) (fun _ _ => True) (fun _ t => Failed env pid s t) s from hwp.error h
  unfold attach
  rw [wp_bind]
  unfold handled
  rw [wp_bind]
  rcases @kill_run env s pid 0 with ⟨x, hkill⟩ | ⟨e, x, hkill⟩
  · refine wp_of_eq_ok hkill ?_
    dsimp only
    generalize hv : (s.record (.kill pid 0 none)).withScratch x = v at hkill ⊢
    have hvinf : v.inf = s.inf := by rw [← hv]; rfl
    have hvproc : v.proc = s.proc := by rw [← hv]; rfl
    have hvtrace : v.trace = s.trace ++ [.kill pid 0 none] := by rw [← hv]; rfl
    have hsv : Attends s v := hprobed none v hvtrace hvinf
    have hlives : Lives .free ⟨0, .none, false, []⟩ v := hwent.lives.step (by rw [← hv]; exact .probed pid none)
    have htv : v.inf.TableOk := hvinf ▸ hwent.tableOk
    have hlivev : 0 < v.inf.pid → v.inf.IsActive := hvinf ▸ hlive
    rw [wp_pure, wp_bind]
    refine wp_of (fun _ u hu => ?_) (fun code t ht => ?_) fun _ _ _ => trivial
    · have hattends := (keeps_terminateOrDetach (R := Attends) v).ok hu
      obtain ⟨hlived, hidle⟩ := (wp_terminateOrDetach_life hlives htv Life.License.leaves_free).ok hu
      have hpid : u.inf.pid = 0 := (Life.Agrees.new.run hlived.lives).idle hidle
      have hends := fun hatt => seen_iff_findsGone hkill hvinf hvtrace hlivev hu hattends hatt
      refine (wp_asked_answered hkill hu fun e w => ?_).imp (fun _ _ _ => trivial) fun _ t ht =>
        .asked u ⟨v, u, hkill, hu⟩ (trans_of Attends hsv hattends) hpid hends ht
      rw [wp_ite, wp_ite]
      split
      · exact ⟨_, rfl⟩
      · split <;> exact ⟨_, rfl⟩
    · have hattends := (keeps_terminateOrDetach (R := Attends) v).error ht
      have hkept := (wp_terminateOrDetach_withheld htv hlivev).error ht
      have hpresent : ¬FindsGone env pid s := fun h =>
        (wp_terminateOrDetach_gone hlivev (hvinf ▸ h.1)).error ht ((findsGone_iff hkill).mp h).2
      refine .withheld ?_ hpresent (trans_of Attends hsv hattends) ⟨hvinf ▸ hkept.toSameEntries, hvinf ▸ hkept.isAttached, hvinf ▸ hkept.pid, ?_, ?_⟩
      · rintro ⟨s₁, u, hkill', hyield⟩
        cases hkill.symm.trans hkill'
        cases ht.symm.trans hyield
      · intro i hi hphy
        rw [← hvproc, ← hvinf]
        exact hkept.spares i (hvinf ▸ hi) hphy
      · intro i hi
        rw [hkept.marks i (hvinf ▸ hi), hvinf, takesOut_iff hkill]
  · refine wp_of_eq_ok hkill ?_
    dsimp only
    rw [wp_ite]
    split <;> exact withheld_of_refused hkill (hprobed (some e) _ rfl rfl) rfl rfl

/-- The inferior keeps its process. -/
theorem Withheld.leavesNothing_iff (h : Withheld (TakesOut env pid s) s t) (ha : Attends s t) (hpresent : ¬FindsGone env pid s)
    (hyields : ¬Yields env pid s) :
    LeavesNothing pid s t ↔ HandsNone env pid s ∧ ¬FindsGone env pid s ∧ (¬Yields env pid s → 0 < s.inf.pid → ∀ i, i < s.inf.count →
      (s.inf.slot i).isEnabledPhy = true → ¬TakesOut env pid s i → s.proc.mem (s.inf.slot i).addr = 0xCC) := by
  obtain ⟨es, hsince, hquiet, -⟩ := ha.since
  have hheld : ¬Held pid s t := not_held_of_asksNothing (hsince ▸ hquiet)
  have hnone : HandsNone env pid s := fun r ⟨s₁, u, _, _, _, _, hkill, hyield, _⟩ => absurd ⟨s₁, u, hkill, hyield⟩ hyields
  have hcount : t.inf.count = s.inf.count := Inferior.count_congr h.count
  constructor
  · intro hl
    refine ⟨hnone, hpresent, fun _ hpid i hi hphy hout => ?_⟩
    have hmark := (h.marks i hi).mpr ⟨hphy, hout⟩
    rw [← h.spares i hi hmark, ← (h.entry i).1]
    exact hl.installed (h.pid ▸ hpid) i (hcount ▸ hi) hmark
  · rintro ⟨-, -, hshown⟩
    refine ⟨Or.inr ⟨h.isAttached, h.pid⟩, hheld, fun hpid i hi hmark => ?_⟩
    rw [(h.entry i).1, h.spares i (hcount ▸ hi) hmark]
    obtain ⟨hphy, hout⟩ := (h.marks i (hcount ▸ hi)).mp hmark
    exact hshown hyields (h.pid ▸ hpid) i (hcount ▸ hi) hphy hout

/-- What is left of the attachment that the inferior had, once it has given up its process. -/
theorem Attends.apart_iff (ha : Attends s u) (hpid : u.inf.pid = 0) (hends : s.inf.isAttached = true →
      ¬FindsGone env pid s ∧ NoEnd s u ∨ FindsGone env pid s ∧ EndSeen s.inf.pid (s.since u) ∧ u.inf.isAttached = true) :
    (u.inf.isAttached = false ∧ (0 < pid → 0 ≠ pid) ∨ u.inf.isAttached = s.inf.isAttached ∧ 0 = s.inf.pid) ↔ ¬FindsGone env pid s := by
  obtain ⟨es, hsince, -, hfate⟩ := ha.since
  constructor
  · rintro hapart hgone
    obtain ⟨-, hseen, hatt⟩ := (hends hgone.1).resolve_left fun h => h.1 hgone
    rcases hapart with ⟨hoff, -⟩ | ⟨-, hzero⟩
    · cases hoff.symm.trans hatt
    · cases hfate with
      | same _ _ _ hunseen => exact hunseen (hsince ▸ hseen)
      | gone hoff => cases hoff.symm.trans hatt
      | stale _ hlive => exact Int.ne_of_lt hlive hzero
  · intro hnot
    cases hfate with
    | same hatt hpid' => exact Or.inr ⟨hatt, hpid.symm.trans hpid'⟩
    | gone hatt => exact Or.inl ⟨hatt, fun hpos => Int.ne_of_lt hpos⟩
    | stale hatt _ hseen =>
      rcases hends hatt with ⟨-, hsame⟩ | ⟨hgone, -⟩
      · exact absurd (hsince ▸ hseen) (EndSeen.of_noEnd hsame)
      · exact absurd hgone hnot

/-- The inferior has no process, and asked in vain for `pid`. -/
theorem leavesNothing_iff_of_idle (ha : Attends s u) (hu : u.inf.pid = 0) (hends : s.inf.isAttached = true →
      ¬FindsGone env pid s ∧ NoEnd s u ∨ FindsGone env pid s ∧ EndSeen s.inf.pid (s.since u) ∧ u.inf.isAttached = true)
    (hanswered : Answered env pid s u t) (hatt : t.inf.isAttached = u.inf.isAttached) (hpid : t.inf.pid = 0) (hyields : Yields env pid s) :
    LeavesNothing pid s t ↔ HandsNone env pid s ∧ ¬FindsGone env pid s ∧ (¬Yields env pid s → 0 < s.inf.pid → ∀ i, i < s.inf.count →
      (s.inf.slot i).isEnabledPhy = true → ¬TakesOut env pid s i → s.proc.mem (s.inf.slot i).addr = 0xCC) := by
  have hheld : ¬Held pid s t ↔ HandsNone env pid s := (not_congr (hanswered.held_iff ha)).trans not_not
  have hapart := Attends.apart_iff ha hu hends
  rw [← hatt] at hapart
  rw [← hapart, ← hheld]
  constructor
  · intro hl
    exact ⟨hl.released, hpid ▸ hl.apart, fun h => absurd hyields h⟩
  · rintro ⟨hreleased, hapart, -⟩
    exact ⟨by rwa [hpid], hreleased, fun hpos => absurd hpid (Int.ne_of_lt hpos).symm⟩

/-- In every reachable state: a failed `sylvan_attach` leaves nothing behind just where the system hands over no process,
    does not say of the process before that it has ended, and, if it does not let the call ask for the process, the entries
    that are marked and that the call does not get to take out are installed. -/
theorem failed_attach_leaves_nothing_iff (hs : Reachable env s) {code : Code} (h : attach env pid s = .error code t) :
    LeavesNothing pid s t ↔ HandsNone env pid s ∧ ¬FindsGone env pid s ∧ (¬Yields env pid s → 0 < s.inf.pid → ∀ i, i < s.inf.count →
      (s.inf.slot i).isEnabledPhy = true → ¬TakesOut env pid s i → s.proc.mem (s.inf.slot i).addr = 0xCC) := by
  cases attach_failed hs h with
  | withheld hyields hpresent ha hkept => exact hkept.leavesNothing_iff ha hpresent hyields
  | asked u hyields ha hu hends hanswered =>
    have hheld := hanswered.held_iff ha
    have hidle : t.inf.isAttached = u.inf.isAttached → t.inf.pid = u.inf.pid → _ := fun hatt hpid =>
      leavesNothing_iff_of_idle ha hu hends hanswered hatt (hpid.trans hu) hyields
    cases hanswered with
    | refused inf proc e life => exact hidle (congrArg Life.isAttached life) (congrArg Life.pid life)
    | unseen inf proc life => exact hidle (congrArg Life.isAttached life) (congrArg Life.pid life)
    | ended inf proc st gone _ life => exact hidle (congrArg Life.isAttached life) (congrArg Life.pid life)
    | taken inf proc st status adopted life heard =>
      have hend : st.IsEnd = false := by cases adopted <;> rfl
      have hhanded : ¬HandsNone env pid s := by
        rw [heard.handsNone_iff]
        rintro (herr | ⟨st', hst, hend'⟩)
        · cases herr
        · cases hst
          cases hend.symm.trans hend'
      exact iff_of_false (fun hl => hl.released (hheld.mpr hhanded)) fun hc => hhanded hc.1

/-- A system where no process exists. -/
def Env.vacant : Env := { Env.compliant with kill := fun _ => some ⟨ESRCH, ESRCH_ne_zero⟩ }

def State.vacant : State := State.blank.after (inferiorCreate .vacant)

theorem State.vacant_reachable : Reachable .vacant State.vacant :=
  ⟨_, ⟨State.blank, rfl, rfl, State.after_ok (by decide +kernel)⟩, Relation.ReflTransGen.refl⟩

/-- There is no process to attach to. -/
theorem failed_attach_leaves_nothing_iff_vacant :
    LeavesNothing 7 State.vacant (State.vacant.after (attach .vacant 7)) := by
  have hfails : attach .vacant 7 State.vacant = .error .procNotFound (State.vacant.after (attach .vacant 7)) :=
    State.after_error (by decide +kernel)
  refine (failed_attach_leaves_nothing_iff State.vacant_reachable hfails).mpr ⟨?_, ?_, ?_⟩
  · rintro r ⟨s₁, -, -, -, -, -, hkill, -⟩
    simp [Sys.kill, Env.vacant] at hkill
  · rintro ⟨hatt, -⟩
    exact absurd hatt (by decide +kernel)
  · intro _ hpid
    exact absurd hpid (by decide +kernel)

/-- A system where no executable can be read. -/
def Env.unreadable : Env := { Env.compliant with elf := fun _ _ => none }

def State.unreadable : State := State.blank.after (inferiorCreate .unreadable)

/-- The inferior was attached to nothing, and is attached to the process when `sylvan_attach` has failed to read its
    symbols. -/
theorem failed_attach_leaves_attached :
    Reachable .unreadable State.unreadable ∧ State.unreadable.inf.isAttached = false ∧
      (attach .unreadable 7 State.unreadable).error? = some .elfFailed ∧
      (State.unreadable.after (attach .unreadable 7)).inf.isAttached = true ∧
      (State.unreadable.after (attach .unreadable 7)).inf.pid = 7 ∧
      ¬LeavesNothing 7 State.unreadable (State.unreadable.after (attach .unreadable 7)) := by
  refine ⟨⟨_, ⟨State.blank, rfl, rfl, State.after_ok (by decide +kernel)⟩, Relation.ReflTransGen.refl⟩, by decide +kernel,
    by decide +kernel, by decide +kernel, by decide +kernel, fun h => ?_⟩
  rcases h.apart with ⟨hoff, -⟩ | ⟨hsame, -⟩
  · exact absurd hoff (by decide +kernel)
  · exact absurd hsame (by decide +kernel)

end

end Sylvan
