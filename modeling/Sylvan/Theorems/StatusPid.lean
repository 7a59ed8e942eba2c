import Sylvan.Theorems.Runs

/-! The status of an inferior and its `pid` agree in every reachable state, so `SIGKILL` goes to a process only. -/

namespace Sylvan
open Exec

/-- Status and `pid` agree, and `SIGKILL` went to a process only. -/
structure Life.Agrees (l : Life) : Prop where
  live : l.IsActive ↔ 0 < l.pid
  idle : ¬l.IsActive → l.pid = 0
  killed : ∀ pid failed, Event.kill pid SIGKILL failed ∈ l.trace → 0 < pid

namespace Life.Agrees
variable {may : License} {l l' : Life} {pid : Pid} {status : InferiorState} {attached : Bool} {e : Event}

/-- What the inferior becomes when it has the process `pid`. -/
theorem taken (hpos : 0 < pid) {st : WaitStatus} (hst : Adopted st status)
    (hkilled : ∀ pid failed, Event.kill pid SIGKILL failed ∈ l.trace → 0 < pid) :
    Agrees ⟨pid, status, attached, l.trace⟩ := by
  have hactive : IsActive ⟨pid, status, attached, l.trace⟩ := by
    cases hst with
    | stopped => exact Or.inr rfl
    | continued => exact Or.inl rfl
  exact ⟨iff_of_true hactive hpos, fun h => absurd hactive h, hkilled⟩

/-- What the inferior becomes when it has none. -/
theorem none (hst : ¬IsActive ⟨0, status, attached, l.trace⟩)
    (hkilled : ∀ pid failed, Event.kill pid SIGKILL failed ∈ l.trace → 0 < pid) : Agrees ⟨0, status, attached, l.trace⟩ :=
  ⟨iff_of_false hst (Int.lt_irrefl 0), fun _ => rfl, hkilled⟩

/-- An event that is no `SIGKILL`, or one to a process. -/
theorem record (h : l.Agrees) (he : ∀ pid failed, e = .kill pid SIGKILL failed → 0 < pid) : (l.record e).Agrees where
  live := h.live
  idle := h.idle
  killed pid failed hmem := by
    rcases List.mem_append.mp hmem with hold | hnew
    · exact h.killed pid failed hold
    · exact he pid failed (List.mem_singleton.mp hnew).symm

theorem step (h : l.Agrees) (hs : Step may l l') : l'.Agrees := by
  have hquiet : ∀ {l : Life}, l.Agrees → ∀ {e}, (∀ pid failed, e ≠ .kill pid SIGKILL failed) → (l.record e).Agrees :=
    fun h _ he => h.record fun pid failed heq => absurd heq (he pid failed)
  cases hs with
  | probed pid failed => exact hquiet h fun _ _ heq => by cases heq
  | noticed pid st gone idle => exact hquiet h fun _ _ heq => by cases heq
  | stopped sig live => exact taken live (.stopped sig) (hquiet h fun _ _ heq => by cases heq).killed
  | running live => exact taken live .continued (hquiet h fun _ _ heq => by cases heq).killed
  | exited code live => exact none (by simp [IsActive]) (hquiet h fun _ _ heq => by cases heq).killed
  | terminated sig live => exact none (by simp [IsActive]) (hquiet h fun _ _ heq => by cases heq).killed
  | lost live => exact none (by simp [IsActive]) (hquiet h fun _ _ heq => by cases heq).killed
  | signaled failed active own =>
    refine h.record fun pid failed heq => ?_
    cases heq
    exact h.live.mp active
  | killed active own =>
    refine none (by simp [IsActive]) (h.record fun pid failed heq => ?_).killed
    cases heq
    exact h.live.mp active
  | reaped st active own => exact none (by simp [IsActive]) (hquiet h fun _ _ heq => by cases heq).killed
  | refused inf proc failed active attached cleared there => exact hquiet h fun _ _ heq => by cases heq
  | released inf proc failed active attached cleared gone =>
    exact none (by simp [IsActive]) (hquiet h fun _ _ heq => by cases heq).killed
  | asked start pid inf proc failed idle => exact hquiet h fun _ _ heq => by cases heq
  | attached start pid inf proc st status idle pos adopted =>
    exact taken pos adopted (hquiet (hquiet h fun _ _ heq => by cases heq) fun _ _ heq => by cases heq).killed
  | forked start pid image idle => exact hquiet h fun _ _ heq => by cases heq
  | spawned start pid image st status idle pos adopted =>
    exact taken pos adopted (hquiet (hquiet h fun _ _ heq => by cases heq) fun _ _ heq => by cases heq).killed
  | resumed start req inf proc failed hreq => exact hquiet h fun _ _ heq => by cases heq
  | destroyed idle => exact hquiet h fun _ _ heq => by cases heq

theorem run (h : l.Agrees) (hrun : Relation.ReflTransGen (Step may) l l') : l'.Agrees := by
  induction hrun with
  | refl => exact h
  | tail _ hs ih => exact ih.step hs

theorem new : Agrees ⟨0, .none, false, []⟩ := none (l := ⟨0, .none, false, []⟩) (by simp [IsActive]) (by simp)

end Life.Agrees

section
variable {env : Env} {s t : State} {op : Op}

/-- In every reachable state the inferior is running or stopped just when its `pid` is positive, and its `pid` is
    zero otherwise; and no call from there, however it ends, sends `SIGKILL` to anything but a process. -/
theorem status_and_pid_agree (h : Reachable env s) :
    (s.inf.status = .running ∨ s.inf.status = .stopped ↔ 0 < s.inf.pid) ∧
    (¬(s.inf.status = .running ∨ s.inf.status = .stopped) → s.inf.pid = 0) ∧
    ∀ op t, (Op.call env op).Ends s t → ∀ pid failed, Event.kill pid SIGKILL failed ∈ t.trace → 0 < pid := by
  obtain ⟨c, hc, hrun⟩ := h
  have hs : Went .free ⟨0, .none, false, []⟩ s := went_of_run (fun _ _ _ => Or.inl trivial) trivial (fun _ => Life.License.leaves_free) hc hrun
  have hagrees : s.life.Agrees := Life.Agrees.new.run hs.lives
  refine ⟨hagrees.live, hagrees.idle, fun op t hends => ?_⟩
  obtain ⟨l, hl, htrace⟩ := ((op.wp_life hs.lives hs.tableOk trivial (Or.inl trivial) Life.License.leaves_free).mono (fun _ _ h => h.lives.ended)
    (fun _ _ h => h.lives.ended) fun _ _ => id).ends hends
  rw [← htrace]
  exact (Life.Agrees.new.run hl).killed

/-- The inferior is attached to a process, which `sylvan_inferior_destroy` gives up. -/
theorem status_and_pid_agree_attached : (0 : Int) < State.attached.inf.pid ∧
    ∀ pid failed, Event.kill pid SIGKILL failed ∈ (State.attached.after (inferiorDestroy .compliant)).trace → 0 < pid := by
  have h := status_and_pid_agree State.attached_reachable
  exact ⟨h.1.mp (by decide +kernel), h.2.2 .destroy _ (Or.inl (Or.inl ⟨(), State.after_ok (by decide +kernel)⟩))⟩

end

end Sylvan
