import Sylvan.Lifecycle
import Sylvan.Theorems.Status

/-! How a stopped process is resumed: what the library looks at before it lets the process go on, and with what
    `rip` and what memory the process goes on first. -/

namespace Sylvan
open Exec Trail

/-- The process as it was when it was resumed or released. -/
def Event.resumed : Event → Option Process
  | .request .cont _ _ proc none => some proc
  | .request .singlestep _ _ proc none => some proc
  | .request .detach _ _ proc none => some proc
  | _ => none

/-- The process as it was when it first went on between `s` and `t`. -/
def State.firstResumed (s t : State) : Option Process := (s.since t).findSome? Event.resumed

/-- From `s` to `t` the process went on as `ps`, one after the other. -/
abbrev Resumed (s t : State) (ps : List Process) : Prop := Trail.Adds State.trace Event.resumed s t ps

/-- The trace of `t` goes on from that of `s`. -/
def Grows (s t : State) : Prop := ∃ ps, Resumed s t ps

instance : IsPreorder State Grows where
  refl s := ⟨[], Adds.refl s⟩
  trans _ _ _ := fun ⟨_, h⟩ ⟨_, h'⟩ => ⟨_, h.trans h'⟩

/-- `f` picks requests only. -/
structure PicksRequests {β : Type} (f : Event → Option β) : Prop where
  kill : ∀ pid sig failed, f (.kill pid sig failed) = none
  waited : ∀ pid st, f (.waited pid st) = none

/-- Entry `i` is the one for `addr`, and marked as installed. -/
def Inferior.InstalledAt (inf : Inferior) (addr : Addr) (i : Nat) : Prop :=
  breakpointFindByAddr inf addr = some i ∧ (inf.slot i).isEnabledPhy = true

namespace State

/-- The process's `rip` is one less. -/
def rewound (s : State) : State :=
  s.setProc s.inf.pid { s.proc with regs := Function.update s.proc.regs .rip (s.proc.rip - 1) }

/-- Entry `i` is disabled, and installed still. -/
def disarming (s : State) (i : Nat) : State := s.rewound.setLog i false

/-- Entry `i` is disabled, and the process is about to step over it. -/
def stepping (s : State) (i : Nat) : State := (s.disarming i).uninstall i

/-- The table and the process are those of `s`. -/
structure Stays (s t : State) : Prop where
  breakpoints : t.inf.breakpoints = s.inf.breakpoints
  count : t.inf.breakpointCount = s.inf.breakpointCount
  proc : t.proc = s.proc

end State

section
variable {env : Env} {F : Fault → State → Prop} {E : Code → State → Prop} {s t u : State} {i : Nat} {addr : Addr}
  {c : Option Code} {x : Scratch} {ps : List Process} {β : Type} {f : Event → Option β}

/-! ### States -/

@[simp] theorem rewound_inf : s.rewound.inf = s.inf := rfl

@[simp] theorem rewound_proc :
    s.rewound.proc = { s.proc with regs := Function.update s.proc.regs .rip (s.proc.rip - 1) } := setProc_proc

theorem stepping_proc (hi : i < maxBreakpoints) : (s.stepping i).proc =
    { s.proc with
      regs := Function.update s.proc.regs .rip (s.proc.rip - 1)
      mem := Function.update s.proc.mem (s.inf.slot i).addr (s.inf.slot i).ogByte } := by
  obtain ⟨haddr, hog, -⟩ := State.setLog_slot (s := s.rewound) (v := false) hi i
  unfold State.stepping State.disarming
  rw [State.uninstall_proc, State.setLog_inf, haddr, hog, State.setLog_proc, rewound_proc, rewound_inf]

/-- It steps from the address of the entry, where the byte is put back. -/
theorem stepping_at (hi : i < maxBreakpoints) (haddr : (s.inf.slot i).addr = s.proc.rip - 1) :
    (s.stepping i).proc.rip = s.proc.rip - 1 ∧ (s.stepping i).proc.mem (s.proc.rip - 1) = (s.inf.slot i).ogByte := by
  rw [stepping_proc hi, haddr]
  constructor
  · show Function.update s.proc.regs .rip (s.proc.rip - 1) .rip = s.proc.rip - 1
    rw [Function.update_self]
  · show Function.update s.proc.mem (s.proc.rip - 1) (s.inf.slot i).ogByte (s.proc.rip - 1) = (s.inf.slot i).ogByte
    rw [Function.update_self]

theorem State.Stays.slot (h : s.Stays t) : t.inf.slot = s.inf.slot := by
  funext i
  simp only [Inferior.slot, h.breakpoints]

theorem State.Stays.entries (h : s.Stays t) : s.inf.SameEntries t.inf :=
  ⟨h.count, fun i => by simp only [h.slot, and_self]⟩

theorem State.Stays.installedAt (h : s.Stays t) : t.inf.InstalledAt addr i ↔ s.inf.InstalledAt addr i := by
  unfold Inferior.InstalledAt breakpointFindByAddr
  rw [h.slot, Inferior.count_congr h.count]

theorem Inferior.InstalledAt.lt {inf : Inferior} (h : inf.InstalledAt addr i) : i < inf.count := (find_some h.1).1

theorem Inferior.InstalledAt.addr_eq {inf : Inferior} (h : inf.InstalledAt addr i) : (inf.slot i).addr = addr :=
  (find_some h.1).2

/-! ### Waiting -/

theorem picksRequests_resumed : PicksRequests Event.resumed := ⟨fun _ _ _ => rfl, fun _ _ => rfl⟩

theorem Waits.adds (hw : Waits s c t) (hf : PicksRequests f) : Adds State.trace f s t [] := by
  cases hw with
  | unchanged | failed => exact adds_of_eq rfl
  | stopped | stoppedFor | running | exited | terminated => exact adds_skipped rfl (hf.waited _ _)
  | untraced | lost => exact adds_skipped rfl (hf.kill _ _ _)

theorem Waits.resumed (hw : Waits s c t) : Resumed s t [] := hw.adds picksRequests_resumed

theorem Waits.stays (hw : Waits s none t) : s.Stays t := by
  cases hw <;> exact ⟨rfl, rfl, rfl⟩

theorem grows_updateInfStatus {blocking : Bool} : Keeps Grows (updateInfStatus env blocking) := fun s =>
  (wp_updateInfStatus (F := fun _ => Grows s) (fun _ => ⟨[], adds_of_eq rfl⟩) fun _ _ _ => ⟨[], adds_skipped (e := .waited s.inf.pid .unknown) rfl rfl⟩).imp
    (fun _ _ hw => ⟨_, hw.resumed⟩) fun _ _ hw => ⟨_, hw.resumed⟩

/-- A process that may be resumed is stopped. -/
theorem wp_validateProcessState (hf : PicksRequests f) (hF : ∀ g t, Adds State.trace f s t [] → F g t)
    (hE : ∀ c t, Adds State.trace f s t [] → E c t) :
    wp F (validateProcessState env) (fun _ t => s.Stays t ∧ t.inf.status = .stopped ∧ Adds State.trace f s t []) E s := by
  unfold validateProcessState
  rw [wp_bind]
  refine (wp_updateInfStatus (fun x => hF _ _ (adds_of_eq rfl)) fun _ _ x =>
    hF _ _ (adds_skipped rfl (hf.waited s.inf.pid .unknown))).imp (fun _ t hw => ?_) fun c t hw => hE c t (hw.adds hf)
  rw [wp_bind, wp_get, wp_when]
  split
  · rw [wp_ite]
    split
    · exact hE _ _ (hw.adds hf)
    · exact hE _ _ (hw.adds hf)
  · rename_i hst
    exact ⟨hw.stays, not_not.mp hst, hw.adds hf⟩

/-! ### Stepping over a breakpoint -/

/-- Where there is an installed breakpoint before `rip`, the process is set back to it, and it is removed while
    the process steps; where there is none, the function does nothing. -/
theorem wp_handleBreakpointAtCurrentAddr {Q : Unit → State → Prop} (ht : s.inf.TableOk) (hact : s.inf.IsActive)
    (hnone : (∀ i, ¬s.inf.InstalledAt (s.proc.rip - 1) i) → ∀ x, E .breakpointNotFound (s.withScratch x))
    (hrefused : env.Refuses → ∀ c x, c ≠ .breakpointNotFound → E c (s.withScratch x))
    (hfailed : ∀ i, s.inf.InstalledAt (s.proc.rip - 1) i → ∀ c x, c ≠ .breakpointNotFound →
      E c ((s.disarming i).withScratch x))
    (hstep : ∀ i, s.inf.InstalledAt (s.proc.rip - 1) i → ∀ x, wp F (do
      checked env .ptraceStepFailed "ptrace single step" (Sys.ptraceResume env .singlestep)
      updateInfStatus env true
      breakpointEnablePtr env i) Q E ((s.stepping i).withScratch x)) :
    wp F (handleBreakpointAtCurrentAddr env) Q E s := by
  unfold handleBreakpointAtCurrentAddr
  rw [wp_bind]
  refine wp_checked (wp_ptraceGetregs (fun x => ?_) fun hr e x y => hrefused hr _ y (by decide))
  dsimp only
  rw [wp_bind, wp_get]
  rw [withScratch_inf, show s.proc.regs .rip = s.proc.rip from rfl]
  cases hfind : breakpointFindByAddr s.inf (s.proc.rip - 1) with
  | none =>
    refine hnone (fun i hi => ?_) x
    rw [hi.1] at hfind
    cases hfind
  | some i =>
    dsimp only
    rw [wp_ite]
    split
    · rename_i hoff
      refine hnone (fun j hj => ?_) x
      rw [hj.1] at hfind
      cases hfind
      exact hoff hj.2
    · rename_i hon
      have hat : s.inf.InstalledAt (s.proc.rip - 1) i := ⟨hfind, not_not.mp hon⟩
      unfold stepOver
      rw [wp_bind]
      refine wp_checked (wp_ptraceSetregs (fun y => ?_) fun hr e y z => hrefused hr _ z (by decide))
      show wp F _ Q E (s.rewound.withScratch y)
      rw [wp_bind]
      refine wp_breakpointDisablePtr (ht.lt hat.lt) (fun hoff => ?_) (fun _ _ z => hstep i hat z) fun _ _ c z hc => hfailed i hat c z ?_
      · have hphy : (s.inf.slot i).isEnabledPhy = false := hoff hact
        rw [hat.2] at hphy
        cases hphy
      · rcases hc with rfl | rfl <;> decide

end

end Sylvan
