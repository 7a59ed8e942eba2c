import Sylvan.Op
import Sylvan.Theorems.Running
import Sylvan.Theorems.TableMap
import Sylvan.Theorems.UserWrites

/-! Every call of the library is a sequence of lifecycle steps, and so is every run. -/

namespace Sylvan
open Exec

section
variable {env : Env} {may : Life.License} {l : Life} {s t : State}

/-! ### Registers and memory -/

/-- `t` differs from `s` at most in the processes and in the scratch part. -/
structure Accessed (s t : State) : Prop where
  inf : t.inf = s.inf
  trace : t.trace = s.trace

instance : IsPreorder State Accessed where
  refl _ := ⟨rfl, rfl⟩
  trans _ _ _ h h' := ⟨h'.inf.trans h.inf, h'.trace.trans h.trace⟩

instance : IgnoresImages Accessed where
  scratch _ _ := ⟨rfl, rfl⟩
  image _ _ _ := ⟨rfl, rfl⟩

theorem Accessed.lived (ha : Accessed s t) (h : Lives may l s) : Lived may l s t :=
  ⟨h.of_life (by unfold State.life; rw [ha.inf, ha.trace]), ha.inf ▸ Inferior.SameEntries.refl _⟩

theorem Lives.wp_accessed {α : Type} {y : SylvanM α} (hy : Keeps Accessed y) (h : Lives may l s) :
    wp (fun _ => Ended may l) y (fun _ t => Lived may l s t) (fun _ t => Lived may l s t) s :=
  (hy s).mono (fun _ _ ha => ha.lived h) (fun _ _ ha => ha.lived h) fun _ _ ha => (ha.lived h).lives.ended

/-- A call that looks at the process first, and goes on with `y` if that is live. -/
theorem wp_checkedAccess_life {α : Type} {y : SylvanM α} {code : Code} {text : String} (hy : Keeps Accessed y) (h : Lives may l s) :
    wp (fun _ => Ended may l) (do
      updateInfStatus env false
      Exec.when (¬(← Exec.get).inf.IsActive) (setMessage code text)
      y) (fun _ t => Lived may l s t) (fun _ t => Lived may l s t) s := by
  rw [wp_bind]
  refine (wp_updateInfStatus_life h).imp (fun _ t hw => ?_) fun _ t hw => hw.lived h
  have hl := hw.lived h
  rw [wp_bind, wp_get, wp_bind, wp_when]
  split
  · exact ⟨hl.lives, hl.entries⟩
  · exact (hl.lives.wp_accessed hy).imp (fun _ _ hu => ⟨hu.lives, hl.entries.trans hu.entries⟩)
      fun _ _ hu => ⟨hu.lives, hl.entries.trans hu.entries⟩

/-! ### Every call -/

theorem wp_destroy_life (h : Lives may l s) (ht : s.inf.TableOk) (leaves : may.Leaves s) :
    wp (fun _ => Ended may l) (inferiorDestroy env) (fun _ t => Went may l t) (fun _ t => Went may l t) s := by
  unfold inferiorDestroy
  rw [wp_bind]
  refine (wp_terminateOrDetach_life h ht leaves).imp ?_ fun _ t hl => hl.went ht
  intro _ t hpost
  obtain ⟨hl, hidle⟩ := hpost
  rw [wp_bind]
  refine (keeps_symDestroy (R := Aside) t).mono (fun _ u hu => ?_) (fun _ u hu => ?_) fun _ u hu => (hl.lives.of_life hu.life).ended
  · have huidle : ¬u.life.IsActive := by
      rw [hu.life]
      exact hidle
    exact ⟨(hl.lives.of_life hu.life).step (.destroyed huidle), hu.entries.tableOk (hl.entries.tableOk ht)⟩
  · exact ⟨hl.lives.of_life hu.life, hu.entries.tableOk (hl.entries.tableOk ht)⟩

/-- A call on the table is an edit, and keeps the table well formed. -/
theorem Lives.wp_edited {y : SylvanM Unit} (hy : Keeps State.Edited y) (h : Lives may l s)
    (ht : wp (fun _ _ => True) y (fun _ t => t.inf.TableOk) (fun _ t => t.inf.TableOk) s) :
    wp (fun _ => Ended may l) y (fun _ t => Went may l t) (fun _ t => Went may l t) s :=
  wp_of (fun _ _ hx => ⟨h.of_life ((hy s).ok hx).life, ht.ok hx⟩) (fun _ _ hx => ⟨h.of_life ((hy s).error hx).life, ht.error hx⟩)
    fun _ _ hx => (h.of_life ((hy s).fault hx).life).ended

/-- The call is not a `run` that gets to kill an attached process. -/
def Op.Spares (env : Env) (s : State) (op : Op) : Prop :=
  op = .run → s.inf.isAttached = true → s.inf.IsActive → ∀ path, s.inf.realpath = some path →
    env.access s.scratch.clock path ≠ none

/-- Every call is a sequence of lifecycle steps, however it ends, and leaves the table well formed if it returns. -/
theorem Op.wp_life (op : Op) (h : Lives may l s) (ht : s.inf.TableOk) (start : may.start)
    (own : may.killAttached ∨ op.Spares env s) (leaves : may.Leaves s) :
    wp (fun _ => Ended may l) (op.call env) (fun _ t => Went may l t) (fun _ t => Went may l t) s := by
  have hlived : ∀ {y : SylvanM Unit},
      wp (fun _ => Ended may l) y (fun _ t => Lived may l s t) (fun _ t => Lived may l s t) s →
      wp (fun _ => Ended may l) y (fun _ t => Went may l t) (fun _ t => Went may l t) s :=
    fun hy => hy.imp (fun _ _ hl => hl.went ht) fun _ _ hl => hl.went ht
  cases op with
  | attach pid => exact hlived (wp_attach_life h start ht leaves)
  | detach => exact (wp_detach_life h ht leaves).imp (fun _ _ hl => hl.1.went ht) fun _ _ hl => hl.1.went ht
  | run => exact hlived (wp_run_life h start ht (own.imp id fun hs => hs rfl))
  | cont => exact wp_cont_life h start ht
  | stepinst => exact wp_stepinst_life h start ht
  | getRegs =>
    refine hlived (wp_bind.mpr (wp_checkedAccess_life (fun _ => ?_) h))
    exact wp_checked (wp_ptraceGetregs (fun _ => ⟨rfl, rfl⟩) fun _ _ _ _ => ⟨rfl, rfl⟩)
  | setRegs regs =>
    refine hlived (wp_checkedAccess_life (fun _ => ?_) h)
    exact wp_checked (wp_ptraceSetregs (fun _ => ⟨rfl, rfl⟩) fun _ _ _ _ => ⟨rfl, rfl⟩)
  | setFilepath path => exact hlived (h.wp_aside keeps_setFilepath)
  | setArgs args => exact hlived (h.wp_aside keeps_setArgs)
  | getMemory addr => exact hlived (h.wp_accessed (Keeps.bind keeps_getMemory fun _ => Keeps.pure _))
  | setMemory addr data => exact hlived (h.wp_accessed keeps_setMemory)
  | setBreakpointFunction function =>
    refine wp_bind.mpr ((h.wp_aside keeps_getLabelAddr).imp (fun addr t hl => ?_) fun _ _ hl => hl.went ht)
    have ht' := hl.entries.tableOk ht
    exact hl.lives.wp_edited edited_breakpointSet ((wp_breakpointSet_map ht').imp (fun _ _ h => h.1) fun _ _ => id)
  | breakpoint op => exact h.wp_edited op.edited ((op.wp_map ht).imp (fun _ _ h => h.1) fun _ _ => id)
  | clearall =>
    exact h.wp_edited edited_breakpointClearall ((wp_breakpointClearall_map ht).imp (fun _ _ h => h.1) fun _ _ => id)
  | destroy => exact wp_destroy_life h ht leaves

/-! ### Runs -/

theorem created_life (h : Created env s) : s.life = ⟨0, .none, false, []⟩ ∧ s.inf.TableOk := by
  obtain ⟨s₀, htrace, -, hcreate⟩ := h
  refine (?_ : wp (fun _ _ => True) (inferiorCreate env) (fun _ t => t.life = ⟨0, .none, false, []⟩ ∧ t.inf.TableOk)
    (fun _ _ => True) s₀).ok hcreate
  unfold inferiorCreate
  rw [wp_bind]
  refine wp_malloc fun b x => ?_
  rw [wp_bind, wp_when]
  split
  · trivial
  rw [wp_bind, wp_modify, wp_bind]
  refine (keeps_symInit (R := Aside) _).mono (fun _ t ht => ?_) (fun _ _ _ => trivial) fun _ _ _ => trivial
  have hlife : t.life = ⟨0, .none, false, []⟩ := ht.life.trans (congrArg (Life.mk 0 .none false) htrace)
  exact ⟨hlife, Inferior.tableOk_of_empty ht.count⟩

/-- In every run from a new inferior, the calls are sequences of lifecycle steps. -/
theorem went_of_run {allowed : State → Op → Prop} (hallowed : ∀ s op, allowed s op → may.killAttached ∨ op.Spares env s)
    (start : may.start) (leaves : ∀ s, may.Leaves s) (hs : Created env s) (hrun : Relation.ReflTransGen (Step env allowed) s t) : Went may ⟨0, .none, false, []⟩ t := by
  induction hrun with
  | refl =>
    obtain ⟨hlife, ht⟩ := created_life hs
    exact ⟨hlife ▸ Relation.ReflTransGen.refl, ht⟩
  | tail _ hstep ih =>
    obtain ⟨-, op, hop, hret⟩ := hstep
    exact (op.wp_life ih.lives ih.tableOk start (hallowed _ _ hop) (leaves _)).returns hret

end

end Sylvan
