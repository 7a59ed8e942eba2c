import Sylvan.Lifecycle
import Sylvan.Theorems.Frames
import Sylvan.Theorems.LastError

/-! The functions that only look for files and symbols (`utils.c`, `symbol.c`): they leave alone the
    breakpoints, the processes and the life of the inferior (`Aside`). -/

namespace Sylvan
open Exec

/-- `t` differs from `s` at most in the paths, the arguments, the symbol tables and the scratch part. -/
structure Aside (s t : State) : Prop where
  life : t.life = s.life
  breakpoints : t.inf.breakpoints = s.inf.breakpoints
  count : t.inf.breakpointCount = s.inf.breakpointCount
  procs : t.procs = s.procs

instance : IsPreorder State Aside where
  refl _ := ⟨rfl, rfl, rfl, rfl⟩
  trans _ _ _ h h' := ⟨h'.life.trans h.life, h'.breakpoints.trans h.breakpoints, h'.count.trans h.count,
    h'.procs.trans h.procs⟩

section
variable {env : Env} {α : Type} {s t : State} {x : Scratch} {code : Code} {text : String} {id : TableId}

theorem aside_withScratch : Aside s (s.withScratch x) := ⟨rfl, rfl, rfl, rfl⟩

theorem aside_setTable {table : SymTable} : Aside s (s.setTable id table) := by
  cases id <;> exact ⟨rfl, rfl, rfl, rfl⟩

theorem Aside.isActive (h : Aside s t) : t.inf.IsActive ↔ s.inf.IsActive := by
  have hstatus : t.inf.status = s.inf.status := congrArg Life.status h.life
  unfold Inferior.IsActive
  rw [hstatus]

instance : IgnoresTables Aside where
  scratch _ _ := aside_withScratch
  table _ _ _ := aside_setTable

instance : IgnoresPaths Aside where
  realpath _ _ := ⟨rfl, rfl, rfl, rfl⟩
  args _ _ := ⟨rfl, rfl, rfl, rfl⟩

/-! ### Starting a program -/

theorem wp_forkFailed {F : Fault → State → Prop} {Q : Child → State → Prop} {E : Code → State → Prop}
    (h : ∀ x, E .forkFailed (s.withScratch x)) : wp F (forkFailed env) Q E s := by
  unfold forkFailed
  rw [wp_bind]
  refine wp_plain fun _ x => ?_
  rw [wp_bind]
  exact wp_plain fun _ y => h _

/-- A function that only looks for something asserts nothing. -/
theorem wp_quiet {y : SylvanM α} (hkeeps : Keeps Aside y) (hquiet : FailsWith Orderly (Told env fun _ => True) y) :
    wp (fun f t => Aside s t ∧ Orderly f t) y (fun _ t => Aside s t) (fun _ t => Aside s t) s :=
  wp_of (fun _ _ hx => (hkeeps s).ok hx) (fun _ _ hx => (hkeeps s).error hx)
    fun _ _ hx => ⟨(hkeeps s).fault hx, (hquiet s).fault hx⟩

/-- Up to the wait for the child, `handle_parent` only reads from the pipe. -/
theorem wp_handleParent {F : Fault → State → Prop} {Q : Unit → State → Prop} {E : Code → State → Prop} {pid : Pid}
    (hside : ∀ t, Aside s t → Q () t ∧ (∀ c, E c t) ∧ ∀ f, Orderly f t → F f t)
    (hstarted : ∀ t, Aside s t → wp F (childStarted env pid) Q E t) : wp F (handleParent env pid) Q E s := by
  have hlook : ∀ {α : Type} {y : SylvanM α}, Keeps Aside y → FailsWith Orderly (Told env fun _ => True) y → ∀ {Q' : α → State → Prop} {t},
      Aside s t → (∀ a u, Aside s u → Q' a u) → wp F y Q' E t :=
    fun hy hq _ t ht hQ' => (wp_quiet hy hq).mono (fun a u hu => hQ' a u (trans_of Aside ht hu))
      (fun c u hu => (hside u (trans_of Aside ht hu)).2.1 c) fun f u hu => (hside u (trans_of Aside ht hu.1)).2.2 f hu.2
  unfold handleParent
  rw [wp_bind]
  refine hlook (keeps_checked keeps_plain) (told_checkedLiteral told_plain rfl) (refl_of Aside s) fun _ v hv => ?_
  rw [wp_bind]
  refine hlook (keeps_retry keeps_answered _) (told_retry told_answered _) hv fun r v hv => ?_
  rw [wp_bind]
  refine hlook (keeps_checked keeps_plain) (told_checkedLiteral told_plain rfl) hv fun _ v hv => ?_
  rw [wp_bind]
  refine hlook (keeps_handled (Keeps.pure r) fun _ => keeps_setErrnoMsg)
    (told_handled (FailsWith.pure r) fun _ => told_errnoLiteral rfl) hv fun bytes v hv => ?_
  dsimp only
  rw [wp_ite]
  split
  · exact hlook keeps_childFailed told_childFailed hv fun _ w hw => (hside w hw).1
  · exact hstarted v hv

end

end Sylvan
