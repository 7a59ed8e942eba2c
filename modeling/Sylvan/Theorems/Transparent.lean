import Sylvan.Theorems.NewProcess

/-! Installing every breakpoint of a table in a process and removing them again leaves the process as it was, also
    where the words that are read and written back overlap. -/

namespace Sylvan
open Exec

section
variable {env : Env} {s t u v : State}

/-- The two loops by which a process gets the breakpoints of the table, run one after the other. -/
theorem rebuilt_of_reinstalled (ht : s.inf.TableOk) (hreset : breakpointResetPhybp s = .ok () t)
    (hset : breakpointSetallPhybp env t = .ok () u) : Rebuilt s.inf u.inf u.proc.mem s.proc.mem := by
  have hboth : wp (fun _ _ => True) (do
      breakpointResetPhybp
      breakpointSetallPhybp env) (fun _ u => Rebuilt s.inf u.inf u.proc.mem s.proc.mem) (fun _ _ => True) s :=
    wp_reinstall_rebuilt ht (fun _ _ _ => trivial) (fun _ _ _ => trivial) fun _ _ h => h
  exact ((wp_bind.mp hboth).ok hreset).ok hset

/-- A call that succeeds found a live process. -/
theorem isActive_of_setall (h : breakpointSetallPhybp env t = .ok () u) : t.inf.IsActive := by
  by_contra hact
  refine (?_ : wp (fun _ _ => True) (breakpointSetallPhybp env) (fun _ _ => False) (fun _ _ => True) t).ok h
  unfold breakpointSetallPhybp
  rw [wp_bind, wp_get, wp_bind, wp_assert, if_neg hact]
  trivial

/-- Once the breakpoints are installed, the process holds `int3` at each address of the table, whose byte is saved in
    the entry, and what it held before elsewhere; once they are removed, it holds what it held before. -/
theorem install_remove_transparent (ht : s.inf.TableOk) (hreset : breakpointResetPhybp s = .ok () t)
    (hset : breakpointSetallPhybp env t = .ok () u) :
    (∀ a, (∀ i, i < s.inf.count → (s.inf.slot i).addr ≠ a) → u.proc.mem a = s.proc.mem a) ∧
    (∀ i, i < s.inf.count →
      u.proc.mem (s.inf.slot i).addr = 0xCC ∧ (u.inf.slot i).ogByte = s.proc.mem (s.inf.slot i).addr) ∧
    ∀ v, breakpointUnsetallPhybp env u = .ok () v →
      v.proc.mem = s.proc.mem ∧ ∀ i, i < v.inf.count → (v.inf.slot i).isEnabledPhy = false := by
  have hr := rebuilt_of_reinstalled ht hreset hset
  have hcount : u.inf.count = s.inf.count := Inferior.count_congr hr.count
  have haddr : ∀ i, (u.inf.slot i).addr = (s.inf.slot i).addr := fun i => (hr.entry i).1
  refine ⟨fun a hout => ?_, fun i hi => ?_, fun v hunset => ?_⟩
  · refine hr.hides.clear a fun i hi _ hkey => ?_
    exact hout i (hcount ▸ hi) ((haddr i).symm.trans hkey)
  · have hphy := hr.phy i (hcount ▸ hi)
    have hshown := hr.shows i (hcount ▸ hi) hphy
    have hsaved := hr.hides.saved i (hcount ▸ hi) hphy
    rw [haddr i] at hshown hsaved
    exact ⟨hshown, hsaved⟩
  · have htu : u.inf.TableOk := hr.toSameEntries.tableOk ht
    have hactt := isActive_of_setall hset
    have hed : t.Edited u := (edited_setallPhybp t).ok hset
    obtain ⟨hp, hoff⟩ := (wp_breakpointUnsetallPhybp (F := fun _ _ => True) htu (hed.isActive.mpr hactt)).ok hunset
    have hoff' : ∀ i, i < v.inf.count → (v.inf.slot i).isEnabledPhy = false := fun i hi =>
      hoff i (by rwa [Inferior.count_congr hp.count] at hi)
    have hhidden : v.Hides s.proc.mem := hp.hides _ hr.hides
    exact ⟨hhidden.eq_of_off hoff', hoff'⟩

/-- Two breakpoints at addresses next to each other. -/
theorem install_remove_transparent_adjacent :
    let calls : SylvanM Unit := do
      breakpointSet .compliant 4096
      breakpointSet .compliant 4097
    let s := State.attached.after calls
    let u := (s.after breakpointResetPhybp).after (breakpointSetallPhybp .compliant)
    ∀ a, (∀ i, i < s.inf.count → (s.inf.slot i).addr ≠ a) → u.proc.mem a = s.proc.mem a :=
  (install_remove_transparent (by decide +kernel) (State.after_ok (by decide +kernel))
    (State.after_ok (by decide +kernel))).1

end

end Sylvan
