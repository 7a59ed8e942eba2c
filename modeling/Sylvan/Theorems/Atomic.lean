import Sylvan.Theorems.TableMap

/-! Failed calls on a breakpoint. A call stores the logical state of the entry (and `set` the whole entry)
    before it asks anything of the process, and does not take it back when the process refuses, so a
    failed call leaves the table as it was only where there was nothing to store. -/

namespace Sylvan
open Exec

/-- The table and the memory of the process are as they were. -/
structure State.Unchanged (s t : State) : Prop where
  count : t.inf.breakpointCount = s.inf.breakpointCount
  slot : ∀ i, i < s.inf.count → t.inf.slot i = s.inf.slot i
  mem : t.proc.mem = s.proc.mem

/-- The call `op` has nothing to store before it first asks something of the process: it is refused at
    once, or the entry is in the logical state already that the call asks for. -/
def BreakpointOp.StoresNothing (s : State) : BreakpointOp → Prop
  | set addr => s.inf.breakpointCount = maxBreakpoints ∨ s.inf.logMap addr ≠ none
  | enable addr => s.inf.logMap addr ≠ some false
  | unset addr => s.inf.logMap addr ≠ some true
  | disable addr => s.inf.logMap addr ≠ some true

section
variable {env : Env} {F : Fault → State → Prop} {s t : State} {i : Nat} {addr : Addr} {op : BreakpointOp} {v : Bool}
  {x : Scratch} {code : Code}

theorem logMap_of_find (h : breakpointFindByAddr s.inf addr = some i) :
    s.inf.logMap addr = some (s.inf.slot i).isEnabledLog := by
  unfold Inferior.logMap SlotTable.lookup
  rw [show SlotTable.find Breakpoint.addr s.inf.slot s.inf.count addr = some i from h, Option.map_some]

theorem unchanged_withScratch : s.Unchanged (s.withScratch x) := ⟨rfl, fun _ _ => rfl, rfl⟩

/-- Storing a logical state changes nothing just where it is stored already. -/
theorem unchanged_setLog_iff (hi : i < s.inf.count) (hmax : i < maxBreakpoints) :
    s.Unchanged ((s.setLog i v).withScratch x) ↔ (s.inf.slot i).isEnabledLog = v := by
  constructor
  · intro h
    have hslot : (s.inf.setLog i v).slot i = s.inf.slot i := h.slot i hi
    rw [← hslot, Inferior.setLog, Inferior.slot_setSlot_self hmax]
  · intro h
    refine ⟨rfl, fun j _ => ?_, by rw [withScratch_proc, State.setLog_proc]⟩
    show (s.inf.setLog i v).slot j = s.inf.slot j
    rw [Inferior.setLog, Inferior.slot_setSlot hmax, ← h, Function.update_eq_self]

/-- How each call fails, for a live process. -/
theorem BreakpointOp.wp_failed (h0 : 0 ≤ s.inf.breakpointCount) (hle : s.inf.breakpointCount ≤ maxBreakpoints)
    (hact : s.inf.IsActive) :
    wp F (op.call env) (fun _ _ => True) (fun _ t => s.Unchanged t ↔ op.StoresNothing s) s := by
  have hcount : (s.inf.count : Int) = s.inf.breakpointCount := Int.toNat_of_nonneg h0
  have hlt : ∀ i, i < s.inf.count → i < maxBreakpoints := fun i hi => by omega
  cases op with
  | set addr =>
    refine wp_breakpointSet h0 hle (fun hfull x => iff_of_true unchanged_withScratch (Or.inl hfull))
      (fun hdup x => iff_of_true unchanged_withScratch (Or.inr fun h => hdup (Inferior.logMap_eq_none.mp h)))
      fun hfree hnew => ?_
    rw [if_pos hact]
    refine wp_breakpointEnablePtr hfree (fun _ => trivial) (fun _ _ _ => trivial) fun _ _ c x _ => iff_of_false ?_ ?_
    · intro h
      have hn : s.inf.breakpointCount + 1 = s.inf.breakpointCount := h.count
      omega
    · rintro (hfull | hdup)
      · omega
      · exact hdup (Inferior.logMap_eq_none.mpr hnew)
  | unset addr =>
    refine wp_breakpointUnset (fun hnone x => iff_of_true unchanged_withScratch ?_) fun i hfind => ?_
    · rw [StoresNothing, Inferior.logMap_eq_none.mpr hnone]
      exact fun h => by cases h
    · obtain ⟨hi, -⟩ := Inferior.find_some hfind
      have hpos : 0 < s.inf.breakpointCount := by omega
      refine wp_breakpointDisablePtr (hlt i hi) (fun _ => wp_breakpointDrop hpos hle (hlt i hi) trivial)
        (fun _ _ _ => wp_breakpointDrop hpos hle (hlt i hi) trivial) fun _ _ c x _ => ?_
      rw [unchanged_setLog_iff hi (hlt i hi), StoresNothing, logMap_of_find hfind]
      simp
  | enable addr =>
    refine wp_breakpointEnable (fun hnone x => iff_of_true unchanged_withScratch ?_) fun i hfind => ?_
    · rw [StoresNothing, Inferior.logMap_eq_none.mpr hnone]
      exact fun h => by cases h
    · obtain ⟨hi, -⟩ := Inferior.find_some hfind
      refine wp_breakpointEnablePtr (hlt i hi) (fun _ => trivial) (fun _ _ _ => trivial) fun _ _ c x _ => ?_
      rw [unchanged_setLog_iff hi (hlt i hi), StoresNothing, logMap_of_find hfind]
      simp
  | disable addr =>
    refine wp_breakpointDisable (fun hnone x => iff_of_true unchanged_withScratch ?_) fun i hfind => ?_
    · rw [StoresNothing, Inferior.logMap_eq_none.mpr hnone]
      exact fun h => by cases h
    · obtain ⟨hi, -⟩ := Inferior.find_some hfind
      refine wp_breakpointDisablePtr (hlt i hi) (fun _ => trivial) (fun _ _ _ => trivial) fun _ _ c x _ => ?_
      rw [unchanged_setLog_iff hi (hlt i hi), StoresNothing, logMap_of_find hfind]
      simp

/-- A call on a breakpoint of a live process that fails changes nothing just where it had nothing to store. -/
theorem failed_call_changes_nothing_iff (h0 : 0 ≤ s.inf.breakpointCount)
    (hle : s.inf.breakpointCount ≤ maxBreakpoints) (hact : s.inf.IsActive) (hfail : op.call env s = .error code t) :
    s.Unchanged t ↔ op.StoresNothing s :=
  (op.wp_failed (F := fun _ _ => True) h0 hle hact).error hfail

theorem failed_call_changes_nothing_iff_set :
    State.attached.Unchanged (State.attached.after (breakpointSet .deaf 4096)) ↔
      (BreakpointOp.set 4096).StoresNothing State.attached :=
  @failed_call_changes_nothing_iff .deaf State.attached _ (.set 4096) _ (by decide +kernel) (by decide +kernel) (by decide +kernel)
    (State.after_error (c := .ptracePeektextFailed) (by decide +kernel))

/-- A `set` that the process refuses has its entry in the table all the same. -/
theorem failed_set_leaves_entry :
    (breakpointSet .deaf 4096 State.attached).error? = some .ptracePeektextFailed ∧
      ¬State.attached.Unchanged (State.attached.after (breakpointSet .deaf 4096)) :=
  ⟨by decide +kernel, fun h => absurd h.count (by decide +kernel)⟩

end

end Sylvan
